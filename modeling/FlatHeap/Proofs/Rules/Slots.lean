import FlatHeap.Rules.Accessors
import FlatHeap.Proofs.Lowering.Arrivals
import FlatHeap.Proofs.Naming.Methods

/-!
# Accounts of rules: slots, constants and accessors

A rule lowers an instruction between two frames in which the hand is the operand stack.  It is *clean*
if the books balance afterwards when they did before, and if it leaves the frame alone when it
declines.  Whatever else may be in hand is a parameter, so that the same statement serves when
something has been lost earlier.

All rules but two are clean.  For most this holds for every instruction they might be offered, whether
or not its opcode is one of theirs (`Rule.Clean`); rules for branches rely on what they are offered
(`Rule.CleanAt`).  This module says what rules may rely on and treats the rules that only move variables
between slots and the operand stack.
-/

namespace FlatHeap

/-! ## What rules rely on -/

/-- Offsets grow, and branches land on instructions that do something. -/
structure MethodEnv.Laid (env : MethodEnv) : Prop where
  increasing : ∀ (j k : Nat) (a b : Bytecode.Instruction), env.code[j]? = some a → env.code[k]? = some b → j < k →
    a.offset < b.offset
  lands : ∀ e ∈ env.landings, e.2 = endOfBody ∨
    ∃ (k : Nat) (i : Bytecode.Instruction),
      env.code[k]? = some i ∧ i.offset = e.2 ∧ i.opcode ≠ .nop

structure Lower.Site (env : MethodEnv) (i : Bytecode.Instruction) (s : Frame) : Prop where
  laid : env.Laid
  fits : env.naming.Fits env.md
  timely : s.Timely env
  started : s.current.isSome
  targets : ∀ t ∈ i.targets, ∃ l, (t, l) ∈ env.landings

namespace Lower

open FlatHeap.Frame CompileError

variable {env : MethodEnv} {s s' : Frame} {held : List VarRef} {i : Bytecode.Instruction}

lemma Site.later (h : Site env i s) (g : Proceeds env s s') : Site env i s' :=
  { h with timely := g.timely h.timely, started := g.started h.started }

lemma Site.faces (h : Site env i s) {t : Nat} (ht : t ∈ i.targets) : s.Faces env t := by
  obtain ⟨l, hl⟩ := h.targets t ht
  obtain ⟨l', hlookup⟩ : ∃ l', env.landings.lookup t = some l' := by
    cases hn : env.landings.lookup t with
    | some l' => exact ⟨l', rfl⟩
    | none => simpa using List.lookup_eq_none_iff.1 hn _ hl
  have hmem := mem_of_lookup hlookup
  have hland : env.landing t = l' := by simp [MethodEnv.landing, hlookup]
  have htarget : env.isTarget (env.landing t) = true := by
    rw [hland]
    exact List.any_eq_true.2 ⟨_, hmem, by simp⟩
  refine ⟨htarget, fun hforward => ⟨htarget, ?_⟩⟩
  rw [hland] at hforward ⊢
  refine (h.laid.lands _ hmem).imp_right fun ⟨k, i', hk, hoff, hlive⟩ => ⟨k, i', ?_, hk, hoff, hlive⟩
  obtain ⟨c, hc⟩ := Option.isSome_iff_exists.1 h.started
  obtain ⟨hcursor, hsize⟩ := h.timely.position c hc
  have hcode : env.code[c]? = some env.code[c] := Array.getElem?_eq_getElem hsize
  have hhere : s.offset env = env.code[c].offset := by simp [offset, hc, hcode]
  rw [hcursor]
  rcases Nat.lt_trichotomy k c with hlt | rfl | hgt
  · have := h.laid.increasing k c _ _ hk hcode hlt
    omega
  · have : env.code[k] = i' := Option.some.inj (hcode.symm.trans hk)
    rw [this] at hhere
    omega
  · exact hgt

/-! ## Clean rules -/

/-- What a rule leaves: the books balance, or it has declined and done nothing. -/
def Settled (env : MethodEnv) (held : List VarRef) (s : Frame) : Bool → Frame → Prop
  | true, s' => s'.Balanced env (s'.stack ++ held) []
  | false, s' => s' = s

end Lower

/-- How many entries of the operand stack a branch is decided by. -/
def Bytecode.Opcode.decides : Opcode → Nat
  | .brtrue | .brtrueS | .brfalse | .brfalseS | .switch => 1
  | .beq | .beqS | .bneUn | .bneUnS | .bge | .bgeS | .bgeUn | .bgeUnS | .bgt | .bgtS | .bgtUn
  | .bgtUnS | .ble | .bleS | .bleUn | .bleUnS | .blt | .bltS | .bltUn | .bltUnS => 2
  | _ => 0

/-- The entries of the operand stack that branches of an instruction carry: those below the ones that
decide the branch. -/
def Lower.carriedAt (i : Bytecode.Instruction) (s : Frame) : List VarRef :=
  s.stack.drop i.opcode.decides

/-- The rule keeps the books when it is offered an instruction, and its branches carry what they
should. -/
def Rule.CleanAt (env : MethodEnv) (i : Bytecode.Instruction) (r : Rule) : Prop :=
  ∀ {s : Frame} {held : List VarRef}, Lower.Site env i s → s.Balanced env (s.stack ++ held) [] →
    Lower.Meets (Frame.Advances env (Lower.carriedAt i s)) CompileError.Harmless (r.build i) env s
      (Lower.Settled env held s)

/-- The rule keeps the books whatever instruction it is offered. -/
def Rule.Clean (r : Rule) : Prop := ∀ (env : MethodEnv) (i : Bytecode.Instruction), r.CleanAt env i

namespace Lower

open FlatHeap.Frame CompileError

variable {α : Type} {R : Frame → Frame → Prop} {E : CompileError → Prop} {env : MethodEnv}
  {s s₀ s' : Frame} {held kept carried : List VarRef} {v : VarRef} {i : Bytecode.Instruction}

lemma Meets.claim {m : Lower Unit} (h : Meets (Advances env carried) Harmless m env s fun _ s' =>
      s'.Balanced env (s'.stack ++ held) []) :
    Meets (Advances env carried) Harmless (do
      m
      return true) env s (Settled env held s₀) :=
  h.bind fun _ _ _ hb => meets_pure hb

lemma Meets.claimBind {m : Lower α} {f : α → Lower Unit}
    (h : Meets (Advances env carried) Harmless (m >>= f) env s fun _ s' =>
      s'.Balanced env (s'.stack ++ held) []) :
    Meets (Advances env carried) Harmless (do
      let a ← m
      f a
      return true) env s (Settled env held s₀) := by
  rw [← bind_assoc]
  exact h.claim

/-! ## Operands of instructions -/

lemma slotIndex_meets [Std.Refl R] (i : Bytecode.Instruction) :
    Meets R Harmless i.slotIndex env s fun _ s' => s' = s := by
  unfold Bytecode.Instruction.slotIndex
  split
  · exact meets_pure rfl
  · exact meets_pure rfl
  · exact meets_breach (harmless_invariant rfl)

lemma method_meets [Std.Refl R] (i : Bytecode.Instruction) :
    Meets R Harmless i.method env s fun m s' => s' = s ∧ i.operand = .method m := by
  unfold Bytecode.Instruction.method
  split
  · rename_i m hm
    exact meets_pure ⟨rfl, hm⟩
  · exact meets_breach (harmless_invariant rfl)

lemma field_meets [Std.Refl R] (i : Bytecode.Instruction) :
    Meets R Harmless i.field env s fun f s' => s' = s ∧ i.operand = .field f := by
  unfold Bytecode.Instruction.field
  split
  · rename_i f hf
    exact meets_pure ⟨rfl, hf⟩
  · exact meets_breach (harmless_invariant rfl)

lemma type_meets [Std.Refl R] (i : Bytecode.Instruction) :
    Meets R Harmless i.type env s fun _ s' => s' = s := by
  unfold Bytecode.Instruction.type
  split
  · exact meets_pure rfl
  · exact meets_breach (harmless_invariant rfl)

lemma target_meets [Std.Refl R] (i : Bytecode.Instruction) :
    Meets R Harmless i.target env s fun t s' => s' = s ∧ t ∈ i.targets := by
  unfold Bytecode.Instruction.target
  split
  · rename_i t ht
    exact meets_pure ⟨rfl, by simp [Bytecode.Instruction.targets, ht]⟩
  · exact meets_breach (harmless_invariant rfl)

lemma arg_meets [Std.Refl R] (n : Nat) :
    Meets R Harmless (arg n) env s fun v s' => s' = s ∧ v ∈ env.args := by
  rw [arg, meets_read_bind]
  cases hv : env.args[n]? with
  | some v => exact meets_pure ⟨rfl, List.mem_of_getElem? hv⟩
  | none => exact meets_breach (harmless_invariant rfl)

lemma localSlot_meets [Std.Refl R] (n : Nat) :
    Meets R Harmless (localSlot n) env s fun v s' => s' = s ∧ v ∈ env.locals := by
  rw [localSlot, meets_read_bind]
  cases hv : env.locals[n]? with
  | some v => exact meets_pure ⟨rfl, List.mem_of_getElem? hv⟩
  | none => exact meets_breach (harmless_invariant rfl)

lemma ofExcept_meets [Std.Refl R] {x : Except CompileError α}
    (hE : ∀ e, x = .error e → E e) :
    Meets R E (ofExcept x) env s fun a s' => s' = s ∧ x = .ok a := by
  cases x with
  | ok a => exact meets_pure ⟨rfl, rfl⟩
  | error e => exact meets_throw (hE e rfl)

lemma pushWeightless_meets [Restacks R] (h : s.Balanced env (s.stack ++ held) kept)
    (hv : env.Weightless s.draft.vars v) :
    Meets R E (pushStack v) env s fun _ s' => s'.Balanced env (s'.stack ++ held) kept :=
  pushStack_meets (h.hold hv)

end Lower

/-! ## Arguments, local slots and constants -/

namespace Rules

open Lower FlatHeap.Frame CompileError

variable {env : MethodEnv} {s s' : Frame} {held kept carried : List VarRef} {v w slot : VarRef}

lemma noOp_clean : noOp.Clean := fun _ _ _ _ _ h => meets_pure h

lemma loadArgument_clean : loadArgument.Clean := by
  intro env i s held _ h
  refine (slotIndex_meets i).bind fun n s₁ _ h₁ => ?_
  subst h₁
  refine (arg_meets n).look fun v hv => ?_
  have hslot := h.slots v (.inl hv)
  rw [meets_read_bind]
  refine meets_ite (fun _ => ?_) fun _ => ?_
  · refine (addressOf_meets h hslot).silently.bind fun a s₃ _ h₃ => ?_
    obtain ⟨g, hb, ha⟩ := h₃
    rw [← g.stack_eq] at hb
    exact (pushWeightless_meets hb ha).claim
  · exact (pushWeightless_meets h hslot.weightless).claim

lemma storeValue_meets (t : TypeRef) (h : s.Balanced env (v :: (s.stack ++ held)) [])
    (hs : env.IsSlot s.draft.vars slot) :
    Meets (Advances env carried) Harmless (do store slot (← convert v t)) env s fun _ s' =>
      s'.Balanced env (s'.stack ++ held) [] := by
  refine (convert_works t h).works.bind fun out s₁ _ h₁ => ?_
  obtain ⟨g, hb⟩ := h₁
  have hs₁ : env.IsSlot s₁.draft.vars slot := hs.grows g.vars
  rw [← g.stack_eq] at hb
  exact ((store_meets hb.1 hs₁).assigns fun v e => e ▸ hs₁).mono fun _ _ _ h₂ => h₂.2.1

lemma storeTop_meets (h : s.Balanced env (s.stack ++ held) []) (hs : env.IsSlot s.draft.vars slot) :
    Meets (Advances env carried) Harmless (storeTop slot) env s fun _ s' =>
      s'.Balanced env (s'.stack ++ held) [] := by
  refine (popStack_meets [] h (harmless_invariant rfl)).bind fun v s₁ _ h₁ => ?_
  obtain ⟨hb, -, hrest⟩ := h₁
  rw [meets_typeOf_bind]
  refine storeValue_meets _ hb ?_
  rwa [hrest]

lemma storeArgument_clean : storeArgument.Clean := by
  intro env i s held _ h
  refine (slotIndex_meets i).bind fun n s₁ _ h₁ => ?_
  subst h₁
  refine (arg_meets n).look fun slot hv => ?_
  refine meets_ite (fun _ => meets_refuse (harmless_unsupported _)) fun _ => ?_
  exact (storeTop_meets h (h.slots slot (.inl hv))).claim

lemma loadLocal_clean : loadLocal.Clean := by
  intro env i s held _ h
  refine (slotIndex_meets i).bind fun n s₁ _ h₁ => ?_
  subst h₁
  refine (localSlot_meets n).look fun slot hv => ?_
  exact (pushWeightless_meets h (h.slots slot (.inr (.inl hv))).weightless).claim

lemma storeLocal_clean : storeLocal.Clean := by
  intro env i s held _ h
  refine (slotIndex_meets i).bind fun n s₁ _ h₁ => ?_
  subst h₁
  refine (localSlot_meets n).look fun slot hv => ?_
  exact (storeTop_meets h (h.slots slot (.inr (.inl hv)))).claim

lemma pushAddress_meets (h : s.Balanced env (s.stack ++ held) [])
    (hs : env.IsSlot s.draft.vars slot) :
    Meets (Advances env carried) Harmless (do pushStack (← addressOf slot)) env s fun _ s' =>
      s'.Balanced env (s'.stack ++ held) [] := by
  refine (addressOf_meets h hs).silently.bind fun a s₁ _ h₁ => ?_
  obtain ⟨g, hb, ha⟩ := h₁
  rw [← g.stack_eq] at hb
  exact pushWeightless_meets hb ha

lemma loadAddress_clean : loadAddress.Clean := by
  intro env i s held _ h
  refine (slotIndex_meets i).bind fun n s₁ _ h₁ => ?_
  subst h₁
  refine meets_ite (fun _ => ?_) fun _ => ?_
  · refine (arg_meets n).look fun slot hv => ?_
    exact (pushAddress_meets h (h.slots slot (.inl hv))).claimBind
  · refine (localSlot_meets n).look fun slot hv => ?_
    exact (pushAddress_meets h (h.slots slot (.inr (.inl hv)))).claimBind

lemma pushConstant_meets (x : Value) (t : TypeRef) (h : s.Balanced env (s.stack ++ held) kept) :
    Meets (Advances env carried) E (do pushStack (← constant x t)) env s fun _ s' =>
      s'.Balanced env (s'.stack ++ held) kept := by
  refine (constant_meets h x t).silently.bind fun c s₁ _ h₁ => ?_
  obtain ⟨g, hb, hc⟩ := h₁
  rw [← g.stack_eq] at hb
  exact pushWeightless_meets hb hc.weightless

lemma loadConstant_clean : loadConstant.Clean := by
  intro env i s held _ h
  simp only [loadConstant]
  rcases i.loadedConstant? with _ | ⟨value, t⟩
  · exact meets_pure rfl
  · exact (pushConstant_meets value t h).claimBind

lemma dropTop_clean : dropTop.Clean := by
  intro env i s held _ h
  refine (popStack_meets [] h (harmless_invariant rfl)).bind fun v s₁ _ h₁ => ?_
  obtain ⟨hb, -, -⟩ := h₁
  refine ((discardVar_meets hb).silently.mono fun _ s₂ _ h₂ => ?_).claim
  rw [h₂.1.stack_eq]
  exact h₂.2

lemma allocateElement_meets {a i : VarRef} (h : s.Balanced env held []) (hv : v ∈ held)
    (hk : s.draft.vars.kind v = .element a i) :
    Meets Silent E (do
      allocate a 1
      allocate i 1) env s fun _ s' => s'.Balanced env (v :: held) [] := by
  have hparts := h.tidy.parts v a i hk
  have husable := h.usable v hv
  refine (allocatePart_meets h hv hk (.inl rfl)).bind fun _ s₁ g₁ hb₁ => ?_
  have hk₁ := (g₁.vars.kind_eq husable.1).trans hk
  refine (allocatePart_meets hb₁ (List.mem_append_right _ hv) hk₁ (.inr rfl)).mono
    fun _ s₂ g₂ hb₂ => ?_
  have g := g₁.vars.trans g₂.vars
  refine Balanced.gather (hb₂.perm ?_) (husable.grows g)
  rw [Variables.reads_of_element ((g.kind_eq husable.1).trans hk),
    filter_temporary_grows g (l := [a, i]) (by simpa using hparts),
    filter_temporary_grows g₁.vars (l := [i]) (by simpa using hparts.2), ← List.append_assoc]
  refine List.Perm.append_right held ?_
  rw [show [a, i] = [a] ++ [i] from rfl, List.filter_append]
  exact List.perm_append_comm

lemma duplicate_clean : duplicate.Clean := by
  intro env i s held _ h
  refine (peekStack_meets 0 (harmless_invariant rfl)).look fun top htop => ?_
  have hmem : top ∈ s.stack ++ held := List.mem_append_left _ (List.mem_of_getElem? htop)
  rw [meets_var_bind]
  have push {m : Lower Unit} (hm : Meets Silent Harmless m env s fun _ s' =>
      s'.Balanced env (top :: (s.stack ++ held)) []) :
      Meets (Advances env (carriedAt i s)) Harmless (do
        m
        pushStack top
        return true) env s (Settled env held s) := by
    refine hm.silently.bind fun _ s₂ _ h₂ => ?_
    obtain ⟨g, hb⟩ := h₂
    rw [← g.stack_eq] at hb
    exact (pushStack_meets hb).claim
  cases hk : (s.draft.vars.get top).kind with
  | element a j =>
    have := push (allocateElement_meets h hmem hk)
    rwa [bind_assoc] at this
  | _ =>
    refine push (allocate_meets h hmem (fun a j e => ?_) 1)
    exact absurd (hk.symm.trans e) (by simp)

/-! ## Trivial accessors -/

lemma popSelf_meets {R : Frame → Frame → Prop} [Restacks R] (l : List VarRef)
    (h : s.Balanced env (l ++ (s.stack ++ held)) kept) (hv : s.stack[0]? = some v)
    (hself : isSelf v = true) :
    Meets R Harmless popStack env s fun _ s' =>
      s'.Balanced env (l ++ (s'.stack ++ held)) kept ∧ s' = { s with stack := s.stack.tail } := by
  refine (popStack_meets l h (harmless_invariant rfl)).mono fun w s₁ _ h₁ => ?_
  obtain ⟨hb, hs, hrest⟩ := h₁
  obtain rfl : w = v := by simpa [hs] using hv
  obtain rfl : w = Draft.self := by simpa [isSelf] using hself
  exact ⟨hb.letGo hb.weightless_self, by rwa [hs, List.tail_cons]⟩

lemma reachesItself_meets {R : Frame → Frame → Prop} [Std.Refl R] [IsTrans Frame R]
    (i : Bytecode.Instruction) (m : MethodRef) :
    Meets R Harmless (reachesItself i m) env s fun _ s' => s' = s := by
  rw [reachesItself, meets_read_bind]
  refine (ofExcept_meets fun e he => harmless_lookup he).bind fun symbol s₁ _ h₁ => ?_
  exact meets_pure h₁.1

lemma pushField_meets (f : FieldRef) (h : s.Balanced env (s.stack ++ held) []) :
    Meets (Advances env carried) Harmless (do pushStack (← fieldVar f)) env s fun _ s' =>
      s'.Balanced env (s'.stack ++ held) [] := by
  refine (fieldVar_meets f h).silently.bind fun slot s₁ _ h₁ => ?_
  obtain ⟨g, hb, hslot⟩ := h₁
  rw [← g.stack_eq] at hb
  exact pushWeightless_meets hb hslot.weightless

lemma accessorShortcut_clean (accessors : List (MethodRef × Accessor)) :
    (accessorShortcut accessors).Clean := by
  intro env i s held _ h
  simp only [accessorShortcut]
  split
  swap
  · exact meets_pure rfl
  split
  swap
  · exact meets_pure rfl
  rename_i m _ _ accessor _
  refine (reachesItself_meets i m).bind fun itself s₁ _ h₁ => ?_
  subst h₁
  refine meets_ite (fun _ => meets_pure rfl) fun _ => ?_
  cases accessor with
  | getter f =>
    refine (peekStack_meets 0 (harmless_invariant rfl)).look fun top htop => ?_
    refine meets_ite (fun _ => meets_pure rfl) fun hself => ?_
    refine (popSelf_meets [] h htop (by simpa using hself)).bind fun _ s₃ _ h₃ => ?_
    exact (pushField_meets f h₃.1).claimBind
  | setter f =>
    refine (peekStack_meets 1 (harmless_invariant rfl)).look fun second hsecond => ?_
    refine meets_ite (fun _ => meets_pure rfl) fun hself => ?_
    refine (popStack_meets [] h (harmless_invariant rfl)).bind fun v s₃ _ h₃ => ?_
    obtain ⟨hb₃, hs₃, -⟩ := h₃
    have hhead : s₃.stack[0]? = some second := by simpa [hs₃] using hsecond
    refine (popSelf_meets [v] hb₃ hhead (by simpa using hself)).bind fun _ s₄ _ h₄ => ?_
    refine (fieldVar_meets f h₄.1).silently.bind fun slot s₅ _ h₅ => ?_
    obtain ⟨g, hb₅, hslot⟩ := h₅
    rw [← g.stack_eq] at hb₅
    rw [meets_typeOf_bind]
    exact (storeValue_meets _ hb₅ hslot).claimBind

end Rules

end FlatHeap
