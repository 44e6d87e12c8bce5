import FlatHeap.Proofs.Rules.Calls

/-!
# Stores

An instruction that stores takes a variable from the top of the operand stack, converts it to the type
of its slot and assigns the slot (`Rules.Puts`).  The slot may be a local slot, an argument or a field
(`Rules.Stores`); whichever it is, a value that the conversion yields lands in it (`Rules.Puts.lands`),
also on the machine (`Frame.Lands.onMachine`).

A variable that already has the type of the slot is not converted, and a slot that the operand stack does
not name is assigned by a copy alone (`Rules.storeTop_run`).
-/

namespace FlatHeap

open Lower FlatHeap.Frame Host.Machine Relation
open Bytecode (Instruction Opcode)

variable {rest : List VarRef} {n : Nat}

namespace Lower

variable {env : MethodEnv} {s s' : Frame} {v slot : VarRef} {source target : TypeRef}

lemma ok_of_bind {α β : Type} {m : Lower α} {f : α → Lower β} {b : β}
    (h : (m >>= f) env s = .ok b s') : ∃ a s₁, m env s = .ok a s₁ ∧ f a env s₁ = .ok b s' := by
  cases hm : m env s with
  | ok a s₁ => exact ⟨a, s₁, rfl, (bind_ok hm).symm.trans h⟩
  | error e s₁ => cases (bind_error hm).symm.trans h

lemma popStack_cons (h : s.stack = v :: rest) :
    popStack env s = .ok v { s with stack := rest } := by
  rw [popStack, get_bind, h]
  rfl

lemma localSlot_run (names : env.locals[n]? = some slot) : localSlot n env s = .ok slot s := by
  have hread : (read : Lower MethodEnv) env s = .ok env s := rfl
  rw [localSlot, bind_ok hread, names]
  rfl

lemma arg_run (names : env.args[n]? = some slot) : arg n env s = .ok slot s := by
  have hread : (read : Lower MethodEnv) env s = .ok env s := rfl
  rw [arg, bind_ok hread, names]
  rfl

lemma foldConstant?_run (hc : (s.draft.vars.get v).constant? = none) :
    foldConstant? v source target env s = .ok none s := by
  have hnone : constant? v env s = .ok none s := by
    rw [← hc]
    rfl
  rw [foldConstant?, metadata_bind, bind_ok hnone]
  rfl

lemma convert_self (hc : (s.draft.vars.get v).constant? = none)
    (htype : (s.draft.vars.get v).type = target) : convert v target env s = .ok v s := by
  have hsame : sameOnHost target target env s = .ok true s := by
    show EStateM.Result.ok (target == target || env.ident target == env.ident target ||
      (env.md.isReference target && env.md.isReference target && env.md.assignable target target)) s = _
    rw [beq_self_eq_true, Bool.true_or, Bool.true_or]
  show convertFrom v (s.draft.vars.get v).type target env s = _
  rw [htype, convertFrom]
  show (foldConstant? v target target >>= _) env s = _
  rw [bind_ok (foldConstant?_run hc)]
  show (sameOnHost target target >>= _) env s = _
  rw [bind_ok hsame]
  rfl

lemma snapshotFrom_run {p : VarRef → Bool} {entries : List (VarRef × Nat)}
    {copies : List (VarRef × VarRef)} (h : ∀ e ∈ entries, p e.1 = false) :
    snapshotFrom p entries copies env s = .ok () s := by
  induction entries with
  | nil => rfl
  | cons e rest ih =>
    obtain ⟨v, i⟩ := e
    have hv : p v = false := h (v, i) (by simp)
    rw [snapshotFrom]
    show (if !p v || (s.draft.vars.get v).isTemporary || (s.draft.vars.get v).isConstant then
      snapshotFrom p rest copies else _ : Lower Unit) env s = _
    rw [if_pos (by simp [hv])]
    exact ih fun e he => h e (List.mem_cons_of_mem _ he)

lemma store_run (h : slot ∉ s.stack) : store slot v env s = copy v slot env s := by
  have hsnap : snapshot (· == slot) env s = .ok () s := by
    show snapshotFrom (· == slot) s.stack.reverse.zipIdx [] env s = _
    refine snapshotFrom_run fun e he => ?_
    have hmem : e.1 ∈ s.stack := List.mem_reverse.1 (List.fst_mem_of_mem_zipIdx he)
    simp only [beq_eq_false_iff_ne]
    rintro rfl
    exact h hmem
  rw [store, bind_ok hsnap]

end Lower

namespace Rules

variable {env : MethodEnv} {s s₁ s₂ s' : Frame} {held : List VarRef} {v slot : VarRef}
  {j : Instruction}

/-- **A store instruction** has been lowered: a variable was taken from the top of the operand stack,
converted to the type of the slot and stored there. -/
structure Puts (env : MethodEnv) (held : List VarRef) (v slot : VarRef) (s s₁ s' : Frame) : Prop where
  code : s.draft.Continues env s₁.draft []
  stack : ∀ z ∈ s₁.stack, z ∈ s.stack
  balanced : s₁.Balanced env (v :: (s₁.stack ++ held)) []
  isSlot : env.IsSlot s₁.draft.vars slot
  run : (do store slot (← convert v (s₁.draft.vars.get slot).type) : Lower Unit) env s₁ = .ok () s'

inductive Stores (env : MethodEnv) (slot : VarRef) (s s' : Frame) : Prop
  | localSlot {j : Instruction} {n : Nat} (operand : j.operand = .localIndex n)
    (names : env.locals[n]? = some slot) (run : storeLocal.build j env s = .ok true s')
  | argument {j : Instruction} {n : Nat} (operand : j.operand = .arg n)
    (names : env.args[n]? = some slot) (run : storeArgument.build j env s = .ok true s')
  | field {j : Instruction} {f : FieldRef} {t : Frame} (opcode : j.opcode = .stfld)
    (operand : j.operand = .field f) (names : fieldVar f env s = .ok slot t)
    (run : ownField.build j env s = .ok true s')

lemma puts_of_storeTop (hb : s.Balanced env (s.stack ++ held) []) (hs : s.stack = v :: rest)
    (hslot : env.IsSlot s.draft.vars slot) (hrun : storeTop slot env s = .ok () s') :
    Puts env held v slot s { s with stack := rest } s' := by
  refine ⟨.refl env _, fun z hz => hs ▸ List.mem_cons_of_mem v hz, ?_, hslot, ?_⟩
  · rw [hs] at hb
    exact Lower.balanced_restack hb rest
  · rw [storeTop, bind_ok (popStack_cons hs)] at hrun
    exact hrun

lemma storeTop_run (hs : s.stack = v :: rest) (hslot : slot ∉ rest)
    (hc : (s.draft.vars.get v).constant? = none)
    (htype : (s.draft.vars.get v).type = (s.draft.vars.get slot).type) :
    storeTop slot env s = copy v slot env { s with stack := rest } := by
  have hconv : convert v (s.draft.vars.get slot).type env { s with stack := rest } =
      .ok v { s with stack := rest } := convert_self hc htype
  rw [storeTop, bind_ok (popStack_cons hs)]
  show (convert v (s.draft.vars.get slot).type >>= store slot) env { s with stack := rest } = _
  rw [bind_ok hconv, store_run hslot]

lemma slotIndex_run (h : j.operand = .localIndex n ∨ j.operand = .arg n) :
    j.slotIndex env s = .ok n s := by
  rw [Instruction.slotIndex]
  rcases h with h | h <;> rw [h] <;> rfl

lemma storeLocal_run (operand : j.operand = .localIndex n) (names : env.locals[n]? = some slot) :
    storeLocal.build j env s = (do storeTop slot; return true : Lower Bool) env s := by
  rw [storeLocal]
  dsimp only
  rw [bind_ok (slotIndex_run (.inl operand)), bind_ok (localSlot_run names)]

lemma storeArgument_run (operand : j.operand = .arg n) (names : env.args[n]? = some slot)
    (hself : isSelf slot = false) :
    storeArgument.build j env s = (do storeTop slot; return true : Lower Bool) env s := by
  rw [storeArgument]
  dsimp only
  rw [bind_ok (slotIndex_run (.inr operand)), bind_ok (arg_run names), if_neg (by simp [hself])]

lemma not_isSelf_of_storeArgument (operand : j.operand = .arg n) (names : env.args[n]? = some slot)
    (run : storeArgument.build j env s = .ok true s') : isSelf slot = false := by
  by_contra hself
  rw [storeArgument] at run
  dsimp only at run
  rw [bind_ok (slotIndex_run (.inr operand)), bind_ok (arg_run names), if_pos (by simpa using hself)] at run
  cases run

lemma puts_of_storeLocal (operand : j.operand = .localIndex n) (names : env.locals[n]? = some slot)
    (hb : s.Balanced env (s.stack ++ held) []) (hs : s.stack = v :: rest)
    (run : storeLocal.build j env s = .ok true s') :
    Puts env held v slot s { s with stack := rest } s' := by
  rw [storeLocal_run operand names] at run
  obtain ⟨_, s₁, htop, hpure⟩ := ok_of_bind run
  obtain rfl : s₁ = s' := (EStateM.Result.ok.inj hpure).2
  exact puts_of_storeTop hb hs (hb.slots slot (.inr (.inl (List.mem_of_getElem? names)))) htop

lemma puts_of_storeArgument (operand : j.operand = .arg n) (names : env.args[n]? = some slot)
    (hb : s.Balanced env (s.stack ++ held) []) (hs : s.stack = v :: rest)
    (run : storeArgument.build j env s = .ok true s') :
    Puts env held v slot s { s with stack := rest } s' := by
  rw [storeArgument_run operand names (not_isSelf_of_storeArgument operand names run)] at run
  obtain ⟨_, s₁, htop, hpure⟩ := ok_of_bind run
  obtain rfl : s₁ = s' := (EStateM.Result.ok.inj hpure).2
  exact puts_of_storeTop hb hs (hb.slots slot (.inl (List.mem_of_getElem? names))) htop

lemma ownField_run {f : FieldRef} {t : Frame} (opcode : j.opcode = .stfld)
    (operand : j.operand = .field f) (names : fieldVar f env s = .ok slot t)
    (hs : s.stack = v :: rest) (hstack : t.stack = s.stack)
    (run : ownField.build j env s = .ok true s') :
    ∃ below, rest = Draft.self :: below ∧
      (do store slot (← convert v (t.draft.vars.get slot).type) : Lower Unit) env
        { t with stack := below } = .ok () s' := by
  have hfield : j.field env s = .ok f s := by
    rw [Instruction.field, operand]
    rfl
  have hread : (read : Lower MethodEnv) env s = .ok env s := rfl
  rw [ownField] at run
  dsimp only at run
  rw [bind_ok hfield, bind_ok hread] at run
  by_cases hown : (!env.naming.contains (.field f)) = true
  · rw [if_pos hown] at run
    cases run
  rw [if_neg hown, opcode] at run
  obtain ⟨w, s₁, hpeek, hrest⟩ := ok_of_bind run
  obtain ⟨rfl, hw⟩ := ((peekStack_meets (R := Any) (E := fun _ => True) 1 trivial).ok hpeek).2
  by_cases hself : (!isSelf w) = true
  · rw [if_pos hself] at hrest
    cases hrest
  rw [if_neg hself, bind_ok names] at hrest
  obtain rfl : w = Draft.self := by simpa [isSelf] using hself
  obtain ⟨below, rfl⟩ : ∃ below, rest = Draft.self :: below := by
    rw [hs] at hw
    cases rest with
    | nil => cases hw
    | cons z below => exact ⟨below, by rw [Option.some.inj hw]⟩
  rw [hs] at hstack
  dsimp only at hrest
  rw [bind_ok (popStack_cons hstack), bind_ok (popStack_cons rfl)] at hrest
  rw [← bind_assoc, ← bind_assoc] at hrest
  obtain ⟨_, s₂, hstore, hpure⟩ := ok_of_bind hrest
  obtain rfl : s₂ = s' := (EStateM.Result.ok.inj hpure).2
  exact ⟨below, rfl, hstore⟩

lemma puts_of_ownField {f : FieldRef} {t : Frame} (opcode : j.opcode = .stfld)
    (operand : j.operand = .field f) (names : fieldVar f env s = .ok slot t)
    (hb : s.Balanced env (s.stack ++ held) []) (hs : s.stack = v :: rest)
    (run : ownField.build j env s = .ok true s') :
    Puts env held v slot s { t with stack := rest.tail } s' := by
  obtain ⟨hsil, hbt, hslot⟩ := (fieldVar_meets (R := Silent) f hb).ok names
  have hstack : t.stack = s.stack := by rw [hsil.rest]; rfl
  obtain ⟨below, rfl, hrun⟩ := ownField_run opcode operand names hs hstack run
  rw [hs] at hbt
  have hlet : t.Balanced env (v :: (below ++ held)) [] :=
    (hbt.perm (.swap Draft.self v (below ++ held))).letGo hbt.weightless_self
  refine ⟨hsil.records.code, fun z hz => ?_, balanced_restack hlet below, hslot, hrun⟩
  rw [hs]
  exact List.mem_cons_of_mem v (List.mem_cons_of_mem _ hz)

lemma Stores.puts (h : Stores env slot s s') (hb : s.Balanced env (s.stack ++ held) [])
    (hs : s.stack = v :: rest) : ∃ s₁, Puts env held v slot s s₁ s' := by
  cases h with
  | localSlot operand names run => exact ⟨_, puts_of_storeLocal operand names hb hs run⟩
  | argument operand names run => exact ⟨_, puts_of_storeArgument operand names hb hs run⟩
  | field opcode operand names run => exact ⟨_, puts_of_ownField opcode operand names hb hs run⟩

end Rules

/-! ## What is delivered -/

namespace Frame

variable {env : MethodEnv} {s t u s' : Frame} {v w slot : VarRef} {x y z : Value}

/-- **Landing a value.**  If a variable holds `x`, executing the code between two frames puts `y` into a
slot and keeps everything else but temporaries.  Slots on the operand stack are copied before they are
written, so their contents have to fit. -/
def Lands (env : MethodEnv) (s s' : Frame) (v : VarRef) (x : Value) (slot : VarRef) (y : Value) : Prop :=
  ∀ K σ, s'.draft.vars.Grows K → Store.Agrees K σ → ¬ Unfit env K s σ → σ v = x →
    ∃ τ, Leads env K s s' σ τ ∧ τ slot = y ∧ ∀ z, z ≠ slot → K.kind z ≠ .temporary → τ z = σ z

/-- **Landing a value on the machine.**  In every program that contains the code, from every state of the
machine in the middle of a run, the code runs to its end and leaves the stack alone. -/
def LandsOnMachine (env : MethodEnv) (s s' : Frame) (v : VarRef) (x : Value) (slot : VarRef)
    (y : Value) : Prop :=
  ∀ (P : Placed env.toClassEnv) (m : Host.Machine), P.Completes s' → P.Loaded m →
    ¬ Unfit env P.draft.vars s (storeOf P m) → storeOf P m v = x →
    ∃ m', Reaches P.image (UInt32.ofNat s.draft.codeSize, m)
        (UInt32.ofNat s'.draft.codeSize, m') ∧ m'.stack = m.stack ∧ storeOf P m' slot = y ∧
      ∀ z, z ≠ slot → P.draft.vars.kind z ≠ .temporary → storeOf P m' z = storeOf P m z

lemma Lands.onMachine (h : Lands env s s' v x slot y) : LandsOnMachine env s s' v x slot y := by
  intro P m hP hm hfit hx
  obtain ⟨τ, hleads, hslot, hrest⟩ :=
    h P.draft.vars (storeOf P m) hP.vars (storeOf_agrees hm) hfit hx
  have hfares : Fares env P.draft.vars s s' False (storeOf P m) fun ρ => ρ = τ :=
    hleads.fares rfl
  obtain ⟨ps, hps, -⟩ := hleads
  have hPs : P.Completes s := hP.sooner hps
  obtain ⟨stack, hs, hstack⟩ := hm.stack
  have hstart := shows_behind hPs hm hs hstack
  rcases hfares.approach hP le_rfl hstart with ⟨ρ, ⟨pc, m'⟩, hreach, hshows, hkept, rfl⟩ | ⟨hf, -⟩
  · have hstore (z : VarRef) : storeOf P m' z = ρ z := Rules.storeOf_of_shows hshows (hkept z)
    obtain rfl : pc = UInt32.ofNat s'.draft.codeSize := hP.pc_eq hshows
    refine ⟨m', ReflTransGen.mono (fun _ _ hm => hm.2) _ _ hreach, ?_, ?_, fun z hz hk => ?_⟩
    · exact hshows.stack.trans hstack.symm
    · rw [hstore, hslot]
    · rw [hstore, hrest z hz hk]
  · exact hf.elim

lemma Turns.lands {held : List VarRef} {t' : TypeRef}
    (hturn : Turns env (fun σ => σ v = x) (s.Keeps held) s t w y) (hw : IsOf t w t')
    (hfit : fits y (env.ident t') = true) (h : Lands env u s' w y slot z)
    (hdraft : u.draft = t.draft) (hstack : ∀ r ∈ u.stack, r = w ∨ r ∈ s.stack)
    (g : t.draft.vars.Grows s'.draft.vars) : Lands env s s' v x slot z := by
  intro K σ hK ha hunfit hx
  obtain ⟨τ, hleads, hy, hkeep⟩ := hturn K σ (g.trans hK) ha hx
  have hunfit' : ¬ Unfit env K u τ := by
    rintro ⟨r, hr, hslot, hbad⟩
    rcases hstack r hr with rfl | hr
    · rw [hy, (g.trans hK).type_eq hw.has, hw.type_eq, hfit] at hbad
      cases hbad
    · rw [hkeep.lasting r hslot.not_temporary] at hbad
      exact hunfit ⟨r, hr, hslot, hbad⟩
  obtain ⟨ρ, ⟨ps, hps, hr⟩, hz, hrest⟩ := h K τ hK (hkeep.agrees ha) hunfit' hy
  rw [hdraft] at hps
  refine ⟨ρ, hleads.trans ⟨ps, hps, hr⟩, hz, fun r hr hk => ?_⟩
  rw [hrest r hr hk, hkeep.lasting r hk]

end Frame

namespace Rules

variable {env : MethodEnv} {s s₁ s₂ s' : Frame} {held : List VarRef} {v slot : VarRef} {x y : Value}

lemma Puts.grows (h : Puts env held v slot s s₁ s') : s₁.draft.vars.Grows s'.draft.vars := by
  obtain ⟨out, s₂, hconv, hstore⟩ := ok_of_bind h.run
  obtain ⟨hworks, hb, -⟩ := (convert_works _ h.balanced).ok hconv
  rw [← hworks.stack_eq] at hb
  obtain ⟨hmoves, -⟩ := (store_meets hb (h.isSlot.grows hworks.vars)).ok hstore
  exact hworks.vars.trans hmoves.vars

lemma Puts.lands (h : Puts env held v slot s s₁ s') {t : TypeRef}
    (ht : (s'.draft.vars.get slot).type = t)
    (hy : Yields env (fun σ => σ v = x) (convert v t) s₁ (s₁.stack ++ held) [] t y)
    (hfit : fits y (env.ident t) = true) : Lands env s s' v x slot y := by
  rw [h.grows.type_eq h.isSlot.1] at ht
  obtain ⟨out, s₂, hconv, hstore⟩ := ok_of_bind h.run
  rw [ht] at hconv
  obtain ⟨hworks, hb, -, hturn⟩ := Meets.ok hy hconv
  rw [← hworks.stack_eq] at hb
  have hslot₂ : env.IsSlot s₂.draft.vars slot := h.isSlot.grows hworks.vars
  obtain ⟨hmoves, -, hassigns⟩ := (store_meets hb hslot₂).ok hstore
  intro K σ hK ha hunfit hx
  have hK₂ := hmoves.vars.trans hK
  obtain ⟨τ, hleads, hτ, hkeep⟩ := hturn K σ hK₂ ha hx
  have htype : (K.get slot).type = t := by rw [(hworks.vars.trans hK₂).type_eq h.isSlot.1, ht]
  obtain ⟨ps, hps, ⟨ρ, hr, hρ⟩ | ⟨hbad, -⟩⟩ := hassigns.fares K τ hK
  · refine ⟨ρ, Leads.trans ⟨[], h.code, .nil⟩ (hleads.trans ⟨ps, hps, hr⟩), hρ.1.trans hτ,
      fun z hz hk => ?_⟩
    rw [hρ.2.2 z hz (.inr hk), hkeep.lasting z hk]
  · rcases hbad with ⟨u, hu, huslot, hbad⟩ | hbad
    · refine absurd ⟨u, h.stack u (hworks.stack_eq ▸ hu), huslot, ?_⟩ hunfit
      rw [← hkeep.lasting u huslot.not_temporary]
      exact hbad
    · rw [hτ, htype, hfit] at hbad
      cases hbad

end Rules

/-! ## Runs of whole programs -/

/-- Whether a run from an entry point halts, and the contents of slots when it ends. -/
def Host.Program.outcome (p : Host.Program) (entry : String) (names : List String) :
    Bool × List (Option Value) :=
  let image := Host.Image.ofProgram p
  let contents (m : Host.Machine) := names.map fun name => (p.slotIndex? name).bind (m.heap[·]?)
  match Host.Machine.run image entry (Host.Machine.ofImage image) with
  | .ok () m => (true, contents m)
  | .error _ m => (false, contents m)

end FlatHeap
