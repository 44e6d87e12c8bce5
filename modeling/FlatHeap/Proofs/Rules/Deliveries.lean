import FlatHeap.Proofs.Host.Results
import FlatHeap.Proofs.Rules.Stores

/-!
# Deliveries of results

The result of a host operation or of a call goes to a fresh temporary, which is left on the operand
stack.  If the next instruction does nothing but store it into a slot, the slot is written directly and
the instruction is left out.

`Delivery.direct` goes to the destination, `Delivery.indirect` over a temporary and the store.  Both are
`Delivery.into` at some variable, whose code is described by `Delivery.IsCode`.  On a machine this code
writes what `Delivery.outcome?` says, and comes to a fault if that is nothing.
-/

namespace FlatHeap

open Lower FlatHeap.Frame Host.Machine Relation
open Bytecode (Instruction)
open Function (update)

/-! ## Host operations on the machine -/

namespace Placed

open Host.Signature (answer?)

variable {env : ClassEnv} {P : Placed env} {i n : Nat} {σ : Store} {c : Config} {cv out v : VarRef}
  {reads stack : List VarRef} {signature : String} {y : Value} {x x' : ExecState}

lemma moves_invoke (op : P.ops[i]? = some (.invoke cv)) (named : σ cv = .text signature)
    (hresult : ∀ call, Host.Signature.parse? signature = some call → call.result ≠ "SystemVoid")
    (h : answer? signature (reads.map σ) = some (y, n)) :
    P.Moves ⟨i, σ, out :: reads⟩ ⟨i + 1, update σ out y, reads.drop n⟩ := by
  obtain ⟨call, hparse, rfl, hle, hy⟩ := Host.Signature.answer?_eq_some_iff.1 h
  rw [List.length_map] at hle
  rw [← List.map_take] at hy
  have hmove : P.Moves ⟨i, σ, (some out).toList ++ (reads.take call.arity ++ reads.drop call.arity)⟩
      ⟨i + 1, (some out).elim σ (update σ · y), reads.drop call.arity⟩ :=
    .invoke op named hparse (by simpa using hle) (by simp [hresult call hparse]) hy
  rw [List.take_append_drop] at hmove
  exact hmove

lemma Shows.holding (h : P.Shows x c) {vs : List VarRef} (hvs : ∀ v ∈ vs, v ∈ P.order) :
    c.2.Holding (vs.map P.index) (vs.map x.store) := by
  rw [Holding, List.forall₂_map_left_iff, List.forall₂_map_right_iff, List.forall₂_same]
  exact fun v hv => h.heap v (hvs v hv)

lemma Shows.answer?_of_invocation (h : P.Shows ⟨i, σ, out :: reads⟩ c) (hcv : cv ∈ P.order)
    (named : σ cv = .text signature)
    (hresult : ∀ call, Host.Signature.parse? signature = some call → call.result ≠ "SystemVoid")
    (inv : c.2.Invocation (P.index cv)) :
    answer? signature (reads.map σ) = some (inv.result, inv.call.arity) := by
  have hsig : inv.signature = signature := by
    have hread : some (σ cv) = some (.text inv.signature) :=
      (h.heap cv hcv).symm.trans inv.signature_eq
    rw [named] at hread
    simpa using hread.symm
  have hcall : Host.Signature.parse? signature = some inv.call := hsig ▸ inv.call_eq
  obtain ⟨t, ht⟩ : ∃ t, inv.target = some t := by
    refine Option.ne_none_iff_exists'.1 fun htarget => ?_
    exact hresult inv.call hcall (inv.target_eq.1 htarget)
  have hreads : reads.map P.index = inv.inputs ++ inv.rest := by
    have hstack : P.index out :: reads.map P.index = t :: (inv.inputs ++ inv.rest) := by
      have heq := h.stack.symm.trans inv.stack_eq
      rw [ht] at heq
      exact heq
    exact (List.cons.inj hstack).2
  have hle : inv.call.arity ≤ reads.length := by
    have hlength := congrArg List.length hreads
    rw [List.length_map, List.length_append, inv.arity] at hlength
    omega
  have hvalues : inv.values = (reads.take inv.call.arity).map σ := by
    have hinputs : inv.inputs = (reads.take inv.call.arity).map P.index := by
      rw [List.map_take, hreads, ← inv.arity, List.take_left]
    have hheld : c.2.Holding inv.inputs ((reads.take inv.call.arity).map σ) := by
      rw [hinputs]
      apply h.holding
      intro v hv
      exact h.stacked v (List.mem_cons_of_mem _ (List.mem_of_mem_take hv))
    refine List.right_unique_forall₂' (fun x v w hv hw => ?_) inv.holding hheld
    exact Option.some.inj (hv.symm.trans hw)
  refine Host.Signature.answer?_eq_some_iff.2 ⟨inv.call, hcall, rfl, by simpa using hle, ?_⟩
  rw [← List.map_take, ← hvalues]
  exact inv.evaluates

lemma Shows.invoke_fails (h : P.Shows ⟨i, σ, out :: reads⟩ c) (op : P.ops[i]? = some (.invoke cv))
    (named : σ cv = .text signature)
    (hresult : ∀ call, Host.Signature.parse? signature = some call → call.result ≠ "SystemVoid")
    (hnone : answer? signature (reads.map σ) = none) : ∃ e, Fails P.image e c := by
  have hcv : cv ∈ P.order := mem_order (mem_ops op) rfl
  obtain ⟨hhalt, hfetch⟩ := h.fetch op (instruction?_invoke hcv)
  cases he : execute P.image c.1 (.unary .invoke (P.index cv)) c.2 with
  | error e m => exact ⟨e, hhalt, _, m, hfetch, he⟩
  | ok pc m =>
    obtain ⟨-, inv, -⟩ := execute_invoke_iff.1 he
    have hsome := h.answer?_of_invocation hcv named hresult inv
    rw [hnone] at hsome
    cases hsome

lemma moves_to_op {vs : List VarRef} {op : Op} {pre post : List Op} (stack : List VarRef)
    (h : P.ops = pre ++ (vs.map .push ++ op :: post)) :
    P.ops[(pre ++ vs.map Op.push).length]? = some op ∧
      ReflTransGen P.Moves ⟨pre.length, σ, stack⟩
        ⟨(pre ++ vs.map Op.push).length, σ, vs.reverse ++ stack⟩ :=
  ⟨op_at (h.trans (List.append_assoc _ _ _).symm),
    ReflTransGen.mono (fun _ _ hm => hm.2) _ _ (movesBefore_pushes vs stack h le_rfl)⟩

lemma Moves.store_eq (hm : P.Moves x x') (hstacked : ∀ v ∈ x.stack, v ∈ P.order)
    (hv : v ∉ P.order) : x'.store v = x.store v := by
  have hne {w : VarRef} (hw : w ∈ x.stack) : v ≠ w := by
    rintro rfl
    exact hv (hstacked v hw)
  cases hm with
  | copy => exact Function.update_of_ne (hne (by simp)) ..
  | @invoke i σ stack c signature call inputs target y =>
    cases target with
    | none => rfl
    | some out => exact Function.update_of_ne (hne (by simp)) ..
  | _ => rfl

end Placed

/-! ## Deliveries -/

/-- The rule that lowers an instruction that stores into a local slot or an argument. -/
def Bytecode.Instruction.storeRule (i : Instruction) : Rule :=
  if i.opcode = .stargS ∨ i.opcode = .starg then Rules.storeArgument else Rules.storeLocal

namespace Lower

lemma meets_of_run {α : Type} {E : CompileError → Prop} {m m' : Lower α} {env : MethodEnv}
    {s s' : Frame} {Q : α → Frame → Prop} (h : m env s = m' env s') (hm : Meets Any E m' env s' Q) :
    Meets Any E m env s Q := by
  simp only [Meets, h]
  exact hm

lemma ok_iff_of_meets {E : CompileError → Prop} {m : Lower Unit} {env : MethodEnv} {s : Frame}
    {Q : Unit → Frame → Prop} {p : Prop} (h : Meets Any E m env s Q) (hQ : ∀ s', Q () s' → p)
    (hE : ∀ e, E e → ¬ p) : (∃ s', m env s = .ok () s') ↔ p := by
  constructor
  · rintro ⟨s', hm⟩
    exact hQ s' (h.ok hm).2
  · intro hp
    cases hm : m env s with
    | ok a s' => exact ⟨s', rfl⟩
    | error e s' => exact absurd hp (hE e (h.error hm))

/-- Lower the next instruction, which stores the top of the operand stack. -/
def storeNext : Lower Unit := do
  let some k ← next? | return
  let some i := (← read).code[k]? | return
  beginInstruction i.offset
  let _ ← i.storeRule.build i

/-- What is recorded at the start of an instruction that nothing jumps to. -/
def sourceMarks (env : MethodEnv) (offset : Nat) : List Piece :=
  if env.options.sourceMap then [.source env.number offset] else []

/-- Code of a store of a variable that is only copied. -/
def storePieces (env : MethodEnv) (offset : Nat) (v slot : VarRef) : List Piece :=
  sourceMarks env offset ++ [.copy v slot]

lemma runs_storePieces {env : MethodEnv} {host : VarRef → String} {v slot : VarRef} {σ : Store}
    (offset : Nat) (hfit : fits (σ v) (host slot) = true) :
    Runs host (storePieces env offset v slot) σ (update σ slot (σ v)) := by
  unfold storePieces sourceMarks
  split_ifs
  · exact .source (.copy hfit .nil)
  · exact .copy hfit .nil

lemma push_mem_storePieces (env : MethodEnv) (offset : Nat) (v slot : VarRef) :
    Op.push slot ∈ (storePieces env offset v slot).flatMap Piece.ops := by
  simp [storePieces, Piece.ops]

variable {env : MethodEnv} {s : Frame} {t : TypeRef} {v slot : VarRef} {k : Nat} {i : Instruction}

lemma beginInstruction_passed (ht : env.isTarget i.offset = false) (hflow : s.flowEnded = false) :
    beginInstruction i.offset env s =
      .ok () (emitting s ((sourceMarks env i.offset).flatMap Piece.ops)) := by
  have harrive : arriveAtTarget env i.offset env s = .ok () s := by
    rw [arriveAtTarget, if_neg (by simp [ht])]
    rfl
  have hs : { s with flowEnded := false } = s := by rw [← hflow]
  rw [beginInstruction_run, if_neg (by simp [hflow]), bind_ok harrive, sourceMarks]
  show (if env.options.sourceMap then markSource i.offset else pure () : Lower Unit) env
    { s with flowEnded := false } = _
  rw [hs]
  split_ifs with hmap
  · rfl
  · simp [emitting, Draft.emitAll, pure, ReaderT.pure, EStateM.pure]

lemma storeRule_run (hslot : storeSlot? env i = some slot) (hself : isSelf slot = false) :
    i.storeRule.build i env s = (do Rules.storeTop slot; return true : Lower Bool) env s := by
  unfold storeSlot? at hslot
  split at hslot
  case h_9 => cases hslot
  all_goals
    rename_i operand opcode
    simp only [Instruction.storeRule, opcode, reduceCtorEq, or_false, or_true, if_true, if_false]
    first
    | exact Rules.storeLocal_run operand hslot
    | exact Rules.storeArgument_run operand hslot hself

lemma discard_storeRule (hslot : storeSlot? env i = some slot) (hself : isSelf slot = false) :
    (do let _ ← i.storeRule.build i : Lower Unit) env s = Rules.storeTop slot env s := by
  have hrun := storeRule_run (s := s) hslot hself
  cases htop : Rules.storeTop slot env s with
  | ok u s' =>
    rw [bind_ok htop] at hrun
    rw [bind_ok hrun]
    rfl
  | error e s' =>
    rw [bind_error htop] at hrun
    rw [bind_error hrun]

lemma storeNext_run (hf : Fuses env s t slot k i) (hflow : s.flowEnded = false)
    (hc : (s.draft.vars.get v).constant? = none) (htype : (s.draft.vars.get v).type = t) :
    storeNext env { s with stack := v :: s.stack } = copy v slot env
      (emitting { s with cursor := k + 1, current := some k }
        ((sourceMarks env i.offset).flatMap Piece.ops)) := by
  let s₁ : Frame := { s with cursor := k + 1, current := some k, stack := v :: s.stack }
  have hnext : next? env { s with stack := v :: s.stack } = .ok (some k) s₁ := by
    have hpeek : peek? env { s with stack := v :: s.stack } =
        .ok (some k) { s with stack := v :: s.stack } := by
      rw [← hf.next]
      rfl
    rw [next?, bind_ok hpeek]
    rfl
  have hread : (read : Lower MethodEnv) env s₁ = .ok env s₁ := rfl
  rw [storeNext, bind_ok hnext]
  dsimp only
  rw [bind_ok hread, hf.inst]
  dsimp only
  rw [bind_ok (beginInstruction_passed (s := s₁) hf.not_target hflow),
    discard_storeRule hf.stores hf.not_self]
  exact Rules.storeTop_run rfl hf.not_stacked hc (htype.trans hf.type_eq.symm)

end Lower

/-- What has a result: a host operation, or a method of the class that has returned. -/
inductive Delivery
  | operation (signature : String) (inputs : List VarRef)
  | returned (result : VarRef)

namespace Delivery

def inputs : Delivery → List VarRef
  | operation _ inputs => inputs
  | returned result => [result]

def into : Delivery → VarRef → Lower Unit
  | operation signature inputs, out => invoke signature inputs (some out)
  | returned result, out => copy result out

def direct (d : Delivery) (t : TypeRef) : Lower Unit := do
  let out ← destination t
  d.into out.var
  complete out

/-- Write the result to a fresh temporary, leave it on the operand stack, and then lower the next
instruction, which stores it. -/
def indirect (d : Delivery) (t : TypeRef) : Lower Unit := do
  let v ← temp t
  d.into v
  pushStack v
  -- the instruction that has the result is done, and control goes on to the next one
  modify ({ · with flowEnded := false })
  storeNext

/-- Slots of a host type may hold the result.  A copy checks this itself. -/
def ResultFits : Delivery → String → Prop
  | operation signature _, hostType => Host.Signature.ResultFits signature hostType
  | returned _, _ => True

def IsCode : Delivery → Variables → VarRef → List Op → Prop
  | operation signature inputs, vs, out, ops =>
    ∃ c, IsConst vs (.text signature) .string c ∧ ops = (Piece.invoke c inputs (some out)).ops
  | returned result, _, out, ops => ops = (copyPieces result out).flatMap Piece.ops

structure Records (d : Delivery) (out : VarRef) (s s' : Frame) : Prop where
  vars : s.draft.vars.Grows s'.draft.vars
  code : ∃ ops, s'.draft.ops.toList = s.draft.ops.toList ++ ops ∧ d.IsCode s'.draft.vars out ops
  rest : s' = { s with
    draft := { s.draft with vars := s'.draft.vars, ops := s'.draft.ops }, scratch := s'.scratch }

variable {env : MethodEnv} {d : Delivery} {s s₁ s₂ s' : Frame} {held kept : List VarRef} {t : TypeRef}
  {v out slot : VarRef} {k : Nat} {i : Instruction}

lemma writable_of_isSlot (h : env.IsSlot s.draft.vars v) : Writable s v := by
  refine ⟨h.readable.value, ?_⟩
  have hk := h.2
  unfold Variables.kind at hk
  cases hkind : (s.draft.vars.get v).kind <;>
    simp_all [Variable.isConstant, Variables.Fixed]

lemma writable_of_isTemp (h : s.draft.vars.IsTemp v) : Writable s v :=
  ⟨Variable.isAddress_of_temporary h.2, Variable.isConstant_of_temporary h.2⟩

lemma into_meets (h : s.Balanced env (d.inputs ++ held) kept) (hhas : s.draft.vars.Has out)
    (hlive : (s.draft.vars.get out).pooled = false) (hw : Writable s out) :
    Meets Any (fun _ => ∃ v ∈ d.inputs, (s.draft.vars.get v).isAddress = true) (d.into out) env s
      fun _ s' => s'.Balanced env held kept ∧ d.Records out s s' ∧
        ∀ v ∈ d.inputs, (s.draft.vars.get v).isAddress = false := by
  have haddress {p : Prop} (ha : (s.draft.vars.get out).isAddress = true) : p := by
    rw [hw.not_address] at ha
    cases ha
  have hconstant {p : Prop} (hc : (s.draft.vars.get out).isConstant = true) : p := by
    rw [hw.not_constant] at hc
    cases hc
  cases d with
  | operation signature inputs =>
    have hb : s.Balanced env (inputs ++ held) kept := h
    show Meets Any _ (invoke signature inputs (some out)) env s _
    refine (invoke_emits hb ?_ (fun v hv ha => ⟨v, hv, ha⟩) ?_ ?_).mono ?_
    · rintro o ⟨⟩ -
      exact hlive
    · rintro o ⟨⟩
      exact haddress
    · rintro o ⟨⟩
      exact hconstant
    · rintro _ s' - ⟨hb, ⟨c, s₁, hc, hsil, rfl⟩, hia, -⟩
      refine ⟨hb, ⟨hsil.vars, ⟨_, ?_, c, hc, rfl⟩, ?_⟩, hia⟩
      · rw [hsil.rest]
        simp [emitting, Draft.emitAll, withVars]
      · rw [hsil.rest]
        rfl
  | returned result =>
    show Meets Any _ (copy result out) env s _
    refine (copy_meets h hhas (fun _ => hlive) (fun ha => ⟨result, by simp [inputs], ha⟩) haddress
      hconstant).mono ?_
    rintro _ s' - ⟨hb, hrec, ha, -⟩
    exact ⟨hb, ⟨hrec.code.vars, ⟨_, hrec.code.ops, rfl⟩, hrec.rest⟩, by simpa [inputs] using ha⟩

/-! ### Lowering a delivery -/

lemma direct_run (hf : fusable? t env s = .ok (some (slot, k)) s) :
    d.direct t env s = d.into slot env { s with cursor := k + 1, current := some k } := by
  have hdest : destination t env s = .ok ⟨slot, true⟩
      { s with cursor := k + 1, current := some k } := by
    rw [destination, bind_ok hf]
    rfl
  have hrun : d.direct t env s =
      (d.into slot >>= pure) env { s with cursor := k + 1, current := some k } := by
    rw [direct, bind_ok hdest]
    rfl
  rw [hrun, bind_pure]

lemma direct_meets (hb : s.Balanced env (d.inputs ++ held) kept)
    (hf : fusable? t env s = .ok (some (slot, k)) s) :
    Meets Any (fun _ => ∃ v ∈ d.inputs, (s.draft.vars.get v).isAddress = true) (d.direct t) env s
      fun _ s' => d.Records slot { s with cursor := k + 1, current := some k } s' ∧
        ∀ v ∈ d.inputs, (s.draft.vars.get v).isAddress = false := by
  obtain ⟨-, hmem, -⟩ := fusable?_spec hf
  have hslot : env.IsSlot s.draft.vars slot := hb.slots slot (hmem.imp_right .inl)
  have hb₁ : Balanced env { s with cursor := k + 1, current := some k } (d.inputs ++ held) kept :=
    hb.of_eq rfl rfl rfl
  refine meets_of_run (direct_run hf) ?_
  exact (into_meets hb₁ hslot.1 (slot_not_pooled hb₁ hslot) (writable_of_isSlot hslot)).mono
    fun _ s' _ hs => hs.2

/-- The code of a delivery over a temporary, which is then copied into the slot. -/
structure Detours (d : Delivery) (env : MethodEnv) (v slot : VarRef) (s s' : Frame) : Prop where
  vars : s.draft.vars.Grows s'.draft.vars
  code : ∃ ops offset, d.IsCode s'.draft.vars v ops ∧ s'.draft.ops.toList =
    s.draft.ops.toList ++ (ops ++ (storePieces env offset v slot).flatMap Piece.ops)

lemma IsCode.grows {vs vs' : Variables} {ops : List Op} (h : d.IsCode vs out ops)
    (g : vs.Grows vs') : d.IsCode vs' out ops := by
  cases d with
  | operation signature inputs =>
    obtain ⟨c, hc, hops⟩ := h
    exact ⟨c, hc.grows g, hops⟩
  | returned result => exact h

lemma storeNext_meets (hb : s.Balanced env (v :: held) kept) (htemp : s.draft.vars.IsTemp v)
    (htype : (s.draft.vars.get v).type = t) (hf : Fuses env s t slot k i) :
    Meets Any (fun _ => False) (do
      pushStack v
      modify ({ · with flowEnded := false })
      storeNext) env s fun _ s' =>
      s.draft.vars.Grows s'.draft.vars ∧ s'.draft.ops.toList =
          s.draft.ops.toList ++ (storePieces env i.offset v slot).flatMap Piece.ops ∧
        s'.stack = s.stack ∧ s'.cursor = k + 1 ∧ s'.current = some k := by
  have hslot : env.IsSlot s.draft.vars slot :=
    hb.slots slot ((storeSlot?_mem hf.stores).imp_right .inl)
  have hne : v ≠ slot := by
    rintro rfl
    exact hslot.not_temporary htemp.2
  have hconstant : (s.draft.vars.get v).constant? = none := by
    have hkind : (s.draft.vars.get v).kind = .temporary := htemp.2
    simp [Variable.constant?, hkind]
  let s₁ : Frame := emitting { s with cursor := k + 1, current := some k, flowEnded := false }
    ((sourceMarks env i.offset).flatMap Piece.ops)
  have hrun : (do
      pushStack v
      modify ({ · with flowEnded := false })
      storeNext : Lower Unit) env s = copy v slot env s₁ :=
    storeNext_run (s := { s with flowEnded := false }) ⟨hf.next, hf.inst, hf.stores, hf.type_eq,
      hf.not_target, hf.not_stacked, hf.not_self⟩ rfl hconstant htype
  have hb₁ : s₁.Balanced env (v :: held) kept := hb.of_eq rfl rfl rfl
  have hslot₁ : env.IsSlot s₁.draft.vars slot := hslot
  have hread := writable_of_isTemp (s := s₁) (v := v) htemp
  have hwrite := writable_of_isSlot hslot₁
  refine meets_of_run hrun ((copy_meets hb₁ hslot₁.1 (fun _ => slot_not_pooled hb₁ hslot₁) ?_ ?_
    ?_).mono ?_)
  · simp [hread.not_address]
  · simp [hwrite.not_address]
  · simp [hwrite.not_constant]
  · rintro _ s' - ⟨-, hrec, -, -⟩
    refine ⟨hrec.code.vars, ?_, ?_, ?_, ?_⟩
    · rw [hrec.code.ops, copyPieces, if_neg hne]
      simp [s₁, emitting, Draft.emitAll, storePieces]
    all_goals
      rw [hrec.rest]
      rfl

lemma indirect_meets (hb : s.Balanced env (d.inputs ++ held) kept) (hf : Fuses env s t slot k i) :
    Meets Any (fun _ => ∃ v ∈ d.inputs, (s.draft.vars.get v).isAddress = true) (d.indirect t) env s
      fun _ s' => (∃ v, d.Detours env v slot s s' ∧ s'.draft.vars.IsTemp v ∧
          (s'.draft.vars.get v).type = t ∧ v ∉ d.inputs) ∧
        s'.stack = s.stack ∧ s'.cursor = k + 1 ∧ s'.current = some k ∧
        ∀ v ∈ d.inputs, (s.draft.vars.get v).isAddress = false := by
  have hhas (w : VarRef) (hw : w ∈ d.inputs) : s.draft.vars.Has w :=
    (hb.usable_hand (List.mem_append_left held hw)).1
  refine (temp_meets (R := Silent) hb t).keep.bind fun v s₁ _ h₁ => ?_
  obtain ⟨hsil, hb₁, htemp, htype, hfresh, -, -⟩ := h₁
  have haddress (w : VarRef) (hw : w ∈ d.inputs) :
      (s₁.draft.vars.get w).isAddress = (s.draft.vars.get w).isAddress :=
    hsil.vars.isAddress_eq (hhas w hw)
  have hinto := into_meets (hb₁.perm List.perm_middle.symm) htemp.1
    (hb₁.not_pooled (by simp) (Variables.plain_of_temporary htemp.2)) (writable_of_isTemp htemp)
  refine (hinto.imp (fun _ h => h) (fun e h => ?_) fun _ _ _ h => h).bind fun _ s₂ _ h₂ => ?_
  · obtain ⟨w, hw, ha⟩ := h
    exact ⟨w, hw, (haddress w hw).symm.trans ha⟩
  obtain ⟨hb₂, hrec, hplain⟩ := h₂
  have hrest : s₂.cursor = s.cursor ∧ s₂.stack = s.stack := by
    rw [hrec.rest, hsil.rest]
    exact ⟨rfl, rfl⟩
  have hslot : s.draft.vars.Has slot :=
    (hb.slots slot ((storeSlot?_mem hf.stores).imp_right .inl)).1
  have hf₂ : Fuses env s₂ t slot k i := by
    refine ⟨hrest.1 ▸ hf.next, hf.inst, hf.stores, ?_, hf.not_target, hrest.2 ▸ hf.not_stacked,
      hf.not_self⟩
    rw [(hsil.vars.trans hrec.vars).type_eq hslot]
    exact hf.type_eq
  have htype₂ : (s₂.draft.vars.get v).type = t := by rw [hrec.vars.type_eq htemp.1, htype]
  refine ((storeNext_meets hb₂ (hrec.vars.isTemp htemp) htype₂ hf₂).imp (fun _ h => h)
    (fun _ h => h.elim) fun _ _ _ h => h).mono ?_
  rintro _ s' - ⟨g, hops, hstack, hcursor, hcurrent⟩
  have g₂ := hrec.vars.trans g
  obtain ⟨ops, hcode, his⟩ := hrec.code
  refine ⟨⟨v, ⟨hsil.vars.trans g₂, ops, i.offset, his.grows g, ?_⟩, g₂.isTemp htemp, ?_, ?_⟩,
    hstack.trans hrest.2, hcursor, hcurrent, fun w hw => ?_⟩
  · rw [hops, hcode, hsil.rest]
    simp [withVars]
  · rw [g₂.type_eq htemp.1, htype]
  · intro hv
    exact hfresh v (keeps_of_mem (hhas v hv) (List.mem_append_left held hv)) rfl
  · rw [← haddress w hw]
    exact hplain w hw

/-! ### Running a delivery -/

/-- What a delivery makes of the contents of a stack with its inputs on top: the result, and the number
of entries it takes. -/
def outcome? : Delivery → String → List Value → Option (Value × Nat)
  | operation signature _, _, xs => Host.Signature.answer? signature xs
  | returned _, hostType, xs => (xs.head?.filter (fits · hostType)).map (·, 1)

variable {P : Placed env.toClassEnv} {σ : Store} {stack : List VarRef} {pre post ops : List Op}
  {hostType : String} {xs : List Value} {y : Value} {n : Nat}

lemma fits_of_outcome? (hd : d.ResultFits hostType) (h : d.outcome? hostType xs = some (y, n)) :
    fits y hostType = true := by
  cases d with
  | operation signature inputs =>
    obtain ⟨call, hparse, -, -, hy⟩ := Host.Signature.answer?_eq_some_iff.1 h
    exact (hd call hparse).2 _ y hy
  | returned result =>
    obtain ⟨z, hz, hpair⟩ := Option.map_eq_some_iff.1 h
    obtain ⟨rfl, -⟩ := Prod.mk.inj hpair
    exact (Option.filter_eq_some_iff.1 hz).2

lemma outcome?_returned {result : VarRef} : (returned result).outcome? hostType
    (((returned result).inputs.reverse ++ stack).map σ) =
      if fits (σ result) hostType then some (σ result, 1) else none := by
  simp only [outcome?, inputs, List.reverse_singleton, List.singleton_append, List.map_cons,
    List.head?_cons, Option.filter_some]
  split_ifs <;> rfl

lemma IsCode.moves (h : d.IsCode P.draft.vars out ops) (hops : P.ops = pre ++ (ops ++ post))
    (ha : Store.Agrees P.draft.vars σ) (htype : P.hostType out = hostType)
    (hd : d.ResultFits hostType)
    (ho : d.outcome? hostType ((d.inputs.reverse ++ stack).map σ) = some (y, n)) :
    ReflTransGen P.Moves ⟨pre.length, σ, stack⟩
      ⟨(pre ++ ops).length, update σ out y, (d.inputs.reverse ++ stack).drop n⟩ := by
  cases d with
  | operation signature inputs =>
    obtain ⟨c, hc, rfl⟩ := h
    have hsplit : P.ops = pre ++ ((inputs ++ [out]).map .push ++ (.invoke c :: post)) := by
      simp [hops, Piece.ops]
    obtain ⟨hop, hpushed⟩ := Placed.moves_to_op (σ := σ) stack hsplit
    have hmove : P.Moves ⟨_, σ, out :: (inputs.reverse ++ stack)⟩ _ :=
      Placed.moves_invoke hop (ha.const hc) (fun call h => (hd call h).1) ho
    rw [List.reverse_append] at hpushed
    refine hpushed.tail ?_
    simpa [Delivery.inputs, Piece.ops, Nat.add_assoc] using hmove
  | returned result =>
    obtain rfl : ops = (copyPieces result out).flatMap Piece.ops := h
    rw [outcome?_returned] at ho
    split_ifs at ho with hfit
    obtain ⟨rfl, rfl⟩ := Prod.mk.inj (Option.some.inj ho)
    by_cases heq : result = out
    · subst heq
      rw [Function.update_eq_self]
      simpa [copyPieces, inputs] using ReflTransGen.refl
    · have hpieces : copyPieces result out = [.copy result out] := if_neg heq
      rw [hpieces] at hops ⊢
      have hruns : Runs P.hostType [.copy result out] σ (update σ out (σ result)) :=
        .copy (htype ▸ hfit) .nil
      simpa [inputs] using Placed.moves_of_runs hruns hops stack

lemma IsCode.stuck (h : d.IsCode P.draft.vars out ops) (hops : P.ops = pre ++ (ops ++ post))
    (ha : Store.Agrees P.draft.vars σ) (htype : P.hostType out = hostType)
    (hd : d.ResultFits hostType) (hself : d = .returned out → fits (σ out) hostType = true)
    (ho : d.outcome? hostType ((d.inputs.reverse ++ stack).map σ) = none) :
    ∃ j stack', ReflTransGen P.Moves ⟨pre.length, σ, stack⟩ ⟨j, σ, stack'⟩ ∧
      ∀ c, P.Shows ⟨j, σ, stack'⟩ c → ∃ e, Fails P.image e c := by
  cases d with
  | operation signature inputs =>
    obtain ⟨c, hc, rfl⟩ := h
    have hsplit : P.ops = pre ++ ((inputs ++ [out]).map .push ++ (.invoke c :: post)) := by
      simp [hops, Piece.ops]
    obtain ⟨hop, hpushed⟩ := Placed.moves_to_op stack hsplit
    refine ⟨_, _, hpushed, fun m hm => ?_⟩
    rw [List.reverse_append] at hm
    exact hm.invoke_fails hop (ha.const hc) (fun call h => (hd call h).1) ho
  | returned result =>
    obtain rfl : ops = (copyPieces result out).flatMap Piece.ops := h
    rw [outcome?_returned] at ho
    split_ifs at ho with hfit
    have hne : result ≠ out := by
      rintro rfl
      exact hfit (hself rfl)
    have hpieces : copyPieces result out = [.copy result out] := if_neg hne
    rw [hpieces] at hops
    have hsplit : P.ops = pre ++ ([result, out].map .push ++ (.copy :: post)) := by
      simp [hops, Piece.ops]
    obtain ⟨hop, hpushed⟩ := Placed.moves_to_op stack hsplit
    refine ⟨_, _, hpushed, fun m hm => ?_⟩
    obtain ⟨name, hfails⟩ := hm.misfit hop (by rw [htype]; simpa using hfit)
    exact ⟨_, hfails⟩

end Delivery

end FlatHeap
