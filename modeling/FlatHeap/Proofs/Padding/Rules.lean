import FlatHeap.Proofs.Padding.Steps
import FlatHeap.Proofs.Rules.Dispatch

/-!
# Rules and offsets

A rule looks at the opcode of an instruction and at what its operand names.  Rules for other
instructions than branches do not look at offsets at all (`Rule.Steady`), and what they do is blind.
Rules for branches hand their targets to steps that go hand in hand.  They never decline, so the only
error that shows the text of an operand is about operands without offsets.

Hence the standard rules, alone or with the rule of a class, lower instructions that correspond in the
same way.
-/

namespace FlatHeap

open Bytecode (Instruction Opcode)

/-- The instruction without its offset and those of its targets. -/
def Bytecode.Instruction.blur (i : Instruction) : Instruction where
  offset := 0
  opcode := i.opcode
  operand :=
    match i.operand with
    | .target _ => .target 0
    | .switch _ => .switch []
    | o => o

lemma Bytecode.Counterpart.blur_eq {same lands : Nat → Nat → Prop} {i i' : Instruction}
    (h : Counterpart same lands i i') : i'.blur = i.blur := by
  obtain ⟨a, a', op, o, o', rfl, rfl, follows⟩ := h.shapes
  cases follows <;> rfl

/-- The rule does not look at offsets of the instruction. -/
def Rule.Steady (r : Rule) : Prop := ∀ i, r.build i.blur = r.build i

namespace Twin

open Lower Rules

variable {env : MethodEnv} {T : Twin env} {i i' : Instruction}

lemma Image.alike {r : Rule} (h : T.Image i i') (steady : r.Steady) (blind : T.IsBlind (r.build i)) :
    T.Alike Eq (r.build i) (r.build i') := by
  rw [← steady i', h.blur_eq, steady i]
  exact blind.blind

/-! ## Negations -/

lemma Image.loadsZero_eq (h : T.Image i i') : loadsZero i' = loadsZero i := by
  obtain ⟨a, a', op, o, o', rfl, rfl, follows⟩ := h.shapes
  cases follows <;> rfl

lemma read_bind {β : Type} {f : MethodEnv → Lower β} {s : Frame} :
    (read >>= f) env s = f env env s := rfl

lemma takeNegation_of_none {s : Frame} (peeked : peekTwo? env s = .ok none s) :
    takeNegation env s = .ok false s := by
  rw [takeNegation, read_bind, bind_ok peeked]
  rfl

lemma takeNegation_of_some {s : Frame} {k j : Nat} {zero equal : Instruction}
    (peeked : peekTwo? env s = .ok (some (k, j)) s) (first : env.code[k]? = some zero)
    (second : env.code[j]? = some equal) :
    takeNegation env s =
      if loadsZero zero && equal.opcode == .ceq && !env.isTarget zero.offset &&
        !env.isTarget equal.offset then .ok true { s with cursor := j + 1, current := some j }
      else .ok false s := by
  rw [takeNegation, read_bind, bind_ok peeked]
  simp only [first, second]
  split_ifs <;> rfl

/-- The next two instructions do the same, and branches land at the ones exactly if they land at the
others. -/
instance blind_takeNegation : T.IsBlind takeNegation := by
  refine ⟨fun s s' frames => ?_⟩
  have peek (env : MethodEnv) (s : Frame) : peekTwo? env s = .ok ((env.nextLive? s.cursor).bind
      fun k => (env.nextLive? (k + 1)).bind fun j => some (k, j)) s := rfl
  have kept : T.Agree Eq s (.ok false s) (.ok false s') := .ok rfl frames le_rfl
  rcases next_cases frames.ahead with ⟨-, none, none'⟩ | ⟨k, k', zero, zero', next⟩
  · rw [takeNegation_of_none (by rw [peek, none]; rfl), takeNegation_of_none (by rw [peek, none']; rfl)]
    exact kept
  rcases next_cases next.ahead with ⟨-, none, none'⟩ | ⟨j, j', equal, equal', next₂⟩
  · rw [takeNegation_of_none (by rw [peek, next.next, Option.bind_some, none]; rfl),
      takeNegation_of_none (by rw [peek, next.next', Option.bind_some, none']; rfl)]
    exact kept
  rw [takeNegation_of_some (by rw [peek, next.next, Option.bind_some, next₂.next]; rfl) next.here
      next₂.here,
    takeNegation_of_some (by rw [peek, next.next', Option.bind_some, next₂.next']; rfl) next.here'
      next₂.here', next.image.loadsZero_eq, next₂.image.opcode, isTarget_eq' next.image.offset,
    isTarget_eq' next₂.image.offset]
  split_ifs
  · have near : T.Near s s' := frames.toNear
    refine .ok rfl { near with ahead := next₂.ahead, current := ?_ } ?_
    · exact ⟨equal, equal', next₂.here, next₂.here', next₂.image⟩
    · exact next.forward.trans ((Nat.le_succ k).trans (next₂.forward.trans (Nat.le_succ j)))
  · exact kept

section Rules

set_option synthInstance.maxSize 1000

variable (i)

/-! ## Operands -/

instance blind_operandMissing {α : Type} (what : String) :
    T.IsBlind (i.operandMissing what : Lower α) := blind_breach

instance blind_method : T.IsBlind i.method := by
  unfold Instruction.method
  split <;> infer_instance

instance blind_field : T.IsBlind i.field := by
  unfold Instruction.field
  split <;> infer_instance

instance blind_type : T.IsBlind i.type := by
  unfold Instruction.type
  split <;> infer_instance

instance blind_slotIndex : T.IsBlind i.slotIndex := by
  unfold Instruction.slotIndex
  split <;> infer_instance

/-! ## Arguments, local slots and constants -/

lemma blind_noOp : T.IsBlind (noOp.build i) := blind_pure

lemma blind_loadArgument : T.IsBlind (loadArgument.build i) := by
  refine .bind fun n => .bind fun v => .read ?_ inferInstance
  simp only [MethodEnv.decl, other, Metadata.method_recode]
  rfl

instance blind_storeTop (slot : VarRef) : T.IsBlind (storeTop slot) := by
  unfold storeTop; infer_instance

lemma blind_storeArgument : T.IsBlind (storeArgument.build i) := by
  unfold storeArgument; infer_instance

lemma blind_loadLocal : T.IsBlind (loadLocal.build i) := by unfold loadLocal; infer_instance

lemma blind_storeLocal : T.IsBlind (storeLocal.build i) := by unfold storeLocal; infer_instance

lemma blind_loadAddress : T.IsBlind (loadAddress.build i) := by unfold loadAddress; infer_instance

lemma blind_loadConstant : T.IsBlind (loadConstant.build i) := by
  simp only [loadConstant]
  split <;> infer_instance

lemma blind_duplicate : T.IsBlind (duplicate.build i) := by
  refine .bind fun top => .var (fun _ => rfl) fun x => ?_
  split <;> infer_instance

lemma blind_dropTop : T.IsBlind (dropTop.build i) := by unfold dropTop; infer_instance

/-! ## Operators and conversions -/

lemma blind_binary : T.IsBlind (binary.build i) := by
  refine .metadata ?_ (.bind fun right => .bind fun left => .bind fun t => .bind fun u => .bind fun t =>
    .bind fun left => .bind fun right => .bind fun x => .bind fun y => ?_)
  · simp only [Metadata.foldBinary?_recode]
    rfl
  split <;> infer_instance

lemma blind_unary : T.IsBlind (unary.build i) := by
  refine .metadata ?_ (.bind fun v => .bind fun source => ?_)
  · simp only [Metadata.foldUnary?_recode]
    rfl
  dsimp only
  split
  swap
  · infer_instance
  refine .bind fun v => .bind fun type => .ite inferInstance (.bind fun x => ?_)
  split <;> infer_instance

lemma blind_conversion : T.IsBlind (conversion.build i) := by
  refine .bind fun v => .metadata rfl (.bind fun t => ?_)
  dsimp only
  split <;> infer_instance

/-! ## Comparisons -/

instance blind_relationOn (t : TypeRef) (r : Relation) (unsigned : Bool) :
    T.IsBlind (relationOn t r unsigned) := by
  refine .ite inferInstance ?_
  split <;> infer_instance

instance blind_comparedOperands (left right : VarRef) (t : TypeRef) :
    T.IsBlind (comparedOperands left right t) := by unfold comparedOperands; infer_instance

instance blind_constantOrder? (left right : VarRef) : T.IsBlind (constantOrder? left right) := by
  unfold constantOrder?; infer_instance

lemma blind_comparison : T.IsBlind (comparison.build i) := by
  refine .metadata rfl (.bind fun right => .bind fun left => .bind fun t => .bind fun u => .bind fun x =>
    .ite inferInstance (.bind fun t => .bind fun r => .join fun negated => .bind fun operands =>
    .bind fun order => ?_))
  dsimp only
  split <;> infer_instance

/-! ## Returns and exceptions -/

lemma blind_returning : T.IsBlind (returning.build i) := by
  refine .read rfl ?_
  have left : T.IsBlind (do
      let depth := (← get).stack.length
      if depth ≠ 0 then breach (.leftAtReturn depth)
      if (← peek?).isSome then jump env.returnLabel
      return true) := by
    refine ⟨fun s s' frames => ?_⟩
    simp only [get_bind, frames.stack]
    refine Alike.ite (alike_throw_bind rfl) (alike_peek?.bind fun k k' e => ?_) s s' frames
    exact alike_ite (by rw [e]) blind blind
  split <;> infer_instance

lemma blind_throwing : T.IsBlind (throwing.build i) := blind_refuse

/-! ## Boxes, casts, arrays and addresses -/

instance blind_typeConstant (t : TypeRef) : T.IsBlind (typeConstant t) := .metadata rfl inferInstance

instance blind_testInstance (v : VarRef) (t : TypeRef) : T.IsBlind (testInstance v t) := by
  refine .metadata ?_ (.bind fun _ => .ite inferInstance (.optional inferInstance))
  simp only [Metadata.assignable_recode]
  rfl

lemma blind_casts : T.IsBlind (casts.build i) := by unfold casts; infer_instance

lemma blind_arrays : T.IsBlind (arrays.build i) := by
  refine .metadata rfl (.ite inferInstance (.bind fun elem => ?_))
  split <;> infer_instance

instance blind_popElement : T.IsBlind popElement := by unfold popElement; infer_instance

lemma blind_loadElement : T.IsBlind (loadElement.build i) := by unfold loadElement; infer_instance

lemma blind_storeElement : T.IsBlind (storeElement.build i) := by unfold storeElement; infer_instance

lemma blind_loadElementAddress : T.IsBlind (loadElementAddress.build i) := by
  unfold loadElementAddress; infer_instance

lemma blind_loadThrough : T.IsBlind (loadThrough.build i) := by unfold loadThrough; infer_instance

lemma blind_storeThrough : T.IsBlind (storeThrough.build i) := by unfold storeThrough; infer_instance

instance blind_freshValue (t : TypeRef) : T.IsBlind (freshValue t) := by
  refine .metadata ?_ inferInstance
  simp only [Metadata.defaultValue_recode]
  rfl

lemma blind_resetThrough : T.IsBlind (resetThrough.build i) :=
  .bind fun _ => .bind fun _ => .var (fun _ => rfl) inferInstance

/-! ## Members of optional values -/

instance blind_wrapOptional (optional inner : TypeRef) : T.IsBlind (wrapOptional i optional inner) := by
  unfold wrapOptional; infer_instance

instance blind_popOptional : T.IsBlind popOptional := by unfold popOptional; infer_instance

instance blind_valueOr (fallback : VarRef) (inner : TypeRef) : T.IsBlind (valueOr fallback inner) := by
  unfold valueOr; infer_instance

lemma blind_optionals : T.IsBlind (optionals.build i) := by
  refine .metadata ?_ (.bind fun m => ?_)
  · simp only [Metadata.method_recode, Metadata.defaultValue_recode, Metadata.methodDisplay_recode]
    rfl
  dsimp only
  split
  swap
  · infer_instance
  refine .ite inferInstance ?_
  split <;> infer_instance

/-! ## Members of the class itself -/

lemma blind_ownField : T.IsBlind (ownField.build i) := by
  refine .bind fun f => .read rfl (.ite inferInstance (.bind fun receiver => .ite inferInstance
    (.bind fun slot => ?_)))
  split <;> infer_instance

instance blind_isOwnCall (m : MethodRef) : T.IsBlind (isOwnCall i m) := by
  refine .read ?_ inferInstance
  simp only [other, Metadata.method_recode]
  rfl

instance blind_callTarget (m : MethodRef) (symbol : Symbol) : T.IsBlind (callTarget i m symbol) := by
  refine .metadata ?_ (.ite inferInstance (.read rfl ?_))
  · simp only [Metadata.isSome_body_recode, Metadata.dispatchTarget?_recode,
      Metadata.methodDisplay_recode]
  split <;> infer_instance

instance blind_named (name : String) (t : TypeRef) (kind : VarKind) :
    T.IsBlind (draft (·.named name t kind)) := blind_draft (Draft.blind_named _ _ _)

instance blind_parameterSlots (params : List (ParamDecl × String)) :
    T.IsBlind (parameterSlots params) := by
  induction params <;> unfold parameterSlots <;> infer_instance

instance blind_protectArguments (args : List (VarRef × ParamDecl × VarRef)) (written : List VarRef) :
    T.IsBlind (protectArguments args written) := by
  induction args generalizing written <;> unfold protectArguments <;> infer_instance

instance blind_storeArguments (args : List (VarRef × ParamDecl × VarRef)) :
    T.IsBlind (storeArguments args) := by
  induction args with
  | nil => exact blind_pure
  | cons e rest ih =>
    refine .ite (.var (fun _ => rfl) fun x => ?_) inferInstance
    split <;> infer_instance

instance blind_copyBack (passed : List (VarRef × VarRef)) : T.IsBlind (copyBack passed) := by
  induction passed <;> unfold copyBack <;> infer_instance

instance blind_enterMethod (m : MethodRef) : T.IsBlind (enterMethod m) := by
  have callee : T.IsBlind (draft (·.methodLabel m)) := blind_draft (Draft.blind_methodLabel m)
  have required : T.IsBlind (draft fun d => ((), d.require m)) := blind_draft (Draft.blind_require m)
  have address (l : Label) : T.IsBlind (draft (·.labelAddress l)) :=
    blind_draft (Draft.blind_labelAddress l)
  unfold enterMethod
  infer_instance

lemma blind_ownCall : T.IsBlind (ownCall.build i) := by
  have recorded (m m' : MethodRef) : T.IsBlind (draft fun d => ((), d.recordCall m m')) :=
    blind_draft (Draft.blind_recordCall m m')
  refine .read ?_ (.bind fun m => .optional (.bind fun own => .ite inferInstance (.bind fun symbol =>
    .bind fun target => .bind fun _ => .optional (.bind fun args => .optional ?_))))
  · simp only [other, Metadata.method_recode, Metadata.methodDisplay_recode, Metadata.lookup_recode]
    rfl
  refine .bind fun slots => .bind fun args => .bind fun passed => .bind fun _ => .bind fun _ =>
    .bind fun _ => ?_
  dsimp only
  split <;> infer_instance

/-! ## Members of other programs -/

lemma namingOf_other (t : TypeRef) : T.other.namingOf t = env.namingOf t := by
  simp only [ClassEnv.namingOf, other, Metadata.ofClass_recode]

lemma blind_remoteField : T.IsBlind (remoteField.build i) := by
  refine .read ?_ inferInstance
  simp only [namingOf_other]
  simp only [other, Metadata.lookup_recode]
  rfl

instance blind_setRemoteParameters (receiver : VarRef) (args : List (VarRef × ParamDecl × String)) :
    T.IsBlind (setRemoteParameters receiver args) := by
  induction args with
  | nil => exact blind_pure
  | cons e rest ih => exact .bind fun _ => .bind fun _ => .read rfl inferInstance

lemma blind_remoteCall : T.IsBlind (remoteCall.build i) := by
  refine .read ?_ (.bind fun m => .ite inferInstance ?_)
  · simp only [namingOf_other]
    simp only [other, Metadata.lookup_recode, Metadata.method_recode, remoteObstacle?,
      Metadata.methodDisplay_recode]
    rfl
  dsimp only
  split
  · exact ⟨alike_throw_bind rfl⟩
  refine .bind fun naming => .bind fun symbol => .bind fun args => .bind fun receiver => .bind fun _ =>
    .bind fun _ => .bind fun event => .bind fun _ => ?_
  split <;> infer_instance

/-! ## Members of host types -/

instance blind_hostInputs (args : List (VarRef × ParamDecl)) : T.IsBlind (hostInputs args) := by
  induction args with
  | nil => exact blind_pure
  | cons e rest ih =>
    refine .ite (.var (fun _ => rfl) fun x => ?_) (.metadata rfl ?_) <;> split <;> infer_instance

instance blind_discardAll (vs : List VarRef) : T.IsBlind (discardAll vs) := by
  induction vs <;> unfold discardAll <;> infer_instance

instance blind_construct (signature : String) (inputs : List VarRef) (t : TypeRef)
    (receiver : Option VarRef) : T.IsBlind (construct signature inputs t receiver) := by
  cases receiver with
  | none => exact blind_invokeResult signature inputs t
  | some r =>
    refine .var (fun _ => rfl) fun x => ?_
    split <;> infer_instance

lemma blind_hostCall : T.IsBlind (hostCall.build i) := by
  refine .read ?_ (.bind fun m => .optional (.bind fun args => .join fun receiver => .ite inferInstance
    ?_))
  · simp only [other, Metadata.method_recode, Metadata.methodDisplay_recode,
      Metadata.methodSignature_recode]
    rfl
  dsimp only
  split <;> infer_instance

lemma blind_constrainedReceiver : T.IsBlind (constrainedReceiver.build i) := blind_pure

instance blind_setHostField (setter : String) (receiver v : VarRef) :
    T.IsBlind (setHostField setter receiver v) := by
  refine .var (fun _ => rfl) fun x => ?_
  split <;> infer_instance

lemma blind_hostField : T.IsBlind (hostField.build i) := by
  refine .read ?_ (.bind fun f => ?_)
  · simp only [other, Metadata.fieldGetter_recode, Metadata.fieldSetter_recode]
    rfl
  refine .optional ?_
  dsimp only
  split <;> infer_instance

lemma blind_staticField : T.IsBlind (staticField.build i) := by
  refine .read ?_ (.bind fun f => .optional ?_)
  · simp only [other, Metadata.fieldGetter_recode, Metadata.fieldSetter_recode,
      funext (Metadata.literalValue?_recode _)]
    rfl
  dsimp only
  split <;> infer_instance

/-! ## Trivial accessors -/

instance blind_reachesItself (m : MethodRef) : T.IsBlind (reachesItself i m) := by
  refine .read ?_ inferInstance
  simp only [other, Metadata.lookup_recode, Metadata.dispatchTarget?_recode]

lemma blind_accessorShortcut (accessors : List (MethodRef × Accessor)) :
    T.IsBlind ((accessorShortcut accessors).build i) := by
  simp only [accessorShortcut]
  split
  swap
  · infer_instance
  split
  swap
  · infer_instance
  refine .bind fun _ => .ite inferInstance ?_
  split <;> infer_instance

end Rules

/-! ## Branches -/

def Claimed (claimed claimed' : Bool) : Prop := claimed = true ∧ claimed' = true

lemma alike_claimed : T.Alike Claimed (pure true) (pure true) := alike_pure ⟨rfl, rfl⟩

lemma Image.alike_target (h : T.Image i i') : T.Alike T.Lands i.target i'.target := by
  obtain ⟨a, a', op, o, o', rfl, rfl, follows⟩ := h.shapes
  cases follows with
  | target lands => exact alike_pure lands
  | switch lands => exact alike_throw rfl
  | same noTarget noSwitch =>
    cases o with
    | target t => exact absurd rfl (noTarget t)
    | _ => exact alike_throw rfl

lemma Image.alike_jumping (h : T.Image i i') :
    T.Alike Claimed (jumping.build i) (jumping.build i') :=
  h.alike_target.bind fun _ _ lands => (alike_jumpTo lands).bind fun _ _ _ => alike_claimed

lemma Image.alike_testing (h : T.Image i i') :
    T.Alike Claimed (testing.build i) (testing.build i') := by
  refine h.alike_target.bind fun t t' lands => ?_
  rw [h.opcode]
  refine before fun v => before fun condition => before fun value => ?_
  dsimp only
  split
  · exact .ite ((alike_jumpTo lands).bind fun _ _ _ => alike_claimed) alike_claimed
  · refine .ite (before fun skip => before fun _ => (alike_branchTo lands true).bind fun l _ e => ?_)
      ((alike_branchTo lands true).bind fun l _ e => ?_)
    · subst e
      exact before fun _ => before fun _ => alike_claimed
    · subst e
      exact before fun _ => alike_claimed

lemma Image.alike_comparingBranch (h : T.Image i i') :
    T.Alike Claimed (comparingBranch.build i) (comparingBranch.build i') := by
  refine alike_metadata (h.alike_target.bind fun u u' lands => ?_)
  rw [h.opcode]
  refine before fun right => before fun left => before fun t => before fun t' =>
    before (m := ofExcept (env.md.compareType t t' _)) fun t => before fun r => before fun operands => ?_
  refine before fun order => ?_
  dsimp only
  split
  · exact .ite ((alike_jumpTo lands).bind fun _ _ _ => alike_claimed) alike_claimed
  · refine before fun _ => before fun notTaken => (alike_branchTo lands true).bind fun l _ e => ?_
    subst e
    exact before fun _ => alike_claimed

lemma alike_testCases (selector : VarRef) {cases cases' : List (Nat × Nat)}
    (lands : List.Forall₂ (fun e e' => T.Lands e.1 e'.1 ∧ e'.2 = e.2) cases cases') :
    T.Alike Eq (testCases selector cases) (testCases selector cases') := by
  induction lands with
  | nil => exact blind_pure.blind
  | @cons e e' _ _ here _ ih =>
    obtain ⟨t, k⟩ := e
    obtain ⟨t', k'⟩ := e'
    obtain ⟨here, rfl : k' = k⟩ := here
    refine before fun k => before fun differs => (alike_branchTo here true).bind fun l _ e => ?_
    subst e
    exact before fun _ => ih

lemma forall₂_getElem? {R : Nat → Nat → Prop} {ts ts' : List Nat} (h : List.Forall₂ R ts ts')
    (k : Nat) : Option.Rel R ts[k]? ts'[k]? := by
  induction h generalizing k with
  | nil => exact .none
  | cons here _ ih =>
    cases k with
    | zero => exact .some here
    | succ k => exact ih k

lemma forall₂_zipIdx {R : Nat → Nat → Prop} {ts ts' : List Nat} (h : List.Forall₂ R ts ts') (n : Nat) :
    List.Forall₂ (fun e e' => R e.1 e'.1 ∧ e'.2 = e.2) (ts.zipIdx n) (ts'.zipIdx n) := by
  induction h generalizing n with
  | nil => exact .nil
  | cons here _ ih => exact .cons ⟨here, rfl⟩ (ih (n + 1))

lemma Image.alike_jumpTable (h : T.Image i i') :
    T.Alike Claimed (jumpTable.build i) (jumpTable.build i') := by
  obtain ⟨a, a', op, o, o', rfl, rfl, follows⟩ := h.shapes
  cases follows with
  | target lands => exact alike_throw rfl
  | same noTarget noSwitch =>
    cases o with
    | switch ts => exact absurd rfl (noSwitch ts)
    | _ => exact alike_throw rfl
  | @switch ts ts' lands =>
    refine before fun v => before fun selector => before fun value => ?_
    dsimp only
    split
    · rename_i k _
      have chosen : Option.Rel T.Lands (k.toNat?.bind (ts[·]?)) (k.toNat?.bind (ts'[·]?)) := by
        cases k.toNat? with
        | none => exact .none
        | some n => exact forall₂_getElem? lands n
      generalize k.toNat?.bind (ts[·]?) = t, k.toNat?.bind (ts'[·]?) = t' at chosen ⊢
      cases chosen with
      | none => exact alike_claimed
      | some lands => exact (alike_jumpTo lands).bind fun _ _ _ => alike_claimed
    · have empty : ts'.isEmpty = ts.isEmpty := by
        cases lands <;> rfl
      rw [empty, ← lands.length_eq]
      exact .ite (before fun _ => alike_claimed) (before fun _ =>
        (alike_testCases selector (forall₂_zipIdx lands 0)).bind fun _ _ _ => alike_claimed)

/-! ## Rulebooks -/

lemma elim_branches {ops : List Opcode} {P : Prop} (all : ∀ op ∈ ops, op.isBranch = true)
    (mem : i.opcode ∈ ops) (other : i.opcode.isBranch = false) : P := by
  rw [all i.opcode mem] at other
  cases other

lemma standard_steady (other : i.opcode.isBranch = false) :
    ∀ e ∈ Rulebook.standardRules, i.opcode ∈ e.1 → e.2.2.Steady := by
  simp only [Rulebook.standardRules, List.forall_mem_cons]
  refine ⟨fun _ => ?_, fun _ => ?_, fun _ => ?_, fun _ => ?_, fun _ => ?_, fun _ => ?_, fun _ => ?_,
    fun _ => ?_, fun _ => ?_, fun _ => ?_, fun _ => ?_, fun _ => ?_, fun _ => ?_,
    fun h => elim_branches (by decide) h other, fun h => elim_branches (by decide) h other,
    fun h => elim_branches (by decide) h other, fun h => elim_branches (by decide) h other,
    fun _ => ?_, fun _ => ?_, fun _ => ?_, fun _ => ?_, fun _ => ?_, fun _ => ?_, fun _ => ?_,
    fun _ => ?_, fun _ => ?_, fun _ => ?_, fun _ => ?_, fun _ => ?_, fun _ => ?_, fun _ => ?_,
    fun _ => ?_, fun _ => ?_, fun _ => ?_, fun _ => ?_, fun _ => ?_, by simp⟩
  all_goals
    rintro ⟨offset, opcode, operand⟩
    cases operand <;> rfl

lemma standard_blind (other : i.opcode.isBranch = false) :
    ∀ e ∈ Rulebook.standardRules, i.opcode ∈ e.1 → T.IsBlind (e.2.2.build i) := by
  simp only [Rulebook.standardRules, List.forall_mem_cons]
  exact ⟨fun _ => blind_noOp i, fun _ => blind_loadArgument i, fun _ => blind_storeArgument i,
    fun _ => blind_loadLocal i, fun _ => blind_storeLocal i, fun _ => blind_loadAddress i,
    fun _ => blind_loadConstant i, fun _ => blind_duplicate i, fun _ => blind_dropTop i,
    fun _ => blind_binary i, fun _ => blind_unary i, fun _ => blind_conversion i,
    fun _ => blind_comparison i, fun h => elim_branches (by decide) h other,
    fun h => elim_branches (by decide) h other, fun h => elim_branches (by decide) h other,
    fun h => elim_branches (by decide) h other, fun _ => blind_returning i, fun _ => blind_throwing i,
    fun _ => blind_optionals i, fun _ => blind_ownCall i, fun _ => blind_remoteCall i,
    fun _ => blind_hostCall i, fun _ => blind_constrainedReceiver i, fun _ => blind_ownField i,
    fun _ => blind_remoteField i, fun _ => blind_hostField i, fun _ => blind_staticField i,
    fun _ => blind_casts i, fun _ => blind_arrays i, fun _ => blind_loadElement i,
    fun _ => blind_storeElement i, fun _ => blind_loadElementAddress i, fun _ => blind_loadThrough i,
    fun _ => blind_storeThrough i, fun _ => blind_resetThrough i, by simp⟩

lemma rulesFor_branch {op : Opcode} (h : op.isBranch = true) :
    Rulebook.standard.rulesFor op = [jumping] ∨ Rulebook.standard.rulesFor op = [testing] ∨
      Rulebook.standard.rulesFor op = [comparingBranch] ∨
      Rulebook.standard.rulesFor op = [jumpTable] := by
  cases op with
  | br | brS | leave | leaveS => exact .inl rfl
  | brtrue | brtrueS | brfalse | brfalseS => exact .inr (.inl rfl)
  | beq | beqS | bneUn | bneUnS | bge | bgeS | bgeUn | bgeUnS | bgt | bgtS | bgtUn | bgtUnS
  | ble | bleS | bleUn | bleUnS | blt | bltS | bltUn | bltUnS => exact .inr (.inr (.inl rfl))
  | switch => exact .inr (.inr (.inr rfl))
  | _ => exact absurd h (by decide)

lemma isStandard_cases {rules : Rulebook} (h : rules.IsStandard) (op : Opcode) :
    rules.rulesFor op = Rulebook.standard.rulesFor op ∨
      op.isBranch = false ∧ ∃ accessors n, rules.rulesFor op =
        List.replicate n (accessorShortcut accessors) ++ Rulebook.standard.rulesFor op := by
  cases h with
  | plain => exact .inl rfl
  | withAccessors accessors =>
    by_cases call : op ∈ [Opcode.call, .callvirt]
    · refine .inr ⟨?_, accessors, _, rfl⟩
      have others : ∀ op ∈ [Opcode.call, .callvirt], op.isBranch = false := by decide
      exact others op call
    · left
      show List.replicate ([Opcode.call, .callvirt].count op) _ ++ _ = _
      rw [List.count_eq_zero.2 call]
      rfl

lemma alike_offer {rules : List Rule} (opcode : i'.opcode = i.opcode) (operand : i'.operand = i.operand)
    (h : ∀ r ∈ rules, T.Alike Eq (r.build i) (r.build i')) :
    T.Alike Eq (offer i rules) (offer i' rules) := by
  induction rules with
  | nil =>
    refine alike_metadata ?_
    rw [opcode, operand, Metadata.render_recode]
    exact alike_throw rfl
  | cons r rest ih =>
    refine (h r List.mem_cons_self).bind fun claimed _ e => ?_
    subst e
    exact .ite (ih fun r mem => h r (List.mem_cons_of_mem _ mem)) blind

lemma alike_offer_claimed {r : Rule} {rest : List Rule} (h : T.Alike Claimed (r.build i) (r.build i')) :
    T.Alike Eq (offer i (r :: rest)) (offer i' (r :: rest)) := by
  refine h.bind fun claimed claimed' both => ?_
  obtain ⟨rfl, rfl⟩ := both
  exact blind_pure.blind

lemma Image.operand_eq (h : T.Image i i') (other : i.opcode.isBranch = false) :
    i'.operand = i.operand := by
  have noTargets := h.decoded other
  obtain ⟨a, a', op, o, o', rfl, rfl, follows⟩ := h.shapes
  cases follows with
  | target lands => cases noTargets
  | same => rfl
  | switch lands =>
    obtain rfl : _ = [] := noTargets
    rw [List.forall₂_nil_left_iff.1 lands]

/-- **The rules treat instructions that correspond in the same way.** -/
lemma Image.alike_dispatch {rules : Rulebook} (h : T.Image i i') (standard : rules.IsStandard) :
    T.Alike Eq (dispatch rules i) (dispatch rules i') := by
  unfold dispatch
  rw [h.opcode]
  cases branch : i.opcode.isBranch with
  | true =>
    rcases isStandard_cases standard i.opcode with e | ⟨other, -⟩
    swap
    · simp [branch] at other
    rw [e]
    rcases rulesFor_branch branch with e | e | e | e <;> rw [e]
    · exact alike_offer_claimed h.alike_jumping
    · exact alike_offer_claimed h.alike_testing
    · exact alike_offer_claimed h.alike_comparingBranch
    · exact alike_offer_claimed h.alike_jumpTable
  | false =>
    have rest (r : Rule) (mem : r ∈ Rulebook.standard.rulesFor i.opcode) :
        T.Alike Eq (r.build i) (r.build i') := by
      obtain ⟨e, entered, listed, rfl⟩ := Rulebook.mem_rulesFor_standard mem
      exact h.alike (standard_steady branch e entered listed) (standard_blind branch e entered listed)
    refine alike_offer h.opcode (h.operand_eq branch) ?_
    rcases isStandard_cases standard i.opcode with e | ⟨-, accessors, n, e⟩ <;> rw [e]
    · exact rest
    · intro r mem
      rcases List.mem_append.1 mem with mem | mem
      · obtain rfl := List.eq_of_mem_replicate mem
        refine h.alike ?_ (blind_accessorShortcut i accessors)
        rintro ⟨offset, opcode, operand⟩
        cases operand <;> rfl
      · exact rest r mem

end Twin

end FlatHeap
