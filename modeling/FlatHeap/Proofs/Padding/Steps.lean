import FlatHeap.Proofs.Lowering.Arrivals
import FlatHeap.Proofs.Padding.Twins

/-!
# Steps that do not look at offsets

Recording code, conversions, and access to arrays and addresses depend on types, variables and the
operand stack, never on where an instruction stands.  So they are blind, each because its parts are.
Branches and joins do look at offsets, and go hand in hand if those stand for the same place.
-/

namespace FlatHeap.Twin

open Lower

variable {env : MethodEnv} {T : Twin env}

-- Long sequences of steps make long derivations.
set_option synthInstance.maxSize 1000

/-! ## Recording code -/

instance blind_checkRead (v : VarRef) : T.IsBlind (checkRead v) := by
  refine ⟨alike_var fun x x' e => ?_⟩
  have handOut : x'.handOut.map HandOut.blur = x.handOut.map HandOut.blur :=
    congrArg Variable.handOut e
  rw [Variable.congr_of_blur_eq Variable.isAddress_blur e,
    Variable.congr_of_blur_eq Variable.pooled_blur e]
  have leaves : T.Alike Eq (if x.pooled then breach (.pooledReference v x.handOut) else pure ())
      (if x.pooled then breach (.pooledReference v x'.handOut) else pure ()) := by
    refine .ite (alike_throw ?_) blind
    simp only [CompileError.blur, CompileError.invariant, Cause.blur, Breach.blur, handOut]
  exact .ite (before fun _ => leaves) leaves

instance blind_checkWrite (v : VarRef) : T.IsBlind (checkWrite v) :=
  .bind fun _ => .var (fun _ => rfl) inferInstance

instance blind_push (v : VarRef) : T.IsBlind (push v) := by unfold push; infer_instance

instance blind_copy (source target : VarRef) : T.IsBlind (copy source target) := by
  unfold copy; infer_instance

instance blind_pushInputs (inputs : List VarRef) : T.IsBlind (pushInputs inputs) := by
  induction inputs <;> unfold pushInputs <;> infer_instance

instance blind_checkInputs (inputs : List VarRef) : T.IsBlind (checkInputs inputs) := by
  induction inputs <;> unfold checkInputs <;> infer_instance

instance blind_invoke (signature : String) (inputs : List VarRef) (output : Option VarRef) :
    T.IsBlind (invoke signature inputs output) := by
  unfold invoke
  cases output <;> infer_instance

instance blind_invokeTemp (signature : String) (inputs : List VarRef) (t : TypeRef) :
    T.IsBlind (invokeTemp signature inputs t) := by unfold invokeTemp; infer_instance

instance blind_jump (l : Label) : T.IsBlind (jump l) := blind_emit _

instance blind_mark (l : Label) : T.IsBlind (mark l) := blind_emit _

instance blind_jumpIfFalse (v : VarRef) (l : Label) : T.IsBlind (jumpIfFalse v l) := by
  unfold jumpIfFalse; infer_instance

instance blind_snapshotFrom (p : VarRef → Bool) (entries : List (VarRef × Nat))
    (copies : List (VarRef × VarRef)) : T.IsBlind (snapshotFrom p entries copies) := by
  induction entries generalizing copies with
  | nil => exact blind_pure
  | cons e rest ih =>
    refine .var (fun _ => rfl) fun x => .ite inferInstance ?_
    split <;> infer_instance

instance blind_snapshot (p : VarRef → Bool) : T.IsBlind (snapshot p) := by
  refine ⟨fun s s' frames => ?_⟩
  simp only [snapshot, get_bind, frames.stack]
  exact blind s s' frames

instance blind_snapshotFields : T.IsBlind snapshotFields := by
  refine ⟨fun s s' frames => ?_⟩
  have fields (v : VarRef) : (s'.draft.vars.get v).isField = (s.draft.vars.get v).isField :=
    Variable.congr_of_blur_eq Variable.isField_blur (frames.get_eq v)
  simp only [snapshotFields, get_bind, fields]
  exact blind s s' frames

instance blind_store (target source : VarRef) : T.IsBlind (store target source) := by
  unfold store; infer_instance

instance blind_complete (d : Destination) : T.IsBlind (complete d) := by
  unfold complete; infer_instance

instance blind_invokeResult (signature : String) (inputs : List VarRef) (t : TypeRef) :
    T.IsBlind (invokeResult signature inputs t) := by unfold invokeResult; infer_instance

/-! ## Conversions -/

section Conversions

variable (v out : VarRef) (source target t : TypeRef) (f d : IntFormat) (k : Int) (bits : Nat)

instance blind_hostConvertInto : T.IsBlind (hostConvertInto v source target out) := by
  refine .metadata rfl ?_
  split <;> infer_instance

instance blind_hostConvert : T.IsBlind (hostConvert v source target) := by
  unfold hostConvert; infer_instance

instance blind_bitwiseInto (op : String) : T.IsBlind (bitwiseInto t op v k out) := by
  unfold bitwiseInto; infer_instance

instance blind_bitwise (op : String) : T.IsBlind (bitwise t op v k) := by
  unfold bitwise; infer_instance

instance blind_nonZero : T.IsBlind (nonZero t v) := by unfold nonZero; infer_instance

instance blind_nonNull : T.IsBlind (nonNull v) := by unfold nonNull; infer_instance

instance blind_setBitsIf : T.IsBlind (setBitsIf v t out k) := by unfold setBitsIf; infer_instance

instance blind_withSignBits {low : VarRef → Lower Unit} {isSet : Lower VarRef}
    [∀ out, T.IsBlind (low out)] [T.IsBlind isSet] : T.IsBlind (withSignBits target low isSet k) := by
  unfold withSignBits; infer_instance

instance blind_signedToUnsigned64 : T.IsBlind (signedToUnsigned64 v target) := by
  unfold signedToUnsigned64; infer_instance

instance blind_unsignedToSigned64 : T.IsBlind (unsignedToSigned64 v target) := by
  unfold unsignedToSigned64; infer_instance

instance blind_keepBits : T.IsBlind (keepBits t v bits target) := by unfold keepBits; infer_instance

instance blind_signExtend : T.IsBlind (signExtend t v bits target) := by
  unfold signExtend; infer_instance

instance blind_reinterpret : T.IsBlind (reinterpret v source f target d) := by
  unfold reinterpret; infer_instance

instance blind_sameOnHost : T.IsBlind (sameOnHost source target) := by
  refine .metadata ?_ inferInstance
  simp only [Metadata.assignable_recode]
  rfl

instance blind_convertInteger : T.IsBlind (convertInteger v source f target d) := by
  unfold convertInteger; infer_instance

instance blind_floatToInteger : T.IsBlind (floatToInteger v source target d) := by
  unfold floatToInteger; infer_instance

instance blind_toBoolean? : T.IsBlind (toBoolean? v source) := by
  refine .metadata rfl ?_
  split <;> infer_instance

instance blind_toInteger? : T.IsBlind (toInteger? v source target) := by
  refine .metadata rfl ?_
  split
  · infer_instance
  · refine .ite inferInstance ?_
    split <;> infer_instance

instance blind_byHost? : T.IsBlind (byHost? v source target) := .metadata rfl inferInstance

instance blind_enumObject : T.IsBlind (enumObject v source target) := .metadata rfl inferInstance

instance blind_foldConstant? : T.IsBlind (foldConstant? v source target) := by
  refine .metadata ?_ (.bind fun value => ?_)
  · simp only [Metadata.foldConversion?_recode]
  · split <;> infer_instance

instance blind_convertPlain : T.IsBlind (convertPlain v source target) := by
  have refused (md : Metadata) : T.IsBlind (do
      if let some out ← byHost? v source target then return out
      refuse (.noConversion (md.typeName source) (md.typeName target))) :=
    .bind fun found => by split <;> infer_instance
  have others (md : Metadata) : T.IsBlind (do
      if let some out ← toInteger? v source target then return out
      if let some out ← byHost? v source target then return out
      refuse (.noConversion (md.typeName source) (md.typeName target))) :=
    .bind fun found => by split <;> infer_instance
  refine .metadata rfl (.ite (.bind fun found => ?_) inferInstance)
  split <;> infer_instance

/-- **Conversions.**  Inner conversions are between types declared before. -/
instance blind_convertFrom (v : VarRef) (source target : TypeRef) :
    T.IsBlind (convertFrom v source target) := by
  rw [convertFrom]
  refine .metadata rfl (.bind fun folded => ?_)
  split
  · infer_instance
  refine .bind fun _ => .ite inferInstance ?_
  cases route env.md source target with
  | fromEnum u | fromOptional u =>
    dsimp only
    split
    · have inner (raw : VarRef) : T.IsBlind (convertFrom raw u target) := blind_convertFrom raw u target
      infer_instance
    · infer_instance
  | toEnum u | toOptional u =>
    dsimp only
    split
    · have inner : T.IsBlind (convertFrom v source u) := blind_convertFrom v source u
      infer_instance
    · infer_instance
  | plain => exact blind_convertPlain v source target
termination_by source.index + target.index

instance blind_convert : T.IsBlind (convert v target) := by unfold convert; infer_instance

end Conversions

/-! ## Arrays and addresses -/

instance blind_arrayElem (array : VarRef) : T.IsBlind (arrayElem array) := by
  refine .metadata rfl (.bind fun t => ?_)
  split <;> infer_instance

instance blind_arrayGetter (array : VarRef) : T.IsBlind (arrayGetter array) := by
  unfold arrayGetter; infer_instance

instance blind_arrayGet (array index : VarRef) : T.IsBlind (arrayGet array index) := by
  unfold arrayGet; infer_instance

instance blind_arraySet (array index value : VarRef) : T.IsBlind (arraySet array index value) := by
  unfold arraySet; infer_instance

instance blind_loadIndirect (v : VarRef) : T.IsBlind (loadIndirect v) := by
  refine .var (fun _ => rfl) fun x => ?_
  split <;> infer_instance

instance blind_storeIndirect (address value : VarRef) : T.IsBlind (storeIndirect address value) := by
  refine .var (fun _ => rfl) fun x => ?_
  split <;> infer_instance

/-! ## Branches and joins -/

variable {a a' : Nat}

lemma alike_labelFor (place : T.same a a') : T.Alike Eq (labelFor a) (labelFor a') := by
  intro s s' frames
  simp only [labelFor, get_bind, lookup_eq frames.labels place]
  cases s.labels.lookup a with
  | some l => exact .ok rfl frames le_rfl
  | none =>
    have recorded (l : Label) : T.Alike Eq
        (modify fun s => { s with labels := (a, l) :: s.labels } : Lower Unit)
        (modify fun s => { s with labels := (a', l) :: s.labels }) :=
      alike_modify (fun _ _ frames => { frames with labels := .cons ⟨place, rfl⟩ frames.labels })
        fun _ => le_rfl
    exact before (fun l => (recorded l).bind fun _ _ _ => blind (m := pure l)) s s' frames

instance blind_newMergeSlots (entries : List VarRef) : T.IsBlind (newMergeSlots entries) := by
  induction entries <;> unfold newMergeSlots <;> infer_instance

lemma alike_mergeSlots (place : T.same a a') : T.Alike Eq (mergeSlots a) (mergeSlots a') := by
  intro s s' frames
  simp only [mergeSlots, get_bind, frames.stack, lookup_eq frames.merges place]
  cases s.merges.lookup a with
  | some slots =>
    simp only
    split_ifs
    · exact .error rfl
    · exact .ok rfl frames le_rfl
  | none =>
    have recorded (slots : List VarRef) : T.Alike Eq
        (modify fun s => { s with merges := (a, slots.reverse) :: s.merges } : Lower Unit)
        (modify fun s => { s with merges := (a', slots.reverse) :: s.merges }) :=
      alike_modify (fun _ _ frames => { frames with merges := .cons ⟨place, rfl⟩ frames.merges })
        fun _ => le_rfl
    exact before (fun slots => (recorded slots).bind fun _ _ _ => blind (m := pure slots)) s s' frames

lemma alike_moveInto (a a' : Nat) (conditional : Bool) (moves : List (VarRef × VarRef)) :
    T.Alike Eq (moveInto a conditional moves) (moveInto a' conditional moves) := by
  induction moves with
  | nil => exact blind_pure.blind
  | cons e rest ih =>
    obtain ⟨v, slot⟩ := e
    have moved : T.Alike Eq
        (do copy (← convert v (← typeOf slot)) slot; moveInto a conditional rest)
        (do copy (← convert v (← typeOf slot)) slot; moveInto a' conditional rest) :=
      before fun _ => before fun _ => before fun _ => ih
    exact .ite (.ite (alike_throw_bind rfl) ih) (.ite (before fun _ => moved) moved)

lemma alike_flowInto (place : T.same a a') (conditional : Bool) :
    T.Alike Eq (flowInto a conditional) (flowInto a' conditional) := by
  refine (alike_mergeSlots place).bind fun slots _ e => ?_
  subst e
  intro s s' frames
  simp only [get_bind, frames.stack]
  exact ((alike_moveInto a a' conditional _).bind fun _ _ _ => .ite (blind_modifyStack fun _ => []).blind
    blind) s s' frames

lemma alike_branchTo {t t' : Nat} (lands : T.Lands t t') (conditional : Bool) :
    T.Alike Eq (branchTo t conditional) (branchTo t' conditional) := by
  refine alike_read ((alike_labelFor lands).bind fun label _ e => ?_)
  subst e
  intro s s' frames
  simp only [get_bind, frames.stack]
  refine Alike.ite blind ?_ s s' frames
  refine alike_currentOffset.bind fun o o' here => alike_ite (T.le_iff lands here).symm ?_ ?_
  · exact alike_throw_bind rfl
  · exact (alike_flowInto lands conditional).bind fun _ _ _ => blind

lemma alike_jumpTo {t t' : Nat} (lands : T.Lands t t') : T.Alike Eq (jumpTo t) (jumpTo t') :=
  (alike_branchTo lands false).bind fun _ _ e => e ▸ blind

instance blind_releaseAll (slots : List VarRef) : T.IsBlind (releaseAll slots) := by
  induction slots <;> unfold releaseAll <;> infer_instance

lemma alike_takeUp (place : T.same a a') : T.Alike Eq (takeUp a) (takeUp a') := by
  intro s s' frames
  simp only [takeUp, get_bind, lookup_eq frames.merges place]
  cases s.merges.lookup a with
  | none => exact .ok rfl frames le_rfl
  | some slots =>
    have removed : T.Alike Eq
        (modify fun s => { s with merges := s.merges.filter (·.1 != a) } : Lower Unit)
        (modify fun s => { s with merges := s.merges.filter (·.1 != a') }) :=
      alike_modify (fun _ _ frames =>
        { frames with merges := filter_entries frames.merges place }) fun _ => le_rfl
    exact (removed.bind fun _ _ _ => before fun _ => (blind_modifyStack fun _ => slots).blind) s s'
      frames

lemma alike_arrive (place : T.same a a') : T.Alike Eq (arrive a) (arrive a') := by
  refine (alike_labelFor place).bind fun label _ e => ?_
  subst e
  have taken : T.Alike Eq (do mark label; takeUp a) (do mark label; takeUp a') :=
    before fun _ => alike_takeUp place
  intro s s' frames
  simp only [get_bind, frames.stack, frames.flowEnded]
  exact Alike.ite ((alike_flowInto place false).bind fun _ _ _ => taken) taken s s' frames

lemma alike_beginInstruction (place : T.same a a') :
    T.Alike Eq (beginInstruction a) (beginInstruction a') := by
  refine alike_read ?_
  have begun : T.Alike Eq
      (do modify ({ · with flowEnded := false }); if env.options.sourceMap then markSource a)
      (do modify ({ · with flowEnded := false }); if env.options.sourceMap then markSource a') := by
    rw [T.quiet]
    exact Alike.bind (alike_modify (fun _ _ frames => { frames with flowEnded := rfl })
      fun _ => le_rfl) fun _ _ _ => blind_pure.blind
  have arrived : T.Alike Eq
      (do
        if env.isTarget a then arrive a
        modify ({ · with flowEnded := false })
        if env.options.sourceMap then markSource a)
      (do
        if T.other.isTarget a' then arrive a'
        modify ({ · with flowEnded := false })
        if env.options.sourceMap then markSource a') :=
    alike_ite (by rw [isTarget_eq' place]) ((alike_arrive place).bind fun _ _ _ => begun) begun
  intro s s' frames
  simp only [get_bind, frames.stack, frames.flowEnded]
  exact Alike.ite (alike_throw_bind rfl) arrived s s' frames

instance blind_finish : T.IsBlind finish := by
  refine ⟨fun s s' frames => ?_⟩
  have vars : s'.draft.vars.blur = s.draft.vars.blur := congrArg Draft.vars frames.draft
  have left : s.scratch.outstanding s'.draft.vars = s.scratch.outstanding s.draft.vars := by
    rw [← Scratch.outstanding_blur, vars, Scratch.outstanding_blur]
  simp only [finish, get_bind, frames.stack, frames.saved, frames.scratch, left]
  split_ifs
  · exact .error rfl
  · exact .error rfl
  · exact .error rfl
  cases s.scratch.outstanding s.draft.vars with
  | nil => exact .ok rfl frames le_rfl
  | cons v rest =>
    have reserved := Variable.congr_of_blur_eq Variable.reserved_blur (frames.get_eq v)
    have handOut : (s'.draft.vars.get v).handOut.map HandOut.blur =
        (s.draft.vars.get v).handOut.map HandOut.blur := congrArg Variable.handOut (frames.get_eq v)
    refine .error ?_
    simp only [CompileError.blur, CompileError.invariant, Cause.blur, Breach.blur, handOut, reserved]

end FlatHeap.Twin
