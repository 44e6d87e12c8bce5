import FlatHeap.Rules.Objects
import FlatHeap.Rules.Optionals
import FlatHeap.Proofs.Rules.Transfers

/-!
# Accounts of rules: casts, arrays, addresses and optional values

A test of a type, and the value of an optional or a fallback, read a variable twice on one way
through the code they record and once on the other.  The second read is allocated beforehand and
recorded on both ways, the copy being jumped over.

Loading the address of an array element takes array and index off the operand stack and puts one
entry there that stands for both.  If one of them is an element address itself, what is behind it is
lost: this is the other rule that is not clean.
-/

namespace FlatHeap

open Lower FlatHeap.Frame CompileError

namespace Rules

variable {R : Frame → Frame → Prop} {E : CompileError → Prop} {env : MethodEnv} {s s' : Frame}
  {held kept carried : List VarRef} {v out fallback : VarRef} {i : Bytecode.Instruction}

lemma typeConstant_meets [Admits R] (t : TypeRef) (h : s.Balanced env held kept) :
    Meets R E (typeConstant t) env s fun c s' =>
      s'.Balanced env held kept ∧ env.Weightless s'.draft.vars c := by
  rw [typeConstant, meets_metadata_bind]
  exact (constant_meets h _ _).mono fun c _ _ hc => ⟨hc.1, hc.2.weightless⟩

lemma copyIf_meets {condition : VarRef}
    (h : s.Balanced env (condition :: v :: out :: (s.stack ++ held)) [])
    (ht : s.draft.vars.IsTemp out) :
    Meets (Advances env carried) Harmless (do
      let skip ← newLabel
      jumpIfFalse condition skip
      copy v out
      mark skip
      pushStack out) env s fun _ s' => s'.Balanced env (s'.stack ++ held) [] := by
  have hskip : Meets (Advances env carried) _ _ env s _ := skipping_meets (m := copy v out)
    (Q := fun _ s' => s'.Balanced env (out :: (s'.stack ++ held)) []) h
    (fun s₁ g₁ hrest hb₁ => ?_) fun s₁ ops hb₁ => balanced_emitting hb₁ ops
  · have hall : Meets (Advances env carried) Harmless _ env s fun _ s' =>
        s'.Balanced env (s'.stack ++ held) [] :=
      hskip.bind (f := fun _ => pushStack out) fun _ s₁ _ hb₁ => pushStack_meets hb₁
    simpa only [bind_assoc] using hall
  · have ho := g₁.isTemp ht
    refine ((copy_works hb₁ ⟨ho, by simp⟩).fills hb₁ ⟨ho, by simp⟩).mono fun _ s₂ _ h₂ => ?_
    have hstack : s₁.stack = s.stack := by rw [hrest]
    rw [h₂.1.stack_eq, hstack]
    exact h₂.2.1

/-! ## Boxes and casts -/

lemma testInstance_meets (t : TypeRef) (h : s.Balanced env (v :: (s.stack ++ held)) []) :
    Meets (Advances env carried) Harmless (testInstance v t) env s fun _ s' =>
      s'.Balanced env (s'.stack ++ held) [] := by
  rw [testInstance, meets_metadata_bind, meets_typeOf_bind]
  refine meets_ite (fun _ => pushStack_meets h) fun _ => ?_
  refine meets_ite (fun _ => meets_refuse (harmless_unsupported _)) fun _ => ?_
  refine (typeConstant_meets t h).silently.bind fun type s₁ _ h₁ => ?_
  obtain ⟨w₁, hb₁, htype⟩ := h₁
  refine (constant_meets hb₁ .null .object).silently.bind fun null s₂ _ h₂ => ?_
  obtain ⟨w₂, hb₂, hnull⟩ := h₂
  refine (temp_meets hb₂ t).silently.bind fun out s₃ _ h₃ => ?_
  obtain ⟨w₃, hb₃, htemp, -⟩ := h₃
  refine (allocate_works 1 (hb₃.perm (.swap v out _))).works.bind fun _ s₄ _ h₄ => ?_
  obtain ⟨w₄, h₄⟩ := h₄
  have hnull₄ : env.Weightless s₄.draft.vars null :=
    hnull.weightless.grows (w₃.vars.trans w₄.vars)
  have htemp₄ := w₄.vars.isTemp htemp
  -- an address is in hand only once, and refused by the test
  obtain ⟨hand, hb₄, hin, htwice⟩ : ∃ hand, s₄.Balanced env (v :: hand) [] ∧ out ∈ hand ∧
      ((s₄.draft.vars.get v).isAddress = false → hand = v :: out :: (s.stack ++ held)) := by
    rcases h₄ with ⟨ha, hb₄⟩ | hb₄
    · exact ⟨_, hb₄, by simp, by simp [ha]⟩
    · exact ⟨_, hb₄, by simp, fun _ => rfl⟩
  have ho : Output s₄ (v :: hand) out := ⟨htemp₄, by simp [hin]⟩
  refine ((copy_works (hb₄.hold hnull₄) ho).fills hb₄ ho).bind fun _ s₅ _ h₅ => ?_
  obtain ⟨w₅, hb₅, -⟩ := h₅
  have htype₅ := htype.grows (w₂.vars.trans (w₃.vars.trans (w₄.vars.trans w₅.vars)))
  have hb₆ : s₅.Balanced env ([type, v] ++ hand) [] := hb₅.hold htype₅
  refine (invokeTemp_works .boolean hb₆).works.bind fun matching s₇ _ h₇ => ?_
  obtain ⟨w₇, ⟨hb₇, -⟩, hvalues⟩ := h₇
  obtain rfl := htwice ((w₅.vars.isAddress_eq (hb₄.usable_hand (by simp)).1).symm.trans
    (hvalues v (by simp)))
  have hstack : s₇.stack = s.stack := by
    rw [w₇.stack_eq, w₅.stack_eq, w₄.stack_eq, w₃.stack_eq, w₂.stack_eq, w₁.stack_eq]
  rw [← hstack] at hb₇
  exact copyIf_meets hb₇ ((w₅.vars.trans w₇.vars).isTemp htemp₄)

lemma casts_clean : casts.Clean := by
  intro env i s held _ h
  refine (type_meets i).bind fun t s₁ _ h₁ => ?_
  subst h₁
  refine popOne_meets h fun v s₁ _ hb₁ => ?_
  refine meets_ite (fun _ => (testInstance_meets t hb₁).claim) fun _ => ?_
  exact convertOne_meets t hb₁ fun v s₂ _ hb₂ => (pushStack_meets hb₂).claim

/-! ## Arrays -/

lemma arrays_clean : arrays.Clean := by
  intro env i s held _ h
  simp only [arrays, meets_metadata_bind]
  refine meets_ite (fun _ => ?_) fun _ => ?_
  · refine popOne_meets h fun array s₁ _ hb₁ => ?_
    rw [meets_typeOf_bind, meets_ident_bind]
    have hb₁ : s₁.Balanced env ([array] ++ (s₁.stack ++ held)) [] := hb₁
    exact (invokeResult_meets .int32 hb₁).claim
  · refine (type_meets i).bind fun elem s₁ _ h₁ => ?_
    subst h₁
    split
    swap
    · exact meets_refuse (harmless_unsupported _)
    rename_i t _
    refine popOne_meets h fun v s₁ _ hb₁ => ?_
    refine convertOne_meets .int32 hb₁ fun length s₂ _ hb₂ => ?_
    rw [meets_ident_bind]
    have hb₂ : s₂.Balanced env ([length] ++ (s₂.stack ++ held)) [] := hb₂
    exact (invokeResult_meets t hb₂).claim

lemma popElement_meets {l : List VarRef} (h : s.Balanced env (l ++ (s.stack ++ held)) []) :
    Meets (Advances env carried) Harmless popElement env s fun e s' =>
      s'.Balanced env (e.1 :: e.2 :: (l ++ (s'.stack ++ held))) [] := by
  refine (popStack_meets l h (harmless_invariant rfl)).bind fun index s₁ _ h₁ => ?_
  refine (popStack_meets (index :: l) h₁.1 (harmless_invariant rfl)).bind fun array s₂ _ h₂ => ?_
  refine (convert_works .int32 (h₂.1.perm (.swap index array _))).works.bind
    fun index s₃ _ h₃ => meets_pure ?_
  rw [h₃.1.stack_eq]
  exact h₃.2.1.perm (.swap array index _)

lemma loadElement_clean : loadElement.Clean := by
  intro env i s held _ h
  refine (popElement_meets (l := []) h).bind fun e s₁ _ hb₁ => ?_
  refine (arrayGetter_meets e.1).bind fun getter s₂ _ h₂ => ?_
  subst h₂
  have hb₁ : s₂.Balanced env ([e.1, e.2] ++ (s₂.stack ++ held)) [] := hb₁
  exact (invokeResult_meets getter.2 hb₁).claim

lemma storeElement_clean : storeElement.Clean := by
  intro env i s held _ h
  refine popOne_meets h fun v s₁ _ hb₁ => ?_
  refine (popElement_meets (l := [v]) hb₁).bind fun e s₂ _ hb₂ => ?_
  have hb₂ : s₂.Balanced env ([e.1, e.2] ++ v :: (s₂.stack ++ held)) [] := hb₂
  have hb₃ := hb₂.perm List.perm_middle
  refine ((arraySet_operands hb₃).works.mono fun _ s₃ _ h₃ => ?_).claim
  rw [h₃.1.stack_eq]
  exact h₃.2

/-- What is lost when the address of an array element is loaded: what is behind the array and the
index. -/
def lostElement (s : Frame) : List VarRef :=
  match s.stack with
  | index :: array :: _ => s.draft.vars.behind array ++ s.draft.vars.behind index
  | _ => []

/-- **Loading the address of an array element** keeps the books, but for what is behind the array and
the index. -/
lemma loadElementAddress_meets (h : s.Balanced env (s.stack ++ held) []) :
    Meets (Advances env carried) Harmless (loadElementAddress.build i) env s
      (Settled env (lostElement s ++ held) s) := by
  refine (type_meets i).bind fun elem s₀ _ h₀ => ?_
  subst h₀
  have hpop : Meets (Advances env carried) Harmless popElement env s₀ fun e s' =>
      s'.Balanced env (e.1 :: e.2 :: (s'.stack ++ held)) [] ∧
        s'.draft.vars.behind e.1 ++ s'.draft.vars.behind e.2 = lostElement s₀ := by
    refine (popStack_meets [] h (harmless_invariant rfl)).bind fun index s₁ _ h₁ => ?_
    obtain ⟨hb₁, hs₁, hrest₁⟩ := h₁
    refine (popStack_meets [index] hb₁ (harmless_invariant rfl)).bind fun array s₂ _ h₂ => ?_
    obtain ⟨hb₂, hs₂, hrest₂⟩ := h₂
    have hvars : s₂.draft.vars = s₀.draft.vars := by rw [hrest₂, hrest₁]
    refine (convert_behind .int32 (hb₂.perm (.swap index array _))).works.bind
      fun index' s₃ _ h₃ => ?_
    obtain ⟨w₃, hb₃, hbehind⟩ := h₃
    refine meets_pure ⟨?_, ?_⟩
    · rw [w₃.stack_eq]
      exact hb₃.perm (.swap array index' _)
    · have harray := Variables.behind_grows w₃.vars hb₂.tidy
        (hb₂.usable_hand (v := array) (by simp)).1
      rw [harray, hbehind, hvars, lostElement, hs₁, hs₂]
  refine hpop.bind fun e s₁ _ h₁ => ?_
  obtain ⟨hb₁, hlost⟩ := h₁
  rw [← hlost]
  refine (elementAddress_meets hb₁ elem).silently.bind fun a s₂ _ h₂ => ?_
  obtain ⟨w₂, hb₂⟩ := h₂
  refine (pushStack_meets (hb₂.perm ?_)).claim
  rw [w₂.stack_eq]
  exact .cons _ (List.perm_append_comm_assoc _ _ _)

/-! ## Addresses -/

lemma loadThrough_clean : loadThrough.Clean := by
  intro env i s held _ h
  refine popOne_meets h fun v s₁ _ hb₁ => ?_
  refine (loadIndirect_works hb₁).works.bind fun out s₂ _ h₂ => ?_
  obtain ⟨w₂, hb₂⟩ := h₂
  rw [← w₂.stack_eq] at hb₂
  exact (pushStack_meets hb₂).claim

lemma storeThrough_clean : storeThrough.Clean := by
  intro env i s held _ h
  refine popTwo_meets h fun address v s₁ _ hb₁ => ?_
  exact (storeIndirect_meets (hb₁.perm (.swap v address _))).claim

lemma freshValue_meets (t : TypeRef) (h : s.Balanced env held kept) :
    Meets (Works env held) Harmless (freshValue t) env s fun out s' =>
      s'.Balanced env (out :: held) kept := by
  rw [freshValue, meets_metadata_bind]
  refine meets_ite (fun _ => ?_) fun _ => ?_
  · refine meets_ite (fun _ => meets_refuse (harmless_unsupported _)) fun _ => ?_
    refine (typeConstant_meets t h).bind fun c s₁ _ h₁ => ?_
    obtain ⟨hb₁, hc⟩ := h₁
    exact (invokeTemp_works t (hb₁.hold hc)).mono fun out s₂ _ h₂ => h₂.1.1
  · exact (constant_meets h _ t).mono fun c s₁ _ h₁ => h₁.1.hold h₁.2.weightless

lemma resetThrough_clean : resetThrough.Clean := by
  intro env i s held _ h
  refine (type_meets i).bind fun t s₁ _ h₁ => ?_
  subst h₁
  refine popOne_meets h fun address s₁ _ hb₁ => ?_
  rw [meets_var_bind]
  refine meets_ite (fun _ => meets_breach (harmless_invariant rfl)) fun _ => ?_
  refine (freshValue_meets t hb₁).works.bind fun v s₂ _ h₂ => ?_
  obtain ⟨w₂, hb₂⟩ := h₂
  rw [← w₂.stack_eq] at hb₂
  exact (storeIndirect_meets hb₂).claim

/-! ## Optional values -/

lemma wrapOptional_meets (i : Bytecode.Instruction) (optional inner : TypeRef)
    (h : s.Balanced env (s.stack ++ held) []) :
    Meets (Advances env carried) Harmless (wrapOptional i optional inner) env s fun _ s' =>
      s'.Balanced env (s'.stack ++ held) [] := by
  refine popOne_meets h fun v s₁ _ hb₁ => ?_
  refine convertOne_meets inner hb₁ fun v s₂ _ hb₂ => ?_
  refine meets_ite (fun _ => copyResult_meets optional hb₂) fun _ => ?_
  refine (popStack_meets [v] hb₂ (harmless_invariant rfl)).bind fun address s₃ _ h₃ => ?_
  exact storeIndirect_meets (h₃.1.perm (.swap v address _))

lemma popOptional_meets (l : List VarRef) (h : s.Balanced env (l ++ (s.stack ++ held)) []) :
    Meets (Advances env carried) Harmless popOptional env s fun v s' =>
      s'.Balanced env (v :: (l ++ (s'.stack ++ held))) [] := by
  refine (popStack_meets l h (harmless_invariant rfl)).bind fun v s₁ _ h₁ => ?_
  refine (loadIndirect_works h₁.1).works.mono fun out s₂ _ h₂ => ?_
  rw [h₂.1.stack_eq]
  exact h₂.2

lemma valueOr_meets (inner : TypeRef) (h : s.Balanced env (fallback :: (s.stack ++ held)) []) :
    Meets (Advances env carried) Harmless (valueOr fallback inner) env s fun _ s' =>
      s'.Balanced env (s'.stack ++ held) [] := by
  refine (popOptional_meets [fallback] h).bind fun v s₁ _ hb₁ => ?_
  refine (allocate_works 1 hb₁).works.bind fun _ s₂ _ h₂ => ?_
  obtain ⟨w₂, h₂⟩ := h₂
  -- an address is in hand only once, and refused when it is compared with null
  obtain ⟨hand, hb₂, htwice⟩ : ∃ hand, s₂.Balanced env (fallback :: v :: hand) [] ∧
      ((s₂.draft.vars.get v).isAddress = false → hand = v :: (s₁.stack ++ held)) := by
    rcases h₂ with ⟨ha, hb₂⟩ | hb₂
    · exact ⟨_, hb₂.perm (.swap fallback v _), by simp [ha]⟩
    · have hb₂ : s₂.Balanced env ([v, v] ++ fallback :: (s₁.stack ++ held)) [] := hb₂
      exact ⟨_, hb₂.perm List.perm_middle, fun _ => rfl⟩
  have hrest : Meets (Advances env carried) Harmless (do
      let out ← (do
        let out ← temp inner
        copy fallback out
        pure out)
      let present ← nonNull v
      let skip ← newLabel
      jumpIfFalse present skip
      copy v out
      mark skip
      pushStack out) env s₂ fun _ s' => s'.Balanced env (s'.stack ++ held) [] := by
    refine (makes_freshCopy inner hb₂).works.bind fun out s₃ _ h₃ => ?_
    obtain ⟨w₃, ⟨hb₃, htemp⟩, -⟩ := h₃
    refine (nonNull_works (hb₃.perm (.swap v out _))).works.bind fun present s₄ _ h₄ => ?_
    obtain ⟨w₄, ⟨hb₄, -⟩, hvalue⟩ := h₄
    obtain rfl := htwice ((w₃.vars.isAddress_eq (hb₂.usable_hand (by simp)).1).symm.trans hvalue)
    rw [← w₂.stack_eq, ← w₃.stack_eq, ← w₄.stack_eq] at hb₄
    exact copyIf_meets (hb₄.perm (.cons present (.swap v out _))) (w₄.vars.isTemp htemp)
  simpa only [bind_assoc, pure_bind] using hrest

lemma optionals_clean : optionals.Clean := by
  intro env i s held _ h
  simp only [optionals, meets_metadata_bind]
  refine (method_meets i).look fun m _ => ?_
  split
  swap
  · exact meets_pure rfl
  rename_i inner _
  refine meets_ite (fun _ => (wrapOptional_meets i _ inner h).claim) fun _ => ?_
  split
  · -- whether there is a value
    refine (popOptional_meets [] h).bind fun v s₂ _ hb₂ => ?_
    refine (constant_meets hb₂ .null .object).silently.bind fun null s₃ _ h₃ => ?_
    obtain ⟨w₃, hb₃, hnull⟩ := h₃
    have hb₃ : s₃.Balanced env ([v, null] ++ (s₃.stack ++ held)) [] := by
      rw [w₃.stack_eq]
      exact (hb₃.hold hnull.weightless).perm (.swap v null _)
    exact (invokeResult_meets .boolean hb₃).claim
  · -- the value
    refine (popOptional_meets [] h).bind fun v s₂ _ hb₂ => ?_
    have hcopy : Meets (Advances env (carriedAt i s)) _ _ env s₂ (Settled env held s) :=
      (copyResult_meets inner hb₂).claim
    simpa only [bind_assoc] using hcopy
  · -- the value or the default
    refine (constant_meets h _ inner).silently.bind fun c s₂ _ h₂ => ?_
    obtain ⟨w₂, hb₂, hc⟩ := h₂
    rw [← w₂.stack_eq] at hb₂
    exact (valueOr_meets inner (hb₂.hold hc.weightless)).claim
  · -- the value or a fallback
    refine popOne_meets h fun v s₂ _ hb₂ => ?_
    exact convertOne_meets inner hb₂ fun v s₃ _ hb₃ => (valueOr_meets inner hb₃).claim
  · exact meets_refuse (harmless_unsupported _)

end Rules

end FlatHeap
