import FlatHeap.Rules.Arithmetic
import FlatHeap.Rules.Comparison
import FlatHeap.Proofs.Rules.Slots

/-!
# Accounts of rules: operators, conversions and comparisons

All these rules take their operands off the operand stack, convert them, and call a host operation
that uses them up, unless all operands are constants and the result is known.  A constant is no
temporary, so letting go of it is no loss.

A comparison may also take the two instructions behind it that negate its result.  Neither may be one
that a branch lands at, so the cursor passes no offset at which an operand stack waits.
-/

namespace FlatHeap

open Lower FlatHeap.Frame CompileError

variable {R : Frame → Frame → Prop} {E : CompileError → Prop} {env : MethodEnv} {s s' : Frame}
  {held kept carried : List VarRef} {v left right : VarRef}

lemma weightless_of_constant? {vs : Variables} {x : Value} (hv : vs.Has v)
    (hx : (vs.get v).constant? = some x) : env.Weightless vs v := by
  refine MethodEnv.weightless_of_kind hv ?_
  unfold Variable.constant? at hx
  split_ifs at hx with hk
  exact hk

namespace Rules

variable {md : Metadata} {e : CompileError}

lemma harmless_binaryType {a b : TypeRef} {u : Bool} (h : md.binaryType a b u = .error e) :
    e.Harmless := by
  unfold Metadata.binaryType at h
  split at h
  · cases h
  · obtain rfl := Except.error.inj h
    exact harmless_unsupported _

lemma harmless_operandType {op : Bytecode.Opcode} {a b : TypeRef}
    (h : operandType md op a b = .error e) : e.Harmless := by
  unfold operandType at h
  split_ifs at h
  · split at h
    · cases h
    · obtain rfl := Except.error.inj h
      exact harmless_unsupported _
  · cases hb : md.binaryType a b (isUnsignedOperator op) with
    | ok t => simp [hb] at h
    | error e' =>
      rw [hb] at h
      obtain rfl := Except.error.inj h
      exact harmless_binaryType hb

/-! ## Operators -/

lemma popTwo_meets [Restacks R] {α : Type} {f : VarRef → VarRef → Lower α} {Q : α → Frame → Prop}
    (h : s.Balanced env (s.stack ++ held) kept)
    (hf : ∀ left right s₁, R s s₁ ∧ s.stack = right :: left :: s₁.stack →
      s₁.Balanced env (left :: right :: (s₁.stack ++ held)) kept →
      Meets R Harmless (f left right) env s₁ Q) :
    Meets R Harmless (do
      let right ← popStack
      let left ← popStack
      f left right) env s Q := by
  refine (popStack_meets [] h (harmless_invariant rfl)).bind fun right s₁ g₁ h₁ => ?_
  refine (popStack_meets [right] h₁.1 (harmless_invariant rfl)).bind fun left s₂ g₂ h₂ => ?_
  exact hf left right s₂ ⟨trans_of R g₁ g₂, by rw [h₁.2.1, h₂.2.1]⟩ h₂.1

lemma convertTwo_meets [Follows env R] (t u : TypeRef) {α : Type} {f : VarRef → VarRef → Lower α}
    {Q : α → Frame → Prop} (h : s.Balanced env (left :: right :: (s.stack ++ held)) kept)
    (hf : ∀ left right s₁, R s s₁ ∧ s₁.stack = s.stack →
      s₁.Balanced env (left :: right :: (s₁.stack ++ held)) kept →
      Meets R Harmless (f left right) env s₁ Q) :
    Meets R Harmless (do
      let left ← convert left t
      let right ← convert right u
      f left right) env s Q := by
  refine (convert_works t h).works.bind fun left s₁ g₁ h₁ => ?_
  refine (convert_works u (h₁.2.1.perm (.swap right left _))).works.bind fun right s₂ g₂ h₂ => ?_
  have hb := h₂.2.1.perm (.swap left right _)
  rw [← h₁.1.stack_eq, ← h₂.1.stack_eq] at hb
  exact hf left right s₂ ⟨trans_of R g₁ g₂, by rw [h₂.1.stack_eq, h₁.1.stack_eq]⟩ hb

lemma binary_clean : binary.Clean := by
  intro env i s held _ h
  simp only [binary, meets_metadata_bind]
  refine popTwo_meets h fun left right s₁ _ hb₁ => ?_
  rw [meets_typeOf_bind, meets_typeOf_bind]
  refine (ofExcept_meets fun e he => harmless_operandType he).look fun t _ => ?_
  refine convertTwo_meets t _ hb₁ fun left right s₃ _ hb₃ => ?_
  rw [meets_constant?_bind, meets_constant?_bind]
  split
  · rename_i value hfold
    -- both operands are constants
    obtain ⟨x, hx, hrest⟩ := Option.bind_eq_some_iff.1 hfold
    obtain ⟨y, hy, -⟩ := Option.bind_eq_some_iff.1 hrest
    have hb₄ := hb₃.letGo (weightless_of_constant? (hb₃.usable_hand (by simp)).1 hx)
    have hb₅ := hb₄.letGo (weightless_of_constant? (hb₄.usable_hand (by simp)).1 hy)
    exact (pushConstant_meets value t hb₅).claimBind
  · simp only [meets_ident_bind]
    exact (invokeResult_meets t hb₃).claim

lemma popOne_meets [Restacks R] {α : Type} {f : VarRef → Lower α} {Q : α → Frame → Prop}
    (h : s.Balanced env (s.stack ++ held) kept)
    (hf : ∀ v s₁, R s s₁ ∧ s.stack = v :: s₁.stack →
      s₁.Balanced env (v :: (s₁.stack ++ held)) kept → Meets R Harmless (f v) env s₁ Q) :
    Meets R Harmless (popStack >>= f) env s Q :=
  (popStack_meets [] h (harmless_invariant rfl)).bind fun v s₁ g₁ h₁ => hf v s₁ ⟨g₁, h₁.2.1⟩ h₁.1

lemma convertOne_meets [Follows env R] (t : TypeRef) {α : Type} {f : VarRef → Lower α}
    {Q : α → Frame → Prop} (h : s.Balanced env (v :: (s.stack ++ held)) kept)
    (hf : ∀ v s₁, R s s₁ ∧ s₁.stack = s.stack →
      s₁.Balanced env (v :: (s₁.stack ++ held)) kept → Meets R Harmless (f v) env s₁ Q) :
    Meets R Harmless (convert v t >>= f) env s Q := by
  refine (convert_works t h).works.bind fun v s₁ g₁ h₁ => ?_
  obtain ⟨hworks, hb, -⟩ := h₁
  rw [← hworks.stack_eq] at hb
  exact hf v s₁ ⟨g₁, hworks.stack_eq⟩ hb

lemma unary_clean : unary.Clean := by
  intro env i s held _ h
  simp only [unary, meets_metadata_bind]
  refine popOne_meets h fun v s₁ _ hb₁ => ?_
  rw [meets_typeOf_bind]
  split
  swap
  · exact meets_refuse (harmless_unsupported _)
  rename_i t _
  refine convertOne_meets t hb₁ fun v s₂ _ hb₂ => ?_
  rw [meets_ident_bind]
  refine meets_ite (fun _ => ?_) fun _ => ?_
  · exact (invokeResult_meets t hb₂).claim
  rw [meets_constant?_bind]
  split
  · rename_i value hfold
    obtain ⟨x, hx, -⟩ := Option.bind_eq_some_iff.1 hfold
    have hb₃ := hb₂.letGo (weightless_of_constant? (hb₂.usable_hand (by simp)).1 hx)
    exact (pushConstant_meets value t hb₃).claimBind
  · refine meets_ite (fun _ => ?_) fun _ => ?_
    · exact (invokeResult_meets t hb₂).claim
    · refine (intConstant_meets hb₂ t (-1) fun _ => harmless_invariant rfl).silently.bind
        fun ones s₃ _ h₃ => ?_
      obtain ⟨g, hb₃, x, -, hones⟩ := h₃
      rw [← g.stack_eq] at hb₃
      have hb₄ := (hb₃.hold hones.weightless).perm (.swap v ones _)
      exact (invokeResult_meets t hb₄).claim

lemma conversion_clean : conversion.Clean := by
  intro env i s held _ h
  simp only [conversion]
  refine popOne_meets h fun v s₁ _ hb₁ => ?_
  rw [meets_metadata_bind, meets_typeOf_bind]
  have finish {v : VarRef} {s₂ : Frame} (hb : s₂.Balanced env (v :: (s₂.stack ++ held)) []) :
      Meets (Advances env (carriedAt i s)) Harmless (do
        pushStack (← convert v (conversionTarget i.opcode))
        return true) env s₂ (Settled env held s) :=
    convertOne_meets _ hb fun v s₃ _ hb₃ => (pushStack_meets hb₃).claim
  split
  · exact convertOne_meets _ hb₁ fun v s₂ _ hb₂ => finish hb₂
  · exact finish hb₁

/-! ## Comparisons -/

lemma harmless_compareType {a b : TypeRef} {u : Bool} (h : md.compareType a b u = .error e) :
    e.Harmless := by
  unfold Metadata.compareType at h
  split_ifs at h
  exact harmless_binaryType h

lemma relationOn_meets [Std.Refl R] (t : TypeRef) (r : Relation) (unsigned : Bool) :
    Meets R Harmless (relationOn t r unsigned) env s fun _ s' => s' = s := by
  unfold relationOn
  refine meets_ite (fun _ => meets_pure rfl) fun _ => ?_
  split
  · exact meets_pure rfl
  · exact meets_refuse (harmless_unsupported _)

lemma comparedOperands_meets [Follows env R] (t : TypeRef) {α : Type}
    {f : VarRef × VarRef → Lower α} {Q : α → Frame → Prop}
    (h : s.Balanced env (left :: right :: (s.stack ++ held)) kept)
    (hf : ∀ left right s₁, R s s₁ ∧ s₁.stack = s.stack →
      s₁.Balanced env (left :: right :: (s₁.stack ++ held)) kept →
      Meets R Harmless (f (left, right)) env s₁ Q) :
    Meets R Harmless (comparedOperands left right t >>= f) env s Q := by
  unfold comparedOperands
  split_ifs
  · exact hf left right s ⟨refl_of R s, rfl⟩ h
  · simp only [bind_assoc, pure_bind]
    exact convertTwo_meets t t h hf

lemma constantOrder?_meets [Std.Refl R]
    (h : s.Balanced env (left :: right :: held) kept) :
    Meets R E (constantOrder? left right) env s fun order s' =>
      s' = s ∧ (order.isSome → s.Balanced env held kept) := by
  refine meets_of_ok rfl (refl_of R s) ⟨rfl, fun hsome => ?_⟩
  obtain ⟨o, ho⟩ := Option.isSome_iff_exists.1 hsome
  simp only [Option.bind_eq_bind, Option.bind_eq_some_iff] at ho
  obtain ⟨x, hx, y, hy, -⟩ := ho
  have hb := h.letGo (weightless_of_constant? (h.usable_hand (by simp)).1 hx)
  exact hb.letGo (weightless_of_constant? (hb.usable_hand (by simp)).1 hy)

lemma peekTwo?_spec {j k : Nat} (h : peekTwo? env s = .ok (some (j, k)) s) :
    env.nextLive? s.cursor = some j ∧ env.nextLive? (j + 1) = some k := by
  have hrun : (do
      let j ← env.nextLive? s.cursor
      let k ← env.nextLive? (j + 1)
      return (j, k)) = some (j, k) := (EStateM.Result.ok.inj h).1
  simp only [Option.bind_eq_bind, Option.bind_eq_some_iff, Option.pure_def] at hrun
  obtain ⟨j', hj, k', hk, hpair⟩ := hrun
  obtain ⟨rfl, rfl⟩ := Prod.mk.inj (Option.some.inj hpair)
  exact ⟨hj, hk⟩

lemma takeNegation_meets (h : s.Balanced env held kept) :
    Meets (Advances env carried) E takeNegation env s fun _ s' =>
      s'.Balanced env held kept ∧ s'.stack = s.stack := by
  rw [takeNegation, meets_read_bind]
  obtain ⟨two, htwo⟩ : ∃ two, peekTwo? env s = .ok two s := ⟨_, rfl⟩
  rw [meets_congr (bind_ok htwo)]
  rcases two with _ | ⟨j, k⟩
  · exact meets_pure ⟨h, rfl⟩
  obtain ⟨hj, hk⟩ := peekTwo?_spec htwo
  cases hzero : env.code[j]? with
  | none => simpa only [hzero] using meets_pure ⟨h, rfl⟩
  | some zero =>
    cases hequal : env.code[k]? with
    | none => simpa only [hzero, hequal] using meets_pure ⟨h, rfl⟩
    | some equal =>
      simp only [hzero, hequal]
      refine meets_ite (fun hpass => ?_) fun _ => meets_pure ⟨h, rfl⟩
      simp only [Bool.and_eq_true, Bool.not_eq_true'] at hpass
      have hle : s.cursor ≤ k + 1 :=
        (nextLive?_spec hj).1.trans ((Nat.le_succ j).trans ((nextLive?_spec hk).1.trans (Nat.le_succ k)))
      have hp : Proceeds env s { s with cursor := k + 1, current := some k } := by
        refine ⟨.of_draft rfl rfl fun _ => rfl, fun t => ?_, fun o => ?_, hle⟩
        · have hfirst := timely_moveTo t hj hzero hpass.1.2
          have hsecond := timely_moveTo hfirst hk hequal hpass.2
          exact hsecond
        · rw [ahead_moveTo hj hzero hpass.1.2, ahead_moveTo hk hequal hpass.2]
      exact meets_of_ok (a := true) rfl (hp.advances (aside_of_draft rfl rfl rfl rfl hle))
        ⟨h.of_eq rfl rfl rfl, rfl⟩

lemma negated_bind {α : Type} (c : Prop) [Decidable c] {f : Bool → Lower α} {Q : α → Frame → Prop}
    (h : s.Balanced env held kept)
    (hf : ∀ negated s₁, s₁.Balanced env held kept → s₁.stack = s.stack →
      Meets (Advances env carried) E (f negated) env s₁ Q) :
    Meets (Advances env carried) E (if c then takeNegation >>= f else f false) env s Q :=
  meets_ite (fun _ => (takeNegation_meets h).bind fun negated s₁ _ h₁ => hf negated s₁ h₁.1 h₁.2)
    fun _ => hf false s h rfl

lemma comparison_clean : comparison.Clean := by
  intro env i s held _ h
  simp only [comparison, meets_metadata_bind]
  refine popTwo_meets h fun left right s₁ _ hb₁ => ?_
  rw [meets_typeOf_bind, meets_typeOf_bind, meets_constant?_bind]
  refine meets_ite (fun hzero => ?_) fun _ => ?_
  · -- comparing a truth value with zero negates it
    obtain ⟨x, hx, -⟩ := Option.bind_eq_some_iff.1 hzero.2.2
    have hb₂ := hb₁.perm (.swap right left _)
    have hb₃ := hb₂.letGo (weightless_of_constant? (hb₂.usable_hand (by simp)).1 hx)
    exact (invokeResult_meets .boolean hb₃).claim
  refine (ofExcept_meets fun e he => harmless_compareType he).look fun t _ => ?_
  refine (relationOn_meets t _ _).bind fun r s₃ _ h₃ => ?_
  subst h₃
  refine negated_bind _ hb₁ fun negated s₄ hb₄ hstack => ?_
  rw [← hstack] at hb₄
  refine comparedOperands_meets t hb₄ fun left right s₅ _ hb₅ => ?_
  refine (constantOrder?_meets hb₅).look fun order hconst => ?_
  cases order with
  | some order =>
    exact (pushConstant_meets _ .boolean (hconst rfl)).claimBind
  | none =>
    rw [meets_ident_bind]
    exact (invokeResult_meets .boolean hb₅).claim

lemma comparingBranch_cleanAt {i : Bytecode.Instruction} (hi : i.opcode.decides = 2) :
    comparingBranch.CleanAt env i := by
  intro s held hsite h
  simp only [comparingBranch, meets_metadata_bind]
  refine (target_meets i).look fun target htarget => ?_
  refine popTwo_meets h fun left right s₁ g₁ hb₁ => ?_
  rw [meets_typeOf_bind, meets_typeOf_bind]
  refine (ofExcept_meets fun e he => harmless_compareType he).look fun t _ => ?_
  refine (relationOn_meets t _ _).bind fun r s₃ _ h₃ => ?_
  subst h₃
  refine comparedOperands_meets t hb₁ fun left right s₄ g₄ hb₄ => ?_
  have hsite₄ := hsite.later (g₁.1.trans g₄.1).toProceeds
  have hcarried : s₄.stack = carriedAt i s := by simp [carriedAt, hi, g₁.2, g₄.2]
  refine (constantOrder?_meets hb₄).look fun order hconst => ?_
  cases order with
  | some order =>
    refine meets_ite (fun _ => ?_) fun _ => meets_pure (hconst rfl)
    exact (jumpTo_meets target hcarried (hconst rfl) (hsite₄.faces htarget)).claim
  | none =>
    rw [meets_ident_bind]
    refine (invokeTemp_works .boolean hb₄).works.bind fun taken s₆ g₆ h₆ => ?_
    obtain ⟨g, ⟨hb₆, -⟩, -⟩ := h₆
    rw [← g.stack_eq] at hb₆
    have hbranch := branchTest_meets target (g.stack_eq.trans hcarried) hb₆
      ((hsite₄.later g₆.toProceeds).faces htarget)
    exact (hbranch.mono fun _ _ _ hs => hs.1).claimBind

end Rules

end FlatHeap
