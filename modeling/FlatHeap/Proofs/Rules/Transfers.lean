import FlatHeap.Rules.Transfers
import FlatHeap.Proofs.Rules.Operators

/-!
# Accounts of rules: jumps, tests, tables and returns

A jump by a table reads its selector once for every entry of the table, so as many reads are
allocated beforehand.  A table without entries reads the selector once, which drops it; but an element
address is not a variable that can be read, and dropping it by a read leaves what is behind it.  This
is one of the two rules that are not clean.
-/

namespace FlatHeap

open Lower FlatHeap.Frame CompileError

namespace Rules

variable {E : CompileError → Prop} {env : MethodEnv} {s s' : Frame} {held carried : List VarRef}
  {v selector : VarRef} {i : Bytecode.Instruction}

lemma jumping_cleanAt (hi : i.opcode.decides = 0) : jumping.CleanAt env i := by
  intro s held hsite h
  refine (target_meets i).look fun target htarget => ?_
  exact (jumpTo_meets target (by simp [carriedAt, hi]) h (hsite.faces htarget)).claim

lemma testing_cleanAt (hi : i.opcode.decides = 1) : testing.CleanAt env i := by
  intro s held hsite h
  simp only [testing]
  refine (target_meets i).look fun target htarget => ?_
  refine popOne_meets h fun v s₁ g₁ hb₁ => ?_
  refine convertOne_meets .boolean hb₁ fun condition s₂ g₂ hb₂ => ?_
  have hsite₂ := hsite.later (g₁.1.trans g₂.1).toProceeds
  have hcarried : s₂.stack = carriedAt i s := by simp [carriedAt, hi, g₁.2, g₂.2]
  rw [meets_constant?_bind]
  split
  · rename_i value hconst
    have hb₃ := hb₂.letGo (weightless_of_constant? (hb₂.usable_hand (by simp)).1 hconst)
    refine meets_ite (fun _ => ?_) fun _ => meets_pure hb₃
    exact (jumpTo_meets target hcarried hb₃ (hsite₂.faces htarget)).claim
  · refine meets_ite (fun _ => ?_) fun _ => ?_
    · have hskip : Meets (Advances env (carriedAt i s)) _ _ env s₂ _ := skipping_meets
        (m := do jump (← branchTo target true)) (Q := fun _ s' => s'.Balanced env (s'.stack ++ held) [])
        hb₂ (fun s₃ _ hrest hb₃ => ?_) fun s₃ ops hb₃ => balanced_emitting hb₃ ops
      · have hclaim : Meets _ _ _ env s₂ (Settled env held s) := hskip.claim
        simpa only [bind_assoc] using hclaim
      · have hstack : s₃.stack = s₂.stack := by rw [hrest]
        exact (branchJump_meets target true (hstack.trans hcarried) (hstack ▸ hb₃)
          ((hsite₂.faces htarget).of_eq (by rw [hrest]) (by rw [hrest]))).mono fun _ _ _ hs => hs.1
    · have hbranch := branchTest_meets target hcarried hb₂ (hsite₂.faces htarget)
      exact (hbranch.mono fun _ _ _ hs => hs.1).claimBind

/-! ## Tables -/

/-- **A chain of tests** of a selector against positions.  Each test compares, hands the operand stack
over to its target and jumps there unless the comparison found a difference. -/
inductive Tests (env : MethodEnv) (selector : VarRef) (held : List VarRef) :
    List (Nat × Nat) → Frame → Frame → Prop
  | done {s : Frame} : Tests env selector held [] s s
  | test {target k : Nat} {rest : List (Nat × Nat)} {c differs : VarRef} {l : Label} {x : Value}
    {slots others : List VarRef} {carry : List Piece} {s s₁ s₂ s₃ s' : Frame}
    (reads : others = List.replicate rest.length selector)
    (balanced : s.Balanced env (selector :: (others ++ (s.stack ++ held))) [])
    (value : env.md.integerValue? .int32 k = some x) (const : IsConst s₁.draft.vars x .int32 c)
    (compares : Invokes env (Host.Signature.binary "SystemInt32" "op_Inequality" "SystemBoolean")
      [selector, c] (some differs) s s₁)
    (fresh : Fresh s (selector :: (others ++ (s.stack ++ held))) .boolean differs s₁)
    (hands : HandsOver env (env.landing target) (differs :: (others ++ held)) s.stack slots carry s₁ s₂)
    (stack : s₂.stack = s.stack) (label : (env.landing target, l) ∈ s₂.labels)
    (leaves : Records env [.test differs l] s₂ s₃) (further : Tests env selector held rest s₃ s') :
    Tests env selector held ((target, k) :: rest) s s'

lemma testCases_cons (target k : Nat) (rest : List (Nat × Nat)) :
    testCases selector ((target, k) :: rest) = (do
      let c ← intConstant .int32 k
      invokeTemp (Host.Signature.binary "SystemInt32" "op_Inequality" "SystemBoolean") [selector, c]
        .boolean) >>= fun differs => (do
      let label ← branchTo target true
      jumpIfFalse differs label) >>= fun _ => testCases selector rest := by
  simp only [testCases, bind_assoc]

lemma testCases_meets (cases : List (Nat × Nat)) (hsite : Site env i s)
    (hcarried : s.stack = carried)
    (h : s.Balanced env (List.replicate cases.length selector ++ (s.stack ++ held)) [])
    (ht : ∀ c ∈ cases, c.1 ∈ i.targets) :
    Meets (Advances env carried) Harmless (testCases selector cases) env s fun _ s' =>
      s'.Balanced env (s'.stack ++ held) [] ∧ s'.stack = s.stack ∧
        Tests env selector held cases s s' := by
  induction cases generalizing s with
  | nil => exact meets_pure ⟨h, rfl, .done⟩
  | cons c rest ih =>
    obtain ⟨target, k⟩ := c
    set others := List.replicate rest.length selector with hothers
    have h : s.Balanced env (selector :: (others ++ (s.stack ++ held))) [] := h
    rw [testCases_cons]
    refine (withConstant_meets .int32 .boolean k h (fun _ => harmless_invariant rfl)
      fun _ => harmless_invariant rfl).works.bind fun differs s₁ g₁ h₁ => ?_
    obtain ⟨w₁, hb₁, hfresh, -, x, c, hx, hc, hinv⟩ := h₁
    have hsite₁ := hsite.later g₁.toProceeds
    have hb₁ : s₁.Balanced env (differs :: (s₁.stack ++ (others ++ held))) [] := by
      rw [w₁.stack_eq]
      exact hb₁.perm (.cons _ (List.perm_append_comm_assoc _ _ _))
    refine (branchTest_meets target (w₁.stack_eq.trans hcarried) hb₁
      (hsite₁.faces (ht (target, k) (by simp)))).bind fun _ s₂ g₂ h₂ => ?_
    obtain ⟨hb₂, hs₂, l, s', slots, carry, hl, hs', hands, hrec⟩ := h₂
    rw [w₁.stack_eq] at hs₂ hs' hands
    refine (ih (hsite₁.later g₂.toProceeds) (hs₂.trans hcarried)
      (hb₂.perm (List.perm_append_comm_assoc _ _ _))
      fun c hc => ht c (List.mem_cons_of_mem _ hc)).mono fun _ s₃ _ h₃ => ?_
    exact ⟨h₃.1, h₃.2.1.trans hs₂, .test hothers h hx hc hinv hfresh hands hs' hl hrec h₃.2.2⟩

lemma useSelector_meets (h : s.Balanced env (selector :: (s.stack ++ held)) []) :
    Meets Silent E (useVar selector) env s fun _ s' =>
      s'.Balanced env (s.stack ++ (s.draft.vars.behind selector ++ held)) [] := by
  by_cases ha : (s.draft.vars.get selector).isAddress = true
  · have hk : s.draft.vars.kind selector ≠ .temporary := fun hk => by
      simp [Variable.isAddress_of_temporary hk] at ha
    refine meets_of_ok (useVar_idle hk) (refl_of Silent s) ?_
    rw [Variables.behind, if_pos ha]
    exact h.shatter.perm (List.perm_append_comm_assoc _ _ _)
  · have ha : (s.draft.vars.get selector).isAddress = false := by simpa using ha
    rw [Variables.behind_of_value ha]
    exact useVar_meets h (Variables.plain_of_not_isAddress ha)

/-- What is lost when the table of the instruction has no entries. -/
def lostSelector (i : Bytecode.Instruction) (s : Frame) : List VarRef :=
  match i.targets, s.stack with
  | [], top :: _ => s.draft.vars.behind top
  | _, _ => []

lemma lostSelector_of_value {top : VarRef} {rest : List VarRef} (hs : s.stack = top :: rest)
    (hb : s.draft.vars.behind top = []) : lostSelector i s = [] := by
  unfold lostSelector
  rw [hs]
  split
  · rename_i hcons
    obtain ⟨rfl, -⟩ := List.cons.inj hcons
    exact hb
  · rfl

lemma isAddress_of_constant? {vs : Variables} {x : Value} (hx : (vs.get v).constant? = some x) :
    (vs.get v).isAddress = false := by
  unfold Variable.constant? at hx
  split_ifs at hx with hk
  simp [Variable.isAddress, hk]

lemma testCases_refuses {cases : List (Nat × Nat)}
    (h : s.Balanced env (selector :: held) [])
    (ha : (s.draft.vars.get selector).isAddress = true) (hne : cases ≠ []) :
    Refuses (testCases selector cases) env s := by
  obtain ⟨⟨target, k⟩, rest, rfl⟩ := List.exists_cons_of_ne_nil hne
  refine (intConstant_meets h .int32 k fun _ => harmless_invariant rfl).bind fun c s₁ g₁ h₁ => ?_
  obtain ⟨hb₁, x, -, hc⟩ := h₁
  have hb₁ : s₁.Balanced env ([selector, c] ++ held) [] :=
    (hb₁.hold hc.weightless).perm (.swap selector c _)
  refine (invokeTemp_refuses _ _ hb₁ ⟨selector, by simp, ?_⟩).bind
  rw [g₁.vars.isAddress_eq (h.usable_hand (by simp)).1, ha]

/-- **Jumps by a table** keep the books, but for what is behind the selector of a table without
entries. -/
lemma jumpTable_meets (hi : i.opcode.decides = 1) (hsite : Site env i s)
    (h : s.Balanced env (s.stack ++ held) []) :
    Meets (Advances env (carriedAt i s)) Harmless (jumpTable.build i) env s
      (Settled env (lostSelector i s ++ held) s) := by
  simp only [jumpTable]
  split
  swap
  · exact meets_breach (harmless_invariant rfl)
  rename_i targets hoperand
  have htargets : i.targets = targets := by simp [Bytecode.Instruction.targets, hoperand]
  refine (popStack_meets [] h (harmless_invariant rfl)).bind fun top s₁ g₁ h₁ => ?_
  obtain ⟨hb₁, hs₁, hrest⟩ := h₁
  have hvars : s₁.draft.vars = s.draft.vars := by rw [hrest]
  refine (convert_behind .int32 hb₁).works.bind fun selector s₂ g₂ h₂ => ?_
  obtain ⟨w₂, hb₂, hbehind⟩ := h₂
  rw [List.nil_append, ← w₂.stack_eq] at hb₂
  rw [hvars] at hbehind
  have hsite₂ := hsite.later (g₁.trans g₂).toProceeds
  have hcarried : s₂.stack = carriedAt i s := by simp [carriedAt, hi, hs₁, w₂.stack_eq]
  rw [meets_constant?_bind]
  split
  · rename_i k hk
    obtain ⟨x, hx, -⟩ := Option.bind_eq_some_iff.1 hk
    have hnone : lostSelector i s = [] := by
      refine lostSelector_of_value hs₁ (hbehind.symm.trans (Variables.behind_of_value ?_))
      exact isAddress_of_constant? hx
    rw [hnone]
    have hb₃ := hb₂.letGo (weightless_of_constant? (hb₂.usable_hand (by simp)).1 hx)
    split
    · rename_i target htarget
      obtain ⟨n, -, hn⟩ := Option.bind_eq_some_iff.1 htarget
      have hmem : target ∈ i.targets := htargets ▸ List.mem_of_getElem? hn
      exact (jumpTo_meets target hcarried hb₃ (hsite₂.faces hmem)).claim
    · exact meets_pure hb₃
  · refine meets_ite (fun hempty => ?_) fun hne => ?_
    · have hlost : lostSelector i s = s₂.draft.vars.behind selector := by
        rw [hbehind, lostSelector, htargets, List.isEmpty_iff.1 hempty, hs₁]
      rw [hlost]
      refine ((useSelector_meets hb₂).silently.mono fun _ s₃ _ h₃ => ?_).claim
      rw [h₃.1.stack_eq]
      exact h₃.2
    · have hnone : lostSelector i s = [] := by
        obtain ⟨t, rest, rfl⟩ := List.exists_cons_of_ne_nil (by simpa using hne : targets ≠ [])
        rw [lostSelector, htargets]
      rw [hnone]
      refine (allocate_works (targets.length - 1) hb₂).works.bind fun _ s₃ g₃ h₃ => ?_
      obtain ⟨w₃, ⟨ha, hb₃⟩ | hb₃⟩ := h₃
      · -- an address is refused by the first test
        exact ((testCases_refuses hb₃ ha (by simpa using hne)).bind).works.mono
          fun _ _ _ hs => hs.2.elim
      · have hlen : targets.zipIdx.length = (targets.length - 1) + 1 := by
          have := List.length_pos_of_ne_nil (by simpa using hne : targets ≠ [])
          simp only [List.length_zipIdx]
          omega
        refine ((testCases_meets targets.zipIdx (hsite₂.later g₃.toProceeds)
          (w₃.stack_eq.trans hcarried) (hb₃.perm ?_) fun c hc => ?_).mono fun _ _ _ hs => hs.1).claim
        · rw [hlen, w₃.stack_eq, List.replicate_succ', List.append_assoc]
          rfl
        · rw [htargets]
          exact List.fst_mem_of_mem_zipIdx hc

/-! ## Returns -/

lemma returning_clean : returning.Clean := by
  intro env i s held _ h
  simp only [returning, meets_read_bind]
  have finish {s₁ : Frame} (hb : s₁.Balanced env (s₁.stack ++ held) []) :
      Meets (Advances env (carriedAt i s)) Harmless (do
        let depth := (← get).stack.length
        if depth ≠ 0 then breach (.leftAtReturn depth)
        if (← peek?).isSome then jump env.returnLabel
        return true) env s₁ (Settled env held s) := by
    rw [meets_get_bind]
    refine meets_ite (fun _ => meets_breach (harmless_invariant rfl)) fun _ => ?_
    rw [meets_peek?_bind]
    refine meets_ite (fun _ => ?_) fun _ => meets_pure hb
    refine ((jumpReturn_meets hb).mono fun _ s₂ _ h₂ => ?_).claim
    have hstack : s₂.stack = s₁.stack := by rw [h₂.2]
    exact hstack ▸ h₂.1
  split
  · rename_i result hresult
    refine popOne_meets h fun v s₁ _ hb₁ => ?_
    rw [meets_typeOf_bind]
    refine convertOne_meets _ hb₁ fun v s₂ _ hb₂ => ?_
    have hslot := hb₂.slots result (.inr (.inr hresult))
    refine ((copySlot_works hb₂ hslot).imp (fun _ g => Follows.rearranges g.toRearranges
      fun v e => e ▸ hslot) (fun _ => id) fun _ s₃ g hs => ?_).bind fun _ s₃ _ hb₃ => finish hb₃
    rw [g.stack_eq]
    exact hs.1
  · exact finish h

lemma throwing_clean : throwing.Clean := fun _ _ _ _ _ _ => meets_refuse (harmless_unsupported _)

end Rules

end FlatHeap
