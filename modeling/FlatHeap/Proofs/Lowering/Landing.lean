import FlatHeap.Proofs.Lowering.Arrivals

/-!
# Labels of a method

A branch makes the label of the offset it lands at, and arrival at the offset places it.  Which of
the labels have been placed can be told from where the cursor is: those of offsets at which control
can still arrive have not, all others have.  `Frame.Landed` says so for a predicate `A` on offsets,
which loses an offset whenever control arrives there and is empty when the method is done.

A branch back may name an offset for the first time only if control can still arrive there, since
arrival makes the label if no branch has done so.
-/

namespace FlatHeap.Frame

open Lower

variable {env : MethodEnv} {s₀ s s' : Frame} {A B : Nat → Prop} {offset : Nat} {l : Label}

/-- What has become of the labels of a method since its lowering began, where `A` holds of the
offsets at which control can still arrive. -/
structure Landed (env : MethodEnv) (s₀ : Frame) (A : Nat → Prop) (s : Frame) : Prop where
  start : s₀.labels = []
  tables : Tables env s₀ s
  code : ∃ pieces, s₀.draft.Continues env s.draft pieces ∧ ∀ q ∈ pieces, Proper env s₀ s q
  labelled : s.Labelled
  fresh : ∀ l, s₀.Between s l → ¬ s.Entered l → s.draft.placed l = 1
  known : ∀ l, (¬ s₀.Between s l ∨ ∃ m, (m, l) ∈ s.draft.methodLabels) →
    s.draft.placed l = s₀.draft.placed l
  ahead : ∀ e ∈ s.labels, A e.1 → s.draft.placed e.2 = 0
  passed : ∀ e ∈ s.labels, ¬ A e.1 → s.draft.placed e.2 = 1
  targets : ∀ o, env.isTarget o = true → ¬ A o → ∃ l, (o, l) ∈ s.labels

namespace Landed

lemma refl (hl : s.Labelled) (hs : s.labels = []) (hA : ∀ o, env.isTarget o = true → A o) :
    Landed env s A s where
  start := hs
  tables := .refl env s
  code := ⟨[], .refl env s.draft, by simp⟩
  labelled := hl
  fresh l hb := absurd hb.2 (Nat.not_lt.2 hb.1)
  known _ _ := rfl
  ahead := by simp [hs]
  passed := by simp [hs]
  targets o ht hA' := absurd (hA o ht) hA'

lemma congr (h : Landed env s₀ A s) (hAB : ∀ o, A o ↔ B o) : Landed env s₀ B s := by
  obtain rfl : A = B := funext fun o => propext (hAB o)
  exact h

lemma madeHere (h : Landed env s₀ A s) (hl : (offset, l) ∈ s.labels) : MadeHere s₀ s l := by
  rcases h.tables.labels _ hl with hl | ⟨hmade, -⟩
  · simp [h.start] at hl
  · exact hmade

lemma code_trans (h : Landed env s₀ A s) (t : Tables env s s') {ps : List Piece}
    (hc : s.draft.Continues env s'.draft ps) (hp : ∀ q ∈ ps, Proper env s s' q) :
    ∃ pieces, s₀.draft.Continues env s'.draft pieces ∧ ∀ q ∈ pieces, Proper env s₀ s' q := by
  obtain ⟨qs, hqs, hq⟩ := h.code
  refine ⟨qs ++ ps, hqs.trans hc, fun q hmem => ?_⟩
  rcases List.mem_append.1 hmem with hmem | hmem
  · exact (hq q hmem).later t
  · exact (hp q hmem).sooner h.tables t

/-- **Steps of rules** place the labels they make, and none of an offset. -/
lemma grows (h : Landed env s₀ A s) (g : Grows env s s') : Landed env s₀ A s' := by
  have acc := g.accounts h.labelled
  have hbetween (l : Label) : s₀.Between s' l ↔ s₀.Between s l ∨ s.Between s' l :=
    between_trans h.tables.labelCount g.labelCount
  -- A label that had been made before.
  have hold {l : Label} (hl : l.index < s.draft.labelCount) :
      s'.draft.placed l = s.draft.placed l :=
    acc.known l (.inl fun hb => absurd hl (Nat.not_lt.2 hb.1))
  obtain ⟨ps, hc, hp⟩ := g.code
  refine ⟨h.start, h.tables.trans g.toTables, h.code_trans g.toTables hc hp, acc.labelled,
    fun l hb hl => ?_, fun l hl => ?_, fun e he hA => ?_, fun e he hA => ?_, fun o ht hA => ?_⟩
  · rcases (hbetween l).1 hb with hb | hb
    · rw [g.toTables.entered_iff hb.2] at hl
      rw [hold hb.2, h.fresh l hb hl]
    · rw [acc.fresh l hb hl, h.labelled.placed l hb.1]
  · rcases hl with hl | ⟨m, hl⟩
    · rw [hbetween, not_or] at hl
      rw [acc.known l (.inl hl.2), h.known l (.inl hl.1)]
    · rw [acc.known l (.inr (.inr ⟨m, hl⟩))]
      refine h.known l ?_
      rcases g.toTables.methodLabels _ hl with hl | ⟨hb, -⟩
      · exact .inr ⟨m, hl⟩
      · exact .inl fun hb' => absurd hb'.2 (Nat.not_lt.2 hb.1)
  · rw [acc.known e.2 (.inr (.inl ⟨e.1, he⟩))]
    rcases g.toTables.labels e he with he | ⟨hmade, -⟩
    · exact h.ahead e he hA
    · exact h.labelled.placed _ hmade.1.1
  · rcases g.toTables.labels e he with he | ⟨-, ht, hnew⟩
    · rw [hold (h.labelled.made _ (.inl ⟨e.1, he⟩)), h.passed e he hA]
    · obtain ⟨l, hl⟩ := h.targets e.1 ht hA
      exact absurd rfl (hnew (e.1, l) hl)
  · obtain ⟨l, hl⟩ := h.targets o ht hA
    exact ⟨l, g.toTables.keepLabels _ hl⟩

/-- **Placing the label of an offset** at which control can still arrive. -/
lemma mark (h : Landed env s₀ A s) (hl : (offset, l) ∈ s.labels) (hA : A offset) :
    Landed env s₀ (fun o => A o ∧ o ≠ offset) (emitting s (Piece.ops (.mark l))) := by
  have hmade := h.madeHere hl
  have hrecords := records_emitting_single (legal_mark env s.draft.vars l)
  have ht : Tables env s (emitting s (Piece.ops (.mark l))) :=
    .of_eq (.refl _) rfl le_rfl rfl id
  have hother {l' : Label} (hne : l ≠ l') :
      (emitting s (Piece.ops (.mark l))).draft.placed l' = s.draft.placed l' := by
    rw [placed_marking, if_neg hne, Nat.add_zero]
  refine ⟨h.start, h.tables.trans ht, h.code_trans ht hrecords.code ?_, ?_, fun l' hb hl' => ?_,
    fun l' hl' => ?_, fun e he hA' => ?_, fun e he hA' => ?_, fun o ht hA' => ?_⟩
  · simpa using proper_mark env s _ l
  · refine h.labelled.of_tables rfl rfl le_rfl fun l' hl' => ?_
    rw [hother, h.labelled.placed l' hl']
    rintro rfl
    exact absurd hmade.1.2 (Nat.not_lt.2 hl')
  · rw [hother, h.fresh l' hb hl']
    rintro rfl
    exact hl' (.inl ⟨offset, hl⟩)
  · rw [hother, h.known l' hl']
    rintro rfl
    rcases hl' with hl' | ⟨m, hl'⟩
    · exact hl' hmade.1
    · exact h.labelled.apart offset m l hl hl'
  · rw [hother, h.ahead e he hA'.1]
    rintro rfl
    have heq := List.inj_on_of_nodup_map h.labelled.labels he hl rfl
    exact hA'.2 (congrArg Prod.fst heq)
  · by_cases hoff : e.1 = offset
    · have heq := List.inj_on_of_nodup_map h.labelled.offsets he hl hoff
      rw [placed_marking, heq, if_pos rfl, h.ahead _ hl hA]
    · have hA' : ¬ A e.1 := fun hA => hA' ⟨hA, hoff⟩
      rw [hother, h.passed e he hA']
      rintro rfl
      have heq := List.inj_on_of_nodup_map h.labelled.labels he hl rfl
      exact hoff (congrArg Prod.fst heq)
  · by_cases hoff : o = offset
    · exact ⟨l, hoff ▸ hl⟩
    · exact h.targets o ht fun hA => hA' ⟨hA, hoff⟩

/-- **Arrival** at an offset. -/
lemma lands (h : Landed env s₀ A s) (hl : Lands env offset s s') (hA : A offset) :
    Landed env s₀ (fun o => A o ∧ o ≠ offset) s' := by
  obtain ⟨s₁, l, g, hmem, g'⟩ := hl
  exact ((h.grows g).mark hmem hA).grows g'

end Landed

end FlatHeap.Frame
