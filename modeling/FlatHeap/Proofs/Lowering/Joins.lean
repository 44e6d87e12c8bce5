import FlatHeap.Proofs.Lowering.Landing

/-!
# Joins

A trail tells what has been recorded for a method.  This module follows the merge slots of an offset
along it.  The first departure that carries values installs them, and they wait there until arrival:
no stretch but an edge into the same offset writes them, and the pool does not hand them out
(`Frame.Trail.spares`, `Frame.Trail.rested`).  Arrival takes up the slots that wait, so every edge
into the offset has filled the entries of the operand stack that the code behind the label finds.

When control has arrived, no edge into the offset carries values any more, and so all edges that do
carry values fill the same slots (`Frame.Trail.agree`).
-/

namespace FlatHeap

namespace Stretch

/-- The edge into an offset that a stretch is: the offset, and the entries with their slots. -/
def edge? : Stretch → Option (Nat × List VarRef × List VarRef)
  | aside _ => none
  | departure target entries slots _ _ => some (target, entries, slots)
  | arrival target entries slots _ _ _ => some (target, entries, slots)

def ArrivesAt (offset : Nat) : Stretch → Prop
  | arrival target .. => target = offset
  | _ => False

/-- The stretch ends in a jump or a test that leads to an offset. -/
def Departs : Stretch → Prop
  | departure .. => True
  | _ => False

/-- Where the first stretch arrives, the second one does not, nor does it carry values there. -/
def Settles (x y : Stretch) : Prop :=
  ∀ target, x.ArrivesAt target → ¬ y.ArrivesAt target ∧
    ∀ entries slots, y.edge? = some (target, entries, slots) → entries = []

/-- The stretches fill the same slots if both of them carry values to one offset. -/
def Agree (x y : Stretch) : Prop :=
  ∀ target entries slots entries' slots', x.edge? = some (target, entries, slots) →
    y.edge? = some (target, entries', slots') → entries ≠ [] → entries' ≠ [] → slots = slots'

lemma agree_self (x : Stretch) : x.Agree x := by
  intro target entries slots entries' slots' h h' _ _
  rw [h] at h'
  cases h'
  rfl

instance : Std.Symm Agree where
  symm _ _ h _ _ _ _ _ hx hy hne hne' := (h _ _ _ _ _ hy hx hne' hne).symm

end Stretch

namespace Frame

open Lower

variable {env : MethodEnv} {x : Stretch} {trail trail' : List Stretch} {s s' s'' : Frame}
  {target offset : Nat} {entries slots stack : List VarRef} {v : VarRef} {l : Label} {q : Piece}
  {carry : List Piece}

/-! ## One stretch -/

lemma TakesUp.continues (h : TakesUp target stack s s') : s.draft.Continues env s'.draft [] := by
  refine ⟨h.vars, ?_, by simp⟩
  rw [h.rest]
  simp

lemma Links.continues (h : Links env x s s') : s.draft.Continues env s'.draft x.code := by
  cases h with
  | aside h => exact h.continues
  | departure _ hands _ _ _ _ leaves => exact hands.continues.trans leaves.code
  | arrival _ hands _ _ placed takes =>
    have := (hands.continues.trans placed.code).trans takes.continues
    rwa [List.append_nil] at this

lemma Links.vars (h : Links env x s s') : s.draft.vars.Grows s'.draft.vars := h.continues.vars

lemma Links.labels (h : Links env x s s') :
    s.draft.labelCount ≤ s'.draft.labelCount ∧ (∀ e ∈ s.labels, e ∈ s'.labels) ∧
      ∀ e ∈ s'.labels, e ∈ s.labels ∨ s.Between s' e.2 := by
  have handed {target : Nat} {needs entries slots : List VarRef} {carry : List Piece} {s₁ : Frame}
      (hands : HandsOver env target needs entries slots carry s s₁)
      (hc : s'.draft.labelCount = s₁.draft.labelCount) (hl : s'.labels = s₁.labels) :
      s.draft.labelCount ≤ s'.draft.labelCount ∧ (∀ e ∈ s.labels, e ∈ s'.labels) ∧
        ∀ e ∈ s'.labels, e ∈ s.labels ∨ s.Between s' e.2 := by
    obtain ⟨n, hlow, hhigh, hlabels, -⟩ := hands.labels
    refine ⟨hc ▸ hlow.trans hhigh, hl ▸ hands.keepLabels, fun e he => ?_⟩
    exact (hlabels e (hl ▸ he)).imp_right fun h => ⟨h.2.1, hc ▸ h.2.2.trans_le hhigh⟩
  cases h with
  | aside h => exact ⟨h.labelCount_le, fun e he => h.labels_eq ▸ he, fun e he => .inl (h.labels_eq ▸ he)⟩
  | departure _ hands _ _ _ _ leaves => exact handed hands (by rw [leaves.rest]) (by rw [leaves.rest])
  | arrival _ hands _ _ placed takes =>
    exact handed hands (by rw [takes.rest, placed.rest]) (by rw [takes.rest, placed.rest])

lemma Links.cursor_le (h : Links env x s s') : s.cursor ≤ s'.cursor := by
  cases h with
  | aside h => exact h.cursor_le
  | departure _ hands _ _ _ _ leaves => rw [leaves.rest, hands.cursor_eq]
  | arrival _ hands _ _ placed takes => rw [takes.rest, placed.rest, hands.cursor_eq]

/-! ## Merge slots along a stretch -/

lemma HandsOver.lookup_eq {needs : List VarRef} {waits : List VarRef}
    (h : HandsOver env target needs entries slots carry s s')
    (hl : s.merges.lookup offset = some waits) : s'.merges.lookup offset = some waits := by
  rcases h.merges with hm | ⟨hnone, hm⟩
  · rw [hm, hl]
  · have hne : (offset == target) = false := by
      rw [beq_eq_false_iff_ne]
      rintro rfl
      rw [hnone] at hl
      cases hl
    rw [hm, List.lookup_cons, hne]
    exact hl

lemma lookup_filter_ne {l : List (Nat × List VarRef)} (h : offset ≠ target) :
    (l.filter (·.1 != target)).lookup offset = l.lookup offset := by
  induction l with
  | nil => rfl
  | cons e l ih =>
    obtain ⟨k, x⟩ := e
    by_cases hk : k = target
    · have hb : (offset == k) = false := by simpa [hk] using h
      rw [List.filter_cons_of_neg (by simpa using hk), ih, List.lookup_cons, hb]
    · rw [List.filter_cons_of_pos (by simpa using hk), List.lookup_cons, List.lookup_cons, ih]

lemma Links.waits (h : Links env x s s') (hl : s.merges.lookup offset = some slots)
    (hx : ¬ x.ArrivesAt offset) : s'.merges.lookup offset = some slots := by
  cases h with
  | aside h => rw [h.merges_eq, hl]
  | departure _ hands _ _ _ _ leaves =>
    rw [leaves.rest]
    exact hands.lookup_eq hl
  | @arrival target _ _ _ _ _ _ s₁ s₂ _ _ hands _ _ placed takes =>
    have hne : offset ≠ target := Ne.symm hx
    rw [takes.rest]
    show (s₂.merges.filter (·.1 != target)).lookup offset = _
    rw [lookup_filter_ne hne, placed.rest]
    exact hands.lookup_eq hl

lemma Links.edge (h : Links env x s s') (he : x.edge? = some (target, entries, slots)) :
    ∃ needs carry s₁, HandsOver env target needs entries slots carry s s₁ := by
  cases h with
  | aside => cases he
  | departure _ hands =>
    cases he
    exact ⟨_, _, _, hands⟩
  | arrival _ hands =>
    cases he
    exact ⟨_, _, _, hands⟩

lemma Links.edge_length (h : Links env x s s') (he : x.edge? = some (target, entries, slots)) :
    slots.length = entries.length := by
  obtain ⟨_, _, _, hands⟩ := h.edge he
  exact hands.length_eq

lemma Links.edge_fills {waits : List VarRef} (h : Links env x s s')
    (he : x.edge? = some (target, entries, slots)) (hne : entries ≠ [])
    (hw : s.merges.lookup target = some waits) : waits = slots := by
  obtain ⟨_, _, _, hands⟩ := h.edge he
  exact Option.some.inj ((hands.lookup_eq hw).symm.trans (hands.waits hne))

lemma Moving.eq_nil (h : Moving env [] carry s s') : carry = [] := by
  cases h
  rfl

lemma mem_zip_reverse {α β : Type} {l : List α} {l' : List β} (h : l'.length = l.length)
    {p : α × β} : p ∈ l.reverse.zip l'.reverse ↔ p ∈ l.zip l' := by
  rw [List.zip_eq_zipWith, ← List.reverse_zipWith h.symm, List.mem_reverse, List.zip_eq_zipWith]

lemma Moving.fills {pairs : List (VarRef × VarRef)} {code : List Piece}
    (h : Moving env pairs code s s') (hq : q ∈ code) (hv : v ∈ s.waiting) (hw : v ∈ q.writes) :
    ∃ out entry, q = .copy out v ∧ (entry, v) ∈ pairs := by
  induction h with
  | done => cases hq
  | self _ ih =>
    obtain ⟨out, entry, e, hmem⟩ := ih hq hv
    exact ⟨out, entry, e, List.mem_cons_of_mem _ hmem⟩
  | @move _ slot out _ _ _ s s₁ _ s₃ _ _ _ further _ _ spared _ merges _ _ ih =>
    have hwait : s₁.waiting = s.waiting := by rw [waiting, further.rest]; rfl
    rcases List.mem_append.1 hq with hq | hq
    · exact absurd hw (spared q hq v (hwait ▸ hv))
    rcases List.mem_cons.1 hq with rfl | hq
    · obtain rfl : v = slot := List.mem_singleton.1 hw
      exact ⟨out, _, rfl, List.mem_cons_self⟩
    · have hv₃ : v ∈ s₃.waiting := by rwa [waiting, merges, ← waiting, hwait]
      obtain ⟨out, entry, e, hmem⟩ := ih hq hv₃
      exact ⟨out, entry, e, List.mem_cons_of_mem _ hmem⟩

/-- The piece copies an entry into its slot, on an edge into an offset. -/
def Fills (x : Stretch) (offset : Nat) (slots : List VarRef) (q : Piece) (v : VarRef) : Prop :=
  ∃ out entry entries, q = .copy out v ∧ x.edge? = some (offset, entries, slots) ∧
    (entry, v) ∈ entries.zip slots

/-- **Waiting slots are spared** by all but the copies of edges into the same offset. -/
lemma Links.spares (h : Links env x s s') (hl : s.merges.lookup offset = some slots) (hv : v ∈ slots)
    (ht : s.draft.vars.IsTemp v) (hq : q ∈ x.code) (hw : v ∈ q.writes) : Fills x offset slots q v := by
  have hmem := mem_of_lookup hl
  have handed {target : Nat} {needs entries slots' : List VarRef} {carry : List Piece} {s₁ : Frame}
      (hx : x.edge? = some (target, entries, slots'))
      (hands : HandsOver env target needs entries slots' carry s s₁) (hq : q ∈ carry) :
      Fills x offset slots q v := by
    obtain rfl := hands.writes q hq v hw ht _ hmem hv
    obtain ⟨s₂, s₃, -, hmoving, -, -, hwaits⟩ := hands.moving
    have hne : entries ≠ [] := by
      rintro rfl
      rw [Moving.eq_nil hmoving] at hq
      cases hq
    obtain rfl : slots' = slots :=
      Option.some.inj ((hands.waits hne).symm.trans (hands.lookup_eq hl))
    obtain ⟨out, entry, e, hpair⟩ := hmoving.fills hq (mem_waiting (hwaits hne) hv) hw
    exact ⟨out, entry, entries, e, hx, (mem_zip_reverse hands.length_eq).1 hpair⟩
  cases h with
  | aside h => exact absurd (List.mem_flatMap.2 ⟨_, hmem, hv⟩) (h.writes q hq v hw ht)
  | departure _ hands _ goal =>
    rcases List.mem_append.1 hq with hq | hq
    · exact handed rfl hands hq
    · rw [List.mem_singleton.1 hq] at hw
      rcases goal with rfl | ⟨c, rfl⟩ <;> cases hw
  | arrival _ hands =>
    rcases List.mem_append.1 hq with hq | hq
    · exact handed rfl hands hq
    · rw [List.mem_singleton.1 hq] at hw
      cases hw

/-- **Waiting slots are not handed out.** -/
lemma Links.rested (h : Links env x s s') (hl : s.merges.lookup offset = some slots)
    (hx : ¬ x.ArrivesAt offset) : Rested slots s s' := by
  cases h with
  | aside h => exact h.untouched.rested hl
  | departure _ hands _ _ _ _ leaves =>
    exact (hands.untouched.rested hl).trans (leaves.untouched.rested (hands.lookup_eq hl))
      hands.continues.vars
  | @arrival target _ _ _ _ _ _ s₁ s₂ _ _ hands _ _ placed takes =>
    have hne : offset ≠ target := Ne.symm hx
    have hl₂ : s₂.merges.lookup offset = some slots := by
      rw [placed.rest]
      exact hands.lookup_eq hl
    have hl₃ : (s₂.withoutMerge target).merges.lookup offset = some slots :=
      (lookup_filter_ne hne).trans hl₂
    exact ((hands.untouched.rested hl).trans (placed.untouched.rested (hands.lookup_eq hl))
      hands.continues.vars).trans (takes.untouched.rested hl₃)
        (hands.continues.vars.trans placed.vars)

lemma Links.takes {waits : List VarRef}
    (h : Links env (.arrival target entries slots carry l stack) s s')
    (hl : s.merges.lookup target = some waits ∨ entries ≠ [] ∧ waits = slots) :
    stack = waits ∧ s'.stack = waits := by
  cases h with
  | @arrival _ _ _ _ _ _ _ s₁ s₂ _ _ hands _ _ placed takes =>
    have hl₂ : s₂.merges.lookup target = some waits := by
      rw [placed.rest]
      rcases hl with hl | ⟨hne, rfl⟩
      · exact hands.lookup_eq hl
      · exact hands.waits hne
    have hstack : stack = waits := by
      rcases takes.taken with htaken | ⟨hnone, -⟩
      · exact Option.some.inj (htaken.symm.trans hl₂)
      · rw [hnone] at hl₂
        cases hl₂
    refine ⟨hstack, ?_⟩
    rw [takes.rest]
    exact hstack

/-! ## Along a trail -/

lemma trail_append_iff :
    Trail env (trail ++ trail') s s'' ↔ ∃ s', Trail env trail s s' ∧ Trail env trail' s' s'' := by
  refine ⟨fun h => ?_, fun ⟨_, h, h'⟩ => h.append h'⟩
  induction trail generalizing s with
  | nil => exact ⟨s, .nil, h⟩
  | cons x trail ih =>
    cases h with
    | cons link rest =>
      obtain ⟨s', h, h'⟩ := ih rest
      exact ⟨s', .cons link h, h'⟩

lemma trail_cons_iff :
    Trail env (x :: trail) s s'' ↔ ∃ s', Links env x s s' ∧ Trail env trail s' s'' := by
  refine ⟨fun h => ?_, fun ⟨_, link, rest⟩ => .cons link rest⟩
  cases h with
  | cons link rest => exact ⟨_, link, rest⟩

lemma Trail.continues (h : Trail env trail s s') :
    s.draft.Continues env s'.draft (trail.flatMap Stretch.code) := by
  induction h with
  | nil => exact .refl env _
  | cons link _ ih => exact link.continues.trans ih

lemma Trail.vars (h : Trail env trail s s') : s.draft.vars.Grows s'.draft.vars := h.continues.vars

lemma Trail.labels (h : Trail env trail s s') :
    s.draft.labelCount ≤ s'.draft.labelCount ∧ (∀ e ∈ s.labels, e ∈ s'.labels) ∧
      ∀ e ∈ s'.labels, e ∈ s.labels ∨ s.Between s' e.2 := by
  induction h with
  | nil => exact ⟨le_rfl, fun _ => id, fun _ => .inl⟩
  | cons link _ ih =>
    obtain ⟨hle, hkeep, hnew⟩ := link.labels
    obtain ⟨hle', hkeep', hnew'⟩ := ih
    refine ⟨hle.trans hle', fun e he => hkeep' e (hkeep e he), fun e he => ?_⟩
    rcases hnew' e he with he | hb
    · exact (hnew e he).imp_right fun hb => ⟨hb.1, hb.2.trans_le hle'⟩
    · exact .inr ⟨hle.trans hb.1, hb.2⟩

lemma Trail.cursor_le (h : Trail env trail s s') : s.cursor ≤ s'.cursor := by
  induction h with
  | nil => exact le_rfl
  | cons link _ ih => exact link.cursor_le.trans ih

lemma Trail.waits (h : Trail env trail s s') (hl : s.merges.lookup offset = some slots)
    (hno : ∀ x ∈ trail, ¬ x.ArrivesAt offset) : s'.merges.lookup offset = some slots := by
  induction h with
  | nil => exact hl
  | cons link _ ih =>
    obtain ⟨hx, hno⟩ := List.forall_mem_cons.1 hno
    exact ih (link.waits hl hx) hno

/-- **Waiting slots are spared** along a trail. -/
lemma Trail.spares (h : Trail env trail s s') (hl : s.merges.lookup offset = some slots)
    (hno : ∀ x ∈ trail, ¬ x.ArrivesAt offset) (hv : v ∈ slots) (ht : s.draft.vars.IsTemp v)
    (hx : x ∈ trail) (hq : q ∈ x.code) (hw : v ∈ q.writes) : Fills x offset slots q v := by
  induction h with
  | nil => cases hx
  | cons link _ ih =>
    obtain ⟨hfirst, hno⟩ := List.forall_mem_cons.1 hno
    rcases List.mem_cons.1 hx with rfl | hx
    · exact link.spares hl hv ht hq hw
    · exact ih (link.waits hl hfirst) hno (link.vars.isTemp ht) hx

/-- **Waiting slots are not handed out** along a trail. -/
lemma Trail.rested (h : Trail env trail s s') (hl : s.merges.lookup offset = some slots)
    (hno : ∀ x ∈ trail, ¬ x.ArrivesAt offset) : Rested slots s s' := by
  induction h with
  | nil => exact .refl slots _
  | cons link _ ih =>
    obtain ⟨hx, hno⟩ := List.forall_mem_cons.1 hno
    exact (link.rested hl hx).trans (ih (link.waits hl hx) hno) link.vars

lemma Trail.arrives (h : Trail env trail s s') (hl : s.merges.lookup offset = some slots)
    (hnone : s'.merges.lookup offset = none) :
    ∃ between x after, trail = between ++ x :: after ∧
      (∀ y ∈ between, ¬ y.ArrivesAt offset) ∧ x.ArrivesAt offset := by
  induction h with
  | nil =>
    rw [hl] at hnone
    cases hnone
  | @cons x trail _ _ _ link _ ih =>
    by_cases hx : x.ArrivesAt offset
    · exact ⟨[], x, trail, rfl, by simp, hx⟩
    · obtain ⟨between, y, after, rfl, hno, hy⟩ := ih (link.waits hl hx) hnone
      exact ⟨x :: between, y, after, rfl, List.forall_mem_cons.2 ⟨hx, hno⟩, hy⟩

/-! ## Jumps to offsets -/

lemma Links.jump (h : Links env x s s') (hmade : ∀ e ∈ s.labels, e.2.index < s.draft.labelCount)
    (hq : q ∈ x.code) (hl : l ∈ q.targets)
    (hoff : (offset, l) ∈ s'.labels ∨ s'.draft.labelCount ≤ l.index) :
    l = env.returnLabel ∨ ∃ target entries slots carry,
      x = .departure target entries slots carry q ∧ (target, l) ∈ s'.labels := by
  have handed {target : Nat} {needs entries slots : List VarRef} {carry : List Piece} {s₁ : Frame}
      (hands : HandsOver env target needs entries slots carry s s₁) (hq : q ∈ carry)
      (hc : s'.draft.labelCount = s₁.draft.labelCount) (hs : s'.labels = s₁.labels) : False := by
    obtain ⟨n, hlow, hhigh, hlabels, htargets⟩ := hands.labels
    obtain ⟨hn, hlt⟩ := htargets q hq l hl
    rcases hoff with hoff | hoff
    · rcases hlabels _ (hs ▸ hoff) with hoff | ⟨-, -, hlt'⟩
      · exact absurd (hmade _ hoff) (Nat.not_lt.2 (hlow.trans hn))
      · exact absurd hlt' (Nat.not_lt.2 hn)
    · exact absurd hlt (Nat.not_lt.2 (hc ▸ hoff))
  cases h with
  | aside h =>
    refine .inl ((h.targets q hq l hl).resolve_left fun hb => ?_)
    rcases hoff with hoff | hoff
    · rw [h.labels_eq] at hoff
      exact absurd (hmade _ hoff) (Nat.not_lt.2 hb.1)
    · exact absurd hb.2 (Nat.not_lt.2 hoff)
  | @departure target entries slots carry exit l' _ s₁ _ _ hands label goal _ _ leaves =>
    rcases List.mem_append.1 hq with hq | hq
    · exact (handed hands hq (by rw [leaves.rest]) (by rw [leaves.rest])).elim
    · obtain rfl := List.mem_singleton.1 hq
      have hl : l = l' := by rcases goal with rfl | ⟨c, rfl⟩ <;> simpa [Piece.targets] using hl
      refine .inr ⟨target, entries, slots, carry, rfl, ?_⟩
      rw [leaves.rest, hl]
      exact label
  | arrival _ hands _ _ placed takes =>
    rcases List.mem_append.1 hq with hq | hq
    · exact (handed hands hq (by rw [takes.rest, placed.rest]) (by rw [takes.rest, placed.rest])).elim
    · rw [List.mem_singleton.1 hq] at hl
      simp [Piece.targets] at hl

/-- **Jumps to offsets** are the ends of departures. -/
lemma Trail.jump (h : Trail env trail s s') (hmade : ∀ e ∈ s.labels, e.2.index < s.draft.labelCount)
    (hx : x ∈ trail) (hq : q ∈ x.code) (hl : l ∈ q.targets) (hoff : (offset, l) ∈ s'.labels) :
    l = env.returnLabel ∨ ∃ target entries slots carry,
      x = .departure target entries slots carry q ∧ (target, l) ∈ s'.labels := by
  induction h with
  | nil => cases hx
  | cons link rest ih =>
    obtain ⟨hle, -, hnew⟩ := link.labels
    obtain ⟨-, hkeep, hnew'⟩ := rest.labels
    rcases List.mem_cons.1 hx with rfl | hx
    · refine (link.jump hmade hq hl ((hnew' _ hoff).imp_right fun hb => hb.1)).imp_right ?_
      rintro ⟨target, entries, slots, carry, e, hmem⟩
      exact ⟨target, entries, slots, carry, e, hkeep _ hmem⟩
    · refine ih (fun e he => ?_) hx hoff
      exact (hnew e he).elim (fun he => (hmade e he).trans_le hle) fun hb => hb.2

/-! ## After arrival -/

lemma ahead_of_le {c c' : Nat} (h : env.Ahead c' offset) (hle : c ≤ c') : env.Ahead c offset :=
  ⟨h.1, h.2.imp_right fun ⟨k, i, hk, hi⟩ => ⟨k, i, hle.trans hk, hi⟩⟩

lemma Links.departs_ahead {exit : Piece}
    (h : Links env (.departure target entries slots carry exit) s s') (hne : entries ≠ []) :
    env.Ahead s.cursor target := by
  cases h with
  | departure _ _ _ _ _ ahead => exact ahead hne

lemma Links.arrives_at (h : Links env x s s') (hx : x.ArrivesAt offset) :
    (∃ l, (offset, l) ∈ s'.labels ∧ l ∈ x.code.flatMap Piece.marks) ∧
      (offset ≠ endOfBody → ¬ env.Ahead s.cursor offset) := by
  cases h with
  | aside | departure => exact hx.elim
  | @arrival _ _ _ _ _ l _ _ _ _ _ _ label passed placed takes =>
    obtain rfl : _ = offset := hx
    refine ⟨⟨l, ?_, by simp [Stretch.code, Piece.marks]⟩, passed⟩
    rw [takes.rest, placed.rest]
    exact label

lemma Trail.link (h : Trail env trail s s') (hx : x ∈ trail) :
    ∃ before after a b, trail = before ++ x :: after ∧ Trail env before s a ∧ Links env x a b ∧
      Trail env after b s' := by
  obtain ⟨before, after, rfl⟩ := List.append_of_mem hx
  obtain ⟨a, hbefore, h⟩ := trail_append_iff.1 h
  obtain ⟨b, hlink, hafter⟩ := trail_cons_iff.1 h
  exact ⟨before, after, a, b, rfl, hbefore, hlink, hafter⟩

lemma Trail.edge_length (h : Trail env trail s s') (hx : x ∈ trail)
    (he : x.edge? = some (target, entries, slots)) : slots.length = entries.length := by
  obtain ⟨_, _, _, _, _, _, hlink, _⟩ := h.link hx
  exact hlink.edge_length he

/-- **After arrival no edge carries values**, if no label of an offset is placed twice. -/
lemma Trail.settled (h : Trail env trail s s')
    (hend : trail.Pairwise fun x y => x.ArrivesAt endOfBody → ¬ y.Departs)
    (hoffsets : (s'.labels.map Prod.fst).Nodup) (honce : ∀ e ∈ s'.labels, s'.draft.placed e.2 ≤ 1) :
    trail.Pairwise Stretch.Settles := by
  induction h with
  | nil => exact .nil
  | @cons x trail s a s' link rest ih =>
    obtain ⟨hfirst, hend⟩ := List.pairwise_cons.1 hend
    refine List.pairwise_cons.2 ⟨fun y hy => ?_, ih hend hoffsets honce⟩
    intro target hx
    obtain ⟨⟨l, hl, hmark⟩, hpassed⟩ := link.arrives_at hx
    obtain ⟨before, after, b, c, rfl, hbefore, hlink, hafter⟩ := rest.link hy
    -- otherwise the label of the offset would be placed a second time
    have hno : ¬ y.ArrivesAt target := by
      intro hy'
      obtain ⟨⟨l', hl', hmark'⟩, -⟩ := hlink.arrives_at hy'
      have hmem := rest.labels.2.1 _ hl
      obtain rfl : l' = l := congrArg Prod.snd
        (List.inj_on_of_nodup_map hoffsets (hafter.labels.2.1 _ hl') hmem rfl)
      have hplaced := (link.continues.trans rest.continues).placed_eq l'
      rw [List.flatMap_append, List.count_append, List.flatMap_append, List.flatMap_cons,
        List.flatMap_append, List.flatMap_append, List.count_append, List.count_append] at hplaced
      have := List.count_pos_iff.2 hmark
      have := List.count_pos_iff.2 hmark'
      have : s'.draft.placed l' ≤ 1 := honce _ hmem
      omega
    refine ⟨hno, fun entries slots hedge => ?_⟩
    cases y with
    | aside => cases hedge
    | departure =>
      cases hedge
      by_contra hne
      have hahead := ahead_of_le (hlink.departs_ahead hne) (link.cursor_le.trans hbefore.cursor_le)
      by_cases htarget : target = endOfBody
      · exact hfirst _ hy (htarget ▸ hx) trivial
      · exact hpassed htarget hahead
    | arrival =>
      cases hedge
      exact absurd rfl hno

lemma Links.edge_waits (h : Links env x s s') (he : x.edge? = some (target, entries, slots))
    (hne : entries ≠ []) (hx : ¬ x.ArrivesAt target) : s'.merges.lookup target = some slots := by
  cases h with
  | aside => cases he
  | departure _ hands _ _ _ _ leaves =>
    cases he
    rw [leaves.rest]
    exact hands.waits hne
  | arrival =>
    cases he
    exact absurd rfl hx

lemma Trail.agree_later (h : Trail env trail s s') (hs : trail.Pairwise Stretch.Settles) :
    trail.Pairwise Stretch.Agree := by
  induction h with
  | nil => exact .nil
  | @cons x trail s a s' link rest ih =>
    obtain ⟨hfirst, hs⟩ := List.pairwise_cons.1 hs
    refine List.pairwise_cons.2 ⟨fun y hy => ?_, ih hs⟩
    intro target entries slots entries' slots' hx hy' hne hne'
    have harrives : ¬ x.ArrivesAt target := fun ha => hne' ((hfirst y hy _ ha).2 _ _ hy')
    obtain ⟨before, after, b, c, rfl, hbefore, hlink, -⟩ := rest.link hy
    have hno (z : Stretch) (hz : z ∈ before) : ¬ z.ArrivesAt target := fun ha =>
      hne' (((List.pairwise_append.1 hs).2.2 z hz y List.mem_cons_self _ ha).2 _ _ hy')
    exact hlink.edge_fills hy' hne' (hbefore.waits (link.edge_waits hx hne harrives) hno)

/-- **All edges that carry values fill the same slots.** -/
lemma Trail.agree (h : Trail env trail s s') (hs : trail.Pairwise Stretch.Settles) :
    ∀ x ∈ trail, ∀ y ∈ trail, x.Agree y :=
  (h.agree_later hs).forall_of_forall fun x _ => x.agree_self

/-- **Behind the label** the operand stack is the slots of every edge that carries values. -/
lemma Trail.stack_eq {entries' slots' : List VarRef} (h : Trail env trail s s')
    (hs : trail.Pairwise Stretch.Settles) (hx : x ∈ trail)
    (hedge : x.edge? = some (target, entries, slots)) (hne : entries ≠ [])
    (hy : .arrival target entries' slots' carry l stack ∈ trail) : stack = slots := by
  obtain ⟨before, after, a, b, rfl, hbefore, hlink, -⟩ := h.link hy
  obtain ⟨-, hafter, hcross⟩ := List.pairwise_append.1 hs
  rcases List.mem_append.1 hx with hx | hx
  · -- the slots wait until the arrival
    obtain ⟨first, between, c, d, rfl, -, hx', hbetween⟩ := hbefore.link hx
    have hno (z : Stretch) (hz : z ∈ first ++ x :: between) : ¬ z.ArrivesAt target := fun ha =>
      (hcross z hz _ List.mem_cons_self target ha).1 rfl
    have hwaits := hbetween.waits (hx'.edge_waits hedge hne (hno x hx))
      fun z hz => hno z (by simp [hz])
    exact (hlink.takes (.inl hwaits)).1
  · rcases List.mem_cons.1 hx with rfl | hx
    · cases hedge
      exact (hlink.takes (.inr ⟨hne, rfl⟩)).1
    · exact absurd (((List.pairwise_cons.1 hafter).1 x hx target rfl).2 _ _ hedge) hne

end Frame

end FlatHeap
