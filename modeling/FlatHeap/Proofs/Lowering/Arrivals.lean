import FlatHeap.Proofs.Lowering.Branches

/-!
# Arrival at an offset

Before an instruction is lowered that some branch lands at, the merge slots that wait there are taken
up.  This is the one moment at which an operand stack waits behind the cursor: the cursor has moved
over the instruction, and the slots are still installed.  `Frame.Arriving` says what is then known,
and arrival makes the frame timely again.

Control that runs into the offset from above flows into the same slots first.  If control has ended
before the offset, nothing flows, and then the operand stack should be empty.  It is not asked here
that it is; if it is not, the entries stay in hand, and the operand stack is not empty afterwards
either, which the check at the end of the method notices.
-/

namespace FlatHeap

lemma perm_of_lookup {α β : Type} [BEq α] [LawfulBEq α] {l : List (α × β)} {a : α} {b : β}
    (h : l.lookup a = some b) (hn : (l.map Prod.fst).Nodup) :
    l.Perm ((a, b) :: l.filter (·.1 != a)) := by
  induction l with
  | nil => cases h
  | cons e l ih =>
    obtain ⟨k, x⟩ := e
    have hn := List.nodup_cons.1 hn
    by_cases hk : a = k
    · subst hk
      obtain rfl : x = b := by simpa using h
      have hrest : l.filter (·.1 != a) = l := by
        refine List.filter_eq_self.2 fun e he => ?_
        have hin : e.1 ∈ l.map Prod.fst := List.mem_map_of_mem he
        have hne : e.1 ≠ a := fun he' => hn.1 (he' ▸ hin)
        simpa using hne
      simp [hrest]
    · have hl : l.lookup a = some b := by
        have hb : (a == k) = false := by simpa using hk
        simpa [List.lookup_cons, hb] using h
      have hkeep : ((k, x) :: l).filter (·.1 != a) = (k, x) :: l.filter (·.1 != a) := by
        simp [Ne.symm hk]
      rw [hkeep]
      exact ((ih hl hn.2).cons (k, x)).trans (.swap (a, b) (k, x) _)

namespace Frame

variable {env : MethodEnv} {s s' : Frame} {held slots : List VarRef} {v : VarRef}

structure Ready (s : Frame) (slots : List VarRef) : Prop where
  kinds : ∀ m ∈ slots, s.draft.vars.IsTemp m ∨ m = Draft.self
  apart : ∀ m ∈ slots, s.draft.vars.IsTemp m → m ∉ s.waiting
  once : ∀ m, s.draft.vars.IsTemp m → slots.count m ≤ 1

/-- **Taking up** merge slots: the frame gives them away with their reservations. -/
lemma Balanced.uninstall {offset : Nat} (h : s.Balanced env held [])
    (hl : s.merges.lookup offset = some slots) (hn : (s.merges.map Prod.fst).Nodup) :
    (s.withoutMerge offset).Balanced env (slots ++ held) slots ∧
      Ready (s.withoutMerge offset) slots := by
  set s' := s.withoutMerge offset with hs'
  have hwait : s.waiting.Perm (slots ++ s'.waiting) := by
    have := (perm_of_lookup hl hn).flatMap_right Prod.snd
    rwa [List.flatMap_cons] at this
  have hmem (t : VarRef) : t ∈ s.waiting ↔ t ∈ slots ∨ t ∈ s'.waiting :=
    hwait.mem_iff.trans List.mem_append
  have hkinds (m : VarRef) (hm : m ∈ slots) : s.draft.vars.IsTemp m ∨ m = Draft.self :=
    h.waiting m ((hmem m).2 (.inl hm))
  have hcount (t : VarRef) : s.waiting.count t = slots.count t + s'.waiting.count t := by
    rw [hwait.count_eq, List.count_append]
  have hplain (m : VarRef) (hm : m ∈ slots) : s.draft.vars.Plain m := by
    rcases hkinds m hm with ht | rfl
    · exact Variables.plain_of_temporary ht.2
    · exact h.weightless_self.plain
  have hrefs : (held ++ s.waiting).Perm (slots ++ held ++ s'.waiting) :=
    calc (held ++ s.waiting).Perm (held ++ (slots ++ s'.waiting)) := hwait.append_left held
      _ |>.Perm (slots ++ held ++ s'.waiting) := by
          rw [← List.append_assoc]
          exact List.perm_append_comm.append_right _
  refine ⟨⟨h.tidy, ?_, h.self, h.slots, fun v hv => ?_, fun v hv => ?_, fun t ht htemp => ?_⟩,
    ⟨hkinds, fun m hm htemp hw => ?_, fun m htemp => ?_⟩⟩
  · refine { h.books.perm hrefs with reserved := fun t ht => ?_, resvHas := fun t ht => ?_ }
    · have hres := h.books.reserved t ht
      rw [hmem t] at hres
      exact hres.trans (by simp [or_comm])
    · exact h.books.resvHas t (.inl ((hmem t).2 ht.symm))
  · rcases List.mem_append.1 hv with hv | hv
    · rcases hkinds v hv with ht | rfl
      · exact usable_of_temporary ht
      · exact h.weightless_self.usable
    · exact h.usable v hv
  · exact h.waiting v ((hmem v).2 (.inr hv))
  · obtain ⟨hzero, hone⟩ := h.apart t ((hmem t).2 (.inr ht)) htemp
    have hpos := List.count_pos_iff.2 ht
    have := hcount t
    refine ⟨?_, by omega⟩
    show s.draft.vars.loads (slots ++ held) t = 0
    rw [Variables.loads_append, Variables.loads_of_plain hplain, hzero]
    omega
  · obtain ⟨-, hone⟩ := h.apart m ((hmem m).2 (.inl hm)) htemp
    have hpos := List.count_pos_iff.2 hm
    have hpos' := List.count_pos_iff.2 hw
    have := hcount m
    omega
  · by_cases hm : m ∈ slots
    · obtain ⟨-, hone⟩ := h.apart m ((hmem m).2 (.inl hm)) htemp
      have := hcount m
      omega
    · simp [List.count_eq_zero.2 hm]

end Frame

namespace Lower

open FlatHeap.Frame CompileError

variable {E : CompileError → Prop} {env : MethodEnv} {s s' : Frame} {held : List VarRef}
  {v : VarRef} {l : Label}

lemma release_idle (hk : s.draft.vars.kind v ≠ .temporary) : release v env s = .ok () s :=
  pool_ok (by simp [Scratch.release, Variables.isTemporary_eq_false hk])

lemma releaseAll_meets (slots : List VarRef) (h : s.Balanced env held slots)
    (hr : Ready s slots) :
    Meets Silent E (releaseAll slots) env s fun _ s' => s'.Balanced env held [] := by
  induction slots generalizing s with
  | nil => exact meets_pure h
  | cons m rest ih =>
    rcases hr.kinds m (by simp) with htemp | rfl
    · have hout : m ∉ rest := fun hin => by
        have hle := hr.once m htemp
        have hpos := List.count_pos_iff.2 hin
        simp only [List.count_cons_self] at hle
        omega
      refine (release_meets h (hr.apart m (by simp) htemp) hout).bind fun _ s₁ g h₁ => ?_
      have hw : s₁.waiting = s.waiting := by rw [g.rest]; rfl
      have old {t : VarRef} (ht : s₁.draft.vars.IsTemp t) (hin : t ∈ rest) :
          s.draft.vars.IsTemp t := by
        rcases hr.kinds t (by simp [hin]) with ht' | rfl
        · exact ht'
        · exact absurd ht.2 (h₁.weightless_self.not_temporary)
      refine ih h₁ ⟨fun x hx => ?_, fun x hx ht => ?_, fun x ht => ?_⟩
      · exact (hr.kinds x (by simp [hx])).imp_left g.vars.isTemp
      · rw [hw]
        exact hr.apart x (by simp [hx]) (old ht hx)
      · by_cases hx : x ∈ rest
        · exact (List.count_le_count_cons).trans (hr.once x (old ht hx))
        · simp [List.count_eq_zero.2 hx]
    · -- the program itself was never reserved
      have hidle := h.weightless_self.not_temporary
      rw [releaseAll]
      refine (meets_congr (bind_ok (release_idle hidle))).2 (ih (h.rekeep (fun t ht => ?_) ?_)
        ⟨fun x hx => hr.kinds x (by simp [hx]), fun x hx => hr.apart x (by simp [hx]),
          fun x hx => (List.count_le_count_cons).trans (hr.once x hx)⟩)
      · have hne : t ≠ Draft.self := fun e => hidle (e ▸ ht.2)
        simp [hne]
      · exact fun t ht => h.books.resvHas t (.inr (by simp [ht]))

/-- Taking up the operand stack that waits at an offset. -/
def takeUp (offset : Nat) : Lower Unit := do
  if let some slots := (← get).merges.lookup offset then
    modify fun s => { s with merges := s.merges.filter (·.1 != offset) }
    releaseAll slots.reverse
    modify ({ · with stack := slots })

lemma takeUp_meets (offset : Nat) (h : s.Balanced env held [])
    (hn : (s.merges.map Prod.fst).Nodup) :
    Meets Any E (takeUp offset) env s fun _ s' =>
      Grows env s s' ∧ TakesUp offset s'.stack s s' ∧
        ((s.merges.lookup offset = none ∧ s'.stack = s.stack ∧ s'.Balanced env held []) ∨
          s.merges.lookup offset = some s'.stack ∧ s'.Balanced env (s'.stack ++ held) []) := by
  rw [takeUp, meets_get_bind]
  cases hl : s.merges.lookup offset with
  | none =>
    have hsame : s.withoutMerge offset = s := withoutMerge_eq fun e he heq =>
      absurd heq.symm (by simpa using List.lookup_eq_none_iff.1 hl e he)
    exact meets_pure ⟨.refl env s, ⟨.refl _, hsame.symm, .inr ⟨hl, rfl⟩, untouched_of_stock rfl⟩,
      .inl ⟨rfl, rfl, h⟩⟩
  | some slots =>
    obtain ⟨hb, hready⟩ := h.uninstall hl hn
    have hmem (t : VarRef) : t ∈ slots.reverse ↔ t ∈ slots := List.mem_reverse
    have hrelease := releaseAll_meets (E := E) slots.reverse
      (hb.rekeep (fun t _ => hmem t) fun t ht => hb.books.resvHas t (.inr ((hmem t).1 ht)))
      ⟨fun m hm => hready.kinds m ((hmem m).1 hm), fun m hm => hready.apart m ((hmem m).1 hm),
        fun m hm => by simpa using hready.once m hm⟩
    have hrun {β : Type} (f : Unit → Lower β) :
        ((modify fun s => { s with merges := s.merges.filter (·.1 != offset) }) >>= f) env s =
          f () env (s.withoutMerge offset) := rfl
    cases hr : releaseAll slots.reverse env (s.withoutMerge offset) with
    | error e s₁ =>
      exact meets_of_error ((hrun _).trans (bind_error hr)) (hrelease.error hr)
    | ok u s₁ =>
      obtain ⟨g, hb₁⟩ := hrelease.ok hr
      refine meets_of_ok (a := ()) (t := { s₁ with stack := slots })
        ((hrun _).trans (bind_ok hr)) trivial ⟨?_, ⟨g.vars, ?_, .inl hl,
          g.untouched.congr rfl rfl rfl⟩, .inr ⟨rfl, balanced_restack hb₁ slots⟩⟩
      · have g₀ : Grows env s (s.withoutMerge offset) := .of_draft rfl rfl id
        exact (g₀.trans (Admits.silent g)).trans (Restacks.restack s₁ slots)
      · rw [g.rest]
        rfl

/-- Steps of a rule, and among them the label of an offset is placed. -/
def Lands (env : MethodEnv) (offset : Nat) (s s' : Frame) : Prop :=
  ∃ s₁ label, Grows env s s₁ ∧ (offset, label) ∈ s₁.labels ∧
    Grows env (emitting s₁ (Piece.ops (.mark label))) s'

/-- What arrival at an offset does.  Entries are left over only where control had ended and the
operand stack was not empty all the same. -/
structure Arrived (env : MethodEnv) (held : List VarRef) (offset : Nat) (s s' : Frame) : Prop where
  lands : Lands env offset s s'
  merges : s'.merges = s.merges.filter (·.1 != offset)
  rest : s' = { s with
    draft := s'.draft, scratch := s'.scratch, stack := s'.stack, labels := s'.labels
    merges := s'.merges }
  balanced : ∃ left, s'.Balanced env (s'.stack ++ (left ++ held)) [] ∧
    (left ≠ [] → s.flowEnded = true ∧ s.stack ≠ [] ∧ s'.stack ≠ [])
  links : (offset ≠ endOfBody → ¬ env.Ahead s.cursor offset) →
    ∃ entries slots carry label, Links env (.arrival offset entries slots carry label s'.stack) s s'

lemma arrive_run (offset : Nat) : arrive offset env s = (do
    let label ← labelFor offset
    let s ← get
    if !s.flowEnded && !s.stack.isEmpty then
      flowInto offset false
      mark label
      takeUp offset
    else
      mark label
      takeUp offset) env s := rfl

lemma markTakeUp_meets {label : Label} (offset : Nat) (h : s.Balanced env held [])
    (hn : (s.merges.map Prod.fst).Nodup) :
    Meets Any E (do
      mark label
      takeUp offset) env s fun _ s' =>
        Grows env (emitting s (Piece.ops (.mark label))) s' ∧
          TakesUp offset s'.stack (emitting s (Piece.ops (.mark label))) s' ∧
          ((s.merges.lookup offset = none ∧ s'.stack = s.stack ∧ s'.Balanced env held []) ∨
            s.merges.lookup offset = some s'.stack ∧ s'.Balanced env (s'.stack ++ held) []) := by
  have hmark : Meets Any E (mark label) env s fun _ s' =>
      s' = emitting s (Piece.ops (.mark label)) := meets_of_ok (mark_run label) trivial rfl
  refine hmark.bind fun _ s₁ _ h₁ => ?_
  subst h₁
  exact takeUp_meets offset (balanced_emitting h _) hn

/-- **Arrival** at an offset. -/
lemma arrive_meets {offset : Nat} (ht : env.isTarget offset = true)
    (h : s.Balanced env (s.stack ++ held) []) (hn : (s.merges.map Prod.fst).Nodup)
    (hne : ∀ e ∈ s.merges, e.2 ≠ []) :
    Meets Any Harmless (arrive offset) env s fun _ s' => Arrived env held offset s s' := by
  rw [meets_congr (arrive_run offset)]
  refine (labelFor_meets ht h).keep.bind fun label s₁ _ h₁ => ?_
  obtain ⟨g₁, hb₁, hl₁, hk⟩ := h₁
  have hstack : s₁.stack = s.stack := by rw [hk.rest]
  have hmerges : s₁.merges = s.merges := by rw [hk.rest]
  have hended : s₁.flowEnded = s.flowEnded := by rw [hk.rest]
  have hplaced (s : Frame) :
      Records env [.mark label] s (emitting s (Piece.ops (.mark label))) :=
    records_emitting_single (legal_mark env _ label)
  rw [meets_get_bind]
  split_ifs with hflow
  · -- control runs into the offset from above
    simp only [Bool.and_eq_true, Bool.not_eq_true', List.isEmpty_eq_false_iff] at hflow
    rw [← hstack] at hb₁
    refine (flowInto_meets offset false hb₁ hflow.2).bind fun _ s₂ _ h₂ => ?_
    obtain ⟨hf, hb₂, hnil, slots, carry, hands⟩ := h₂
    have hlookup := hands.waits hflow.2
    have hn₂ : (s₂.merges.map Prod.fst).Nodup := by
      rcases hf.merges with hm | ⟨slots, -, hnone, hm⟩
      · rw [hm, hmerges]
        exact hn
      · rw [hm, hmerges]
        rw [hmerges] at hnone
        refine List.nodup_cons.2 ⟨fun hin => ?_, hn⟩
        obtain ⟨e, he, heq⟩ := List.mem_map.1 hin
        simpa [heq] using List.lookup_eq_none_iff.1 hnone e he
    refine (markTakeUp_meets offset hb₂ hn₂).mono fun _ s₃ _ h₃ => ?_
    obtain ⟨g₃, htakes, ⟨hnone, -⟩ | ⟨-, hb₃⟩⟩ := h₃
    · rw [hnone] at hlookup
      cases hlookup
    · have hm₃ : s₃.merges = s₂.merges.filter (·.1 != offset) := by rw [htakes.rest]; rfl
      have hl₂ := hf.grows.keepLabels _ hl₁
      refine ⟨⟨s₂, label, g₁.toGrows.trans hf.grows, hl₂, g₃⟩, ?_, ?_, ⟨[], ?_, by simp⟩,
        fun hpassed => ⟨s.stack, slots, carry, label, .arrival (.inl rfl) ?_ hl₂ hpassed (hplaced s₂)
          htakes⟩⟩
      · rw [hm₃]
        rcases hf.merges with hm | ⟨slots, -, -, hm⟩ <;> rw [hm, hmerges]
        simp
      · rw [htakes.rest, hf.rest, hk.rest]
        rfl
      · rw [hnil] at hb₃
        exact hb₃
      · rw [hstack] at hands
        exact (hands.needing (by simp)).known hk
  · refine (markTakeUp_meets offset hb₁ (hmerges ▸ hn)).mono fun _ s₃ _ h₃ => ?_
    obtain ⟨g₃, htakes, hcases⟩ := h₃
    rw [hstack, hmerges] at hcases
    rw [hended, hstack] at hflow
    have hm₃ : s₃.merges = s₁.merges.filter (·.1 != offset) := by rw [htakes.rest]; rfl
    refine ⟨⟨s₁, label, g₁.toGrows, hl₁, g₃⟩, by rw [hm₃, hmerges], ?_, ?_,
      fun hpassed => ⟨[], [], [], label, .arrival ?_ ((HandsOver.refl env offset [] s₁).known hk) hl₁
        hpassed (hplaced s₁) htakes⟩⟩
    · rw [htakes.rest, hk.rest]
      rfl
    · rcases hcases with ⟨-, hs₃, hb₃⟩ | ⟨hlookup, hb₃⟩
      · refine ⟨[], ?_, by simp⟩
        rw [hs₃]
        exact hb₃
      · refine ⟨s.stack, hb₃, fun hleft => ⟨?_, hleft, hne _ (mem_of_lookup hlookup)⟩⟩
        simpa [hleft] using hflow
    · by_cases hnil : s.stack = []
      · exact .inl hnil.symm
      · exact .inr ⟨rfl, by simpa [hnil] using hflow⟩

/-- The cursor has just moved over the instruction at an offset. -/
structure Arriving (env : MethodEnv) (offset : Nat) (s : Frame) : Prop where
  timely : (s.withoutMerge offset).Timely env
  distinct : (s.merges.map Prod.fst).Nodup
  nonempty : ∀ e ∈ s.merges, e.2 ≠ []
  targets : ∀ e ∈ s.merges, env.isTarget e.1 = true
  passed : ¬ env.Ahead s.cursor offset

lemma arriving_moveTo {k : Nat} {i : Bytecode.Instruction} (h : s.Timely env)
    (hn : env.nextLive? s.cursor = some k) (hi : env.code[k]? = some i)
    (hpassed : ¬ env.Ahead (k + 1) i.offset) :
    Arriving env i.offset { s with cursor := k + 1, current := some k } :=
  ⟨timely_passing h hn hi, h.distinct, h.nonempty, fun e he => (h.ahead e he).1, hpassed⟩

def arriveAtTarget (env : MethodEnv) (offset : Nat) : Lower Unit :=
  if env.isTarget offset then arrive offset else pure ()

/-- Note that control reaches the instruction at an offset. -/
def reach (env : MethodEnv) (offset : Nat) : Lower Unit := do
  modify ({ · with flowEnded := false })
  if env.options.sourceMap then markSource offset

lemma beginInstruction_run (offset : Nat) : beginInstruction offset env s =
    (if s.flowEnded && !s.stack.isEmpty then breach (.leftAfterTransfer s.stack.length)
    else do
      arriveAtTarget env offset
      reach env offset : Lower Unit) env s := by
  show (if s.flowEnded && !s.stack.isEmpty then _ else _ : Lower Unit) env s = _
  by_cases hleft : (s.flowEnded && !s.stack.isEmpty) = true
  · rw [if_pos hleft, if_pos hleft]
    rfl
  · rw [if_neg hleft, if_neg hleft, arriveAtTarget]
    by_cases htarget : env.isTarget offset = true
    · rw [if_pos htarget, if_pos htarget]
      rfl
    · rw [if_neg htarget, if_neg htarget]
      rfl

/-- Steps of a rule; if some branch lands at the offset, its label is placed. -/
def Passes (env : MethodEnv) (offset : Nat) (s s' : Frame) : Prop :=
  env.isTarget offset = true ∧ Lands env offset s s' ∨
    env.isTarget offset = false ∧ Grows env s s'

lemma Passes.grows {offset : Nat} {s'' : Frame} (h : Passes env offset s s')
    (g : Grows env s' s'') : Passes env offset s s'' := by
  rcases h with ⟨ht, s₁, label, g₁, hl, g₂⟩ | ⟨ht, g₁⟩
  · exact .inl ⟨ht, s₁, label, g₁, hl, g₂.trans g⟩
  · exact .inr ⟨ht, g₁.trans g⟩

lemma arriveAtTarget_meets (offset : Nat) (h : s.Balanced env (s.stack ++ held) [])
    (ha : Arriving env offset s) (hidle : s.flowEnded = true → s.stack = []) :
    Meets (Passes env offset) Harmless (arriveAtTarget env offset) env s fun _ s' =>
      s'.Balanced env (s'.stack ++ held) [] ∧ s'.Timely env ∧ s'.cursor = s.cursor ∧
        s'.current = s.current ∧ ∃ l, Trail env l s s' ∧ ∀ x ∈ l, x.Into offset := by
  unfold arriveAtTarget
  split_ifs with htarget
  · refine ((arrive_meets htarget h ha.distinct ha.nonempty).relate
      fun _ _ _ hs => .inl ⟨htarget, hs.lands⟩).mono fun _ s₁ _ h₁ => ?_
    have hcurrent : s₁.current = s.current := by rw [h₁.rest]
    have hcursor : s₁.cursor = s.cursor := by rw [h₁.rest]
    obtain ⟨left, hb, hl⟩ := h₁.balanced
    obtain ⟨entries, slots, carry, label, hlink⟩ := h₁.links fun _ => ha.passed
    refine ⟨?_, ha.timely.of_eq h₁.merges hcursor hcurrent, hcursor, hcurrent, _, hlink.trail,
      by simp [Stretch.Into]⟩
    have hnil : left = [] := by
      by_contra hne
      obtain ⟨hended, hstack, -⟩ := hl hne
      exact hstack (hidle hended)
    rwa [hnil] at hb
  · have htimely := ha.timely
    rw [withoutMerge_eq] at htimely
    · exact meets_of_ok rfl (.inr ⟨by simpa using htarget, .refl env s⟩)
        ⟨h, htimely, rfl, rfl, [], .nil, by simp⟩
    · rintro e he rfl
      exact htarget (ha.targets e he)

lemma reach_meets (offset : Nat) (h : s.Balanced env (s.stack ++ held) []) (ht : s.Timely env) :
    Meets (Grows env) E (reach env offset) env s fun _ s' =>
      s'.Balanced env (s'.stack ++ held) [] ∧ s'.Timely env ∧ s'.cursor = s.cursor ∧
        s'.current = s.current ∧ ∃ l, Trail env l s s' ∧ ∀ x ∈ l, x.Into offset := by
  set s₁ : Frame := { s with flowEnded := false } with hs₁
  have hmodify : Meets (Grows env) E (modify ({ · with flowEnded := false })) env s
      fun _ s' => s' = s₁ := meets_of_ok rfl (.of_draft rfl rfl id) rfl
  refine hmodify.bind fun _ s' _ h₁ => ?_
  subst h₁
  have hb₁ : s₁.Balanced env (s₁.stack ++ held) [] := h.of_eq rfl rfl rfl
  have haside : Aside env [] s s₁ := aside_of_draft rfl rfl rfl rfl le_rfl
  have hmoved := (Links.aside haside).trail
  split_ifs
  · have hrec : Records env [.source env.number offset] s₁
        (emitting s₁ (Piece.ops (.source env.number offset))) :=
      records_emitting_single ⟨by simp [Piece.vars], rfl⟩
    have hproper : Proper env s₁ (emitting s₁ (Piece.ops (.source env.number offset)))
        (.source env.number offset) :=
      ⟨trivial, by simp [Piece.writes], by simp [Piece.targets], by simp⟩
    have hsource : Aside env [.source env.number offset] s₁ _ :=
      hrec.aside (by simpa using ⟨by simp [Piece.writes], by simp [Piece.targets]⟩)
    exact meets_of_ok (t := emitting s₁ (Piece.ops (.source env.number offset))) rfl
      (hrec.grows (by simp [Piece.marks]) (by simpa using hproper))
      ⟨balanced_emitting hb₁ _, ht.of_eq rfl rfl rfl, rfl, rfl, _,
        hmoved.append (Links.aside hsource).trail, by simp [Stretch.Into]⟩
  · exact meets_pure ⟨hb₁, ht.of_eq rfl rfl rfl, rfl, rfl, _, hmoved, by simp [Stretch.Into]⟩

/-- **What happens before an instruction** makes the frame timely again. -/
lemma beginInstruction_meets (offset : Nat) (h : s.Balanced env (s.stack ++ held) [])
    (ha : Arriving env offset s) :
    Meets Any Harmless (beginInstruction offset) env s fun _ s' =>
      Passes env offset s s' ∧ s'.Balanced env (s'.stack ++ held) [] ∧ s'.Timely env ∧
        s'.cursor = s.cursor ∧ s'.current = s.current ∧
        ∃ l, Trail env l s s' ∧ ∀ x ∈ l, x.Into offset := by
  rw [meets_congr (beginInstruction_run offset)]
  split_ifs with hleft
  · exact meets_breach (harmless_invariant rfl)
  have hidle : s.flowEnded = true → s.stack = [] := by simpa using hleft
  refine (arriveAtTarget_meets offset h ha hidle).keep.bind fun _ s₁ _ h₁ => ?_
  obtain ⟨hp, hb, ht, hcursor, hcurrent, l₁, htrail₁, hinto₁⟩ := h₁
  refine (reach_meets offset hb ht).keep.mono fun _ s₂ _ h₂ => ?_
  obtain ⟨g, hb₂, ht₂, hcursor₂, hcurrent₂, l₂, htrail₂, hinto₂⟩ := h₂
  exact ⟨hp.grows g, hb₂, ht₂, hcursor₂.trans hcursor, hcurrent₂.trans hcurrent, l₁ ++ l₂,
    htrail₁.append htrail₂, fun x hx => (List.mem_append.1 hx).elim (hinto₁ x) (hinto₂ x)⟩

end Lower

end FlatHeap
