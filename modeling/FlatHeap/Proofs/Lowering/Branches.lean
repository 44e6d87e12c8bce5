import FlatHeap.Proofs.Lowering.Carrying

/-!
# Branches, joins and the books

Jumps of a rule go to the code that returns, over a piece of code that the rule records itself
(`skipping_meets`), or to an offset.  A branch to an offset hands the operand stack over first;
hand-over and jump together are a departure.
-/

namespace FlatHeap

/-! ## Labels and jumps -/

namespace Frame

variable {env : MethodEnv} {s s' : Frame} {l : Label}

lemma proper_jump (h : Own env s s' l) : Proper env s s' (.jump l) :=
  ⟨trivial, by simp [Piece.writes], by simpa [Piece.targets] using h, by simp⟩

lemma proper_mark (env : MethodEnv) (s s' : Frame) (l : Label) : Proper env s s' (.mark l) :=
  ⟨trivial, by simp [Piece.writes], by simp [Piece.targets], by simp⟩

lemma proper_test {v : VarRef} (h : Own env s s' l) : Proper env s s' (.test v l) :=
  ⟨trivial, by simp [Piece.writes], by simpa [Piece.targets] using h, by simp⟩

/-- The label of an offset has been made, if there was none. -/
structure Knows (env : MethodEnv) (offset : Nat) (s s' : Frame) : Prop where
  rest : s' = { s with draft := s'.draft, labels := s'.labels }
  vars_eq : s'.draft.vars = s.draft.vars
  code : s.draft.Continues env s'.draft []
  labelCount_le : s.draft.labelCount ≤ s'.draft.labelCount
  labels : ∀ e ∈ s'.labels, e ∈ s.labels ∨ e.1 = offset ∧ s.Between s' e.2
  keepLabels : ∀ e ∈ s.labels, e ∈ s'.labels

lemma Knows.refl (env : MethodEnv) (offset : Nat) (s : Frame) : Knows env offset s s :=
  ⟨rfl, rfl, .refl env _, le_rfl, fun _ => .inl, fun _ => id⟩

lemma HandsOver.refl (env : MethodEnv) (offset : Nat) (needs : List VarRef) (s : Frame) :
    HandsOver env offset needs [] [] [] s s :=
  ⟨.refl env _, ⟨_, le_rfl, le_rfl, fun _ => .inl, by simp⟩, fun _ => id, .inl rfl,
    fun h => absurd rfl h, rfl, by simp, by simp, rfl, .refl s, ⟨s, s, .refl env _, .done, rfl, .refl [] s, fun h => absurd rfl h⟩, by simp, fun _ _ σ _ _ _ _ => ⟨σ, .refl, by simp, .refl⟩⟩

lemma HandsOver.known {offset : Nat} {needs entries slots : List VarRef} {carry : List Piece}
    {s₁ : Frame} (h : HandsOver env offset needs entries slots carry s₁ s')
    (hk : Knows env offset s s₁) : HandsOver env offset needs entries slots carry s s' := by
  have hmerges : s₁.merges = s.merges := by rw [hk.rest]
  have hwaiting : s₁.waiting = s.waiting := by rw [waiting, hmerges]; rfl
  obtain ⟨n, hlow, hhigh, hlabels, htargets⟩ := h.labels
  refine ⟨hk.code.trans h.continues, ⟨n, hk.labelCount_le.trans hlow, hhigh, fun e he => ?_, htargets⟩,
    fun e he => h.keepLabels e (hk.keepLabels e he), hmerges ▸ h.merges, h.waits, h.length_eq,
    hk.vars_eq ▸ h.has, h.kinds, ?_, h.untouched.congr hwaiting.symm ?_ rfl, ?_, ?_, fun hmd K σ y hK ha hconv => ?_⟩
  · rcases hlabels e he with he | ⟨he, hb⟩
    · exact (hk.labels e he).imp_right fun hb => ⟨hb.1, hb.2.1, hb.2.2.trans_le hlow⟩
    · exact .inr ⟨he, hk.labelCount_le.trans hb.1, hb.2⟩
  · rw [h.cursor_eq, hk.rest]
  · rw [stock, stock, hk.vars_eq, hk.rest]
  · obtain ⟨t₁, t₂, ht, hmoving, hrest⟩ := h.moving
    exact ⟨t₁, t₂, hk.code.trans ht, hmoving, hrest⟩
  · have := h.writes
    rwa [hk.vars_eq, hmerges] at this
  · obtain ⟨τ, hl, hrest⟩ := h.delivers hmd K σ y hK ha hconv
    have hstart : Leads env K s s₁ σ σ := ⟨[], hk.code, .nil⟩
    exact ⟨τ, hstart.trans hl, hrest⟩

/-- **Departures**: hand-over and jump. -/
lemma HandsOver.advances {target : Nat} {slots : List VarRef} {carry : List Piece} {s₁ : Frame}
    {exit : Piece} (h : HandsOver env target exit.vars s.stack slots carry s s₁) (hp : Proceeds env s s₁)
    (hl : (target, l) ∈ s₁.labels) (hexit : exit = .jump l ∨ ∃ c, exit = .test c l)
    (hleft : (∃ c, exit = .test c l) → s₁.stack = s.stack)
    (ha : s.stack ≠ [] → env.Ahead s.cursor target) (hrec : Records env [exit] s₁ s') :
    Advances env s.stack s s' := by
  have hown : Own env s₁ s' l := .inr (.inl ⟨target, hl⟩)
  have hproper : Proper env s₁ s' exit := by
    rcases hexit with rfl | ⟨c, rfl⟩
    · exact proper_jump hown
    · exact proper_test hown
  have hmarks : exit.marks = [] := by rcases hexit with rfl | ⟨c, rfl⟩ <;> rfl
  have hgrows : Grows env s₁ s' := hrec.grows (by simpa using hmarks) (by simpa using hproper)
  refine ⟨hp.trans (hgrows.proceeds ?_ ?_ ?_), _,
    (Links.departure rfl h hl hexit hleft ha hrec).trail, by simp [Stretch.Within]⟩ <;> rw [hrec.rest]

end Frame

namespace Lower

open FlatHeap.Frame CompileError

variable {R : Frame → Frame → Prop} {E : CompileError → Prop} {env : MethodEnv} {s s' : Frame}
  {held kept carried : List VarRef} {v : VarRef} {l : Label}

/-- The frame after the label of an offset has been made. -/
def labelling (s : Frame) (offset : Nat) : Frame :=
  { labelled s with labels := (offset, ⟨s.draft.labelCount⟩) :: s.labels }

lemma madeHere_labelled (s : Frame) : MadeHere s (labelled s) ⟨s.draft.labelCount⟩ :=
  ⟨⟨le_rfl, Nat.lt_succ_self _⟩, fun _ h => h⟩

lemma grows_labelling {offset : Nat} (ht : env.isTarget offset = true)
    (hnone : s.labels.lookup offset = none) : Grows env s (labelling s offset) := by
  have hkey (e : Nat × Label) (he : e ∈ s.labels) : e.1 ≠ offset := fun heq =>
    absurd heq.symm (by simpa using List.lookup_eq_none_iff.1 hnone e he)
  refine ⟨⟨.refl _, Nat.le_succ _, fun e he => ?_, fun e he => List.mem_cons_of_mem _ he,
    fun _ _ => id, fun _ => id, fun _ => .inl, List.prefix_rfl, id, fun _ => .inl, rfl, rfl,
    fun _ => id, id⟩,
    fun hs => ?_, [], ⟨.refl _, by simp [labelling, labelled], by simp⟩, by simp⟩
  · rcases List.mem_cons.1 he with rfl | he
    · exact .inr ⟨madeHere_labelled s, ht, hkey⟩
    · exact .inl he
  refine hs.enter rfl (fun _ => rfl) (fun l => ?_)
    (nodup_enter hkey (fun e he => hs.ne_new (.inl ⟨e.1, he⟩)) hs.offsets hs.labels)
    ⟨hs.methods, hs.methodLabels⟩ fun o m l hl hm => ?_
  · simp only [Entered, labelling, labelled, List.mem_cons, Prod.mk.injEq, exists_or,
      exists_eq_left]
    tauto
  · rcases List.mem_cons.1 hl with e | hl
    · exact hs.ne_new (.inr ⟨m, hm⟩) (Prod.mk.inj e).2
    · exact hs.apart o m l hl hm

lemma labelFor_some {offset : Nat} (h : s.labels.lookup offset = some l) :
    labelFor offset env s = .ok l s := by
  rw [labelFor, get_bind, h]
  rfl

lemma labelFor_none {offset : Nat} (h : s.labels.lookup offset = none) :
    labelFor offset env s = .ok ⟨s.draft.labelCount⟩ (labelling s offset) := by
  rw [labelFor, get_bind, h]
  rfl

lemma knows_labelling (env : MethodEnv) (s : Frame) (offset : Nat) :
    Knows env offset s (labelling s offset) := by
  refine ⟨rfl, rfl, ⟨.refl _, by simp [labelling, labelled], by simp⟩, Nat.le_succ _,
    fun e he => ?_, fun e he => List.mem_cons_of_mem _ he⟩
  rcases List.mem_cons.1 he with rfl | he
  · exact .inr ⟨rfl, le_rfl, Nat.lt_succ_self _⟩
  · exact .inl he

/-- **The label of an offset** is in the frame's table. -/
lemma labelFor_meets {offset : Nat} (ht : env.isTarget offset = true)
    (h : s.Balanced env held kept) :
    Meets (Proceeds env) E (labelFor offset) env s fun l s' =>
      s'.Balanced env held kept ∧ (offset, l) ∈ s'.labels ∧ Knows env offset s s' := by
  cases hl : s.labels.lookup offset with
  | some l =>
    exact meets_of_ok (labelFor_some hl) (refl_of (Proceeds env) s)
      ⟨h, mem_of_lookup hl, .refl env offset s⟩
  | none =>
    exact meets_of_ok (labelFor_none hl) ((grows_labelling ht hl).proceeds rfl rfl rfl)
      ⟨h.of_eq rfl rfl rfl, List.mem_cons_self, knows_labelling env s offset⟩

lemma emitting_meets [Follows env R] {m : Lower Unit} {q : Piece}
    (hrun : m env s = .ok () (emitting s q.ops)) (hlegal : q.Legal env s.draft.vars)
    (hm : q.marks = []) (hq : Proper env s (emitting s q.ops) q)
    (hd : Discreet env s (emitting s q.ops) q) (h : s.Balanced env held kept) :
    Meets R E m env s fun _ s' =>
      s'.Balanced env held kept ∧ s' = { s with draft := s'.draft } :=
  meets_of_ok hrun (Follows.records (records_emitting_single hlegal) (by simpa using hm)
    (by simpa using hq) (by simpa using hd)) ⟨balanced_emitting h _, rfl⟩

lemma jumpReturn_meets [Follows env R] (h : s.Balanced env held kept) :
    Meets R E (jump env.returnLabel) env s fun _ s' =>
      s'.Balanced env held kept ∧ s' = { s with draft := s'.draft } :=
  emitting_meets (jump_run _) ⟨by simp [Piece.vars], trivial⟩ rfl (proper_jump (.inr (.inr rfl)))
    ⟨by simp [Piece.writes], by simp [Piece.targets]⟩ h

lemma legal_mark (env : MethodEnv) (vs : Variables) (l : Label) : (Piece.mark l).Legal env vs :=
  ⟨by simp [Piece.vars], trivial⟩

lemma placed_marking (s : Frame) (l l' : Label) :
    (emitting s (Piece.ops (.mark l))).draft.placed l' =
      s.draft.placed l' + if l = l' then 1 else 0 := by
  simp [emitting, Draft.emitAll, Draft.placed, Piece.ops, List.count_cons]

/-- **Code in front of a label** that the code before it may jump to. -/
lemma grows_bracket {s₁ s₂ : Frame} {ps : List Piece} (hrec : Records env ps (labelled s) s₁)
    (hm : ∀ q ∈ ps, q.marks = []) (hp : ∀ q ∈ ps, Proper env s s₁ q) (g : Grows env s₁ s₂) :
    Grows env s (emitting s₂ (Piece.ops (.mark ⟨s.draft.labelCount⟩))) := by
  set skip : Label := ⟨s.draft.labelCount⟩ with hskip
  have hdraft : s₁.draft = { s.draft with
      vars := s₁.draft.vars, ops := s₁.draft.ops, labelCount := s.draft.labelCount + 1 } := by
    rw [hrec.rest]
    rfl
  have hcount : s₁.draft.labelCount = s.draft.labelCount + 1 := by rw [hdraft]
  have hlabels : s₁.labels = s.labels := by rw [hrec.rest]; rfl
  have hmethods : s₁.draft.methodLabels = s.draft.methodLabels := by rw [hdraft]
  have hplaced₁ (l : Label) : s₁.draft.placed l = s.draft.placed l :=
    hrec.code.placed_of_unmarked hm l
  have t₁ : Tables env s s₁ := by
    refine .of_eq hrec.vars (hcount ▸ hdraft) (by omega) hlabels fun hc => ?_
    rw [hrec.rest]
    exact hc
  have t₃ : Tables env s₂ (emitting s₂ (Piece.ops (.mark skip))) :=
    .of_eq (.refl _) rfl le_rfl rfl id
  refine ⟨t₁.trans (g.toTables.trans t₃), fun hs => ?_, ?_⟩
  · have hs₁ : s₁.Labelled := hs.of_tables hlabels hmethods t₁.labelCount fun l hl => by
      rw [hplaced₁]
      exact hs.placed l (t₁.labelCount.trans hl)
    have ha := g.accounts hs₁
    have hsk : skip.index < s₁.draft.labelCount := by rw [hcount]; exact Nat.lt_succ_self _
    have hnot : ¬ s₂.Entered skip := by
      rw [g.toTables.entered_iff hsk, Entered, hlabels, hmethods]
      exact fun h => absurd (hs.made skip h) (lt_irrefl _)
    have hbetween (l : Label) (hne : l ≠ skip) : s.Between s₂ l ↔ s₁.Between s₂ l := by
      have : l.index ≠ s.draft.labelCount := fun e => hne (by rw [hskip, ← e])
      simp only [Between, hcount]
      omega
    refine ⟨ha.labelled.of_tables rfl rfl le_rfl fun l hl => ?_, fun l hb he => ?_, fun l hk => ?_⟩
    · have hne : skip ≠ l := fun e => absurd (hsk.trans_le g.labelCount) (by rw [e]; exact Nat.not_lt.2 hl)
      rw [placed_marking, if_neg hne]
      exact ha.labelled.placed l hl
    · rw [placed_marking]
      by_cases e : l = skip
      · subst e
        rw [if_pos rfl, ha.known _ (.inl fun hb => absurd hsk (Nat.not_lt.2 hb.1)), hplaced₁]
      · rw [if_neg (Ne.symm e), ha.fresh l ((hbetween l e).1 hb) he, hplaced₁]
    · have hne : l ≠ skip := by
        rintro rfl
        exact hk.elim (fun hn => hn ⟨le_rfl, hsk.trans_le g.labelCount⟩) hnot
      rw [placed_marking, if_neg (Ne.symm hne), Nat.add_zero, ha.known l ?_, hplaced₁]
      exact hk.imp_left fun hn hb => hn ((hbetween l hne).2 hb)
  · obtain ⟨qs, hqs, hq⟩ := g.code
    have hfirst : s.draft.Continues env s₁.draft ps := ⟨hrec.vars, hrec.code.ops, hrec.code.legal⟩
    refine ⟨ps ++ (qs ++ [.mark skip]), hfirst.trans (hqs.trans
      (records_emitting_single (legal_mark env _ skip)).code), fun q hmem => ?_⟩
    rcases List.mem_append.1 hmem with hmem | hmem
    · exact (hp q hmem).later (g.toTables.trans t₃)
    rcases List.mem_append.1 hmem with hmem | hmem
    · exact ((hq q hmem).sooner t₁ g.toTables).later t₃
    · rw [List.mem_singleton.1 hmem]
      exact proper_mark env s _ skip

/-- **A piece of code that a test jumps over.** -/
lemma skipping_meets {m : Lower Unit} {Q : Unit → Frame → Prop}
    (h : s.Balanced env (v :: held) kept)
    (hm : ∀ s₁ : Frame, s.draft.vars.Grows s₁.draft.vars →
      s₁ = { s with draft := s₁.draft, scratch := s₁.scratch } → s₁.Balanced env held kept →
      Meets (Advances env carried) Harmless m env s₁ Q)
    (hQ : ∀ s₁ ops, Q () s₁ → Q () (emitting s₁ ops)) :
    Meets (Advances env carried) Harmless (do
      let skip ← newLabel
      jumpIfFalse v skip
      m
      mark skip) env s Q := by
  set skip : Label := ⟨s.draft.labelCount⟩ with hskip
  have htest := jumpIfFalse_meets (E := Harmless) skip (balanced_labelled h)
    fun _ => harmless_invariant rfl
  cases ht : jumpIfFalse v skip env (labelled s) with
  | error e s₁ =>
    exact meets_of_error ((bind_ok newLabel_run).trans (bind_error ht)) (htest.error ht)
  | ok u s₁ =>
    obtain ⟨-, hb, hrec, -⟩ := htest.ok ht
    have hrest : s₁ = { s with draft := s₁.draft, scratch := s₁.scratch } := by
      rw [hrec.rest]
      rfl
    have hm := hm s₁ hrec.vars hrest hb
    cases hr : m env s₁ with
    | error e s₂ =>
      exact meets_of_error ((bind_ok newLabel_run).trans ((bind_ok ht).trans (bind_error hr)))
        (hm.error hr)
    | ok u s₂ =>
      obtain ⟨g, hq⟩ := hm.ok hr
      have hcursor : s₁.cursor = s.cursor := by rw [hrest]
      have hmade : MadeHere s s₁ skip := by
        rw [hrec.rest]
        exact madeHere_labelled s
      refine meets_of_ok ((bind_ok newLabel_run).trans ((bind_ok ht).trans ((bind_ok hr).trans
        (mark_run skip)))) ⟨⟨?_, fun t => ?_, fun o => hcursor ▸ g.ahead o, hcursor ▸ g.cursor_le⟩,
          ?_⟩ (hQ s₂ _ hq)
      · exact grows_bracket hrec (by simp [Piece.marks]) (by simpa using proper_test (.inl hmade))
          g.toGrows
      · have t₁ : s₁.Timely env := t.of_eq (by rw [hrest]) (by rw [hrest]) (by rw [hrest])
        exact (g.timely t₁).of_eq rfl rfl rfl
      · obtain ⟨l, htrail, hwithin⟩ := g.trail
        have htest : Aside env [.test v skip] s s₁ := by
          refine ⟨⟨hrec.vars, hrec.code.ops, hrec.code.legal⟩, hmade.1.1.trans hmade.1.2.le, ?_, ?_,
            hcursor.ge, hrec.untouched.congr rfl rfl rfl, by simp [Piece.writes], ?_⟩
          · rw [hrest]
          · rw [hrest]
          · simpa [Piece.targets] using .inl hmade.1
        have hmark : Aside env [.mark skip] s₂ (emitting s₂ (Piece.ops (.mark skip))) :=
          (records_emitting_single (legal_mark env _ skip)).aside (by
            simpa using ⟨by simp [Piece.writes], by simp [Piece.targets]⟩)
        refine ⟨_, (Links.aside htest).trail.append (htrail.append (Links.aside hmark).trail),
          fun x hx => ?_⟩
        simp only [List.mem_append, List.mem_singleton] at hx
        rcases hx with rfl | hx | rfl
        · trivial
        · exact hwithin x hx
        · trivial

end Lower

/-! ## Branches -/

namespace Frame

def offset (env : MethodEnv) (s : Frame) : Nat :=
  ((s.current.bind (env.code[·]?)).map (·.offset)).getD 0

/-- A branch lands at a known offset, and a branch forward at one that is ahead. -/
structure Faces (env : MethodEnv) (s : Frame) (target : Nat) : Prop where
  lands : env.isTarget (env.landing target) = true
  ahead : s.offset env < env.landing target → env.Ahead s.cursor (env.landing target)

lemma Faces.of_eq {target : Nat} {s s' : Frame} {env : MethodEnv} (h : s.Faces env target)
    (hc : s'.cursor = s.cursor) (hp : s'.current = s.current) : s'.Faces env target := by
  refine ⟨h.lands, ?_⟩
  rw [offset, hp, hc]
  exact h.ahead

end Frame

namespace Lower

open FlatHeap.Frame CompileError

variable {env : MethodEnv} {s s' : Frame} {held kept carried : List VarRef} {v : VarRef} {l : Label}

/-- **Branches** hand the operand stack over. -/
lemma branchTo_meets (target : Nat) (conditional : Bool)
    (h : s.Balanced env (s.stack ++ held) kept) (hf : s.Faces env target) :
    Meets (Proceeds env) Harmless (branchTo target conditional) env s fun l s' =>
      s'.Balanced env (s'.stack ++ held) kept ∧ (s'.stack = if conditional then s.stack else []) ∧
        (env.landing target, l) ∈ s'.labels ∧
        (s.stack ≠ [] → env.Ahead s.cursor (env.landing target)) ∧
        ∃ slots carry, HandsOver env (env.landing target) held s.stack slots carry s s' := by
  rw [branchTo, meets_read_bind]
  refine (labelFor_meets hf.lands h).bind fun l s₁ _ h₁ => ?_
  obtain ⟨hb, hl, hk⟩ := h₁
  have hstack : s₁.stack = s.stack := by rw [hk.rest]
  have hcursor : s₁.cursor = s.cursor := by rw [hk.rest]
  have hoffset : s₁.offset env = s.offset env := by rw [hk.rest]; rfl
  rw [← hstack] at hb
  rw [meets_get_bind]
  by_cases hdepth : s₁.stack.length = 0
  · rw [if_pos hdepth]
    have hnil : s.stack = [] := hstack ▸ List.length_eq_zero_iff.1 hdepth
    refine meets_pure ⟨hb, by simp [hstack, hnil], hl, fun hne => absurd hnil hne, [], [], ?_⟩
    rw [hnil]
    exact (HandsOver.refl env _ held s₁).known hk
  rw [if_neg hdepth]
  show Meets _ _ (if env.landing target ≤ s₁.offset env then _ else _) env s₁ _
  by_cases hback : env.landing target ≤ s₁.offset env
  · rw [if_pos hback]
    exact meets_refuse (harmless_unsupported _)
  rw [if_neg hback]
  have hahead : env.Ahead s.cursor (env.landing target) := hf.ahead (by omega)
  have hne : s₁.stack ≠ [] := fun e => hdepth (by rw [e]; rfl)
  have hflow := (flowInto_meets (env.landing target) conditional hb hne).relate
    fun _ _ _ hs => hs.1.proceeds (hcursor ▸ hahead)
  refine hflow.bind fun _ s₂ _ h₂ => meets_pure ?_
  obtain ⟨-, hb₂, hs₂, slots, carry, hands⟩ := h₂
  rw [hstack] at hs₂ hands
  exact ⟨hb₂, hs₂, hands.keepLabels _ hl, fun _ => hahead, slots, carry, hands.known hk⟩

/-- **A branch and a jump.** -/
lemma branchJump_meets (target : Nat) (conditional : Bool) (hc : s.stack = carried)
    (h : s.Balanced env (s.stack ++ held) kept) (hf : s.Faces env target) :
    Meets (Advances env carried) Harmless (do jump (← branchTo target conditional)) env s fun _ s' =>
      s'.Balanced env (s'.stack ++ held) kept ∧ (s'.stack = if conditional then s.stack else []) ∧
        ∃ l s₁ slots carry, (env.landing target, l) ∈ s₁.labels ∧
          HandsOver env (env.landing target) held s.stack slots carry s s₁ ∧
          Records env [.jump l] s₁ s' := by
  subst hc
  refine Meets.relate (R := Any) (Q := fun _ s' => Advances env s.stack s s' ∧ _) ?_
    (fun _ _ _ hs => hs.1) |>.mono fun _ _ _ hs => hs.2
  refine (branchTo_meets target conditional h hf).keep.bind fun l s₁ _ h₁ => ?_
  obtain ⟨hp, hb, hstack, hl, hahead, slots, carry, hands⟩ := h₁
  have hrec : Records env [.jump l] s₁ (emitting s₁ (Piece.ops (.jump l))) :=
    records_emitting_single ⟨by simp [Piece.vars], trivial⟩
  exact meets_of_ok (jump_run l) trivial ⟨(hands.needing (by simp [Piece.vars])).advances hp hl (.inl rfl)
      (by simp) hahead hrec, balanced_emitting hb _, hstack, l, s₁, slots, carry, hl, hands, hrec⟩

/-- **A branch and a test**, which uses up its condition. -/
lemma branchTest_meets (target : Nat) (hc : s.stack = carried)
    (h : s.Balanced env (v :: (s.stack ++ held)) kept) (hf : s.Faces env target) :
    Meets (Advances env carried) Harmless (do
      let label ← branchTo target true
      jumpIfFalse v label) env s fun _ s' =>
        s'.Balanced env (s'.stack ++ held) kept ∧ s'.stack = s.stack ∧
          ∃ l s₁ slots carry, (env.landing target, l) ∈ s₁.labels ∧ s₁.stack = s.stack ∧
            HandsOver env (env.landing target) (v :: held) s.stack slots carry s s₁ ∧
            Records env [.test v l] s₁ s' := by
  subst hc
  refine Meets.relate (R := Any) (Q := fun _ s' => Advances env s.stack s s' ∧ _) ?_
    (fun _ _ _ hs => hs.1) |>.mono fun _ _ _ hs => hs.2
  refine (branchTo_meets target true (h.perm List.perm_middle.symm) hf).keep.bind fun l s₁ _ h₁ => ?_
  obtain ⟨hp, hb, hstack, hl, hahead, slots, carry, hands⟩ := h₁
  refine (jumpIfFalse_meets l (hb.perm List.perm_middle) fun _ => harmless_invariant rfl).mono
    fun _ s₂ _ h₂ => ?_
  obtain ⟨hb₂, hrec, -⟩ := h₂
  have hstack₂ : s₂.stack = s₁.stack := by rw [hrec.rest]
  exact ⟨(hands.needing (by simp [Piece.vars])).advances hp hl (.inr ⟨v, rfl⟩)
    (fun _ => hstack) hahead hrec,
    hstack₂ ▸ hb₂, hstack₂.trans hstack, l, s₁, slots, carry, hl, hstack, hands, hrec⟩

lemma jumpTo_meets (target : Nat) (hc : s.stack = carried) (h : s.Balanced env (s.stack ++ held) kept)
    (hf : s.Faces env target) :
    Meets (Advances env carried) Harmless (jumpTo target) env s fun _ s' =>
      s'.Balanced env (s'.stack ++ held) kept :=
  (branchJump_meets target false hc h hf).mono fun _ _ _ hs => hs.1

end Lower

end FlatHeap
