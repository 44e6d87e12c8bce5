import FlatHeap.Proofs.Host.Sources
import FlatHeap.Proofs.Lowering.Drafts
import FlatHeap.Proofs.Lowering.Passages
import FlatHeap.Proofs.Rules.Bodies

/-!
# Whole methods

When the code of a method has been lowered, control arrives at the end of the body if some branch
lands there, and then nothing may be left over.  By then nothing is ahead any more: every label of an
offset has been placed, no operand stack waits, and the pool has all its temporaries back.

A method is lowered into the draft of its class.  Between methods a draft is `Draft.Sound`: all
temporaries are at rest and labels are accounted for.  Lowering a method keeps it so.
-/

namespace FlatHeap

open Lower FlatHeap.Frame CompileError
open Bytecode (Instruction)

/-! ## The end of a body -/

namespace Frame

variable {env : MethodEnv} {start : Nat} {s₀ s s' : Frame} {lost : List VarRef}

structure Arrives (env : MethodEnv) (s₀ : Frame) (lost : List VarRef) (s s' : Frame) : Prop where
  balanced : ∃ left, s'.Balanced env (s'.stack ++ (left ++ lost)) [] ∧ (left ≠ [] → s'.stack ≠ [])
  landed : Landed env s₀ (fun _ => False) s'
  merges : s'.merges = []
  trail : ∃ trail, Trail env trail s s' ∧ ∀ x ∈ trail, x.Into endOfBody

structure Ended (env : MethodEnv) (s₀ : Frame) (lost : List VarRef) (s : Frame) : Prop where
  balanced : s.Balanced env lost []
  landed : Landed env s₀ (fun _ => False) s
  stack : s.stack = []
  merges : s.merges = []
  settled : s.scratch.outstanding s.draft.vars = []

lemma Resting.merges_end (h : Resting env start s₀ lost s) (hn : env.nextLive? s.cursor = none) :
    ∀ e ∈ s.merges, e.1 = endOfBody :=
  fun e he => MethodEnv.Prepared.ahead_end hn (h.timely.ahead e he)

end Frame

namespace Lower

variable {env : MethodEnv} {rules : Rulebook} {start : Nat} {s₀ s s' : Frame} {lost : List VarRef}

/-- Arrive at the end of the body if some branch lands there. -/
def arriveAtEnd (env : MethodEnv) : Lower Unit :=
  if env.isTarget endOfBody then locating none (arrive endOfBody) else pure ()

lemma lowerAll_run : lowerAll rules env s = (do
    lowerFrom rules (env.code.size + rewinds + 1)
    arriveAtEnd env
    locating none finish) env s := by
  show (lowerFrom rules (env.code.size + rewinds + 1) >>= fun _ =>
    if env.isTarget endOfBody then locating none (arrive endOfBody) >>= fun _ => locating none finish
    else locating none finish) env s = _
  refine bind_congr_run fun _ s' => ?_
  unfold arriveAtEnd
  split_ifs <;> rfl

/-- **Arrival at the end of the body.** -/
lemma arriveAtEnd_meets (h : Resting env start s₀ lost s) (hn : env.nextLive? s.cursor = none) :
    Meets Any Harmless (arriveAtEnd env) env (s.atEnd env) fun _ s' => Arrives env s₀ lost s s' := by
  have hmove : Aside env [] s (s.atEnd env) := aside_of_draft rfl rfl rfl rfl (le_max_left _ _)
  have hb : (s.atEnd env).Balanced env ((s.atEnd env).stack ++ lost) [] :=
    h.balanced.of_eq rfl rfl rfl
  have hlanded : Landed env s₀ (env.Ahead s.cursor) (s.atEnd env) :=
    h.landed.grows (.of_draft rfl rfl id)
  unfold arriveAtEnd
  split_ifs with htarget
  · refine ((arrive_meets htarget hb h.timely.distinct h.timely.nonempty).locating
      fun e he => he.locate _ _).mono fun _ s' _ ha => ?_
    obtain ⟨left, hleft, hstack⟩ := ha.balanced
    obtain ⟨entries, slots, carry, label, hlink⟩ := ha.links fun hne => absurd rfl hne
    have hahead : env.Ahead s.cursor endOfBody := ⟨htarget, .inl rfl⟩
    refine ⟨⟨left, hleft, fun hne => (hstack hne).2.2⟩, ?_, ?_, _, .cons (.aside hmove) hlink.trail,
      by simp [Stretch.Into]⟩
    · refine (hlanded.lands ha.lands hahead).congr fun o => iff_of_false ?_ id
      rintro ⟨ho, hne⟩
      exact hne (MethodEnv.Prepared.ahead_end hn ho)
    · rw [ha.merges, List.filter_eq_nil_iff]
      intro e he
      simp [h.merges_end hn e he]
  · refine meets_of_ok rfl trivial ⟨⟨[], hb, by simp⟩, ?_, ?_, _, (Links.aside hmove).trail,
      by simp [Stretch.Into]⟩
    · refine hlanded.congr fun o => iff_of_false (fun ho => ?_) id
      exact htarget (MethodEnv.Prepared.ahead_end hn ho ▸ ho.1)
    · rw [List.eq_nil_iff_forall_not_mem]
      intro e he
      exact htarget (h.merges_end hn e he ▸ (h.timely.ahead e he).1)

/-- The error reports a temporary that an entry refers to which was lost on the course of a lowering. -/
def Leaks (rules : Rulebook) (env : MethodEnv) (s₀ : Frame) (e : CompileError) : Prop :=
  ∃ lost s v reserved handOut, Course rules env s₀ lost s ∧ env.nextLive? s.cursor = none ∧
    0 < s.draft.vars.loads lost v ∧ e.cause = .invariant (.leak v reserved handOut)

lemma finish_meets : Meets Any
    (fun e => e.Harmless ∨ s.stack = [] ∧ ∃ v ∈ s.scratch.outstanding s.draft.vars, ∃ reserved handOut,
      e = .invariant (.leak v reserved handOut))
    finish env s fun _ s' => s' = s ∧ s.stack = [] ∧ s.scratch.outstanding s.draft.vars = [] := by
  unfold finish
  rw [meets_get_bind]
  by_cases hstack : s.stack = []
  swap
  · rw [if_pos (by simpa using hstack)]
    exact meets_breach (.inl (harmless_invariant rfl))
  rw [if_neg (by simpa using hstack)]
  by_cases hsaved : s.saved = []
  swap
  · rw [if_pos (by simpa using hsaved)]
    exact meets_breach (.inl (harmless_invariant rfl))
  rw [if_neg (by simpa using hsaved)]
  cases hleft : s.scratch.outstanding s.draft.vars with
  | nil => exact meets_pure ⟨rfl, hstack, rfl⟩
  | cons v rest => exact meets_breach (.inr ⟨hstack, v, by simp, _, _, rfl⟩)

lemma loads_of_outstanding {v : VarRef} (h : s.Balanced env lost []) (hm : s.merges = [])
    (hv : v ∈ s.scratch.outstanding s.draft.vars) : 0 < s.draft.vars.loads lost v := by
  have hwaiting : s.waiting = [] := by rw [waiting, hm]; rfl
  obtain ⟨hmade, hv⟩ := List.mem_filter.1 hv
  have htemp := h.books.made v hmade
  have hreserved : (s.draft.vars.get v).reserved = false := by
    rw [Bool.eq_false_iff]
    intro hr
    simpa [hwaiting] using (h.books.reserved v htemp).1 hr
  have huses := h.books.uses v htemp
  rw [hwaiting, List.append_nil] at huses
  have hpending : (s.draft.vars.get v).pooled = false ∧ 0 < (s.draft.vars.get v).uses := by
    simpa [hreserved] using hv
  exact huses ▸ hpending.2

/-- **A lowering that ends well** leaves nothing over, and one that fails does not blame the use of a
temporary unless one was lost. -/
lemma lowerAll_meets (hrules : rules.IsStandard) (hp : env.Prepared start)
    (h₀ : Resting env start s₀ [] s₀) :
    Meets Any (fun e => e.Harmless ∨ Leaks rules env s₀ e) (lowerAll rules) env s₀ fun _ s =>
      ∃ lost s₁, Course rules env s₀ lost s₁ ∧ Ended env s₀ lost s ∧
        ∃ trail, Trail env trail s₁ s ∧ ∀ x ∈ trail, x.Into endOfBody := by
  rw [meets_congr lowerAll_run]
  refine ((lowerFrom_meets hrules hp h₀ _ .start).imp (fun _ => id) (fun _ => .inl) fun _ _ _ =>
    id).bind fun _ s₂ _ h₂ => ?_
  obtain ⟨lost, s₁, hcourse, hn, rfl⟩ := h₂
  have hrest := hcourse.resting hrules hp h₀
  refine ((arriveAtEnd_meets hrest hn).imp (fun _ => id) (fun _ => .inl) fun _ _ _ => id).bind
    fun _ s₂ _ h₂ => ?_
  obtain ⟨left, hb, hleft⟩ := h₂.balanced
  -- an empty operand stack leaves nothing in hand but what was lost
  have hbalanced (hstack : s₂.stack = []) : s₂.Balanced env lost [] := by
    have hnil : left = [] := by
      by_contra hne
      exact hleft hne hstack
    rwa [hstack, hnil] at hb
  have hvars : s₁.draft.vars.Grows s₂.draft.vars := by
    obtain ⟨trail, htrail, -⟩ := h₂.trail
    exact htrail.vars
  have hhas (v : VarRef) (hv : v ∈ lost) : s₁.draft.vars.Has v :=
    hrest.balanced.books.has v (by simp [hv])
  have hfinish : Meets Any (fun e => e.Harmless ∨ Leaks rules env s₀ e) finish env s₂
      fun _ s' => s' = s₂ ∧ s₂.stack = [] ∧ s₂.scratch.outstanding s₂.draft.vars = [] := by
    refine finish_meets.imp (fun _ => id) (fun e he => he.imp_right ?_) fun _ _ _ => id
    rintro ⟨hstack, v, hv, reserved, handOut, rfl⟩
    refine ⟨lost, s₁, v, reserved, handOut, hcourse, hn, ?_, rfl⟩
    rw [← Variables.loads_eq_of_grows hvars hhas]
    exact loads_of_outstanding (hbalanced hstack) h₂.merges hv
  refine (hfinish.locating fun e he => ?_).mono fun _ s' _ h' => ?_
  · refine he.imp (fun h => h.locate _ _) ?_
    rintro ⟨lost, s, v, reserved, handOut, hcourse, hn, hv, hcause⟩
    exact ⟨lost, s, v, reserved, handOut, hcourse, hn, hv, by rw [← hcause, locate]; split <;> rfl⟩
  · obtain ⟨rfl, hstack, hsettled⟩ := h'
    exact ⟨lost, s₁, hcourse, ⟨hbalanced hstack, h₂.landed, hstack, h₂.merges, hsettled⟩, h₂.trail⟩

end Lower

/-! ## Entering a method -/

namespace Frame

variable {env : ClassEnv} {d : Draft} {m : MethodRef} {code : List Instruction} {start : Nat}
  {menv : MethodEnv} {s₀ : Frame}

/-- What is known when the lowering of a method begins. -/
structure Enters (env : ClassEnv) (d : Draft) (m : MethodRef) (code : List Instruction) (start : Nat)
    (menv : MethodEnv) (s₀ : Frame) : Prop where
  entered : Frame.enter env d m code.toArray start = .ok (menv, s₀)
  toClassEnv : menv.toClassEnv = env
  method : menv.method = m
  body : menv.code = code.toArray
  landings : menv.landings =
    ((code.drop start).flatMap (·.targets)).map fun t => (t, landingOffset (code.drop start) t)
  slots : ∀ v, v ∈ menv.args ∨ v ∈ menv.locals ∨ menv.returnVar = some v →
    menv.IsSlot s₀.draft.vars v
  /-- The label of the method's end is the last one that was made. -/
  returnLabel : menv.returnLabel = ⟨d.labelCount⟩
  idle : s₀.draft.vars.Idle
  vars : d.vars.Grows s₀.draft.vars
  rest : s₀ = { cursor := start, draft := { d with
    vars := s₀.draft.vars, labelCount := d.labelCount + 1
    methodNames := (d.methodNumber (env.md.methodDisplay m)).2.methodNames } }

lemma enters_of_enter (hd : d.Sound)
    (h : Frame.enter env d m code.toArray start = .ok (menv, s₀)) :
    Enters env d m code start menv s₀ := by
  have hentered := h
  unfold Frame.enter at h
  simp only at h
  obtain ⟨⟨params, result, d₁⟩, hparams, h⟩ := except_bind_eq_ok_iff.1 h
  obtain ⟨rfl, rfl⟩ := Prod.mk.inj (Except.ok.inj h)
  have hd₀ : (d.methodNumber (env.md.methodDisplay m)).2.Sound :=
    ⟨hd.vars, hd.made, hd.unplaced, hd.methods, hd.labels⟩
  obtain ⟨hfurnish, hslots⟩ := hd₀.parameterVars hparams
  obtain ⟨hlocals, hkinds⟩ := Draft.furnishes_locals
    (((env.md.method m).body.map (·.locals)).getD []) [] hfurnish.idle (by simp)
  have hrest := (hfurnish.trans hlocals).rest
  refine ⟨hentered, rfl, rfl, rfl, rfl, fun v hv => ?_, ?_, hlocals.idle,
    hfurnish.grows.trans hlocals.grows,
    congrArg (fun d' : Draft => (⟨d'.newLabel.2, start, none, [], [], {}, [], [], false⟩ : Frame)) hrest⟩
  · have hgrown {v : VarRef} (hv : d₁.vars.Has v ∧ Variables.Fixed (d₁.vars.kind v)) :=
      And.intro (hlocals.grows.has hv.1) ((hlocals.grows.kind_eq hv.1).symm ▸ hv.2)
    rcases hv with hv | hv | hv
    · rcases List.mem_append.1 hv with hv | hv
      · have hself : v = Draft.self := by
          split_ifs at hv
          · cases hv
          · exact List.mem_singleton.1 hv
        subst hself
        exact ⟨hlocals.idle.self.1, .inl hlocals.idle.fixed_self⟩
      · obtain ⟨hv, hk⟩ := hgrown (hslots v (.inl hv))
        exact ⟨hv, .inl hk⟩
    · obtain ⟨hhas, hk⟩ := hkinds v hv
      exact ⟨hhas, .inr ⟨hk, hv⟩⟩
    · obtain ⟨hv, hk⟩ := hgrown (hslots v (.inr hv))
      exact ⟨hv, .inl hk⟩
  · have hcount := congrArg Draft.labelCount hrest
    exact congrArg Label.mk hcount

lemma Enters.number_lt (h : Enters env d m code start menv s₀) :
    menv.number < s₀.draft.methodNames.length := by
  have hentered := h.entered
  unfold Frame.enter at hentered
  simp only at hentered
  obtain ⟨r, -, hentered⟩ := except_bind_eq_ok_iff.1 hentered
  have hnumber : (d.methodNumber (env.md.methodDisplay m)).1 = menv.number :=
    congrArg (fun e => e.1.number) (Except.ok.inj hentered)
  rw [h.rest, ← hnumber]
  exact (List.getElem?_eq_some_iff.1 (Host.SourceMap.intern_spec _ _).2).1

lemma Enters.prepared (h : Enters env d m code start menv s₀) (hcode : Bytecode.Portion code start)
    (hshort : ∀ i ∈ code, i.offset < endOfBody) (hfits : env.naming.Fits env.md) :
    menv.Prepared start := by
  have hget (k : Nat) : menv.code[k]? = code[k]? := by
    rw [h.body, List.getElem?_toArray]
  have hdrop (k : Nat) (i : Instruction) (hk : start ≤ k) (hi : code[k]? = some i) :
      i ∈ code.drop start := by
    refine List.mem_of_getElem? (i := k - start) ?_
    rw [List.getElem?_drop, Nat.add_sub_cancel' hk, hi]
  refine ⟨?_, fun j k a b ha hb hlt => ?_, ?_, fun k i hk hi t ht => ?_, fun o ho => ?_⟩
  · rw [h.toClassEnv]
    exact hfits
  · rw [hget] at ha hb
    obtain ⟨hj, rfl⟩ := List.getElem?_eq_some_iff.1 ha
    obtain ⟨hk, rfl⟩ := List.getElem?_eq_some_iff.1 hb
    exact List.pairwise_iff_getElem.1 hcode.increasing j k hj hk hlt
  · rw [h.body]
    simpa using hshort
  · rw [hget] at hi
    rw [h.landings]
    exact ⟨_, List.mem_map.2 ⟨t, List.mem_flatMap.2 ⟨i, hdrop k i hk hi, ht⟩, rfl⟩⟩
  · refine ⟨ho, ?_⟩
    obtain ⟨e, he, heq⟩ := List.any_eq_true.1 ho
    rw [h.landings] at he
    obtain ⟨t, ht, rfl⟩ := List.mem_map.1 he
    obtain ⟨i, hi, ht⟩ := List.mem_flatMap.1 ht
    obtain rfl : _ = o := by simpa using heq
    refine (Bytecode.landingOffset_spec (hcode.closed i hi t ht)).imp_right ?_
    rintro ⟨i', hi', hoff, hlive⟩
    obtain ⟨k, hk, rfl⟩ := List.mem_drop_iff_getElem.1 hi'
    exact ⟨start + k, _, Nat.le_add_right _ _, by rw [hget]; exact List.getElem?_eq_getElem _, hoff, hlive⟩

lemma Enters.labelled (h : Enters env d m code start menv s₀) (hd : d.Sound) : s₀.Labelled := by
  have hlabels : s₀.labels = [] := by rw [h.rest]
  have hmethods : s₀.draft.methodLabels = d.methodLabels := by rw [h.rest]
  have hcount : s₀.draft.labelCount = d.labelCount + 1 := by rw [h.rest]
  have hplaced (l : Label) : s₀.draft.placed l = d.placed l := by rw [Draft.placed, h.rest]; rfl
  refine ⟨fun l hl => ?_, fun l hl => ?_, by simp [hlabels], by simp [hlabels], ?_, ?_, by simp [hlabels]⟩
  · rcases hl with ⟨o, hl⟩ | ⟨m, hl⟩
    · simp [hlabels] at hl
    · rw [hmethods] at hl
      have : l.index < d.labelCount := hd.made _ hl
      omega
  · rw [hplaced]
    exact hd.unplaced l (by omega)
  · rw [hmethods]
    exact hd.methods
  · rw [hmethods]
    exact hd.labels

/-- **Entering a method**: its first frame rests. -/
lemma Enters.resting (h : Enters env d m code start menv s₀) (hd : d.Sound)
    (hp : menv.Prepared start) : Resting menv start s₀ [] s₀ := by
  have hstack : s₀.stack = [] := by rw [h.rest]
  have hscratch : s₀.scratch = {} := by rw [h.rest]
  have hmerges : s₀.merges = [] := by rw [h.rest]
  have hcurrent : s₀.current = none := by rw [h.rest]
  have hcursor : s₀.cursor = start := by rw [h.rest]
  have hwaiting : s₀.waiting = [] := by rw [waiting, hmerges]; rfl
  refine ⟨⟨h.idle.tidy, ?_, h.idle.self, h.slots, ?_, ?_, ?_⟩, ⟨?_, ?_, ?_, ?_⟩, ?_, hcursor.ge⟩
  · rw [hstack, hwaiting, hscratch]
    refine ⟨fun t ht => ?_, fun t ht => ?_, fun t ht => ?_, h.idle.others, by simp, .nil, by simp,
      fun t ht hp => ?_, by simp, by simp⟩
    · simp [(h.idle.temporaries t ht).1]
    · simp [(h.idle.temporaries t ht).2.1]
    · simp [h.idle.temporaries t ht]
    · rw [(h.idle.temporaries t ht).2.2] at hp
      cases hp
  · simp [hstack]
  · simp [hwaiting]
  · simp [hwaiting]
  · simp [hmerges]
  · simp [hmerges]
  · simp [hmerges]
  · simp [hcurrent]
  · rw [hcursor]
    exact .refl (h.labelled hd) (by rw [h.rest]) hp.ahead

lemma Ended.idle {s : Frame} {lost : List VarRef} (h : Ended menv s₀ lost s) : s.draft.vars.Idle := by
  refine ⟨h.balanced.tidy, h.balanced.self, fun t ht => ?_, h.balanced.books.unpooled⟩
  have hpooled : (s.draft.vars.get t).pooled = true := by
    by_contra hp
    have hp : (s.draft.vars.get t).pooled = false := by simpa using hp
    have hleft : t ∉ s.scratch.outstanding s.draft.vars := by simp [h.settled]
    rw [Scratch.outstanding, List.mem_filter, not_and] at hleft
    have hidle : (s.draft.vars.get t).reserved = false ∧ (s.draft.vars.get t).uses = 0 := by
      simpa [hp] using hleft (h.balanced.books.live t ht hp)
    have := (h.balanced.books.pooled t ht).2 ⟨hidle.2, hidle.1⟩
    rw [hp] at this
    cases this
  obtain ⟨huses, hreserved⟩ := (h.balanced.books.pooled t ht).1 hpooled
  exact ⟨huses, hreserved, hpooled⟩

end Frame

/-! ## Lowering a method -/

namespace Lower

variable {env : MethodEnv} {rules : Rulebook} {start : Nat} {s₀ s : Frame} {lost : List VarRef}

/-- **Where stretches stem from.**  A departure is part of an instruction of the course and carries the
entries below those that decide it; an arrival is the way into an instruction. -/
inductive Stems (rules : Rulebook) (env : MethodEnv) (s₀ : Frame) : Stretch → Prop
  | aside (code : List Piece) : Stems rules env s₀ (.aside code)
  | branch {lost : List VarRef} {s t : Frame} {k target : Nat} {i : Instruction}
    {slots : List VarRef} {carry : List Piece} {exit : Piece} (course : Course rules env s₀ lost s)
    (next : env.nextLive? s.cursor = some k) (inst : env.code[k]? = some i)
    (begun : beginInstruction i.offset env (s.taking k) = .ok () t) :
    Stems rules env s₀ (.departure target (carriedAt i t) slots carry exit)
  | entry {target : Nat} {entries slots stack : List VarRef} {carry : List Piece} {l : Label}
    (inst : target = endOfBody ∨ ∃ i ∈ env.code, i.offset = target) :
    Stems rules env s₀ (.arrival target entries slots carry l stack)

lemma stems_of_into {x : Stretch} {offset : Nat} (hx : x.Into offset)
    (ho : offset = endOfBody ∨ ∃ i ∈ env.code, i.offset = offset) : Stems rules env s₀ x := by
  cases x with
  | aside code => exact .aside code
  | departure => exact hx.elim
  | arrival target =>
    obtain rfl : target = offset := hx
    exact .entry ho

/-- **The trail of a course.** -/
lemma Course.trail (hrules : rules.IsStandard) (hp : env.Prepared start)
    (h₀ : Resting env start s₀ [] s₀) (h : Course rules env s₀ lost s) :
    ∃ trail, Trail env trail s₀ s ∧ (∀ x ∈ trail, Stems rules env s₀ x) ∧
      ∀ x ∈ trail, ¬ x.ArrivesAt endOfBody := by
  induction h with
  | start => exact ⟨[], .nil, by simp, by simp⟩
  | @step lost s t s' k i course next inst begun lowered ih =>
    obtain ⟨trail, htrail, hstems, hend⟩ := ih
    obtain ⟨-, ⟨into, hinto, hi⟩, within, hwithin, hw⟩ :=
      lowerInstruction_ok hrules hp (course.resting hrules hp h₀) next inst begun lowered
    have hmem : i ∈ env.code := Array.mem_of_getElem? inst
    refine ⟨trail ++ (into ++ within), htrail.append (hinto.append hwithin), fun x hx => ?_,
      fun x hx harrives => ?_⟩
    · rcases List.mem_append.1 hx with hx | hx
      · exact hstems x hx
      rcases List.mem_append.1 hx with hx | hx
      · exact stems_of_into (hi x hx) (.inr ⟨i, hmem, rfl⟩)
      · cases x with
        | aside code => exact .aside code
        | departure target entries slots carry exit =>
          obtain rfl : entries = _ := hw _ hx
          exact .branch course next inst begun
        | arrival => exact (hw _ hx).elim
    · rcases List.mem_append.1 hx with hx | hx
      · exact hend x hx harrives
      rcases List.mem_append.1 hx with hx | hx
      · cases x with
        | aside | departure => exact harrives.elim
        | arrival target =>
          obtain rfl : target = i.offset := hi _ hx
          exact absurd harrives (hp.short i hmem).ne
      · cases x with
        | aside | departure => exact harrives.elim
        | arrival => exact hw _ hx

end Lower

namespace Draft

variable {env : ClassEnv} {rules : Rulebook} {d d' : Draft} {m : MethodRef} {code : List Instruction}
  {start : Nat} {label : Label} {menv : MethodEnv} {s₀ s : Frame}

structure Lowering (rules : Rulebook) (env : ClassEnv) (d : Draft) (m : MethodRef)
    (code : List Instruction) (start : Nat) (menv : MethodEnv) (s₀ s : Frame) : Prop where
  enters : Enters env d m code start menv s₀
  prepared : menv.Prepared start
  resting : Resting menv start s₀ [] s₀
  run : lowerAll rules menv s₀ = .ok () s

lemma lowerBody_ok (h : d.lowerBody rules env m code start label = .ok d') (hd : d.Sound)
    (hl : label.index < d.labelCount) (hcode : Bytecode.Portion code start)
    (hfits : env.naming.Fits env.md) :
    ∃ menv s₀ s, Lowering rules env (d.emit (.mark label)) m code start menv s₀ s ∧
      d' = (s.draft.emit (.mark menv.returnLabel)).ret := by
  unfold lowerBody at h
  split_ifs at h with hlarge
  · cases h
  have hshort : ∀ i ∈ code, i.offset < endOfBody := by simpa using hlarge
  obtain ⟨⟨menv, s₀⟩, henter, h⟩ := except_bind_eq_ok_iff.1 h
  have henters := enters_of_enter (hd.mark hl) (mapError_eq_ok_iff.1 henter)
  have hp := henters.prepared hcode hshort hfits
  simp only at h
  split at h
  · rename_i s hrun
    exact ⟨menv, s₀, s, ⟨henters, hp, henters.resting (hd.mark hl) hp, hrun⟩, (Except.ok.inj h).symm⟩
  · cases h

lemma Lowering.ended (h : Lowering rules env d m code start menv s₀ s) (hrules : rules.IsStandard) :
    ∃ lost s₁, Course rules menv s₀ lost s₁ ∧ Ended menv s₀ lost s ∧
      ∃ trail, Trail menv trail s₁ s ∧ ∀ x ∈ trail, x.Into endOfBody :=
  ((lowerAll_meets hrules h.prepared h.resting).ok h.run).2

lemma Lowering.returnLabel_lt (h : Lowering rules env d m code start menv s₀ s) :
    menv.returnLabel.index < s₀.draft.labelCount := by
  rw [h.enters.returnLabel, h.enters.rest]
  exact Nat.lt_succ_self _

lemma Lowering.extends (h : Lowering rules env d m code start menv s₀ s) (hrules : rules.IsStandard) :
    d.Extends s.draft := by
  obtain ⟨lost, s₁, -, hended, -⟩ := h.ended hrules
  have hs₀ : d.Extends s₀.draft := by
    refine ⟨h.enters.vars, ?_, ?_, ?_, ?_⟩
    · rw [h.enters.rest]
    · rw [h.enters.rest]
      exact Nat.le_succ _
    · rw [h.enters.rest]
      exact fun _ => id
    · rw [h.enters.rest]
      exact (Host.SourceMap.intern_spec _ _).1
  obtain ⟨pieces, hcode, -⟩ := hended.landed.code
  exact hs₀.trans ⟨hcode.vars, hcode.ops ▸ List.prefix_append _ _, hended.landed.tables.labelCount,
    hended.landed.tables.keepMethods, hended.landed.tables.names ▸ List.prefix_rfl⟩

/-- **Lowering a method keeps the draft of the class sound.** -/
lemma Lowering.sound (h : Lowering rules env d m code start menv s₀ s) (hrules : rules.IsStandard) :
    (s.draft.emit (.mark menv.returnLabel)).ret.Sound ∧
      d.Extends (s.draft.emit (.mark menv.returnLabel)).ret := by
  obtain ⟨lost, s₁, -, hended, -⟩ := h.ended hrules
  have hl := hended.landed.labelled
  have hsound : s.draft.Sound := by
    refine ⟨hended.idle, fun e he => hl.made e.2 (.inr ⟨e.1, he⟩), hl.placed, hl.methods,
      hl.methodLabels⟩
  have hcount := hended.landed.tables.labelCount
  refine ⟨(hsound.mark (h.returnLabel_lt.trans_le hcount)).ret, (h.extends hrules).trans ?_⟩
  rw [emit_eq]
  exact (extends_emitAll _ _).trans (extends_ret _)

/-- **The joins of a method.** -/
lemma Lowering.joined (h : Lowering rules env d m code start menv s₀ s) (hrules : rules.IsStandard) :
    ∃ trail, Joined menv trail s₀ s ∧ ∀ x ∈ trail, Stems rules menv s₀ x := by
  obtain ⟨lost, s₁, hcourse, hended, ending, hending, hinto⟩ := h.ended hrules
  obtain ⟨body, hbody, hstems, hnoend⟩ := hcourse.trail hrules h.prepared h.resting
  have hlanded := hended.landed
  refine ⟨body ++ ending, (hbody.append hending).joined ?_ ?_ hlanded.labelled
    (fun e he => (hlanded.passed e he id).le) (fun o ho => ?_) hended.merges, fun x hx => ?_⟩
  · refine List.pairwise_append.2 ⟨List.pairwise_of_forall_mem_list ?_,
      List.pairwise_of_forall_mem_list ?_, ?_⟩
    · exact fun x hx y _ harrives => (hnoend x hx harrives).elim
    · intro x _ y hy _ hdeparts
      cases y with
      | aside | arrival => exact hdeparts
      | departure => exact hinto _ hy
    · exact fun x hx y _ harrives => (hnoend x hx harrives).elim
  · rw [hlanded.start]
    simp
  · exact absurd h.returnLabel_lt (Nat.not_lt.2 (hlanded.madeHere ho).1.1)
  · rcases List.mem_append.1 hx with hx | hx
    · exact hstems x hx
    · exact stems_of_into (hinto x hx) (.inl rfl)

end Draft

end FlatHeap
