import FlatHeap.Proofs.Lowering.Meets
import FlatHeap.Proofs.Lowering.Variables

/-!
# States of temporaries

Whatever is asked of a scratch pool, in whatever order, a temporary is either in the pool or live
(`Scratch.temporaries_are_pooled_or_live`).  In the pool it has no pending reads, is not reserved and
waits once among the temporaries of its own type; live it waits nowhere, and is reserved or has pending
reads.  Every operation on a temporary changes the entry of that temporary alone and keeps it where
its entry says (`Scratch.Kept.modify`).
-/

namespace FlatHeap.Scratch

inductive Call where
  | take (type : TypeRef) (handOut : Option HandOut)
  | allocate (v : VarRef) (n : Nat)
  | use (v : VarRef)
  | reserve (v : VarRef)
  | release (v : VarRef)

def perform (pool : Scratch) (vs : Variables) : Call → Except Breach (Variables × Scratch)
  | .take type handOut => .ok (pool.take vs type handOut).2
  | .allocate v n => pool.allocate vs v n
  | .use v => pool.use vs v
  | .reserve v => pool.reserve vs v
  | .release v => pool.release vs v

/-- The call is about a temporary that was handed out, if it is about one. -/
def Call.About (made : List VarRef) : Call → Prop
  | .take _ _ => True
  | .allocate v _ | .use v | .reserve v | .release v => v ∈ made

/-- Variables and pools that any calls lead to; a call that is refused leaves them as they are. -/
inductive Reached : Variables → Scratch → Prop
  | start : Reached {} {}
  | done {vs vs' : Variables} {pool pool' : Scratch} {c : Call} (h : Reached vs pool)
    (about : c.About pool.made) (ok : pool.perform vs c = .ok (vs', pool')) : Reached vs' pool'
  | refused {vs : Variables} {pool : Scratch} {c : Call} {b : Breach} (h : Reached vs pool)
    (about : c.About pool.made) (error : pool.perform vs c = .error b) : Reached vs pool

def freeOf (pool : Scratch) (vs : Variables) (type : TypeRef) : List VarRef :=
  pool.free.filter fun v => (vs.get v).type == type

structure InPool (vs : Variables) (pool : Scratch) (v : VarRef) : Prop where
  pooled : (vs.get v).pooled = true
  uses : (vs.get v).uses = 0
  reserved : (vs.get v).reserved = false
  waits : ∀ type, (pool.freeOf vs type).count v = if type = (vs.get v).type then 1 else 0

structure Live (vs : Variables) (pool : Scratch) (v : VarRef) : Prop where
  pooled : (vs.get v).pooled = false
  needed : (vs.get v).reserved = true ∨ 0 < (vs.get v).uses
  waits : ∀ type, v ∉ pool.freeOf vs type

/-- The entry of a temporary agrees with how often it waits in the pool. -/
def Agrees (x : Variable) (waiting : Nat) : Prop :=
  x.pooled = true ∧ x.uses = 0 ∧ x.reserved = false ∧ waiting = 1 ∨
    x.pooled = false ∧ (x.reserved = true ∨ 0 < x.uses) ∧ waiting = 0

/-- All variables are temporaries that were handed out, and their entries agree with the pool. -/
structure Kept (vs : Variables) (pool : Scratch) : Prop where
  made : ∀ v, v ∈ pool.made ↔ vs.Has v
  temporary : ∀ v, vs.Has v → vs.kind v = .temporary
  free : ∀ v ∈ pool.free, vs.Has v
  agrees : ∀ v, vs.Has v → Agrees (vs.get v) (pool.free.count v)

variable {vs vs' : Variables} {pool pool' : Scratch} {v w : VarRef} {c : Call}

/-- A temporary outside the pool is needed and waits nowhere. -/
lemma Kept.of_not_pooled (h : Kept vs pool) (hv : vs.Has v) (hp : (vs.get v).pooled = false) :
    ((vs.get v).reserved = true ∨ 0 < (vs.get v).uses) ∧ pool.free.count v = 0 := by
  rcases h.agrees v hv with ⟨hp', -⟩ | ⟨-, hneeded⟩
  · simp [hp] at hp'
  · exact hneeded

lemma Kept.not_other (h : Kept vs pool) (hv : vs.Has v) : ¬ (!(vs.get v).isTemporary) = true := by
  simpa [Variables.kind] using h.temporary v hv

/-- **Changing one temporary**, together with its place in the pool. -/
lemma Kept.modify {f : Variable → Variable} (h : Kept vs pool) (hv : vs.Has v)
    (hf : ∀ x, (f x).lasting = x.lasting) (made : pool'.made = pool.made)
    (free : ∀ w ∈ pool'.free, w = v ∨ w ∈ pool.free)
    (others : ∀ w, w ≠ v → pool'.free.count w = pool.free.count w)
    (agrees : Agrees (f (vs.get v)) (pool'.free.count v)) : Kept (vs.modify v f) pool' := by
  have g := Variables.grows_modify vs v f hf
  constructor <;> simp only [Variables.has_modify]
  · rw [made]
    exact h.made
  · exact fun w hw => (g.kind_eq hw).trans (h.temporary w hw)
  · intro w hw
    rcases free w hw with rfl | hw
    · exact hv
    · exact h.free w hw
  · intro w hw
    by_cases e : w = v
    · rw [e, Variables.get_modify_self hv]
      exact agrees
    · rw [Variables.get_modify_of_ne e, others w e]
      exact h.agrees w hw

lemma Kept.modifyLive {f : Variable → Variable} (h : Kept vs pool) (hv : vs.Has v)
    (hf : ∀ x, (f x).lasting = x.lasting) (hp : (vs.get v).pooled = false)
    (pooled : (f (vs.get v)).pooled = false)
    (needed : (f (vs.get v)).reserved = true ∨ 0 < (f (vs.get v)).uses) :
    Kept (vs.modify v f) pool :=
  h.modify hv hf rfl (fun _ => .inr) (fun _ _ => rfl)
    (.inr ⟨pooled, needed, (h.of_not_pooled hv hp).2⟩)

/-- A temporary that is no longer needed goes back to the pool. -/
lemma Kept.recycled {f : Variable → Variable} (h : Kept vs pool) (hv : vs.Has v)
    (hr : pool.recycle (vs.modify v f) v = (vs', pool')) (hf : ∀ x, (f x).lasting = x.lasting)
    (hp : (vs.get v).pooled = false) (uses : (f (vs.get v)).uses = 0)
    (reserved : (f (vs.get v)).reserved = false) : Kept vs' pool' := by
  obtain ⟨rfl, rfl⟩ := Prod.mk.inj hr
  rw [Variables.modify_modify]
  refine h.modify hv hf rfl (fun _ => List.mem_cons.1) (fun _ e => List.count_cons_of_ne e.symm)
    (.inl ⟨rfl, uses, reserved, ?_⟩)
  rw [List.count_cons_self, (h.of_not_pooled hv hp).2]

/-- A temporary that is handed out is of the type asked for, and it was not live. -/
lemma Kept.take (h : Kept vs pool) {type : TypeRef} {handOut : Option HandOut}
    (ht : pool.take vs type handOut = (v, vs', pool')) :
    Kept vs' pool' ∧ (vs'.get v).type = type ∧ (vs.Has v → (vs.get v).pooled = true) := by
  cases hfind : pool.free.find? fun w => (vs.get w).type == type with
  | some w =>
    simp only [Scratch.take, hfind, Prod.mk.injEq] at ht
    obtain ⟨rfl, rfl, rfl⟩ := ht
    have hmem : w ∈ pool.free := List.mem_of_find?_eq_some hfind
    have hw := h.free w hmem
    have htype : (vs.get w).type = type := by simpa using List.find?_some hfind
    obtain ⟨hp, hcount⟩ : (vs.get w).pooled = true ∧ pool.free.count w = 1 := by
      rcases h.agrees w hw with ⟨hp, -, -, hone⟩ | ⟨-, -, hzero⟩
      · exact ⟨hp, hone⟩
      · exact absurd hmem (List.count_eq_zero.1 hzero)
    refine ⟨h.modify hw (fun _ => rfl) rfl (fun _ hx => .inr (List.mem_of_mem_erase hx))
      (fun _ e => List.count_erase_of_ne e) (.inr ⟨rfl, .inr Nat.one_pos, ?_⟩), ?_, fun _ => hp⟩
    · rw [List.count_erase_self, hcount]
    · rw [Variables.get_modify_self hw]
      exact htype
  | none =>
    simp only [Scratch.take, hfind, Prod.mk.injEq] at ht
    obtain ⟨rfl, rfl, rfl⟩ := ht
    set x : Variable := { type, kind := .temporary, uses := 1, handOut := handOut }
    have hnew := Variables.not_has_add_new vs x
    have hget := Variables.get_add_new vs x
    refine ⟨⟨fun w => ?_, fun w hw => ?_, fun w hw => Variables.has_add_old (h.free w hw) x,
      fun w hw => ?_⟩, by rw [hget], fun hh => absurd hh hnew⟩
    · rw [Variables.has_add_iff, List.mem_append, List.mem_singleton, h.made]
    all_goals rcases (Variables.has_add_iff vs x w).1 hw with hw | rfl
    · rw [Variables.kind, Variables.get_add_old hw]
      exact h.temporary w hw
    · rw [Variables.kind, hget]
    · rw [Variables.get_add_old hw]
      exact h.agrees w hw
    · rw [hget]
      exact .inr ⟨rfl, .inr Nat.one_pos, List.count_eq_zero.2 fun hf => hnew (h.free _ hf)⟩

/-- **Every call keeps the pool in order.** -/
lemma Kept.perform (h : Kept vs pool) (about : c.About pool.made)
    (ok : pool.perform vs c = .ok (vs', pool')) : Kept vs' pool' := by
  cases c with
  | take type handOut =>
    have ht : pool.take vs type handOut = ((pool.take vs type handOut).1, vs', pool') :=
      Prod.ext rfl (Except.ok.inj ok)
    exact (h.take ht).1
  | allocate v n =>
    have hv := (h.made v).1 about
    rw [Scratch.perform, Scratch.allocate, if_neg (h.not_other hv)] at ok
    split_ifs at ok with hp
    obtain ⟨rfl, rfl⟩ := Prod.mk.inj (Except.ok.inj ok)
    have hp := Bool.eq_false_iff.2 hp
    refine h.modifyLive hv (fun _ => rfl) hp hp ?_
    exact (h.of_not_pooled hv hp).1.imp_right (Nat.add_pos_left · n)
  | reserve v =>
    have hv := (h.made v).1 about
    rw [Scratch.perform, Scratch.reserve, if_neg (h.not_other hv)] at ok
    split_ifs at ok with hp
    obtain ⟨rfl, rfl⟩ := Prod.mk.inj (Except.ok.inj ok)
    have hp := Bool.eq_false_iff.2 hp
    exact h.modifyLive hv (fun _ => rfl) hp hp (.inl rfl)
  | use v =>
    have hv := (h.made v).1 about
    rw [Scratch.perform, Scratch.use, if_neg (h.not_other hv)] at ok
    split_ifs at ok with hp hlast
    · have hp := Bool.eq_false_iff.2 hp
      simp only [Bool.and_eq_true, decide_eq_true_eq, Bool.not_eq_true'] at hlast
      exact h.recycled hv (Except.ok.inj ok) (fun _ => rfl) hp (Nat.sub_eq_zero_of_le hlast.1) hlast.2
    · obtain ⟨rfl, rfl⟩ := Prod.mk.inj (Except.ok.inj ok)
      have hp := Bool.eq_false_iff.2 hp
      refine h.modifyLive hv (fun _ => rfl) hp hp ?_
      simp only [Bool.and_eq_true, decide_eq_true_eq, Bool.not_eq_true', not_and,
        Bool.not_eq_false] at hlast
      by_cases hu : (vs.get v).uses ≤ 1
      · exact .inl (hlast hu)
      · exact .inr (Nat.sub_pos_of_lt (Nat.lt_of_not_le hu))
  | release v =>
    have hv := (h.made v).1 about
    rw [Scratch.perform, Scratch.release, if_neg (h.not_other hv)] at ok
    split_ifs at ok with hr hu
    all_goals
      have hp : (vs.get v).pooled = false := by
        rcases h.agrees v hv with ⟨-, -, hr', -⟩ | ⟨hp, -⟩
        · simp [hr'] at hr
        · exact hp
    · exact h.recycled hv (Except.ok.inj ok) (fun _ => rfl) hp hu rfl
    · obtain ⟨rfl, rfl⟩ := Prod.mk.inj (Except.ok.inj ok)
      exact h.modifyLive hv (fun _ => rfl) hp hp (.inr (Nat.pos_of_ne_zero hu))

lemma Reached.kept (h : Reached vs pool) : Kept vs pool := by
  induction h with
  | start =>
    have hnone (v : VarRef) : ¬ Variables.Has {} v := Nat.not_lt_zero _
    exact ⟨fun v => by simp [hnone v], fun v hv => absurd hv (hnone v), by simp,
      fun v hv => absurd hv (hnone v)⟩
  | done _ about ok ih => exact ih.perform about ok
  | refused _ _ _ ih => exact ih

lemma count_freeOf (type : TypeRef) : (pool.freeOf vs type).count v =
    if type = (vs.get v).type then pool.free.count v else 0 := by
  split_ifs with ht
  · exact List.count_filter (by simp [ht])
  · refine List.count_eq_zero.2 fun hv => ht ?_
    exact (beq_iff_eq.1 (List.mem_filter.1 hv).2).symm

lemma Kept.inPool_iff (h : Kept vs pool) (hv : vs.Has v) :
    InPool vs pool v ↔ (vs.get v).pooled = true := by
  refine ⟨InPool.pooled, fun hp => ?_⟩
  rcases h.agrees v hv with ⟨-, huses, hreserved, hone⟩ | ⟨hp', -⟩
  · exact ⟨hp, huses, hreserved, fun type => by rw [count_freeOf, hone]⟩
  · simp [hp] at hp'

lemma Kept.live_iff (h : Kept vs pool) (hv : vs.Has v) :
    Live vs pool v ↔ (vs.get v).pooled = false := by
  refine ⟨Live.pooled, fun hp => ?_⟩
  obtain ⟨hneeded, hzero⟩ := h.of_not_pooled hv hp
  refine ⟨hp, hneeded, fun type => List.count_eq_zero.1 ?_⟩
  rw [count_freeOf, hzero, ite_self]

/-- A call is refused exactly if it reads, allocates or reserves what is in the pool, or releases what
is not reserved. -/
def Refused (vs : Variables) : Call → Prop
  | .take _ _ => False
  | .allocate v _ | .use v | .reserve v => (vs.get v).pooled = true
  | .release v => (vs.get v).reserved = false

lemma Kept.refused_iff (h : Kept vs pool) (about : c.About pool.made) :
    (∃ b, pool.perform vs c = .error b) ↔ Refused vs c := by
  cases c with
  | take type handOut => simp [Scratch.perform, Refused]
  | allocate v n =>
    rw [Scratch.perform, Scratch.allocate, if_neg (h.not_other ((h.made v).1 about)), Refused]
    split_ifs with hp <;> simp [hp]
  | use v =>
    rw [Scratch.perform, Scratch.use, if_neg (h.not_other ((h.made v).1 about)), Refused]
    split_ifs with hp <;> simp [hp]
  | reserve v =>
    rw [Scratch.perform, Scratch.reserve, if_neg (h.not_other ((h.made v).1 about)), Refused]
    split_ifs with hp <;> simp [hp]
  | release v =>
    rw [Scratch.perform, Scratch.release, if_neg (h.not_other ((h.made v).1 about)), Refused]
    cases hr : (vs.get v).reserved <;> simp

/-- A call that is refused while lowering leaves the frame as it is. -/
lemma frame_of_refused {op : Scratch → Variables → Except Breach (Variables × Scratch)}
    {env : MethodEnv} {s s' : Frame} {e : CompileError} (h : Lower.pool op env s = .error e s') :
    s' = s := by
  rw [Lower.pool, Lower.get_bind] at h
  generalize op s.scratch s.draft.vars = answer at h
  cases answer with
  | ok => cases h
  | error b => exact (EStateM.Result.error.inj h).2.symm

/-- **Temporaries are in the pool or live.**  After any calls on temporaries that were handed out, each
of them is one or the other and not both.  What is handed out next is of the type asked for and was not
live.  A call is refused exactly if it is about a temporary in the wrong state, and then changes
nothing.  And nothing is outstanding exactly if all temporaries are in the pool. -/
theorem temporaries_are_pooled_or_live (h : Reached vs pool) :
    (∀ v, vs.Has v ↔ v ∈ pool.made) ∧
      (∀ v ∈ pool.made, Xor (InPool vs pool v) (Live vs pool v)) ∧
      (∀ type handOut v vs' pool', pool.take vs type handOut = (v, vs', pool') →
        (v ∈ pool.made → ¬ Live vs pool v) ∧ (vs'.get v).type = type) ∧
      (∀ c : Call, c.About pool.made → ((∃ b, pool.perform vs c = .error b) ↔ Refused vs c)) ∧
      (∀ (c : Call) env s e s', Lower.pool (perform · · c) env s = .error e s' → s' = s) ∧
      (pool.outstanding vs = [] ↔ ∀ v ∈ pool.made, InPool vs pool v) := by
  have hkept := h.kept
  have hpool (v : VarRef) (hv : v ∈ pool.made) := hkept.inPool_iff ((hkept.made v).1 hv)
  have hlive (v : VarRef) (hv : v ∈ pool.made) := hkept.live_iff ((hkept.made v).1 hv)
  refine ⟨fun v => (hkept.made v).symm, fun v hv => ?_, fun type handOut v vs' pool' ht => ?_,
    fun c => hkept.refused_iff, fun _ _ _ _ _ => frame_of_refused, ?_⟩
  · rw [hpool v hv, hlive v hv]
    cases (vs.get v).pooled <;> simp
  · obtain ⟨-, htype, hp⟩ := hkept.take ht
    refine ⟨fun hv hlive => ?_, htype⟩
    have := hlive.pooled.symm.trans (hp ((hkept.made v).1 hv))
    cases this
  · rw [outstanding, List.filter_eq_nil_iff]
    refine forall₂_congr fun v hv => ?_
    rw [hpool v hv]
    rcases hkept.agrees v ((hkept.made v).1 hv) with ⟨hp, huses, hr, -⟩ | ⟨hp, hneeded, -⟩
    · simp [hp, huses, hr]
    · rcases hneeded with hr | hu
      · simp [hp, hr]
      · simp [hp, hu]

/-- A temporary that is reserved, read beyond its last read and released is in the pool again. -/
theorem temporaries_are_pooled_or_live_released :
    ∃ vs pool, Reached vs pool ∧ pool.made = [⟨0⟩] ∧ (vs.get ⟨0⟩).pooled = true ∧
      InPool vs pool ⟨0⟩ := by
  have h₁ := Reached.start.done (c := .take ⟨7⟩ none) trivial rfl
  have h₂ := h₁.done (c := .reserve ⟨0⟩) (List.mem_singleton_self _) rfl
  have h₃ := h₂.done (c := .use ⟨0⟩) (List.mem_singleton_self _) rfl
  have h₄ := h₃.done (c := .use ⟨0⟩) (List.mem_singleton_self _) rfl
  have h₅ := h₄.done (c := .release ⟨0⟩) (List.mem_singleton_self _) rfl
  have hout := (temporaries_are_pooled_or_live h₅).2.2.2.2.2
  exact ⟨_, _, h₅, rfl, rfl, hout.1 rfl _ (List.mem_singleton_self _)⟩

end FlatHeap.Scratch
