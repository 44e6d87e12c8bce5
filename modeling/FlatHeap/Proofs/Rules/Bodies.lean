import FlatHeap.Proofs.Bytecode.Offsets
import FlatHeap.Proofs.Lowering.Landing
import FlatHeap.Proofs.Rules.Dispatch

/-!
# Accounts of whole bodies

A body is lowered instruction by instruction.  Between two instructions the hand is the operand stack
and what has been lost so far, no operand stack waits behind the cursor, and exactly the labels of
offsets behind the cursor have been placed (`Frame.Resting`).  One instruction preserves this, and so
it holds along the whole course of a lowering (`Lower.Course.resting`), whatever the course is.

At the end of the body only its end is ahead, and after arrival there nothing is.  So a lowering that
ends well has placed every label of the method; and if nothing was lost on the way, no temporary is
left over.
-/

namespace FlatHeap

open Lower FlatHeap.Frame CompileError
open Bytecode (Instruction)

/-! ## What a lowering relies on -/

/-- The code of the method may be lowered from a position on. -/
structure MethodEnv.Prepared (env : MethodEnv) (start : Nat) : Prop where
  fits : env.naming.Fits env.md
  increasing : ∀ (j k : Nat) (a b : Instruction), env.code[j]? = some a → env.code[k]? = some b →
    j < k → a.offset < b.offset
  short : ∀ i ∈ env.code, i.offset < endOfBody
  targets : ∀ (k : Nat) (i : Instruction), start ≤ k → env.code[k]? = some i →
    ∀ t ∈ i.targets, ∃ l, (t, l) ∈ env.landings
  ahead : ∀ o, env.isTarget o = true → env.Ahead start o

namespace MethodEnv.Prepared

variable {env : MethodEnv} {start c k o : Nat} {i : Instruction}

lemma laid (h : env.Prepared start) : env.Laid := by
  refine ⟨h.increasing, fun e he => ?_⟩
  have htarget : env.isTarget e.2 = true := List.any_eq_true.2 ⟨e, he, by simp⟩
  refine (h.ahead e.2 htarget).2.imp_right ?_
  rintro ⟨k, i, -, hi⟩
  exact ⟨k, i, hi⟩

lemma not_ahead (h : env.Prepared start) (hi : env.code[k]? = some i) :
    ¬ env.Ahead (k + 1) i.offset := by
  rintro ⟨-, hend | ⟨k', i', hk', hi', hoff, -⟩⟩
  · exact absurd hend (h.short i (Array.mem_of_getElem? hi)).ne
  · exact absurd hoff (h.increasing k k' i i' hi hi' hk').ne'

lemma ahead_passing (h : env.Prepared start) (hn : env.nextLive? c = some k)
    (hi : env.code[k]? = some i) : env.Ahead (k + 1) o ↔ env.Ahead c o ∧ o ≠ i.offset := by
  have hpassed := h.not_ahead hi
  rw [ahead_iff hn hi]
  constructor
  · intro ha
    refine ⟨.inl ha, ?_⟩
    rintro rfl
    exact hpassed ha
  · rintro ⟨ha | ⟨-, rfl⟩, hne⟩
    · exact ha
    · exact absurd rfl hne

lemma ahead_end (hn : env.nextLive? c = none) (h : env.Ahead c o) : o = endOfBody := by
  rcases h.2 with hend | ⟨k, i, hk, hi, -, hlive⟩
  · exact hend
  · have hnone := List.findIdx?_eq_none_iff.1 (Option.map_eq_none_iff.1 hn)
    have hmem : i ∈ env.code.toList.drop c := by
      rw [List.mem_drop_iff_getElem]
      obtain ⟨hlt, rfl⟩ := Array.getElem?_eq_some_iff.1 hi
      exact ⟨k - c, by simp; omega, by simp [Nat.add_sub_cancel' hk]⟩
    exact absurd (hnone i hmem) (by simpa using hlive)

end MethodEnv.Prepared

/-! ## One instruction -/

namespace Frame

variable {env : MethodEnv} {start k : Nat} {i : Instruction} {s₀ s s' : Frame} {lost : List VarRef}

def taking (s : Frame) (k : Nat) : Frame := { s with cursor := k + 1, current := some k }

def atEnd (env : MethodEnv) (s : Frame) : Frame := { s with cursor := max s.cursor env.code.size }

/-- A frame between two instructions of a method whose lowering began in `s₀`. -/
structure Resting (env : MethodEnv) (start : Nat) (s₀ : Frame) (lost : List VarRef) (s : Frame) :
    Prop where
  balanced : s.Balanced env (s.stack ++ lost) []
  timely : s.Timely env
  landed : Landed env s₀ (env.Ahead s.cursor) s
  start_le : start ≤ s.cursor

/-- What is recorded for an instruction: the way into its offset, and then code whose branches carry
the entries below those that decide them. -/
structure Strides (env : MethodEnv) (i : Instruction) (s t s' : Frame) : Prop where
  into : ∃ trail, Trail env trail s t ∧ ∀ x ∈ trail, x.Into i.offset
  within : ∃ trail, Trail env trail t s' ∧ ∀ x ∈ trail, x.Within (carriedAt i t)

lemma Landed.passes (hp : env.Prepared start) (h : Landed env s₀ (env.Ahead s.cursor) s)
    (hn : env.nextLive? s.cursor = some k) (hi : env.code[k]? = some i)
    (hpass : Passes env i.offset (s.taking k) s') : Landed env s₀ (env.Ahead (k + 1)) s' := by
  have hmoved : Landed env s₀ (env.Ahead s.cursor) (s.taking k) :=
    h.grows (.of_draft rfl rfl fun _ => rfl)
  rcases hpass with ⟨ht, hlands⟩ | ⟨ht, g⟩
  · have ha : env.Ahead s.cursor i.offset := (ahead_iff hn hi).2 (.inr ⟨ht, rfl⟩)
    exact (hmoved.lands hlands ha).congr fun o => (hp.ahead_passing hn hi).symm
  · exact (hmoved.grows g).congr fun o => ahead_moveTo hn hi ht

end Frame

namespace Lower

variable {env : MethodEnv} {rules : Rulebook} {start k : Nat} {i : Instruction} {s₀ s s' : Frame}
  {lost : List VarRef}

/-- **Beginning an instruction** leaves what the rules rely on. -/
lemma beginning_meets (hp : env.Prepared start) (h : Resting env start s₀ lost s)
    (hn : env.nextLive? s.cursor = some k) (hi : env.code[k]? = some i) :
    Meets Any Harmless (beginInstruction i.offset) env (s.taking k) fun _ t =>
      Site env i t ∧ t.Balanced env (t.stack ++ lost) [] ∧ Landed env s₀ (env.Ahead t.cursor) t ∧
        t.cursor = k + 1 ∧ ∃ trail, Trail env trail (s.taking k) t ∧ ∀ x ∈ trail, x.Into i.offset := by
  have hmoved : (s.taking k).Balanced env ((s.taking k).stack ++ lost) [] :=
    h.balanced.of_eq rfl rfl rfl
  refine (beginInstruction_meets i.offset hmoved
    (arriving_moveTo h.timely hn hi (hp.not_ahead hi))).mono fun _ t _ ht => ?_
  obtain ⟨hpass, hb, htimely, hcursor, hcurrent, into, htrail, hinto⟩ := ht
  have hcursor : t.cursor = k + 1 := hcursor
  have hcurrent : t.current = some k := hcurrent
  have hk : start ≤ k := h.start_le.trans (nextLive?_spec hn).1
  exact ⟨⟨hp.laid, hp.fits, htimely, by simp [hcurrent], hp.targets k i hk hi⟩, hb,
    hcursor ▸ h.landed.passes hp hn hi hpass, hcursor, into, htrail, hinto⟩

/-- **One instruction** preserves what holds between instructions. -/
lemma lowerInstruction_meets (hrules : rules.IsStandard) (hp : env.Prepared start)
    (h : Resting env start s₀ lost s) (hn : env.nextLive? s.cursor = some k)
    (hi : env.code[k]? = some i) :
    Meets Any Harmless (lowerInstruction rules k i) env (s.taking k) fun _ s' =>
      ∃ t, beginInstruction i.offset env (s.taking k) = .ok () t ∧
        Resting env start s₀ (lostAt i t ++ lost) s' ∧ Strides env i s t s' := by
  unfold lowerInstruction
  refine ((beginning_meets hp h hn hi).running.locating fun e he => he.locate _ _).bind
    fun _ t _ ht => ?_
  obtain ⟨hrun, hsite, hb, hlanded, hcursor, into, htrail, hinto⟩ := ht
  have hk : start ≤ k := h.start_le.trans (nextLive?_spec hn).1
  refine ((dispatch_meets hrules hsite hb).keep.locating fun e he => he.locate _ _).bind
    fun _ t' _ ht' => ?_
  obtain ⟨g, hb'⟩ := ht'
  rw [meets_read_bind, meets_get_bind]
  refine meets_of_ok rfl trivial ⟨t, hrun, ⟨hb'.of_eq rfl rfl rfl,
    (g.timely hsite.timely).of_eq rfl rfl rfl, ?_, ?_⟩, ?_, ?_⟩
  · exact ((hlanded.grows g.toGrows).congr g.ahead).grows (.of_draft rfl rfl id)
  · have := g.cursor_le
    have : start ≤ t'.cursor := by omega
    exact this
  · have hmove : Aside env [] s (s.taking k) :=
      aside_of_draft rfl rfl rfl rfl ((nextLive?_spec hn).1.trans (Nat.le_succ k))
    exact ⟨_, .cons (.aside hmove) htrail, by simpa [Stretch.Into] using hinto⟩
  · obtain ⟨trail, htrail', hwithin⟩ := g.trail
    have hended : Aside env [] t' { t' with
        flowEnded := ((env.code[t'.current.getD k]?).map (·.opcode.endsFlow)).getD false } :=
      aside_of_draft rfl rfl rfl rfl le_rfl
    refine ⟨_, htrail'.append (Links.aside hended).trail, fun x hx => ?_⟩
    rcases List.mem_append.1 hx with hx | hx
    · exact hwithin x hx
    · rw [List.mem_singleton.1 hx]
      trivial

/-! ## The course of a lowering -/

/-- **The course of a lowering**: the frames between instructions, with what has been lost on the
way. -/
inductive Course (rules : Rulebook) (env : MethodEnv) (s₀ : Frame) : List VarRef → Frame → Prop
  | start : Course rules env s₀ [] s₀
  | step {lost : List VarRef} {s t s' : Frame} {k : Nat} {i : Instruction}
    (course : Course rules env s₀ lost s) (next : env.nextLive? s.cursor = some k)
    (inst : env.code[k]? = some i) (begun : beginInstruction i.offset env (s.taking k) = .ok () t)
    (lowered : lowerInstruction rules k i env (s.taking k) = .ok () s') :
    Course rules env s₀ (lostAt i t ++ lost) s'

lemma lowerInstruction_ok {t : Frame} (hrules : rules.IsStandard) (hp : env.Prepared start)
    (h : Resting env start s₀ lost s) (hn : env.nextLive? s.cursor = some k)
    (hi : env.code[k]? = some i) (begun : beginInstruction i.offset env (s.taking k) = .ok () t)
    (lowered : lowerInstruction rules k i env (s.taking k) = .ok () s') :
    Resting env start s₀ (lostAt i t ++ lost) s' ∧ Strides env i s t s' := by
  obtain ⟨-, t', begun', hrest⟩ := (lowerInstruction_meets hrules hp h hn hi).ok lowered
  rw [begun] at begun'
  cases begun'
  exact hrest

lemma Course.resting (hrules : rules.IsStandard) (hp : env.Prepared start)
    (h₀ : Resting env start s₀ [] s₀) (h : Course rules env s₀ lost s) :
    Resting env start s₀ lost s := by
  induction h with
  | start => exact h₀
  | step course next inst begun lowered ih =>
    exact (lowerInstruction_ok hrules hp ih next inst begun lowered).1

lemma begun_of_lowered (h : lowerInstruction rules k i env s = .ok () s') :
    ∃ t, beginInstruction i.offset env s = .ok () t := by
  cases hb : beginInstruction i.offset env s with
  | ok u t => exact ⟨t, rfl⟩
  | error e t =>
    have hl : locating (some i.offset) (beginInstruction i.offset) env s =
        .error (e.locate env.name (some i.offset)) t := by simp only [locating, hb]
    rw [lowerInstruction, bind_error hl] at h
    cases h

/-- The frame behind some more instructions, if they can be lowered. -/
def advance (rules : Rulebook) (env : MethodEnv) : Nat → Frame → Option Frame
  | 0, s => some s
  | n + 1, s =>
    match env.nextLive? s.cursor with
    | none => none
    | some k =>
      match env.code[k]? with
      | none => none
      | some i =>
        match lowerInstruction rules k i env (s.taking k) with
        | .ok () s' => advance rules env n s'
        | .error _ _ => none

lemma Course.advance {n : Nat} (h : Course rules env s₀ lost s)
    (hs : advance rules env n s = some s') : ∃ lost', Course rules env s₀ lost' s' := by
  induction n generalizing s lost with
  | zero =>
    obtain rfl := Option.some.inj hs
    exact ⟨lost, h⟩
  | succ n ih =>
    rw [Lower.advance] at hs
    split at hs
    · cases hs
    rename_i k hk
    split at hs
    · cases hs
    rename_i i hi
    split at hs
    · rename_i s₁ hrun
      obtain ⟨t, ht⟩ := begun_of_lowered hrun
      exact ih (.step h hk hi ht hrun) hs
    · cases hs

lemma next?_some (hn : env.nextLive? s.cursor = some k) : next? env s = .ok (some k) (s.taking k) := by
  have hpeek : peek? env s = .ok (some k) s := congrArg (EStateM.Result.ok · s) hn
  rw [next?, bind_ok hpeek]
  rfl

lemma next?_none (hn : env.nextLive? s.cursor = none) : next? env s = .ok none (s.atEnd env) := by
  have hpeek : peek? env s = .ok none s := congrArg (EStateM.Result.ok · s) hn
  rw [next?, bind_ok hpeek]
  rfl

/-- **A lowering that ends well** has run through all the code. -/
lemma lowerFrom_meets (hrules : rules.IsStandard) (hp : env.Prepared start)
    (h₀ : Resting env start s₀ [] s₀) (fuel : Nat) (h : Course rules env s₀ lost s) :
    Meets Any Harmless (lowerFrom rules fuel) env s fun _ s' =>
      ∃ lost' s₁, Course rules env s₀ lost' s₁ ∧ env.nextLive? s₁.cursor = none ∧
        s' = s₁.atEnd env := by
  induction fuel generalizing s lost with
  | zero => exact meets_breach (harmless_invariant rfl)
  | succ fuel ih =>
    rw [lowerFrom]
    cases hn : env.nextLive? s.cursor with
    | none =>
      refine (meets_of_ok (next?_none hn) trivial
        (Q := fun k s' => k = none ∧ s' = s.atEnd env) ⟨rfl, rfl⟩).bind fun _ s₁ _ h₁ => ?_
      obtain ⟨rfl, rfl⟩ := h₁
      exact meets_of_ok rfl trivial ⟨lost, s, h, hn, rfl⟩
    | some k =>
      obtain ⟨i, hi, -⟩ := (nextLive?_spec hn).2.1
      refine (meets_of_ok (next?_some hn) trivial
        (Q := fun k' s' => k' = some k ∧ s' = s.taking k) ⟨rfl, rfl⟩).bind fun _ s₁ _ h₁ => ?_
      obtain ⟨rfl, rfl⟩ := h₁
      rw [meets_read_bind]
      simp only [hi]
      refine (lowerInstruction_meets hrules hp (h.resting hrules hp h₀) hn hi).running.bind
        fun _ s₁ _ h₁ => ?_
      obtain ⟨hrun, t, hbegun, -⟩ := h₁
      exact ih (.step h hn hi hbegun hrun)

end Lower

end FlatHeap
