import FlatHeap.Proofs.Rules.Stores
import FlatHeap.Proofs.Rules.Uses

/-!
# Jumps by a table

The code of a jump by a table is a chain of tests, one for each entry, and each test first hands the
operand stack over to the merge slots of its entry.  When the code is executed, control goes where the
first test that finds no difference goes, and behind the last test if there is none (`Rules.Tests.goes`).
Positions are compared in their order, so this is the entry that the selector counts to.  A selector that
is a constant makes the same choice when the code is made.

The code of a test runs whether or not it jumps, and with it the moves into the merge slots.  Their
copies are checked, so control comes to the next test only if the entries of the operand stack have
values in the types of the slots (`Frame.Fitting`).  Slots have the types of the entries that came first.
-/

namespace FlatHeap

open Lower FlatHeap.Frame Host.Machine Relation CompileError
open Bytecode (Instruction)

variable {target : Nat} {slots : List VarRef} {carry : List Piece}

namespace Frame

variable {env : MethodEnv} {P : Placed env.toClassEnv} {m : Host.Machine} {s s₁ s' : Frame}
  {entries : List VarRef} {targets : List Nat} {σ τ : Store} {goal : Option Nat}

/-- **Where control goes** from behind the code of a frame: to the label of an offset, or on behind the
code of another frame, where the operand stack holds what it held. -/
inductive Goes (P : Placed env.toClassEnv) (entries : List VarRef) (σ : Store) (s s' : Frame) :
    Option Nat → Prop
  | away {target : Nat} {l : Label} {j : Nat} {τ : Store} (label : (env.landing target, l) ∈ s'.labels)
    (mark : P.ops[j]? = some (.mark l))
    (moves : ∀ stack, ReflTransGen P.Moves ⟨s.position, σ, stack⟩ ⟨j, τ, stack⟩) :
    Goes P entries σ s s' (some target)
  | on {τ : Store}
    (moves : ∀ stack, ReflTransGen P.Moves ⟨s.position, σ, stack⟩ ⟨s'.position, τ, stack⟩)
    (keeps : ∀ v ∈ entries, τ v = σ v) : Goes P entries σ s s' none

/-- The entries have values in the merge slots of the targets. -/
def Fitting (P : Placed env.toClassEnv) (σ : Store) (entries : List VarRef) (targets : List Nat)
    (s : Frame) : Prop :=
  ∀ target ∈ targets, ∀ slots, s.merges.lookup (env.landing target) = some slots →
    ∃ y, Valued P σ (entries.zip slots) y

lemma Goes.after (h : Goes P entries τ s₁ s' goal)
    (hmoves : ∀ stack, ReflTransGen P.Moves ⟨s.position, σ, stack⟩ ⟨s₁.position, τ, stack⟩)
    (hkeeps : ∀ v ∈ entries, τ v = σ v) : Goes P entries σ s s' goal := by
  cases h with
  | away label mark moves => exact .away label mark fun stack => (hmoves stack).trans (moves stack)
  | on moves keeps =>
    exact .on (fun stack => (hmoves stack).trans (moves stack)) fun v hv =>
      (keeps v hv).trans (hkeeps v hv)

lemma Valued.congr {pairs : List (VarRef × VarRef)} {y : VarRef → Value} (h : Valued P σ pairs y)
    (hs : ∀ p ∈ pairs, τ p.1 = σ p.1) : Valued P τ pairs y := by
  intro p hp hne
  rw [hs p hp]
  exact h p hp hne

lemma Fitting.congr (h : Fitting P σ entries targets s) (hs : ∀ v ∈ entries, τ v = σ v) :
    Fitting P τ entries targets s := by
  intro target ht slots hslots
  obtain ⟨y, hy⟩ := h target ht slots hslots
  exact ⟨y, hy.congr fun p hp => hs p.1 (List.of_mem_zip hp).1⟩

lemma Fitting.valued {needs : List VarRef} (h : Fitting P σ entries targets s')
    (ht : target ∈ targets)
    (hands : HandsOver env (env.landing target) needs entries slots carry s s₁)
    (hwaits : ∀ o slots, s₁.merges.lookup o = some slots → s'.merges.lookup o = some slots) :
    ∃ y, Valued P σ (entries.zip slots) y := by
  by_cases hne : entries = []
  · subst hne
    exact ⟨fun _ => .null, by simp [Valued]⟩
  · exact h target ht slots (hwaits _ _ (hands.waits hne))

lemma HandsOver.waits_later {needs : List VarRef}
    (h : HandsOver env target needs entries slots carry s s') (o : Nat) (slots' : List VarRef)
    (ho : s.merges.lookup o = some slots') : s'.merges.lookup o = some slots' := by
  rcases h.merges with heq | ⟨hnone, heq⟩
  · rw [heq, ho]
  · have hne : o ≠ target := by
      rintro rfl
      rw [hnone] at ho
      cases ho
    rw [heq, List.lookup_cons, beq_false_of_ne hne, ho]

end Frame

namespace Rules

variable {env : MethodEnv} {P : Placed env.toClassEnv} {s s₁ s' : Frame} {held : List VarRef}
  {v selector : VarRef} {i : Instruction} {targets : List Nat} {cases : List (Nat × Nat)}
  {σ : Store} {y : Value} {w : Int}

def chosen (targets : List Nat) (w : Int) : Option Nat := w.toNat?.bind (targets[·]?)

/-- The entry that a chain of tests finds.  Positions are compared as integers of 32 bits. -/
def found (cases : List (Nat × Nat)) (w : Int) : Option Nat :=
  (cases.find? fun c => w = IntKind.int32.format.wrap c.2).map Prod.fst

lemma Tests.later (h : Tests env selector held cases s s') :
    (∃ ps, s.draft.Continues env s'.draft ps) ∧ (∀ e ∈ s.labels, e ∈ s'.labels) ∧
      ∀ o slots, s.merges.lookup o = some slots → s'.merges.lookup o = some slots := by
  induction h with
  | done => exact ⟨⟨[], .refl env _⟩, fun _ => id, fun _ _ => id⟩
  | test _ _ _ _ compares _ hands _ _ leaves _ ih =>
    obtain ⟨c, -, hrec⟩ := compares
    obtain ⟨⟨ps, hps⟩, hlabels, hwaits⟩ := ih
    refine ⟨⟨_, hrec.code.trans (hands.continues.trans (leaves.code.trans hps))⟩, fun e he => ?_,
      fun o slots ho => ?_⟩
    · apply hlabels
      rw [leaves.rest]
      apply hands.keepLabels
      rw [hrec.rest]
      exact he
    · apply hwaits
      rw [leaves.rest]
      apply hands.waits_later
      rw [hrec.rest]
      exact ho

/-- **A chain of tests** goes where the first test goes that finds no difference. -/
lemma Tests.goes (h : Tests env selector held cases s s') (hmd : env.md.Built) (hP : P.Completes s')
    (hσ : Store.Agrees P.draft.vars σ) (hsel : cases ≠ [] → σ selector = y)
    (hw : y.integer? = some w)
    (hfit : Fitting P σ s.stack (cases.map Prod.fst) s') :
    Goes P s.stack σ s s' (found cases w) := by
  induction h generalizing σ with
  | done => exact .on (fun _ => .refl) fun _ _ => rfl
  | @test target k rest c differs l x slots others carry s s₁ s₂ s₃ s' reads balanced value const
      compares fresh hands stack label leaves further ih =>
    obtain ⟨⟨ps, hps⟩, hlabels, hwaits⟩ := further.later
    have hP₃ := hP.sooner hps
    have hP₂ := hP₃.sooner leaves.code
    have hP₁ := hP₂.sooner hands.continues
    have hmerges : s₃.merges = s₂.merges := by rw [leaves.rest]
    have hstack₃ : s₃.stack = s.stack := by rw [leaves.rest, ← stack]
    -- the comparison
    obtain rfl : x = .ofInt .int32 k := by
      rw [show env.md.integerValue? .int32 k = _ from Scalar.integerValue?_type hmd (.int .int32) k]
        at value
      exact (Option.some.inj value).symm
    have hcompare : Turns env (fun σ => σ selector = y)
        (s.Keeps (selector :: (others ++ (s.stack ++ held)))) s s₁ differs
        (.bool (decide (w ≠ IntKind.int32.format.wrap k))) :=
      turns_invoke compares fresh.isTemp fresh.ne (Scalar.parse?_binary (.int .int32) .boolean (by decide))
        rfl (Scalar.hostType_ne_void .boolean) fun K σ hK ha hσ => by
          simp only [List.map_cons, List.map_nil, hσ, ha.const (const.grows hK)]
          refine Scalar.evaluate_inequality hw ?_
          rw [Value.ofInt, Value.integer?_int, IntKind.toInt_ofInt]
    obtain ⟨τ₁, hleads, hdiffers, hkeep₁⟩ := hcompare P.draft.vars σ hP₁.vars hσ (hsel (by simp))
    have hkept₁ (z : VarRef) (hz : z ∈ others ++ (s.stack ++ held)) : τ₁ z = σ z :=
      have hmem : z ∈ selector :: (others ++ (s.stack ++ held)) := List.mem_cons_of_mem _ hz
      hkeep₁.needed z (keeps_of_mem (balanced.usable_hand hmem).1 hmem)
    -- the moves into the merge slots
    have hfit₁ : Fitting P τ₁ s.stack (target :: rest.map Prod.fst) s' :=
      hfit.congr fun v hv => hkept₁ v (by simp [hv])
    obtain ⟨values, hvalued⟩ := hfit₁.valued (by simp) hands (hmerges ▸ hwaits)
    obtain ⟨τ₂, hmoves, -, hkeep₂⟩ := hands.moves hmd hP₂ (hkeep₁.agrees hσ) hvalued
    have hkept₂ (z : VarRef) (hz : z ∈ others ++ (s.stack ++ held)) : τ₂ z = σ z := by
      refine (hkeep₂.needed z ?_).trans (hkept₁ z hz)
      rw [stack]
      simp only [List.mem_append, List.mem_cons] at hz ⊢
      tauto
    have htest : τ₂ differs = .bool (decide (w ≠ IntKind.int32.format.wrap k)) :=
      (hkeep₂.needed differs (.inr List.mem_cons_self)).trans hdiffers
    have hmoves₂ (st : List VarRef) : ReflTransGen P.Moves ⟨s.position, σ, st⟩ ⟨s₂.position, τ₂, st⟩ :=
      (hleads.moves hP₁ st).trans (hmoves st)
    have hexits := leaves.exits (.inr ⟨differs, rfl⟩) hP₃ (σ := τ₂)
    by_cases hwk : w = IntKind.int32.format.wrap k
    · obtain ⟨j, hj⟩ : ∃ j : Nat, P.ops[j]? = some (.mark l) := by
        obtain ⟨behind, hops⟩ := hP₃.code
        have hmem : Op.jumpIfFalse l ∈ P.ops := by
          rw [hops, leaves.code.ops]
          simp [Piece.ops]
        exact Placed.exists_mark hmem (.inr rfl)
      have hlabel : (env.landing target, l) ∈ s'.labels := by
        apply hlabels
        rw [leaves.rest]
        exact label
      have hgoal : found ((target, k) :: rest) w = some target := by simp [found, hwk]
      rw [hgoal]
      refine .away hlabel hj fun st => (hmoves₂ st).trans ((hexits st).1 ?_ j hj)
      simpa [Piece.Jumps, hwk] using htest
    · have hgoal : found ((target, k) :: rest) w = found rest w := by simp [found, hwk]
      rw [hgoal]
      have hpass (st : List VarRef) : ReflTransGen P.Moves ⟨s₂.position, τ₂, st⟩ ⟨s₃.position, τ₂, st⟩ :=
        (hexits st).2 (by simpa [Piece.Holds, hwk] using htest)
      have hagree : Store.Agrees P.draft.vars τ₂ := hkeep₂.agrees (hkeep₁.agrees hσ)
      have hrest := ih hP hagree (fun hne => ?_) ?_
      · rw [hstack₃] at hrest
        exact hrest.after (fun st => (hmoves₂ st).trans (hpass st)) fun v hv => hkept₂ v (by simp [hv])
      · have hpos : rest.length ≠ 0 := mt List.length_eq_zero_iff.1 hne
        exact (hkept₂ selector (by simp [reads, hpos])).trans (hsel (by simp))
      · rw [hstack₃]
        intro t ht
        exact (hfit.congr fun v hv => hkept₂ v (by simp [hv])) t (List.mem_cons_of_mem _ ht)

/-! ## Whole tables -/

end Rules

end FlatHeap
