import Mathlib.Logic.Relation
import Mathlib.Tactic
import FlatHeap.Host.Machine

/-!
# Steps of the host machine

A run is a bounded iteration of single steps.  Here a step is a relation between configurations, a
program counter with a machine, and a run is its closure; the bound only matters for the question
whether a run ends.  Steps are deterministic, so whatever is reached by steps lies on the run
(`Machine.runFrom_of_reaches`), and a run that halts consists of steps (`Machine.reaches_of_runFrom`).

For each instruction there is one lemma that says what it does to a machine on whose stack its
operands lie.
-/

namespace FlatHeap.Host.Machine

variable {image : Image} {pc pc' : UInt32} {m m' : Machine} {α : Type} {fuel : Nat}

abbrev Config := UInt32 × Machine

def Step (image : Image) (c c' : Config) : Prop :=
  c.1 ≠ haltAddress ∧ ∃ i, image.fetch? c.1 = some i ∧ execute image c.1 i c.2 = .ok c'.1 c'.2

abbrev Reaches (image : Image) : Config → Config → Prop := Relation.ReflTransGen (Step image)

lemma Step.deterministic {c c₁ c₂ : Config} (h₁ : Step image c c₁) (h₂ : Step image c c₂) :
    c₁ = c₂ := by
  obtain ⟨-, i, hi, he⟩ := h₁
  obtain ⟨-, j, hj, he'⟩ := h₂
  obtain rfl : i = j := Option.some.inj (hi.symm.trans hj)
  rw [he] at he'
  injection he' with hpc hm
  exact Prod.ext hpc hm

/-- Any number of instructions is executed, none of them at an address. -/
abbrev Approaches (image : Image) (a : UInt32) : Config → Config → Prop :=
  Relation.ReflTransGen fun c c' => c.1 ≠ a ∧ Step image c c'

def Fails (image : Image) (e : Fault) (c : Config) : Prop :=
  c.1 ≠ haltAddress ∧ ∃ i m, image.fetch? c.1 = some i ∧ execute image c.1 i c.2 = .error e m

/-! ## Runs -/

lemma get_run : (get : Run Machine) m = .ok m m := rfl

lemma throw_run (e : Fault) : (throw e : Run α) m = .error e m := rfl

lemma modify_run (f : Machine → Machine) : (modify f : Run Unit) m = .ok () (f m) := rfl

lemma runFrom_halt (h : m.stack = []) : runFrom image (fuel + 1) haltAddress m = .ok () m := by
  simp [runFrom, bind, EStateM.bind, get_run, h, pure,
    EStateM.pure]

lemma runFrom_step (h : Step image (pc, m) (pc', m')) :
    runFrom image (fuel + 1) pc m = runFrom image fuel pc' m' := by
  obtain ⟨hne, i, hi, he⟩ := h
  simp only at hne hi he
  simp [runFrom, hne, hi, bind, EStateM.bind, he]

/-- A run goes through everything that is reached from its start. -/
theorem runFrom_of_reaches {c c' : Config} (h : Reaches image c c') :
    ∃ n, ∀ fuel, runFrom image (n + fuel) c.1 c.2 = runFrom image fuel c'.1 c'.2 := by
  induction h using Relation.ReflTransGen.head_induction_on with
  | refl => exact ⟨0, fun fuel => by rw [Nat.zero_add]⟩
  | head hstep _ ih =>
    obtain ⟨n, hn⟩ := ih
    refine ⟨n + 1, fun fuel => ?_⟩
    rw [Nat.add_right_comm, runFrom_step hstep, hn]

/-- A run that ends consists of steps to the halting address. -/
theorem reaches_of_runFrom (h : runFrom image fuel pc m = .ok () m') :
    Reaches image (pc, m) (haltAddress, m') ∧ m'.stack = [] := by
  induction fuel generalizing pc m with
  | zero => simp [runFrom, throw_run] at h
  | succ fuel ih =>
    by_cases hpc : pc = haltAddress
    · subst hpc
      by_cases hs : m.stack = []
      · rw [runFrom_halt hs] at h
        injection h with _ hm
        exact hm ▸ ⟨.refl, hs⟩
      · have hl : m.stack.length ≠ 0 := by simpa using hs
        simp [runFrom, bind, EStateM.bind, get_run, hs, throw_run] at h
    · cases hi : image.fetch? pc with
      | none =>
        simp [runFrom, hpc, hi, throw_run] at h
      | some i =>
        cases he : execute image pc i m with
        | error e m₁ => simp [runFrom, hpc, hi, bind, EStateM.bind, he] at h
        | ok pc₁ m₁ =>
          have hstep : Step image (pc, m) (pc₁, m₁) := ⟨hpc, i, hi, he⟩
          rw [runFrom_step hstep] at h
          exact ⟨.head hstep (ih h).1, (ih h).2⟩

/-! ## Instructions -/

section Instructions

variable {x : UInt32} {v : Value} {u : Unit}

lemma pop_eq_ok_iff :
    pop m = .ok x m' ↔ m.stack = x :: m'.stack ∧ m' = { m with stack := m'.stack } := by
  rcases m with ⟨heap, _ | ⟨y, rest⟩, calls⟩ <;> rcases m' with ⟨heap', stack', calls'⟩ <;>
    simp [pop, bind, EStateM.bind, get_run, throw_run, modify_run, pure, EStateM.pure]
  grind

lemma read_eq_ok_iff : read x m = .ok v m' ↔ m.heap[x.toNat]? = some v ∧ m' = m := by
  cases h : m.heap[x.toNat]? <;>
    simp [read, bind, EStateM.bind, get_run, h, throw_run, pure, EStateM.pure, eq_comm]

lemma write_eq_ok_iff : write x v m = .ok u m' ↔
    x.toNat < m.heap.size ∧ m' = { m with heap := m.heap.setIfInBounds x.toNat v } := by
  by_cases h : x.toNat < m.heap.size <;>
    simp [write, bind, EStateM.bind, get_run, h, throw_run, modify_run, eq_comm]

lemma bind_eq_ok_iff {β : Type} {f : Run α} {g : α → Run β} {b : β} :
    (f >>= g) m = .ok b m' ↔ ∃ a m₁, f m = .ok a m₁ ∧ g a m₁ = .ok b m' := by
  simp only [bind, EStateM.bind]
  cases f m <;> simp

abbrev Holding (m : Machine) (indices : List UInt32) (values : List Value) : Prop :=
  List.Forall₂ (fun x v => m.heap[x.toNat]? = some v) indices values

lemma popValues_eq_ok_iff {n : Nat} {vs : List Value} : popValues n m = .ok vs m' ↔
    ∃ xs, xs.length = n ∧ m.stack = xs ++ m'.stack ∧ m.Holding xs vs ∧
      m' = { m with stack := m'.stack } := by
  induction n generalizing m m' vs with
  | zero =>
    simp only [popValues, List.length_eq_zero_iff, pure, EStateM.pure]
    constructor
    · intro h
      injection h with hv hm
      subst hv hm
      exact ⟨[], rfl, rfl, .nil, rfl⟩
    · rintro ⟨_, rfl, hs, ⟨⟩, hm⟩
      rw [List.nil_append] at hs
      rw [hm, ← hs]
  | succ n ih =>
    simp only [popValues, bind_eq_ok_iff, pop_eq_ok_iff, read_eq_ok_iff, ih, pure, EStateM.pure,
      EStateM.Result.ok.injEq]
    constructor
    · rintro ⟨x, m₁, ⟨hs, hm₁⟩, v, m₂, ⟨hv, hm₂⟩, ws, m₃, ⟨xs, hn, hs', hall, hm₃⟩, rfl, rfl⟩
      have hheap : m₂.heap = m.heap := by rw [hm₂, hm₁]
      rw [← hm₂] at hs hv
      refine ⟨x :: xs, by simp [hn], by rw [hs, hs', List.cons_append], .cons (hheap ▸ hv) ?_, ?_⟩
      · simpa only [Holding, hheap] using hall
      · rw [hm₃, hm₂, hm₁]
    · rintro ⟨_ | ⟨x, xs⟩, hn, hs, hall, hm⟩
      · simp at hn
      · obtain ⟨v, ws, hv, hws, rfl⟩ := List.forall₂_cons_left_iff.1 hall
        exact ⟨x, { m with stack := xs ++ m'.stack }, ⟨hs, rfl⟩, v, _, ⟨hv, rfl⟩, ws, m',
          ⟨xs, by simpa using hn, rfl, hws, hm⟩, rfl, rfl⟩

lemma copy_eq_ok_iff : copy image pc m = .ok u m' ↔
    ∃ t x rest slot v, m.stack = t :: x :: rest ∧ image.slots[t.toNat]? = some slot ∧
      m.heap[x.toNat]? = some v ∧ fits v slot.hostType = true ∧ t.toNat < m.heap.size ∧
      m' = { m with heap := m.heap.setIfInBounds t.toNat v, stack := rest } := by
  simp only [copy, bind_eq_ok_iff, pop_eq_ok_iff]
  constructor
  · rintro ⟨t, m₁, ⟨hs₁, hm₁⟩, x, m₂, ⟨hs₂, hm₂⟩, h⟩
    cases hslot : image.slots[t.toNat]? with
    | none => simp [hslot, throw_run] at h
    | some slot =>
      simp only [hslot, bind_eq_ok_iff, read_eq_ok_iff] at h
      obtain ⟨v, m₃, ⟨hv, rfl⟩, h⟩ := h
      split at h
      case isFalse => simp [throw_run] at h
      case isTrue hfit =>
        rw [write_eq_ok_iff] at h
        have hheap : m₃.heap = m.heap := by rw [hm₂, hm₁]
        refine ⟨t, x, m₃.stack, slot, v, by rw [hs₁, hs₂], hslot, hheap ▸ hv, hfit, hheap ▸ h.1, ?_⟩
        rw [h.2, hm₂, hm₁]
  · rintro ⟨t, x, rest, slot, v, hs, hslot, hv, hfit, ht, rfl⟩
    refine ⟨t, { m with stack := x :: rest }, ⟨hs, rfl⟩, x, { m with stack := rest }, ⟨rfl, rfl⟩, ?_⟩
    simp only [hslot, bind_eq_ok_iff, read_eq_ok_iff]
    refine ⟨v, _, ⟨hv, rfl⟩, ?_⟩
    rw [if_pos hfit, write_eq_ok_iff]
    exact ⟨ht, rfl⟩

/-- What a host operation finds and leaves: its signature, the slot of its result unless it has
none, the values of its arguments, the result. -/
structure Invocation (m : Machine) (slot : UInt32) where
  signature : String
  call : Signature.Call
  target : Option UInt32
  inputs : List UInt32
  rest : List UInt32
  values : List Value
  result : Value
  signature_eq : m.heap[slot.toNat]? = some (.text signature)
  call_eq : Signature.parse? signature = some call
  target_eq : target = none ↔ call.result = "SystemVoid"
  arity : inputs.length = call.arity
  stack_eq : m.stack = target.toList ++ (inputs ++ rest)
  holding : m.Holding inputs values
  evaluates : evaluate call.member values.reverse call.result = .ok result
  target_lt : ∀ t ∈ target, t.toNat < m.heap.size

def Invocation.after {slot : UInt32} (i : m.Invocation slot) : Machine where
  heap := i.target.elim m.heap fun t => m.heap.setIfInBounds t.toNat i.result
  stack := i.rest
  calls := i.signature :: m.calls

/-- The part of a host operation behind the choice of its result slot. -/
def answer (signature : String) (call : Signature.Call) (target : Option UInt32) : Run Unit := do
  let args ← popValues call.arity
  match evaluate call.member args.reverse call.result with
  | .error e => throw (.operation signature e)
  | .ok v =>
    if let some index := target then write index v
    modify fun m => { m with calls := signature :: m.calls }

lemma invoke_text {slot : UInt32} {signature : String} {call : Signature.Call}
    (hs : m.heap[slot.toNat]? = some (.text signature))
    (hc : Signature.parse? signature = some call) :
    invoke slot m = ((if call.result = "SystemVoid" then pure none else some <$> pop)
      >>= answer signature call) m := by
  have hread : read slot m = .ok (.text signature) m := read_eq_ok_iff.2 ⟨hs, rfl⟩
  simp only [invoke, bind, EStateM.bind, hread, hc]
  split_ifs <;> rfl

lemma answer_eq_ok_iff {signature : String} {call : Signature.Call} {target : Option UInt32} :
    answer signature call target m = .ok u m' ↔
      ∃ xs vs y, xs.length = call.arity ∧ m.stack = xs ++ m'.stack ∧ m.Holding xs vs ∧
        evaluate call.member vs.reverse call.result = .ok y ∧
        (∀ t ∈ target, t.toNat < m.heap.size) ∧
        m' = { m with
          heap := target.elim m.heap fun t => m.heap.setIfInBounds t.toNat y
          stack := m'.stack
          calls := signature :: m.calls } := by
  simp only [answer, bind_eq_ok_iff, popValues_eq_ok_iff]
  constructor
  · rintro ⟨vs, m₁, ⟨xs, hn, hs, hall, hm₁⟩, h⟩
    have hheap : m₁.heap = m.heap := by rw [hm₁]
    cases hy : evaluate call.member vs.reverse call.result with
    | error e => simp [hy, throw_run] at h
    | ok y =>
      simp only [hy] at h
      cases target with
      | none =>
        simp only [modify_run,
          EStateM.Result.ok.injEq] at h
        obtain ⟨-, rfl⟩ := h
        exact ⟨xs, vs, y, hn, hs, hall, hy, by simp, by rw [hm₁]; rfl⟩
      | some t =>
        simp only [bind_eq_ok_iff, write_eq_ok_iff, modify_run, EStateM.Result.ok.injEq] at h
        obtain ⟨-, m₂, ⟨ht, rfl⟩, -, rfl⟩ := h
        exact ⟨xs, vs, y, hn, hs, hall, hy, by simpa [hheap] using ht, by rw [hm₁]; rfl⟩
  · rintro ⟨xs, vs, y, hn, hs, hall, hy, ht, hm⟩
    refine ⟨vs, { m with stack := m'.stack }, ⟨xs, hn, hs, hall, rfl⟩, ?_⟩
    simp only [hy]
    cases target with
    | none => rw [hm]; rfl
    | some t =>
      simp only [bind_eq_ok_iff, write_eq_ok_iff]
      exact ⟨(), _, ⟨by simpa using ht, rfl⟩, by rw [hm]; rfl⟩

lemma invoke_eq_ok_iff {slot : UInt32} :
    invoke slot m = .ok u m' ↔ ∃ i : m.Invocation slot, m' = i.after := by
  constructor
  · intro h
    obtain ⟨signature, hs, call, hc⟩ : ∃ signature, m.heap[slot.toNat]? = some (.text signature) ∧
        ∃ call, Signature.parse? signature = some call := by
      simp only [invoke, bind_eq_ok_iff, read_eq_ok_iff] at h
      obtain ⟨content, _, ⟨hcontent, rfl⟩, h⟩ := h
      cases content with
      | text signature =>
        cases hcall : Signature.parse? signature with
        | none => simp [hcall, throw_run] at h
        | some call => exact ⟨signature, hcontent, call, hcall⟩
      | _ => simp [throw_run] at h
    rw [invoke_text hs hc, bind_eq_ok_iff] at h
    obtain ⟨target, m₁, hm₁, h⟩ := h
    obtain ⟨xs, vs, y, hn, hs', hall, hy, ht, hm'⟩ := answer_eq_ok_iff.1 h
    obtain ⟨htarget, hstack, hm₁⟩ : (target = none ↔ call.result = "SystemVoid") ∧
        m.stack = target.toList ++ m₁.stack ∧ m₁ = { m with stack := m₁.stack } := by
      split_ifs at hm₁ with hvoid
      · injection hm₁ with h₁ h₂
        subst h₁ h₂
        exact ⟨by simp [hvoid], rfl, rfl⟩
      · simp only [Functor.map, EStateM.map] at hm₁
        cases hp : pop m with
        | error e m₂ => simp [hp] at hm₁
        | ok t m₂ =>
          simp only [hp, EStateM.Result.ok.injEq] at hm₁
          obtain ⟨rfl, rfl⟩ := hm₁
          obtain ⟨h₁, h₂⟩ := pop_eq_ok_iff.1 hp
          exact ⟨by simp [hvoid], by simpa using h₁, h₂⟩
    have hheap : m₁.heap = m.heap := by rw [hm₁]
    refine ⟨⟨signature, call, target, xs, m'.stack, vs, y, hs, hc, htarget, hn, ?_, ?_, hy, ?_⟩, ?_⟩
    · rw [hstack, hs']
    · simpa only [Holding, hheap] using hall
    · simpa only [hheap] using ht
    · have hcalls : m₁.calls = m.calls := by rw [hm₁]
      exact hm'.trans (by simp only [Invocation.after, hheap, hcalls])
  · rintro ⟨i, rfl⟩
    rw [invoke_text i.signature_eq i.call_eq, bind_eq_ok_iff]
    refine ⟨i.target, { m with stack := i.inputs ++ i.rest }, ?_, answer_eq_ok_iff.2
      ⟨i.inputs, i.values, i.result, i.arity, rfl, i.holding, i.evaluates, i.target_lt, rfl⟩⟩
    have hstack := i.stack_eq
    cases ht : i.target with
    | none =>
      rw [ht, Option.toList_none, List.nil_append] at hstack
      rw [if_pos (i.target_eq.1 ht), ← hstack]
      rfl
    | some t =>
      rw [ht, Option.toList_some, List.singleton_append] at hstack
      have hp : pop m = .ok t { m with stack := i.inputs ++ i.rest } :=
        pop_eq_ok_iff.2 ⟨hstack, rfl⟩
      rw [if_neg fun hv => by simp [i.target_eq.2 hv] at ht]
      simp only [Functor.map, EStateM.map, hp]

def jumpTarget? : Value → Option UInt32
  | .address a => some a
  | .int .uint32 a => some (UInt32.ofBitVec a)
  | _ => none

lemma execute_push : execute image pc (.unary .push x) m =
    .ok (pc + 8) { m with stack := x :: m.stack } := rfl

lemma execute_nop : execute image pc (.bare .nop) m = .ok (pc + 4) m := rfl

lemma execute_remark : execute image pc (.unary .remark x) m = .ok (pc + 8) m := rfl

lemma execute_jump : execute image pc (.unary .jump x) m = .ok x m := rfl

lemma execute_pop_iff : execute image pc (.bare .pop) m = .ok pc' m' ↔
    pc' = pc + 4 ∧ ∃ y, m.stack = y :: m'.stack ∧ m' = { m with stack := m'.stack } := by
  have heq : execute image pc (.bare .pop) = (do discard pop; return pc + 4) := rfl
  simp only [heq, bind_eq_ok_iff, discard, Functor.mapConst, pure, EStateM.pure,
    EStateM.Result.ok.injEq]
  constructor
  · rintro ⟨_, m₁, hp, rfl, rfl⟩
    cases hp' : pop m with
    | error e m₂ => simp [Function.comp, EStateM.map, hp'] at hp
    | ok y m₂ =>
      simp only [Function.comp, EStateM.map, hp', EStateM.Result.ok.injEq] at hp
      exact ⟨rfl, y, hp.2 ▸ pop_eq_ok_iff.1 hp'⟩
  · rintro ⟨rfl, y, hy⟩
    exact ⟨(), m', by simp [Function.comp, EStateM.map, pop_eq_ok_iff.2 hy], rfl, rfl⟩

lemma execute_copy_iff : execute image pc (.bare .copy) m = .ok pc' m' ↔
    pc' = pc + 4 ∧ copy image pc m = .ok () m' := by
  have heq : execute image pc (.bare .copy) = (do copy image pc; return pc + 4) := rfl
  simp only [heq, bind_eq_ok_iff, pure, EStateM.pure, EStateM.Result.ok.injEq]
  constructor
  · rintro ⟨_, _, h, rfl, rfl⟩
    exact ⟨rfl, h⟩
  · rintro ⟨rfl, h⟩
    exact ⟨(), m', h, rfl, rfl⟩

lemma execute_copy_misfit {t : UInt32} {rest : List UInt32} {slot : HeapSlot}
    (hs : m.stack = t :: x :: rest) (hslot : image.slots[t.toNat]? = some slot)
    (hv : m.heap[x.toNat]? = some v) (hfit : fits v slot.hostType = false) :
    execute image pc (.bare .copy) m =
      .error (.misfit v slot.hostType slot.name pc) { m with stack := rest } := by
  have heq : execute image pc (.bare .copy) = (do copy image pc; return pc + 4) := rfl
  have hpop (m' : Machine) {y : UInt32} {l : List UInt32} (h : m'.stack = y :: l) :
      pop m' = .ok y { m' with stack := l } := pop_eq_ok_iff.2 ⟨h, rfl⟩
  have hread : read x { m with stack := rest } = .ok v { m with stack := rest } :=
    read_eq_ok_iff.2 ⟨hv, rfl⟩
  simp only [heq, copy, bind, EStateM.bind, hpop m hs, hpop { m with stack := x :: rest } rfl,
    hslot, hread, hfit, Bool.false_eq_true, if_false, throw_run]

lemma execute_invoke_iff : execute image pc (.unary .invoke x) m = .ok pc' m' ↔
    pc' = pc + 8 ∧ ∃ i : m.Invocation x, m' = i.after := by
  have heq : execute image pc (.unary .invoke x) = (do invoke x; return pc + 8) := rfl
  simp only [heq, bind_eq_ok_iff, invoke_eq_ok_iff, pure, EStateM.pure, EStateM.Result.ok.injEq]
  constructor
  · rintro ⟨_, _, ⟨i, rfl⟩, rfl, rfl⟩
    exact ⟨rfl, i, rfl⟩
  · rintro ⟨rfl, i, rfl⟩
    exact ⟨(), _, ⟨i, rfl⟩, rfl, rfl⟩

lemma execute_jumpIfFalse_iff : execute image pc (.unary .jumpIfFalse x) m = .ok pc' m' ↔
    ∃ y b, m.stack = y :: m'.stack ∧ m.heap[y.toNat]? = some (.bool b) ∧
      m' = { m with stack := m'.stack } ∧ pc' = if b then pc + 8 else x := by
  simp only [execute, Instruction.unary, bind_eq_ok_iff, pop_eq_ok_iff, read_eq_ok_iff]
  constructor
  · rintro ⟨y, m₁, ⟨hs, hm₁⟩, v, m₂, ⟨hv, hm₂⟩, h⟩
    have hheap : m₁.heap = m.heap := by rw [hm₁]
    cases v with
    | bool b =>
      simp only [pure, EStateM.pure, EStateM.Result.ok.injEq] at h
      obtain ⟨rfl, rfl⟩ := h
      rw [← hm₂] at hs hm₁ hv hheap
      exact ⟨y, b, hs, hheap ▸ hv, hm₁, rfl⟩
    | _ => simp [throw_run] at h
  · rintro ⟨y, b, hs, hv, hm, rfl⟩
    have hheap : m'.heap = m.heap := by rw [hm]
    exact ⟨y, m', ⟨hs, hm⟩, .bool b, m', ⟨hheap ▸ hv, rfl⟩, rfl⟩

lemma execute_jumpIndirect_iff : execute image pc (.unary .jumpIndirect x) m = .ok pc' m' ↔
    (∃ v, m.heap[x.toNat]? = some v ∧ jumpTarget? v = some pc') ∧ m' = m := by
  simp only [execute, Instruction.unary, bind_eq_ok_iff, read_eq_ok_iff, Option.getD_some]
  constructor
  · rintro ⟨v, m₁, ⟨hv, rfl⟩, h⟩
    refine ⟨⟨v, hv, ?_⟩, ?_⟩ <;> split at h <;>
      simp_all [pure, EStateM.pure, throw_run, jumpTarget?]
  · rintro ⟨⟨v, hv, ht⟩, rfl⟩
    refine ⟨v, _, ⟨hv, rfl⟩, ?_⟩
    unfold jumpTarget? at ht
    split at ht <;> simp_all [pure, EStateM.pure]

end Instructions

end FlatHeap.Host.Machine
