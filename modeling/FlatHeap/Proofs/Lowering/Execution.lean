import FlatHeap.Proofs.Lowering.Pieces
import FlatHeap.Proofs.Lowering.Placement

/-!
# Execution in terms of the draft

The machine works on addresses and heap indices; what it does is better said in terms of the draft,
with positions of operations, variables and their contents.  `Placed.Moves` is that description, one
constructor for each thing an operation can do, and `Placed.Shows` relates its states to the
machine's configurations.  The machine follows every move (`Placed.Moves.follow`), where an operation
that has no instruction takes no step.

On top of it, `Runs` executes pieces.  It needs no addresses and no stack, since a piece leaves the
stack alone, so facts about recorded code are proved with it before anything is laid out;
`Placed.moves_of_runs` carries them over.
-/

namespace FlatHeap

open Function Host.Machine

variable {k : Nat} {pre post : List Op}

abbrev Store := VarRef → Value

/-- A point of an execution: the next operation, the contents of the variables and the stack. -/
structure ExecState where
  position : Nat
  store : Store
  stack : List VarRef

namespace Op

def isIdle : Op → Bool
  | nop | remark _ | mark _ | source _ _ | entry _ => true
  | _ => false

end Op

namespace Placed

variable {env : ClassEnv} (P : Placed env)

def address (i : Nat) : Nat := Op.totalSize (P.ops.take i)

inductive Moves : ExecState → ExecState → Prop
  | push {i σ stack v} (op : P.ops[i]? = some (.push v)) :
    Moves ⟨i, σ, stack⟩ ⟨i + 1, σ, v :: stack⟩
  | pop {i σ stack v} (op : P.ops[i]? = some .pop) :
    Moves ⟨i, σ, v :: stack⟩ ⟨i + 1, σ, stack⟩
  | copy {i σ stack x y} (op : P.ops[i]? = some .copy) (fit : fits (σ x) (P.hostType y) = true) :
    Moves ⟨i, σ, y :: x :: stack⟩ ⟨i + 1, update σ y (σ x), stack⟩
  | invoke {i σ stack c signature call inputs target y} (op : P.ops[i]? = some (.invoke c))
    (named : σ c = .text signature) (parsed : Host.Signature.parse? signature = some call)
    (arity : inputs.length = call.arity) (result : target = none ↔ call.result = "SystemVoid")
    (value : Host.evaluate call.member (inputs.map σ).reverse call.result = .ok y) :
    Moves ⟨i, σ, target.toList ++ (inputs ++ stack)⟩
      ⟨i + 1, target.elim σ (update σ · y), stack⟩
  | jump {i j σ stack l} (op : P.ops[i]? = some (.jump l)) (goal : P.ops[j]? = some (.mark l)) :
    Moves ⟨i, σ, stack⟩ ⟨j, σ, stack⟩
  | pass {i σ stack x l} (op : P.ops[i]? = some (.jumpIfFalse l)) (holds : σ x = .bool true) :
    Moves ⟨i, σ, x :: stack⟩ ⟨i + 1, σ, stack⟩
  | skip {i j σ stack x l} (op : P.ops[i]? = some (.jumpIfFalse l)) (goal : P.ops[j]? = some (.mark l))
    (fails : σ x = .bool false) : Moves ⟨i, σ, x :: stack⟩ ⟨j, σ, stack⟩
  | leave {i j σ stack v a} (op : P.ops[i]? = some (.jumpIndirect v))
    (target : jumpTarget? (σ v) = some a) (le : j ≤ P.ops.length) (goal : a.toNat = P.address j) :
    Moves ⟨i, σ, stack⟩ ⟨j, σ, stack⟩
  | idle {i σ stack op} (op_eq : P.ops[i]? = some op) (isIdle : op.isIdle = true) :
    Moves ⟨i, σ, stack⟩ ⟨i + 1, σ, stack⟩

/-- The configuration of the machine shows a point of an execution. -/
structure Shows (s : ExecState) (c : Config) : Prop where
  pc : c.1.toNat = P.address s.position
  position_le : s.position ≤ P.ops.length
  stack : c.2.stack = s.stack.map P.index
  stacked : ∀ v ∈ s.stack, v ∈ P.order
  size : c.2.heap.size = P.program.heap.length
  heap : ∀ v ∈ P.order, c.2.heap[(P.index v).toNat]? = some (s.store v)

section Following

variable {P} {i j : Nat} {op : Op} {s s' : ExecState} {c : Config} {σ : Store}

lemma split_at (h : P.ops[i]? = some op) : P.ops = P.ops.take i ++ op :: P.ops.drop (i + 1) := by
  obtain ⟨hi, rfl⟩ := List.getElem?_eq_some_iff.1 h
  rw [List.getElem_cons_drop, List.take_append_drop]

lemma address_succ (h : P.ops[i]? = some op) : P.address (i + 1) = P.address i + op.size := by
  obtain ⟨hi, rfl⟩ := List.getElem?_eq_some_iff.1 h
  rw [address, address, List.take_succ_eq_append_getElem hi, Op.totalSize_append]
  simp

lemma address_lt (i : Nat) : P.address i < 2 ^ 32 := by
  have hle := P.totalSize_le (List.take_append_drop i P.ops).symm
  have hhalt : Host.haltAddress.toNat < 2 ^ 32 := by decide
  simp only [address]
  omega

lemma toNat_next {pc n : UInt32} (hpc : pc.toNat = P.address i) (h : P.ops[i]? = some op)
    (hn : n.toNat = op.size) : (pc + n).toNat = P.address (i + 1) := by
  have hlt := P.address_lt (i + 1)
  rw [address_succ h] at hlt ⊢
  rw [UInt32.toNat_add, hpc, hn]
  exact Nat.mod_eq_of_lt hlt

lemma resolve_mark {l : Label} (h : P.ops[j]? = some (.mark l)) :
    Draft.resolve P.labels l = .ok (P.address j) :=
  P.resolve_iff.2 ⟨_, _, split_at h, rfl⟩

lemma toNat_address_ofNat (j : Nat) : (UInt32.ofNat (P.address j)).toNat = P.address j :=
  P.toNat_address (List.take_append_drop j P.ops).symm

lemma Shows.fetch (h : P.Shows s c) (hop : P.ops[s.position]? = some op) {i : Host.Instruction}
    (hi : Draft.instruction? P.order P.labels op = .ok (some i)) :
    c.1 ≠ Host.haltAddress ∧ P.image.fetch? c.1 = some i := by
  obtain ⟨hfetch, hhalt⟩ := P.fetch (split_at hop) hi
  have hpc : UInt32.ofNat (Op.totalSize (P.ops.take s.position)) = c.1 := by
    apply UInt32.toNat_inj.1
    rw [h.pc]
    exact toNat_address_ofNat s.position
  rw [hpc] at hfetch hhalt
  exact ⟨hhalt, hfetch⟩

/-- What executing the operation at a position may be for the machine: one step, unless the operation
has no instruction. -/
def Steps (P : Placed env) (i : Nat) (c c' : Config) : Prop :=
  c' = c ∨ P.address i < P.address (i + 1) ∧ Step P.image c c'

lemma Shows.steps (h : P.Shows s c) (hop : P.ops[s.position]? = some op) {i : Host.Instruction}
    (hi : Draft.instruction? P.order P.labels op = .ok (some i)) {pc' : UInt32} {m' : Host.Machine}
    (he : execute P.image c.1 i c.2 = .ok pc' m') : P.Steps s.position c (pc', m') := by
  obtain ⟨hhalt, hfetch⟩ := h.fetch hop hi
  refine .inr ⟨?_, hhalt, i, hfetch, he⟩
  rw [address_succ hop]
  cases op with
  | mark | source | entry => cases hi
  | _ => simp [Op.size]

lemma position_lt (h : P.ops[i]? = some op) : i < P.ops.length :=
  (List.getElem?_eq_some_iff.1 h).1

lemma mem_ops (h : P.ops[i]? = some op) : op ∈ P.ops := List.mem_of_getElem? h

lemma heap_update {heap : Array Value} {y : VarRef} {x : Value}
    (hsize : heap.size = P.program.heap.length) (hy : y ∈ P.order)
    (h : ∀ v ∈ P.order, heap[(P.index v).toNat]? = some (σ v)) :
    ∀ v ∈ P.order, (heap.setIfInBounds (P.index y).toNat x)[(P.index v).toNat]? =
      some (update σ y x v) := by
  intro v hv
  by_cases hvy : v = y
  · subst hvy
    have := index_lt hv
    simp [hsize, this]
  · have hne : (P.index y).toNat ≠ (P.index v).toNat := fun heq =>
      hvy (index_inj hv hy (UInt32.toNat_inj.1 heq.symm))
    rw [Array.getElem?_setIfInBounds_ne hne, h v hv, update_of_ne hvy]

/-! The instructions of operations that refer to variables or labels. -/

variable {v : VarRef} {l : Label}

lemma instruction?_push (hv : v ∈ P.order) :
    Draft.instruction? P.order P.labels (.push v) = .ok (some (.unary .push (P.index v))) := by
  rw [Draft.instruction?, heapIndex_eq hv]
  rfl

lemma instruction?_invoke (hv : v ∈ P.order) :
    Draft.instruction? P.order P.labels (.invoke v) = .ok (some (.unary .invoke (P.index v))) := by
  rw [Draft.instruction?, heapIndex_eq hv]
  rfl

lemma instruction?_remark (hv : v ∈ P.order) :
    Draft.instruction? P.order P.labels (.remark v) = .ok (some (.unary .remark (P.index v))) := by
  rw [Draft.instruction?, heapIndex_eq hv]
  rfl

lemma instruction?_jumpIndirect (hv : v ∈ P.order) :
    Draft.instruction? P.order P.labels (.jumpIndirect v) =
      .ok (some (.unary .jumpIndirect (P.index v))) := by
  rw [Draft.instruction?, heapIndex_eq hv]
  rfl

lemma instruction?_jump (h : P.ops[j]? = some (.mark l)) :
    Draft.instruction? P.order P.labels (.jump l) =
      .ok (some (.unary .jump (UInt32.ofNat (P.address j)))) := by
  rw [Draft.instruction?, resolve_mark h]
  rfl

lemma instruction?_jumpIfFalse (h : P.ops[j]? = some (.mark l)) :
    Draft.instruction? P.order P.labels (.jumpIfFalse l) =
      .ok (some (.unary .jumpIfFalse (UInt32.ofNat (P.address j)))) := by
  rw [Draft.instruction?, resolve_mark h]
  rfl

lemma exists_mark (h : op ∈ P.ops) (hl : op = .jump l ∨ op = .jumpIfFalse l) :
    ∃ j : Nat, P.ops[j]? = some (.mark l) := by
  obtain ⟨pre, post, hsplit⟩ := List.append_of_mem h
  obtain ⟨i, -, -, hi, -⟩ := P.code_split hsplit
  have hres : ∃ a, Draft.resolve P.labels l = .ok a := by
    rcases hl with rfl | rfl <;> simp only [Draft.instruction?, except_bind_eq_ok_iff] at hi <;>
      exact ⟨_, hi.choose_spec.1⟩
  obtain ⟨a, ha⟩ := hres
  obtain ⟨pre, post, hops, -⟩ := P.resolve_iff.1 ha
  exact ⟨pre.length, by simp [hops]⟩

lemma follow_idle {stack : List VarRef} (h : P.Shows ⟨i, σ, stack⟩ c) (hop : P.ops[i]? = some op)
    (hidle : op.isIdle = true) : ∃ c', P.Steps i c c' ∧ P.Shows ⟨i + 1, σ, stack⟩ c' := by
  obtain ⟨hpc, hle, hstack, hstacked, hsize, hheap⟩ := h
  have h : P.Shows ⟨i, σ, stack⟩ c := ⟨hpc, hle, hstack, hstacked, hsize, hheap⟩
  have hnext := address_succ hop
  cases op with
  | nop =>
    exact ⟨_, h.steps hop rfl execute_nop, toNat_next hpc hop rfl, position_lt hop,
      hstack, hstacked, hsize, hheap⟩
  | remark v =>
    have hv : v ∈ P.order := mem_order (mem_ops hop) rfl
    exact ⟨_, h.steps hop (instruction?_remark hv) execute_remark, toNat_next hpc hop rfl,
      position_lt hop, hstack, hstacked, hsize, hheap⟩
  | mark | source | entry =>
    -- no instruction, and the next operation has the same address
    exact ⟨c, .inl rfl, hpc.trans hnext.symm, position_lt hop, hstack, hstacked, hsize, hheap⟩
  | _ => simp [Op.isIdle] at hidle

/-- **Following a move.** -/
theorem Moves.follow (hm : P.Moves s s') (h : P.Shows s c) :
    ∃ c', P.Steps s.position c c' ∧ P.Shows s' c' := by
  obtain ⟨hpc, hle, hstack, hstacked, hsize, hheap⟩ := h
  have h : P.Shows s c := ⟨hpc, hle, hstack, hstacked, hsize, hheap⟩
  obtain ⟨pc, m⟩ := c
  cases hm with
  | @push i σ stack v op =>
    have hv : v ∈ P.order := mem_order (mem_ops op) rfl
    refine ⟨_, h.steps op (instruction?_push hv) execute_push, toNat_next hpc op rfl,
      position_lt op, ?_, ?_, hsize, hheap⟩
    · simpa using hstack
    · simpa [hv] using hstacked
  | @pop i σ stack v op =>
    have he : execute P.image pc (.bare .pop) m = .ok (pc + 4) { m with stack := stack.map P.index } :=
      execute_pop_iff.2 ⟨rfl, P.index v, hstack, rfl⟩
    exact ⟨_, h.steps op rfl he, toNat_next hpc op rfl, position_lt op, rfl,
      fun w hw => hstacked w (List.mem_cons_of_mem v hw), hsize, hheap⟩
  | @copy i σ stack x y op fit =>
    have hx : x ∈ P.order := hstacked x (by simp)
    have hy : y ∈ P.order := hstacked y (by simp)
    obtain ⟨slot, hslot, hmade⟩ := slot_eq hy
    have htype : slot.hostType = P.hostType y := hmade.hostType
    have he : execute P.image pc (.bare .copy) m = .ok (pc + 4)
        { m with
          heap := m.heap.setIfInBounds (P.index y).toNat (σ x), stack := stack.map P.index } :=
      execute_copy_iff.2 ⟨rfl, copy_eq_ok_iff.2 ⟨P.index y, P.index x, stack.map P.index, slot, σ x,
        hstack, hslot, hheap x hx, htype ▸ fit, hsize ▸ index_lt hy, rfl⟩⟩
    exact ⟨_, h.steps op rfl he, toNat_next hpc op rfl, position_lt op, rfl,
      fun w hw => hstacked w (by simp [hw]), by simpa using hsize, heap_update hsize hy hheap⟩
  | @invoke i σ stack c signature call inputs target y op named parsed arity result value =>
    have hc : c ∈ P.order := mem_order (mem_ops op) rfl
    have hins : ∀ v ∈ inputs, v ∈ P.order := fun v hv => hstacked v (by simp [hv])
    have htarget : ∀ t ∈ target, t ∈ P.order := fun t ht => hstacked t (by simp [Option.mem_toList.2 ht])
    let inv : m.Invocation (P.index c) :=
      { signature, call, target := target.map P.index, inputs := inputs.map P.index
        rest := stack.map P.index, values := inputs.map σ, result := y
        signature_eq := by rw [← named]; exact hheap c hc
        call_eq := parsed
        target_eq := by simpa using result
        arity := by simpa using arity
        stack_eq := by rw [hstack]; cases target <;> simp
        holding := by
          rw [Holding, List.forall₂_map_left_iff, List.forall₂_map_right_iff, List.forall₂_same]
          exact fun v hv => hheap v (hins v hv)
        evaluates := value
        target_lt := by
          rintro _ ht
          obtain ⟨t, ht', rfl⟩ := Option.mem_map.1 ht
          exact hsize ▸ index_lt (htarget t ht') }
    have he : execute P.image pc (.unary .invoke (P.index c)) m = .ok (pc + 8) inv.after :=
      execute_invoke_iff.2 ⟨rfl, inv, rfl⟩
    refine ⟨_, h.steps op (instruction?_invoke hc) he, toNat_next hpc op rfl,
      position_lt op, rfl, fun w hw => hstacked w (by simp [hw]), ?_, ?_⟩
    · cases target <;> simpa [inv, Invocation.after] using hsize
    · cases target with
      | none => exact hheap
      | some t => exact heap_update hsize (htarget t rfl) hheap
  | @jump i j σ stack l op goal =>
    exact ⟨_, h.steps op (instruction?_jump goal) execute_jump, toNat_address_ofNat j,
      (position_lt goal).le, hstack, hstacked, hsize, hheap⟩
  | @pass i σ stack x l op holds =>
    obtain ⟨j, goal⟩ := exists_mark (mem_ops op) (.inr rfl)
    have he : execute P.image pc (.unary .jumpIfFalse (UInt32.ofNat (P.address j))) m =
        .ok (pc + 8) { m with stack := stack.map P.index } :=
      execute_jumpIfFalse_iff.2 ⟨P.index x, true, hstack, holds ▸ hheap x (hstacked x (by simp)),
        rfl, rfl⟩
    exact ⟨_, h.steps op (instruction?_jumpIfFalse goal) he, toNat_next hpc op rfl,
      position_lt op, rfl, fun w hw => hstacked w (by simp [hw]), hsize, hheap⟩
  | @skip i j σ stack x l op goal fails =>
    have he : execute P.image pc (.unary .jumpIfFalse (UInt32.ofNat (P.address j))) m =
        .ok (UInt32.ofNat (P.address j)) { m with stack := stack.map P.index } :=
      execute_jumpIfFalse_iff.2 ⟨P.index x, false, hstack,
        fails ▸ hheap x (hstacked x (by simp)), rfl, rfl⟩
    exact ⟨_, h.steps op (instruction?_jumpIfFalse goal) he, toNat_address_ofNat j,
      (position_lt goal).le, rfl, fun w hw => hstacked w (by simp [hw]), hsize, hheap⟩
  | @leave i j σ stack v a op target le goal =>
    have hv : v ∈ P.order := mem_order (mem_ops op) rfl
    have he : execute P.image pc (.unary .jumpIndirect (P.index v)) m = .ok a m :=
      execute_jumpIndirect_iff.2 ⟨⟨σ v, hheap v hv, target⟩, rfl⟩
    exact ⟨_, h.steps op (instruction?_jumpIndirect hv) he, goal, le, hstack, hstacked,
      hsize, hheap⟩
  | @idle i σ stack op op_eq isIdle => exact follow_idle h op_eq isIdle

lemma Steps.reaches {c' : Config} (h : P.Steps i c c') : Reaches P.image c c' := by
  rcases h with rfl | ⟨-, hstep⟩
  · exact .refl
  · exact .single hstep

lemma Shows.misfit {stack : List VarRef} {x y : VarRef} (h : P.Shows ⟨i, σ, y :: x :: stack⟩ c)
    (hop : P.ops[i]? = some .copy) (hfit : fits (σ x) (P.hostType y) = false) :
    ∃ name, Fails P.image (.misfit (σ x) (P.hostType y) name c.1) c := by
  obtain ⟨hhalt, hfetch⟩ := h.fetch hop rfl
  obtain ⟨slot, hslot, hmade⟩ := slot_eq (h.stacked y (by simp))
  have htype : slot.hostType = P.hostType y := hmade.hostType
  rw [← htype] at hfit ⊢
  exact ⟨slot.name, hhalt, _, _, hfetch,
    execute_copy_misfit h.stack hslot (h.heap x (h.stacked x (by simp))) hfit⟩

/-- The machine follows any number of moves. -/
theorem follow_moves (hm : Relation.ReflTransGen P.Moves s s') (h : P.Shows s c) :
    ∃ c', Reaches P.image c c' ∧ P.Shows s' c' := by
  induction hm with
  | refl => exact ⟨c, .refl, h⟩
  | tail _ hmove ih =>
    obtain ⟨c₁, hr₁, h₁⟩ := ih
    obtain ⟨c₂, hr₂, h₂⟩ := hmove.follow h₁
    exact ⟨c₂, hr₁.trans hr₂.reaches, h₂⟩

lemma address_mono (h : i ≤ k) : P.address i ≤ P.address k := by
  obtain ⟨n, rfl⟩ := Nat.exists_eq_add_of_le h
  rw [address, address, List.take_add, Op.totalSize_append]
  exact Nat.le_add_right _ _

def MovesBefore (P : Placed env) (k : Nat) (s s' : ExecState) : Prop := s.position < k ∧ P.Moves s s'

/-- Moves of operations in front of a position are no steps from its address. -/
theorem approach_moves (hm : Relation.ReflTransGen (P.MovesBefore k) s s') (h : P.Shows s c) :
    ∃ c', Approaches P.image (UInt32.ofNat (P.address k)) c c' ∧ P.Shows s' c' := by
  induction hm with
  | refl => exact ⟨c, .refl, h⟩
  | tail _ hmove ih =>
    obtain ⟨c₁, hr₁, h₁⟩ := ih
    obtain ⟨c₂, hr₂, h₂⟩ := hmove.2.follow h₁
    rcases hr₂ with rfl | ⟨hlt, hstep⟩
    · exact ⟨c₂, hr₁, h₂⟩
    refine ⟨c₂, hr₁.tail ⟨?_, hstep⟩, h₂⟩
    intro heq
    have hle : P.address (_ + 1) ≤ P.address k := address_mono hmove.1
    have hpc := h₁.pc
    rw [heq, toNat_address_ofNat] at hpc
    omega

lemma address_length (h : P.ops = pre ++ post) : P.address pre.length = Op.totalSize pre := by
  rw [address, h, List.take_left]

end Following

end Placed

/-! ## Executing pieces -/

/-- **Execution of pieces**, where `host` gives the host types of variables.  Jumps go forward, over
whole pieces. -/
inductive Runs (host : VarRef → String) : List Piece → Store → Store → Prop
  | nil {σ} : Runs host [] σ σ
  | copy {σ τ x y ps} (fit : fits (σ x) (host y) = true)
    (rest : Runs host ps (update σ y (σ x)) τ) : Runs host (.copy x y :: ps) σ τ
  | invoke {σ τ c signature call inputs output y ps} (named : σ c = .text signature)
    (parsed : Host.Signature.parse? signature = some call) (arity : inputs.length = call.arity)
    (result : output = none ↔ call.result = "SystemVoid")
    (value : Host.evaluate call.member (inputs.map σ) call.result = .ok y)
    (rest : Runs host ps (output.elim σ (update σ · y)) τ) :
    Runs host (.invoke c inputs output :: ps) σ τ
  | pass {σ τ x l ps} (holds : σ x = .bool true) (rest : Runs host ps σ τ) :
    Runs host (.test x l :: ps) σ τ
  | skip {σ τ x l qs ps} (fails : σ x = .bool false) (rest : Runs host ps σ τ) :
    Runs host (.test x l :: (qs ++ .mark l :: ps)) σ τ
  | leap {σ τ l qs ps} (rest : Runs host ps σ τ) :
    Runs host (.jump l :: (qs ++ .mark l :: ps)) σ τ
  | mark {σ τ l ps} (rest : Runs host ps σ τ) : Runs host (.mark l :: ps) σ τ
  | source {σ τ method offset ps} (rest : Runs host ps σ τ) :
    Runs host (.source method offset :: ps) σ τ

namespace Runs

variable {host : VarRef → String} {ps qs : List Piece} {σ τ ρ : Store}

lemma skipOne {x : VarRef} {l : Label} {q : Piece} (fails : σ x = .bool false)
    (rest : Runs host ps σ τ) : Runs host (.test x l :: q :: .mark l :: ps) σ τ :=
  @skip host σ τ x l [q] ps fails rest

lemma append (h : Runs host ps σ τ) (h' : Runs host qs τ ρ) : Runs host (ps ++ qs) σ ρ := by
  induction h with
  | nil => exact h'
  | copy fit _ ih => exact .copy fit (ih h')
  | invoke named parsed arity result value _ ih =>
    exact .invoke named parsed arity result value (ih h')
  | pass holds _ ih => exact .pass holds (ih h')
  | skip fails _ ih =>
    rw [List.cons_append, List.append_assoc, List.cons_append]
    exact .skip fails (ih h')
  | leap _ ih =>
    rw [List.cons_append, List.append_assoc, List.cons_append]
    exact .leap (ih h')
  | mark _ ih => exact .mark (ih h')
  | source _ ih => exact .source (ih h')

lemma eq_of_not_written {z : VarRef} (h : Runs host ps σ τ) (hz : ∀ q ∈ ps, z ∉ q.writes) :
    τ z = σ z := by
  induction h with
  | nil => rfl
  | copy _ _ ih =>
    rw [ih fun q hq => hz q (by simp [hq]), update_of_ne]
    rintro rfl
    exact hz _ List.mem_cons_self (by simp [Piece.writes])
  | @invoke σ τ c signature call inputs output y ps _ _ _ _ _ _ ih =>
    rw [ih fun q hq => hz q (by simp [hq])]
    cases output with
    | none => rfl
    | some out =>
      refine update_of_ne ?_ ..
      rintro rfl
      exact hz _ List.mem_cons_self (by simp [Piece.writes])
  | pass _ _ ih => exact ih fun q hq => hz q (by simp [hq])
  | skip _ _ ih => exact ih fun q hq => hz q (by simp [hq])
  | leap _ ih => exact ih fun q hq => hz q (by simp [hq])
  | mark _ ih => exact ih fun q hq => hz q (by simp [hq])
  | source _ ih => exact ih fun q hq => hz q (by simp [hq])

end Runs

lemma Piece.push_mem_ops {q : Piece} {z : VarRef} (h : z ∈ q.writes) : Op.push z ∈ q.ops := by
  cases q with
  | copy x y => simp_all [writes, ops]
  | invoke c inputs output => simp_all [writes, ops]
  | _ => simp [writes] at h

namespace Placed

variable {env : ClassEnv} {P : Placed env} {σ τ : Store}

open Relation

lemma op_at {op : Op} (h : P.ops = pre ++ op :: post) : P.ops[pre.length]? = some op := by simp [h]

lemma movesBefore_pushes (vs : List VarRef) (stack : List VarRef)
    (h : P.ops = pre ++ (vs.map .push ++ post)) (hk : pre.length + vs.length ≤ k) :
    ReflTransGen (P.MovesBefore k) ⟨pre.length, σ, stack⟩
      ⟨(pre ++ vs.map Op.push).length, σ, vs.reverse ++ stack⟩ := by
  induction vs generalizing pre stack with
  | nil => simpa using .refl
  | cons v vs ih =>
    have hsplit : P.ops = (pre ++ [.push v]) ++ (vs.map .push ++ post) := by simp [h]
    rw [List.length_cons] at hk
    have hlt : pre.length < k := by omega
    refine .head ⟨hlt, .push (op_at (by simpa using h))⟩ ?_
    have := ih (v :: stack) hsplit (by rw [List.length_append, List.length_singleton]; omega)
    simpa using this

/-- Operations take the one store to the other wherever they are placed, without moves from behind
them.  The stack is left as it was. -/
def Does (P : Placed env) (ops : List Op) (σ τ : Store) : Prop :=
  ∀ (pre post : List Op) (k : Nat) (stack : List VarRef), P.ops = pre ++ (ops ++ post) →
    pre.length + ops.length ≤ k →
    ReflTransGen (P.MovesBefore k) ⟨pre.length, σ, stack⟩ ⟨(pre ++ ops).length, τ, stack⟩

lemma Does.append {ops ops' : List Op} {ρ : Store} (h : P.Does ops σ ρ) (h' : P.Does ops' ρ τ) :
    P.Does (ops ++ ops') σ τ := by
  intro pre post k stack hops hk
  rw [List.length_append] at hk
  rw [List.append_assoc] at hops
  have hops' : P.ops = (pre ++ ops) ++ (ops' ++ post) := by rw [hops, List.append_assoc]
  rw [← List.append_assoc]
  refine (h pre _ k stack hops (by omega)).trans (h' _ post k stack hops' ?_)
  rw [List.length_append]
  omega

/-- An operation does what it does with the variables that were pushed for it. -/
lemma does_pushed {op : Op} (vs : List VarRef) (hm : ∀ i stack, P.ops[i]? = some op →
      P.Moves ⟨i, σ, vs.reverse ++ stack⟩ ⟨i + 1, τ, stack⟩) :
    P.Does (vs.map .push ++ [op]) σ τ := by
  intro pre post k stack hops hk
  simp only [List.length_append, List.length_map, List.length_singleton] at hk
  have hsplit : P.ops = pre ++ (vs.map .push ++ (op :: post)) := by simp [hops]
  refine (movesBefore_pushes vs stack hsplit (by omega)).tail ⟨?_, ?_⟩
  · simp only [List.length_append, List.length_map]
    omega
  · have hop := op_at (hsplit.trans (List.append_assoc ..).symm)
    simpa [Nat.add_assoc] using hm _ stack hop

/-- A jump forward to a label, past anything. -/
lemma does_jump {op : Op} (vs : List VarRef) (ops : List Op) (l : Label)
    (hm : ∀ i j stack, P.ops[i]? = some op → P.ops[j]? = some (.mark l) →
      P.Moves ⟨i, σ, vs.reverse ++ stack⟩ ⟨j, σ, stack⟩) :
    P.Does (vs.map .push ++ op :: (ops ++ [.mark l])) σ σ := by
  intro pre post k stack hops hk
  simp only [List.length_append, List.length_map, List.length_cons, List.length_nil] at hk
  have hsplit : P.ops = pre ++ (vs.map .push ++ (op :: (ops ++ .mark l :: post))) := by simp [hops]
  have hmark : P.ops = (pre ++ vs.map .push ++ op :: ops) ++ .mark l :: post := by simp [hops]
  refine (movesBefore_pushes vs stack hsplit (by omega)).trans (.head ⟨?_, hm _ _ stack
    (op_at (hsplit.trans (List.append_assoc ..).symm)) (op_at hmark)⟩ (.single ⟨?_, ?_⟩))
  · simp only [List.length_append, List.length_map]
    omega
  · simp only [List.length_append, List.length_map, List.length_cons]
    omega
  · simpa [Nat.add_assoc] using Moves.idle (op_at hmark) rfl

lemma does_idle {op : Op} (h : op.isIdle = true) : P.Does [op] σ σ :=
  does_pushed [] fun _ _ hop => .idle hop h

/-- **Executing placed pieces.** -/
theorem does_of_runs {ps : List Piece} (hr : Runs P.hostType ps σ τ) :
    P.Does (ps.flatMap Piece.ops) σ τ := by
  induction hr with
  | nil => exact fun pre post k stack _ _ => by simpa using .refl
  | @copy σ τ x y ps fit rest ih =>
    exact (does_pushed [x, y] fun _ _ hop => .copy hop fit).append ih
  | @invoke σ τ c signature call inputs output y ps named parsed arity result value rest ih =>
    have hvalue : Host.evaluate call.member (inputs.reverse.map σ).reverse call.result = .ok y := by
      rwa [← List.map_reverse, List.reverse_reverse]
    have hcall : P.Does ((inputs ++ output.toList).map .push ++ [.invoke c]) σ
        (output.elim σ (update σ · y)) := by
      refine does_pushed _ fun i stack hop => ?_
      have hstack : (inputs ++ output.toList).reverse ++ stack =
          output.toList ++ (inputs.reverse ++ stack) := by
        cases output <;> simp
      rw [hstack]
      exact .invoke hop named parsed (by simpa using arity) result hvalue
    simpa [Piece.ops] using hcall.append ih
  | @pass σ τ x l ps holds rest ih =>
    exact (does_pushed [x] fun _ _ hop => .pass hop holds).append ih
  | @skip σ τ x l qs ps fails rest ih =>
    have hskip := does_jump [x] (qs.flatMap Piece.ops) l fun _ _ _ hop hmark =>
      Moves.skip (P := P) hop hmark fails
    simpa [Piece.ops] using hskip.append ih
  | @leap σ τ l qs ps rest ih =>
    have hleap := does_jump [] (qs.flatMap Piece.ops) l fun _ _ _ hop hmark =>
      Moves.jump (P := P) (σ := σ) hop hmark
    simpa [Piece.ops] using hleap.append ih
  | mark rest ih => exact (does_idle rfl).append ih
  | source rest ih => exact (does_idle rfl).append ih

/-- The same without the bound. -/
theorem moves_of_runs {ps : List Piece} (hr : Runs P.hostType ps σ τ)
    (h : P.ops = pre ++ (ps.flatMap Piece.ops ++ post)) (stack : List VarRef) :
    ReflTransGen P.Moves ⟨pre.length, σ, stack⟩
      ⟨(pre ++ ps.flatMap Piece.ops).length, τ, stack⟩ :=
  ReflTransGen.mono (fun _ _ hm => hm.2) _ _ (does_of_runs hr pre post _ stack h le_rfl)

end Placed

end FlatHeap
