import FlatHeap.Lowering.Layout
import FlatHeap.Proofs.Failure
import FlatHeap.Proofs.Host.Steps
import FlatHeap.Proofs.Lowering.Variables

/-!
# Where a draft ends up

Laying out a draft gives every operation an address and every variable that the code refers to a
slot.  A `Placed` draft comes with its program and with the fact that addresses and indices fit into
the words of the machine.  Three facts about it are all that later modules use: the instruction of an
operation is found at its address (`Placed.fetch`), a label stands for the address of the one mark
that places it (`Placed.resolve_iff`), and different variables have different slots
(`Placed.index_inj`).
-/

namespace FlatHeap

variable {a : Nat} {op : Op} {l : Label} {env : ClassEnv} {d : Draft}

/-! ## Addresses -/

namespace Op

def totalSize (ops : List Op) : Nat := (ops.map size).sum

@[simp] lemma totalSize_nil : totalSize [] = 0 := rfl

@[simp] lemma totalSize_cons (op : Op) (ops : List Op) :
    totalSize (op :: ops) = op.size + totalSize ops := by simp [totalSize]

@[simp] lemma totalSize_append (ops ops' : List Op) :
    totalSize (ops ++ ops') = totalSize ops + totalSize ops' := by simp [totalSize]

lemma four_dvd_totalSize (ops : List Op) : 4 ∣ totalSize ops := by
  induction ops with
  | nil => simp
  | cons op ops ih =>
    have : 4 ∣ op.size := by cases op <;> simp [size]
    rw [totalSize_cons]
    exact dvd_add this ih

lemma mem_addressesFrom_iff {b : Nat} {ops : List Op} :
    (b, op) ∈ addressesFrom a ops ↔
      ∃ pre post, ops = pre ++ op :: post ∧ b = a + totalSize pre := by
  induction ops generalizing a with
  | nil => simp [addressesFrom]
  | cons op' ops ih =>
    rw [addressesFrom, List.mem_cons, ih]
    constructor
    · rintro (h | ⟨pre, post, rfl, rfl⟩)
      · obtain ⟨rfl, rfl⟩ := Prod.mk.inj h
        exact ⟨[], ops, rfl, rfl⟩
      · exact ⟨op' :: pre, post, rfl, by rw [totalSize_cons, Nat.add_assoc]⟩
    · rintro ⟨pre, post, heq, rfl⟩
      cases pre with
      | nil =>
        obtain ⟨rfl, rfl⟩ := List.cons.inj heq
        exact .inl rfl
      | cons x pre =>
        obtain ⟨rfl, rfl⟩ := List.cons.inj heq
        exact .inr ⟨pre, post, rfl, by rw [totalSize_cons, Nat.add_assoc]⟩

lemma mem_labels_iff {b : Nat} {ops : List Op} :
    (l, b) ∈ labels (addressesFrom a ops) ↔
      ∃ pre post, ops = pre ++ .mark l :: post ∧ b = a + totalSize pre := by
  rw [← mem_addressesFrom_iff, labels, List.mem_filterMap]
  constructor
  · rintro ⟨⟨b', op⟩, hmem, h⟩
    cases op <;> simp only [Option.some.injEq, Prod.mk.injEq, reduceCtorEq] at h
    obtain ⟨rfl, rfl⟩ := h
    exact hmem
  · exact fun h => ⟨_, h, rfl⟩

lemma mem_entryPoints_iff {ops : List Op} {e : Host.EntryPoint} :
    e ∈ entryPoints (addressesFrom a ops) ↔
      ∃ pre post, ops = pre ++ .entry e.name :: post ∧ e.address = a + totalSize pre := by
  rw [← mem_addressesFrom_iff, entryPoints, List.mem_filterMap]
  constructor
  · rintro ⟨⟨b', op⟩, hmem, h⟩
    cases op <;> simp only [Option.some.injEq, reduceCtorEq] at h
    obtain rfl := h
    exact hmem
  · exact fun h => ⟨_, h, rfl⟩

end Op

namespace Draft

variable {r : VarRef}

lemma nodup_of_repeatedLabel? {labels : List (Label × Nat)} {seen : List Label}
    (h : repeatedLabel? labels seen = none) :
    (labels.map (·.1)).Nodup ∧ ∀ e ∈ labels, e.1 ∉ seen := by
  induction labels generalizing seen with
  | nil => simp
  | cons e labels ih =>
    rw [repeatedLabel?] at h
    split_ifs at h with hc
    obtain ⟨hn, hs⟩ := ih h
    simp only [List.map_cons, List.nodup_cons, List.mem_map, List.forall_mem_cons]
    refine ⟨⟨?_, hn⟩, by simpa using hc, fun e' he' => fun hmem => hs e' he' (by simp [hmem])⟩
    rintro ⟨e', he', heq⟩
    exact hs e' he' (by simp [heq])

lemma lookup_of_mem {labels : List (Label × Nat)} (hn : (labels.map (·.1)).Nodup)
    (h : (l, a) ∈ labels) : labels.lookup l = some a := by
  induction labels with
  | nil => simp at h
  | cons e labels ih =>
    rw [List.map_cons, List.nodup_cons] at hn
    rcases List.mem_cons.1 h with rfl | h
    · simp
    · have hne : l ≠ e.1 := by
        rintro rfl
        exact hn.1 (List.mem_map.2 ⟨_, h, rfl⟩)
      rw [List.lookup_cons, beq_false_of_ne hne]
      exact ih hn.2 h

/-! ## The heap -/

structure SlotFor (env : ClassEnv) (labels : List (Label × Nat)) (v : Variable)
    (slot : Host.HeapSlot) : Prop where
  hostType : slot.hostType = env.ident v.type
  value : slotValue env labels v = .ok slot.value
  name : ∀ x, v.name = some x → slot.name = x

lemma slots_spec {labels : List (Label × Nat)} {vs : List Variable} {unnamed : Nat}
    {names : List String} {heap : List Host.HeapSlot}
    (h : slots env labels vs unnamed names = .ok heap) :
    List.Forall₂ (SlotFor env labels) vs heap := by
  induction vs generalizing unnamed names heap with
  | nil =>
    rw [slots] at h
    injection h with h
    exact h ▸ .nil
  | cons v vs ih =>
    rw [slots] at h
    split at h
    rename_i name unnamed' hnamed
    dsimp only at h
    split_ifs at h with hname
    · simp [except_bind_eq_ok_iff] at h
    simp only [except_bind_eq_ok_iff] at h
    obtain ⟨value, hvalue, others, hothers, h⟩ := h
    injection h with h
    refine h ▸ .cons ⟨rfl, hvalue, fun x hx => ?_⟩ (ih hothers)
    rw [hx] at hnamed
    exact (Prod.mk.inj hnamed).1.symm

lemma mem_toList_iff {vs : Variables} {v : Variable} :
    (r, v) ∈ vs.toList ↔ vs.Has r ∧ v = vs.get r := by
  simp only [Variables.toList, List.mem_map, Prod.exists, Prod.mk.injEq,
    List.mk_mem_zipIdx_iff_getElem?, Array.getElem?_toList]
  constructor
  · rintro ⟨w, i, hw, rfl, rfl⟩
    obtain ⟨hi, rfl⟩ := Array.getElem?_eq_some_iff.1 hw
    exact ⟨hi, by simp [Variables.get, hi]⟩
  · rintro ⟨hr, rfl⟩
    have hi : r.index < vs.entries.size := hr
    exact ⟨_, r.index, by simp [Variables.get, hi], rfl, rfl⟩

lemma mem_fieldSlots_iff {own : Bool} :
    (r, own) ∈ d.fieldSlots env ↔ d.vars.Has r ∧ ∃ f, d.vars.kind r = .field f ∧
      own = ((env.md.field f).declaring == env.owner) := by
  simp only [fieldSlots, List.mem_filterMap, Prod.exists, mem_toList_iff, Variables.kind]
  constructor
  · rintro ⟨r', v, ⟨hr, rfl⟩, h⟩
    split at h
    case h_1 f hk =>
      simp only [Option.some.injEq, Prod.mk.injEq] at h
      obtain ⟨rfl, rfl⟩ := h
      exact ⟨hr, f, hk, rfl⟩
    case h_2 => simp at h
  · rintro ⟨hr, f, hk, rfl⟩
    exact ⟨r, _, ⟨hr, rfl⟩, by simp [hk]⟩

/-- **Slots.**  Fields have one, and everything else that the code refers to and that is no
address. -/
lemma mem_heapOrder_iff :
    r ∈ d.heapOrder env ↔ d.vars.Has r ∧ ((d.vars.get r).isField = true ∨
      (d.vars.get r).isAddress = false ∧ r ∈ d.ops.toList.filterMap Op.var?) := by
  have hfield : (d.vars.get r).isField = true ↔ ∃ f, d.vars.kind r = .field f := by
    simp only [Variable.isField, Variables.kind]
    split <;> simp_all
  simp only [heapOrder, List.mem_append, List.mem_map, List.mem_filter, Prod.exists,
    mem_fieldSlots_iff, mem_toList_iff, hfield]
  constructor
  · rintro ((⟨_, own, ⟨⟨hr, f, hk, -⟩, -⟩, rfl⟩ | ⟨_, own, ⟨⟨hr, f, hk, -⟩, -⟩, rfl⟩) |
      ⟨_, v, ⟨⟨hr, rfl⟩, h⟩, rfl⟩)
    · exact ⟨hr, .inl ⟨f, hk⟩⟩
    · exact ⟨hr, .inl ⟨f, hk⟩⟩
    · simp only [Bool.and_eq_true, Bool.not_eq_true', List.contains_iff_mem] at h
      exact ⟨hr, .inr ⟨h.1.2, h.2⟩⟩
  · rintro ⟨hr, h⟩
    by_cases hf : ∃ f, d.vars.kind r = .field f
    · obtain ⟨f, hk⟩ := hf
      left
      cases hown : (env.md.field f).declaring == env.owner
      · exact .inr ⟨r, false, ⟨⟨hr, f, hk, hown.symm⟩, rfl⟩, rfl⟩
      · exact .inl ⟨r, true, ⟨⟨hr, f, hk, hown.symm⟩, rfl⟩, rfl⟩
    · right
      obtain ⟨ha, hm⟩ := h.resolve_left hf
      refine ⟨r, _, ⟨⟨hr, rfl⟩, ?_⟩, rfl⟩
      rw [← hfield, Bool.not_eq_true] at hf
      simp [hf, ha, hm]

end Draft

/-- **What a layout is made of.** -/
lemma Draft.layout_eq_ok_iff {p : Host.Program} :
    d.layout env = .ok p ↔ d.codeSize ≤ Host.haltAddress.toNat ∧
      repeatedLabel? (Op.labels (Op.addressesFrom 0 d.ops.toList)) [] = none ∧
      (d.heapOrder env).length ≤ UInt32.size ∧
      ∃ heap, slots env (Op.labels (Op.addressesFrom 0 d.ops.toList))
          ((d.heapOrder env).map d.vars.get) 0 [] = .ok heap ∧
        ∃ code, d.ops.toList.mapM (instruction? (d.heapOrder env)
            (Op.labels (Op.addressesFrom 0 d.ops.toList))) = .ok code ∧
          { heap, code := code.filterMap id
            entryPoints := Op.entryPoints (Op.addressesFrom 0 d.ops.toList)
            sourceMap := if env.options.sourceMap then
                some (Host.SourceMap.sort
                  ⟨d.methodNames, Op.sourcePoints (Op.addressesFrom 0 d.ops.toList)⟩)
              else none : Host.Program } = p := by
  unfold layout
  by_cases hcode : Host.haltAddress.toNat < d.codeSize
  · rw [if_pos hcode]
    simp [except_bind_eq_ok_iff, Nat.not_le.2 hcode]
  rw [if_neg hcode]
  cases hlabel : repeatedLabel? (Op.labels (Op.addressesFrom 0 d.ops.toList)) [] with
  | some l => simp [hlabel, except_bind_eq_ok_iff]
  | none =>
    by_cases hheap : UInt32.size < (d.heapOrder env).length
    · simp [hlabel, hheap, except_bind_eq_ok_iff, Nat.not_le.2 hheap]
    · simp only [hlabel, if_neg hheap, except_bind_eq_ok_iff, Nat.not_lt.1 hcode,
        Nat.not_lt.1 hheap, true_and, pure, Except.pure, Except.ok.injEq]

/-! ## Placed drafts -/

structure Placed (env : ClassEnv) where
  /-- The draft. -/
  draft : Draft
  /-- Its program. -/
  program : Host.Program
  laid : draft.layout env = .ok program

namespace Placed

variable {env : ClassEnv} (P : Placed env) {pre post : List Op}

def image : Host.Image := .ofProgram P.program

def ops : List Op := P.draft.ops.toList

/-- Variables with a slot, in the order of their slots. -/
def order : List VarRef := P.draft.heapOrder env

def labels : List (Label × Nat) := Op.labels (Op.addressesFrom 0 P.ops)

def index (v : VarRef) : UInt32 := UInt32.ofNat (P.order.idxOf v)

def hostType (v : VarRef) : String := env.ident (P.draft.vars.get v).type

lemma layout_parts : Draft.repeatedLabel? P.labels [] = none ∧
    Draft.slots env P.labels (P.order.map P.draft.vars.get) 0 [] = .ok P.program.heap ∧
    ∃ code, P.ops.mapM (Draft.instruction? P.order P.labels) = .ok code ∧
      P.program.code = code.filterMap id := by
  obtain ⟨-, hlabels, -, heap, hheap, code, hcode, hp⟩ := Draft.layout_eq_ok_iff.1 P.laid
  refine ⟨hlabels, ?_, code, hcode, ?_⟩
  · rw [← hp]
    exact hheap
  · rw [← hp]

lemma entryPoints_eq : P.program.entryPoints = Op.entryPoints (Op.addressesFrom 0 P.ops) := by
  obtain ⟨-, -, -, heap, -, code, -, hp⟩ := Draft.layout_eq_ok_iff.1 P.laid
  rw [← hp]
  rfl

lemma code_le : P.draft.codeSize ≤ Host.haltAddress.toNat := (Draft.layout_eq_ok_iff.1 P.laid).1

lemma order_le : P.order.length ≤ UInt32.size := (Draft.layout_eq_ok_iff.1 P.laid).2.2.1

/-! ### Labels -/

lemma resolve_iff : Draft.resolve P.labels l = .ok a ↔
    ∃ pre post, P.ops = pre ++ .mark l :: post ∧ a = Op.totalSize pre := by
  have hn := (Draft.nodup_of_repeatedLabel? P.layout_parts.1).1
  have hmem : (l, a) ∈ P.labels ↔ ∃ pre post, P.ops = pre ++ .mark l :: post ∧
      a = Op.totalSize pre := by
    simp [labels, Op.mem_labels_iff]
  rw [← hmem, Draft.resolve]
  constructor
  · intro h
    cases hl : P.labels.lookup l with
    | none => simp [hl] at h
    | some b =>
      simp only [hl, Except.ok.injEq] at h
      subst h
      obtain ⟨l₁, l₂, heq, -⟩ := List.lookup_eq_some_iff.1 hl
      simp [heq]
  · intro h
    rw [Draft.lookup_of_mem hn h]

/-! ### Code -/

lemma instruction?_size {order : List VarRef} {labels : List (Label × Nat)}
    {i : Option Host.Instruction} (h : Draft.instruction? order labels op = .ok i) :
    (i.toList.map Host.Instruction.size).sum = op.size := by
  cases op <;>
    simp only [Draft.instruction?, except_bind_eq_ok_iff, pure, Except.pure, Except.ok.injEq] at h <;>
    aesop

lemma mapM_instruction?_size {order : List VarRef} {labels : List (Label × Nat)} {ops : List Op}
    {code : List (Option Host.Instruction)}
    (h : ops.mapM (Draft.instruction? order labels) = .ok code) :
    ((code.filterMap id).map Host.Instruction.size).sum = Op.totalSize ops := by
  induction ops generalizing code with
  | nil =>
    simp only [List.mapM_nil, pure, Except.pure, Except.ok.injEq] at h
    subst h
    rfl
  | cons op ops ih =>
    simp only [List.mapM_cons, except_bind_eq_ok_iff] at h
    obtain ⟨i, hi, code', hcode', h⟩ := h
    injection h with h
    subst h
    have hsize := instruction?_size hi
    rw [Op.totalSize_cons, ← hsize, ← ih hcode']
    cases i <;> simp

lemma code_split (h : P.ops = pre ++ op :: post) :
    ∃ i c₁ c₂, Draft.instruction? P.order P.labels op = .ok i ∧
      P.program.code = c₁ ++ i.toList ++ c₂ ∧
      (c₁.map Host.Instruction.size).sum = Op.totalSize pre := by
  obtain ⟨-, -, code, hcode, heq⟩ := P.layout_parts
  rw [h, List.mapM_append, except_bind_eq_ok_iff] at hcode
  obtain ⟨code₁, hcode₁, hcode⟩ := hcode
  simp only [List.mapM_cons, except_bind_eq_ok_iff, bind_assoc, pure_bind] at hcode
  obtain ⟨i, hi, code₂, hcode₂, hcode⟩ := hcode
  injection hcode with hcode
  subst hcode
  refine ⟨i, code₁.filterMap id, code₂.filterMap id, hi, ?_, mapM_instruction?_size hcode₁⟩
  rw [heq]
  cases i <;> simp

lemma length_words (code : List Host.Instruction) :
    4 * (code.flatMap Host.Instruction.words).length = (code.map Host.Instruction.size).sum := by
  induction code with
  | nil => rfl
  | cons i code ih =>
    rw [List.flatMap_cons, List.length_append, Nat.mul_add, ih, List.map_cons, List.sum_cons,
      Host.Instruction.words, Host.Instruction.size, Host.Opcode.size]
    split <;> rfl

lemma totalSize_le (h : P.ops = pre ++ post) : Op.totalSize pre ≤ Host.haltAddress.toNat := by
  have hle := P.code_le
  have hsize : P.draft.codeSize = Op.totalSize P.ops := rfl
  rw [hsize, h, Op.totalSize_append] at hle
  omega

lemma toNat_address (h : P.ops = pre ++ post) :
    (UInt32.ofNat (Op.totalSize pre)).toNat = Op.totalSize pre := by
  have hle := P.totalSize_le h
  have hhalt : Host.haltAddress.toNat < 2 ^ 32 := by decide
  rw [UInt32.toNat_ofNat']
  exact Nat.mod_eq_of_lt (by omega)

/-- **Fetching.**  The instruction of an operation is found at the operation's address. -/
lemma fetch (h : P.ops = pre ++ op :: post) {i : Host.Instruction}
    (hi : Draft.instruction? P.order P.labels op = .ok (some i)) :
    P.image.fetch? (UInt32.ofNat (Op.totalSize pre)) = some i ∧
      UInt32.ofNat (Op.totalSize pre) ≠ Host.haltAddress := by
  obtain ⟨i', c₁, c₂, hi', hcode, hsize⟩ := P.code_split h
  obtain rfl : some i = i' := by simpa [hi] using hi'
  have haddr := P.toNat_address h
  have hdvd := Op.four_dvd_totalSize pre
  have hlen := length_words c₁
  constructor
  · have hmod : UInt32.ofNat (Op.totalSize pre) % 4 = 0 := by
      apply UInt32.toNat_inj.1
      rw [UInt32.toNat_mod, haddr]
      exact Nat.mod_eq_zero_of_dvd hdvd
    have hword : (i.words ++ c₂.flatMap Host.Instruction.words)[0]? = some (some i) := by
      rw [Host.Instruction.words]
      split <;> rfl
    have hpos : Op.totalSize pre / 4 = (c₁.flatMap Host.Instruction.words).length := by omega
    rw [Host.Image.fetch?, if_pos hmod, haddr, hpos]
    simp only [image, Host.Image.ofProgram, hcode, List.getElem?_toArray, Option.toList_some,
      List.flatMap_append, List.flatMap_cons, List.flatMap_nil, List.append_nil, List.append_assoc]
    rw [List.getElem?_append_right le_rfl, Nat.sub_self, hword]
    rfl
  · intro heq
    have hpos : 0 < i.size := by
      rw [Host.Instruction.size, Host.Opcode.size]
      split <;> decide
    have hle := P.code_le
    have hop := instruction?_size hi
    have hall : P.draft.codeSize = Op.totalSize P.ops := rfl
    rw [hall, h, Op.totalSize_append, Op.totalSize_cons, ← haddr, heq] at hle
    simp only [Option.toList_some, List.map_cons, List.map_nil, List.sum_cons, List.sum_nil] at hop
    omega

/-! ### Slots -/

lemma heap_spec : List.Forall₂ (fun v => Draft.SlotFor env P.labels (P.draft.vars.get v)) P.order
    P.program.heap := by
  have := Draft.slots_spec P.layout_parts.2.1
  rwa [List.forall₂_map_left_iff] at this

lemma length_heap : P.program.heap.length = P.order.length := P.heap_spec.length_eq.symm

variable {P} {v w : VarRef}

lemma toNat_index (h : v ∈ P.order) : (P.index v).toNat = P.order.idxOf v := by
  have hlt := List.idxOf_lt_length_iff.2 h
  have hle : P.order.length ≤ 2 ^ 32 := P.order_le
  rw [index, UInt32.toNat_ofNat']
  exact Nat.mod_eq_of_lt (by omega)

lemma index_lt (h : v ∈ P.order) : (P.index v).toNat < P.program.heap.length := by
  rw [toNat_index h, P.length_heap]
  exact List.idxOf_lt_length_iff.2 h

lemma index_inj (hv : v ∈ P.order) (hw : w ∈ P.order) (h : P.index v = P.index w) : v = w := by
  have := congrArg UInt32.toNat h
  rw [toNat_index hv, toNat_index hw] at this
  exact (List.idxOf_inj hv).1 this

lemma slot_eq (h : v ∈ P.order) : ∃ slot, P.image.slots[(P.index v).toNat]? = some slot ∧
    Draft.SlotFor env P.labels (P.draft.vars.get v) slot := by
  have hlt := List.idxOf_lt_length_iff.2 h
  obtain ⟨hlen, hall⟩ := List.forall₂_iff_get.1 P.heap_spec
  have := hall _ hlt (hlen ▸ hlt)
  simp only [List.get_eq_getElem, List.getElem_idxOf] at this
  refine ⟨_, ?_, this⟩
  rw [toNat_index h]
  simp only [image, Host.Image.ofProgram, List.getElem?_toArray]
  exact List.getElem?_eq_getElem (hlen ▸ hlt)

lemma mem_order (h : op ∈ P.ops) (hv : op.var? = some v) : v ∈ P.order := by
  obtain ⟨pre, post, hsplit⟩ := List.append_of_mem h
  obtain ⟨i, -, -, hi, -⟩ := P.code_split hsplit
  have hidx : ∃ x, Draft.heapIndex P.order v = .ok x := by
    cases op <;> simp only [Op.var?, Option.some.injEq, reduceCtorEq] at hv <;> subst hv <;>
      simp only [Draft.instruction?, except_bind_eq_ok_iff] at hi <;>
      exact ⟨_, hi.choose_spec.1⟩
  obtain ⟨x, hx⟩ := hidx
  rw [Draft.heapIndex] at hx
  split at hx
  case h_1 k hk => exact List.isSome_idxOf?.1 (by simp [hk])
  case h_2 => simp at hx

lemma heapIndex_eq (h : v ∈ P.order) : Draft.heapIndex P.order v = .ok (P.index v) := by
  obtain ⟨k, hk⟩ := Option.isSome_iff_exists.1 (List.isSome_idxOf?.2 h)
  have hidx : P.order.idxOf v = k := by rw [List.idxOf_eq_getD_idxOf?, hk, Option.getD_some]
  simp only [Draft.heapIndex, index, hk, hidx]

end Placed

end FlatHeap
