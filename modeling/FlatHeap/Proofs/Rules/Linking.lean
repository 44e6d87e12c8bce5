import FlatHeap.Proofs.Naming.Events
import FlatHeap.Proofs.Rules.Worklist

/-!
# Linked programs

A program is linked if its jumps, entry points and return addresses lead to instructions, other
operands are indices of slots, and no two slots or entry points share a name.  The layout of a draft
whose methods have all been lowered gives a linked program, and cannot fail over a label or a slot.
-/

namespace FlatHeap

variable {labels : List (Label × Nat)} {l : Label} {v : VarRef}

namespace Host.Program

def IsAddress (p : Program) (a : Nat) : Prop := a ∈ p.addresses.map Prod.fst

/-- What the operand of an instruction refers to is there: an instruction, or a slot. -/
def Finds (p : Program) (i : Instruction) : Prop :=
  match i.opcode with
  | .jump | .jumpIfFalse => ∃ a, i.operand = some a ∧ p.IsAddress a.toNat
  | .push | .invoke | .jumpIndirect | .remark => ∃ x, i.operand = some x ∧ x.toNat < p.heap.length
  | .nop | .pop | .copy => i.operand = none

/-- Whatever the program refers to is there, under one name. -/
structure Linked (p : Program) : Prop where
  operands : ∀ i ∈ p.code, p.Finds i
  entries : ∀ e ∈ p.entryPoints, p.IsAddress e.address
  slotNames : (p.heap.map HeapSlot.name).Nodup
  entryNames : (p.entryPoints.map EntryPoint.name).Nodup
  size : p.encode.length = p.codeSize

lemma mem_addressesFrom (a : Nat) (c₁ c₂ : List Host.Instruction) (i : Host.Instruction) :
    (a + (c₁.map Instruction.size).sum, i) ∈ addressesFrom a (c₁ ++ i :: c₂) := by
  induction c₁ generalizing a with
  | nil => simp [addressesFrom]
  | cons j c₁ ih =>
    rw [List.map_cons, List.sum_cons, ← Nat.add_assoc]
    exact List.mem_cons_of_mem _ (ih (a + j.size))

lemma length_encode (p : Program) : p.encode.length = p.codeSize := by
  have hone (i : Host.Instruction) : i.encode.length = i.size := by
    unfold Instruction.encode Instruction.size Opcode.size
    split <;> rfl
  rw [encode, Host.encode, List.length_flatMap, codeSize]
  exact congrArg List.sum (List.map_congr_left fun i _ => hone i)

end Host.Program

/-! ## Names of entry points -/

lemma Op.map_name_entryPoints (a : Nat) (ops : List Op) :
    (entryPoints (addressesFrom a ops)).map Host.EntryPoint.name = ops.filterMap entry? := by
  induction ops generalizing a with
  | nil => rfl
  | cons op ops ih =>
    cases op with
    | entry name => exact congrArg (name :: ·) (ih _)
    | _ => exact ih _

/-- **Entry points have different names.** -/
lemma ClassEnv.nodup_entryNames (env : ClassEnv) (init : Initializer) :
    (env.entryNames init).Nodup := by
  have hentries : (env.entries.map Prod.fst).Nodup := by
    rw [List.Nodup, List.pairwise_map]
    refine (env.naming.pairwise_firsts.filter _).filterMap _ fun s s' hne e he e' he' => ?_
    obtain ⟨m, -, rfl⟩ := Option.map_eq_some_iff.1 he
    obtain ⟨m', -, rfl⟩ := Option.map_eq_some_iff.1 he'
    exact hne
  unfold entryNames
  split_ifs with hstart
  · exact List.nodup_append.2 ⟨hentries, List.nodup_singleton _, by
      rintro name hname _ hmem rfl
      exact hstart.2 (List.mem_singleton.1 hmem ▸ hname)⟩
  · rwa [List.append_nil]

/-! ## Layout -/

namespace Draft

lemma nodup_slots {env : ClassEnv} {vs : List Variable} {unnamed : Nat} {names : List String}
    {heap : List Host.HeapSlot} (h : slots env labels vs unnamed names = .ok heap) :
    (heap.map Host.HeapSlot.name).Nodup ∧ ∀ slot ∈ heap, slot.name ∉ names := by
  induction vs generalizing unnamed names heap with
  | nil =>
    obtain rfl := Except.ok.inj h
    simp
  | cons v vs ih =>
    rw [slots] at h
    split at h
    rename_i name unnamed' _
    dsimp only at h
    split_ifs at h with hname
    · simp [except_bind_eq_ok_iff] at h
    simp only [except_bind_eq_ok_iff] at h
    obtain ⟨value, -, others, hothers, h⟩ := h
    obtain rfl := Except.ok.inj h
    obtain ⟨hnodup, hnew⟩ := ih hothers
    refine ⟨?_, List.forall_mem_cons.2 ⟨by simpa using hname, fun slot hs hmem =>
      hnew slot hs (List.mem_cons_of_mem _ hmem)⟩⟩
    rw [List.map_cons, List.nodup_cons]
    refine ⟨fun hmem => ?_, hnodup⟩
    obtain ⟨slot, hs, heq⟩ := List.mem_map.1 hmem
    exact hnew slot hs (heq ▸ List.mem_cons_self)

end Draft

namespace Placed

variable {env : ClassEnv} {P : Placed env} {pre post : List Op} {op : Op}

lemma isAddress_of_size (h : P.ops = pre ++ op :: post) (hop : 0 < op.size) :
    P.program.IsAddress (Op.totalSize pre) := by
  obtain ⟨i, c₁, c₂, hi, hcode, hsize⟩ := P.code_split h
  cases i with
  | none =>
    have hzero := instruction?_size hi
    simp only [Option.toList_none, List.map_nil, List.sum_nil] at hzero
    omega
  | some i =>
    refine List.mem_map.2 ⟨(Op.totalSize pre, i), ?_, rfl⟩
    have hmem := Host.Program.mem_addressesFrom 0 c₁ c₂ i
    rw [hsize, Nat.zero_add] at hmem
    rw [Host.Program.addresses, hcode]
    simpa using hmem

lemma isAddress (hends : P.draft.Ends) (h : P.ops = pre ++ post) (hpost : post ≠ []) :
    P.program.IsAddress (Op.totalSize pre) := by
  induction post generalizing pre with
  | nil => exact absurd rfl hpost
  | cons op post ih =>
    by_cases hop : 0 < op.size
    · exact isAddress_of_size h hop
    have hzero : op.size = 0 := Nat.eq_zero_of_not_pos hop
    have hmore : post ≠ [] := by
      rintro rfl
      refine hop (hends op ?_)
      rw [show P.draft.ops.toList = pre ++ [op] from h, List.getLast?_concat]
      rfl
    have hsplit : P.ops = (pre ++ [op]) ++ post := by simpa using h
    simpa [hzero] using ih hsplit hmore

lemma exists_op {i : Host.Instruction} (hi : i ∈ P.program.code) :
    ∃ op ∈ P.ops, Draft.instruction? P.order P.labels op = .ok (some i) := by
  obtain ⟨-, -, code, hcode, heq⟩ := P.layout_parts
  rw [heq, List.mem_filterMap] at hi
  obtain ⟨i', hi', rfl⟩ := hi
  obtain ⟨hlen, hall⟩ := List.forall₂_iff_get.1 (mapM_eq_ok_iff.1 hcode)
  obtain ⟨k, hk, hget⟩ := List.getElem_of_mem hi'
  refine ⟨P.ops.get ⟨k, hlen ▸ hk⟩, List.get_mem _ _, ?_⟩
  rw [hall k (hlen ▸ hk) hk, List.get_eq_getElem, hget]

lemma isAddress_of_resolve (hends : P.draft.Ends) {a : Nat} (h : Draft.resolve P.labels l = .ok a) :
    P.program.IsAddress (UInt32.ofNat a).toNat := by
  obtain ⟨pre, post, hops, rfl⟩ := P.resolve_iff.1 h
  rw [P.toNat_address hops]
  exact isAddress hends hops (List.cons_ne_nil _ _)

/-- **The program of a finished draft is linked.** -/
lemma linked (hends : P.draft.Ends) (hnames : P.draft.entryNames.Nodup) : P.program.Linked := by
  refine ⟨fun i hi => ?_, fun e he => ?_,
    (Draft.nodup_slots P.layout_parts.2.1).1, ?_, Host.Program.length_encode _⟩
  · obtain ⟨op, hop, h⟩ := exists_op hi
    cases op with
    | jump l | jumpIfFalse l =>
      obtain ⟨a, ha, h⟩ := except_bind_eq_ok_iff.1 h
      obtain rfl := Option.some.inj (Except.ok.inj h)
      exact ⟨_, rfl, isAddress_of_resolve hends ha⟩
    | push v | invoke v | jumpIndirect v | remark v =>
      obtain ⟨x, hx, h⟩ := except_bind_eq_ok_iff.1 h
      obtain rfl := Option.some.inj (Except.ok.inj h)
      have hv : v ∈ P.order := mem_order hop rfl
      obtain rfl := Except.ok.inj ((heapIndex_eq hv).symm.trans hx)
      exact ⟨_, rfl, index_lt hv⟩
    | pop | copy | nop =>
      obtain rfl := Option.some.inj (Except.ok.inj h)
      rfl
    | mark | source | entry => cases Except.ok.inj h
  · rw [P.entryPoints_eq] at he
    obtain ⟨pre, post, hops, haddress⟩ := Op.mem_entryPoints_iff.1 he
    rw [haddress, Nat.zero_add]
    exact isAddress hends hops (List.cons_ne_nil _ _)
  · rw [P.entryPoints_eq, Op.map_name_entryPoints]
    exact hnames

lemma slot_of_labelAddress (hends : P.draft.Ends) {k : Nat} (hv : P.order[k]? = some v)
    (hkind : P.draft.vars.kind v = .labelAddress l) :
    ∃ slot a, P.program.heap[k]? = some slot ∧ slot.value = .address a ∧
      P.program.IsAddress a.toNat := by
  obtain ⟨hk, rfl⟩ := List.getElem?_eq_some_iff.1 hv
  obtain ⟨hlen, hall⟩ := List.forall₂_iff_get.1 P.heap_spec
  obtain ⟨-, hvalue, -⟩ := hall k hk (hlen ▸ hk)
  have hkind : (P.draft.vars.get (P.order.get ⟨k, hk⟩)).kind = .labelAddress l := hkind
  rw [Draft.slotValue, hkind] at hvalue
  obtain ⟨a, ha, hvalue⟩ := except_bind_eq_ok_iff.1 hvalue
  exact ⟨_, _, List.getElem?_eq_getElem (hlen ▸ hk), (Except.ok.inj hvalue).symm,
    isAddress_of_resolve hends ha⟩

end Placed

/-! ## Failure of a layout -/

namespace Draft

variable {env : ClassEnv} {rules : Rulebook} {d : Draft}

lemma count_labels (a : Nat) (ops : List Op) (l : Label) :
    ((Op.labels (Op.addressesFrom a ops)).map Prod.fst).count l = ops.count (.mark l) := by
  induction ops generalizing a with
  | nil => rfl
  | cons op ops ih =>
    cases op with
    | mark l' =>
      have hcons : (Op.labels (Op.addressesFrom a (.mark l' :: ops))).map Prod.fst =
          l' :: (Op.labels (Op.addressesFrom a ops)).map Prod.fst := rfl
      rw [hcons, List.count_cons, List.count_cons, ih]
      simp
    | _ => exact (ih _).trans (List.count_cons_of_ne (by simp)).symm

lemma repeatedLabel?_eq_none {seen : List Label} (h : (labels.map Prod.fst).Nodup)
    (hseen : ∀ e ∈ labels, e.1 ∉ seen) : repeatedLabel? labels seen = none := by
  induction labels generalizing seen with
  | nil => rfl
  | cons e labels ih =>
    rw [List.map_cons, List.nodup_cons] at h
    obtain ⟨he, hseen⟩ := List.forall_mem_cons.1 hseen
    rw [repeatedLabel?, if_neg (by simpa using he)]
    refine ih h.2 fun e' he' hmem => ?_
    rcases List.mem_cons.1 hmem with heq | hmem
    · exact h.1 (List.mem_map.2 ⟨e', he', heq⟩)
    · exact hseen e' he' hmem

lemma slots_error {vs : List Variable} {unnamed : Nat} {names : List String} {e : CompileError}
    (h : slots env labels vs unnamed names = .error e) :
    (∃ name, e = .invariant (.duplicateSlot name)) ∨
      ∃ v ∈ vs, slotValue env labels v = .error e := by
  induction vs generalizing unnamed names with
  | nil => cases h
  | cons v vs ih =>
    rw [slots] at h
    split at h
    rename_i name unnamed' _
    dsimp only at h
    split_ifs at h with hname
    · exact .inl ⟨name, (Except.error.inj h).symm⟩
    rcases except_bind_eq_error_iff.1 h with h | ⟨value, -, h⟩
    · exact .inr ⟨v, List.mem_cons_self, h⟩
    · rcases except_bind_eq_error_iff.1 h with h | ⟨others, -, h⟩
      · refine (ih h).imp_right ?_
        rintro ⟨w, hw, h⟩
        exact ⟨w, List.mem_cons_of_mem _ hw, h⟩
      · cases h

namespace Finished

lemma resolves (h : d.Finished env rules) (hl : l.index < d.labelCount) :
    ∃ a, resolve (Op.labels (Op.addressesFrom 0 d.ops.toList)) l = .ok a := by
  have hmem : l ∈ (Op.labels (Op.addressesFrom 0 d.ops.toList)).map Prod.fst := by
    rw [← List.count_pos_iff, count_labels]
    exact (h.placed l hl).ge
  rw [resolve]
  cases hlookup : (Op.labels (Op.addressesFrom 0 d.ops.toList)).lookup l with
  | some a => exact ⟨a, rfl⟩
  | none =>
    obtain ⟨e, he, rfl⟩ := List.mem_map.1 hmem
    simpa using List.lookup_eq_none_iff.1 hlookup e he

lemma repeatedLabel? (h : d.Finished env rules) :
    repeatedLabel? (Op.labels (Op.addressesFrom 0 d.ops.toList)) [] = none := by
  refine repeatedLabel?_eq_none (List.nodup_iff_count_le_one.2 fun l => ?_) (by simp)
  rw [count_labels]
  show d.placed l ≤ 1
  by_cases hl : l.index < d.labelCount
  · exact (h.placed l hl).le
  · rw [h.unplaced l (Nat.not_lt.1 hl)]
    exact Nat.zero_le 1

lemma mem_heapOrder (h : d.Finished env rules) {op : Op} (hop : op ∈ d.ops.toList)
    (hv : op.var? = some v) : v ∈ d.heapOrder env := by
  obtain ⟨hhas, hvalue, -⟩ := (h.linked op hop).var v hv
  exact mem_heapOrder_iff.2 ⟨hhas, .inr ⟨hvalue, List.mem_filterMap.2 ⟨op, hop, hv⟩⟩⟩

lemma slotValue (h : d.Finished env rules) (hv : v ∈ d.heapOrder env) :
    ∃ x, slotValue env (Op.labels (Op.addressesFrom 0 d.ops.toList)) (d.vars.get v) = .ok x := by
  unfold Draft.slotValue
  split
  · rename_i l hl
    have hfield : (d.vars.get v).isField = false := by simp [Variable.isField, hl]
    obtain ⟨-, hv⟩ := mem_heapOrder_iff.1 hv
    obtain ⟨-, hv⟩ := hv.resolve_left (by simp [hfield])
    obtain ⟨op, hop, hv⟩ := List.mem_filterMap.1 hv
    obtain ⟨a, ha⟩ := h.resolves (((h.linked op hop).var v hv).2.2 l hl)
    exact ⟨_, by rw [ha]; rfl⟩
  · exact ⟨_, rfl⟩

lemma instruction? (h : d.Finished env rules) {op : Op} (hop : op ∈ d.ops.toList) :
    ∃ i, instruction? (d.heapOrder env) (Op.labels (Op.addressesFrom 0 d.ops.toList)) op =
      .ok i := by
  have hindex {v : VarRef} (hv : op.var? = some v) :
      ∃ x, heapIndex (d.heapOrder env) v = .ok x := by
    obtain ⟨k, hk⟩ := Option.isSome_iff_exists.1 (List.isSome_idxOf?.2 (h.mem_heapOrder hop hv))
    exact ⟨_, by rw [heapIndex, hk]⟩
  have hlabel {l : Label} (hl : op.target? = some l) :=
    h.resolves ((h.linked op hop).target l hl)
  cases op with
  | push v | invoke v | jumpIndirect v | remark v =>
    obtain ⟨x, hx⟩ := hindex rfl
    exact ⟨_, by rw [Draft.instruction?, hx]; rfl⟩
  | jump l | jumpIfFalse l =>
    obtain ⟨a, ha⟩ := hlabel rfl
    exact ⟨_, by rw [Draft.instruction?, ha]; rfl⟩
  | pop | copy | nop | mark | source | entry => exact ⟨_, rfl⟩

/-- **A layout does not fail over a label or a slot.** -/
lemma layout_error (h : d.Finished env rules) {e : CompileError} (he : d.layout env = .error e) :
    e.aboutPlace = false := by
  unfold layout at he
  simp only [h.repeatedLabel?] at he
  by_cases hcode : Host.haltAddress.toNat < d.codeSize
  · rw [if_pos hcode] at he
    obtain rfl := Except.error.inj he
    rfl
  by_cases hheap : UInt32.size < (d.heapOrder env).length
  · rw [if_neg hcode, if_pos hheap] at he
    obtain rfl := Except.error.inj he
    rfl
  rw [if_neg hcode, if_neg hheap] at he
  rcases except_bind_eq_error_iff.1 he with he | ⟨heap, -, he⟩
  · rcases slots_error he with ⟨name, rfl⟩ | ⟨v, hv, he⟩
    · rfl
    · obtain ⟨r, hr, rfl⟩ := List.mem_map.1 hv
      obtain ⟨x, hx⟩ := h.slotValue hr
      rw [hx] at he
      cases he
  · rcases except_bind_eq_error_iff.1 he with he | ⟨code, -, he⟩
    · obtain ⟨op, hop, he⟩ := mapM_error he
      obtain ⟨i, hi⟩ := h.instruction? hop
      rw [hi] at he
      cases he
    · cases he

end Finished

end Draft

end FlatHeap
