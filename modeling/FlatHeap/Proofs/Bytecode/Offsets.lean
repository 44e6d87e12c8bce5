import Mathlib.Data.List.TakeWhile
import Mathlib.Tactic
import FlatHeap.Compiler
import FlatHeap.Proofs.Failure

/-!
# Offsets of decoded instructions

Decoding lists instructions by growing offset and makes sure that every branch names the offset of one
of them.  A method is lowered from a position on, the whole body or what remains of a constructor, and
no branch there leads to an instruction in front of it (`Portion`).  So every branch lands on an
instruction of the portion that does something, or at the end of the body.
-/

namespace FlatHeap

namespace Bytecode

variable {md : Metadata} {bodySize offset start : Nat} {bytes : List UInt8}
  {code : List Instruction} {i : Instruction}

lemma offset_of_decodeOne (h : decodeOne md bodySize offset bytes = .ok i) : i.offset = offset := by
  unfold decodeOne at h
  split at h
  · cases h
  · obtain ⟨operand, -, h⟩ := except_bind_eq_ok_iff.1 h
    obtain rfl := Except.ok.inj h
    rfl

lemma decodeFrom_offsets (h : decodeFrom md bodySize offset bytes = .ok code) :
    code.Pairwise (fun a b => a.offset < b.offset) ∧ ∀ i ∈ code, offset ≤ i.offset := by
  induction offset, bytes using decodeFrom.induct generalizing code with
  | case1 offset =>
    rw [decodeFrom] at h
    obtain rfl := Except.ok.inj h
    simp
  | case2 offset b rest ih =>
    rw [decodeFrom] at h
    obtain ⟨i, hi, h⟩ := except_bind_eq_ok_iff.1 h
    obtain ⟨others, hothers, h⟩ := except_bind_eq_ok_iff.1 h
    obtain rfl := Except.ok.inj h
    obtain ⟨hincreasing, hbehind⟩ := ih i hothers
    have hoffset := offset_of_decodeOne hi
    have hsize := i.size_pos
    refine ⟨List.pairwise_cons.2 ⟨fun j hj => ?_, hincreasing⟩, fun j hj => ?_⟩
    · have := hbehind j hj
      omega
    · rcases List.mem_cons.1 hj with rfl | hj
      · exact hoffset.ge
      · have := hbehind j hj
        omega

structure WellFormed (code : List Instruction) : Prop where
  increasing : code.Pairwise fun a b => a.offset < b.offset
  targets : ∀ i ∈ code, ∀ t ∈ i.targets, ∃ j ∈ code, j.offset = t

lemma strayTarget?_eq_none_iff :
    strayTarget? code = none ↔ ∀ i ∈ code, ∀ t ∈ i.targets, ∃ j ∈ code, j.offset = t := by
  simp [strayTarget?, List.findSome?_eq_none_iff]

lemma wellFormed_of_decode (h : decode md bytes = .ok code) : WellFormed code := by
  obtain ⟨code', hfrom, h⟩ := except_bind_eq_ok_iff.1 h
  split at h
  · cases h
  rename_i hstray
  obtain rfl := Except.ok.inj h
  exact ⟨(decodeFrom_offsets hfrom).1, strayTarget?_eq_none_iff.1 hstray⟩

/-- What is lowered of a body: no branch leads in front of it. -/
structure Portion (code : List Instruction) (start : Nat) : Prop extends WellFormed code where
  closed : ∀ i ∈ code.drop start, ∀ t ∈ i.targets, ∃ j ∈ code.drop start, j.offset = t

lemma WellFormed.portion (h : WellFormed code) : Portion code 0 := ⟨h, h.targets⟩

lemma WellFormed.portion_of_le (h : WellFormed code) {first : Nat}
    (hfront : ∀ j ∈ code.take start, j.offset < first)
    (hle : ∀ i ∈ code.drop start, ∀ t ∈ i.targets, first ≤ t) : Portion code start := by
  refine ⟨h, fun i hi t ht => ?_⟩
  obtain ⟨j, hj, rfl⟩ := h.targets i (List.mem_of_mem_drop hi) t ht
  rw [← List.take_append_drop start code, List.mem_append] at hj
  rcases hj with hj | hj
  · exact absurd (hle i hi _ ht) (Nat.not_le.2 (hfront j hj))
  · exact ⟨j, hj, rfl⟩

lemma landingOffset_spec {t : Nat} (h : ∃ j ∈ code, j.offset = t) :
    landingOffset code t = endOfBody ∨
      ∃ i ∈ code, i.offset = landingOffset code t ∧ i.opcode ≠ .nop := by
  obtain ⟨j, hj, rfl⟩ := h
  unfold landingOffset
  split
  · rename_i hnone
    simpa using List.dropWhile_eq_nil_iff.1 hnone j hj
  · rename_i rest hrest
    cases hfind : (code.dropWhile (·.offset != j.offset)).find? (·.opcode != .nop) with
    | none => exact .inl rfl
    | some i =>
      refine .inr ⟨i, (List.dropWhile_suffix _).subset (List.mem_of_find?_eq_some hfind), rfl, ?_⟩
      simpa using List.find?_some hfind

end Bytecode

/-! ## Constructors -/

namespace Initializer

variable {md : Metadata} {naming : Naming} {t : TypeRef} {init : Initializer} {start : Nat}

lemma isCtor_of_plainCtor {ctor : MethodRef} (h : plainCtor md t = .ok (some ctor)) :
    (md.method ctor).isCtor = true := by
  simp only [plainCtor] at h
  split at h
  · rename_i m hm
    obtain rfl := Option.some.inj (Except.ok.inj h)
    have hmem := (List.mem_filter.1 (List.mem_of_find?_eq_some hm)).2
    exact (Bool.and_eq_true_iff.1 hmem).1
  · cases Except.ok.inj h
  · cases h

lemma le_of_checkRemainder {name : String} {rest : List Bytecode.Instruction} {u : Unit}
    (h : checkRemainder name start rest = .ok u) : ∀ i ∈ rest, ∀ t ∈ i.targets, start ≤ t := by
  unfold checkRemainder at h
  split at h
  · rename_i hnone
    intro i hi t ht
    simpa using fun hlt => List.find?_eq_none.1 hnone i hi (List.any_eq_true.2 ⟨t, ht, hlt⟩)
  · cases h

lemma portion_of_findIdx {code : List Bytecode.Instruction} (hcode : Bytecode.WellFormed code)
    (hle : ∀ i ∈ code.drop (code.findIdx (·.offset == start)), ∀ t ∈ i.targets, start ≤ t) :
    Bytecode.Portion code (code.findIdx (·.offset == start)) := by
  rcases (@List.findIdx_le_length _ (·.offset == start) code).lt_or_eq with hlt | heq
  · refine hcode.portion_of_le (fun j hj => ?_) hle
    obtain ⟨n, hn, rfl⟩ := List.mem_take_iff_getElem.1 hj
    have hfirst : code[code.findIdx (·.offset == start)].offset = start := by
      simpa using List.findIdx_getElem (w := hlt)
    have hbefore := List.pairwise_iff_getElem.1 hcode.increasing n _ (lt_min_iff.1 hn).2 hlt
      (lt_min_iff.1 hn).1
    exact hbefore.trans_eq hfirst
  · rw [heq]
    refine ⟨hcode, fun i hi => ?_⟩
    simp at hi

lemma remainder_spec {r : Remainder} (h : ofClass md naming t = .ok init)
    (hr : init.remainder? = some r) :
    Bytecode.Portion r.code r.start ∧ (md.method r.ctor).isCtor = true ∧
      ∃ body, (md.method r.ctor).body = some body ∧ Bytecode.decode md body.code = .ok r.code := by
  rw [ofClass] at h
  obtain ⟨ctor, hctor, h⟩ := except_bind_eq_ok_iff.1 h
  split at h
  swap
  · obtain rfl := Except.ok.inj h
    cases hr
  rename_i ctor
  split at h
  swap
  · obtain rfl := Except.ok.inj h
    cases hr
  rename_i body hbody
  obtain ⟨code, hcode, h⟩ := except_bind_eq_ok_iff.1 h
  obtain ⟨initial, -, h⟩ := except_bind_eq_ok_iff.1 h
  split at h
  · obtain rfl := Except.ok.inj h
    cases hr
  rename_i start hstart
  obtain ⟨u, hcheck, h⟩ := except_bind_eq_ok_iff.1 h
  obtain rfl := Except.ok.inj h
  obtain rfl := Option.some.inj hr
  have hdecode : Bytecode.decode md body.code = .ok code := mapError_eq_ok_iff.1 hcode
  exact ⟨portion_of_findIdx (Bytecode.wellFormed_of_decode hdecode) (le_of_checkRemainder hcheck),
    isCtor_of_plainCtor hctor, body, hbody, hdecode⟩

end Initializer

end FlatHeap
