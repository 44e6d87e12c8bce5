import Mathlib.Tactic
import FlatHeap.Host.Program
import FlatHeap.Proofs.Failure

/-!
# Host code as bytes

Encoding and decoding of host code are inverse to each other.  An instruction is well-formed if it has
an operand exactly when its opcode takes one; these are the instructions that decoding gives, and each
of them is decoded from its encoding whatever stands behind it (`decodeFrom_encode_append`).

Bytes that are not empty start with the encoding of a well-formed instruction or with a fault
(`encode_or_fault`).  The induction over the bytes goes by this alternative: everything in front of the
fault is whole instructions, so the position of an error is the end of what decodes, or one word behind
it where the operand is missing.
-/

namespace FlatHeap.Host

/-! ## Words -/

lemma mul_or_eq_add {n y : Nat} (x : Nat) (small : y < 2 ^ n) :
    (x * 2 ^ n ||| y) = x * 2 ^ n + y := by
  rw [← Nat.shiftLeft_eq, Nat.shiftLeft_add_eq_or_of_lt small]

lemma toNat_shifted {x : UInt8} {n : UInt32} (small : x.toNat * 2 ^ (n.toNat % 32) < 2 ^ 32) :
    (x.toUInt32 <<< n).toNat = x.toNat * 2 ^ (n.toNat % 32) := by
  rw [UInt32.toNat_shiftLeft, UInt8.toNat_toUInt32, Nat.shiftLeft_eq, Nat.mod_eq_of_lt small]

lemma toNat_wordOfBytes (a b c d : UInt8) :
    (wordOfBytes a b c d).toNat =
      a.toNat * 2 ^ 24 + b.toNat * 2 ^ 16 + c.toNat * 2 ^ 8 + d.toNat := by
  have := a.toNat_lt
  have := b.toNat_lt
  have := c.toNat_lt
  have := d.toNat_lt
  have first : (a.toUInt32 <<< 24).toNat = a.toNat * 2 ^ 24 := toNat_shifted (by simp; omega)
  have second : (b.toUInt32 <<< 16).toNat = b.toNat * 2 ^ 16 := toNat_shifted (by simp; omega)
  have third : (c.toUInt32 <<< 8).toNat = c.toNat * 2 ^ 8 := toNat_shifted (by simp; omega)
  -- each byte lies below the ones in front of it
  calc (wordOfBytes a b c d).toNat
      = ((a.toNat * 2 ^ 24 ||| b.toNat * 2 ^ 16) ||| c.toNat * 2 ^ 8) ||| d.toNat := by
        rw [wordOfBytes, UInt32.toNat_or, UInt32.toNat_or, UInt32.toNat_or, first, second, third,
          UInt8.toNat_toUInt32]
    _ = ((a.toNat * 2 ^ 8 + b.toNat) * 2 ^ 16 ||| c.toNat * 2 ^ 8) ||| d.toNat := by
        rw [mul_or_eq_add (n := 24) _ (by omega), Nat.add_mul, Nat.mul_assoc, ← Nat.pow_add]
    _ = ((a.toNat * 2 ^ 8 + b.toNat) * 2 ^ 8 + c.toNat) * 2 ^ 8 ||| d.toNat := by
        rw [mul_or_eq_add (n := 16) _ (by omega), Nat.add_mul _ c.toNat, Nat.mul_assoc _ (2 ^ 8),
          ← Nat.pow_add]
    _ = a.toNat * 2 ^ 24 + b.toNat * 2 ^ 16 + c.toNat * 2 ^ 8 + d.toNat := by
        rw [mul_or_eq_add (n := 8) _ (by omega)]
        omega

lemma wordBytes_eq_iff {w : UInt32} {a b c d : UInt8} :
    wordBytes w = [a, b, c, d] ↔ wordOfBytes a b c d = w := by
  have := a.toNat_lt
  have := b.toNat_lt
  have := c.toNat_lt
  have := d.toNat_lt
  have := w.toNat_lt
  simp only [wordBytes, List.cons.injEq, and_true, ← UInt8.toNat_inj, ← UInt32.toNat_inj,
    toNat_wordOfBytes, UInt32.toNat_toUInt8, UInt32.toNat_shiftRight, Nat.shiftRight_eq_div_pow,
    UInt32.reduceToNat, Nat.reduceMod, Nat.reducePow]
  omega

lemma exists_wordBytes (w : UInt32) :
    ∃ a b c d, wordBytes w = [a, b, c, d] ∧ wordOfBytes a b c d = w :=
  ⟨_, _, _, _, rfl, wordBytes_eq_iff.1 rfl⟩

lemma exists_eq_wordBytes_append {bytes : List UInt8} (long : 4 ≤ bytes.length) :
    ∃ w rest, bytes = wordBytes w ++ rest := by
  match bytes, long with
  | a :: b :: c :: d :: rest, _ =>
    refine ⟨wordOfBytes a b c d, rest, ?_⟩
    rw [wordBytes_eq_iff.2 rfl]
    rfl

/-! ## Instructions -/

namespace Opcode

lemma ofCode?_eq_some_iff {w : UInt32} {op : Opcode} : ofCode? w = some op ↔ op.code = w := by
  constructor
  · intro h
    simpa using List.find?_some h
  · rintro rfl
    exact ofCode?_code op

end Opcode

namespace Instruction

variable {i : Instruction}

lemma length_encode (i : Instruction) : i.encode.length = i.size := by
  simp only [encode, size, Opcode.size]
  split <;> rfl

lemma WellFormed.cases (h : i.WellFormed) :
    i.opcode.hasOperand = false ∧ i = bare i.opcode ∨
      i.opcode.hasOperand = true ∧ ∃ w, i = unary i.opcode w := by
  obtain ⟨op, operand⟩ := i
  cases operand with
  | none => exact .inl ⟨h.symm, rfl⟩
  | some w => exact .inr ⟨h.symm, w, rfl⟩

end Instruction

variable {position : Nat} {bytes rest : List UInt8}

lemma length_encode (code : List Instruction) :
    (encode code).length = (code.map Instruction.size).sum := by
  induction code with
  | nil => rfl
  | cons i code ih =>
    have split : encode (i :: code) = i.encode ++ encode code := List.flatMap_cons
    rw [split, List.length_append, i.length_encode, ih, List.map_cons, List.sum_cons]

/-! ## Decoding -/

lemma decodeFrom_word {op : Opcode} :
    decodeFrom position (wordBytes op.code ++ rest) =
      if op.hasOperand then
        match rest with
        | e :: f :: g :: h :: rest =>
          (decodeFrom (position + 8) rest).map (.unary op (wordOfBytes e f g h) :: ·)
        | _ => .error (.truncated (position + 4))
      else (decodeFrom (position + 4) rest).map (.bare op :: ·) := by
  obtain ⟨a, b, c, d, split, word⟩ := exists_wordBytes op.code
  rw [split]
  simp only [List.cons_append, List.nil_append]
  rw [decodeFrom, word]
  rcases rest with _ | ⟨_, _ | ⟨_, _ | ⟨_, _ | ⟨_, _⟩⟩⟩⟩ <;> simp only [Opcode.ofCode?_code]

/-- **One step.**  A well-formed instruction is decoded from its encoding, and what stands behind it
is decoded as if it stood alone. -/
lemma decodeFrom_encode_append {i : Instruction} (wf : i.WellFormed) :
    decodeFrom position (i.encode ++ rest) =
      (decodeFrom (position + i.size) rest).map (i :: ·) := by
  rcases wf.cases with ⟨none, same⟩ | ⟨some, w, same⟩
  · rw [same]
    simp only [Instruction.encode, Instruction.bare, none, Bool.false_eq_true, if_false,
      List.append_nil, decodeFrom_word, Instruction.size, Opcode.size]
  · obtain ⟨e, f, g, h, split, word⟩ := exists_wordBytes w
    rw [same]
    simp only [Instruction.encode, Instruction.unary, some, if_true, Option.getD_some,
      List.append_assoc, decodeFrom_word, split, List.cons_append, List.nil_append, word,
      Instruction.size, Opcode.size]

/-- What is wrong with bytes that start at a position. -/
def Faulty (position : Nat) (bytes : List UInt8) : DecodeError → Prop
  | .unknownOpcode p w =>
    p = position ∧ wordBytes w <+: bytes ∧ ∀ op : Opcode, op.code ≠ w
  | .truncated p =>
    p = position ∧ bytes ≠ [] ∧ bytes.length < 4 ∨
      p = position + 4 ∧ ∃ op : Opcode, op.hasOperand = true ∧
        ∃ rest, bytes = wordBytes op.code ++ rest ∧ rest.length < 4

lemma encode_or_fault (position : Nat) (nonempty : bytes ≠ []) :
    (∃ i : Instruction, i.WellFormed ∧ ∃ rest, bytes = i.encode ++ rest) ∨
      ∃ e, decodeFrom position bytes = .error e ∧ Faulty position bytes e := by
  by_cases long : 4 ≤ bytes.length
  swap
  · refine .inr ⟨.truncated position, ?_, .inl ⟨rfl, nonempty, by omega⟩⟩
    match bytes, nonempty, long with
    | [_], _, _ | [_, _], _, _ | [_, _, _], _, _ => rfl
    | _ :: _ :: _ :: _ :: _, _, long => simp at long
  obtain ⟨w, rest, rfl⟩ := exists_eq_wordBytes_append long
  cases known : Opcode.ofCode? w with
  | none =>
    refine .inr ⟨.unknownOpcode position w, ?_, rfl, List.prefix_append _ _, fun op same => ?_⟩
    · obtain ⟨a, b, c, d, split, word⟩ := exists_wordBytes w
      rw [split]
      simp only [List.cons_append, List.nil_append]
      rw [decodeFrom, word, known]
    · simp [Opcode.ofCode?_eq_some_iff.2 same] at known
  | some op =>
    obtain rfl := Opcode.ofCode?_eq_some_iff.1 known
    cases operand : op.hasOperand with
    | false => exact .inl ⟨.bare op, operand.symm, rest, by
        simp [Instruction.encode, Instruction.bare, operand]⟩
    | true =>
      by_cases more : 4 ≤ rest.length
      · obtain ⟨v, rest, rfl⟩ := exists_eq_wordBytes_append more
        exact .inl ⟨.unary op v, operand.symm, rest, by
          simp [Instruction.encode, Instruction.unary, operand]⟩
      · refine .inr ⟨.truncated (position + 4), ?_, .inr ⟨rfl, op, operand, rest, rfl, by omega⟩⟩
        rw [decodeFrom_word, if_pos operand]
        match rest, more with
        | [], _ | [_], _ | [_, _], _ | [_, _, _], _ => rfl
        | _ :: _ :: _ :: _ :: _, more => simp at more

lemma decodeFrom_encode {code : List Instruction} (wf : ∀ i ∈ code, i.WellFormed) :
    decodeFrom position (encode code) = .ok code := by
  induction code generalizing position with
  | nil => rfl
  | cons i code ih =>
    obtain ⟨here, behind⟩ := List.forall_mem_cons.1 wf
    have split : encode (i :: code) = i.encode ++ encode code := List.flatMap_cons
    rw [split, decodeFrom_encode_append here, ih behind]
    rfl

lemma decodeFrom_spec (position : Nat) (bytes : List UInt8) :
    ∃ code : List Instruction, (∀ i ∈ code, i.WellFormed) ∧
      (bytes = encode code ∧ decodeFrom position bytes = .ok code ∨
        ∃ rest e, bytes = encode code ++ rest ∧ decodeFrom position bytes = .error e ∧
          Faulty (position + (encode code).length) rest e) := by
  induction size : bytes.length using Nat.strong_induction_on generalizing position bytes with
  | _ n ih =>
    by_cases empty : bytes = []
    · subst empty
      exact ⟨[], by simp, .inl ⟨rfl, rfl⟩⟩
    rcases encode_or_fault position empty with ⟨i, wf, rest, rfl⟩ | ⟨e, refused, fault⟩
    swap
    · exact ⟨[], by simp, .inr ⟨bytes, e, rfl, refused, fault⟩⟩
    have shorter : rest.length < n := by
      have := i.length_encode
      have pos : 0 < i.size := by
        simp only [Instruction.size, Opcode.size]
        split <;> decide
      rw [← size, List.length_append]
      omega
    obtain ⟨code, all, h⟩ := ih _ shorter (position + i.size) rest rfl
    have split : encode (i :: code) = i.encode ++ encode code := List.flatMap_cons
    refine ⟨i :: code, List.forall_mem_cons.2 ⟨wf, all⟩, ?_⟩
    rw [decodeFrom_encode_append wf, split]
    rcases h with ⟨rfl, decoded⟩ | ⟨rest, e, rfl, refused, fault⟩
    · exact .inl ⟨rfl, by rw [decoded]; rfl⟩
    · refine .inr ⟨rest, e, (List.append_assoc _ _ _).symm, by rw [refused]; rfl, ?_⟩
      rwa [List.length_append, i.length_encode, ← Nat.add_assoc]

/-- Code whose instructions have their operands is decoded from its encoding, which is as long as the
instructions are together.  What decodes is the encoding of the result.  Bytes that do not decode are
the encoding of some instructions, which decodes, and behind it a word that is no opcode, less than a
word, or an opcode whose operand is cut off: the error is at the end of the instructions, or one word
behind it if the operand is what is missing. -/
theorem decode_inverts_encode :
    (∀ code : List Instruction, (encode code).length = (code.map Instruction.size).sum ∧
      ((∀ i ∈ code, i.WellFormed) → decode (encode code) = .ok code)) ∧
    (∀ bytes code, decode bytes = .ok code → encode code = bytes ∧ ∀ i ∈ code, i.WellFormed) ∧
    ∀ bytes e, decode bytes = .error e → ∃ code rest, bytes = encode code ++ rest ∧
      decode (encode code) = .ok code ∧ Faulty (encode code).length rest e := by
  refine ⟨fun code => ⟨length_encode code, decodeFrom_encode⟩, fun bytes code h => ?_,
    fun bytes e h => ?_⟩
  · obtain ⟨found, wf, ⟨rfl, decoded⟩ | ⟨rest, e, -, refused, -⟩⟩ := decodeFrom_spec 0 bytes
    · obtain rfl := Except.ok.inj (decoded.symm.trans h)
      exact ⟨rfl, wf⟩
    · cases refused.symm.trans h
  · obtain ⟨code, wf, ⟨-, decoded⟩ | ⟨rest, e', rfl, refused, fault⟩⟩ := decodeFrom_spec 0 bytes
    · cases decoded.symm.trans h
    · obtain rfl := Except.error.inj (refused.symm.trans h)
      exact ⟨code, rest, rfl, decodeFrom_encode wf, by rwa [Nat.zero_add] at fault⟩

/-- A jump whose operand is cut off behind a copy, and the number that no opcode has. -/
theorem decode_inverts_encode_cut :
    decode (encode [.unary .push 16, .bare .copy]) = .ok [.unary .push 16, .bare .copy] ∧
      (∃ code rest, [0, 0, 0, 9, 0, 0, 0, 5, 1] = encode code ++ rest ∧
        decode (encode code) = .ok code ∧ Faulty (encode code).length rest (.truncated 8)) ∧
      ∃ code rest, [0, 0, 0, 2, 0, 0, 0, 3] = encode code ++ rest ∧
        decode (encode code) = .ok code ∧ Faulty (encode code).length rest (.unknownOpcode 4 3) := by
  obtain ⟨inverse, -, refused⟩ := decode_inverts_encode
  exact ⟨(inverse _).2 (by decide), refused _ _ (by decide), refused _ _ (by decide)⟩

end FlatHeap.Host
