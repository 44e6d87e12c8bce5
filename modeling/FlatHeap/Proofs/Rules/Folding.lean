import FlatHeap.Proofs.Scalars
import FlatHeap.Rules.Arithmetic

/-!
# Operators on constants

An operator on two constants is evaluated when the code is made, and otherwise by the host when it is
executed.  Both compute with exact integers and reduce the result to the type of the operator, so they
agree as soon as the exact results do.  The operands are in range, which is why reducing them first
makes no difference; division by zero is left to the host.

Shifts are where the two part.  Folding takes the count modulo the width of the type, the host modulo
64 whatever the type.  For types of 32 bits this is the same only if the remainder modulo 64 is less
than 32 (`folding_agrees_with_operator`), and otherwise the host shifts everything out
(`folded_shift_disagrees`).
-/

namespace FlatHeap

open Bytecode (Opcode)
open Rules (operatorName isShift)

def Bytecode.Opcode.binaryOperators : List Opcode :=
  [.add, .sub, .mul, .div, .divUn, .rem, .remUn, .and, .or, .xor, .shl, .shr, .shrUn]

/-- Kind of the right operand of an operator.  Counts of shifts are 32-bit integers. -/
def IntKind.rightOperand (k : IntKind) (op : Opcode) : IntKind := if isShift op then .int32 else k

variable {md : Metadata} {op : Opcode} {k : IntKind} {a b r : Int}

lemma foldBinary?_int (hmd : md.Built) {j : IntKind} (x : BitVec k.bits) (y : BitVec j.bits) :
    md.foldBinary? op k.type (.int k x) (.int j y) =
      (Metadata.foldIntegers? op k.format (k.toInt x) (j.toInt y)).map (Value.ofInt k) := by
  have hkind : md.kind k.type = .int k := Scalar.kind_type hmd (.int k)
  have hvalue (r : Int) : md.integerValue? k.type (k.format.wrap r) = some (.ofInt k r) := by
    have h := Scalar.integerValue?_type hmd (.int k) (k.format.wrap r)
    simp only [Scalar.type, Scalar.ofInt, Value.ofInt, IntKind.ofInt_wrap] at h
    exact h
  simp only [Metadata.foldBinary?, hkind, Value.integer?_int, Option.bind_eq_bind, Option.bind_some,
    hvalue]
  cases Metadata.foldIntegers? op k.format (k.toInt x) (j.toInt y) <;> rfl

lemma integerOperator_of_shift (hs : isShift op = true) (ha : k.format.Holds a)
    (hcount : (b % k.bits).toNat = Host.shiftCount b)
    (h : Metadata.foldIntegers? op k.format a b = some r) :
    Host.integerOperator (operatorName op) a b k.hostType = some (Host.ofInteger k.hostType r) := by
  have hx : k.format.wrap a = a := IntFormat.wrap_of_holds k.proper ha
  cases op with
  | shl | shr | shrUn =>
    simp only [Metadata.foldIntegers?, hx, hcount, Option.some.injEq] at h
    exact h ▸ rfl
  | _ => cases hs

lemma integerOperator_of_fold (hop : op ∈ Opcode.binaryOperators) (hs : isShift op = false)
    (ha : k.format.Holds a) (hb : k.format.Holds b)
    (h : Metadata.foldIntegers? op k.format a b = some r) :
    Host.integerOperator (operatorName op) a b k.hostType = some (Host.ofInteger k.hostType r) ∨
      op = .mul ∧
        Host.integerOperator (operatorName op) a b k.hostType = some (.error .outOfRoom) := by
  have hx : k.format.wrap a = a := IntFormat.wrap_of_holds k.proper ha
  have hy : k.format.wrap b = b := IntFormat.wrap_of_holds k.proper hb
  cases op with
  | add | sub | and | or | xor =>
    simp only [Metadata.foldIntegers?, hx, hy, Option.some.injEq] at h
    exact .inl (h ▸ rfl)
  | mul =>
    simp only [Metadata.foldIntegers?, hx, hy, Option.some.injEq] at h
    subst h
    by_cases hroom : Binary.clampWide (a * b) = a * b
    · exact .inl (congrArg some (if_pos hroom))
    · exact .inr ⟨rfl, congrArg some (if_neg hroom)⟩
  | div | divUn | rem | remUn =>
    simp only [Metadata.foldIntegers?, hx, hy, Option.ite_none_left_eq_some, Option.some.injEq] at h
    obtain ⟨hzero, rfl⟩ := h
    exact .inl (if_neg hzero)
  | shl | shr | shrUn => cases hs
  | _ => exact absurd hop (by decide)

/-! ## Shifts by more than the width -/

/-- What is left of an integer when a shift moves every digit out. -/
def shiftedOut : Opcode → Int → Int
  | .shl, _ => 0
  | _, a => if a < 0 then -1 else 0

lemma IntFormat.Holds.bounds {f : IntFormat} (h : f.Holds a) : -2 ^ f.bits ≤ a ∧ a < 2 ^ f.bits := by
  have hmono : (2 : Int) ^ (f.bits - 1) ≤ 2 ^ f.bits := by gcongr <;> omega
  have hpos : (0 : Int) < 2 ^ f.bits := by positivity
  simp only [IntFormat.Holds, IntFormat.least, IntFormat.greatest] at h
  split at h <;> omega

lemma ofInt_shiftLeft_of_le {n : Nat} (h : k.bits ≤ n) :
    Value.ofInt k (a * 2 ^ n) = .ofInt k 0 := by
  have hdvd : (2 : Int) ^ k.bits ∣ a * 2 ^ n := (pow_dvd_pow 2 h).mul_left a
  have hwrap : k.format.wrap (a * 2 ^ n) = k.format.wrap 0 := by
    apply IntFormat.wrap_congr
    rw [Int.zero_emod]
    exact Int.emod_eq_zero_of_dvd hdvd
  rw [Value.ofInt, Value.ofInt, ← IntKind.ofInt_wrap, hwrap, IntKind.ofInt_wrap]

lemma shiftRight_of_le {n : Nat} (ha : k.format.Holds a) (h : k.bits ≤ n) :
    a >>> n = if a < 0 then -1 else 0 := by
  have hpow : (2 : Int) ^ k.format.bits ≤ 2 ^ n := pow_le_pow_right₀ (by decide) h
  have hpos : (0 : Int) < 2 ^ n := by positivity
  obtain ⟨hlow, hhigh⟩ := ha.bounds
  rw [Int.shiftRight_eq_div_pow]
  push_cast
  split
  · rw [Int.ediv_eq_iff_of_pos hpos]
    omega
  · exact Int.ediv_eq_zero_of_lt (by omega) (by omega)

lemma integerOperator_of_long_shift (hs : isShift op = true) (ha : k.format.Holds a)
    (hcount : k.bits ≤ Host.shiftCount b) :
    Host.integerOperator (operatorName op) a b k.hostType =
      some (.ok (.ofInt k (shiftedOut op a))) := by
  have hresult (i : Int) : Host.ofInteger k.hostType i = .ok (.ofInt k i) :=
    Scalar.ofInteger_hostType (.int k) i
  have hleft : some (Host.ofInteger k.hostType (a * 2 ^ Host.shiftCount b)) =
      some (.ok (.ofInt k 0)) := by
    rw [hresult, ofInt_shiftLeft_of_le hcount]
  have hright : some (Host.ofInteger k.hostType (a >>> Host.shiftCount b)) =
      some (.ok (.ofInt k (if a < 0 then -1 else 0))) := by
    rw [hresult, shiftRight_of_le ha hcount]
  cases op with
  | shl => exact hleft
  | shr | shrUn => exact hright
  | _ => cases hs

/-! ## The two ways agree -/

lemma integerOperator_cases (hop : op ∈ Opcode.binaryOperators) (hk : 32 ≤ k.bits)
    (ha : k.format.Holds a) (hb : (k.rightOperand op).format.Holds b)
    (h : Metadata.foldIntegers? op k.format a b = some r) :
    let computed := Host.integerOperator (operatorName op) a b k.hostType
    if isShift op ∧ k.bits ≤ b % 64 then computed = some (.ok (.ofInt k (shiftedOut op a)))
    else computed = some (.ok (.ofInt k r)) ∨
      op = .mul ∧ computed = some (.error .outOfRoom) := by
  have hresult : Host.ofInteger k.hostType r = .ok (.ofInt k r) :=
    Scalar.ofInteger_hostType (.int k) r
  have hbits : k.bits = 32 ∨ k.bits = 64 := by cases k <;> simp_all [IntKind.bits, IntKind.format]
  dsimp only
  rw [← hresult]
  cases hs : isShift op with
  | true =>
    split
    case isTrue hlong =>
      apply integerOperator_of_long_shift hs ha
      rw [Host.shiftCount]
      omega
    case isFalse hshort =>
      have hcount : (b % k.bits).toNat = Host.shiftCount b := by
        have hlt : b % 64 < k.bits := by simpa using hshort
        rw [Host.shiftCount]
        rcases hbits with hbits | hbits <;> rw [hbits] at hlt ⊢ <;> omega
      exact .inl (integerOperator_of_shift hs ha hcount h)
  | false =>
    rw [if_neg (by simp)]
    rw [IntKind.rightOperand, hs, if_neg Bool.false_ne_true] at hb
    exact integerOperator_of_fold hop hs ha hb h

lemma evaluate_operatorName (op : Opcode) {x y : Value} {result : String}
    (hx : x.integer? = some a) (hy : y.integer? = some b) :
    Host.evaluate (operatorName op) [x, y] result =
      (Host.integerOperator (operatorName op) a b result).getD
        (.error (.unknown (operatorName op))) := by
  have hname : Host.isConversion (operatorName op) = false ∧ operatorName op ≠ "op_Equality" ∧
      operatorName op ≠ "op_Inequality" := by
    cases op <;> decide
  simp [Host.evaluate, Host.evaluateBinary, hname, hx, hy]

/-- **Folding agrees with the operator of the host.**  Let an operator be folded on constants of a type
of 32 or 64 bits.  The operation that is recorded for operands that are not constants takes two
operands, and on the same two values it gives what folding gives, unless a product needs more than 128
bits.  The exception is a shift of a type of 32 bits whose count is 32 or more modulo 64, which moves
every digit out. -/
theorem folding_agrees_with_operator {env : ClassEnv} (hmd : env.md.Built) {op : Opcode}
    (hop : op ∈ Opcode.binaryOperators) {k : IntKind} (hk : 32 ≤ k.bits)
    (x : BitVec k.bits) (y : BitVec (k.rightOperand op).bits) {v : Value}
    (hfold : env.md.foldBinary? op k.type (.int k x) (.int (k.rightOperand op) y) = some v) :
    ∃ call, Host.Signature.parse? (Host.Signature.render (env.ident k.type) (operatorName op)
        [env.ident k.type, env.ident (k.rightOperand op).type] (env.ident k.type)) = some call ∧
      call.arity = 2 ∧
      let computed := Host.evaluate call.member [.int k x, .int (k.rightOperand op) y] call.result
      if isShift op ∧ k.bits ≤ (k.rightOperand op).toInt y % 64 then
        computed = .ok (.ofInt k (shiftedOut op (k.toInt x)))
      else computed = .ok v ∨ op = .mul ∧ computed = .error .outOfRoom := by
  have hident (j : IntKind) : env.ident j.type = j.hostType :=
    Scalar.hostIdent_type hmd (.int j) env.options.behaviourType
  have hparse : Host.Signature.parse? (Host.Signature.render k.hostType (operatorName op)
      [k.hostType, (k.rightOperand op).hostType] k.hostType) =
        some ⟨operatorName op, 2, k.hostType⟩ := by
    have hword (j : IntKind) := Scalar.word_hostType (.int j)
    apply Host.Signature.parse?_render (hword k).2.2 (by cases op <;> decide) _ (hword k).2.1
    simp only [List.forall_mem_cons, List.not_mem_nil]
    exact ⟨(hword k).1, (hword _).1, nofun⟩
  rw [hident, hident]
  refine ⟨_, hparse, rfl, ?_⟩
  rw [foldBinary?_int hmd, Option.map_eq_some_iff] at hfold
  obtain ⟨r, hr, rfl⟩ := hfold
  have hcases := integerOperator_cases hop hk (IntKind.holds_toInt x) (IntKind.holds_toInt y) hr
  simp only [evaluate_operatorName op (Value.integer?_int k x) (Value.integer?_int _ y)]
  split at hcases
  case isTrue hlong =>
    rw [if_pos hlong, hcases]
    rfl
  case isFalse hshort =>
    rw [if_neg hshort]
    rcases hcases with hok | ⟨hmul, herr⟩
    · rw [hok]
      exact .inl rfl
    · rw [herr]
      exact .inr ⟨hmul, rfl⟩

/-- The least integer divided by minus one, where the exact quotient is out of range. -/
theorem folding_agrees_with_operator_least :
    let env : ClassEnv := ⟨{}, {}, .object, { owner := .object }⟩
    let least : BitVec IntKind.int32.bits := BitVec.ofInt 32 (-2147483648)
    let minusOne : BitVec IntKind.int32.bits := BitVec.ofInt 32 (-1)
    env.md.foldBinary? .div .int32 (.int .int32 least) (.int .int32 minusOne) =
        some (.int .int32 least) ∧
      ∃ call, Host.Signature.parse? (Host.Signature.render (env.ident .int32) (operatorName .div)
          [env.ident .int32, env.ident .int32] (env.ident .int32)) = some call ∧
        call.arity = 2 ∧
        let computed := Host.evaluate call.member [.int .int32 least, .int .int32 minusOne] call.result
        if isShift .div ∧ IntKind.int32.bits ≤ IntKind.int32.toInt minusOne % 64 then
          computed = .ok (.ofInt .int32 (shiftedOut .div (IntKind.int32.toInt least)))
        else computed = .ok (.int .int32 least) ∨
          Opcode.div = .mul ∧ computed = .error .outOfRoom := by
  intro env least minusOne
  have hfold : env.md.foldBinary? .div .int32 (.int .int32 least) (.int .int32 minusOne) =
      some (.int .int32 least) := by
    decide +kernel
  exact ⟨hfold, @folding_agrees_with_operator env .empty .div (by decide) .int32 (by decide) least
    minusOne _ hfold⟩

/-- **A shift that folding and the host do not agree on.**  One shifted by 32 places is one when the
constants are folded, and zero when the host shifts. -/
theorem folded_shift_disagrees :
    let one : Value := .ofInt .int32 1
    let places : Value := .ofInt .int32 32
    Metadata.foldBinary? {} .shl .int32 one places = some one ∧
      Host.evaluate (operatorName .shl) [one, places] IntKind.int32.hostType =
        .ok (.ofInt .int32 0) := by
  decide +kernel

end FlatHeap
