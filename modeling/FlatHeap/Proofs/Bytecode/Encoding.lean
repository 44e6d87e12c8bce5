import FlatHeap.Bytecode.Assembler
import FlatHeap.Bytecode.Decode
import FlatHeap.Proofs.Bytecode.Tokens
import FlatHeap.Proofs.Failure

/-!
# Encoding instructions

The encoder of decoded instructions: the bytes of the opcode, and those of the operand in the form
the opcode's operand kind prescribes.  It has no result where the operand is of another kind, has no
room in the form, or names a declaration that has no token.

An operand is decoded exactly from its encoding (`Site.operand_eq_ok_iff`), whatever stands behind
it.  The forms are treated one by one: numbers and words by `littleEndian` and `bytesOf` being
inverse to each other, displacements as words counted from the end of the instruction, and tokens by
`eq_token_of_resolve`.
-/

namespace FlatHeap.Bytecode

open Metadata (token)

variable {n : Nat} {bytes : List UInt8} {i : Instruction}

/-! ## Numbers -/

lemma length_bytesOf (n v : Nat) : (bytesOf n v).length = n := by
  induction n generalizing v with
  | zero => rfl
  | succ n ih => rw [bytesOf, List.length_cons, ih]

lemma littleEndian_lt (bytes : List UInt8) : littleEndian bytes < 256 ^ bytes.length := by
  induction bytes with
  | nil => decide
  | cons b rest ih =>
    have := b.toNat_lt
    rw [List.length_cons, pow_succ]
    simp only [littleEndian, List.foldr_cons] at ih ⊢
    omega

lemma littleEndian_bytesOf {v : Nat} (small : v < 256 ^ n) : littleEndian (bytesOf n v) = v := by
  induction n generalizing v with
  | zero => exact (Nat.lt_one_iff.1 small).symm
  | succ n ih =>
    have rest := ih (Nat.div_lt_of_lt_mul (by rwa [pow_succ'] at small) : v / 256 < 256 ^ n)
    simp only [littleEndian, bytesOf, List.foldr_cons] at rest ⊢
    rw [rest, UInt8.toNat_ofNat']
    omega

lemma bytesOf_littleEndian (bytes : List UInt8) :
    bytesOf bytes.length (littleEndian bytes) = bytes := by
  induction bytes with
  | nil => rfl
  | cons b rest ih =>
    have := b.toNat_lt
    have head : UInt8.ofNat (littleEndian (b :: rest)) = b := by
      rw [← UInt8.toNat_inj, UInt8.toNat_ofNat']
      simp only [littleEndian, List.foldr_cons]
      omega
    have tail : littleEndian (b :: rest) / 256 = littleEndian rest := by
      simp only [littleEndian, List.foldr_cons]
      omega
    rw [List.length_cons, bytesOf, head, tail, ih]

lemma toNat_wordOf {w : Nat} (len : 8 * bytes.length = w) :
    (wordOf w bytes).toNat = littleEndian bytes := by
  have small := littleEndian_lt bytes
  rw [show (256 : Nat) = 2 ^ 8 from rfl, ← pow_mul, len] at small
  rw [wordOf, BitVec.toNat_ofNat, Nat.mod_eq_of_lt small]

lemma bytesOf_eq_iff {w : Nat} (width : 8 * n = w) {x : BitVec w} :
    bytesOf n x.toNat = bytes ↔ bytes.length = n ∧ wordOf w bytes = x := by
  constructor
  · rintro rfl
    have len := length_bytesOf n x.toNat
    refine ⟨len, BitVec.eq_of_toNat_eq ?_⟩
    have small : x.toNat < 256 ^ n := by
      rw [show (256 : Nat) = 2 ^ 8 from rfl, ← pow_mul, width]
      exact x.isLt
    rw [toNat_wordOf (by rw [len, width]), littleEndian_bytesOf small]
  · rintro ⟨rfl, rfl⟩
    rw [toNat_wordOf width, bytesOf_littleEndian]

def numberBytes? (n v : Nat) : Option (List UInt8) :=
  if v < 256 ^ n then some (bytesOf n v) else none

/-- Bytes of a signed number that has room in them, in two's complement. -/
def signedBytes? (n : Nat) (v : Int) : Option (List UInt8) :=
  if -256 ^ n ≤ 2 * v ∧ 2 * v < 256 ^ n then some (bytesOf n (v % 256 ^ n).toNat) else none

lemma numberBytes?_eq_some_iff {v : Nat} :
    numberBytes? n v = some bytes ↔ bytes.length = n ∧ littleEndian bytes = v := by
  rw [numberBytes?, Option.ite_none_right_eq_some, Option.some.injEq]
  constructor
  · rintro ⟨small, rfl⟩
    exact ⟨length_bytesOf n v, littleEndian_bytesOf small⟩
  · rintro ⟨rfl, rfl⟩
    exact ⟨littleEndian_lt bytes, bytesOf_littleEndian bytes⟩

lemma signedBytes?_eq_some_iff {w : Nat} (pos : 0 < n) (width : 8 * n = w) {v : Int} :
    signedBytes? n v = some bytes ↔ bytes.length = n ∧ signedOf w bytes = v := by
  have span : (256 : Int) ^ n = 2 * 2 ^ (w - 1) := by
    rw [← pow_succ', show w - 1 + 1 = 8 * n by omega, pow_mul]
    norm_num
  have residue : (v % 256 ^ n).toNat = (BitVec.ofInt w v).toNat := by
    rw [BitVec.toNat_ofInt, ← width, pow_mul]
    norm_num
  rw [signedBytes?, Option.ite_none_right_eq_some, Option.some.injEq, residue,
    bytesOf_eq_iff width, span, signedOf]
  constructor
  · rintro ⟨range, len, word⟩
    refine ⟨len, ?_⟩
    rw [word, BitVec.toInt_ofInt_eq_self (by omega) (by omega) (by omega)]
  · rintro ⟨len, rfl⟩
    have low := BitVec.le_toInt (wordOf w bytes)
    have high := BitVec.toInt_lt (x := wordOf w bytes)
    exact ⟨⟨by omega, by omega⟩, len, (BitVec.ofInt_toInt).symm⟩

/-! ## The encoder -/

def tokenBytes? {α : Type} [DecidableEq α] (resolver : UInt32 → Option α) (token : UInt32) (a : α) :
    Option (List UInt8) :=
  if resolver token = some a then some (bytesOf 4 token.toNat) else none

namespace Instruction

def distance (i : Instruction) (t : Nat) : Int := t - (i.offset + i.size : Nat)

/-- Bytes of the table of a switch: the number of targets, and how far each of them is. -/
def tableBytes? (i : Instruction) (ts : List Nat) : Option (List UInt8) := do
  return (← numberBytes? 4 ts.length) ++ (← ts.mapM fun t => signedBytes? 4 (i.distance t)).flatten

/-- Bytes of the operand, if it is of the kind the opcode takes. -/
def operandBytes? (md : Metadata) (i : Instruction) : Option (List UInt8) :=
  match i.opcode.operandKind, i.operand with
  | .none, .none => some []
  | .implicitArg n, .arg m | .implicitLocal n, .localIndex m => if n = m then some [] else none
  | .implicitInt v, .int32 w => if BitVec.ofInt 32 v = w then some [] else none
  | .argShort, .arg n | .localShort, .localIndex n => numberBytes? 1 n
  | .arg, .arg n | .localIndex, .localIndex n => numberBytes? 2 n
  | .intShort, .int32 w => signedBytes? 1 w.toInt
  | .int32, .int32 w | .single, .single w => some (bytesOf 4 w.toNat)
  | .int64, .int64 w | .double, .double w => some (bytesOf 8 w.toNat)
  | .branchShort, .target t => signedBytes? 1 (i.distance t)
  | .branch, .target t => signedBytes? 4 (i.distance t)
  | .switch, .switch ts => i.tableBytes? ts
  | .typeToken, .type t => tokenBytes? md.resolveType? (token .type t.index) t
  | .fieldToken, .field f => tokenBytes? md.resolveField? (token .field f.index) f
  | .methodToken, .method m => tokenBytes? md.resolveMethod? (token .method m.index) m
  | .stringToken, .text s => tokenBytes? md.resolveString? (token .string (md.strings.idxOf s)) s
  | _, _ => none

/-- Bytes of the instruction: its opcode and its operand. -/
def encode? (md : Metadata) (i : Instruction) : Option (List UInt8) :=
  (i.operandBytes? md).map (i.opcode.bytes ++ ·)

end Instruction

/-! ## Operands -/

lemma groupsOfFour_flatten {groups : List (List UInt8)} (four : ∀ g ∈ groups, g.length = 4) :
    groupsOfFour groups.flatten = groups := by
  induction groups with
  | nil => rfl
  | cons g rest ih =>
    obtain ⟨a, b, c, d, rfl⟩ := List.length_eq_four.1 (four g List.mem_cons_self)
    have tail := ih fun g mem => four g (List.mem_cons_of_mem _ mem)
    simp [groupsOfFour, tail]

lemma groupsOfFour_spec {table : List UInt8} (len : table.length = 4 * n) :
    (groupsOfFour table).length = n ∧ (groupsOfFour table).flatten = table ∧
      ∀ g ∈ groupsOfFour table, g.length = 4 := by
  induction n generalizing table with
  | zero =>
    obtain rfl := List.length_eq_zero_iff.1 len
    exact ⟨rfl, rfl, by simp [groupsOfFour]⟩
  | succ n ih =>
    obtain ⟨a, b, c, d, rest, rfl⟩ : ∃ a b c d rest, table = a :: b :: c :: d :: rest := by
      match table, len with
      | a :: b :: c :: d :: rest, _ => exact ⟨a, b, c, d, rest, rfl⟩
    obtain ⟨count, joined, four⟩ := @ih rest (by simp at len; omega)
    refine ⟨by simp [groupsOfFour, count], by simp [groupsOfFour, joined], ?_⟩
    exact List.forall_mem_cons.2 ⟨rfl, four⟩

lemma Instruction.tableBytes?_eq_some_iff {ts : List Nat} :
    i.tableBytes? ts = some bytes ↔ ∃ count groups, bytes = count ++ groups.flatten ∧
      count.length = 4 ∧ littleEndian count = ts.length ∧ (∀ g ∈ groups, g.length = 4) ∧
      List.Forall₂ (fun t g => signedOf 32 g = i.distance t) ts groups := by
  -- the groups have the right size one by one, and are the displacements one by one
  have groups_iff (groups : List (List UInt8)) :
      List.Forall₂ (fun t g => g.length = 4 ∧ signedOf 32 g = i.distance t) ts groups ↔
        (∀ g ∈ groups, g.length = 4) ∧
          List.Forall₂ (fun t g => signedOf 32 g = i.distance t) ts groups := by
    constructor
    · intro h
      obtain ⟨len, each⟩ := (List.forall₂_and_left _ _).1 h.flip
      exact ⟨len, each.flip⟩
    · rintro ⟨len, each⟩
      exact ((List.forall₂_and_left _ _).2 ⟨len, each.flip⟩).flip
  simp only [Instruction.tableBytes?, Option.bind_eq_bind, Option.bind_eq_some_iff, Option.pure_def,
    Option.some.injEq, numberBytes?_eq_some_iff, mapM_eq_some_iff,
    signedBytes?_eq_some_iff (n := 4) (w := 32) (by decide) rfl, groups_iff]
  constructor
  · rintro ⟨count, ⟨four, number⟩, groups, ⟨len, each⟩, rfl⟩
    exact ⟨count, groups, rfl, four, number, len, each⟩
  · rintro ⟨count, groups, rfl, four, number, len, each⟩
    exact ⟨count, ⟨four, number⟩, groups, ⟨len, each⟩, rfl⟩

namespace Site

variable {s : Site} {bytes front : List UInt8} {o : Operand}

abbrev reading (s : Site) (o : Operand) : Instruction := ⟨s.offset, s.opcode, o⟩

lemma take_eq_ok_iff : s.take n bytes = .ok front ↔ front <+: bytes ∧ front.length = n := by
  simp only [take, takeBytes?]
  by_cases enough : (bytes.take n).length = n
  · rw [if_pos enough]
    constructor
    · rintro ⟨rfl⟩
      exact ⟨List.take_prefix n bytes, enough⟩
    · rintro ⟨⟨rest, rfl⟩, rfl⟩
      rw [List.take_left]
  · rw [if_neg enough]
    refine iff_of_false (by simp) ?_
    rintro ⟨⟨rest, rfl⟩, rfl⟩
    rw [List.take_left] at enough
    exact enough rfl

lemma take_bind_eq_ok_iff {α : Type} {f : List UInt8 → Except BodyError α} {a : α} :
    (s.take n bytes >>= f) = .ok a ↔
      ∃ front, front <+: bytes ∧ front.length = n ∧ f front = .ok a := by
  simp only [except_bind_eq_ok_iff, take_eq_ok_iff, and_assoc]

lemma target_eq_ok_iff {t : Nat} {d : Int}
    (stop : i.offset + i.size = s.offset + s.opcode.bytes.length + n) :
    s.target n d = .ok t ↔ t < s.bodySize ∧ d = i.distance t := by
  rw [target, Instruction.distance, stop]
  split <;> simp <;> omega


lemma take_word_iff {w : Nat} (width : 8 * n = w) {make : BitVec w → Operand}
    (inj : Function.Injective make) (x : BitVec w) :
    (do return make (wordOf w (← s.take n bytes))) = (.ok (make x) : Except BodyError Operand) ↔
      ∃ front, front <+: bytes ∧ some (bytesOf n x.toNat) = some front := by
  simp only [take_bind_eq_ok_iff, Option.some.injEq, bytesOf_eq_iff width]
  refine exists_congr fun front => and_congr_right fun _ => and_congr_right fun _ => ?_
  exact ⟨fun h => inj (Except.ok.inj h), fun h => congrArg (Except.ok ∘ make) h⟩

lemma take_target_iff {w t : Nat} (pos : 0 < n) (width : 8 * n = w)
    (size : s.opcode.operandKind.size? = some n) :
    (do return Operand.target (← s.target n (signedOf w (← s.take n bytes)))) = .ok (.target t) ↔
      t < s.bodySize ∧ ∃ front, front <+: bytes ∧
        signedBytes? n ((s.reading (.target t)).distance t) = some front := by
  have stop : (s.reading (.target t)).offset + (s.reading (.target t)).size =
      s.offset + s.opcode.bytes.length + n := by
    simp only [Instruction.size, size, Option.getD_some]
    omega
  have read (d : Int) : (do return Operand.target (← s.target n d)) = .ok (.target t) ↔
      t < s.bodySize ∧ d = (s.reading (.target t)).distance t := by
    rw [← target_eq_ok_iff stop, except_bind_eq_ok_iff]
    simp [pure, Except.pure]
  simp only [take_bind_eq_ok_iff, read, signedBytes?_eq_some_iff pos width]
  constructor
  · rintro ⟨front, start, len, inside, value⟩
    exact ⟨inside, front, start, len, value⟩
  · rintro ⟨inside, front, start, len, value⟩
    exact ⟨front, start, len, inside, value⟩

lemma switchTargets_eq_ok_iff {ts : List Nat}
    (stop : i.offset + i.size = s.offset + s.opcode.bytes.length + (4 + 4 * ts.length)) :
    s.switchTargets bytes = .ok ts ↔ (∀ t ∈ ts, t < s.bodySize) ∧
      ∃ front, front <+: bytes ∧ i.tableBytes? ts = some front := by
  have groups_iff (groups : List (List UInt8)) :
      groups.mapM (fun g => s.target (4 + 4 * ts.length) (signedOf 32 g)) = .ok ts ↔
        (∀ t ∈ ts, t < s.bodySize) ∧
          List.Forall₂ (fun t g => signedOf 32 g = i.distance t) ts groups := by
    simp only [mapM_eq_ok_iff, target_eq_ok_iff stop]
    rw [← List.forall₂_and_left]
    exact ⟨List.Forall₂.flip, List.Forall₂.flip⟩
  simp only [switchTargets, take_bind_eq_ok_iff, Instruction.tableBytes?_eq_some_iff]
  constructor
  · rintro ⟨count, ⟨rest, rfl⟩, four, table, behind, len, read⟩
    rw [List.drop_left' four] at behind
    obtain ⟨number, joined, groups⟩ := groupsOfFour_spec len
    have same : littleEndian count = ts.length := number ▸ (mapM_eq_ok_iff.1 read).length_eq
    rw [same, groups_iff] at read
    refine ⟨read.1, count ++ table, (List.prefix_append_right_inj count).2 behind, count,
      groupsOfFour table, ?_, four, same, groups, read.2⟩
    rw [joined]
  · rintro ⟨inside, -, ⟨rest, rfl⟩, count, groups, rfl, four, same, lengths, each⟩
    have len : groups.flatten.length = 4 * littleEndian count := by
      rw [List.length_flatten, List.map_congr_left lengths, same, each.length_eq]
      simp [mul_comm]
    rw [List.append_assoc]
    refine ⟨count, List.prefix_append _ _, four, groups.flatten, ?_, len, ?_⟩
    · rw [List.drop_left' four]
      exact List.prefix_append _ _
    · rw [groupsOfFour_flatten lengths, same, groups_iff]
      exact ⟨inside, each⟩

lemma ofNat_littleEndian_iff {u : UInt32} :
    front.length = 4 ∧ UInt32.ofNat (littleEndian front) = u ↔ bytesOf 4 u.toNat = front := by
  have word : UInt32.ofNat (littleEndian front) = u ↔ wordOf 32 front = u.toBitVec := by
    rw [← UInt32.toBitVec_inj]
    rfl
  rw [word]
  exact (bytesOf_eq_iff (n := 4) rfl).symm

lemma resolve_eq_ok_iff {α : Type} [DecidableEq α] (resolver : UInt32 → Option α) {a : α}
    {u : UInt32} (only : ∀ v, resolver v = some a → v = u) :
    s.resolve resolver bytes = .ok a ↔
      ∃ front, front <+: bytes ∧ tokenBytes? resolver u a = some front := by
  rw [resolve, take_bind_eq_ok_iff]
  refine exists_congr fun front => and_congr_right fun _ => ?_
  rw [tokenBytes?, Option.ite_none_right_eq_some, Option.some.injEq, ← ofNat_littleEndian_iff]
  constructor
  · rintro ⟨len, h⟩
    cases found : resolver (UInt32.ofNat (littleEndian front)) with
    | none => simp [found] at h
    | some b =>
      obtain rfl : b = a := by simpa [found] using h
      have same := only _ found
      exact ⟨same ▸ found, len, same⟩
  · rintro ⟨found, len, same⟩
    exact ⟨len, by simp [same, found]⟩

lemma ofInt_signedOf_iff {w : BitVec 32} :
    front.length = 1 ∧ BitVec.ofInt 32 (signedOf 8 front) = w ↔
      front.length = 1 ∧ signedOf 8 front = w.toInt := by
  refine and_congr_right fun len => ⟨?_, ?_⟩
  · rintro rfl
    have low := BitVec.le_toInt (wordOf 8 front)
    have high := BitVec.toInt_lt (x := wordOf 8 front)
    rw [BitVec.toInt_ofInt_eq_self (by decide) (by unfold signedOf; omega)
      (by unfold signedOf; omega)]
  · intro h
    rw [h, BitVec.ofInt_toInt]

lemma operand_eq_ok_iff (nodup : s.md.strings.Nodup) :
    s.operand bytes = .ok o ↔ (∀ t ∈ (s.reading o).targets, t < s.bodySize) ∧
      ∃ front, front <+: bytes ∧ (s.reading o).operandBytes? s.md = some front := by
  unfold operand Instruction.operandBytes? Instruction.targets
  cases kind : s.opcode.operandKind with
  | none | implicitArg | implicitLocal | implicitInt => cases o <;> simp
  | argShort | arg | localShort | localIndex =>
    cases o <;> simp [pure, Except.pure, take_bind_eq_ok_iff, numberBytes?_eq_some_iff]
  | intShort =>
    cases o <;> simp [pure, Except.pure, take_bind_eq_ok_iff,
      signedBytes?_eq_some_iff (n := 1) (w := 8), ofInt_signedOf_iff]
  | int32 =>
    cases o with
    | int32 x =>
      rw [and_iff_right (by simp)]
      exact take_word_iff (n := 4) rfl (fun _ _ => Operand.int32.inj) x
    | _ => simp [pure, Except.pure, take_bind_eq_ok_iff]
  | single =>
    cases o with
    | single x =>
      rw [and_iff_right (by simp)]
      exact take_word_iff (n := 4) rfl (fun _ _ => Operand.single.inj) x
    | _ => simp [pure, Except.pure, take_bind_eq_ok_iff]
  | int64 =>
    cases o with
    | int64 x =>
      rw [and_iff_right (by simp)]
      exact take_word_iff (n := 8) rfl (fun _ _ => Operand.int64.inj) x
    | _ => simp [pure, Except.pure, take_bind_eq_ok_iff]
  | double =>
    cases o with
    | double x =>
      rw [and_iff_right (by simp)]
      exact take_word_iff (n := 8) rfl (fun _ _ => Operand.double.inj) x
    | _ => simp [pure, Except.pure, take_bind_eq_ok_iff]
  | branchShort =>
    cases o with
    | target t => simpa using take_target_iff (t := t) (by decide) rfl (by rw [kind]; rfl)
    | _ => simp [pure, Except.pure, except_bind_eq_ok_iff]
  | branch =>
    cases o with
    | target t => simpa using take_target_iff (t := t) (by decide) rfl (by rw [kind]; rfl)
    | _ => simp [pure, Except.pure, except_bind_eq_ok_iff]
  | switch =>
    cases o with
    | switch ts =>
      have stop : (s.reading (.switch ts)).offset + (s.reading (.switch ts)).size =
          s.offset + s.opcode.bytes.length + (4 + 4 * ts.length) := by
        simp only [Instruction.size, kind, OperandKind.size?, Instruction.targets,
          Option.getD_none]
        omega
      rw [← switchTargets_eq_ok_iff stop, except_bind_eq_ok_iff]
      simp [pure, Except.pure]
    | _ => simp [pure, Except.pure, except_bind_eq_ok_iff]
  | typeToken =>
    cases o with
    | type =>
      simpa [except_bind_eq_ok_iff, pure, Except.pure] using
        resolve_eq_ok_iff s.md.resolveType? fun _ =>
          Metadata.eq_token_of_resolve TypeRef.index fun _ => rfl
    | _ => simp [pure, Except.pure, except_bind_eq_ok_iff]
  | fieldToken =>
    cases o with
    | field =>
      simpa [except_bind_eq_ok_iff, pure, Except.pure] using
        resolve_eq_ok_iff s.md.resolveField? fun _ =>
          Metadata.eq_token_of_resolve FieldRef.index fun _ => rfl
    | _ => simp [pure, Except.pure, except_bind_eq_ok_iff]
  | methodToken =>
    cases o with
    | method =>
      simpa [except_bind_eq_ok_iff, pure, Except.pure] using
        resolve_eq_ok_iff s.md.resolveMethod? fun _ =>
          Metadata.eq_token_of_resolve MethodRef.index fun _ => rfl
    | _ => simp [pure, Except.pure, except_bind_eq_ok_iff]
  | stringToken =>
    cases o with
    | text x =>
      simpa [except_bind_eq_ok_iff, pure, Except.pure] using
        resolve_eq_ok_iff s.md.resolveString? fun _ => Metadata.eq_token_of_resolveString nodup
    | _ => simp [pure, Except.pure, except_bind_eq_ok_iff]

end Site

end FlatHeap.Bytecode
