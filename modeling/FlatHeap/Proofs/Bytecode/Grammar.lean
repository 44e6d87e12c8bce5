import FlatHeap.Proofs.Bytecode.Encoding
import FlatHeap.Proofs.Bytecode.Offsets

/-!
# The grammar of method bodies

A body is the encodings of its instructions one after another, each at the offset where the ones
before it end, with every branch leading to one of them.  Decoding accepts exactly these bodies, so
no two bodies have the same instructions; and a body is refused at the offset of an instruction up
to which it is made of whole instructions.

What carries the induction over the body is the step `decodeOne_eq_ok_iff`: an instruction is
decoded exactly where its encoding stands, and takes as many bytes as its size says.
-/

namespace FlatHeap.Bytecode

/-! ## Opcodes -/

namespace Opcode

lemma ofCode?_code (op : Opcode) : ofCode? op.code = some op := by
  cases op <;> decide +kernel

lemma ofCode?_eq_some_iff {n : Nat} {op : Opcode} : ofCode? n = some op ↔ op.code = n := by
  constructor
  · intro h
    simpa using List.find?_some h
  · rintro rfl
    exact ofCode?_code op

lemma code_range (op : Opcode) : op.code < 0xfe ∨ 0xfe00 ≤ op.code ∧ op.code < 0xff00 := by
  cases op <;> decide

lemma code_eq_opcodeNumber_iff {op : Opcode} {b : UInt8} {rest : List UInt8} :
    op.code = opcodeNumber (b :: rest) ↔ op.bytes <+: b :: rest := by
  have byte (n : Nat) (c : UInt8) : UInt8.ofNat n = c ↔ n % 256 = c.toNat := by
    rw [← UInt8.toNat_inj, UInt8.toNat_ofNat']
  have mark : b = 0xfe ↔ b.toNat = 0xfe := by
    rw [← UInt8.toNat_inj]
    rfl
  have := b.toNat_lt
  rcases op.code_range with one | two
  · have short : op.bytes = [UInt8.ofNat op.code] := by
      rw [bytes, if_neg]
      simp only [isTwoByte, decide_eq_true_eq]
      omega
    cases rest with
    | nil =>
      simp only [short, opcodeNumber, List.cons_prefix_cons, List.prefix_rfl, and_true, byte]
      omega
    | cons c rest =>
      simp only [short, opcodeNumber, List.cons_prefix_cons, List.nil_prefix, and_true, byte, mark]
      split <;> omega
  · have long : op.bytes = [UInt8.ofNat (op.code / 256), UInt8.ofNat op.code] := by
      rw [bytes, if_pos]
      simp only [isTwoByte, decide_eq_true_eq]
      omega
    cases rest with
    | nil =>
      simp only [long, opcodeNumber, List.cons_prefix_cons, List.prefix_nil, List.cons_ne_nil,
        and_false, iff_false]
      omega
    | cons c rest =>
      have := c.toNat_lt
      simp only [long, opcodeNumber, List.cons_prefix_cons, List.nil_prefix, and_true, byte, mark]
      split <;> omega

end Opcode

/-! ## Instructions -/

variable {md : Metadata} {i : Instruction} {code : List Instruction} {bytes : List UInt8}
  {n start : Nat}

lemma length_of_numberBytes? {v : Nat} (h : numberBytes? n v = some bytes) : bytes.length = n :=
  (numberBytes?_eq_some_iff.1 h).1

lemma length_of_signedBytes? {v : Int} (h : signedBytes? n v = some bytes) : bytes.length = n := by
  obtain ⟨-, ⟨⟩⟩ := Option.ite_none_right_eq_some.1 h
  exact length_bytesOf n _

lemma length_of_tokenBytes? {α : Type} [DecidableEq α] {resolver : UInt32 → Option α} {u : UInt32}
    {a : α} (h : tokenBytes? resolver u a = some bytes) : bytes.length = 4 := by
  obtain ⟨-, ⟨⟩⟩ := Option.ite_none_right_eq_some.1 h
  exact length_bytesOf 4 _

namespace Instruction

lemma length_of_tableBytes? {ts : List Nat} (h : i.tableBytes? ts = some bytes) :
    bytes.length = 4 + 4 * ts.length := by
  obtain ⟨count, groups, rfl, four, -, lengths, each⟩ := tableBytes?_eq_some_iff.1 h
  rw [List.length_append, four, List.length_flatten, List.map_congr_left lengths, each.length_eq]
  simp [mul_comm]

lemma length_of_operandBytes? (h : i.operandBytes? md = some bytes) :
    bytes.length = (i.opcode.operandKind.size?).getD (4 + 4 * i.targets.length) := by
  unfold operandBytes? at h
  split at h
  all_goals
    rename_i kind operand
    simp only [kind, operand, OperandKind.size?, targets, Option.getD_some, Option.getD_none]
  all_goals grind [length_of_numberBytes?, length_of_signedBytes?, length_of_tokenBytes?,
    length_of_tableBytes?, length_bytesOf]

lemma length_of_encode? (h : i.encode? md = some bytes) : bytes.length = i.size := by
  obtain ⟨operand, found, rfl⟩ := Option.map_eq_some_iff.1 h
  rw [List.length_append, length_of_operandBytes? found, size]

end Instruction

lemma decodeOne_eq_ok_iff (nodup : md.strings.Nodup) {b : UInt8} {rest : List UInt8} :
    decodeOne md n start (b :: rest) = .ok i ↔ i.offset = start ∧ (∀ t ∈ i.targets, t < n) ∧
      ∃ front, front <+: b :: rest ∧ i.encode? md = some front := by
  unfold decodeOne
  constructor
  · intro h
    split at h
    · cases h
    rename_i opcode found
    obtain ⟨operand, read, h⟩ := except_bind_eq_ok_iff.1 h
    obtain rfl := Except.ok.inj h
    obtain ⟨inside, front, behind, encoded⟩ := (Site.operand_eq_ok_iff nodup).1 read
    obtain ⟨others, split⟩ := Opcode.code_eq_opcodeNumber_iff.1 (Opcode.ofCode?_eq_some_iff.1 found)
    rw [← split, List.drop_left] at behind
    refine ⟨rfl, inside, opcode.bytes ++ front, ?_, Option.map_eq_some_iff.2 ⟨front, encoded, rfl⟩⟩
    rw [← split]
    exact (List.prefix_append_right_inj _).2 behind
  · rintro ⟨rfl, inside, whole, here, encoded⟩
    obtain ⟨front, written, rfl⟩ := Option.map_eq_some_iff.1 encoded
    have found : Opcode.ofCode? (opcodeNumber (b :: rest)) = some i.opcode :=
      Opcode.ofCode?_eq_some_iff.2
        (Opcode.code_eq_opcodeNumber_iff.2 ((List.prefix_append _ _).trans here))
    obtain ⟨others, split⟩ := here
    have behind : (b :: rest).drop i.opcode.bytes.length = front ++ others := by
      rw [← split, List.append_assoc, List.drop_left]
    simp only [found]
    refine except_bind_eq_ok_iff.2 ⟨i.operand, ?_, rfl⟩
    rw [behind]
    exact (Site.operand_eq_ok_iff nodup).2 ⟨inside, front, List.prefix_append _ _, written⟩

/-! ## Refusals -/

/-- Errors of the computation are about the instruction at the offset. -/
def Blames {α : Type} (start : Nat) (x : Except BodyError α) : Prop :=
  ∀ e, x = .error e → e.offset? = some start

lemma blames_ok {α : Type} (a : α) : Blames start (.ok a) := by
  intro e h
  cases h

lemma Blames.bind {α β : Type} {x : Except BodyError α} {f : α → Except BodyError β}
    (first : Blames start x) (second : ∀ a, Blames start (f a)) : Blames start (x >>= f) := by
  intro e h
  rcases except_bind_eq_error_iff.1 h with h | ⟨a, -, h⟩
  · exact first e h
  · exact second a e h

lemma Blames.mapM {α β : Type} {f : α → Except BodyError β} (each : ∀ a, Blames start (f a))
    (xs : List α) : Blames start (xs.mapM f) := by
  induction xs with
  | nil => exact blames_ok []
  | cons x xs ih =>
    rw [List.mapM_cons]
    exact (each x).bind fun _ => ih.bind fun _ => blames_ok _

namespace Site

variable {s : Site}

lemma blames_take (n : Nat) (bytes : List UInt8) : Blames s.offset (s.take n bytes) := by
  intro e h
  unfold take at h
  split at h <;> cases h
  rfl

lemma blames_target (n : Nat) (d : Int) : Blames s.offset (s.target n d) := by
  intro e h
  simp only [target] at h
  split at h <;> cases h
  rfl

lemma blames_resolve {α : Type} (resolver : UInt32 → Option α) (bytes : List UInt8) :
    Blames s.offset (s.resolve resolver bytes) := by
  refine (blames_take 4 bytes).bind fun front e h => ?_
  dsimp only at h
  split at h <;> cases h
  rfl

lemma blames_switchTargets (bytes : List UInt8) : Blames s.offset (s.switchTargets bytes) :=
  (blames_take 4 bytes).bind fun _ => (blames_take _ _).bind fun _ =>
    .mapM (fun _ => blames_target _ _) _

lemma blames_operand (bytes : List UInt8) : Blames s.offset (s.operand bytes) := by
  unfold operand
  cases s.opcode.operandKind with
  | none | implicitArg | implicitLocal | implicitInt => exact blames_ok _
  | argShort | arg | localShort | localIndex | intShort | int32 | int64 | single | double =>
    exact (blames_take _ _).bind fun _ => blames_ok _
  | branchShort | branch =>
    exact (blames_take _ _).bind fun _ => (blames_target _ _).bind fun _ => blames_ok _
  | switch => exact (blames_switchTargets _).bind fun _ => blames_ok _
  | typeToken | fieldToken | methodToken | stringToken =>
    exact (blames_resolve _ _).bind fun _ => blames_ok _

end Site

lemma blames_decodeOne (md : Metadata) (n start : Nat) (bytes : List UInt8) :
    Blames start (decodeOne md n start bytes) := by
  unfold decodeOne
  split
  · intro e h
    cases h
    rfl
  · exact (Site.blames_operand _).bind fun _ => blames_ok _

/-! ## Bodies -/

def encode? (md : Metadata) (code : List Instruction) : Option (List UInt8) :=
  (code.mapM (Instruction.encode? md)).map List.flatten

/-- Every instruction stands where the ones before it end. -/
def Laid (start : Nat) (code : List Instruction) : Prop :=
  ∀ front i rest, code = front ++ i :: rest → i.offset = start + (front.map (·.size)).sum

lemma encode?_append_eq_some_iff {others : List Instruction} :
    encode? md (code ++ others) = some bytes ↔
      ∃ front rest, encode? md code = some front ∧ encode? md others = some rest ∧
        front ++ rest = bytes := by
  simp only [encode?, List.mapM_append, Option.bind_eq_bind, Option.pure_def,
    Option.map_eq_some_iff, Option.bind_eq_some_iff, Option.some.injEq]
  constructor
  · rintro ⟨-, ⟨parts, first, parts', second, rfl⟩, rfl⟩
    exact ⟨_, _, ⟨parts, first, rfl⟩, ⟨parts', second, rfl⟩, List.flatten_append.symm⟩
  · rintro ⟨-, -, ⟨parts, first, rfl⟩, ⟨parts', second, rfl⟩, rfl⟩
    exact ⟨_, ⟨parts, first, parts', second, rfl⟩, List.flatten_append⟩

lemma encode?_cons_eq_some_iff : encode? md (i :: code) = some bytes ↔
    ∃ front rest, i.encode? md = some front ∧ encode? md code = some rest ∧
      front ++ rest = bytes := by
  rw [← List.singleton_append, encode?_append_eq_some_iff]
  simp [encode?]

lemma length_of_encode? (h : encode? md code = some bytes) :
    bytes.length = (code.map (·.size)).sum := by
  induction code generalizing bytes with
  | nil =>
    obtain rfl : [] = bytes := by simpa [encode?] using h
    rfl
  | cons i code ih =>
    obtain ⟨front, rest, encoded, others, rfl⟩ := encode?_cons_eq_some_iff.1 h
    rw [List.length_append, i.length_of_encode? encoded, ih others, List.map_cons, List.sum_cons]

lemma laid_cons_iff : Laid start (i :: code) ↔ i.offset = start ∧ Laid (start + i.size) code := by
  constructor
  · intro laid
    refine ⟨by simpa using laid [] i code rfl, fun front j rest split => ?_⟩
    have := laid (i :: front) j rest (by rw [split, List.cons_append])
    rw [List.map_cons, List.sum_cons] at this
    omega
  · rintro ⟨here, laid⟩ front j rest split
    cases front with
    | nil =>
      obtain ⟨rfl, -⟩ := List.cons.inj split
      simpa using here
    | cons k front =>
      obtain ⟨rfl, behind⟩ := List.cons.inj split
      have := laid front j rest behind
      rw [List.map_cons, List.sum_cons]
      omega

lemma decodeFrom_eq_ok_iff (nodup : md.strings.Nodup) :
    decodeFrom md n start bytes = .ok code ↔
      encode? md code = some bytes ∧ Laid start code ∧ ∀ i ∈ code, ∀ t ∈ i.targets, t < n := by
  induction start, bytes using decodeFrom.induct generalizing code with
  | case1 start =>
    rw [decodeFrom]
    cases code with
    | nil => simp [encode?, Laid]
    | cons i code =>
      refine iff_of_false (by simp) ?_
      rintro ⟨encoded, -⟩
      have := length_of_encode? encoded
      have := i.size_pos
      simp at *
      omega
  | case2 start b rest ih =>
    rw [decodeFrom]
    simp only [except_bind_eq_ok_iff, decodeOne_eq_ok_iff nodup, ih]
    constructor
    · rintro ⟨i, ⟨here, inside, front, ⟨others, split⟩, encoded⟩, code, ⟨behind, laid, ahead⟩, ⟨⟩⟩
      rw [← split, List.drop_left' (i.length_of_encode? encoded)] at behind
      refine ⟨encode?_cons_eq_some_iff.2 ⟨front, others, encoded, behind, split⟩,
        laid_cons_iff.2 ⟨here, laid⟩, List.forall_mem_cons.2 ⟨inside, ahead⟩⟩
    · rintro ⟨encoded, laid, inside⟩
      cases code with
      | nil => simp [encode?] at encoded
      | cons i code =>
        obtain ⟨front, others, first, behind, split⟩ := encode?_cons_eq_some_iff.1 encoded
        obtain ⟨here, laid⟩ := laid_cons_iff.1 laid
        obtain ⟨inside, ahead⟩ := List.forall_mem_cons.1 inside
        refine ⟨i, ⟨here, inside, front, ⟨others, split⟩, first⟩, code, ⟨?_, laid, ahead⟩, rfl⟩
        rwa [← split, List.drop_left' (i.length_of_encode? first)]

lemma decodeFrom_error (nodup : md.strings.Nodup) {e : BodyError}
    (h : decodeFrom md n start bytes = .error e) :
    ∃ front k, e.offset? = some (start + k) ∧ k < bytes.length ∧
      encode? md front = some (bytes.take k) ∧ Laid start front := by
  induction start, bytes using decodeFrom.induct with
  | case1 start =>
    rw [decodeFrom] at h
    cases h
  | case2 start b rest ih =>
    rw [decodeFrom] at h
    rcases except_bind_eq_error_iff.1 h with h | ⟨i, read, h⟩
    · exact ⟨[], 0, blames_decodeOne _ _ _ _ e h, by simp, by simp [encode?], by simp [Laid]⟩
    · rcases except_bind_eq_error_iff.1 h with h | ⟨_, -, h⟩
      swap
      · cases h
      obtain ⟨front, k, fault, inside, encoded, laid⟩ := ih i h
      obtain ⟨here, -, first, ⟨others, split⟩, whole⟩ := (decodeOne_eq_ok_iff nodup).1 read
      have len := i.length_of_encode? whole
      rw [← split, List.drop_left' len] at inside encoded
      refine ⟨i :: front, i.size + k, by rw [fault, Nat.add_assoc], ?_, ?_,
        laid_cons_iff.2 ⟨here, laid⟩⟩
      · rw [← split, List.length_append]
        omega
      · rw [← split, ← len, List.take_length_add_append]
        exact encode?_cons_eq_some_iff.2 ⟨first, _, whole, encoded, rfl⟩

lemma offset_lt_of_laid (laid : Laid start code) (mem : i ∈ code) :
    i.offset < start + (code.map (·.size)).sum := by
  obtain ⟨front, rest, rfl⟩ := List.append_of_mem mem
  have here := laid front i rest rfl
  have := i.size_pos
  simp only [List.map_append, List.sum_append, List.map_cons, List.sum_cons]
  omega

lemma encode?_before (encoded : encode? md code = some bytes) (laid : Laid 0 code)
    (mem : i ∈ code) :
    ∃ front, encode? md front = some (bytes.take i.offset) ∧ Laid 0 front := by
  obtain ⟨front, rest, rfl⟩ := List.append_of_mem mem
  obtain ⟨first, others, before, -, rfl⟩ := encode?_append_eq_some_iff.1 encoded
  have here := laid front i rest rfl
  rw [Nat.zero_add, ← length_of_encode? before] at here
  refine ⟨front, by rw [here, List.take_left, before], fun ahead j behind split => ?_⟩
  exact laid ahead j (behind ++ i :: rest) (by rw [split, List.append_assoc, List.cons_append])

lemma decode_eq_ok_iff (nodup : md.strings.Nodup) :
    decode md bytes = .ok code ↔ encode? md code = some bytes ∧ Laid 0 code ∧
      ∀ i ∈ code, ∀ t ∈ i.targets, ∃ j ∈ code, j.offset = t := by
  unfold decode
  constructor
  · intro h
    obtain ⟨found, read, h⟩ := except_bind_eq_ok_iff.1 h
    split at h
    · cases h
    rename_i none
    obtain rfl := Except.ok.inj h
    obtain ⟨encoded, laid, -⟩ := (decodeFrom_eq_ok_iff nodup).1 read
    exact ⟨encoded, laid, strayTarget?_eq_none_iff.1 none⟩
  · rintro ⟨encoded, laid, landing⟩
    have inside : ∀ i ∈ code, ∀ t ∈ i.targets, t < bytes.length := by
      intro i mem t target
      obtain ⟨j, there, rfl⟩ := landing i mem t target
      rw [length_of_encode? encoded, ← Nat.zero_add (List.sum _)]
      exact offset_lt_of_laid laid there
    refine except_bind_eq_ok_iff.2
      ⟨code, (decodeFrom_eq_ok_iff nodup).2 ⟨encoded, laid, inside⟩, ?_⟩
    rw [strayTarget?_eq_none_iff.2 landing]
    rfl

lemma decode_error (nodup : md.strings.Nodup) {e : BodyError} (h : decode md bytes = .error e) :
    ∃ front k, e.offset? = some k ∧ k < bytes.length ∧
      encode? md front = some (bytes.take k) ∧ Laid 0 front := by
  rcases except_bind_eq_error_iff.1 h with h | ⟨code, read, h⟩
  · simpa using decodeFrom_error nodup h
  · split at h
    swap
    · cases h
    rename_i offset target stray
    obtain rfl := Except.error.inj h
    obtain ⟨i, mem, found⟩ := List.exists_of_findSome?_eq_some stray
    obtain ⟨t, -, same⟩ := Option.map_eq_some_iff.1 found
    obtain ⟨rfl, -⟩ := Prod.mk.inj same
    obtain ⟨encoded, laid, -⟩ := (decodeFrom_eq_ok_iff nodup).1 read
    obtain ⟨front, before, placed⟩ := encode?_before encoded laid mem
    refine ⟨front, i.offset, rfl, ?_, before, placed⟩
    rw [length_of_encode? encoded, ← Nat.zero_add (List.sum _)]
    exact offset_lt_of_laid laid mem

/-- Bytes are a body exactly if they are the encodings of its instructions, one after another and
each where the ones before it end, and every branch leads to one of them.  So the instructions
determine the bytes; and bytes that are no body are whole instructions up to the offset of the one
at fault. -/
theorem decode_exact (md : Metadata) (built : md.Built) :
    (∀ bytes code, decode md bytes = .ok code ↔ encode? md code = some bytes ∧ Laid 0 code ∧
      ∀ i ∈ code, ∀ t ∈ i.targets, ∃ j ∈ code, j.offset = t) ∧
    (∀ bytes bytes' code, decode md bytes = .ok code → decode md bytes' = .ok code →
      bytes = bytes') ∧
    ∀ bytes e, decode md bytes = .error e → ∃ front k, e.offset? = some k ∧ k < bytes.length ∧
      encode? md front = some (bytes.take k) ∧ Laid 0 front := by
  have nodup := built.strings_nodup
  refine ⟨fun bytes code => decode_eq_ok_iff nodup, fun bytes bytes' code h h' => ?_,
    fun bytes e h => decode_error nodup h⟩
  have encoded := ((decode_eq_ok_iff nodup).1 h).1
  have encoded' := ((decode_eq_ok_iff nodup).1 h').1
  exact Option.some.inj (encoded.symm.trans encoded')

/-- A text, a table that leads behind itself and to the front, and a branch back to an opcode of two
bytes. -/
theorem decode_exact_branching :
    (Metadata.stringToken {} "a").2.Built ∧
      decode (Metadata.stringToken {} "a").2
        [0x72, 1, 0, 0, 0x70, 0x45, 2, 0, 0, 0, 0, 0, 0, 0, 0xee, 0xff, 0xff, 0xff, 0xfe, 1, 0x2b,
          0xfc] =
        .ok [⟨0, .ldstr, .text "a"⟩, ⟨5, .switch, .switch [18, 0]⟩, ⟨18, .ceq, .none⟩,
          ⟨20, .brS, .target 18⟩] := by
  have built : (Metadata.stringToken {} "a").2.Built := .stringToken "a" .empty
  refine ⟨built, ((decode_exact _ built).1 _ _).2 ⟨by decide +kernel, ?_, by decide⟩⟩
  have last : Laid 22 [] := by simp [Laid]
  exact laid_cons_iff.2 ⟨rfl, laid_cons_iff.2 ⟨rfl, laid_cons_iff.2 ⟨rfl,
    laid_cons_iff.2 ⟨rfl, last⟩⟩⟩⟩

end FlatHeap.Bytecode
