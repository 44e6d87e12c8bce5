import FlatHeap.Bytecode.Error
import FlatHeap.Bytecode.Instruction

/-!
# Decoding method bodies

A body is decoded instruction by instruction from the front: the opcode says how many operand bytes
follow, and the decoded instruction says how many bytes it took.  Displacements count from the end
of the instruction and must stay inside the body; once all instructions are known, every target must
be the offset of one of them.  The first fault in reading order is the one reported.
-/

namespace FlatHeap.Bytecode

def littleEndian (bytes : List UInt8) : Nat := bytes.foldr (fun b n => b.toNat + 256 * n) 0

def takeBytes? (n : Nat) (bytes : List UInt8) : Option (List UInt8) :=
  let front := bytes.take n
  if front.length = n then some front else none

def wordOf (w : Nat) (bytes : List UInt8) : BitVec w := BitVec.ofNat w (littleEndian bytes)

def signedOf (w : Nat) (bytes : List UInt8) : Int := (wordOf w bytes).toInt

def groupsOfFour : List UInt8 → List (List UInt8)
  | a :: b :: c :: d :: rest => [a, b, c, d] :: groupsOfFour rest
  | _ => []

structure Site where
  /-- Declarations that tokens refer to. -/
  md : Metadata
  bodySize : Nat
  offset : Nat
  opcode : Opcode

namespace Site

def take (s : Site) (n : Nat) (bytes : List UInt8) : Except BodyError (List UInt8) :=
  match takeBytes? n bytes with
  | some front => .ok front
  | none => .error (.truncated s.offset s.opcode)

/-- Offset reached by a displacement from the end of an operand of `n` bytes. -/
def target (s : Site) (n : Nat) (displacement : Int) : Except BodyError Nat :=
  let t : Int := (s.offset + s.opcode.bytes.length + n : Nat) + displacement
  if 0 ≤ t ∧ t < s.bodySize then .ok t.toNat else .error (.badTarget s.offset t)

def resolve {α : Type} (s : Site) (resolver : UInt32 → Option α) (bytes : List UInt8) :
    Except BodyError α := do
  let token := UInt32.ofNat (littleEndian (← s.take 4 bytes))
  match resolver token with
  | some a => .ok a
  | none => .error (.badToken s.offset token)

/-- Targets of a switch; displacements count from the end of the whole table. -/
def switchTargets (s : Site) (bytes : List UInt8) : Except BodyError (List Nat) := do
  let count := littleEndian (← s.take 4 bytes)
  let table ← s.take (4 * count) (bytes.drop 4)
  (groupsOfFour table).mapM fun group => s.target (4 + 4 * count) (signedOf 32 group)

def operand (s : Site) (bytes : List UInt8) : Except BodyError Operand :=
  match s.opcode.operandKind with
  | .none => .ok .none
  | .implicitArg n => .ok (.arg n)
  | .implicitLocal n => .ok (.localIndex n)
  | .implicitInt v => .ok (.int32 (BitVec.ofInt 32 v))
  | .argShort => do return .arg (littleEndian (← s.take 1 bytes))
  | .arg => do return .arg (littleEndian (← s.take 2 bytes))
  | .localShort => do return .localIndex (littleEndian (← s.take 1 bytes))
  | .localIndex => do return .localIndex (littleEndian (← s.take 2 bytes))
  | .intShort => do return .int32 (BitVec.ofInt 32 (signedOf 8 (← s.take 1 bytes)))
  | .int32 => do return .int32 (wordOf 32 (← s.take 4 bytes))
  | .int64 => do return .int64 (wordOf 64 (← s.take 8 bytes))
  | .single => do return .single (wordOf 32 (← s.take 4 bytes))
  | .double => do return .double (wordOf 64 (← s.take 8 bytes))
  | .branchShort => do return .target (← s.target 1 (signedOf 8 (← s.take 1 bytes)))
  | .branch => do return .target (← s.target 4 (signedOf 32 (← s.take 4 bytes)))
  | .switch => do return .switch (← s.switchTargets bytes)
  | .typeToken => do return .type (← s.resolve s.md.resolveType? bytes)
  | .fieldToken => do return .field (← s.resolve s.md.resolveField? bytes)
  | .methodToken => do return .method (← s.resolve s.md.resolveMethod? bytes)
  | .stringToken => do return .text (← s.resolve s.md.resolveString? bytes)

end Site

/-- Number of the opcode at the front of a body; a lone `0xfe` stands for itself. -/
def opcodeNumber : List UInt8 → Nat
  | [] => 0
  | [a] => a.toNat
  | a :: b :: _ => if a = 0xfe then 0xfe00 + b.toNat else a.toNat

def decodeOne (md : Metadata) (bodySize offset : Nat) (bytes : List UInt8) :
    Except BodyError Instruction :=
  match Opcode.ofCode? (opcodeNumber bytes) with
  | none => .error (.unknownOpcode offset (opcodeNumber bytes))
  | some opcode => do
    let site : Site := { md, bodySize, offset, opcode }
    return { offset, opcode, operand := ← site.operand (bytes.drop opcode.bytes.length) }

def decodeFrom (md : Metadata) (bodySize offset : Nat) (bytes : List UInt8) :
    Except BodyError (List Instruction) :=
  match bytes with
  | [] => .ok []
  | b :: rest => do
    let i ← decodeOne md bodySize offset (b :: rest)
    return i :: (← decodeFrom md bodySize (offset + i.size) ((b :: rest).drop i.size))
termination_by bytes.length
decreasing_by
  have := i.size_pos
  simp only [List.length_drop, List.length_cons]
  omega

/-- First instruction and target for which no instruction starts at the target. -/
def strayTarget? (code : List Instruction) : Option (Nat × Nat) :=
  code.findSome? fun i =>
    (i.targets.find? fun t => !code.any (·.offset == t)).map fun t => (i.offset, t)

def decode (md : Metadata) (bytes : List UInt8) : Except BodyError (List Instruction) := do
  let code ← decodeFrom md bytes.length 0 bytes
  match strayTarget? code with
  | some (offset, target) => .error (.badTarget offset target)
  | none => return code

end FlatHeap.Bytecode
