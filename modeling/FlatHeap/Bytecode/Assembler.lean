import FlatHeap.Bytecode.Error
import FlatHeap.Bytecode.Opcode
import FlatHeap.Number.Floating

/-!
# Assembling method bodies

An assembler collects items, each an opcode with the bytes or labels of its operand, and knows where
the next item will stand.  Argument, local and integer operands take their shortest form; branches
take the form asked for.  Labels may be used before they are bound, so displacements are filled in
at the end; the first item whose displacement cannot be filled in decides the error.
-/

namespace FlatHeap.Bytecode

-- Powers are those of the integers, whatever algebra is in scope.
attribute [local instance (high)] instPowNat

def bytesOf : Nat → Nat → List UInt8
  | 0, _ => []
  | n + 1, v => UInt8.ofNat v :: bytesOf n (v / 256)

inductive Payload where
  | bytes (bs : List UInt8)
  /-- One-byte displacement to a label. -/
  | short (label : Nat)
  /-- Four-byte displacement to a label. -/
  | long (label : Nat)
  | table (labels : List Nat)
deriving DecidableEq, Repr

def Payload.size : Payload → Nat
  | bytes bs => bs.length
  | short _ => 1
  | long _ => 4
  | table labels => 4 + 4 * labels.length

structure Item where
  offset : Nat
  opcode : Opcode
  payload : Payload
deriving DecidableEq, Repr

def Item.size (i : Item) : Nat := i.opcode.bytes.length + i.payload.size

/-- Misuse of an assembler. -/
inductive Misuse where
  /-- An opcode that takes an operand was emitted without one. -/
  | operandMissing (opcode : Opcode)
  /-- A branch was asked for with an opcode that has no displacement. -/
  | notBranch (opcode : Opcode)
deriving DecidableEq, Repr

structure Assembler where
  /-- Items, latest first. -/
  items : List Item := []
  offset : Nat := 0
  /-- For every label, where it is bound. -/
  labels : List (Option Nat) := []
deriving DecidableEq, Repr

namespace Assembler

def push (a : Assembler) (opcode : Opcode) (payload : Payload) : Assembler :=
  let item : Item := ⟨a.offset, opcode, payload⟩
  { a with items := item :: a.items, offset := a.offset + item.size }

def raw (a : Assembler) (opcode : Opcode) (bs : List UInt8) : Assembler := a.push opcode (.bytes bs)

def emit (a : Assembler) (opcode : Opcode) : Except Misuse Assembler :=
  if opcode.operandKind.size? = some 0 then .ok (a.raw opcode [])
  else .error (.operandMissing opcode)

def token (a : Assembler) (opcode : Opcode) (t : UInt32) : Assembler :=
  a.raw opcode (bytesOf 4 t.toNat)

/-- Append an indexed access in its shortest form: contained in an opcode, one byte, or two. -/
def indexed (a : Assembler) (implicit : List Opcode) (short long : Opcode) (n : Nat) : Assembler :=
  match implicit[n]? with
  | some opcode => a.raw opcode []
  | none => if n < 256 then a.raw short (bytesOf 1 n) else a.raw long (bytesOf 2 n)

def ldarg (a : Assembler) : Nat → Assembler :=
  a.indexed [.ldarg0, .ldarg1, .ldarg2, .ldarg3] .ldargS .ldarg

def ldarga (a : Assembler) : Nat → Assembler := a.indexed [] .ldargaS .ldarga

def starg (a : Assembler) : Nat → Assembler := a.indexed [] .stargS .starg

def ldloc (a : Assembler) : Nat → Assembler :=
  a.indexed [.ldloc0, .ldloc1, .ldloc2, .ldloc3] .ldlocS .ldloc

def ldloca (a : Assembler) : Nat → Assembler := a.indexed [] .ldlocaS .ldloca

def stloc (a : Assembler) : Nat → Assembler :=
  a.indexed [.stloc0, .stloc1, .stloc2, .stloc3] .stlocS .stloc

def ldcI4 (a : Assembler) (w : BitVec 32) : Assembler :=
  let v := w.toInt
  match Opcode.all.find? (·.operandKind == .implicitInt v) with
  | some opcode => a.raw opcode []
  | none =>
    if -128 ≤ v ∧ v < 128 then a.raw .ldcI4S (bytesOf 1 w.toNat)
    else a.raw .ldcI4 (bytesOf 4 w.toNat)

def ldcI8 (a : Assembler) (w : BitVec 64) : Assembler := a.raw .ldcI8 (bytesOf 8 w.toNat)

def ldcR4 (a : Assembler) (x : Single) : Assembler := a.raw .ldcR4 (bytesOf 4 x.toNat)

def ldcR8 (a : Assembler) (x : Double) : Assembler := a.raw .ldcR8 (bytesOf 8 x.toNat)

/-! ## Labels -/

def newLabel (a : Assembler) : Nat × Assembler :=
  (a.labels.length, { a with labels := a.labels ++ [none] })

def position? (a : Assembler) (label : Nat) : Option Nat := (a.labels[label]?).join

def bind (a : Assembler) (label : Nat) : Except BodyError Assembler :=
  match a.position? label with
  | some _ => .error (.reboundLabel label)
  | none => .ok { a with labels := a.labels.set label (some a.offset) }

def branch (a : Assembler) (opcode : Opcode) (label : Nat) : Except Misuse Assembler :=
  match opcode.operandKind with
  | .branchShort => .ok (a.push opcode (.short label))
  | .branch => .ok (a.push opcode (.long label))
  | _ => .error (.notBranch opcode)

def switch (a : Assembler) (labels : List Nat) : Assembler := a.push .switch (.table labels)

/-! ## Filling in displacements -/

def distance (a : Assembler) (i : Item) (label : Nat) : Except BodyError Int :=
  match a.position? label with
  | some p => .ok (p - (i.offset + i.size : Nat))
  | none => .error (.unboundLabel label)

def payloadBytes (a : Assembler) (i : Item) : Except BodyError (List UInt8) :=
  match i.payload with
  | .bytes bs => .ok bs
  | .short label => do
    let d ← a.distance i label
    if -128 ≤ d ∧ d < 128 then .ok (bytesOf 1 (d % 256).toNat) else .error (.outOfReach i.offset d)
  | .long label => do return bytesOf 4 ((← a.distance i label) % 2 ^ (32 : Nat)).toNat
  | .table labels => do
    let ds ← labels.mapM fun label => a.distance i label
    return bytesOf 4 labels.length ++ ds.flatMap fun d => bytesOf 4 (d % 2 ^ (32 : Nat)).toNat

def finish (a : Assembler) : Except BodyError (List UInt8) := do
  let parts ← a.items.reverse.mapM fun i => do return i.opcode.bytes ++ (← a.payloadBytes i)
  return parts.flatten

end Assembler

end FlatHeap.Bytecode
