import FlatHeap.Bytecode.Opcode
import FlatHeap.Metadata.Basic

/-!
# Decoded instructions

A decoded instruction knows where it stands, its opcode, and its operand with tokens resolved and
branch displacements turned into offsets of the body.  Its encoded size is a function of the
instruction, so offsets are sums of sizes.
-/

namespace FlatHeap.Bytecode

inductive Operand where
  | none
  | arg (n : Nat)
  | localIndex (n : Nat)
  | int32 (w : BitVec 32)
  | int64 (w : BitVec 64)
  | single (x : Single)
  | double (x : Double)
  | text (s : String)
  | target (offset : Nat)
  /-- Offsets of the targets of a switch. -/
  | switch (offsets : List Nat)
  | type (t : TypeRef)
  | field (f : FieldRef)
  | method (m : MethodRef)
deriving DecidableEq, Repr

def Operand.render (md : Metadata) : Operand → String
  | none => ""
  | arg n => s!"arg{n}"
  | localIndex n => s!"V_{n}"
  | int32 w => toString w.toInt
  | int64 w => toString w.toInt
  | single x => x.text
  | double x => x.text
  | text s => Text.quote s
  | target t => Text.offset t
  | switch ts => "(" ++ ", ".intercalate (ts.map Text.offset) ++ ")"
  | type t => md.typeName t
  | field f => md.fieldDisplay f
  | method m => md.methodDisplay m

structure Instruction where
  offset : Nat
  opcode : Opcode
  operand : Operand
deriving DecidableEq, Repr

namespace Instruction

def targets (i : Instruction) : List Nat :=
  match i.operand with
  | .target t => [t]
  | .switch ts => ts
  | _ => []

def loadedConstant? (i : Instruction) : Option (Value × TypeRef) :=
  if i.opcode = .ldnull then some (.null, .object)
  else
    match i.operand with
    | .int32 w => some (.int .int32 w, .int32)
    | .int64 w => some (.int .int64 w, .int64)
    | .single x => some (.single x, .single)
    | .double x => some (.double x, .double)
    | .text s => some (.text s, .string)
    | _ => none

def size (i : Instruction) : Nat :=
  i.opcode.bytes.length + (i.opcode.operandKind.size?).getD (4 + 4 * i.targets.length)

def render (md : Metadata) (i : Instruction) : String :=
  Text.offset i.offset ++ ": " ++ i.opcode.mnemonic
    ++ if i.operand = .none then "" else " " ++ i.operand.render md

theorem size_pos (i : Instruction) : 0 < i.size := by
  have h : 0 < i.opcode.bytes.length := by
    unfold Opcode.bytes
    split <;> simp
  unfold size
  omega

end Instruction

end FlatHeap.Bytecode
