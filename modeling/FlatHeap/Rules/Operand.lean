import FlatHeap.Lowering.Rulebook

/-!
# Operands as rules expect them

Decoding gives each opcode an operand of the shape it prescribes; a rule entered for another opcode
finds out here.
-/

namespace FlatHeap.Bytecode.Instruction

def operandMissing {α : Type} (i : Instruction) (what : String) : Lower α :=
  Lower.breach (.operandMissing i.opcode.mnemonic what)

def method (i : Instruction) : Lower MethodRef :=
  match i.operand with
  | .method m => return m
  | _ => i.operandMissing "a method operand"

def field (i : Instruction) : Lower FieldRef :=
  match i.operand with
  | .field f => return f
  | _ => i.operandMissing "a field operand"

def type (i : Instruction) : Lower TypeRef :=
  match i.operand with
  | .type t => return t
  | _ => i.operandMissing "a type operand"

def target (i : Instruction) : Lower Nat :=
  match i.operand with
  | .target t => return t
  | _ => i.operandMissing "a branch target"

/-- Number of the argument or local slot the instruction names. -/
def slotIndex (i : Instruction) : Lower Nat :=
  match i.operand with
  | .arg n | .localIndex n => return n
  | _ => i.operandMissing "a slot index"

end FlatHeap.Bytecode.Instruction
