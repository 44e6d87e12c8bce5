/-!
# Host code

The host machine has nine instructions.  Each is a 32-bit opcode word, followed by an operand word
for all but three of them; words are stored with the most significant byte first.  Decoding consumes
whole instructions from the front of a byte list, so the position of an error is the size of what
was decoded before it, plus four when only the operand word is missing.
-/

namespace FlatHeap.Host

inductive Opcode where
  | nop
  | push
  | pop
  /-- Pop the index of a truth value and jump when it is false. -/
  | jumpIfFalse
  | jump
  /-- Call the host operation whose signature the slot holds. -/
  | invoke
  | remark
  /-- Jump to the address the slot holds. -/
  | jumpIndirect
  /-- Pop destination, then source, and copy the source slot into the destination slot. -/
  | copy
deriving DecidableEq, Repr

namespace Opcode

def code : Opcode → UInt32
  | nop => 0
  | push => 1
  | pop => 2
  | jumpIfFalse => 4
  | jump => 5
  | invoke => 6
  | remark => 7
  | jumpIndirect => 8
  | copy => 9

def all : List Opcode := [nop, push, pop, jumpIfFalse, jump, invoke, remark, jumpIndirect, copy]

def ofCode? (n : UInt32) : Option Opcode := all.find? (·.code == n)

def hasOperand : Opcode → Bool
  | nop | pop | copy => false
  | _ => true

def size (op : Opcode) : Nat := if op.hasOperand then 8 else 4

def name : Opcode → String
  | nop => "NOP"
  | push => "PUSH"
  | pop => "POP"
  | jumpIfFalse => "JUMP_IF_FALSE"
  | jump => "JUMP"
  | invoke => "EXTERN"
  | remark => "ANNOTATION"
  | jumpIndirect => "JUMP_INDIRECT"
  | copy => "COPY"

theorem ofCode?_code (op : Opcode) : ofCode? op.code = some op := by
  cases op <;> rfl

end Opcode

structure Instruction where
  opcode : Opcode
  operand : Option UInt32
deriving DecidableEq, Repr

namespace Instruction

def unary (op : Opcode) (operand : UInt32) : Instruction := ⟨op, some operand⟩

def bare (op : Opcode) : Instruction := ⟨op, none⟩

def size (i : Instruction) : Nat := i.opcode.size

def WellFormed (i : Instruction) : Prop := i.operand.isSome = i.opcode.hasOperand

instance (i : Instruction) : Decidable i.WellFormed := inferInstanceAs (Decidable (_ = _))

end Instruction

/-! ## Words -/

def wordBytes (w : UInt32) : List UInt8 :=
  [(w >>> 24).toUInt8, (w >>> 16).toUInt8, (w >>> 8).toUInt8, w.toUInt8]

def wordOfBytes (a b c d : UInt8) : UInt32 :=
  a.toUInt32 <<< 24 ||| b.toUInt32 <<< 16 ||| c.toUInt32 <<< 8 ||| d.toUInt32

/-! ## Encoding and decoding -/

/-- Bytes of an instruction; a missing operand is written as zero. -/
def Instruction.encode (i : Instruction) : List UInt8 :=
  wordBytes i.opcode.code ++ if i.opcode.hasOperand then wordBytes (i.operand.getD 0) else []

def encode (code : List Instruction) : List UInt8 := code.flatMap Instruction.encode

/-- Why bytes are no host code. -/
inductive DecodeError where
  | unknownOpcode (position : Nat) (code : UInt32)
  /-- The bytes end inside the word at this position. -/
  | truncated (position : Nat)
deriving DecidableEq, Repr

def DecodeError.message : DecodeError → String
  | .unknownOpcode position code => s!"unknown opcode {code.toNat} at byte {position}"
  | .truncated position => s!"code truncated at byte {position}"

def decodeFrom (position : Nat) : List UInt8 → Except DecodeError (List Instruction)
  | [] => .ok []
  | a :: b :: c :: d :: rest =>
    match Opcode.ofCode? (wordOfBytes a b c d) with
    | none => .error (.unknownOpcode position (wordOfBytes a b c d))
    | some op =>
      if op.hasOperand then
        match rest with
        | e :: f :: g :: h :: rest' =>
          (decodeFrom (position + 8) rest').map (.unary op (wordOfBytes e f g h) :: ·)
        | _ => .error (.truncated (position + 4))
      else (decodeFrom (position + 4) rest).map (.bare op :: ·)
  | _ => .error (.truncated position)

def decode (bytes : List UInt8) : Except DecodeError (List Instruction) := decodeFrom 0 bytes

end FlatHeap.Host
