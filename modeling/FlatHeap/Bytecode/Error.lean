import FlatHeap.Bytecode.Opcode
import FlatHeap.Text.Hex

/-!
# Malformed bodies

Why bytes are no method body, and why a body cannot be assembled.
-/

namespace FlatHeap.Bytecode

inductive BodyError where
  | unknownOpcode (offset code : Nat)
  /-- The operand of the instruction at `offset` is cut off. -/
  | truncated (offset : Nat) (opcode : Opcode)
  /-- The token names nothing in its table. -/
  | badToken (offset : Nat) (token : UInt32)
  /-- No instruction starts at the target. -/
  | badTarget (offset : Nat) (target : Int)
  /-- A one-byte displacement cannot express the distance. -/
  | outOfReach (offset : Nat) (distance : Int)
  /-- A label is used and never bound. -/
  | unboundLabel (label : Nat)
  | reboundLabel (label : Nat)
deriving DecidableEq, Repr

namespace BodyError

def offset? : BodyError → Option Nat
  | unknownOpcode offset _ | truncated offset _ | badToken offset _ | badTarget offset _
  | outOfReach offset _ => some offset
  | unboundLabel _ | reboundLabel _ => none

def message : BodyError → String
  | unknownOpcode offset code => Text.offset offset ++ ": unknown opcode 0x" ++ Text.hex 2 code
  | truncated offset opcode =>
    Text.offset offset ++ ": operand of " ++ opcode.mnemonic ++ " runs past the end of the body"
  | badToken offset token =>
    Text.offset offset ++ ": token 0x" ++ Text.hex 8 token.toNat ++ " does not resolve"
  | badTarget offset target =>
    Text.offset offset ++ ": branch target IL_" ++ Text.hexSigned 4 target
      ++ " is not an instruction boundary"
  | outOfReach offset distance =>
    "short branch at " ++ Text.offset offset ++ " cannot reach its label (distance "
      ++ toString distance ++ ")"
  | unboundLabel label => s!"label {label} was used but never bound"
  | reboundLabel label => s!"label {label} bound twice"

end BodyError

end FlatHeap.Bytecode
