import FlatHeap.Lowering.Promotion
import FlatHeap.Rules.Operand

/-!
# Operators and conversions

Operands are converted to the type in which they meet.  Operators on constants are evaluated at
compile time; otherwise the host operator of that type is called.
-/

namespace FlatHeap.Rules

open Lower
open Bytecode (Opcode)

def operatorName : Opcode → String
  | .add => "op_Addition"
  | .sub => "op_Subtraction"
  | .mul => "op_Multiplication"
  | .div | .divUn => "op_Division"
  | .rem | .remUn => "op_Modulus"
  | .and => "op_LogicalAnd"
  | .or => "op_LogicalOr"
  | .xor => "op_LogicalXor"
  | .shl => "op_LeftShift"
  | _ => "op_RightShift"

def isShift : Opcode → Bool
  | .shl | .shr | .shrUn => true
  | _ => false

def isUnsignedOperator : Opcode → Bool
  | .divUn | .remUn | .shrUn => true
  | _ => false

def isLogical : Opcode → Bool
  | .and | .or | .xor => true
  | _ => false

/-- Type of the left operand and the result of a binary operator.  Arithmetic on truth values is
done with 32-bit integers. -/
def operandType (md : Metadata) (op : Opcode) (left right : TypeRef) :
    Except CompileError TypeRef := do
  let t ←
    if isShift op then
      match md.numberClass? left with
      | some (.int f) => .ok (.ofFormat ⟨f.promote.bits, f.signed && !isUnsignedOperator op⟩)
      | _ => .error (.unsupported (.shift (md.typeName left)))
    else md.binaryType left right (isUnsignedOperator op)
  return if t = .boolean ∧ !isLogical op then .int32 else t

def binary : Rule where
  name := "binary"
  build i := do
    let md ← metadata
    let right ← popStack
    let left ← popStack
    let t ← ofExcept (operandType md i.opcode (← typeOf left) (← typeOf right))
    let rightType : TypeRef := if isShift i.opcode then .int32 else t
    let left ← convert left t
    let right ← convert right rightType
    let x ← constant? left
    let y ← constant? right
    match x.bind fun x => y.bind fun y => md.foldBinary? i.opcode t x y with
    | some value => pushStack (← constant value t)
    | none =>
      let type ← ident t
      let params := [type, ← ident rightType]
      invokeResult (Host.Signature.render type (operatorName i.opcode) params type) [left, right] t
    return true

def unaryType? (md : Metadata) (negate : Bool) (t : TypeRef) : Option TypeRef :=
  match md.numberClass? t with
  | some .bool => some (if negate then .int32 else .boolean)
  | some (.int f) => some (.ofFormat ⟨f.promote.bits, f.signed || negate⟩)
  | some .single | some .double => if negate then some t else none
  | none => none

def unary : Rule where
  name := "unary"
  build i := do
    let md ← metadata
    let v ← popStack
    let source ← typeOf v
    let negate := i.opcode == .neg
    let some t := unaryType? md negate source
      | refuse (.unary i.opcode.mnemonic (md.typeName source))
    let v ← convert v t
    let type ← ident t
    if t = .boolean then
      invokeResult (Host.Signature.render type "op_UnaryNegation" [type] type) [v] t
      return true
    match (← constant? v).bind (md.foldUnary? negate t) with
    | some value => pushStack (← constant value t)
    | none =>
      if negate then invokeResult (Host.Signature.render type "op_UnaryMinus" [type] type) [v] t
      else
        let ones ← intConstant t (-1)
        invokeResult (Host.Signature.binary type "op_LogicalXor" type) [v, ones] t
    return true

def conversionTarget : Opcode → TypeRef
  | .convI1 => .int8
  | .convI2 => .int16
  | .convI4 => .int32
  | .convI8 => .int64
  | .convU1 => .uint8
  | .convU2 => .uint16
  | .convU4 => .uint32
  | .convU8 => .uint64
  | .convR4 => .single
  | _ => .double

/-- Conversions between numbers.  The unsigned conversion to a floating-point number takes the bits
of an integer as unsigned first. -/
def conversion : Rule where
  name := "conv"
  build i := do
    let v ← popStack
    let operandClass := (← metadata).numberClass? (← typeOf v)
    let v ←
      match i.opcode, operandClass with
      | .convRUn, some (.int f) => convert v (.ofFormat ⟨f.bits, false⟩)
      | _, _ => pure v
    pushStack (← convert v (conversionTarget i.opcode))
    return true

end FlatHeap.Rules
