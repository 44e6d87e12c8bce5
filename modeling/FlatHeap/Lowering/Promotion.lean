import FlatHeap.Lowering.Constant
import FlatHeap.Lowering.Error
import FlatHeap.Host.Operation
import FlatHeap.Bytecode.Opcode

/-!
# Operand types

The type in which the operands of an operator meet.  Integers narrower than 32 bits count as 32 bits
wide, the wider operand decides the width, and the result is unsigned only if both operands are or
the opcode says so.  Enumerations count as their integers.

Operators on two constants are evaluated at compile time, with the same reduction as at run time.
-/

namespace FlatHeap

open Bytecode (Opcode)

-- Powers are those of the integers, whatever algebra is in scope.
attribute [local instance (high)] instPowNat

/-- What an operator sees of the type of an operand. -/
inductive NumberClass where
  | bool
  | int (f : IntFormat)
  | single
  | double
deriving DecidableEq, Repr

/-- Format of a class as an integer; truth values are 32-bit integers. -/
def NumberClass.format? : NumberClass → Option IntFormat
  | bool => some ⟨32, true⟩
  | int f => some f
  | single | double => none

def TypeRef.ofFormat (f : IntFormat) : TypeRef :=
  match f.bits, f.signed with
  | 8, true => .int8
  | 8, false => .uint8
  | 16, true => .int16
  | 16, false => .uint16
  | 32, true => .int32
  | 32, false => .uint32
  | _, true => .int64
  | _, false => .uint64

namespace Metadata

def numberClass? (md : Metadata) (t : TypeRef) : Option NumberClass :=
  match md.kind (md.withoutEnum t) with
  | .boolean => some .bool
  | .single => some .single
  | .double => some .double
  | .int k => some (.int k.format)
  | _ => none

def meetType (a b : NumberClass) (unsigned : Bool) : TypeRef :=
  match a, b with
  | .bool, .bool => .boolean
  | .single, .double | .double, _ | _, .double => .double
  | .single, _ | _, .single => .single
  | _, _ =>
    let x := a.format?.getD ⟨32, true⟩
    let y := b.format?.getD ⟨32, true⟩
    .ofFormat ⟨max (max x.bits y.bits) 32, !(unsigned || (!x.signed && !y.signed))⟩

def binaryType (md : Metadata) (a b : TypeRef) (unsigned : Bool) : Except CompileError TypeRef :=
  match md.numberClass? a, md.numberClass? b with
  | some x, some y => .ok (meetType x y unsigned)
  | _, _ => .error (.unsupported (.arithmetic (md.typeName a) (md.typeName b)))

/-- Operand type of a comparison; references are compared as objects. -/
def compareType (md : Metadata) (a b : TypeRef) (unsigned : Bool) : Except CompileError TypeRef :=
  if md.isReference a || md.isReference b then .ok .object else md.binaryType a b unsigned

/-! ## Constants -/

/-- Binary operator on integers of a format, before reduction.  Division by zero is left to run
time. -/
def foldIntegers? (op : Opcode) (f : IntFormat) (a b : Int) : Option Int :=
  let x := f.wrap a
  let y := f.wrap b
  let shift := (b % f.bits).toNat
  match op with
  | .add => some (x + y)
  | .sub => some (x - y)
  | .mul => some (x * y)
  | .div | .divUn => if y = 0 then none else some (x.tdiv y)
  | .rem | .remUn => if y = 0 then none else some (x.tmod y)
  | .and => some (Host.bitAnd x y)
  | .or => some (Host.bitOr x y)
  | .xor => some (Host.bitXor x y)
  | .shl => some (x * 2 ^ shift)
  | _ => some (x >>> shift)

def foldBooleans? (op : Opcode) (a b : Bool) : Option Bool :=
  match op with
  | .and => some (a && b)
  | .or => some (a || b)
  | .xor => some (a != b)
  | _ => none

def foldFloats? (op : Opcode) (a b : Double) : Option Double :=
  match op with
  | .add => some (a.add b)
  | .sub => some (a.sub b)
  | .mul => some (a.mul b)
  | .div => some (a.div b)
  | .rem => some (a.rem b)
  | _ => none

def asDouble? (v : Value) : Option Double :=
  v.float? <|> v.integer?.map (Binary.ofInt .double)

def foldBinary? (md : Metadata) (op : Opcode) (t : TypeRef) (a b : Value) : Option Value :=
  match md.kind t with
  | .int k => do
    let r ← foldIntegers? op k.format (← a.integer?) (← b.integer?)
    md.integerValue? t (k.format.wrap r)
  | .boolean => do
    let r ← foldBooleans? op ((← a.integer?) != 0) ((← b.integer?) != 0)
    return .bool r
  | .single => do
    let r ← foldFloats? op (← asDouble? a) (← asDouble? b)
    return .single (r.convert .single)
  | .double => do
    let r ← foldFloats? op (← asDouble? a) (← asDouble? b)
    return .double r
  | _ => none

def foldUnary? (md : Metadata) (negate : Bool) (t : TypeRef) (v : Value) : Option Value :=
  match md.intFormat? t, v.integer?, v.float? with
  | some f, some x, _ => md.integerValue? t (f.wrap (if negate then -x else -x - 1))
  | none, _, some x => some (if t = .single then .single (x.neg.convert .single) else .double x.neg)
  | _, _, _ => none

def compareConstants? (a b : Value) : Option Ordering :=
  match a.integer?, b.integer?, a.float?, b.float? with
  | some x, some y, _, _ => some (compare x y)
  | _, _, some x, some y => x.compare? y
  | _, _, _, _ => none

end Metadata

end FlatHeap
