import FlatHeap.Host.Signature
import FlatHeap.Value

/-!
# Static host operations

The operations generated code relies on: operators on primitive types and checked conversions.  An
operation sees only its member name, its arguments and the host type of its result.

Integer arithmetic is exact and then reduced to the result type; it has 128 signed bits of room,
which only a product of two large unsigned numbers can exceed.  Conversions are checked: an integer
outside the result type's range is an error, and a fraction rounds to the nearest integer, ties to
even, first.
-/

namespace FlatHeap

-- Powers are those of the integers, whatever algebra is in scope.
attribute [local instance (high)] instPowNat

def IntKind.hostType (k : IntKind) : String := "System" ++ k.valueName

def IntKind.ofHostType? (type : String) : Option IntKind :=
  IntKind.all.find? (·.hostType == type)

namespace Host

/-- Why a host operation cannot answer. -/
inductive OperationError where
  /-- A conversion was called with other than one argument. -/
  | conversionArity
  /-- No operation of this name takes these arguments. -/
  | unknown (member : String)
  /-- An operator was applied to values it is not defined on. -/
  | undefinedOn (member : String) (x y : Value)
  /-- A converted integer is outside the range of the result type. -/
  | overflow (v : Int) (type : String)
  /-- The result type holds no integers. -/
  | noInteger (type : String)
  | notConvertible (v : Value)
  /-- An exact product needs more than 128 bits. -/
  | outOfRoom
deriving DecidableEq, Repr

def OperationError.message : OperationError → String
  | conversionArity => "conversion takes one argument"
  | unknown member => "unknown operation " ++ member
  | undefinedOn member x y => member ++ " on " ++ x.describe ++ " and " ++ y.describe
  | overflow v type => toString v ++ " overflows " ++ type
  | noInteger type => "no integer representation in " ++ type
  | notConvertible v => "cannot convert " ++ v.describe
  | outOfRoom => "integer arithmetic out of room"

abbrev Outcome := Except OperationError Value

/-- The value of a host type that an exact integer becomes, reduced to the type's width. -/
def ofInteger (type : String) (v : Int) : Outcome :=
  match IntKind.ofHostType? type with
  | some k => .ok (.ofInt k v)
  | none =>
    if type = "SystemBoolean" then .ok (.bool (v ≠ 0))
    else if type = "SystemSingle" then .ok (.single (Binary.ofInt .single v))
    else if type = "SystemDouble" then .ok (.double (Binary.ofInt .double v))
    else .error (.noInteger type)

/-- The value of a host type that an integer is, refused when out of range. -/
def ofIntegerChecked (type : String) (v : Int) : Outcome :=
  match IntKind.ofHostType? type with
  | some k => if k.format.Holds v then .ok (.ofInt k v) else .error (.overflow v type)
  | none => ofInteger type v

/-- The value of a host type that a floating-point number becomes. -/
def ofFloat (type : String) (x : Double) : Outcome :=
  if type = "SystemSingle" then .ok (.single (x.convert .single))
  else if type = "SystemDouble" then .ok (.double x)
  else ofIntegerChecked type x.roundWide

def convert (value : Value) (type : String) : Outcome :=
  if type = "SystemString" then
    match value with
    | .text _ => .ok value
    | _ => .ok (.text value.render)
  else
    match value.integer?, value.float? with
    | some v, _ => ofIntegerChecked type v
    | none, some x => ofFloat type x
    | none, none => .error (.notConvertible value)

/-- Equality as the host sees it: numbers by what they denote, all else by identity. -/
def equal (x y : Value) : Bool :=
  match x.integer?, y.integer? with
  | some a, some b => a == b
  | _, _ =>
    match x.float?, y.float? with
    | some a, some b => Binary.eq a b
    | _, _ => x == y

/-! ## Integers of 128 bits -/

/-- A two's-complement operation on bits, carried out on 128 of them. -/
def bitwise (op : BitVec 128 → BitVec 128 → BitVec 128) (a b : Int) : Int :=
  (op (BitVec.ofInt 128 a) (BitVec.ofInt 128 b)).toInt

def bitAnd : Int → Int → Int := bitwise (· &&& ·)

def bitOr : Int → Int → Int := bitwise (· ||| ·)

def bitXor : Int → Int → Int := bitwise (· ^^^ ·)

def shiftCount (b : Int) : Nat := (b % 64).toNat

/-! ## Operators -/

/-- An operator on two integers; `none` for names that are no integer operator, or a division by
zero. -/
def integerOperator (member : String) (a b : Int) (result : String) : Option Outcome :=
  match member with
  | "op_Addition" => some (ofInteger result (a + b))
  | "op_Subtraction" => some (ofInteger result (a - b))
  | "op_Multiplication" =>
    some (if Binary.clampWide (a * b) = a * b then ofInteger result (a * b) else .error .outOfRoom)
  | "op_Division" => if b = 0 then none else some (ofInteger result (a.tdiv b))
  | "op_Modulus" => if b = 0 then none else some (ofInteger result (a.tmod b))
  | "op_LogicalAnd" => some (ofInteger result (bitAnd a b))
  | "op_LogicalOr" => some (ofInteger result (bitOr a b))
  | "op_LogicalXor" => some (ofInteger result (bitXor a b))
  | "op_LeftShift" => some (ofInteger result (a * 2 ^ shiftCount b))
  | "op_RightShift" => some (ofInteger result (a >>> shiftCount b))
  | "op_LessThan" => some (.ok (.bool (a < b)))
  | "op_LessThanOrEqual" => some (.ok (.bool (a ≤ b)))
  | "op_GreaterThan" => some (.ok (.bool (b < a)))
  | "op_GreaterThanOrEqual" => some (.ok (.bool (b ≤ a)))
  | _ => none

def floatOperator (member : String) (a b : Double) (result : String) : Option Outcome :=
  match member with
  | "op_Addition" => some (ofFloat result (Binary.add a b))
  | "op_Subtraction" => some (ofFloat result (Binary.sub a b))
  | "op_Multiplication" => some (ofFloat result (Binary.mul a b))
  | "op_Division" => some (ofFloat result (Binary.div a b))
  | "op_LessThan" => some (.ok (.bool (Binary.lt a b)))
  | "op_LessThanOrEqual" => some (.ok (.bool (Binary.le a b)))
  | "op_GreaterThan" => some (.ok (.bool (Binary.lt b a)))
  | "op_GreaterThanOrEqual" => some (.ok (.bool (Binary.le b a)))
  | _ => none

def evaluateUnary (member : String) (x : Value) (result : String) : Outcome :=
  match member, x with
  | "Truncate", .double v => .ok (.double (Binary.trunc v))
  | "op_UnaryNegation", .bool b => .ok (.bool !b)
  | "op_UnaryMinus", _ =>
    match x.integer?, x.float? with
    | some v, _ => ofInteger result (-v)
    | none, some v => ofFloat result (Binary.neg v)
    | none, none => .error (.unknown member)
  | _, _ => .error (.unknown member)

def evaluateBinary (member : String) (x y : Value) (result : String) : Outcome :=
  if member = "op_Equality" then .ok (.bool (equal x y))
  else if member = "op_Inequality" then .ok (.bool !(equal x y))
  else
    match x.integer?, y.integer? with
    | some a, some b => (integerOperator member a b result).getD (.error (.unknown member))
    | _, _ =>
      match x.float?, y.float? with
      | some a, some b => (floatOperator member a b result).getD (.error (.unknown member))
      | _, _ => .error (.undefinedOn member x y)

def isConversion (member : String) : Bool := ['T', 'o'].isPrefixOf member.toList

def evaluate (member : String) (args : List Value) (result : String) : Outcome :=
  if isConversion member then
    match args with
    | [value] => convert value result
    | _ => .error .conversionArity
  else
    match args with
    | [x] => evaluateUnary member x result
    | [x, y] => evaluateBinary member x y result
    | _ => .error (.unknown member)

end Host

end FlatHeap
