import FlatHeap.Lowering.Emission
import FlatHeap.Metadata.Subtype

/-!
# Conversions

A constant is converted at compile time where that is possible.  For other values the ways of
conversion are tried in a fixed order:

1. nothing to do: the types are the same on the host, or references are assignable;
2. an enumeration is converted by way of its integer type;
3. an optional value by way of its inner type;
4. truth values are comparisons with zero or null;
5. numbers become integers bit by bit where they may not fit;
6. a checked conversion of the host, or a plain copy between references.

The host's own conversions between integers fail on values outside the target's range.  A change of
width or signedness that may not fit is therefore done with masks in a 64-bit type: the bits of the
target are kept, and the sign bits are added again if the target is signed.
-/

namespace FlatHeap.Lower

-- Powers are those of the integers, whatever algebra is in scope.
attribute [local instance (high)] instPowNat

/-! ## Host operations used by conversions -/

def hostConvertInto (v : VarRef) (source target : TypeRef) (out : VarRef) : Lower Unit := do
  let md ← metadata
  match md.conversionName? target with
  | none => refuse (.noHostConversion (md.typeName target))
  | some name =>
    let signature :=
      Host.Signature.render "SystemConvert" ("To" ++ name) [← ident source] (← ident target)
    invoke signature [v] (some out)

def hostConvert (v : VarRef) (source target : TypeRef) : Lower VarRef := do
  let out ← temp target
  hostConvertInto v source target out
  return out

/-- Binary operator of a type on a variable and a constant, into a given variable. -/
def bitwiseInto (t : TypeRef) (op : String) (v : VarRef) (k : Int) (out : VarRef) : Lower Unit := do
  let k ← intConstant t k
  let type ← ident t
  invoke (Host.Signature.binary type op type) [v, k] (some out)

def bitwise (t : TypeRef) (op : String) (v : VarRef) (k : Int) : Lower VarRef := do
  let k ← intConstant t k
  let type ← ident t
  invokeTemp (Host.Signature.binary type op type) [v, k] t

def nonZero (t : TypeRef) (v : VarRef) : Lower VarRef := do
  let zero ← intConstant t 0
  invokeTemp (Host.Signature.binary (← ident t) "op_Inequality" "SystemBoolean") [v, zero] .boolean

def nonNull (v : VarRef) : Lower VarRef := do
  let null ← constant .null .object
  invokeTemp (Host.Signature.binary "SystemObject" "op_Inequality" "SystemBoolean") [v, null]
    .boolean

def setBitsIf (condition : VarRef) (t : TypeRef) (out : VarRef) (k : Int) : Lower Unit := do
  let skip ← newLabel
  jumpIfFalse condition skip
  allocate out 1
  bitwiseInto t "op_LogicalOr" out k out
  mark skip

/-! ## Integers -/

/-- Keep the bits below the sign, then set the sign bits if the sign bit of `v` is set.  The result
is a temporary of type `target`, into which the low bits are brought by `low`. -/
def withSignBits (target : TypeRef) (low : VarRef → Lower Unit) (isSet : Lower VarRef) (k : Int) :
    Lower VarRef := do
  let out ← temp target
  reserve out
  low out
  setBitsIf (← isSet) target out k
  release out
  return out

def signedToUnsigned64 (w : VarRef) (target : TypeRef) : Lower VarRef := do
  allocate w 1
  let low ← bitwise .int64 "op_LogicalAnd" w (2 ^ (63 : Nat) - 1)
  withSignBits target (hostConvertInto low .int64 target)
    (do
      let zero ← intConstant .int64 0
      invokeTemp (Host.Signature.binary "SystemInt64" "op_LessThan" "SystemBoolean") [w, zero]
        .boolean)
    (2 ^ (63 : Nat))

def unsignedToSigned64 (w : VarRef) (target : TypeRef) : Lower VarRef := do
  allocate w 1
  let low ← bitwise .uint64 "op_LogicalAnd" w (2 ^ (63 : Nat) - 1)
  withSignBits target (hostConvertInto low .uint64 target)
    (do nonZero .uint64 (← bitwise .uint64 "op_LogicalAnd" w (2 ^ (63 : Nat))))
    (-2 ^ (63 : Nat))

/-- From a 64-bit value of type `work` to a narrower unsigned type. -/
def keepBits (work : TypeRef) (w : VarRef) (bits : Nat) (target : TypeRef) : Lower VarRef := do
  hostConvert (← bitwise work "op_LogicalAnd" w (2 ^ bits - 1)) work target

/-- From a 64-bit value of type `work` to a narrower signed type. -/
def signExtend (work : TypeRef) (w : VarRef) (bits : Nat) (target : TypeRef) : Lower VarRef := do
  let sign : Int := 2 ^ (bits - 1)
  allocate w 1
  let extended ← withSignBits work (bitwiseInto work "op_LogicalAnd" w (sign - 1))
    (do nonZero work (← bitwise work "op_LogicalAnd" w sign))
    (-sign)
  hostConvert extended work target

def reinterpret (v : VarRef) (source : TypeRef) (s : IntFormat) (target : TypeRef) (d : IntFormat) :
    Lower VarRef := do
  let work : TypeRef := if s.signed || s.bits < 64 then .int64 else .uint64
  let w ← if source = work then pure v else hostConvert v source work
  if work = .uint64 && d.bits < 64 then
    if !d.signed then keepBits .uint64 w d.bits target
    else
      let masked ← bitwise .uint64 "op_LogicalAnd" w (2 ^ d.bits - 1)
      signExtend .int64 (← hostConvert masked .uint64 .int64) d.bits target
  else if d.bits = 64 then
    if d.signed then unsignedToSigned64 w target else signedToUnsigned64 w target
  else if d.signed then signExtend work w d.bits target
  else keepBits work w d.bits target

def sameOnHost (source target : TypeRef) : Lower Bool := do
  let md ← metadata
  return source == target || (← ident source) == (← ident target)
    || (md.isReference source && md.isReference target && md.assignable source target)

def convertInteger (v : VarRef) (source : TypeRef) (s : IntFormat) (target : TypeRef)
    (d : IntFormat) : Lower VarRef := do
  if ← sameOnHost source target then return v
  if s.fitsIn d then hostConvert v source target else reinterpret v source s target d

/-- From a floating-point number to an integer type: truncate, then go through 64 bits. -/
def floatToInteger (v : VarRef) (source target : TypeRef) (d : IntFormat) : Lower VarRef := do
  let x ← if source = .double then pure v else hostConvert v source .double
  let truncated ← invokeTemp "SystemMath.__Truncate__SystemDouble__SystemDouble" [x] .double
  let wide ← hostConvert truncated .double .int64
  if target = .int64 then return wide
  convertInteger wide .int64 ⟨64, true⟩ target d

/-! ## The chain -/

def toBoolean? (v : VarRef) (source : TypeRef) : Lower (Option VarRef) := do
  let md ← metadata
  match md.intFormat? source with
  | some f =>
    if f.bits < 32 then some <$> nonZero .int32 (← hostConvert v source .int32)
    else some <$> nonZero source v
  | none =>
    if md.isFloat source then some <$> nonZero source v
    else if md.isReference source then some <$> nonNull v
    else return none

def toInteger? (v : VarRef) (source target : TypeRef) : Lower (Option VarRef) := do
  let md ← metadata
  match md.intFormat? target, md.intFormat? source with
  | none, _ => return none
  | some d, s =>
    if md.isFloat source then some <$> floatToInteger v source target d
    else
      match s with
      | none => return none
      | some s => if s.fitsIn d then return none else some <$> reinterpret v source s target d

def byHost? (v : VarRef) (source target : TypeRef) : Lower (Option VarRef) := do
  let md ← metadata
  let named := (md.conversionName? source).isSome
  if md.kind target = .string ∧ !named then
    let signature :=
      Host.Signature.render "SystemConvert" "ToString" ["SystemObject"] "SystemString"
    some <$> invokeTemp signature [v] target
  else if named ∧ (md.conversionName? target).isSome then some <$> hostConvert v source target
  else if md.isReference source ∨ md.isReference target then
    let out ← temp target
    copy v out
    return some out
  else return none

def enumObject (raw : VarRef) (underlying target : TypeRef) : Lower VarRef := do
  let md ← metadata
  let type ← constant (.type ((md.type target).hostName.getD "")) .systemType
  let signature :=
    Host.Signature.render "SystemEnum" "ToObject" ["SystemType", ← ident underlying] "SystemObject"
  invokeTemp signature [type, raw] target

def foldConstant? (v : VarRef) (source target : TypeRef) : Lower (Option VarRef) := do
  let md ← metadata
  match (← constant? v).bind fun value => md.foldConversion? value source target with
  | some folded => some <$> constant folded target
  | none => return none

/-- Conversions that involve neither enumerations nor optional values. -/
def convertPlain (v : VarRef) (source target : TypeRef) : Lower VarRef := do
  let md ← metadata
  if md.kind target = .boolean then
    if let some out ← toBoolean? v source then return out
  if let some out ← toInteger? v source target then return out
  if let some out ← byHost? v source target then return out
  refuse (.noConversion (md.typeName source) (md.typeName target))

/-- The inner conversion that a conversion goes through. -/
inductive Route where
  | fromEnum (underlying : TypeRef)
  | toEnum (underlying : TypeRef)
  | fromOptional (inner : TypeRef)
  | toOptional (inner : TypeRef)
  | plain
deriving DecidableEq, Repr

def optionalRoute (md : Metadata) (source target : TypeRef) : Route :=
  match md.nullableInner? source, md.nullableInner? target with
  | some inner, _ => .fromOptional inner
  | none, some inner => .toOptional inner
  | none, none => .plain

/-- Route of a conversion.  Enumerations only meet numbers, and as a source also truth values. -/
def route (md : Metadata) (source target : TypeRef) : Route :=
  match md.underlying? source, md.underlying? target with
  | some u, _ =>
    if md.isNumeric target || md.kind target == .boolean then .fromEnum u
    else optionalRoute md source target
  | none, some u => if md.isNumeric source then .toEnum u else optionalRoute md source target
  | none, none => optionalRoute md source target

/-- Conversion of a variable, taken as a value of a given type.  Inner types are declared before the
types that are made of them. -/
def convertFrom (v : VarRef) (source target : TypeRef) : Lower VarRef := do
  let md ← metadata
  if let some out ← foldConstant? v source target then return out
  if ← sameOnHost source target then return v
  match route md source target with
  | .fromEnum u =>
    if _h : u.index < source.index then
      let raw ← if md.isUser source then pure v else hostConvert v .object u
      convertFrom raw u target
    else convertPlain v source target
  | .toEnum u =>
    if _h : u.index < target.index then
      let raw ← convertFrom v source u
      if md.isUser target then return raw
      enumObject raw u target
    else convertPlain v source target
  | .fromOptional inner =>
    if _h : inner.index < source.index then
      let unboxed ← temp inner
      copy v unboxed
      convertFrom unboxed inner target
    else convertPlain v source target
  | .toOptional inner =>
    if _h : inner.index < target.index then
      let value ← convertFrom v source inner
      let boxed ← temp target
      copy value boxed
      return boxed
    else convertPlain v source target
  | .plain => convertPlain v source target
termination_by source.index + target.index

def convert (v : VarRef) (target : TypeRef) : Lower VarRef := do
  convertFrom v (← typeOf v) target

end FlatHeap.Lower
