import FlatHeap.Metadata.Kinds

/-!
# Compile-time values

Typed values of integers and literals, and the conversion of a constant at compile time.  A
conversion that must wait for run time is `none`: a null reference to a value type, a type or an
address, a number without a finite value to an integer.

Floating-point numbers become integers by truncation into 128 bits, where they saturate, and are
then wrapped to the format of the target.
-/

namespace FlatHeap.Metadata

/-- The value of a type that an integer stands for, reduced to the width of the type. -/
def integerValue? (md : Metadata) (t : TypeRef) (v : Int) : Option Value :=
  match md.kind t with
  | .boolean => some (.bool (v ≠ 0))
  | .int k => some (.ofInt k v)
  | .single => some (.single (Binary.ofInt .single v))
  | .double => some (.double (Binary.ofInt .double v))
  | .enum u => if _h : u.index < t.index then md.integerValue? u v else none
  | _ => none
termination_by t.index

def literalValue? (md : Metadata) (t : TypeRef) : Literal → Option Value
  | .null => some .null
  | .text s => some (.text s)
  | .bool b => md.integerValue? t b.toNat
  | .char w => md.integerValue? t w.toNat
  | .int32 w => md.integerValue? t w.toInt
  | .int64 w => md.integerValue? t w.toInt
  | .single x =>
    some (if md.kind t = .double then .double (x.convert .double) else .single x)
  | .double x =>
    some (if md.kind t = .single then .single (x.convert .single) else .double x)

def defaultValue (md : Metadata) (t : TypeRef) : Value := (md.integerValue? t 0).getD .null

def foldInteger? (md : Metadata) (v : Int) (target : TypeRef) : Option Value :=
  match md.intFormat? (md.withoutEnum target) with
  | some format => md.integerValue? target (format.wrap v)
  | none =>
    if md.kind target = .boolean ∨ md.isFloat target then md.integerValue? target v else none

def foldFloat? (md : Metadata) (x : Double) (target : TypeRef) : Option Value :=
  match md.kind target with
  | .boolean => some (.bool !(x.eq (Binary.ofInt .double 0)))
  | .single => some (.single (x.convert .single))
  | .double => some (.double x)
  | _ => do
    let format ← md.intFormat? (md.withoutEnum target)
    if x.isFinite then md.integerValue? target (format.wrap x.truncWide) else none

/-- Conversion of a number or truth value, through the inner type where the target is optional. -/
def foldNumber? (md : Metadata) (value : Value) (source target : TypeRef) : Option Value :=
  if source = target ∨ md.kind target = .object then some value
  else
    match md.kind target with
    | .nullable inner =>
      if _h : inner.index < target.index then md.foldNumber? value source inner else none
    | _ =>
      match value.integer?, value.float? with
      | some v, _ => md.foldInteger? v target
      | none, some x => md.foldFloat? x target
      | none, none => none
termination_by target.index

/-- Conversion of a constant at compile time, or `none` if it must happen at run time. -/
def foldConversion? (md : Metadata) (value : Value) (source target : TypeRef) : Option Value :=
  if source = target then some value
  else
    match value with
    | .null => if md.isReference target then some .null else none
    | .text _ => if md.kind target = .string ∨ md.kind target = .object then some value else none
    | .type _ | .address _ | .self => none
    | _ => md.foldNumber? value source target

end FlatHeap.Metadata
