import FlatHeap.Metadata.Basic

/-!
# Classification of types

Questions about a type that only its kind decides, apart from membership in the compiled program.
-/

namespace FlatHeap.Metadata

def kind (md : Metadata) (t : TypeRef) : TypeKind := (md.type t).kind

def isUser (md : Metadata) (t : TypeRef) : Bool := !(md.type t).isHost

/-- The type is compiled to a program of its own, or stands for one. -/
def isBehaviour (md : Metadata) (t : TypeRef) : Bool :=
  md.isUser t && (md.kind t == .classType || md.kind t == .interfaceType)

/-- Format of an integer type; characters count as unsigned 16-bit integers. -/
def intFormat? (md : Metadata) (t : TypeRef) : Option IntFormat :=
  match md.kind t with
  | .int k => some k.format
  | _ => none

def isInteger (md : Metadata) (t : TypeRef) : Bool := (md.intFormat? t).isSome

def isUnsigned (md : Metadata) (t : TypeRef) : Bool := (md.intFormat? t).any (!·.signed)

def isFloat (md : Metadata) (t : TypeRef) : Bool :=
  match md.kind t with
  | .single | .double => true
  | _ => false

def isNumeric (md : Metadata) (t : TypeRef) : Bool := md.isInteger t || md.isFloat t

def bitWidth? (md : Metadata) (t : TypeRef) : Option Nat :=
  match md.kind t with
  | .single => some 32
  | .double => some 64
  | .int k => some k.bits
  | _ => none

def isReference (md : Metadata) (t : TypeRef) : Bool :=
  match md.kind t with
  | .string | .object | .classType | .interfaceType | .array _ | .nullable _ => true
  | _ => false

def isValueType (md : Metadata) (t : TypeRef) : Bool := !md.isReference t && md.kind t != .void

def underlying? (md : Metadata) (t : TypeRef) : Option TypeRef :=
  match md.kind t with
  | .enum u => some u
  | _ => none

def nullableInner? (md : Metadata) (t : TypeRef) : Option TypeRef :=
  match md.kind t with
  | .nullable inner => some inner
  | _ => none

def arrayElem? (md : Metadata) (t : TypeRef) : Option TypeRef :=
  match md.kind t with
  | .array elem => some elem
  | _ => none

def withoutEnum (md : Metadata) (t : TypeRef) : TypeRef := (md.underlying? t).getD t

end FlatHeap.Metadata
