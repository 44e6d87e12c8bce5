import FlatHeap.Metadata.Decl

/-!
# The metadata store

All declarations visible to a compilation live in one append-only store.  A declaration added to the
store keeps its position for good, which is what makes tokens stable: a token packs a table number
and a position counted from one.  Sixteen host types come first, so their positions are constants
(`TypeRef.int32` and the like).

Array and nullable types are made on demand and remembered by element type.  A by-reference type is
found again by its *name*.
-/

namespace FlatHeap

-- Powers are those of the integers, whatever algebra is in scope.
attribute [local instance (high)] instPowNat

namespace TypeRef

def void : TypeRef := ⟨0⟩

def boolean : TypeRef := ⟨1⟩

def char : TypeRef := ⟨2⟩

def int8 : TypeRef := ⟨3⟩

def uint8 : TypeRef := ⟨4⟩

def int16 : TypeRef := ⟨5⟩

def uint16 : TypeRef := ⟨6⟩

def int32 : TypeRef := ⟨7⟩

def uint32 : TypeRef := ⟨8⟩

def int64 : TypeRef := ⟨9⟩

def uint64 : TypeRef := ⟨10⟩

def single : TypeRef := ⟨11⟩

def double : TypeRef := ⟨12⟩

def string : TypeRef := ⟨13⟩

def object : TypeRef := ⟨14⟩

def systemType : TypeRef := ⟨15⟩

end TypeRef

def hostTypes : List TypeDecl :=
  [.host "System.Void" .void, .host "System.Boolean" .boolean, .host "System.Char" (.int .char),
    .host "System.SByte" (.int .int8), .host "System.Byte" (.int .uint8),
    .host "System.Int16" (.int .int16), .host "System.UInt16" (.int .uint16),
    .host "System.Int32" (.int .int32), .host "System.UInt32" (.int .uint32),
    .host "System.Int64" (.int .int64), .host "System.UInt64" (.int .uint64),
    .host "System.Single" .single, .host "System.Double" .double, .host "System.String" .string,
    .host "System.Object" .object, .host "System.Type" .classType]

structure Metadata where
  types : Array TypeDecl := hostTypes.toArray
  fields : Array FieldDecl := #[]
  methods : Array MethodDecl := #[]
  /-- Texts of string literals by position. -/
  strings : List String := []
  /-- Array types by element type, latest first. -/
  arrays : List (TypeRef × TypeRef) := []
  /-- Nullable types by inner type, latest first. -/
  nullables : List (TypeRef × TypeRef) := []
deriving Inhabited

namespace Metadata

/-! ## Lookup -/

def type (md : Metadata) (t : TypeRef) : TypeDecl := md.types.getD t.index default

def field (md : Metadata) (f : FieldRef) : FieldDecl := md.fields.getD f.index default

def method (md : Metadata) (m : MethodRef) : MethodDecl := md.methods.getD m.index default

def typeName (md : Metadata) (t : TypeRef) : String := (md.type t).name

def typeRefs (md : Metadata) : List TypeRef := (List.range md.types.size).map TypeRef.mk

def methodRefs (md : Metadata) : List MethodRef := (List.range md.methods.size).map MethodRef.mk

def findType? (md : Metadata) (name : String) : Option TypeRef :=
  (md.types.toList.findIdx? (·.name == name)).map TypeRef.mk

def findMethod? (md : Metadata) (owner : TypeRef) (name : String) : Option MethodRef :=
  (md.type owner).methods.find? fun m => (md.method m).name == name

def findField? (md : Metadata) (owner : TypeRef) (name : String) : Option FieldRef :=
  (md.type owner).fields.find? fun f => (md.field f).name == name

def findArray? (md : Metadata) (elem : TypeRef) : Option TypeRef := md.arrays.lookup elem

/-- A method as messages name it: its type, its name, and its parameter types in brackets. -/
def methodDisplay (md : Metadata) (m : MethodRef) : String :=
  let decl := md.method m
  let params := decl.params.map fun p => md.typeName p.type
  md.typeName decl.declaring ++ "::" ++ decl.name ++ "(" ++ ", ".intercalate params ++ ")"

def fieldDisplay (md : Metadata) (f : FieldRef) : String :=
  let decl := md.field f
  md.typeName decl.declaring ++ "::" ++ decl.name

/-! ## Construction -/

def addType (md : Metadata) (decl : TypeDecl) : TypeRef × Metadata :=
  (⟨md.types.size⟩, { md with types := md.types.push decl })

def updateType (md : Metadata) (t : TypeRef) (change : TypeDecl → TypeDecl) : Metadata :=
  { md with types := md.types.setIfInBounds t.index (change (md.type t)) }

def addField (md : Metadata) (owner : TypeRef) (decl : FieldDecl) : FieldRef × Metadata :=
  let f : FieldRef := ⟨md.fields.size⟩
  let md := { md with fields := md.fields.push { decl with declaring := owner } }
  (f, md.updateType owner fun t => { t with fields := t.fields ++ [f] })

def addMethod (md : Metadata) (owner : TypeRef) (decl : MethodDecl) : MethodRef × Metadata :=
  let m : MethodRef := ⟨md.methods.size⟩
  let md := { md with methods := md.methods.push { decl with declaring := owner } }
  (m, md.updateType owner fun t => { t with methods := t.methods ++ [m] })

def setBody (md : Metadata) (m : MethodRef) (body : MethodBody) : Metadata :=
  { md with methods := md.methods.setIfInBounds m.index { md.method m with body := some body } }

/-- Array of an element type, made on first request.  It belongs to the host exactly when its
elements do. -/
def arrayOf (md : Metadata) (elem : TypeRef) : TypeRef × Metadata :=
  match md.arrays.lookup elem with
  | some t => (t, md)
  | none =>
    let name := md.typeName elem ++ "[]"
    let hostName := if (md.type elem).isHost then some name else none
    let (t, md) := md.addType { name, kind := .array elem, hostName }
    (t, { md with arrays := (elem, t) :: md.arrays })

def nullableMethods (inner : TypeRef) : List MethodDecl :=
  [{ name := ".ctor", result := .void, params := [{ name := "value", type := inner }] },
    { name := "get_HasValue", result := .boolean }, { name := "get_Value", result := inner },
    { name := "GetValueOrDefault", result := inner }]

/-- Optional values of a type, made with their methods on first request. -/
def nullableOf (md : Metadata) (inner : TypeRef) : TypeRef × Metadata :=
  match md.nullables.lookup inner with
  | some t => (t, md)
  | none =>
    let name := "System.Nullable<" ++ md.typeName inner ++ ">"
    let (t, md) := md.addType (.host name (.nullable inner))
    let md := { md with nullables := (inner, t) :: md.nullables }
    (t, (nullableMethods inner).foldl (fun md decl => (md.addMethod t decl).2) md)

/-- References to values of a type; any type with the right name is taken for it. -/
def byRefOf (md : Metadata) (elem : TypeRef) : TypeRef × Metadata :=
  let name := md.typeName elem ++ "&"
  match md.findType? name with
  | some t => (t, md)
  | none => md.addType (.host name (.byRef elem))

/-! ## Tokens -/

/-- Table numbers of tokens. -/
inductive Table where
  | type
  | field
  | method
  | string
deriving DecidableEq, Repr

def Table.number : Table → Nat
  | type => 0x02
  | field => 0x04
  | method => 0x06
  | string => 0x70

def token (table : Table) (index : Nat) : UInt32 :=
  UInt32.ofNat (table.number * 2 ^ (24 : Nat) + (index + 1) % 2 ^ (24 : Nat))

/-- Position a token names in a table with the given number of entries. -/
def resolveIn? (table : Table) (size : Nat) (token : UInt32) : Option Nat :=
  let row := token.toNat % 2 ^ (24 : Nat)
  if token.toNat / 2 ^ (24 : Nat) = table.number ∧ 1 ≤ row ∧ row ≤ size then some (row - 1) else none

def resolveType? (md : Metadata) (t : UInt32) : Option TypeRef :=
  (resolveIn? .type md.types.size t).map TypeRef.mk

def resolveField? (md : Metadata) (t : UInt32) : Option FieldRef :=
  (resolveIn? .field md.fields.size t).map FieldRef.mk

def resolveMethod? (md : Metadata) (t : UInt32) : Option MethodRef :=
  (resolveIn? .method md.methods.size t).map MethodRef.mk

def resolveString? (md : Metadata) (t : UInt32) : Option String :=
  (resolveIn? .string md.strings.length t).bind (md.strings[·]?)

def stringToken (md : Metadata) (s : String) : UInt32 × Metadata :=
  match md.strings.idxOf? s with
  | some i => (token .string i, md)
  | none => (token .string md.strings.length, { md with strings := md.strings ++ [s] })

end Metadata

end FlatHeap
