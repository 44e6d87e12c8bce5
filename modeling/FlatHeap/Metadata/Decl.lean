import FlatHeap.Host.Program

/-!
# Declarations

What is known of the program being compiled and of the host: types, fields and methods.  A
declaration refers to others by their positions in one store (`FlatHeap.Metadata`), so declarations
are plain data and can be listed, compared and searched without following links.
-/

namespace FlatHeap

structure TypeRef where
  index : Nat
deriving DecidableEq, Repr, Inhabited

structure FieldRef where
  index : Nat
deriving DecidableEq, Repr, Inhabited

structure MethodRef where
  index : Nat
deriving DecidableEq, Repr, Inhabited

/-- What a type is. -/
inductive TypeKind where
  | void
  | boolean
  | int (k : IntKind)
  | single
  | double
  | string
  | object
  | classType
  | structType
  | interfaceType
  | enum (underlying : TypeRef)
  /-- An optional value, held on the host as a reference to a boxed one. -/
  | nullable (inner : TypeRef)
  | array (elem : TypeRef)
  | byRef (elem : TypeRef)
  | genericParam (index : Nat)
deriving DecidableEq, Repr, Inhabited

namespace TypeKind

def intName : IntKind → String
  | .char => "Char"
  | .int8 => "Int8"
  | .uint8 => "UInt8"
  | .int16 => "Int16"
  | .uint16 => "UInt16"
  | .int32 => "Int32"
  | .uint32 => "UInt32"
  | .int64 => "Int64"
  | .uint64 => "UInt64"

def component (kind label value : String) : String :=
  kind ++ " \x7b " ++ label ++ ": " ++ value ++ " \x7d"

def refText (t : TypeRef) : String := s!"TypeKey({t.index})"

def describe : TypeKind → String
  | void => "Void"
  | boolean => "Boolean"
  | int k => intName k
  | single => "Float32"
  | double => "Float64"
  | string => "String"
  | object => "Object"
  | classType => "Class"
  | structType => "Struct"
  | interfaceType => "Interface"
  | enum t => component "Enum" "underlying" (refText t)
  | nullable t => component "Nullable" "inner" (refText t)
  | array t => component "Array" "elem" (refText t)
  | byRef t => component "ByRef" "elem" (refText t)
  | genericParam i => component "GenericParam" "index" (toString i)

end TypeKind

/-- What is said of a member beside its type. -/
structure MemberFlags where
  /-- Other programs and events may reach the member. -/
  exported : Bool := false
  /-- The member must keep its own name. -/
  unique : Bool := false
  /-- The member shares its name with the members it overrides. -/
  family : Bool := false
  /-- Replication of the member's slot. -/
  sync : SyncMode := .none
deriving DecidableEq, Repr, Inhabited

inductive Literal where
  | null
  | bool (b : Bool)
  | char (w : BitVec 16)
  | int32 (w : BitVec 32)
  | int64 (w : BitVec 64)
  | single (x : Single)
  | double (x : Double)
  | text (s : String)
deriving DecidableEq, Repr

structure TypeDecl where
  name : String
  kind : TypeKind
  /-- Name on the host; a type without one belongs to the compiled program. -/
  hostName : Option String
  base : Option TypeRef := none
  /-- Interfaces listed by the declaration. -/
  interfaces : List TypeRef := []
  fields : List FieldRef := []
  methods : List MethodRef := []
deriving DecidableEq, Repr, Inhabited

namespace TypeDecl

def host (name : String) (kind : TypeKind) : TypeDecl := { name, kind, hostName := some name }

def user (name : String) (kind : TypeKind) : TypeDecl := { name, kind, hostName := none }

def isHost (t : TypeDecl) : Bool := t.hostName.isSome

end TypeDecl

structure FieldDecl where
  name : String
  declaring : TypeRef := ⟨0⟩
  type : TypeRef
  /-- The field belongs to the type and not to its instances. -/
  isStatic : Bool := false
  /-- The field is never assigned after initialisation. -/
  isInitOnly : Bool := false
  literal : Option Literal := none
  flags : MemberFlags := {}
deriving DecidableEq, Repr, Inhabited

/-- A field with a compile-time value is static and never assigned. -/
def FieldDecl.withLiteral (f : FieldDecl) (value : Literal) : FieldDecl :=
  { f with isStatic := true, isInitOnly := true, literal := some value }

structure ParamDecl where
  name : String
  type : TypeRef
  /-- The callee writes back into the argument. -/
  byRef : Bool := false
deriving DecidableEq, Repr, Inhabited

structure MethodBody where
  code : List UInt8 := []
  locals : List TypeRef := []
deriving DecidableEq, Repr, Inhabited

structure MethodDecl where
  name : String
  declaring : TypeRef := ⟨0⟩
  /-- The method has no receiver. -/
  isStatic : Bool := false
  isVirtual : Bool := false
  /-- Parameters, the receiver apart. -/
  params : List ParamDecl := []
  result : TypeRef
  body : Option MethodBody := none
  flags : MemberFlags := {}
deriving DecidableEq, Repr, Inhabited

namespace MethodDecl

def isCtor (m : MethodDecl) : Bool := m.name == ".ctor"

def isTypeInitializer (m : MethodDecl) : Bool := m.name == ".cctor"

/-- Number of arguments on the operand stack, the receiver included. -/
def argCount (m : MethodDecl) : Nat := m.params.length + if m.isStatic then 0 else 1

end MethodDecl

end FlatHeap
