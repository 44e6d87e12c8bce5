import FlatHeap.Lowering.Ref
import FlatHeap.Metadata.Decl

/-!
# Variables of a draft

A variable stands for a slot of the host heap.  Constants, temporaries and local slots get their
names only when the program is laid out, and only if the code refers to them.  Two kinds never
become slots: they stand for an address on the operand stack.

Constants are shared: there is at most one for every type and value, compared bit by bit.  Variables
with a fixed name are found again by it; the latest one counts.
-/

namespace FlatHeap

/-- What a variable is for. -/
inductive VarKind where
  | self
  | field (f : FieldRef)
  /-- A parameter of a method, shared by all callers. -/
  | parameter
  | returnValue
  /-- The slot that return addresses are copied into. -/
  | returnJump
  | localSlot
  | constant
  /-- The address of a label, known when the program is laid out. -/
  | labelAddress (l : Label)
  /-- A slot handed out by the scratch pool. -/
  | temporary
  /-- The address of another variable. -/
  | address (target : VarRef)
  /-- The address of an array element. -/
  | element (array index : VarRef)
deriving DecidableEq, Repr, Inhabited

structure Variable where
  type : TypeRef
  kind : VarKind
  name : Option String := none
  /-- Value of a constant, initial value of another slot. -/
  value : Option Value := none
  /-- Other programs may access the slot. -/
  exported : Bool := false
  sync : SyncMode := .none
  /-- Pending reads of a temporary. -/
  uses : Nat := 0
  /-- The temporary is kept beyond its pending reads. -/
  reserved : Bool := false
  /-- The temporary is in the pool. -/
  pooled : Bool := false
  /-- Where the temporary was last handed out. -/
  handOut : Option HandOut := none
deriving DecidableEq, Repr, Inhabited

namespace Variable

def isTemporary (v : Variable) : Bool := v.kind == .temporary

def isConstant (v : Variable) : Bool :=
  match v.kind with
  | .constant | .labelAddress _ => true
  | _ => false

def isAddress (v : Variable) : Bool :=
  match v.kind with
  | .address _ | .element _ _ => true
  | _ => false

def isField (v : Variable) : Bool :=
  match v.kind with
  | .field _ => true
  | _ => false

def constant? (v : Variable) : Option Value := if v.kind = .constant then v.value else none

end Variable

/-- Variables in the order they were made. -/
structure Variables where
  entries : Array Variable := #[]
deriving DecidableEq, Repr

namespace Variables

def get (vs : Variables) (v : VarRef) : Variable := vs.entries[v.index]?.getD default

def modify (vs : Variables) (v : VarRef) (f : Variable → Variable) : Variables :=
  ⟨vs.entries.modify v.index f⟩

def add (vs : Variables) (v : Variable) : VarRef × Variables :=
  (⟨vs.entries.size⟩, ⟨vs.entries.push v⟩)

def find? (vs : Variables) (name : String) : Option VarRef :=
  (vs.entries.toList.reverse.findIdx? (·.name == some name)).map fun i => ⟨vs.entries.size - 1 - i⟩

def named (vs : Variables) (name : String) (type : TypeRef) (kind : VarKind) : VarRef × Variables :=
  match vs.find? name with
  | some v => (v, vs)
  | none => vs.add { type, kind, name := some name }

def findConstant? (vs : Variables) (value : Value) (type : TypeRef) : Option VarRef :=
  (vs.entries.findIdx? fun v =>
    v.type == type && v.constant?.map Value.identity == some value.identity).map VarRef.mk

/-- The constant of a type and value, made at the first request. -/
def constant (vs : Variables) (value : Value) (type : TypeRef) : VarRef × Variables :=
  match vs.findConstant? value type with
  | some v => (v, vs)
  | none => vs.add { type, kind := .constant, value := some value }

def findField? (vs : Variables) (f : FieldRef) : Option VarRef :=
  (vs.entries.findIdx? (·.kind == .field f)).map VarRef.mk

def toList (vs : Variables) : List (VarRef × Variable) :=
  vs.entries.toList.zipIdx.map fun (v, i) => (⟨i⟩, v)

end Variables

end FlatHeap
