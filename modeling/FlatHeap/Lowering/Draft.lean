import FlatHeap.Lowering.CallGraph
import FlatHeap.Lowering.Code
import FlatHeap.Lowering.HostName
import FlatHeap.Lowering.Initializer
import FlatHeap.Lowering.Variable

/-!
# Drafts

A draft is the program of a class while its methods are lowered: variables without slots, operations
without addresses, and the methods that still have to be lowered.  What does not change during a
compilation is kept apart, in `ClassEnv`.

Every draft starts with three variables: the program itself, the slot for return addresses, and the
address that stops the machine.
-/

namespace FlatHeap

-- The empty sum is the literal zero, whatever algebra is in scope.
attribute [local instance (high)] Zero.ofOfNat0

/-- What is fixed while a class is compiled. -/
structure ClassEnv where
  md : Metadata
  options : Options
  owner : TypeRef
  naming : Naming

namespace ClassEnv

def ident (env : ClassEnv) (t : TypeRef) : String := env.md.hostIdent env.options.behaviourType t

def namingOf (env : ClassEnv) (t : TypeRef) : Except CompileError Naming :=
  if t = env.owner then .ok env.naming else Naming.ofClass env.md env.options t

end ClassEnv

/-- A program under construction. -/
structure Draft where
  vars : Variables
  ops : Array Op := #[]
  labelCount : Nat := 0
  /-- Names of lowered methods, for the source map. -/
  methodNames : List String := []
  /-- Labels of methods. -/
  methodLabels : List (MethodRef × Label) := []
  /-- Methods whose lowering was ever asked for, in order. -/
  requested : List MethodRef := []
  /-- How many of them have been taken up. -/
  served : Nat := 0
  /-- Calls between methods of the class. -/
  calls : Calls := []
deriving DecidableEq, Repr

namespace Draft

def self : VarRef := ⟨0⟩

def returnJump : VarRef := ⟨1⟩

def halt : VarRef := ⟨2⟩

def start (owner : TypeRef) : Draft where
  vars := ⟨#[
    { type := owner, kind := .self, name := some "__this", value := some .self },
    { type := .uint32, kind := .returnJump, name := some "__return_jump" },
    { type := .uint32, kind := .constant, value := some (.address Host.haltAddress) }]⟩

/-! ## Operations and labels -/

def emit (d : Draft) (op : Op) : Draft := { d with ops := d.ops.push op }

def emitAll (d : Draft) (ops : List Op) : Draft := { d with ops := d.ops.appendList ops }

def newLabel (d : Draft) : Label × Draft :=
  (⟨d.labelCount⟩, { d with labelCount := d.labelCount + 1 })

def codeSize (d : Draft) : Nat := (d.ops.toList.map Op.size).sum

def methodNumber (d : Draft) (name : String) : Nat × Draft :=
  let (i, names) := Host.SourceMap.intern d.methodNames name
  (i, { d with methodNames := names })

/-! ## Variables -/

def addVar (d : Draft) (v : Variable) : VarRef × Draft :=
  let (r, vars) := d.vars.add v
  (r, { d with vars })

def named (d : Draft) (name : String) (type : TypeRef) (kind : VarKind) : VarRef × Draft :=
  let (r, vars) := d.vars.named name type kind
  (r, { d with vars })

def constant (d : Draft) (value : Value) (type : TypeRef) : VarRef × Draft :=
  let (r, vars) := d.vars.constant value type
  (r, { d with vars })

def textConstant (d : Draft) (s : String) : VarRef × Draft := d.constant (.text s) .string

def labelAddress (d : Draft) (l : Label) : VarRef × Draft :=
  d.addVar { type := .uint32, kind := .labelAddress l }

def fieldVar (env : ClassEnv) (d : Draft) (f : FieldRef) : Except CompileError (VarRef × Draft) :=
  match d.vars.findField? f with
  | some v => .ok (v, d)
  | none => do
    let symbol ← env.naming.lookup env.md (.field f)
    let type := (env.md.field f).type
    return d.addVar
      { type, kind := .field f, name := some symbol.emitted
        value := some (env.md.defaultValue type)
        exported := symbol.flags.exported, sync := symbol.flags.sync }

def declareField (env : ClassEnv) (d : Draft) (f : FieldRef) (initial : Option Value) :
    Except CompileError (VarRef × Draft) := do
  let (v, d) ← d.fieldVar env f
  match initial with
  | none => return (v, d)
  | some value => return (v, { d with vars := d.vars.modify v ({ · with value := some value }) })

/-! ## Methods -/

def methodLabel (d : Draft) (m : MethodRef) : Label × Draft :=
  match d.methodLabels.lookup m with
  | some l => (l, d)
  | none =>
    let (l, d) := d.newLabel
    (l, { d with methodLabels := (m, l) :: d.methodLabels })

def require (d : Draft) (m : MethodRef) : Draft :=
  if d.requested.contains m then d else { d with requested := d.requested ++ [m] }

def nextMethod (d : Draft) : Option MethodRef × Draft :=
  match d.requested[d.served]? with
  | some m => (some m, { d with served := d.served + 1 })
  | none => (none, d)

def recordCall (d : Draft) (caller callee : MethodRef) : Draft :=
  { d with calls := d.calls.record caller callee }

def checkCalls (md : Metadata) (d : Draft) : Except CompileError Unit :=
  match d.calls.cycle? with
  | none => .ok ()
  | some cycle => .error (.unsupported (.callCycle (cycle.map md.methodDisplay)))

def call (d : Draft) (callee : Label) : Draft :=
  let (after, d) := d.newLabel
  let (address, d) := d.labelAddress after
  d.emitAll [.push address, .jump callee, .mark after]

def ret (d : Draft) : Draft := d.emitAll [.push returnJump, .copy, .jumpIndirect returnJump]

end Draft

end FlatHeap
