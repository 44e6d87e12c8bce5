import FlatHeap.Lowering.Frame

/-!
# Recording code

The primitives by which a lowering records code.  Each checks its variables first: an address is not
a value, a temporary in the pool holds nothing, and a constant is never written.  Inputs use up a
pending read.

Entries of the operand stack name variables and not values, so before a variable is written every
entry that still names it is replaced by a copy.
-/

namespace FlatHeap.Lower

def emit (op : Op) : Lower Unit := draft fun d => ((), d.emit op)

def checkRead (v : VarRef) : Lower Unit := do
  let var ← var v
  if var.isAddress then breach (.addressAsValue v)
  if var.pooled then breach (.pooledReference v var.handOut)

def checkWrite (v : VarRef) : Lower Unit := do
  checkRead v
  if (← var v).isConstant then breach (.writeToConstant v)

def push (v : VarRef) : Lower Unit := do
  checkRead v
  useVar v
  emit (.push v)

def copy (source target : VarRef) : Lower Unit := do
  checkRead source
  checkWrite target
  useVar source
  if source ≠ target then
    emit (.push source)
    emit (.push target)
    emit .copy

def pushInputs : List VarRef → Lower Unit
  | [] => return
  | v :: rest => do
    useVar v
    emit (.push v)
    pushInputs rest

def checkInputs : List VarRef → Lower Unit
  | [] => return
  | v :: rest => do
    checkRead v
    checkInputs rest

def invoke (signature : String) (inputs : List VarRef) (output : Option VarRef) : Lower Unit := do
  checkInputs inputs
  if let some out := output then checkWrite out
  pushInputs inputs
  if let some out := output then emit (.push out)
  emit (.invoke (← textConstant signature))

def invokeTemp (signature : String) (inputs : List VarRef) (t : TypeRef) : Lower VarRef := do
  let out ← temp t
  invoke signature inputs (some out)
  return out

def jump (l : Label) : Lower Unit := emit (.jump l)

def jumpIfFalse (v : VarRef) (l : Label) : Lower Unit := do
  push v
  emit (.jumpIfFalse l)

def jumpIndirect (v : VarRef) : Lower Unit := do
  checkRead v
  emit (.jumpIndirect v)

def newLabel : Lower Label := draft (·.newLabel)

def mark (l : Label) : Lower Unit := emit (.mark l)

def remark (text : String) : Lower Unit := do
  let v ← textConstant text
  emit (.remark v)

def markSource (offset : Nat) : Lower Unit := do emit (.source (← read).number offset)

/-! ## Writing variables that may be on the operand stack -/

/-- Replace the operand stack entries that name one of some slots by copies, from the bottom up;
entries that name the same slot share the copy.  Temporaries and constants are never replaced. -/
def snapshotFrom (p : VarRef → Bool) : List (VarRef × Nat) → List (VarRef × VarRef) → Lower Unit
  | [], _ => return
  | (v, i) :: rest, copies => do
    let var ← var v
    if !p v || var.isTemporary || var.isConstant then snapshotFrom p rest copies
    else
      match copies.lookup v with
      | some c =>
        allocate c 1
        setStack i c
        snapshotFrom p rest copies
      | none =>
        let c ← temp var.type
        copy v c
        setStack i c
        snapshotFrom p rest ((v, c) :: copies)

/-- Replace the operand stack entries that name one of some slots by copies. -/
def snapshot (p : VarRef → Bool) : Lower Unit := do
  snapshotFrom p (← get).stack.reverse.zipIdx []

/-- Replace the operand stack entries that name fields by copies. -/
def snapshotFields : Lower Unit := do
  let vars := (← get).draft.vars
  snapshot fun v => (vars.get v).isField

def store (target source : VarRef) : Lower Unit := do
  snapshot (· == target)
  copy source target

/-! ## Results -/

/-- Where a result goes. -/
structure Destination where
  var : VarRef
  /-- The variable is a slot that the next instruction would have stored the result into; the
  instruction is done with. -/
  fused : Bool
deriving DecidableEq, Repr

def storeSlot? (env : MethodEnv) (i : Bytecode.Instruction) : Option VarRef :=
  match i.operand, i.opcode with
  | .localIndex n, .stloc0 | .localIndex n, .stloc1 | .localIndex n, .stloc2
  | .localIndex n, .stloc3 | .localIndex n, .stlocS | .localIndex n, .stloc => env.locals[n]?
  | .arg n, .stargS | .arg n, .starg => env.args[n]?
  | _, _ => none

/-- The next instruction, if it can be left out by writing its slot directly. -/
def fusable? (t : TypeRef) : Lower (Option (VarRef × Nat)) := do
  let env ← read
  let s ← get
  return do
    let i ← env.nextLive? s.cursor
    let inst ← env.code[i]?
    let slot ← storeSlot? env inst
    guard ((s.draft.vars.get slot).type == t && !env.isTarget inst.offset && !s.stack.contains slot
      && !isSelf slot)
    return (slot, i)

def destination (t : TypeRef) : Lower Destination := do
  match ← fusable? t with
  | some (slot, i) =>
    moveTo i
    return ⟨slot, true⟩
  | none => return ⟨← temp t, false⟩

/-- Leave a result on the operand stack unless it is stored already. -/
def complete (d : Destination) : Lower Unit := if d.fused then return else pushStack d.var

/-- Call a host operation and leave its result on the operand stack. -/
def invokeResult (signature : String) (inputs : List VarRef) (t : TypeRef) : Lower Unit := do
  let d ← destination t
  invoke signature inputs (some d.var)
  complete d

end FlatHeap.Lower
