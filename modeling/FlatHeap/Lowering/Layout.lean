import FlatHeap.Lowering.Draft

/-!
# From drafts to programs

The address of an operation is the sum of the sizes of those before it, so all labels are known
before any of them is needed.  The heap holds the fields the class declares, then the fields it
inherits, then every other variable the code refers to, in the order they were made.  Variables
without a fixed name are numbered in heap order.  Addresses and heap indices have 32 bits.
-/

namespace FlatHeap

namespace Op

def addressesFrom (address : Nat) : List Op → List (Nat × Op)
  | [] => []
  | op :: rest => (address, op) :: addressesFrom (address + op.size) rest

def labels (located : List (Nat × Op)) : List (Label × Nat) :=
  located.filterMap fun (address, op) =>
    match op with
    | mark l => some (l, address)
    | _ => none

def entryPoints (located : List (Nat × Op)) : List Host.EntryPoint :=
  located.filterMap fun (address, op) =>
    match op with
    | entry name => some { name, address }
    | _ => none

def sourcePoints (located : List (Nat × Op)) : List Host.SourcePoint :=
  located.filterMap fun (address, op) =>
    match op with
    | source method offset => some { address, method, offset }
    | _ => none

end Op

namespace Draft

/-- The first label that is placed a second time, going through labels in order. -/
def repeatedLabel? : List (Label × Nat) → List Label → Option Label
  | [], _ => none
  | (l, _) :: rest, seen => if seen.contains l then some l else repeatedLabel? rest (l :: seen)

def resolve (labels : List (Label × Nat)) (l : Label) : Except CompileError Nat :=
  match labels.lookup l with
  | some address => .ok address
  | none => .error { cause := .unresolvedLabel l.index }

/-- Part of a generated name that says what the variable is for. -/
def nameStem (v : Variable) : String :=
  match v.kind with
  | .localSlot => "lcl"
  | .constant | .labelAddress _ => "const"
  | _ => "intnl"

/-- Slots of fields in the order they were made, with whether the class itself declares the
field. -/
def fieldSlots (env : ClassEnv) (d : Draft) : List (VarRef × Bool) :=
  d.vars.toList.filterMap fun (r, v) =>
    match v.kind with
    | .field f => some (r, (env.md.field f).declaring == env.owner)
    | _ => none

def heapOrder (env : ClassEnv) (d : Draft) : List VarRef :=
  let referenced := d.ops.toList.filterMap Op.var?
  let fields := d.fieldSlots env
  (fields.filter (·.2)).map (·.1) ++ (fields.filter (!·.2)).map (·.1)
    ++ (d.vars.toList.filter fun (r, v) =>
      !v.isField && !v.isAddress && referenced.contains r).map (·.1)

def slotValue (env : ClassEnv) (labels : List (Label × Nat)) (v : Variable) :
    Except CompileError Value :=
  match v.kind with
  | .labelAddress l => return .address (UInt32.ofNat (← resolve labels l))
  | _ => .ok (v.value.getD (env.md.defaultValue v.type))

/-- Heap slots of variables.  `unnamed` counts the generated names and `names` holds all names so
far. -/
def slots (env : ClassEnv) (labels : List (Label × Nat)) :
    List Variable → Nat → List String → Except CompileError (List Host.HeapSlot)
  | [], _, _ => .ok []
  | v :: rest, unnamed, names => do
    let hostType := env.ident v.type
    let (name, unnamed) :=
      match v.name with
      | some name => (name, unnamed)
      | none => (s!"__{unnamed}_" ++ nameStem v ++ "_" ++ hostType, unnamed + 1)
    if names.contains name then .error (.invariant (.duplicateSlot name))
    let value ← slotValue env labels v
    let others ← slots env labels rest unnamed (name :: names)
    return { name, hostType, value, exported := v.exported, sync := v.sync } :: others

def heapIndex (order : List VarRef) (v : VarRef) : Except CompileError UInt32 :=
  match order.idxOf? v with
  | some i => .ok (UInt32.ofNat i)
  | none => .error (.invariant (.noHeapSlot v))

def instruction? (order : List VarRef) (labels : List (Label × Nat)) :
    Op → Except CompileError (Option Host.Instruction)
  | .push v => return some (.unary .push (← heapIndex order v))
  | .pop => return some (.bare .pop)
  | .copy => return some (.bare .copy)
  | .nop => return some (.bare .nop)
  | .invoke v => return some (.unary .invoke (← heapIndex order v))
  | .jump l => return some (.unary .jump (UInt32.ofNat (← resolve labels l)))
  | .jumpIfFalse l => return some (.unary .jumpIfFalse (UInt32.ofNat (← resolve labels l)))
  | .jumpIndirect v => return some (.unary .jumpIndirect (← heapIndex order v))
  | .remark v => return some (.unary .remark (← heapIndex order v))
  | .mark _ | .source _ _ | .entry _ => return none

def layout (env : ClassEnv) (d : Draft) : Except CompileError Host.Program := do
  if Host.haltAddress.toNat < d.codeSize then .error (.invariant (.tooLarge "code"))
  let located := Op.addressesFrom 0 d.ops.toList
  let labels := Op.labels located
  if let some l := repeatedLabel? labels [] then .error (.invariant (.labelPlacedTwice l))
  let order := d.heapOrder env
  if UInt32.size < order.length then .error (.invariant (.tooLarge "heap"))
  let heap ← slots env labels (order.map d.vars.get) 0 []
  let code ← d.ops.toList.mapM (instruction? order labels)
  let sourceMap : Host.SourceMap := { methods := d.methodNames, points := Op.sourcePoints located }
  return {
    heap
    code := code.filterMap id
    entryPoints := Op.entryPoints located
    sourceMap := if env.options.sourceMap then some sourceMap.sort else none }

end Draft

end FlatHeap
