import FlatHeap.Rules.Operand

/-!
# Arguments, local slots and constants

Loading a slot puts its variable on the operand stack; no code is recorded.  A parameter passed by
reference is copied in and out by the caller, so loading it gives the address of its slot.
-/

namespace FlatHeap.Rules

open Lower

def noOp : Rule where
  name := "no-op"
  build _ := return true

def loadArgument : Rule where
  name := "ldarg"
  build i := do
    let n ← i.slotIndex
    let v ← arg n
    let decl := (← read).decl
    let param := if decl.isStatic then some n else if n = 0 then none else some (n - 1)
    if (param.bind (decl.params[·]?)).any (·.byRef) then pushStack (← addressOf v) else pushStack v
    return true

def storeTop (slot : VarRef) : Lower Unit := do
  let v ← popStack
  store slot (← convert v (← typeOf slot))

def storeArgument : Rule where
  name := "starg"
  build i := do
    let slot ← arg (← i.slotIndex)
    if isSelf slot then refuse .assignmentToSelf
    storeTop slot
    return true

def loadLocal : Rule where
  name := "ldloc"
  build i := do
    pushStack (← localSlot (← i.slotIndex))
    return true

def storeLocal : Rule where
  name := "stloc"
  build i := do
    storeTop (← localSlot (← i.slotIndex))
    return true

def loadAddress : Rule where
  name := "ldloca"
  build i := do
    let n ← i.slotIndex
    let slot ← if i.opcode == .ldargaS || i.opcode == .ldarga then arg n else localSlot n
    pushStack (← addressOf slot)
    return true

def loadConstant : Rule where
  name := "ldc"
  build i := do
    let some (value, t) := i.loadedConstant? | return false
    pushStack (← constant value t)
    return true

def duplicate : Rule where
  name := "dup"
  build _ := do
    let top ← peekStack 0
    match (← var top).kind with
    | .element array index =>
      allocate array 1
      allocate index 1
    | _ => allocate top 1
    pushStack top
    return true

def dropTop : Rule where
  name := "pop"
  build _ := do
    discardVar (← popStack)
    return true

end FlatHeap.Rules
