import FlatHeap.Rules.Operand

/-!
# Members of the class itself

A field of the running program is a slot.  A call of one of its methods stores the arguments into
the callee's parameter slots, pushes a return address and jumps; the slots are shared by all calls,
so an argument that names a slot written for an earlier argument is copied out first, and what was
passed by reference is copied back afterwards.
-/

namespace FlatHeap.Rules

open Lower
open Bytecode (Opcode Instruction)

def ownField : Rule where
  name := "own-field"
  build i := do
    let f ← i.field
    if !(← read).naming.contains (.field f) then return false
    if !isSelf (← peekStack (if i.opcode = .stfld then 1 else 0)) then return false
    let slot ← fieldVar f
    match i.opcode with
    | .stfld =>
      let v ← popStack
      let _ ← popStack
      store slot (← convert v (← typeOf slot))
    | .ldflda =>
      let _ ← popStack
      pushStack (← addressOf slot)
    | _ =>
      let _ ← popStack
      pushStack slot
    return true

/-- The call is one of a method of the class on the running program. -/
def isOwnCall (i : Instruction) (m : MethodRef) : Lower Bool := do
  let env ← read
  let decl := env.md.method m
  if i.opcode = .newobj ∨ !env.naming.contains (.method m) then return false
  if decl.isStatic then return true
  return isSelf (← peekStack decl.params.length)

/-- Body that a call of a method reaches.  A virtual call, or one of a method without body, reaches
the most derived body of the method's family. -/
def callTarget (i : Instruction) (m : MethodRef) (symbol : Symbol) : Lower MethodRef := do
  let md ← metadata
  if i.opcode ≠ .callvirt ∧ (md.method m).body.isSome then return m
  match (← read).naming.dispatchTarget? md symbol.emitted with
  | some target => return target
  | none => refuse (.noImplementation (md.methodDisplay m))

def parameterSlots : List (ParamDecl × String) → Lower (List VarRef)
  | [] => return []
  | (p, name) :: rest => do
    let slot ← draft (·.named name p.type .parameter)
    return slot :: (← parameterSlots rest)

/-- Copy arguments out of parameter slots that are written before the argument is read. -/
def protectArguments : List (VarRef × ParamDecl × VarRef) → List VarRef → Lower (List VarRef)
  | [], _ => return []
  | (arg, p, slot) :: rest, written => do
    let arg ←
      if !p.byRef && written.contains arg then do
        let c ← temp (← typeOf arg)
        copy arg c
        pure c
      else pure arg
    return arg :: (← protectArguments rest (written ++ [slot]))

/-- Store arguments into parameter slots.  The result lists the slots to copy back, with the
variables that were passed by reference. -/
def storeArguments : List (VarRef × ParamDecl × VarRef) → Lower (List (VarRef × VarRef))
  | [] => return []
  | (arg, p, slot) :: rest => do
    if p.byRef then
      let .address source := (← var arg).kind | refuse .byRefSource
      store slot source
      return (slot, source) :: (← storeArguments rest)
    else
      store slot (← convert arg p.type)
      storeArguments rest

def copyBack : List (VarRef × VarRef) → Lower Unit
  | [] => return
  | (slot, source) :: rest => do
    store source slot
    copyBack rest

def enterMethod (m : MethodRef) : Lower Unit := do
  let callee ← draft (·.methodLabel m)
  draft fun d => ((), d.require m)
  let after ← newLabel
  let address ← draft (·.labelAddress after)
  push address
  jump callee
  mark after

def ownCall : Rule where
  name := "self-call"
  build i := do
    let env ← read
    let m ← i.method
    let decl := env.md.method m
    if decl.isCtor ∧ i.opcode = .call ∧ env.md.isUser decl.declaring then
      refuse (.constructorChaining (env.md.methodDisplay m))
    if !(← isOwnCall i m) then return false
    let symbol ← ofExcept (env.naming.lookup env.md (.method m))
    let target ← callTarget i m symbol
    draft fun d => ((), d.recordCall env.method target)
    if target = env.method then refuse (.recursiveCall (env.md.methodDisplay target))
    let args ← popMany decl.params.length
    if !decl.isStatic then
      let _ ← popStack
    let slots ← parameterSlots (decl.params.zip symbol.params)
    let args ← protectArguments (args.zip (decl.params.zip slots)) []
    let passed ← storeArguments (args.zip (decl.params.zip slots))
    snapshotFields
    enterMethod target
    copyBack passed
    if let some name := symbol.result then
      let result ← draft (·.named name decl.result .returnValue)
      let d ← destination decl.result
      copy result d.var
      complete d
    return true

end FlatHeap.Rules
