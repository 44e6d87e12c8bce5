import FlatHeap.Rules.Operand

/-!
# Members of other programs

Another class of the compiled program is a program of its own.  Its fields are variables of that
program, and a call stores the arguments into its parameter slots, sends an event and reads the
result slot, all by name.  The names are those of the declaring class.
-/

namespace FlatHeap.Rules

open Lower

def remoteField : Rule where
  name := "remote-field"
  build i := do
    let env ← read
    let f ← i.field
    let decl := env.md.field f
    if !env.md.isBehaviour decl.declaring then return false
    let naming ← ofExcept (env.namingOf decl.declaring)
    let symbol ← ofExcept (naming.lookup env.md (.field f))
    let name ← textConstant symbol.emitted
    if i.opcode = .stfld then
      let v ← popStack
      let receiver ← popStack
      let v ← convert v decl.type
      invoke env.options.remote.setVariable [receiver, name, v] none
    else
      let receiver ← popStack
      invokeResult env.options.remote.getVariable [receiver, name] decl.type
    return true

def setRemoteParameters (receiver : VarRef) : List (VarRef × ParamDecl × String) → Lower Unit
  | [] => return
  | (arg, p, name) :: rest => do
    let v ← convert arg p.type
    let name ← textConstant name
    invoke (← read).options.remote.setVariable [receiver, name, v] none
    setRemoteParameters receiver rest

def remoteObstacle? (md : Metadata) (i : Bytecode.Instruction) (m : MethodRef) :
    Option Limitation :=
  let decl := md.method m
  if i.opcode = .newobj ∨ decl.isCtor then some (.constructedBehaviour (md.methodDisplay m))
  else if decl.isStatic then some (.remoteStatic (md.methodDisplay m))
  else if decl.params.any (·.byRef) then some (.remoteByRef (md.methodDisplay m))
  else none

def remoteCall : Rule where
  name := "remote-call"
  build i := do
    let env ← read
    let m ← i.method
    let decl := env.md.method m
    if !env.md.isBehaviour decl.declaring then return false
    if let some l := remoteObstacle? env.md i m then refuse l
    let naming ← ofExcept (env.namingOf decl.declaring)
    let symbol ← ofExcept (naming.lookup env.md (.method m))
    let args ← popMany decl.params.length
    let receiver ← popStack
    allocate receiver (args.length + if symbol.result.isSome then 1 else 0)
    setRemoteParameters receiver (args.zip (decl.params.zip symbol.params))
    let event ← textConstant symbol.emitted
    invoke env.options.remote.sendEvent [receiver, event] none
    if let some result := symbol.result then
      let name ← textConstant result
      invokeResult env.options.remote.getVariable [receiver, name] decl.result
    return true

end FlatHeap.Rules
