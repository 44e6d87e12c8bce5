import FlatHeap.Rules.Operand

/-!
# Members of host types

Methods, constructors and fields of the host are operations of the host, each called by its
signature.  A value type may be constructed, or have a field set, in place: in a variable, or in an
array element, which is then read, changed and written back.
-/

namespace FlatHeap.Rules

open Lower

def hostInputs : List (VarRef × ParamDecl) → Lower (List VarRef)
  | [] => return []
  | (arg, p) :: rest => do
    let input ←
      if p.byRef then do
        let .address target := (← var arg).kind | refuse .byRefSource
        snapshot (· == target)
        pure target
      else
        match (← metadata).kind p.type with
        | .object | .genericParam _ => loadIndirect arg
        | _ => convert arg p.type
    return input :: (← hostInputs rest)

def discardAll : List VarRef → Lower Unit
  | [] => return
  | v :: rest => do
    discardVar v
    discardAll rest

def construct (signature : String) (inputs : List VarRef) (t : TypeRef) (receiver : Option VarRef) :
    Lower Unit := do
  match receiver with
  | none => invokeResult signature inputs t
  | some r =>
    match (← var r).kind with
    | .address target =>
      snapshot (· == target)
      invoke signature inputs (some target)
    | .element array index =>
      let v ← invokeTemp signature inputs t
      arraySet array index v
    | _ => refuse .constructorOnValue

/-- Methods and constructors of the host.  The constructor of a host base class has nothing to
do. -/
def hostCall : Rule where
  name := "host-call"
  build i := do
    let env ← read
    let m ← i.method
    let decl := env.md.method m
    if env.md.isUser decl.declaring then refuse (.foreignCall (env.md.methodDisplay m))
    let args ← popMany decl.params.length
    let receiver ← if decl.isStatic || i.opcode == .newobj then pure none else some <$> popStack
    if decl.isCtor && receiver.any isSelf then
      discardAll args
      return true
    let self ←
      match receiver with
      | some r => if decl.isCtor then pure [] else do pure [← loadIndirect r]
      | none => pure []
    let inputs := self ++ (← hostInputs (args.zip decl.params))
    let signature := env.md.methodSignature env.options m
    if decl.isCtor then construct signature inputs decl.declaring receiver
    else if env.md.kind decl.result = .void then invoke signature inputs none
    else invokeResult signature inputs decl.result
    return true

/-- An opcode that only says how the receiver of the next call is passed. -/
def constrainedReceiver : Rule where
  name := "constrained"
  build _ := return true

def setHostField (setter : String) (receiver v : VarRef) : Lower Unit := do
  match (← var receiver).kind with
  | .address target => invoke setter [target, v] none
  | .element array index =>
    allocate array 1
    allocate index 1
    let element ← arrayGet array index
    allocate element 1
    invoke setter [element, v] none
    arraySet array index element
  | _ => invoke setter [receiver, v] none

def hostField : Rule where
  name := "host-field"
  build i := do
    let env ← read
    let f ← i.field
    let decl := env.md.field f
    if env.md.isUser decl.declaring then refuse (.fieldWithoutStorage (env.md.fieldDisplay f))
    match i.opcode with
    | .ldfld =>
      let receiver ← loadIndirect (← popStack)
      invokeResult (env.md.fieldGetter env.options f) [receiver] decl.type
    | .stfld =>
      let v ← popStack
      let receiver ← popStack
      let v ← convert v decl.type
      setHostField (env.md.fieldSetter env.options f) receiver v
    | _ => refuse (.hostFieldAddress (env.md.fieldDisplay f))
    return true

/-- Fields of types.  A compile-time value is a constant; others exist only on the host. -/
def staticField : Rule where
  name := "static-field"
  build i := do
    let env ← read
    let f ← i.field
    let decl := env.md.field f
    if i.opcode = .ldsflda then refuse (.staticFieldAddress (env.md.fieldDisplay f))
    let folded :=
      if i.opcode = .ldsfld then decl.literal.bind (env.md.literalValue? decl.type) else none
    if let some value := folded then
      pushStack (← constant value decl.type)
      return true
    if env.md.isUser decl.declaring then refuse (.staticFieldVariable (env.md.fieldDisplay f))
    if i.opcode = .stsfld then
      let v ← convert (← popStack) decl.type
      invoke (env.md.fieldSetter env.options f) [v] none
    else invokeResult (env.md.fieldGetter env.options f) [] decl.type
    return true

end FlatHeap.Rules
