import FlatHeap.Rules.Operand

/-!
# Boxes, casts, arrays and addresses

The host holds every value boxed, so boxing and unboxing are conversions, and a cast needs a check
only where its outcome can be seen.
-/

namespace FlatHeap.Rules

open Lower

def typeConstant (t : TypeRef) : Lower VarRef := do
  let decl := (← metadata).type t
  constant (.type (decl.hostName.getD decl.name)) .systemType

/-- Leave a reference on the operand stack if it is of a type, and null otherwise. -/
def testInstance (v : VarRef) (t : TypeRef) : Lower Unit := do
  let md ← metadata
  if md.assignable (← typeOf v) t then pushStack v
  else
    if md.isUser t then refuse (.typeTest (md.typeName t))
    let type ← typeConstant t
    let null ← constant .null .object
    let out ← temp t
    allocate v 1
    copy null out
    let matching ← invokeTemp
      (Host.Signature.render "SystemType" "IsInstanceOfType" ["SystemObject"] "SystemBoolean")
      [type, v] .boolean
    let skip ← newLabel
    jumpIfFalse matching skip
    copy v out
    mark skip
    pushStack out

def casts : Rule where
  name := "cast"
  build i := do
    let t ← i.type
    let v ← popStack
    if i.opcode = .isinst then testInstance v t else pushStack (← convert v t)
    return true

def arrays : Rule where
  name := "array"
  build i := do
    let md ← metadata
    if i.opcode = .ldlen then
      let array ← popStack
      let owner ← ident (← typeOf array)
      invokeResult (Host.Signature.render owner "get_Length" [] "SystemInt32") [array] .int32
      return true
    let elem ← i.type
    let some t := md.findArray? elem | refuse (.noArrayType (md.typeName elem))
    let length ← convert (← popStack) .int32
    let type ← ident t
    invokeResult (Host.Signature.render type "ctor" ["SystemInt32"] type) [length] t
    return true

def popElement : Lower (VarRef × VarRef) := do
  let index ← popStack
  let array ← popStack
  let index ← convert index .int32
  return (array, index)

def loadElement : Rule where
  name := "ldelem"
  build _ := do
    let (array, index) ← popElement
    let (signature, elem) ← arrayGetter array
    invokeResult signature [array, index] elem
    return true

def storeElement : Rule where
  name := "stelem"
  build _ := do
    let v ← popStack
    let (array, index) ← popElement
    arraySet array index v
    return true

def loadElementAddress : Rule where
  name := "ldelema"
  build i := do
    let elem ← i.type
    let (array, index) ← popElement
    pushStack (← elementAddress array index elem)
    return true

def loadThrough : Rule where
  name := "ldind"
  build _ := do
    pushStack (← loadIndirect (← popStack))
    return true

def storeThrough : Rule where
  name := "stind"
  build _ := do
    let v ← popStack
    let address ← popStack
    storeIndirect address v
    return true

def freshValue (t : TypeRef) : Lower VarRef := do
  let md ← metadata
  if md.kind t = .structType then
    if md.isUser t then refuse (.userValueType (md.typeName t))
    let type ← typeConstant t
    invokeTemp
      (Host.Signature.render "SystemActivator" "CreateInstance" ["SystemType"] "SystemObject")
      [type] t
  else constant (md.defaultValue t) t

def resetThrough : Rule where
  name := "initobj"
  build i := do
    let t ← i.type
    let address ← popStack
    if !(← var address).isAddress then i.operandMissing "an address"
    storeIndirect address (← freshValue t)
    return true

end FlatHeap.Rules
