import FlatHeap.Rules.Operand

/-!
# Optional values

An optional value is an object slot on the host that holds the boxed value or null.
-/

namespace FlatHeap.Rules

open Lower

/-- Construct an optional value from the top of the operand stack. -/
def wrapOptional (i : Bytecode.Instruction) (optional inner : TypeRef) : Lower Unit := do
  let v ← convert (← popStack) inner
  if i.opcode = .newobj then
    let d ← destination optional
    copy v d.var
    complete d
  else storeIndirect (← popStack) v

/-- The optional value on the operand stack, or the one its address refers to. -/
def popOptional : Lower VarRef := do loadIndirect (← popStack)

def valueOr (fallback : VarRef) (inner : TypeRef) : Lower Unit := do
  let v ← popOptional
  allocate v 1
  let out ← temp inner
  copy fallback out
  let present ← nonNull v
  let skip ← newLabel
  jumpIfFalse present skip
  copy v out
  mark skip
  pushStack out

def optionals : Rule where
  name := "nullable"
  build i := do
    let md ← metadata
    let m ← i.method
    let decl := md.method m
    let some inner := md.nullableInner? decl.declaring | return false
    if decl.isCtor then
      wrapOptional i decl.declaring inner
      return true
    match decl.name, decl.params.length with
    | "get_HasValue", 0 =>
      let v ← popOptional
      let null ← constant .null .object
      invokeResult (Host.Signature.binary "SystemObject" "op_Inequality" "SystemBoolean")
        [v, null] .boolean
    | "get_Value", 0 =>
      let v ← popOptional
      let d ← destination inner
      copy v d.var
      complete d
    | "GetValueOrDefault", 0 => valueOr (← constant (md.defaultValue inner) inner) inner
    | "GetValueOrDefault", 1 => valueOr (← convert (← popStack) inner) inner
    | _, _ => refuse (.nullableMember (md.methodDisplay m))
    return true

end FlatHeap.Rules
