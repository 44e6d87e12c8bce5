import FlatHeap.Rules.Operand

/-!
# Jumps, tests, tables and returns
-/

namespace FlatHeap.Rules

open Lower

def jumping : Rule where
  name := "br"
  build i := do
    jumpTo (← i.target)
    return true

def testing : Rule where
  name := "brtrue"
  build i := do
    let target ← i.target
    let onTrue := i.opcode == .brtrue || i.opcode == .brtrueS
    let condition ← convert (← popStack) .boolean
    match ← constant? condition with
    | some value => if value.integer?.any (· != 0) == onTrue then jumpTo target
    | none =>
      if onTrue then
        let skip ← newLabel
        jumpIfFalse condition skip
        jump (← branchTo target true)
        mark skip
      else
        let label ← branchTo target true
        jumpIfFalse condition label
    return true

def testCases (selector : VarRef) : List (Nat × Nat) → Lower Unit
  | [] => return
  | (target, k) :: rest => do
    let k ← intConstant .int32 k
    let differs ← invokeTemp
      (Host.Signature.binary "SystemInt32" "op_Inequality" "SystemBoolean") [selector, k] .boolean
    let label ← branchTo target true
    jumpIfFalse differs label
    testCases selector rest

def jumpTable : Rule where
  name := "switch"
  build i := do
    let .switch targets := i.operand | i.operandMissing "a target table"
    let selector ← convert (← popStack) .int32
    match (← constant? selector).bind (·.integer?) with
    | some k => if let some target := k.toNat?.bind (targets[·]?) then jumpTo target
    | none =>
      if targets.isEmpty then useVar selector
      else
        allocate selector (targets.length - 1)
        testCases selector targets.zipIdx
    return true

/-- Returns.  The code that returns to the caller follows the last instruction directly. -/
def returning : Rule where
  name := "ret"
  build _ := do
    let env ← read
    if let some result := env.returnVar then
      let v ← convert (← popStack) (← typeOf result)
      copy v result
    let depth := (← get).stack.length
    if depth ≠ 0 then breach (.leftAtReturn depth)
    if (← peek?).isSome then jump env.returnLabel
    return true

def throwing : Rule where
  name := "throw"
  build _ := refuse .exceptions

end FlatHeap.Rules
