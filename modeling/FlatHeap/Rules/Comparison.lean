import FlatHeap.Lowering.Promotion
import FlatHeap.Rules.Operand

/-!
# Comparisons

Comparisons that leave a truth value, and comparisons that branch.  References have no order, but a
comparison as unsigned with null is how a program asks for a reference that is there.

The host only jumps on false, so a comparison that branches calls the operator that is true exactly
when the branch is not taken.
-/

namespace FlatHeap.Rules

open Lower
open Bytecode (Opcode)

/-- A relation between two operands. -/
inductive Relation where
  | eq
  | ne
  | ge
  | gt
  | le
  | lt
deriving DecidableEq, Repr

namespace Relation

def holds : Relation → Ordering → Bool
  | eq, o => o.isEq
  | ne, o => o.isNe
  | ge, o => o.isGE
  | gt, o => o.isGT
  | le, o => o.isLE
  | lt, o => o.isLT

def operator : Relation → String
  | eq => "op_Equality"
  | ne => "op_Inequality"
  | ge => "op_GreaterThanOrEqual"
  | gt => "op_GreaterThan"
  | le => "op_LessThanOrEqual"
  | lt => "op_LessThan"

def negate : Relation → Relation
  | eq => ne
  | ne => eq
  | ge => lt
  | gt => le
  | le => gt
  | lt => ge

def onReferences? : Relation → Bool → Option Relation
  | eq, _ => some eq
  | ne, _ => some ne
  | gt, true => some ne
  | _, _ => none

/-- Relation of a comparing opcode, and whether it takes its operands as unsigned. -/
def ofComparison : Opcode → Relation × Bool
  | .ceq => (eq, false)
  | .cgt => (gt, false)
  | .cgtUn => (gt, true)
  | .cltUn => (lt, true)
  | _ => (lt, false)

/-- Relation of a branching opcode, and whether it takes its operands as unsigned. -/
def ofBranch : Opcode → Relation × Bool
  | .beq | .beqS => (eq, false)
  | .bneUn | .bneUnS => (ne, true)
  | .bge | .bgeS => (ge, false)
  | .bgeUn | .bgeUnS => (ge, true)
  | .bgt | .bgtS => (gt, false)
  | .bgtUn | .bgtUnS => (gt, true)
  | .ble | .bleS => (le, false)
  | .bleUn | .bleUnS => (le, true)
  | .blt | .bltS => (lt, false)
  | _ => (lt, true)

end Relation

def relationOn (t : TypeRef) (r : Relation) (unsigned : Bool) : Lower Relation :=
  if t ≠ .object then return r
  else
    match r.onReferences? unsigned with
    | some r => return r
    | none => refuse .orderedReferences

/-- Operands of a comparison in the type they are compared in; references are taken as they are. -/
def comparedOperands (left right : VarRef) (t : TypeRef) : Lower (VarRef × VarRef) := do
  if t = .object then return (left, right)
  let left ← convert left t
  let right ← convert right t
  return (left, right)

def constantOrder? (left right : VarRef) : Lower (Option Ordering) := do
  let x ← constant? left
  let y ← constant? right
  return do Metadata.compareConstants? (← x) (← y)

def peekTwo? : Lower (Option (Nat × Nat)) := do
  let env ← read
  let cursor := (← get).cursor
  return do
    let i ← env.nextLive? cursor
    let j ← env.nextLive? (i + 1)
    return (i, j)

def loadsZero (i : Bytecode.Instruction) : Bool :=
  (i.opcode == .ldcI40 || i.opcode == .ldcI4S || i.opcode == .ldcI4) && i.operand == .int32 0

/-- Take a following comparison with zero, which negates the result. -/
def takeNegation : Lower Bool := do
  let env ← read
  let some (i, j) ← peekTwo? | return false
  let some zero := env.code[i]? | return false
  let some equal := env.code[j]? | return false
  if loadsZero zero && equal.opcode == .ceq && !env.isTarget zero.offset
      && !env.isTarget equal.offset then
    moveTo j
    return true
  else return false

def comparison : Rule where
  name := "compare"
  build i := do
    let md ← metadata
    let right ← popStack
    let left ← popStack
    let leftType ← typeOf left
    let rightType ← typeOf right
    let (relation, unsigned) := Relation.ofComparison i.opcode
    if i.opcode = .ceq ∧ leftType = .boolean ∧ (← constant? right).bind (·.integer?) = some 0 then
      invokeResult (Host.Signature.render "SystemBoolean" "op_UnaryNegation" ["SystemBoolean"]
        "SystemBoolean") [left] .boolean
      return true
    let t ← ofExcept (md.compareType leftType rightType unsigned)
    let relation ← relationOn t relation unsigned
    let negated ← if i.opcode = .ceq then takeNegation else pure false
    let relation := if negated then relation.negate else relation
    let (left, right) ← comparedOperands left right t
    match ← constantOrder? left right with
    | some order => pushStack (← constant (.bool (relation.holds order)) .boolean)
    | none =>
      invokeResult (Host.Signature.binary (← ident t) relation.operator "SystemBoolean")
        [left, right] .boolean
    return true

def comparingBranch : Rule where
  name := "compare-branch"
  build i := do
    let md ← metadata
    let target ← i.target
    let (relation, unsigned) := Relation.ofBranch i.opcode
    let right ← popStack
    let left ← popStack
    let t ← ofExcept (md.compareType (← typeOf left) (← typeOf right) unsigned)
    let relation ← relationOn t relation unsigned
    let (left, right) ← comparedOperands left right t
    match ← constantOrder? left right with
    | some order => if relation.holds order then jumpTo target
    | none =>
      let signature := Host.Signature.binary (← ident t) relation.negate.operator "SystemBoolean"
      let notTaken ← invokeTemp signature [left, right] .boolean
      let label ← branchTo target true
      jumpIfFalse notTaken label
    return true

end FlatHeap.Rules
