import FlatHeap.Lowering.Storage

/-!
# Branches and joins

Where control can arrive from several places, the operand stack has to be the same whichever way it
came. The first branch to an offset therefore makes *merge slots*, one for each entry of the operand
stack, and every edge into the offset moves its own entries into them.  On arrival the merge slots
become the operand stack.  The running program itself needs no slot and is carried as itself.

Merge slots exist only for offsets not yet reached, so a branch back must not carry values.
-/

namespace FlatHeap.Lower

def labelFor (offset : Nat) : Lower Label := do
  match (← get).labels.lookup offset with
  | some l => return l
  | none =>
    let l ← newLabel
    modify fun s => { s with labels := (offset, l) :: s.labels }
    return l

/-- Reserved slots for operand stack entries, the deepest first. -/
def newMergeSlots : List VarRef → Lower (List VarRef)
  | [] => return []
  | v :: rest => do
    let m ← if isSelf v then pure v else do
      let m ← temp (← stackType v)
      reserve m
      pure m
    return m :: (← newMergeSlots rest)

/-- Merge slots of an offset, the deepest first.  Their number and types are those of the operand
stack that first reaches the offset. -/
def mergeSlots (target : Nat) : Lower (List VarRef) := do
  let stack := (← get).stack
  match (← get).merges.lookup target with
  | some slots =>
    if slots.length ≠ stack.length then breach (.depthMismatch stack.length slots.length target)
    return slots.reverse
  | none =>
    let slots ← newMergeSlots stack.reverse
    modify fun s => { s with merges := (target, slots.reverse) :: s.merges }
    return slots

/-- Move operand stack entries into merge slots.  After a conditional branch the entries are needed
again. -/
def moveInto (target : Nat) (conditional : Bool) : List (VarRef × VarRef) → Lower Unit
  | [] => return
  | (v, slot) :: rest => do
    if isSelf v || isSelf slot then
      if v ≠ slot then refuse (.selfMeetsOther target)
    else
      if conditional then allocate v 1
      copy (← convert v (← typeOf slot)) slot
    moveInto target conditional rest

def flowInto (target : Nat) (conditional : Bool) : Lower Unit := do
  let slots ← mergeSlots target
  moveInto target conditional ((← get).stack.reverse.zip slots)
  if !conditional then modify ({ · with stack := [] })

def branchTo (target : Nat) (conditional : Bool) : Lower Label := do
  let target := (← read).landing target
  let label ← labelFor target
  let depth := (← get).stack.length
  if depth = 0 then return label
  if target ≤ (← currentOffset) then refuse (.backwardBranch target depth)
  flowInto target conditional
  return label

def releaseAll : List VarRef → Lower Unit
  | [] => return
  | v :: rest => do
    release v
    releaseAll rest

/-- Place the label of an offset and take up the operand stack that waits there. -/
def arrive (offset : Nat) : Lower Unit := do
  let label ← labelFor offset
  if !(← get).flowEnded && !(← get).stack.isEmpty then flowInto offset false
  mark label
  if let some slots := (← get).merges.lookup offset then
    modify fun s => { s with merges := s.merges.filter (·.1 != offset) }
    releaseAll slots.reverse
    modify ({ · with stack := slots })

def beginInstruction (offset : Nat) : Lower Unit := do
  let env ← read
  let s ← get
  if s.flowEnded && !s.stack.isEmpty then breach (.leftAfterTransfer s.stack.length)
  if env.isTarget offset then arrive offset
  modify ({ · with flowEnded := false })
  if env.options.sourceMap then markSource offset

def jumpTo (target : Nat) : Lower Unit := do jump (← branchTo target false)

def finish : Lower Unit := do
  let s ← get
  if !s.stack.isEmpty then breach (.leftAtExit s.stack.length)
  if !s.saved.isEmpty then breach (.savedCursors s.saved.length)
  if let v :: _ := s.scratch.outstanding s.draft.vars then
    let var := s.draft.vars.get v
    breach (.leak v var.reserved var.handOut)

end FlatHeap.Lower
