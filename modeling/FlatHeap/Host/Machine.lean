import FlatHeap.Host.Operation
import FlatHeap.Host.Program

/-!
# The host machine

The machine runs a program's code over its heap.  Its stack holds heap indices, never values, so an
operation finds its arguments and its result slot through the stack.  A copy is refused when the
value does not belong into a slot of the destination's type.

Each step is a state transformer that keeps, when it faults, whatever it had already changed: heap
and stack outlive a fault and are seen by the next run.  A run is bounded by `stepLimit`, and
halting, a fault and running out of steps are told apart.
-/

namespace FlatHeap.Host

/-- Why a run stops without halting. -/
inductive Fault where
  /-- The program has no such entry point. -/
  | noEntry (name : String)
  /-- The code has no instruction at this address. -/
  | noInstruction (pc : UInt32)
  /-- The machine halted before everything was popped. -/
  | leftover (count : Nat)
  | underflow
  /-- A copy into a slot of another type. -/
  | misfit (value : Value) (hostType name : String) (pc : UInt32)
  /-- A conditional jump on something that is no truth value. -/
  | notBoolean (value : Value) (pc : UInt32)
  /-- An indirect jump through something that is no address. -/
  | notAddress (value : Value) (pc : UInt32)
  /-- A call through something that is no signature. -/
  | notSignature (value : Value)
  /-- A signature that cannot be read. -/
  | malformedSignature (signature : String)
  | operation (signature : String) (error : OperationError)
  | outOfSteps (limit : Nat)
  /-- An instruction names a slot the heap does not have. -/
  | noSlot (index : UInt32)
deriving DecidableEq, Repr

def pcText (pc : UInt32) : String := "0x" ++ Text.hex 8 pc.toNat

def Fault.message : Fault → String
  | noEntry name => "no entry point `" ++ name ++ "`"
  | noInstruction pc => "no instruction at " ++ pcText pc
  | leftover count => s!"halted with {count} value(s) on the stack"
  | underflow => "stack underflow"
  | misfit value hostType name pc =>
    "COPY of " ++ value.describe ++ " into " ++ hostType ++ " slot `" ++ name ++ "` at "
      ++ pcText pc
  | notBoolean value pc => "JUMP_IF_FALSE on " ++ value.describe ++ " at " ++ pcText pc
  | notAddress value pc => "JUMP_INDIRECT through " ++ value.describe ++ " at " ++ pcText pc
  | notSignature value => "EXTERN through " ++ value.describe
  | malformedSignature signature => "malformed signature " ++ signature
  | operation signature error => signature ++ ": " ++ error.message
  | outOfSteps limit => s!"no halt after {limit} steps"
  | noSlot index => s!"no heap slot {index.toNat}"

def stepLimit : Nat := 100000

/-! ## Loaded programs -/

/-- A program prepared for running. -/
structure Image where
  program : Program
  slots : Array HeapSlot
  /-- For every word of code, the instruction that starts there. -/
  words : Array (Option Instruction)

def Instruction.words (i : Instruction) : List (Option Instruction) :=
  if i.opcode.hasOperand then [some i, none] else [some i]

namespace Image

def ofProgram (p : Program) : Image :=
  ⟨p, p.heap.toArray, (p.code.flatMap Instruction.words).toArray⟩

def fetch? (image : Image) (pc : UInt32) : Option Instruction :=
  if pc % 4 = 0 then (image.words[pc.toNat / 4]?).join else none

end Image

/-! ## State -/

structure Machine where
  heap : Array Value
  /-- Heap indices, top first. -/
  stack : List UInt32 := []
  /-- Signatures of completed calls, latest first. -/
  calls : List String := []
deriving Inhabited

abbrev Run := EStateM Fault Machine

namespace Machine

def ofImage (image : Image) : Machine := { heap := image.slots.map (·.value) }

def pop : Run UInt32 := do
  match (← get).stack with
  | [] => throw .underflow
  | top :: rest =>
    modify fun m => { m with stack := rest }
    return top

def push (index : UInt32) : Run Unit :=
  modify fun m => { m with stack := index :: m.stack }

def read (index : UInt32) : Run Value := do
  match (← get).heap[index.toNat]? with
  | some v => return v
  | none => throw (.noSlot index)

/-- Pop a number of heap indices and read their slots, top first. -/
def popValues : Nat → Run (List Value)
  | 0 => return []
  | n + 1 => do
    let value ← read (← pop)
    return value :: (← popValues n)

def write (index : UInt32) (v : Value) : Run Unit := do
  if index.toNat < (← get).heap.size then
    modify fun m => { m with heap := m.heap.setIfInBounds index.toNat v }
  else throw (.noSlot index)

/-! ## Values and slots -/

/-- Host type of a value, unless it is a reference that fits every reference type. -/
def hostTypeOf? : Value → Option String
  | .null | .self => none
  | .bool _ => some "SystemBoolean"
  | .int k _ => some k.hostType
  | .single _ => some "SystemSingle"
  | .double _ => some "SystemDouble"
  | .text _ => some "SystemString"
  | .type _ => some "SystemType"
  | .address _ => some "SystemUInt32"

/-- Host types whose slots never hold a null or instance reference. -/
def valueTypes : List String :=
  "SystemBoolean" :: "SystemSingle" :: "SystemDouble" :: IntKind.all.map IntKind.hostType

/-- Whether a value may be copied into a slot: of its own type, of the object type, or a reference
into a slot of any reference type. -/
def fits (v : Value) (hostType : String) : Bool :=
  match hostTypeOf? v with
  | some type => type == hostType || hostType == "SystemObject"
  | none => !valueTypes.contains hostType

/-! ## Steps -/

/-- Copy the slot below the top of the stack into the slot at the top. -/
def copy (image : Image) (pc : UInt32) : Run Unit := do
  let target ← pop
  let source ← pop
  match image.slots[target.toNat]? with
  | none => throw (.noSlot target)
  | some slot =>
    let v ← read source
    if fits v slot.hostType then write target v
    else throw (.misfit v slot.hostType slot.name pc)

def invoke (slot : UInt32) : Run Unit := do
  match ← read slot with
  | .text signature =>
    match Signature.parse? signature with
    | none => throw (.malformedSignature signature)
    | some call =>
      let target ← if call.result = "SystemVoid" then pure none else some <$> pop
      let args ← popValues call.arity
      match evaluate call.member args.reverse call.result with
      | .error e => throw (.operation signature e)
      | .ok v =>
        if let some index := target then write index v
        modify fun m => { m with calls := signature :: m.calls }
  | other => throw (.notSignature other)

/-- Execute one instruction and return the address of the next. -/
def execute (image : Image) (pc : UInt32) (i : Instruction) : Run UInt32 := do
  let next := pc + i.size.toUInt32
  let operand := i.operand.getD 0
  match i.opcode with
  | .nop | .remark => return next
  | .push => push operand; return next
  | .pop => discard pop; return next
  | .copy => copy image pc; return next
  | .jump => return operand
  | .jumpIfFalse =>
    match ← read (← pop) with
    | .bool b => return if b then next else operand
    | other => throw (.notBoolean other pc)
  | .jumpIndirect =>
    match ← read operand with
    | .address a => return a
    | .int .uint32 a => return UInt32.ofBitVec a
    | other => throw (.notAddress other pc)
  | .invoke => invoke operand; return next

/-- Run from an address until the machine halts, for at most the given number of steps. -/
def runFrom (image : Image) : Nat → UInt32 → Run Unit
  | 0, _ => throw (.outOfSteps stepLimit)
  | fuel + 1, pc => do
    if pc = haltAddress then
      let left := (← get).stack.length
      if left = 0 then return () else throw (.leftover left)
    else
      match image.fetch? pc with
      | none => throw (.noInstruction pc)
      | some i => runFrom image fuel (← execute image pc i)

def run (image : Image) (entry : String) : Run Unit := do
  match image.program.entry? entry with
  | none => throw (.noEntry entry)
  | some address => runFrom image stepLimit address.toUInt32

end Machine

end FlatHeap.Host
