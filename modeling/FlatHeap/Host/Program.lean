import FlatHeap.Host.Instruction
import FlatHeap.Host.SourceMap
import FlatHeap.Value

/-!
# Host programs

A program is a flat heap of named, typed slots with initial values, a list of instructions, and the
addresses at which events enter the code.  The address of an instruction is the total size of those
before it.
-/

namespace FlatHeap

-- The empty sum is the literal zero, whatever algebra is in scope.
attribute [local instance (high)] Zero.ofOfNat0

/-- How a slot is replicated to other participants. -/
inductive SyncMode where
  | none
  | linear
  | smooth
deriving DecidableEq, Repr, Inhabited

namespace Host

structure HeapSlot where
  /-- Name, by which events and other programs reach the slot. -/
  name : String
  hostType : String
  value : Value
  /-- Whether other programs may reach the slot. -/
  exported : Bool
  sync : SyncMode
deriving DecidableEq, Repr

/-- A named address at which an event enters the code. -/
structure EntryPoint where
  name : String
  address : Nat
deriving DecidableEq, Repr

structure Program where
  heap : List HeapSlot
  /-- Instructions, in address order. -/
  code : List Instruction
  entryPoints : List EntryPoint
  /-- Sources of the code, when kept. -/
  sourceMap : Option SourceMap
deriving DecidableEq, Repr

def haltAddress : UInt32 := 0xFFFFFFFC

namespace Program

def slotIndex? (p : Program) (name : String) : Option Nat :=
  p.heap.findIdx? (·.name == name)

def entry? (p : Program) (name : String) : Option Nat :=
  (p.entryPoints.find? (·.name == name)).map (·.address)

/-- Instructions with their addresses, from a given address on. -/
def addressesFrom (address : Nat) : List Instruction → List (Nat × Instruction)
  | [] => []
  | i :: rest => (address, i) :: addressesFrom (address + i.size) rest

def addresses (p : Program) : List (Nat × Instruction) := addressesFrom 0 p.code

def codeSize (p : Program) : Nat := (p.code.map Instruction.size).sum

def encode (p : Program) : List UInt8 := Host.encode p.code

/-- Signature an operand names: the contents of its slot, if they are a text. -/
def signature? (p : Program) (slot : UInt32) : Option String :=
  (p.heap[slot.toNat]?).bind fun s =>
    match s.value with
    | .text signature => some signature
    | _ => none

/-- Signatures of the host operations the code calls, in code order. -/
def invoked (p : Program) : List String :=
  p.code.filterMap fun i => if i.opcode = .invoke then i.operand.bind p.signature? else none

end Program

end Host

end FlatHeap
