import FlatHeap.Host.Program

/-!
# Program listings

A listing declares the heap, then shows the code with an address in front of every instruction.  An
operand is shown by what it refers to where that is known: the name of a slot, or the signature a
called operation has.
-/

namespace FlatHeap.Host

def HeapSlot.listing (s : HeapSlot) : List String :=
  (if s.exported then ["    .export " ++ s.name] else [])
    ++ (match s.sync with
      | .none => []
      | .linear => ["    .sync " ++ s.name ++ ", linear"]
      | .smooth => ["    .sync " ++ s.name ++ ", smooth"])
    ++ ["    " ++ s.name ++ ": %" ++ s.hostType ++ ", " ++ s.value.render]

namespace Program

def operandText (p : Program) (op : Opcode) (operand : UInt32) : String :=
  let bare := Text.address operand.toNat
  match op with
  | .push | .jumpIndirect => ((p.heap[operand.toNat]?).map (·.name)).getD bare
  | .invoke => ((p.signature? operand).map fun s => "\"" ++ s ++ "\"").getD bare
  | _ => bare

/-- Lines of one instruction: the entry points at its address, then the instruction. -/
def instructionListing (p : Program) (address : Nat) (i : Instruction) : List String :=
  ((p.entryPoints.filter (·.address == address)).flatMap fun e =>
      ["    .export " ++ e.name, "    " ++ e.name ++ ":"])
    ++ ["        /* " ++ Text.hexUpper 8 address ++ " */ " ++ i.opcode.name
      ++ match i.operand with
        | some operand => ", " ++ p.operandText i.opcode operand
        | none => ""]

def listingLines (p : Program) : List String :=
  [".data_start"] ++ p.heap.flatMap HeapSlot.listing ++ [".data_end", ".code_start"]
    ++ (p.addresses.flatMap fun (address, i) => p.instructionListing address i) ++ [".code_end"]

def listing (p : Program) : String := String.join (p.listingLines.map (· ++ "\n"))

end Program

end FlatHeap.Host
