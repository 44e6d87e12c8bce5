import FlatHeap.Lowering.Flow

/-!
# Rules

A rule lowers instructions.  It may also decline one, and then must not have changed anything.  A
rulebook offers an instruction to the rules entered for its opcode, those of higher priority first
and among equals those entered earlier, until one claims it.

Rules are entered for all compilations or only for the class being compiled; the latter are removed
afterwards.
-/

namespace FlatHeap

open Bytecode (Instruction Opcode)

-- Powers are those of the integers, whatever algebra is in scope.
attribute [local instance (high)] instPowNat

/-- A way to lower instructions. -/
structure Rule where
  name : String
  /-- Lower an instruction, or decline it by `false`. -/
  build : Instruction → Lower Bool

/-- How long a rule stays. -/
inductive Scope where
  | permanent
  | oneClass
deriving DecidableEq, Repr

/-- A rule as it was entered. -/
structure RuleEntry where
  /-- Opcodes the rule is for; an opcode listed twice is offered twice. -/
  opcodes : List Opcode
  /-- Higher ones come first. -/
  priority : Int
  scope : Scope
  rule : Rule

/-- Rules in the order they are asked. -/
structure Rulebook where
  /-- Entries by falling priority, and among equals in the order they were made. -/
  entries : List RuleEntry := []

namespace Rulebook

/-- Enter a rule behind all rules of the same or a higher priority. -/
def insertEntry (e : RuleEntry) : List RuleEntry → List RuleEntry
  | [] => [e]
  | x :: rest => if e.priority ≤ x.priority then x :: insertEntry e rest else e :: x :: rest

def register (b : Rulebook) (opcodes : List Opcode) (priority : Int) (scope : Scope) (rule : Rule) :
    Rulebook :=
  ⟨insertEntry ⟨opcodes, priority, scope, rule⟩ b.entries⟩

def dropClassRules (b : Rulebook) : Rulebook := ⟨b.entries.filter (·.scope == .permanent)⟩

def rulesFor (b : Rulebook) (op : Opcode) : List Rule :=
  b.entries.flatMap fun e => List.replicate (e.opcodes.count op) e.rule

end Rulebook

namespace Lower

def offer (i : Instruction) : List Rule → Lower Unit
  | [] => do
    throw { cause := .unclaimed i.opcode.mnemonic (i.operand.render (← metadata)) }
  | r :: rest => do
    if !(← r.build i) then offer i rest

def dispatch (rules : Rulebook) (i : Instruction) : Lower Unit := offer i (rules.rulesFor i.opcode)

def lowerInstruction (rules : Rulebook) (index : Nat) (i : Instruction) : Lower Unit := do
  locating (some i.offset) (beginInstruction i.offset)
  locating (some i.offset) (dispatch rules i)
  let code := (← read).code
  let last := ((← get).current.getD index)
  modify ({ · with flowEnded := ((code[last]?).map (·.opcode.endsFlow)).getD false })

/-- Lower instructions from the cursor on, at most as many as the fuel allows. -/
def lowerFrom (rules : Rulebook) : Nat → Lower Unit
  | 0 => breach .noProgress
  | fuel + 1 => do
    let some index ← next? | return
    let some i := (← read).code[index]? | return
    lowerInstruction rules index i
    lowerFrom rules fuel

/-- How often rules may move the cursor back while a method is lowered. -/
def rewinds : Nat := 2 ^ (16 : Nat)

def lowerAll (rules : Rulebook) : Lower Unit := do
  let env ← read
  lowerFrom rules (env.code.size + rewinds + 1)
  if env.isTarget endOfBody then locating none (arrive endOfBody)
  locating none finish

end Lower

end FlatHeap
