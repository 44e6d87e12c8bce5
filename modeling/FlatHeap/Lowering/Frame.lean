import FlatHeap.Lowering.Draft
import FlatHeap.Lowering.Scratch

/-!
# Lowering one method

A `Frame` is the state of the lowering of one method: the draft it adds to, a cursor in the method's
code, and a model of the operand stack at compile time, whose entries are variables.  What does not
change meanwhile is in `MethodEnv`.

Branches to instructions that do nothing land on the next one that does something; a branch behind
the last such instruction lands at the end of the body.
-/

namespace FlatHeap

open Bytecode (Instruction Opcode)

-- Powers are those of the integers, whatever algebra is in scope.
attribute [local instance (high)] instPowNat

/-- What is fixed while a method is lowered. -/
structure MethodEnv extends ClassEnv where
  method : MethodRef
  /-- Its name in messages and in the source map. -/
  name : String
  /-- Number of its name in the source map. -/
  number : Nat
  code : Array Instruction
  /-- Variables of the arguments, the receiver first. -/
  args : List VarRef
  locals : List VarRef
  /-- Offsets that branches name, with the offsets where they land. -/
  landings : List (Nat × Nat)
  /-- Label of the code that returns to the caller. -/
  returnLabel : Label
  returnVar : Option VarRef

/-- State of the lowering of a method. -/
structure Frame where
  draft : Draft
  /-- Position of the next instruction. -/
  cursor : Nat
  /-- Position of the instruction being lowered. -/
  current : Option Nat := none
  /-- Cursors to come back to, the latest first. -/
  saved : List (Nat × Option Nat) := []
  /-- Model of the operand stack, the top first. -/
  stack : List VarRef := []
  scratch : Scratch := {}
  labels : List (Nat × Label) := []
  /-- Operand stacks that wait at offsets not yet reached, the top first. -/
  merges : List (Nat × List VarRef) := []
  /-- Control does not reach the next instruction from the last one. -/
  flowEnded : Bool := false
deriving DecidableEq, Repr

def endOfBody : Nat := 2 ^ (32 : Nat) - 1

def landingOffset (code : List Instruction) (target : Nat) : Nat :=
  match code.dropWhile (·.offset != target) with
  | [] => target
  | rest => ((rest.find? (·.opcode != .nop)).map (·.offset)).getD endOfBody

namespace MethodEnv

def landing (env : MethodEnv) (target : Nat) : Nat := (env.landings.lookup target).getD target

def isTarget (env : MethodEnv) (offset : Nat) : Bool := env.landings.any (·.2 == offset)

def decl (env : MethodEnv) : MethodDecl := env.md.method env.method

/-- First position from `i` on with an instruction that does something. -/
def nextLive? (env : MethodEnv) (i : Nat) : Option Nat :=
  ((env.code.toList.drop i).findIdx? (·.opcode != .nop)).map (i + ·)

end MethodEnv

/-- Variables of the parameters and the result of a method; without either, the method needs no
name. -/
def Draft.parameterVars (env : ClassEnv) (d : Draft) (m : MethodRef) :
    Except CompileError (List VarRef × Option VarRef × Draft) := do
  let decl := env.md.method m
  if decl.params.isEmpty && env.md.kind decl.result == .void then return ([], none, d)
  let symbol ← env.naming.lookup env.md (.method m)
  let (params, d) := (decl.params.zip symbol.params).foldl
    (fun (acc, d) (p, name) =>
      let (v, d) := d.named name p.type .parameter
      (acc ++ [v], d)) ([], d)
  match symbol.result with
  | none => return (params, none, d)
  | some name =>
    let (v, d) := d.named name decl.result .returnValue
    return (params, some v, d)

def Frame.enter (env : ClassEnv) (d : Draft) (m : MethodRef) (code : Array Instruction)
    (start : Nat) : Except CompileError (MethodEnv × Frame) := do
  let decl := env.md.method m
  let name := env.md.methodDisplay m
  let (number, d) := d.methodNumber name
  let (params, returnVar, d) ← d.parameterVars env m
  let (locals, d) := ((decl.body.map (·.locals)).getD []).foldl
    (fun (acc, d) t =>
      let (v, d) := d.addVar { type := t, kind := .localSlot }
      (acc ++ [v], d)) ([], d)
  let live := code.toList.drop start
  let (returnLabel, d) := d.newLabel
  let menv : MethodEnv :=
    { env with
      method := m, name, number, code, locals, returnLabel, returnVar
      args := (if decl.isStatic then [] else [Draft.self]) ++ params
      landings := (live.flatMap (·.targets)).map fun t => (t, landingOffset live t) }
  return (menv, { draft := d, cursor := start })

/-! ## The lowering monad -/

/-- Steps of a lowering.  A step that fails keeps what it changed before. -/
abbrev Lower := ReaderT MethodEnv (EStateM CompileError Frame)

namespace Lower

def refuse {α : Type} (l : Limitation) : Lower α := throw (.unsupported l)

def breach {α : Type} (b : Breach) : Lower α := throw (.invariant b)

def locating {α : Type} (offset : Option Nat) (step : Lower α) : Lower α := fun env s =>
  match step env s with
  | .ok a s => .ok a s
  | .error e s => .error (e.locate env.name offset) s

def draft {α : Type} (change : Draft → α × Draft) : Lower α :=
  modifyGet fun s => let (a, d) := change s.draft; (a, { s with draft := d })

def tryDraft {α : Type} (change : Draft → Except CompileError (α × Draft)) : Lower α := do
  match change (← get).draft with
  | .ok (a, d) => modifyGet fun s => (a, { s with draft := d })
  | .error e => throw e

/-! ## Looking around -/

def metadata : Lower Metadata := return (← read).md

def var (v : VarRef) : Lower Variable := return (← get).draft.vars.get v

def typeOf (v : VarRef) : Lower TypeRef := return (← var v).type

def constant? (v : VarRef) : Lower (Option Value) := return (← var v).constant?

def ident (t : TypeRef) : Lower String := return (← read).ident t

def isSelf (v : VarRef) : Bool := v == Draft.self

def arg (n : Nat) : Lower VarRef := do
  match (← read).args[n]? with
  | some v => return v
  | none => breach (.argumentOutOfRange n)

def localSlot (n : Nat) : Lower VarRef := do
  match (← read).locals[n]? with
  | some v => return v
  | none => breach (.localOutOfRange n)

def currentOffset : Lower Nat := do
  let code := (← read).code
  return (((← get).current.bind (code[·]?)).map (·.offset)).getD 0

/-- Type of a variable as an entry of the operand stack, where narrow integers have 32 bits. -/
def stackType (v : VarRef) : Lower TypeRef := do
  let t ← typeOf v
  match (← metadata).intFormat? t with
  | some f => return if f.bits < 32 then .int32 else t
  | none => return t

/-! ## The cursor -/

def peek? : Lower (Option Nat) := return (← read).nextLive? (← get).cursor

def moveTo (i : Nat) : Lower Unit := modify ({ · with cursor := i + 1, current := some i })

def next? : Lower (Option Nat) := do
  match ← peek? with
  | some i =>
    moveTo i
    return some i
  | none =>
    let size := (← read).code.size
    modify fun s => { s with cursor := max s.cursor size }
    return none

def saveCursor : Lower Unit := modify fun s => { s with saved := (s.cursor, s.current) :: s.saved }

def restoreCursor : Lower Unit := do
  match (← get).saved with
  | [] => breach .restoreWithoutSave
  | (cursor, current) :: rest => modify ({ · with cursor, current, saved := rest })

def dropCursor : Lower Unit := do
  match (← get).saved with
  | [] => breach .dropWithoutSave
  | _ :: rest => modify ({ · with saved := rest })

/-! ## The operand stack -/

def pushStack (v : VarRef) : Lower Unit := modify fun s => { s with stack := v :: s.stack }

def popStack : Lower VarRef := do
  match (← get).stack with
  | [] => breach .stackUnderflow
  | v :: rest =>
    modify ({ · with stack := rest })
    return v

def peekStack (depth : Nat) : Lower VarRef := do
  match (← get).stack[depth]? with
  | some v => return v
  | none => breach .stackUnderflow

def popMany (n : Nat) : Lower (List VarRef) := do
  let stack := (← get).stack
  if stack.length < n then breach .stackUnderflow
  modify ({ · with stack := stack.drop n })
  return (stack.take n).reverse

/-- Replace the entry at a position counted from the bottom of the operand stack. -/
def setStack (i : Nat) (v : VarRef) : Lower Unit :=
  modify fun s => { s with stack := (s.stack.reverse.set i v).reverse }

/-! ## Variables and the scratch pool -/

def temp (t : TypeRef) : Lower VarRef := do
  let env ← read
  modifyGet fun s =>
    let offset := s.current.bind fun i => (env.code[i]?).map (·.offset)
    let (v, vars, scratch) := s.scratch.take s.draft.vars t (some ⟨env.name, offset⟩)
    (v, { s with draft := { s.draft with vars }, scratch })

def pool (op : Scratch → Variables → Except Breach (Variables × Scratch)) : Lower Unit := do
  let s ← get
  match op s.scratch s.draft.vars with
  | .ok (vars, scratch) => set { s with draft := { s.draft with vars }, scratch }
  | .error b => breach b

def allocate (v : VarRef) (n : Nat) : Lower Unit := pool fun s vs => s.allocate vs v n

def useVar (v : VarRef) : Lower Unit := pool fun s vs => s.use vs v

def reserve (v : VarRef) : Lower Unit := pool fun s vs => s.reserve vs v

def release (v : VarRef) : Lower Unit := pool fun s vs => s.release vs v

def constant (value : Value) (t : TypeRef) : Lower VarRef := draft (·.constant value t)

def textConstant (s : String) : Lower VarRef := draft (·.textConstant s)

def intConstant (t : TypeRef) (v : Int) : Lower VarRef := do
  let md ← metadata
  match md.integerValue? t v with
  | some value => constant value t
  | none => breach (.noIntegerConstants (md.typeName t))

def addressOf (target : VarRef) : Lower VarRef := do
  let type ← typeOf target
  draft (·.addVar { type, kind := .address target })

def elementAddress (array index : VarRef) (elem : TypeRef) : Lower VarRef :=
  draft (·.addVar { type := elem, kind := .element array index })

def fieldVar (f : FieldRef) : Lower VarRef := do
  let env ← read
  tryDraft (·.fieldVar env.toClassEnv f)

def discardVar (v : VarRef) : Lower Unit := do
  match (← var v).kind with
  | .address _ => return
  | .element array index =>
    useVar array
    useVar index
  | _ => useVar v

end Lower

end FlatHeap
