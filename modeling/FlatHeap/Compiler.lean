import FlatHeap.Lowering.Layout
import FlatHeap.Rules.Standard

/-!
# Compiling classes

A class becomes a program in four steps: its fields get slots, with the values its constructor
stores at once; each exported method gets an entry point that pushes the halting address and jumps
to the method; the methods reached from there are lowered until none is left, and last what remains
of the constructor; and the draft is laid out.

What remains of the constructor runs when the start event comes, before the event's own method.  A
class without such a method gets the entry point for it.

A compiler keeps its rules between classes; a compilation leaves them as it found them.
-/

namespace FlatHeap

open Bytecode (Instruction)

/-- Fields that get slots whether or not the code refers to them: those the class declares, exported
ones it inherits, and those the constructor stores into. -/
def ClassEnv.declaredFields (env : ClassEnv) (init : Initializer) : List FieldRef :=
  let own := (env.md.type env.owner).fields.filter fun f => !(env.md.field f).isStatic
  let exported := env.naming.symbols.filterMap fun s =>
    match s.member with
    | .field f => if s.flags.exported then some f else none
    | .method _ => none
  (own ++ exported ++ init.initial.map (·.1)).eraseDups

namespace Draft

def declareFields (env : ClassEnv) (init : Initializer) (d : Draft) : Except CompileError Draft :=
  (env.declaredFields init).foldlM
    (fun d f => do return (← d.declareField env f (init.initial.lookup f)).2) d

def readBody (md : Metadata) (m : MethodRef) : Except CompileError (List Instruction) :=
  match (md.method m).body with
  | none => .error (.invariant (.noBody (md.methodDisplay m)))
  | some body =>
    (Bytecode.decode md body.code).mapError fun e =>
      (CompileError.malformed e).locate (md.methodDisplay m) none

/-- Lower code of a method from a position on, and return to the caller behind it. -/
def lowerBody (rules : Rulebook) (env : ClassEnv) (d : Draft) (m : MethodRef)
    (code : List Instruction) (start : Nat) (label : Label) : Except CompileError Draft := do
  if code.any (endOfBody ≤ ·.offset) then
    .error ((CompileError.invariant (.tooLarge "body")).locate (env.md.methodDisplay m) none)
  let d := d.emit (.mark label)
  let (menv, frame) ← (Frame.enter env d m code.toArray start).mapError
    (·.locate (env.md.methodDisplay m) none)
  match Lower.lowerAll rules menv frame with
  | .ok () frame => return (frame.draft.emit (.mark menv.returnLabel)).ret
  | .error e _ => .error e

def lowerMethod (rules : Rulebook) (env : ClassEnv) (d : Draft) (m : MethodRef) :
    Except CompileError Draft := do
  let code ← readBody env.md m
  let (label, d) := d.methodLabel m
  lowerBody rules env d m code 0 label

/-- Lower requested methods until none is left.  A method is requested at most once, so as many
steps as there are methods are enough. -/
def lowerRequested (rules : Rulebook) (env : ClassEnv) : Nat → Draft → Except CompileError Draft
  | 0, d => .ok d
  | fuel + 1, d =>
    match d.nextMethod with
    | (none, d) => .ok d
    | (some m, d) => do lowerRequested rules env fuel (← lowerMethod rules env d m)

/-- Entry point of an exported method.  The start event runs what remains of the constructor
first. -/
def addEntry (env : ClassEnv) (ctor : Option Label) (d : Draft) (name : String) (m : MethodRef) :
    Draft :=
  let d := d.emitAll [.entry name, .push halt]
  let d :=
    match ctor with
    | some l => if name = env.options.startEvent then d.call l else d
    | none => d
  let (label, d) := d.methodLabel m
  (d.emit (.jump label)).require m

/-- Entry point of the start event for a class without a method for it. -/
def addStart (env : ClassEnv) (ctor : Label) (d : Draft) : Draft :=
  ((d.emitAll [.entry env.options.startEvent, .push halt]).call ctor).ret

end Draft

/-- What remains of a constructor at run time. -/
structure Remainder where
  ctor : MethodRef
  code : List Instruction
  /-- Position where the remainder starts. -/
  start : Nat

def Initializer.remainder? (init : Initializer) : Option Remainder := do
  return ⟨← init.ctor, init.code, ← init.remainder⟩

def ClassEnv.entries (env : ClassEnv) : List (String × MethodRef) :=
  env.naming.exportedMethods.filterMap fun s =>
    (env.naming.dispatchTarget? env.md s.emitted).map (s.emitted, ·)

def ClassEnv.draft (env : ClassEnv) (rules : Rulebook) : Except CompileError Draft := do
  let init ← Initializer.ofClass env.md env.naming env.owner
  let d ← (Draft.start env.owner).declareFields env init
  let fuel := env.md.methods.size + 1
  let entries := env.entries
  match init.remainder? with
  | none =>
    let d := entries.foldl (fun d (name, m) => d.addEntry env none name m) d
    d.lowerRequested rules env fuel
  | some r =>
    let (ctor, d) := d.methodLabel r.ctor
    let d := entries.foldl (fun d (name, m) => d.addEntry env (some ctor) name m) d
    let d ← d.lowerRequested rules env fuel
    let d ← d.lowerBody rules env r.ctor r.code r.start ctor
    let d ← d.lowerRequested rules env fuel
    return if entries.any (·.1 == env.options.startEvent) then d else d.addStart env ctor

def ClassEnv.compile (env : ClassEnv) (rules : Rulebook) : Except CompileError Host.Program := do
  let d ← env.draft rules
  d.checkCalls env.md
  d.layout env

structure Compiler where
  options : Options
  rules : Rulebook

namespace Compiler

def new (options : Options) : Compiler := ⟨options, .standard⟩

def compiles (md : Metadata) (t : TypeRef) : Bool := md.isBehaviour t && md.kind t != .interfaceType

/-- Compile a class.  Rules of the class are entered for the time of the compilation. -/
def compile (c : Compiler) (md : Metadata) (t : TypeRef) :
    Except CompileError Host.Program × Compiler :=
  if !compiles md t then (.error (.unsupported (.notBehaviour (md.typeName t))), c)
  else
    match Naming.ofClass md c.options t with
    | .error e => (.error e, c)
    | .ok naming =>
      match c.rules.addClassRules md naming c.options with
      | .error e => (.error e, { c with rules := c.rules.dropClassRules })
      | .ok rules =>
        (ClassEnv.compile ⟨md, c.options, t, naming⟩ rules, ⟨c.options, rules.dropClassRules⟩)

def compileAll (c : Compiler) (md : Metadata) :
    List (TypeRef × Except CompileError Host.Program) × Compiler :=
  (md.typeRefs.filter fun t => compiles md t && md.kind t == .classType).foldl
    (fun (results, c) t => let (result, c) := c.compile md t; (results ++ [(t, result)], c)) ([], c)

end Compiler

end FlatHeap
