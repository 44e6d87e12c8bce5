import FlatHeap.Bytecode.Decode
import FlatHeap.Lowering.Constant
import FlatHeap.Lowering.Naming

/-!
# Initial values from constructors

A host program is never constructed: its heap starts from declared values.  The leading part of a
class's plain constructor that only stores constants into fields, and calls the plain constructor of
the base class, is therefore executed at compile time.  What follows it, the *remainder*, is left to
run at the start event.

The leading part is read in one pass that never follows a jump, so a jump of the remainder back into
it is an error.
-/

namespace FlatHeap

open Bytecode (Instruction Opcode)

/-- What the constructor of a class leaves behind at compile time. -/
structure Initializer where
  /-- The constructor, if there is one. -/
  ctor : Option MethodRef := none
  /-- Its instructions, if it has a body. -/
  code : List Instruction := []
  /-- Values stored into fields; a field stands where it was first stored. -/
  initial : List (FieldRef × Value) := []
  /-- Position of the first instruction that still has to run. -/
  remainder : Option Nat := none
deriving DecidableEq, Repr

namespace Initializer

def record (initial : List (FieldRef × Value)) (f : FieldRef) (v : Value) :
    List (FieldRef × Value) :=
  if initial.any (·.1 == f) then initial.map fun e => if e.1 == f then (f, v) else e
  else initial ++ [(f, v)]

/-- The constructor without parameters; a class that only has others cannot be set up. -/
def plainCtor (md : Metadata) (t : TypeRef) : Except CompileError (Option MethodRef) :=
  let ctors := (md.type t).methods.filter fun m => (md.method m).isCtor && !(md.method m).isStatic
  match ctors.find? (fun m => (md.method m).params.isEmpty), ctors with
  | some m, _ => .ok (some m)
  | none, [] => .ok none
  | none, m :: _ => .error (.unsupported (.noPlainConstructor (md.typeName t) (md.methodDisplay m)))

def loadsSelf (i : Instruction) : Bool := i.opcode == .ldarg0

/-- One statement that can be executed at compile time. -/
inductive Statement where
  /-- Store of a constant into a field. -/
  | store (f : FieldRef) (v : Value)
  /-- Call of the plain constructor of the base class, by the instruction at an offset. -/
  | chain (ctor : MethodRef) (offset : Nat)

def store? (md : Metadata) (naming : Naming) (value store : Instruction) : Option Statement := do
  let .field f := store.operand | none
  guard (naming.contains (.field f))
  let (v, source) ← value.loadedConstant?
  let v ← md.foldConversion? v source (md.field f).type
  return .store f v

def chain? (md : Metadata) (base : Option TypeRef) (call : Instruction) : Option Statement := do
  let .method m := call.operand | none
  let decl := md.method m
  guard (decl.isCtor && decl.params.isEmpty && base == some decl.declaring)
  return .chain m call.offset

/-- The statement a list of instructions starts with, and the number of its instructions. -/
def statement? (md : Metadata) (naming : Naming) (base : Option TypeRef) :
    List Instruction → Option (Statement × Nat)
  | this :: second :: rest =>
    if !loadsSelf this then none
    else
      match rest with
      | third :: _ =>
        if third.opcode = .stfld then (store? md naming second third).map (·, 3)
        else if second.opcode = .call then (chain? md base second).map (·, 2) else none
      | [] => if second.opcode = .call then (chain? md base second).map (·, 2) else none
  | _ => none

def leading (md : Metadata) (naming : Naming) (base : Option TypeRef) (code : List Instruction) :
    List Statement × List Instruction :=
  match statement? md naming base code with
  | none => ([], code)
  | some (s, n) =>
    if _h : (code.drop n).length < code.length then
      let (ss, rest) := leading md naming base (code.drop n)
      (s :: ss, rest)
    else ([], code)
termination_by code.length
decreasing_by exact _h

/-- Where the remainder starts, given the live instructions after the leading part.  A lone return
needs no remainder. -/
def remainderOffset? : List Instruction → Option Nat
  | [] => none
  | [i] => if i.opcode = .ret then none else some i.offset
  | i :: _ => some i.offset

def checkRemainder (name : String) (start : Nat) (rest : List Instruction) :
    Except CompileError Unit :=
  match rest.find? fun i => i.targets.any (· < start) with
  | none => .ok ()
  | some i =>
    .error ((CompileError.unsupported (.reentersInitializers (i.targets.min?.getD 0))).locate name
      (some i.offset))

/-- Execute the constructor of a class at compile time as far as possible. -/
def ofClass (md : Metadata) (naming : Naming) (t : TypeRef) : Except CompileError Initializer := do
  let some ctor ← plainCtor md t | return {}
  let some body := (md.method ctor).body | return { ctor := some ctor }
  let name := md.methodDisplay ctor
  let code ← (Bytecode.decode md body.code).mapError fun e =>
    (CompileError.malformed e).locate name none
  let live := code.filter (·.opcode != .nop)
  let (statements, rest) := leading md naming (md.type t).base live
  let initial ← statements.foldlM
    (fun initial s =>
      match s with
      | .store f v => .ok (record initial f v)
      | .chain m offset =>
        let declaring := (md.method m).declaring
        if !md.isUser declaring then .ok initial
        else if _h : (md.ancestors declaring).length < (md.ancestors t).length then do
          let inherited ← ofClass md naming declaring
          if inherited.remainder.isSome then
            let cause := Limitation.baseConstructorWorks (md.methodDisplay m)
            .error ((CompileError.unsupported cause).locate name (some offset))
          else .ok (inherited.initial.foldl (fun acc e => record acc e.1 e.2) initial)
        else .ok initial)
    []
  match remainderOffset? rest with
  | none => return { ctor := some ctor, code, initial }
  | some start =>
    let cut := code.findIdx (·.offset == start)
    checkRemainder name start (code.drop cut)
    return { ctor := some ctor, code, initial, remainder := some cut }
termination_by (md.ancestors t).length

end Initializer

end FlatHeap
