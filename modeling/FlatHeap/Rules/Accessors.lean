import FlatHeap.Bytecode.Decode
import FlatHeap.Rules.Slots

/-!
# Trivial accessors

A method that does nothing but return a field of its object, or store its one parameter into a
field, needs no call: the call is replaced by access to the slot of the field.  Which methods these
are depends on the class, so the rule is entered for one class only.
-/

namespace FlatHeap

open Bytecode (Instruction Opcode)

/-- What a trivial accessor does. -/
inductive Accessor where
  | getter (f : FieldRef)
  | setter (f : FieldRef)
deriving DecidableEq, Repr

namespace Accessor

def field : Accessor → FieldRef
  | getter f | setter f => f

def loads (i : Instruction) (n : Nat) : Bool :=
  (i.opcode == .ldarg0 || i.opcode == .ldarg1 || i.opcode == .ldargS || i.opcode == .ldarg)
    && i.operand == .arg n

def ofBody? (code : List Instruction) : Option Accessor :=
  match code.filter (·.opcode != .nop) with
  | [self, load, ret] =>
    match load.operand with
    | .field f =>
      if loads self 0 && load.opcode == .ldfld && ret.opcode == .ret then some (.getter f) else none
    | _ => none
  | [self, value, store, ret] =>
    match store.operand with
    | .field f =>
      if loads self 0 && loads value 1 && store.opcode == .stfld && ret.opcode == .ret then
        some (.setter f)
      else none
    | _ => none
  | _ => none

/-- Parameters and result of a method are those of an accessor. -/
def fits (md : Metadata) (m : MethodDecl) : Accessor → Bool
  | getter f => m.params.isEmpty && m.result == (md.field f).type
  | setter f =>
    match m.params with
    | [p] => !p.byRef && p.type == (md.field f).type
    | _ => false

def ofMethod? (md : Metadata) (naming : Naming) (m : MethodRef) :
    Except CompileError (Option Accessor) := do
  let decl := md.method m
  let some body := decl.body | return none
  if decl.isStatic then return none
  let code ← (Bytecode.decode md body.code).mapError fun e =>
    (CompileError.malformed e).locate (md.methodDisplay m) none
  return (ofBody? code).filter fun a => a.fits md decl && naming.contains (.field a.field)

def ofClass (md : Metadata) (naming : Naming) :
    Except CompileError (List (MethodRef × Accessor)) := do
  let found ← (naming.symbols.filterMap Symbol.method?).eraseDups.mapM fun m => do
    return (← ofMethod? md naming m).map (m, ·)
  return found.filterMap id

end Accessor

namespace Rules

open Lower

def reachesItself (i : Instruction) (m : MethodRef) : Lower Bool := do
  let env ← read
  let symbol ← ofExcept (env.naming.lookup env.md (.method m))
  return i.opcode != .callvirt || env.naming.dispatchTarget? env.md symbol.emitted == some m

def accessorShortcut (accessors : List (MethodRef × Accessor)) : Rule where
  name := "accessor-shortcut"
  build i := do
    let .method m := i.operand | return false
    let some accessor := accessors.lookup m | return false
    if !(← reachesItself i m) then return false
    match accessor with
    | .getter f =>
      if !isSelf (← peekStack 0) then return false
      let _ ← popStack
      pushStack (← fieldVar f)
    | .setter f =>
      if !isSelf (← peekStack 1) then return false
      let v ← popStack
      let _ ← popStack
      let slot ← fieldVar f
      store slot (← convert v (← typeOf slot))
    return true

end Rules

end FlatHeap
