import FlatHeap.Bytecode.Error
import FlatHeap.Lowering.Ref

/-!
# Why a class cannot be compiled

Errors are causes; their wording is given once, by the `message` functions.  Two large families are
kept apart: a `Limitation` is something the host machine cannot express, a `Breach` is an
inconsistency in the lowering itself.  An error is located on its way out: each enclosing level
fills in the method and the offset unless an inner level already did.
-/

namespace FlatHeap

/-- A construct the host machine cannot express. -/
inductive Limitation where
  | other (text : String)
  /-- Only classes of the compiled program become programs. -/
  | notBehaviour (type : String)
  /-- The member has neither storage nor code in the compiled class. -/
  | notRepresentable (member owner : String)
  /-- The class cannot be set up without constructor arguments. -/
  | noPlainConstructor (type ctor : String)
  /-- Only field initialisers of a base class are run. -/
  | baseConstructorWorks (ctor : String)
  /-- The rest of a constructor jumps back into initialisers that were folded away. -/
  | reentersInitializers (target : Nat)
  /-- Parameter slots are shared, so a method must not call itself through others. -/
  | callCycle (methods : List String)
  /-- Parameter slots are shared, so a method must not call itself. -/
  | recursiveCall (method : String)
  | noConversion (source target : String)
  | noHostConversion (target : String)
  | arithmetic (a b : String)
  | shift (type : String)
  | unary (mnemonic type : String)
  | orderedReferences
  | exceptions
  | foreignCall (method : String)
  | byRefSource
  | constructorOnValue
  | constructorChaining (ctor : String)
  | noImplementation (method : String)
  | constructedBehaviour (ctor : String)
  | remoteStatic (method : String)
  | remoteByRef (method : String)
  | fieldWithoutStorage (field : String)
  | hostFieldAddress (field : String)
  | staticFieldAddress (field : String)
  | staticFieldVariable (field : String)
  | typeTest (type : String)
  | noArrayType (elem : String)
  | notArray (type : String)
  | storeThroughValue
  | userValueType (type : String)
  | nullableMember (method : String)
  | assignmentToSelf
  | selfMeetsOther (offset : Nat)
  | backwardBranch (offset depth : Nat)
deriving DecidableEq, Repr

def Limitation.message : Limitation → String
  | other text => text
  | notBehaviour type => type ++ " is not a behaviour class"
  | notRepresentable member owner => member ++ " is not representable in " ++ owner
  | noPlainConstructor type ctor => type ++ " has no parameterless constructor (" ++ ctor ++ ")"
  | baseConstructorWorks ctor => "base constructor " ++ ctor ++ " does more than initialise fields"
  | reentersInitializers target =>
    "branch to " ++ Text.offset target ++ " re-enters folded field initialisers"
  | callCycle methods => "recursive call cycle: " ++ " -> ".intercalate methods
  | recursiveCall method => "recursive call to " ++ method
  | noConversion source target => "no conversion from " ++ source ++ " to " ++ target
  | noHostConversion target => "no host conversion to " ++ target
  | arithmetic a b => "arithmetic on " ++ a ++ " and " ++ b
  | shift type => "shift of " ++ type
  | unary mnemonic type => "`" ++ mnemonic ++ "` on " ++ type
  | orderedReferences => "ordered comparison of references"
  | exceptions => "exceptions cannot be raised on the host machine"
  | foreignCall method => "call to " ++ method
  | byRefSource => "by-ref argument that is not a local or field"
  | constructorOnValue => "constructor call on a value"
  | constructorChaining ctor =>
    "constructor chaining into " ++ ctor ++ " outside the leading field initialisers"
  | noImplementation method => method ++ " has no implementation"
  | constructedBehaviour ctor => "compiled behaviours cannot be constructed (" ++ ctor ++ ")"
  | remoteStatic method => "static method " ++ method ++ " of another behaviour"
  | remoteByRef method => "by-ref parameters across behaviours (" ++ method ++ ")"
  | fieldWithoutStorage field => "field " ++ field ++ " has no storage"
  | hostFieldAddress field => "address of host field " ++ field
  | staticFieldAddress field => "address of static field " ++ field
  | staticFieldVariable field => "static field " ++ field ++ " is not a compile-time constant"
  | typeTest type => "type test against " ++ type
  | noArrayType elem => "no array type of " ++ elem
  | notArray type => type ++ " is not an array"
  | storeThroughValue => "store through a value that is not an address"
  | userValueType type => "user value type " ++ type
  | nullableMember method => method ++ " on a nullable value"
  | assignmentToSelf => "assignment to `this`"
  | selfMeetsOther offset => "`this` meets another value at " ++ Text.offset offset
  | backwardBranch offset depth =>
    "backward branch to " ++ Text.offset offset ++ s!" with {depth} value(s) on the stack"

/-- An inconsistency in the lowering. -/
inductive Breach where
  | other (text : String)
  | noBody (method : String)
  | argumentOutOfRange (n : Nat)
  | localOutOfRange (n : Nat)
  /-- The cursor was restored more often than saved. -/
  | restoreWithoutSave
  /-- A saved cursor was dropped more often than saved. -/
  | dropWithoutSave
  | stackUnderflow
  | noIntegerConstants (type : String)
  | addressAsValue (v : VarRef)
  | pooledReference (v : VarRef) (handOut : Option HandOut)
  | writeToConstant (v : VarRef)
  | allocatePooled (v : VarRef)
  | readPooled (v : VarRef)
  | reservePooled (v : VarRef)
  | releaseUnreserved (v : VarRef)
  | depthMismatch (depth expected offset : Nat)
  | leftAfterTransfer (depth : Nat)
  | leftAtReturn (depth : Nat)
  | leftAtExit (depth : Nat)
  | savedCursors (count : Nat)
  | leak (v : VarRef) (reserved : Bool) (handOut : Option HandOut)
  | labelPlacedTwice (l : Label)
  | duplicateSlot (name : String)
  | noHeapSlot (v : VarRef)
  /-- The operand does not have the shape the opcode prescribes. -/
  | operandMissing (mnemonic what : String)
  /-- Rules kept moving the cursor back. -/
  | noProgress
  /-- Offsets or addresses have 32 bits. -/
  | tooLarge (what : String)
deriving DecidableEq, Repr

def Breach.message : Breach → String
  | other text => text
  | noBody method => method ++ " has no body"
  | argumentOutOfRange n => s!"argument {n} out of range"
  | localOutOfRange n => s!"local {n} out of range"
  | restoreWithoutSave => "pop_state without a saved state"
  | dropWithoutSave => "drop_state without a saved state"
  | stackUnderflow => "operand stack underflow"
  | noIntegerConstants type => type ++ " has no integer constants"
  | addressAsValue v => "address " ++ v.text ++ " used as a value"
  | pooledReference v handOut =>
    "pooled temporary " ++ v.text ++ " referenced"
      ++ (handOut.map fun h => " (handed out in " ++ h.text ++ ")").getD ""
  | writeToConstant v => "write to constant " ++ v.text
  | allocatePooled v => "allocate on pooled temporary " ++ v.text
  | readPooled v => "read of pooled temporary " ++ v.text
  | reservePooled v => "reserve of pooled temporary " ++ v.text
  | releaseUnreserved v => "release of unreserved temporary " ++ v.text
  | depthMismatch depth expected offset =>
    s!"stack depth {depth} does not match {expected} at " ++ Text.offset offset
  | leftAfterTransfer depth =>
    s!"{depth} value(s) left on the stack after an unconditional transfer"
  | leftAtReturn depth => s!"{depth} value(s) left on the stack at `ret`"
  | leftAtExit depth => s!"operand stack holds {depth} value(s) at method exit"
  | savedCursors count => s!"{count} cursor state(s) still saved"
  | leak v reserved handOut =>
    "temporary " ++ v.text ++ (if reserved then " still reserved" else " has pending uses")
      ++ (handOut.map fun h => ", handed out in " ++ h.text).getD ""
  | labelPlacedTwice l => "label " ++ l.text ++ " placed twice"
  | duplicateSlot name => "heap slot `" ++ name ++ "` declared twice"
  | noHeapSlot v => v.text ++ " has no heap slot"
  | operandMissing mnemonic what => "`" ++ mnemonic ++ "` without " ++ what
  | noProgress => "lowering makes no progress"
  | tooLarge what => what ++ " does not fit 32 bits"

structure Location where
  method : Option String := none
  offset : Option Nat := none
deriving DecidableEq, Repr

def Location.text (l : Location) : String :=
  (l.method.map fun m => " in " ++ m).getD ""
    ++ (l.offset.map fun o => " at " ++ Text.offset o).getD ""

/-- What went wrong. -/
inductive Cause where
  /-- The host machine cannot express a construct. -/
  | unsupported (limitation : Limitation)
  /-- Two members that must keep their names have the same one. -/
  | namingConflict (name first second : String)
  | invariant (breach : Breach)
  /-- No rule lowers the instruction. -/
  | unclaimed (mnemonic operand : String)
  /-- The body of a method cannot be decoded. -/
  | malformed (error : Bytecode.BodyError)
  /-- A label is jumped to and never placed. -/
  | unresolvedLabel (label : Nat)
deriving DecidableEq, Repr

structure CompileError where
  cause : Cause
  location : Location := {}
deriving DecidableEq, Repr

namespace CompileError

def unsupported (l : Limitation) : CompileError := { cause := .unsupported l }

def invariant (b : Breach) : CompileError := { cause := .invariant b }

/-- A body cannot be decoded; the offset is known from the start. -/
def malformed (e : Bytecode.BodyError) : CompileError :=
  { cause := .malformed e, location := { offset := e.offset? } }

/-- Fill in what is not yet known of the location.  A naming conflict is not located. -/
def locate (e : CompileError) (method : String) (offset : Option Nat) : CompileError :=
  match e.cause with
  | .namingConflict .. => e
  | _ => { e with location := ⟨e.location.method <|> some method, e.location.offset <|> offset⟩ }

def message (e : CompileError) : String :=
  let place := e.location.text
  match e.cause with
  | .unsupported l => "unsupported: " ++ l.message ++ place
  | .namingConflict name first second =>
    "naming conflict: `" ++ name ++ "` declared by both " ++ first ++ " and " ++ second
  | .invariant b => "internal invariant violated: " ++ b.message ++ place
  | .unclaimed mnemonic operand =>
    "no builder claimed `" ++ mnemonic ++ (if operand.isEmpty then "" else " " ++ operand) ++ "`"
      ++ place
  | .malformed error => "malformed method body" ++ place ++ ": " ++ error.message
  | .unresolvedLabel label => s!"label L{label} is never placed" ++ place

end CompileError

end FlatHeap
