import FlatHeap.Lowering.Error
import FlatHeap.Lowering.Options
import FlatHeap.Metadata.Subtype

/-!
# Names of members

The host heap is flat, so every member of a class and of everything it inherits needs a name of its
own. A `Naming` lists the members in a fixed order, base classes from the root down, then
interfaces, then the class itself, and gives each its name:

* a *unique* member keeps its name, and a second claim to that name is an error;
* a member of a *family* (virtual, declared by an interface, or marked) takes over the name,
  parameter slots and result slot of the latest earlier member of the same shape, so that callers
  who only know the earlier one reach the later one;
* any other member keeps its name if it is the first to want it and is numbered otherwise.

Exported methods that stand for events are unique under the name of the event.
-/

namespace FlatHeap

inductive Member where
  | field (f : FieldRef)
  | method (m : MethodRef)
deriving DecidableEq, Repr, Inhabited

def Member.display (md : Metadata) : Member → String
  | field f => md.fieldDisplay f
  | method m => md.methodDisplay m

/-- A member with its names on the host. -/
structure Symbol where
  member : Member
  declaring : TypeRef
  name : String
  emitted : String
  /-- Its flags, with what it inherits from its family. -/
  flags : MemberFlags
  /-- Names of the parameter slots of a method. -/
  params : List String := []
  /-- Name of the result slot of a method that has a result. -/
  result : Option String := none
  /-- Position of the first member of the family, for later members. -/
  overrides : Option Nat := none
deriving DecidableEq, Repr, Inhabited

def Symbol.method? (s : Symbol) : Option MethodRef :=
  match s.member with
  | .method m => some m
  | .field _ => none

/-- Names of all members of a class. -/
structure Naming where
  owner : TypeRef
  symbols : List Symbol := []
  /-- How often each name has been asked for by ordinary members, numbers skipped included. -/
  asked : List (String × Nat) := []
deriving DecidableEq, Repr

namespace Naming

def taken (n : Naming) (name : String) : Bool := n.symbols.any (·.emitted == name)

def byEmitted? (n : Naming) (name : String) : Option Symbol :=
  n.symbols.find? (·.emitted == name)

def find? (n : Naming) (member : Member) : Option Symbol :=
  n.symbols.reverse.find? (·.member == member)

def contains (n : Naming) (member : Member) : Bool := n.symbols.any (·.member == member)

def lookup (n : Naming) (md : Metadata) (member : Member) : Except CompileError Symbol :=
  match n.find? member with
  | some s => .ok s
  | none =>
    .error (.unsupported (.notRepresentable (member.display md) (md.typeName n.owner)))

def dispatchTarget? (n : Naming) (md : Metadata) (emitted : String) : Option MethodRef :=
  (n.symbols.reverse.filterMap fun s => if s.emitted == emitted then s.method? else none).find?
    fun m => (md.method m).body.isSome

def firsts (n : Naming) : List Symbol :=
  n.symbols.foldl (fun acc s => if acc.any (·.emitted == s.emitted) then acc else acc ++ [s]) []

/-- One symbol for every host name under which a method is exported. -/
def exportedMethods (n : Naming) : List Symbol :=
  n.firsts.filter fun s =>
    s.method?.isSome && n.symbols.any fun o => o.emitted == s.emitted && o.flags.exported

/-! ## Construction -/

/-- A name with a number in front; number zero is the bare name. -/
def numbered (name : String) : Nat → String
  | 0 => name
  | k + 1 => s!"__{k + 1}_" ++ name

/-- First free numbering of a name from `k` on, among as many as there are members and one more. -/
def firstFree (n : Naming) (name : String) (k : Nat) : Nat :=
  ((List.range (n.symbols.length + 1)).find? fun i => !n.taken (numbered name (k + i))).getD 0 + k

def claim (n : Naming) (md : Metadata) (member : Member) (name : String) (unique : Bool) :
    Except CompileError (String × Naming) :=
  if unique then
    match n.byEmitted? name with
    | some other =>
      .error { cause := .namingConflict name (other.member.display md) (member.display md) }
    | none => .ok (name, n)
  else
    let k := n.firstFree name ((n.asked.lookup name).getD 0)
    .ok (numbered name k, { n with asked := (name, k + 1) :: n.asked })

def push (n : Naming) (s : Symbol) : Naming := { n with symbols := n.symbols ++ [s] }

/-- Two methods have the same name, staticness and parameter types. -/
def sameShape (a b : MethodDecl) : Bool :=
  a.name == b.name && a.isStatic == b.isStatic
    && a.params.map (fun p => (p.type, p.byRef)) == b.params.map (fun p => (p.type, p.byRef))

/-- Latest member of the same shape as a method, with its position. -/
def latestOfShape? (n : Naming) (md : Metadata) (decl : MethodDecl) : Option (Nat × Symbol) :=
  n.symbols.zipIdx.reverse.findSome? fun (s, i) => do
    let m ← s.method?
    if sameShape (md.method m) decl then some (i, s) else none

def addField (md : Metadata) (t : TypeRef) (n : Naming) (f : FieldRef) :
    Except CompileError Naming := do
  let decl := md.field f
  if decl.isStatic then return n
  let (emitted, n) ← n.claim md (.field f) decl.name decl.flags.unique
  return n.push
    { member := .field f, declaring := t, name := decl.name, emitted, flags := decl.flags }

/-- Symbol of a method that joins the family of an earlier one at position `i`. -/
def familySymbol (t : TypeRef) (m : MethodRef) (decl : MethodDecl) (i : Nat) (base : Symbol) :
    Symbol where
  member := .method m
  declaring := t
  name := decl.name
  emitted := base.emitted
  flags :=
    { decl.flags with exported := decl.flags.exported || base.flags.exported, family := true }
  params := base.params
  result := base.result
  overrides := some (base.overrides.getD i)

/-- Enter a method; constructors and type initialisers have no name.  A method joins the family of
an earlier one of its shape if either is open to it. -/
def addMethod (md : Metadata) (o : Options) (t : TypeRef) (n : Naming) (m : MethodRef) :
    Except CompileError Naming := do
  let decl := md.method m
  if decl.isCtor || decl.isTypeInitializer then return n
  let family := decl.flags.family || decl.isVirtual || md.kind t == .interfaceType
  let prior := (n.latestOfShape? md decl).filter fun (_, s) =>
    family || md.kind s.declaring == .interfaceType
  match prior with
  | some (i, base) => return n.push (familySymbol t m decl i base)
  | none =>
    let event := if decl.flags.exported then o.eventName? decl.name else none
    let (emitted, n) ←
      n.claim md (.method m) (event.getD decl.name) (decl.flags.unique || event.isSome)
    return n.push
      { member := .method m, declaring := t, name := decl.name, emitted
        flags := { decl.flags with family := decl.flags.family || family }
        params := decl.params.map fun p => "__" ++ emitted ++ "_" ++ p.name
        result := if md.kind decl.result = .void then none else some ("__" ++ emitted ++ "__ret") }

def addType (md : Metadata) (o : Options) (n : Naming) (t : TypeRef) :
    Except CompileError Naming := do
  let n ← (md.type t).fields.foldlM (addField md t) n
  (md.type t).methods.foldlM (addMethod md o t) n

/-- Add the interfaces of the compiled program that a type reaches over at most a number of links, each
after those it extends. -/
def collectWithin (md : Metadata) : Nat → TypeRef → List TypeRef → List TypeRef
  | 0, _, acc => acc
  | k + 1, t, acc =>
    (md.type t).interfaces.foldl
      (fun acc i =>
        if !md.isUser i || acc.contains i then acc else collectWithin md k i acc ++ [i])
      acc

/-- Add the interfaces of the compiled program that a type reaches, each after those it extends. -/
def collectInterfaces (md : Metadata) (t : TypeRef) (acc : List TypeRef) : List TypeRef :=
  collectWithin md md.types.size t acc

def chain (md : Metadata) (t : TypeRef) : List TypeRef :=
  let classes := ((md.ancestors t).filter md.isUser).reverse
  let interfaces := (classes ++ [t]).foldl (fun acc c => collectInterfaces md c acc) []
  classes ++ interfaces ++ [t]

def ofClass (md : Metadata) (o : Options) (t : TypeRef) : Except CompileError Naming :=
  (chain md t).foldlM (addType md o) { owner := t }

end Naming

end FlatHeap
