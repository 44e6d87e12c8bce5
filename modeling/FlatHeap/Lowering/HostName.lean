import FlatHeap.Host.Signature
import FlatHeap.Lowering.Options
import FlatHeap.Metadata.Kinds

/-!
# Names on the host

How types and members of the metadata are named in host signatures.  Classes of the compiled program
all have one host type, an enumeration of the compiled program is its integer type, and an optional
value is an object.
-/

namespace FlatHeap

/-- Characters of a type's name that its host identifier leaves out. -/
def identifierGaps : List Char := ".+<>, `".toList

def TypeDecl.plainIdent (t : TypeDecl) : String :=
  String.ofList ((t.hostName.getD t.name).toList.filter (!identifierGaps.contains ·))

namespace Metadata

/-- Host identifier of a type, where compiled classes are `behaviour`. -/
def hostIdent (md : Metadata) (behaviour : String) (t : TypeRef) : String :=
  let decl := md.type t
  match decl.kind with
  | .enum u =>
    if decl.isHost then decl.plainIdent
    else if _h : u.index < t.index then md.hostIdent behaviour u else decl.plainIdent
  | .classType | .interfaceType => if decl.isHost then decl.plainIdent else behaviour
  | .nullable _ => "SystemObject"
  | .array e => (if _h : e.index < t.index then md.hostIdent behaviour e else "") ++ "Array"
  | .byRef e => (if _h : e.index < t.index then md.hostIdent behaviour e else "") ++ "Ref"
  | .genericParam i => s!"T{i}"
  | _ => decl.plainIdent
termination_by t.index

def paramIdent (md : Metadata) (behaviour : String) (p : ParamDecl) : String :=
  md.hostIdent behaviour p.type ++ if p.byRef then "Ref" else ""

def methodSignature (md : Metadata) (o : Options) (m : MethodRef) : String :=
  let decl := md.method m
  let owner := md.hostIdent o.behaviourType decl.declaring
  let params := decl.params.map (md.paramIdent o.behaviourType)
  if decl.isCtor then Host.Signature.render owner "ctor" params owner
  else Host.Signature.render owner decl.name params (md.hostIdent o.behaviourType decl.result)

def fieldGetter (md : Metadata) (o : Options) (f : FieldRef) : String :=
  let decl := md.field f
  Host.Signature.render (md.hostIdent o.behaviourType decl.declaring) ("get_" ++ decl.name) []
    (md.hostIdent o.behaviourType decl.type)

def fieldSetter (md : Metadata) (o : Options) (f : FieldRef) : String :=
  let decl := md.field f
  Host.Signature.render (md.hostIdent o.behaviourType decl.declaring) ("set_" ++ decl.name)
    [md.hostIdent o.behaviourType decl.type] "SystemVoid"

def conversionName? (md : Metadata) (t : TypeRef) : Option String :=
  match md.kind t with
  | .boolean => some "Boolean"
  | .int k => some k.valueName
  | .single => some "Single"
  | .double => some "Double"
  | .string => some "String"
  | _ => none

end Metadata

end FlatHeap
