import FlatHeap.Metadata.Kinds

/-!
# Base classes, interfaces and assignability

Base and interface links lead from type to type and never back, so no way along them has more links
than there are types.  The definitions follow that many.
-/

namespace FlatHeap.Metadata

/-- Base classes, nearest first, over at most a number of links. -/
def ancestorsWithin (md : Metadata) : Nat → TypeRef → List TypeRef
  | 0, _ => []
  | k + 1, t =>
    match (md.type t).base with
    | none => []
    | some b => b :: md.ancestorsWithin k b

def ancestors (md : Metadata) (t : TypeRef) : List TypeRef := md.ancestorsWithin md.types.size t

/-- The interface is the target or extends it, over at most a number of links. -/
def extendsWithin (md : Metadata) (target : TypeRef) : Nat → TypeRef → Bool
  | 0, i => i == target
  | k + 1, i => i == target || (md.type i).interfaces.any (md.extendsWithin target k)

def interfaceExtends (md : Metadata) (i target : TypeRef) : Bool :=
  md.extendsWithin target md.types.size i

/-- Values of the first type are values of the second: it is the same type, the object type, a base
class, or an interface reached from the type or one of its base classes. -/
def assignable (md : Metadata) (t target : TypeRef) : Bool :=
  t == target || target == .object || (t :: md.ancestors t).any fun c =>
    c == target || (md.type c).interfaces.any (md.interfaceExtends · target)

end FlatHeap.Metadata
