/-!
# Signatures of host operations

A host operation is called by a text that spells its owner, member, parameters and result:
`Owner.__member__Param1_Param2__Result`, where the parameter group is left out when there are no
parameters.  The machine reads back the member, the number of parameters and the result.
-/

namespace FlatHeap.Host.Signature

def render (owner member : String) (params : List String) (result : String) : String :=
  let group := if params.isEmpty then "" else "__" ++ "_".intercalate params
  owner ++ ".__" ++ member ++ group ++ "__" ++ result

def binary (type op result : String) : String := render type op [type, type] result

/-- What the machine reads from a signature. -/
structure Call where
  member : String
  arity : Nat
  result : String
deriving DecidableEq, Repr

/-! ## Reading -/

def afterOwner? : List Char → Option (List Char)
  | '.' :: '_' :: '_' :: rest => some rest
  | _ :: rest => afterOwner? rest
  | [] => none

def consPiece (c : Char) : List (List Char) → List (List Char)
  | [] => [[c]]
  | piece :: pieces => (c :: piece) :: pieces

def pieces : List Char → List (List Char)
  | [] => [[]]
  | '_' :: '_' :: rest => [] :: pieces rest
  | c :: rest => consPiece c (pieces rest)

/-- Number of parameters in a group: one more than it has underscores. -/
def groupSize (group : List Char) : Nat := group.count '_' + 1

def parse? (signature : String) : Option Call := do
  match pieces (← afterOwner? signature.toList) with
  | [member, result] => some ⟨String.ofList member, 0, String.ofList result⟩
  | [member, group, result] =>
    some ⟨String.ofList member, groupSize group, String.ofList result⟩
  | _ => none

end FlatHeap.Host.Signature
