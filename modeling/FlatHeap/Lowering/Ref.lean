import FlatHeap.Text.Hex

/-!
# References used while a program is drafted

Variables and labels of a draft are numbered in the order they are made.
-/

namespace FlatHeap

structure VarRef where
  /-- Position among the draft's variables. -/
  index : Nat
deriving DecidableEq, Repr, Inhabited

def VarRef.text (v : VarRef) : String := s!"v{v.index}"

structure Label where
  /-- Position among the draft's labels. -/
  index : Nat
deriving DecidableEq, Repr, Inhabited

def Label.text (l : Label) : String := s!"L{l.index}"

/-- Where a temporary was handed out. -/
structure HandOut where
  method : String
  /-- Offset of the instruction being lowered, once there is one. -/
  offset : Option Nat
deriving DecidableEq, Repr

def HandOut.text (h : HandOut) : String :=
  match h.offset with
  | some offset => h.method ++ " at " ++ Text.offset offset
  | none => h.method

end FlatHeap
