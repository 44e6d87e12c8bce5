import FlatHeap.Lowering.Ref

/-!
# Recorded operations

The code of a draft, before variables have slots and labels have addresses.  Each operation becomes
one host instruction, apart from marks, which only say something about the next one.  Sizes are
known before anything is resolved.
-/

namespace FlatHeap

inductive Op where
  | push (v : VarRef)
  | pop
  /-- Copy, destination on top of the source. -/
  | copy
  /-- Host operation named by a constant. -/
  | invoke (v : VarRef)
  | jump (l : Label)
  | jumpIfFalse (l : Label)
  | jumpIndirect (v : VarRef)
  /-- Text for readers of the program. -/
  | remark (v : VarRef)
  | nop
  /-- The next instruction is where the label is. -/
  | mark (l : Label)
  /-- The next instruction comes from an offset of a method. -/
  | source (method offset : Nat)
  /-- The next instruction is an entry point. -/
  | entry (name : String)
deriving DecidableEq, Repr

namespace Op

def size : Op → Nat
  | pop | copy | nop => 4
  | push _ | invoke _ | jump _ | jumpIfFalse _ | jumpIndirect _ | remark _ => 8
  | mark _ | source _ _ | entry _ => 0

def var? : Op → Option VarRef
  | push v | invoke v | jumpIndirect v | remark v => some v
  | _ => none

end Op

end FlatHeap
