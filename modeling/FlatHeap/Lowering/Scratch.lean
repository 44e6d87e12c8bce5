import FlatHeap.Lowering.Error
import FlatHeap.Lowering.Variable

/-!
# Scratch pool

A temporary is handed out with one pending read.  Every read uses one up; when none is left and the
temporary is not reserved, it goes back to the pool, and the next request for its type gets the one
that came back last.  A reserved temporary survives any number of reads and writes until it is
released.

Operations on variables that are not temporaries do nothing.  An operation that fails has no new
state, so the variables and the pool are as before.
-/

namespace FlatHeap

/-- Temporaries of one method. -/
structure Scratch where
  /-- Temporaries in the pool, the one that came back last first. -/
  free : List VarRef := []
  /-- All temporaries, in the order they were made. -/
  made : List VarRef := []
deriving DecidableEq, Repr

namespace Scratch

def recycle (s : Scratch) (vs : Variables) (v : VarRef) : Variables × Scratch :=
  (vs.modify v ({ · with pooled := true }), { s with free := v :: s.free })

def take (s : Scratch) (vs : Variables) (type : TypeRef) (handOut : Option HandOut) :
    VarRef × Variables × Scratch :=
  match s.free.find? fun v => (vs.get v).type == type with
  | some v =>
    (v, vs.modify v ({ · with uses := 1, reserved := false, pooled := false, handOut }),
      { s with free := s.free.erase v })
  | none =>
    let (v, vs) := vs.add { type, kind := .temporary, uses := 1, handOut }
    (v, vs, { s with made := s.made ++ [v] })

def allocate (s : Scratch) (vs : Variables) (v : VarRef) (n : Nat) :
    Except Breach (Variables × Scratch) :=
  if !(vs.get v).isTemporary then .ok (vs, s)
  else if (vs.get v).pooled then .error (.allocatePooled v)
  else .ok (vs.modify v fun x => { x with uses := x.uses + n }, s)

def use (s : Scratch) (vs : Variables) (v : VarRef) : Except Breach (Variables × Scratch) :=
  let var := vs.get v
  if !var.isTemporary then .ok (vs, s)
  else if var.pooled then .error (.readPooled v)
  else
    let vs := vs.modify v fun x => { x with uses := x.uses - 1 }
    .ok (if var.uses ≤ 1 && !var.reserved then s.recycle vs v else (vs, s))

def reserve (s : Scratch) (vs : Variables) (v : VarRef) : Except Breach (Variables × Scratch) :=
  if !(vs.get v).isTemporary then .ok (vs, s)
  else if (vs.get v).pooled then .error (.reservePooled v)
  else .ok (vs.modify v ({ · with reserved := true }), s)

def release (s : Scratch) (vs : Variables) (v : VarRef) : Except Breach (Variables × Scratch) :=
  let var := vs.get v
  if !var.isTemporary then .ok (vs, s)
  else if !var.reserved then .error (.releaseUnreserved v)
  else
    let vs := vs.modify v ({ · with reserved := false })
    .ok (if var.uses = 0 then s.recycle vs v else (vs, s))

def outstanding (s : Scratch) (vs : Variables) : List VarRef :=
  s.made.filter fun v => (vs.get v).reserved || (!(vs.get v).pooled && (vs.get v).uses > 0)

end Scratch

end FlatHeap
