import FlatHeap.Text.Hex

/-!
# Source maps

A source map sends a code address back to the method and offset it was compiled from.  Points may be
added in any order; sorting them by address keeps the order of points that share one.  A lookup
bisects: it answers with the last point at or below the address, provided the points are sorted.
-/

namespace FlatHeap.Host

structure SourcePoint where
  address : Nat
  /-- Index of the method among the map's method names. -/
  method : Nat
  offset : Nat
deriving DecidableEq, Repr

/-- Method names and points. -/
structure SourceMap where
  /-- Names of the methods points refer to. -/
  methods : List String := []
  /-- Points, in the order added until sorted. -/
  points : List SourcePoint := []
deriving DecidableEq, Repr

namespace SourceMap

/-- Index of a name in a list of names, appending it when it is new. -/
def intern (names : List String) (name : String) : Nat × List String :=
  match names.idxOf? name with
  | some i => (i, names)
  | none => (names.length, names ++ [name])

def methodIndex (m : SourceMap) (name : String) : Nat × SourceMap :=
  let (i, methods) := intern m.methods name
  (i, { m with methods })

def add (m : SourceMap) (p : SourcePoint) : SourceMap :=
  { m with points := m.points ++ [p] }

/-- Sort the points by address; points with equal addresses keep their order. -/
def sort (m : SourceMap) : SourceMap :=
  { m with points := m.points.mergeSort fun p q => p.address ≤ q.address }

/-- Narrow `base, …, base + size - 1` by halves to one index, keeping the upper half whenever `p`
holds at its first index. -/
def bisect (p : Nat → Bool) (base size : Nat) : Nat :=
  if size ≤ 1 then base
  else
    let half := size / 2
    bisect p (if p (base + half) then base + half else base) (size - half)
termination_by size
decreasing_by omega

/-- Number of leading points at or below `address`, by bisection. -/
def countUpTo (points : List SourcePoint) (address : Nat) : Nat :=
  let below i := (points[i]?).any (·.address ≤ address)
  if points.isEmpty then 0
  else
    let i := bisect below 0 points.length
    if below i then i + 1 else i

/-- Method name and offset of the last point at or below the address. -/
def lookup? (m : SourceMap) (address : Nat) : Option (String × Nat) := do
  let i ← pred? (countUpTo m.points address)
  let point ← m.points[i]?
  let method ← m.methods[point.method]?
  return (method, point.offset)
where
  /-- Predecessor of a positive number. -/
  pred? : Nat → Option Nat
    | 0 => none
    | n + 1 => some n

def describe (source : String × Nat) : String := source.1 ++ "+" ++ Text.offset source.2

end SourceMap

end FlatHeap.Host
