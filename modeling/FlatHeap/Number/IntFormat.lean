/-!
# Two's-complement integer formats

An integer format is a width and a choice of signedness.  Both sides of the compiler speak about
integers through it: the host stores each integer in a slot of one format and refuses values outside
its range, while the source machine wraps silently.  So the two notions that matter are `wrap`, the
member of the format's range congruent to a given integer, and `fitsIn`, which says when no value of
one format can leave the range of another and a checked host conversion is therefore safe.

`wrap` works on `Int`, never on machine words, so that the same definition serves constants folded
at compile time and statements about values computed at run time.
-/

namespace FlatHeap

-- Powers are those of the integers, whatever algebra is in scope.
attribute [local instance (high)] instPowNat

/-- Width and signedness of an integer. -/
structure IntFormat where
  bits : Nat
  /-- Whether the top bit counts negatively. -/
  signed : Bool
deriving DecidableEq, Repr, Inhabited

namespace IntFormat

def least (f : IntFormat) : Int :=
  if f.signed then -2 ^ (f.bits - 1) else 0

def greatest (f : IntFormat) : Int :=
  if f.signed then 2 ^ (f.bits - 1) - 1 else 2 ^ f.bits - 1

def Holds (f : IntFormat) (v : Int) : Prop :=
  f.least ≤ v ∧ v ≤ f.greatest

instance (f : IntFormat) (v : Int) : Decidable (f.Holds v) :=
  inferInstanceAs (Decidable (_ ∧ _))

/-- The value of the format that agrees with `v` modulo `2 ^ bits`: keep the low bits, and read a
set top bit negatively when the format is signed. -/
def wrap (f : IntFormat) (v : Int) : Int :=
  let low := v % 2 ^ f.bits
  if f.signed ∧ 2 ^ (f.bits - 1) ≤ low then low - 2 ^ f.bits else low

def fitsIn (f g : IntFormat) : Bool :=
  match f.signed, g.signed with
  | false, false | true, true => f.bits ≤ g.bits
  | false, true => f.bits < g.bits
  | true, false => false

/-- Read `v` as a value of `f`, then reinterpret its bits in `g`. -/
def reinterpret (f g : IntFormat) (v : Int) : Int :=
  g.wrap (f.wrap v)

/-- The format at least 32 bits wide that a narrow integer has on the operand stack. -/
def promote (f : IntFormat) : IntFormat :=
  ⟨max f.bits 32, f.signed⟩

theorem wrap_emod (f : IntFormat) (v : Int) : f.wrap v % 2 ^ f.bits = v % 2 ^ f.bits := by
  simp only [wrap]
  split <;> simp

@[simp] theorem promote_signed (f : IntFormat) : f.promote.signed = f.signed := rfl

end IntFormat

end FlatHeap
