/-!
# Binary floating-point numbers

Floating-point values are bit patterns.  A `FloatFormat` fixes how many bits hold the exponent and
the significand; a `Binary f` is a word of that format; `Datum` is what such a word denotes.
Arithmetic decodes its operands into exact integers scaled by powers of two, computes there, and
rounds once, to nearest with ties to even.  Nothing here uses the machine's own floating-point unit,
so every operation reduces in the kernel and equality of results is equality of bits.

Two decisions are visible in the bits.  An operand that is not a number is passed on, the first one
if there are two, with its quiet bit set.  An invalid operation (`0 / 0`, `∞ - ∞`, a remainder by
zero) gives the *negative* quiet pattern.  Both matter because constants are shared bit for bit.
-/

namespace FlatHeap

-- Powers are those of the integers, whatever algebra is in scope.
attribute [local instance (high)] instPowNat

/-- A binary interchange format. -/
structure FloatFormat where
  /-- Significant bits, the hidden leading bit included. -/
  precision : Nat
  expBits : Nat
deriving DecidableEq, Repr

namespace FloatFormat

def single : FloatFormat := ⟨24, 8⟩

def double : FloatFormat := ⟨53, 11⟩

/-- Bits of a word: sign, exponent, and the significand without its hidden bit. -/
abbrev width (f : FloatFormat) : Nat := f.precision + f.expBits

def fracBits (f : FloatFormat) : Nat := f.precision - 1

def expMax (f : FloatFormat) : Nat := 2 ^ f.expBits - 1

def tiny (f : FloatFormat) : Int := 2 - 2 ^ (f.expBits - 1) - f.fracBits

/-- Magnitude bits of an infinity; every smaller magnitude is a number. -/
def infMagnitude (f : FloatFormat) : Nat := f.expMax * 2 ^ f.fracBits

end FloatFormat

abbrev Binary (f : FloatFormat) : Type := BitVec f.width

abbrev Single : Type := Binary .single

abbrev Double : Type := Binary .double

/-- What a word denotes. -/
inductive Datum where
  /-- Not a number, with the stored significand bits. -/
  | nan (neg : Bool) (payload : Nat)
  | inf (neg : Bool)
  /-- The number `± m * 2 ^ q`; a zero keeps its sign. -/
  | fin (neg : Bool) (m : Nat) (q : Int)
deriving DecidableEq, Repr

/-! ## Between words and what they denote -/

def shiftRightEven (m s : Nat) : Nat :=
  let kept := m >>> s
  let lost := m % 2 ^ s
  let half := 2 ^ s / 2
  if s = 0 then m
  else if lost < half ∨ (lost = half ∧ kept % 2 = 0) then kept
  else kept + 1

namespace FloatFormat

/-- Magnitude bits of the number of format `f` nearest to `m * 2 ^ q`.

The last place of the result has exponent `max (q + length m - precision) tiny`.  Counting last
places from `tiny` upwards, each binade holds `2 ^ fracBits` of them, so exponent and significand
fields come out of one sum, carries into the next binade included. -/
def roundMagnitude (f : FloatFormat) (m : Nat) (q : Int) : Nat :=
  if m = 0 then 0 else
  let last := max (q + (Nat.log2 m + 1 : Nat) - f.precision) f.tiny
  let kept := if last ≤ q then m <<< (q - last).toNat else shiftRightEven m (last - q).toNat
  min ((last - f.tiny).toNat * 2 ^ f.fracBits + kept) f.infMagnitude

end FloatFormat

namespace Binary

variable {f g : FloatFormat}

def ofFields (f : FloatFormat) (neg : Bool) (magnitude : Nat) : Binary f :=
  BitVec.ofNat _ ((if neg then 2 ^ (f.width - 1) else 0) + magnitude)

def sign (x : Binary f) : Bool := x.msb

def magnitude (x : Binary f) : Nat := x.toNat % 2 ^ (f.width - 1)

def datum (x : Binary f) : Datum :=
  let frac := x.magnitude % 2 ^ f.fracBits
  let field := x.magnitude / 2 ^ f.fracBits
  if field = f.expMax then if frac = 0 then .inf x.sign else .nan x.sign frac
  else if field = 0 then .fin x.sign frac f.tiny
  else .fin x.sign (2 ^ f.fracBits + frac) (f.tiny + (field - 1 : Nat))

def round (f : FloatFormat) (neg : Bool) (m : Nat) (q : Int) : Binary f :=
  ofFields f neg (f.roundMagnitude m q)

def ofInt (f : FloatFormat) (v : Int) : Binary f :=
  round f (v < 0) v.natAbs 0

def quiet (x : Binary f) : Binary f := x ||| BitVec.ofNat _ (2 ^ (f.fracBits - 1))

def invalid (f : FloatFormat) : Binary f :=
  ofFields f true (f.infMagnitude + 2 ^ (f.fracBits - 1))

def isNaN (x : Binary f) : Bool :=
  match x.datum with
  | .nan .. => true
  | _ => false

def isFinite (x : Binary f) : Bool :=
  match x.datum with
  | .fin .. => true
  | _ => false

/-- Change of format: exact where the target is wider, to nearest otherwise.  The significand bits
of what is not a number stay aligned at the top. -/
def convert (g : FloatFormat) (x : Binary f) : Binary g :=
  match x.datum with
  | .nan s p =>
    let aligned := p * 2 ^ g.fracBits / 2 ^ f.fracBits
    quiet (ofFields g s (g.infMagnitude + aligned))
  | .inf s => ofFields g s g.infMagnitude
  | .fin s m q => round g s m q

/-! ## Arithmetic -/

def neg (x : Binary f) : Binary f := x ^^^ BitVec.ofNat _ (2 ^ (f.width - 1))

def signedInt (s : Bool) (m : Nat) : Int := if s then -(m : Int) else m

/-- Apply `op` to what two numbers denote, once neither operand is a non-number. -/
def lift (op : Datum → Datum → Binary f) (x y : Binary f) : Binary f :=
  if x.isNaN then x.quiet else if y.isNaN then y.quiet else op x.datum y.datum

def addDatum : Datum → Datum → Binary f
  | .inf s, .inf t => if s = t then ofFields f s f.infMagnitude else invalid f
  | .inf s, _ => ofFields f s f.infMagnitude
  | _, .inf t => ofFields f t f.infMagnitude
  | .fin s m p, .fin t n q =>
    let e := min p q
    let sum := signedInt s (m <<< (p - e).toNat) + signedInt t (n <<< (q - e).toNat)
    if sum = 0 then ofFields f (s && t) 0 else round f (sum < 0) sum.natAbs e
  | _, _ => invalid f

def add (x y : Binary f) : Binary f := lift addDatum x y

def negDatum : Datum → Datum
  | .nan s p => .nan (!s) p
  | .inf s => .inf (!s)
  | .fin s m q => .fin (!s) m q

def sub (x y : Binary f) : Binary f := lift (fun a b => addDatum a (negDatum b)) x y

def mulDatum : Datum → Datum → Binary f
  | .fin s m p, .fin t n q => round f (s ^^ t) (m * n) (p + q)
  | .inf s, .inf t => ofFields f (s ^^ t) f.infMagnitude
  | .inf s, .fin t n _ => if n = 0 then invalid f else ofFields f (s ^^ t) f.infMagnitude
  | .fin s m _, .inf t => if m = 0 then invalid f else ofFields f (s ^^ t) f.infMagnitude
  | _, _ => invalid f

def mul (x y : Binary f) : Binary f := lift mulDatum x y

/-- Quotient of two data that are numbers or infinities.  The integer quotient is taken with more
bits than the format holds, and a last bit records whether the division left a remainder. -/
def divDatum : Datum → Datum → Binary f
  | .fin s m p, .fin t n q =>
    if n = 0 then
      if m = 0 then invalid f else ofFields f (s ^^ t) f.infMagnitude
    else
      let k := f.precision + 2 + Nat.log2 n
      let num := m <<< k
      round f (s ^^ t) (2 * (num / n) + if num % n = 0 then 0 else 1) (p - q - k - 1)
  | .inf _, .inf _ => invalid f
  | .inf s, .fin t _ _ => ofFields f (s ^^ t) f.infMagnitude
  | .fin s _ _, .inf t => ofFields f (s ^^ t) 0
  | _, _ => invalid f

def div (x y : Binary f) : Binary f := lift divDatum x y

/-- Remainder of division toward zero; exact, with the sign of the dividend. -/
def remDatum : Datum → Datum → Binary f
  | .fin s m p, .fin _ n q =>
    if n = 0 then invalid f else
    let e := min p q
    round f s ((m <<< (p - e).toNat) % (n <<< (q - e).toNat)) e
  | .fin s m p, .inf _ => round f s m p
  | _, _ => invalid f

def rem (x y : Binary f) : Binary f := lift remDatum x y

/-! ## Comparison -/

/-- `± m * 2 ^ q` as an integer multiple of `2 ^ e`, for `e ≤ q`. -/
def scaled (s : Bool) (m : Nat) (q e : Int) : Int := signedInt s (m <<< (q - e).toNat)

/-- Order of two words; none when one is no number.  The two zeros are equal. -/
def compare? (x y : Binary f) : Option Ordering :=
  match x.datum, y.datum with
  | .nan .., _ | _, .nan .. => none
  | .inf s, .inf t => some (compare (signedInt s 1) (signedInt t 1))
  | .inf s, .fin .. => some (if s then .lt else .gt)
  | .fin .., .inf t => some (if t then .gt else .lt)
  | .fin s m p, .fin t n q =>
    let e := min p q
    some (compare (scaled s m p e) (scaled t n q e))

/-- Numerical equality: no word equals one that is no number, and the two zeros are equal. -/
def eq (x y : Binary f) : Bool := x.compare? y == some .eq

def lt (x y : Binary f) : Bool := x.compare? y == some .lt

def le (x y : Binary f) : Bool := x.lt y || x.eq y

/-! ## Integers -/

def wideMax : Int := 2 ^ (127 : Nat) - 1

def wideMin : Int := -2 ^ (127 : Nat)

def clampWide (v : Int) : Int := max wideMin (min wideMax v)

/-- Convert to a 128-bit signed integer after rounding the magnitude by `place`, which is given the
significand and a non-negative right shift.  Values out of range saturate and a non-number gives
`0`. -/
def toWideBy (place : Nat → Nat → Nat) (x : Binary f) : Int :=
  match x.datum with
  | .nan .. => 0
  | .inf s => if s then wideMin else wideMax
  | .fin s m q =>
    clampWide (signedInt s (if 0 ≤ q then m <<< q.toNat else place m (-q).toNat))

def truncWide (x : Binary f) : Int := x.toWideBy (· >>> ·)

def roundWide (x : Binary f) : Int := x.toWideBy shiftRightEven

def trunc (x : Binary f) : Binary f :=
  match x.datum with
  | .fin s m q => if 0 ≤ q then x else round f s (m >>> (-q).toNat) 0
  | .nan .. => x.quiet
  | .inf _ => x

end Binary

end FlatHeap
