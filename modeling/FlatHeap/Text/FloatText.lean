import FlatHeap.Number.Shortest

/-!
# Floating-point numerals

A number is written with its shortest digits.  It is written positionally, with at least one digit
on each side of the point, when its first digit stands for a power of ten from `10 ^ -4` to `10 ^
15`, and with an exponent otherwise.  A zero keeps its sign; the other words have fixed texts.
-/

namespace FlatHeap

/-- Decisions of a numeral format. -/
structure NumeralStyle where
  /-- Least power of ten of the first digit that is written positionally. -/
  leastPositional : Int
  /-- Greatest power of ten of the first digit that is written positionally. -/
  greatestPositional : Int
  /-- Text between significand and exponent. -/
  mark : String

def NumeralStyle.listing : NumeralStyle := ⟨-4, 15, "e"⟩

namespace Decimal

def digitChars (d : Decimal) : List Char := Nat.toDigits 10 d.digits

def leading (d : Decimal) : Int := d.exponent + d.digitChars.length - 1

/-- Digits around a point, padded with zeros to the unit place and followed by one place at
least. -/
def positional (d : Decimal) : String :=
  let cs := d.digitChars
  if 0 ≤ d.exponent then
    String.ofList (cs ++ List.replicate d.exponent.toNat '0') ++ ".0"
  else
    let places := (-d.exponent).toNat
    let padded := List.replicate (places + 1 - cs.length) '0' ++ cs
    let whole := padded.length - places
    String.ofList (padded.take whole) ++ "." ++ String.ofList (padded.drop whole)

/-- First digit, point and rest if there is a rest, then the exponent. -/
def scientific (style : NumeralStyle) (d : Decimal) : String :=
  let rest := d.digitChars.drop 1
  String.ofList (d.digitChars.take 1) ++ (if rest.isEmpty then "" else "." ++ String.ofList rest)
    ++ style.mark ++ toString d.leading

def render (style : NumeralStyle) (d : Decimal) : String :=
  if style.leastPositional ≤ d.leading ∧ d.leading ≤ style.greatestPositional then d.positional
  else d.scientific style

end Decimal

def Binary.text {f : FloatFormat} (x : Binary f) : String :=
  match x.datum with
  | .nan .. => "NaN"
  | .inf s => if s then "-inf" else "inf"
  | .fin s m q =>
    (if s then "-" else "")
      ++ if m = 0 then "0.0" else (Decimal.shortest f m q).render .listing

end FlatHeap
