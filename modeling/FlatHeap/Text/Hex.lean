/-!
# Hexadecimal numerals

Offsets and tokens are written in lower case, code addresses in upper case, all padded with zeros to
a least width.
-/

namespace FlatHeap.Text

-- Powers are those of the integers, whatever algebra is in scope.
attribute [local instance (high)] instPowNat

def padZeros (width : Nat) (digits : List Char) : List Char :=
  List.replicate (width - digits.length) '0' ++ digits

def hex (width n : Nat) : String :=
  String.ofList (padZeros width (Nat.toDigits 16 n))

def hexUpper (width n : Nat) : String :=
  String.ofList (padZeros width ((Nat.toDigits 16 n).map Char.toUpper))

/-- Hexadecimal numeral of a signed 64-bit integer: negative numbers show their two's complement. -/
def hexSigned (width : Nat) (v : Int) : String :=
  hex width (v % 2 ^ (64 : Nat)).toNat

def offset (n : Nat) : String := "IL_" ++ hex 4 n

def address (n : Nat) : String := "0x" ++ hexUpper 8 n

end FlatHeap.Text
