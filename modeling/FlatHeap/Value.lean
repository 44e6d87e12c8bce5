import FlatHeap.Number.IntFormat
import FlatHeap.Text.FloatText
import FlatHeap.Text.Quoted

/-!
# Values

A heap slot of the host machine holds one `Value`.  Integers of every kind share one constructor, a
kind together with a word of that kind's width, so that what holds of integers is said once and a
stored word can never be out of range.  Floating-point values are their bit patterns; equality of
values is therefore equality bit for bit, which is how constants are shared (`Value.identity`), and
the numerical comparison the host performs is a separate operation.
-/

namespace FlatHeap

-- Powers are those of the integers, whatever algebra is in scope.
attribute [local instance (high)] instPowNat

/-- The integer kinds of the host.  A character is an unsigned 16-bit number. -/
inductive IntKind where
  | char
  | int8
  | uint8
  | int16
  | uint16
  | int32
  | uint32
  | int64
  | uint64
deriving DecidableEq, Repr

namespace IntKind

def format : IntKind → IntFormat
  | char => ⟨16, false⟩
  | int8 => ⟨8, true⟩
  | uint8 => ⟨8, false⟩
  | int16 => ⟨16, true⟩
  | uint16 => ⟨16, false⟩
  | int32 => ⟨32, true⟩
  | uint32 => ⟨32, false⟩
  | int64 => ⟨64, true⟩
  | uint64 => ⟨64, false⟩

abbrev bits (k : IntKind) : Nat := k.format.bits

def toInt (k : IntKind) (w : BitVec k.bits) : Int :=
  if k.format.signed then w.toInt else w.toNat

/-- The word of the kind that agrees with an integer modulo its width. -/
def ofInt (k : IntKind) (v : Int) : BitVec k.bits := BitVec.ofInt _ v

def valueName : IntKind → String
  | char => "Char"
  | int8 => "SByte"
  | uint8 => "Byte"
  | int16 => "Int16"
  | uint16 => "UInt16"
  | int32 => "Int32"
  | uint32 => "UInt32"
  | int64 => "Int64"
  | uint64 => "UInt64"

def tag : IntKind → Nat
  | char => 1
  | int8 => 2
  | uint8 => 3
  | int16 => 4
  | uint16 => 5
  | int32 => 6
  | uint32 => 7
  | int64 => 8
  | uint64 => 9

def all : List IntKind := [char, int8, uint8, int16, uint16, int32, uint32, int64, uint64]

end IntKind

/-- Contents of a heap slot. -/
inductive Value where
  | null
  | self
  | bool (b : Bool)
  | int (k : IntKind) (w : BitVec k.bits)
  /-- A 32-bit floating-point number. -/
  | single (x : Single)
  /-- A 64-bit floating-point number. -/
  | double (x : Double)
  | text (s : String)
  /-- A reference to a host type, by host name. -/
  | type (name : String)
  | address (a : UInt32)
deriving DecidableEq, Repr, Inhabited

namespace Value

/-- The integer of kind `k` that agrees with `v` modulo the width of `k`. -/
def ofInt (k : IntKind) (v : Int) : Value := .int k (k.ofInt v)

/-- Integer a value stands for; truth values count as `0` and `1`. -/
def integer? : Value → Option Int
  | bool b => some b.toNat
  | int k w => some (k.toInt w)
  | _ => none

/-- Floating-point number a value stands for, widened to 64 bits. -/
def float? : Value → Option Double
  | single x => some (x.convert .double)
  | double x => some x
  | _ => none

@[simp] theorem integer?_bool (b : Bool) : (bool b).integer? = some (b.toNat : Int) := rfl

@[simp] theorem integer?_int (k : IntKind) (w : BitVec k.bits) :
    (int k w).integer? = some (k.toInt w) := rfl

/-! ## Identity -/

/-- A value flattened to a tag and its payload. -/
inductive Identity where
  | null
  | self
  /-- A numeric payload, sign-extended to 64 bits. -/
  | bits (tag : Nat) (payload : Nat)
  | text (tag : Nat) (payload : String)
deriving DecidableEq, Repr

/-- Identity by which constants are shared: the kind of value and its payload, bit for bit. -/
def identity : Value → Identity
  | null => .null
  | self => .self
  | bool b => .bits 0 b.toNat
  | int k w => .bits k.tag (k.toInt w % 2 ^ (64 : Nat)).toNat
  | single x => .bits 10 x.toNat
  | double x => .bits 11 x.toNat
  | address a => .bits 12 a.toNat
  | text s => .text 0 s
  | type s => .text 1 s

/-! ## Texts -/

def render : Value → String
  | null => "null"
  | self => "this"
  | bool b => toString b
  | int .char w => "'\\u" ++ Text.hex 4 w.toNat ++ "'"
  | int k w => toString (k.toInt w)
  | single x => x.text
  | double x => x.text
  | text s => Text.quote s
  | type s => "typeof(" ++ s ++ ")"
  | address a => Text.address a.toNat

/-- Text of a value in a fault message: its kind, then its payload in brackets. -/
def describe : Value → String
  | null => "Null"
  | self => "This"
  | bool b => "Bool(" ++ toString b ++ ")"
  | int k w => k.valueName ++ "(" ++ toString (k.toInt w) ++ ")"
  | single x => "Single(" ++ x.text ++ ")"
  | double x => "Double(" ++ x.text ++ ")"
  | text s => "String(" ++ Text.quote s ++ ")"
  | type s => "Type(" ++ Text.quote s ++ ")"
  | address a => "Address(" ++ toString a.toNat ++ ")"

end Value

end FlatHeap
