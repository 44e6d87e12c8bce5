import FlatHeap.Lowering.Constant
import FlatHeap.Lowering.HostName
import FlatHeap.Proofs.Host.Operations
import FlatHeap.Proofs.Metadata.Stores

/-!
# Scalar types

A scalar type is the type of truth values or one of the nine integer types.  They are among the host
types that every store of declarations starts with, so their kind and their name on the host are known
for every store that can be built (`Scalar.kind_type`, `Scalar.hostIdent_type`).

A scalar value stands for an integer, and the value of a scalar type that an integer becomes is
`Scalar.ofInt`.  Conversion at compile time is then a single formula
(`Scalar.foldConversion?_eq`), and so is what the host's operations give on scalars.
-/

namespace FlatHeap

/-! ## Scalars -/

inductive Scalar where
  | boolean
  | int (k : IntKind)
deriving DecidableEq, Repr

def IntKind.type : IntKind → TypeRef
  | char => .char
  | int8 => .int8
  | uint8 => .uint8
  | int16 => .int16
  | uint16 => .uint16
  | int32 => .int32
  | uint32 => .uint32
  | int64 => .int64
  | uint64 => .uint64

namespace Scalar

def type : Scalar → TypeRef
  | boolean => .boolean
  | int k => k.type

def kind : Scalar → TypeKind
  | boolean => .boolean
  | int k => .int k

def hostType : Scalar → String
  | boolean => "SystemBoolean"
  | int k => k.hostType

def ofInt : Scalar → Int → Value
  | boolean, v => .bool (v ≠ 0)
  | int k, v => .ofInt k v

/-- The value belongs to the type and stands for an integer. -/
def Means : Scalar → Value → Int → Prop
  | boolean, x, i => ∃ b : Bool, x = .bool b ∧ i = b.toNat
  | int k, x, i => ∃ w, x = .int k w ∧ i = k.toInt w

def Holds : Scalar → Int → Prop
  | boolean, i => i = 0 ∨ i = 1
  | int k, i => k.format.Holds i

variable {s t : Scalar} {x : Value} {i c : Int} {md : Metadata} {k : IntKind} {result : String}

lemma type_injective : Function.Injective type := by
  intro s t h
  cases s with
  | boolean =>
    cases t with
    | boolean => rfl
    | int k => cases k <;> exact absurd h (by decide)
  | int k =>
    cases t with
    | boolean => cases k <;> exact absurd h (by decide)
    | int k' => cases k <;> cases k' <;> first | rfl | exact absurd h (by decide)

lemma hostType_injective : Function.Injective hostType := by
  have hofInt (k : IntKind) : IntKind.ofHostType? k.hostType = some k := by cases k <;> decide
  have hofBool : IntKind.ofHostType? "SystemBoolean" = none := by decide
  intro s t h
  have heq : IntKind.ofHostType? s.hostType = IntKind.ofHostType? t.hostType := by rw [h]
  cases s <;> cases t <;> simp only [hostType, hofInt, hofBool, Option.some.injEq, reduceCtorEq] at heq
  · rfl
  · rw [heq]

lemma Means.integer? (h : s.Means x i) : x.integer? = some i := by
  cases s with
  | boolean =>
    obtain ⟨b, rfl, rfl⟩ := h
    rfl
  | int k =>
    obtain ⟨w, rfl, rfl⟩ := h
    rfl

lemma Means.holds (h : s.Means x i) : s.Holds i := by
  cases s with
  | boolean =>
    obtain ⟨b, rfl, rfl⟩ := h
    cases b <;> simp [Holds]
  | int k =>
    obtain ⟨w, rfl, rfl⟩ := h
    exact IntKind.holds_toInt w

lemma Means.eq_ofInt (h : s.Means x i) : x = s.ofInt i := by
  cases s with
  | boolean =>
    obtain ⟨b, rfl, rfl⟩ := h
    cases b <;> rfl
  | int k =>
    obtain ⟨w, rfl, rfl⟩ := h
    exact (Value.ofInt_toInt k w).symm

lemma means_ofInt (h : s.Holds i) : s.Means (s.ofInt i) i := by
  cases s with
  | boolean =>
    refine ⟨decide (i ≠ 0), rfl, ?_⟩
    rcases h with rfl | rfl <;> rfl
  | int k => exact ⟨k.ofInt i, rfl, (IntKind.toInt_ofInt_of_holds h).symm⟩

lemma holds_zero (s : Scalar) : s.Holds 0 := by
  cases s with
  | boolean => exact .inl rfl
  | int k => exact (by cases k <;> decide : k.format.Holds 0)

lemma holds_one (s : Scalar) : s.Holds 1 := by
  cases s with
  | boolean => exact .inr rfl
  | int k => exact (by cases k <;> decide : k.format.Holds 1)

lemma ofInt_zero_ne_one (s : Scalar) : s.ofInt 0 ≠ s.ofInt 1 := by
  cases s with
  | boolean => decide
  | int k => cases k <;> decide

/-! ### Declarations of scalar types -/

lemma type_empty (s : Scalar) : ((({} : Metadata).type s.type).kind = s.kind) ∧
    ((({} : Metadata).type s.type).hostName.map fun n =>
      String.ofList (n.toList.filter (!identifierGaps.contains ·))) = some s.hostType ∧
    s.type.index < ({} : Metadata).types.size := by
  cases s with
  | boolean => exact ⟨rfl, by decide, by decide⟩
  | int k => cases k <;> exact ⟨rfl, by decide, by decide⟩

section Built

variable (hmd : md.Built)
include hmd

lemma kind_type (s : Scalar) : md.kind s.type = s.kind := by
  obtain ⟨hk, -, hlt⟩ := s.type_empty
  exact (hmd.extendsEmpty.same s.type hlt).1.trans hk

lemma hostIdent_type (s : Scalar) (behaviour : String) :
    md.hostIdent behaviour s.type = s.hostType := by
  obtain ⟨-, hn, hlt⟩ := s.type_empty
  rw [← (hmd.extendsEmpty.same s.type hlt).2] at hn
  have hident : (md.type s.type).plainIdent = s.hostType := by
    cases hh : (md.type s.type).hostName with
    | none => simp [hh] at hn
    | some n => simpa [hh, TypeDecl.plainIdent] using hn
  have hk : (md.type s.type).kind = s.kind := kind_type hmd s
  rw [Metadata.hostIdent, hk]
  cases s <;> exact hident

lemma intFormat?_int (k : IntKind) : md.intFormat? k.type = some k.format := by
  have hk : md.kind k.type = .int k := kind_type hmd (.int k)
  simp [Metadata.intFormat?, hk]

lemma intFormat?_boolean : md.intFormat? .boolean = none := by
  have hk : md.kind .boolean = .boolean := kind_type hmd .boolean
  simp [Metadata.intFormat?, hk]

lemma isFloat_type (s : Scalar) : md.isFloat s.type = false := by
  have hk := kind_type hmd s
  cases s <;> simp [Metadata.isFloat, hk, kind]

lemma isReference_type (s : Scalar) : md.isReference s.type = false := by
  have hk := kind_type hmd s
  cases s <;> simp [Metadata.isReference, hk, kind]

lemma underlying?_type (s : Scalar) : md.underlying? s.type = none := by
  have hk := kind_type hmd s
  cases s <;> simp [Metadata.underlying?, hk, kind]

lemma nullableInner?_type (s : Scalar) : md.nullableInner? s.type = none := by
  have hk := kind_type hmd s
  cases s <;> simp [Metadata.nullableInner?, hk, kind]

lemma conversionName?_int (k : IntKind) : md.conversionName? k.type = some k.valueName := by
  have hk : md.kind k.type = .int k := kind_type hmd (.int k)
  simp [Metadata.conversionName?, hk]

lemma conversionName?_boolean : md.conversionName? .boolean = some "Boolean" := by
  have hk : md.kind .boolean = .boolean := kind_type hmd .boolean
  simp [Metadata.conversionName?, hk]

lemma integerValue?_type (s : Scalar) (i : Int) : md.integerValue? s.type i = some (s.ofInt i) := by
  have hk := kind_type hmd s
  rw [Metadata.integerValue?]
  cases s <;> simp [hk, kind, ofInt]

lemma foldInteger?_type (t : Scalar) (i : Int) : md.foldInteger? i t.type = some (t.ofInt i) := by
  have hkt := kind_type hmd t
  have hplain : md.withoutEnum t.type = t.type := by
    rw [Metadata.withoutEnum, underlying?_type hmd, Option.getD_none]
  rw [Metadata.foldInteger?, hplain]
  cases t with
  | boolean =>
    have hf : md.intFormat? (type .boolean) = none := intFormat?_boolean hmd
    rw [hf]
    simp only [hkt, kind, true_or, if_true]
    exact integerValue?_type hmd .boolean i
  | int k =>
    have hf : md.intFormat? (type (.int k)) = some k.format := intFormat?_int hmd k
    rw [hf]
    simp only
    rw [integerValue?_type hmd (.int k), ofInt, ofInt, Value.ofInt, Value.ofInt,
      IntKind.ofInt_wrap]

lemma foldNumber?_type {source : TypeRef} (hx : x.integer? = some i) (hne : source ≠ t.type) :
    md.foldNumber? x source t.type = some (t.ofInt i) := by
  have hkt := kind_type hmd t
  have hinteger : md.foldNumber? x source t.type = md.foldInteger? i t.type := by
    rw [Metadata.foldNumber?, if_neg (by cases t <;> simp [hne, hkt, kind]), hkt]
    cases t <;> simp [kind, hx]
  rw [hinteger, foldInteger?_type hmd]

/-- **Conversion at compile time** of a scalar value to a scalar type. -/
theorem foldConversion?_eq (h : s.Means x i) :
    md.foldConversion? x s.type t.type = some (t.ofInt i) := by
  by_cases hst : s = t
  · subst hst
    unfold Metadata.foldConversion?
    rw [if_pos rfl, h.eq_ofInt]
  have hne : s.type ≠ t.type := fun heq => hst (type_injective heq)
  have hnumber : md.foldConversion? x s.type t.type = md.foldNumber? x s.type t.type := by
    unfold Metadata.foldConversion?
    rw [if_neg hne]
    cases s with
    | boolean => obtain ⟨b, rfl, -⟩ := h; rfl
    | int k => obtain ⟨w, rfl, -⟩ := h; rfl
  rw [hnumber, foldNumber?_type hmd h.integer? hne]

end Built

/-! ### Host operations on scalars -/

open Host.Signature in
lemma word_hostType (s : Scalar) : Word s.hostType.toList ∧ solid s.hostType.toList = true ∧
    '.' ∉ s.hostType.toList := by
  have hword : Word s.hostType.toList ∧ '.' ∉ s.hostType.toList := by
    cases s with
    | boolean => exact ⟨⟨by decide, by decide⟩, by decide⟩
    | int k => cases k <;> exact ⟨⟨by decide, by decide⟩, by decide⟩
  exact ⟨hword.1, solid_of_not_mem hword.1.2, hword.2⟩

lemma hostType_ne_void (s : Scalar) : s.hostType ≠ "SystemVoid" := by
  cases s with
  | boolean => decide
  | int k => cases k <;> decide

lemma parse?_convert (s : Scalar) (k : IntKind) :
    Host.Signature.parse? (Host.Signature.render "SystemConvert" ("To" ++ k.valueName) [s.hostType]
      k.hostType) = some ⟨"To" ++ k.valueName, 1, k.hostType⟩ := by
  refine Host.Signature.parse?_render (by decide) (by cases k <;> decide) ?_
    (word_hostType (.int k)).2.1
  simpa using (word_hostType s).1

lemma parse?_binary (s t : Scalar) {member : String}
    (h : Host.Signature.solid member.toList = true) :
    Host.Signature.parse? (Host.Signature.binary s.hostType member t.hostType) =
      some ⟨member, 2, t.hostType⟩ := by
  refine Host.Signature.parse?_render (word_hostType s).2.2 h ?_ (word_hostType t).2.1
  simpa using (word_hostType s).1

lemma evaluate_convert (hx : x.integer? = some i) (h : k.format.Holds i) :
    Host.evaluate ("To" ++ k.valueName) [x] k.hostType = .ok (.ofInt k i) := by
  have hconv : Host.isConversion ("To" ++ k.valueName) = true := by cases k <;> decide
  have htext : k.hostType ≠ "SystemString" := by cases k <;> decide
  have hkind : IntKind.ofHostType? k.hostType = some k := by cases k <;> decide
  simp [Host.evaluate, hconv, Host.convert, htext, hx, Host.ofIntegerChecked, hkind, h]

lemma evaluate_operator {member : String} {y z : Value} {j : Int}
    (hm : Host.isConversion member = false) (he : member ≠ "op_Equality")
    (hn : member ≠ "op_Inequality") (hx : x.integer? = some i) (hy : y.integer? = some j)
    (h : Host.integerOperator member i j result = some (.ok z)) :
    Host.evaluate member [x, y] result = .ok z := by
  simp [Host.evaluate, hm, Host.evaluateBinary, he, hn, hx, hy, h]

lemma evaluate_inequality {y : Value} {j : Int} (hx : x.integer? = some i)
    (hy : y.integer? = some j) :
    Host.evaluate "op_Inequality" [x, y] result = .ok (.bool (decide (i ≠ j))) := by
  have hm : Host.isConversion "op_Inequality" = false := by decide
  by_cases hij : i = j <;> simp [Host.evaluate, hm, Host.evaluateBinary, Host.equal, hx, hy, hij]

lemma ofInteger_hostType (s : Scalar) (i : Int) :
    Host.ofInteger s.hostType i = .ok (s.ofInt i) := by
  cases s with
  | boolean => rfl
  | int k =>
    have hkind : IntKind.ofHostType? k.hostType = some k := by cases k <;> decide
    simp [Host.ofInteger, hostType, hkind, ofInt]

lemma integer?_ofInt (h : k.format.Holds i) : (Value.ofInt k i).integer? = some i := by
  rw [Value.ofInt, Value.integer?_int, IntKind.toInt_ofInt_of_holds h]

lemma evaluate_and (hx : x.integer? = some i) (hc : k.format.Holds c) :
    Host.evaluate "op_LogicalAnd" [x, .ofInt k c] k.hostType = .ok (.ofInt k (Host.bitAnd i c)) :=
  evaluate_operator (by decide) (by decide) (by decide) hx (integer?_ofInt hc)
    (congrArg some (ofInteger_hostType (.int k) _))

lemma evaluate_or (hx : x.integer? = some i) (hc : k.format.Holds c) :
    Host.evaluate "op_LogicalOr" [x, .ofInt k c] k.hostType = .ok (.ofInt k (Host.bitOr i c)) :=
  evaluate_operator (by decide) (by decide) (by decide) hx (integer?_ofInt hc)
    (congrArg some (ofInteger_hostType (.int k) _))

lemma evaluate_lessThan (hx : x.integer? = some i) (hc : k.format.Holds c) :
    Host.evaluate "op_LessThan" [x, .ofInt k c] result = .ok (.bool (decide (i < c))) :=
  evaluate_operator (by decide) (by decide) (by decide) hx (integer?_ofInt hc) rfl

end Scalar

end FlatHeap
