import Mathlib.Tactic
import FlatHeap.Host.Machine
import FlatHeap.Proofs.Failure

/-!
# Results of host operations

A signature declares the host type of the result, and most operations give a value of it.  Comparisons
answer a truth value and rounding a floating-point number, whatever is declared (`Host.resultType`).  The
machine does not look at the type when it writes a result, so an operation that is declared wrongly leaves
a value where a copy would not have put it (`Host.Signature.ResultFits`).
-/

namespace FlatHeap.Host

open Host.Machine

/-! ## Types of results -/

/-- Host type of what an operation gives: comparisons answer a truth value and rounding a number,
whatever is declared. -/
def resultType (member declared : String) : String :=
  match member with
  | "op_Equality" | "op_Inequality" | "op_LessThan" | "op_LessThanOrEqual" | "op_GreaterThan"
  | "op_GreaterThanOrEqual" | "op_UnaryNegation" => "SystemBoolean"
  | "Truncate" => "SystemDouble"
  | _ => declared

variable {member type : String} {x y z : Value} {args : List Value}

lemma fits_ofInteger {v : Int} (h : ofInteger type v = .ok y) : fits y type = true := by
  unfold ofInteger at h
  split at h
  · rename_i k hk
    obtain rfl := Except.ok.inj h
    have hk : k.hostType = type := by simpa using List.find?_some hk
    simp [fits, hostTypeOf?, Value.ofInt, hk]
  · split_ifs at h with h₁ h₂ h₃
    all_goals
      obtain rfl := Except.ok.inj h
      simp [fits, hostTypeOf?, *]

lemma fits_ofIntegerChecked {v : Int} (h : ofIntegerChecked type v = .ok y) : fits y type = true := by
  unfold ofIntegerChecked at h
  split at h
  · rename_i k hk
    split_ifs at h
    exact fits_ofInteger (v := v) (by rw [ofInteger, hk]; exact h)
  · exact fits_ofInteger h

lemma fits_ofFloat {v : Double} (h : ofFloat type v = .ok y) : fits y type = true := by
  unfold ofFloat at h
  split_ifs at h with h₁ h₂
  · obtain rfl := Except.ok.inj h
    simp [fits, hostTypeOf?, h₁]
  · obtain rfl := Except.ok.inj h
    simp [fits, hostTypeOf?, h₂]
  · exact fits_ofIntegerChecked h

lemma fits_convert (h : convert x type = .ok y) : fits y type = true := by
  unfold convert at h
  split_ifs at h with hstring
  · subst hstring
    split at h
    all_goals
      obtain rfl := Except.ok.inj h
      rfl
  · split at h
    · exact fits_ofIntegerChecked h
    · exact fits_ofFloat h
    · cases h

lemma fits_integerOperator {a b : Int} (h : integerOperator member a b type = some (.ok y)) :
    fits y (resultType member type) = true := by
  unfold integerOperator at h
  split at h
  case h_3 =>
    have hproduct := Option.some.inj h
    split_ifs at hproduct
    exact fits_ofInteger hproduct
  all_goals simp only [resultType]
  all_goals first
  | exact fits_ofInteger (Option.some.inj h)
  | (split_ifs at h; exact fits_ofInteger (Option.some.inj h))
  | (obtain rfl := Except.ok.inj (Option.some.inj h); rfl)
  | cases h

lemma fits_floatOperator {a b : Double} (h : floatOperator member a b type = some (.ok y)) :
    fits y (resultType member type) = true := by
  unfold floatOperator at h
  split at h
  all_goals simp only [resultType]
  all_goals first
  | exact fits_ofFloat (Option.some.inj h)
  | (obtain rfl := Except.ok.inj (Option.some.inj h); rfl)
  | cases h

lemma fits_evaluateUnary (h : evaluateUnary member x type = .ok y) :
    fits y (resultType member type) = true := by
  unfold evaluateUnary at h
  split at h
  · obtain rfl := Except.ok.inj h
    rfl
  · obtain rfl := Except.ok.inj h
    rfl
  · simp only [resultType]
    split at h
    · exact fits_ofInteger h
    · exact fits_ofFloat h
    · cases h
  · cases h

lemma fits_evaluateBinary (h : evaluateBinary member x z type = .ok y) :
    fits y (resultType member type) = true := by
  have hsome {o : Option Outcome} (ho : o.getD (.error (.unknown member)) = .ok y) :
      o = some (.ok y) := by
    cases o with
    | none => cases ho
    | some r => exact congrArg some ho
  unfold evaluateBinary at h
  split_ifs at h with heq hne
  · obtain rfl := Except.ok.inj h
    rw [heq]
    rfl
  · obtain rfl := Except.ok.inj h
    rw [hne]
    rfl
  · split at h
    · exact fits_integerOperator (hsome h)
    · split at h
      · exact fits_floatOperator (hsome h)
      · cases h

lemma resultType_of_isConversion (h : isConversion member = true) :
    resultType member type = type := by
  unfold resultType
  split
  all_goals first | rfl | (exact absurd h (by decide))

lemma fits_evaluate (h : evaluate member args type = .ok y) : fits y (resultType member type) = true := by
  unfold evaluate at h
  split_ifs at h with hconversion
  · rw [resultType_of_isConversion hconversion]
    split at h
    · exact fits_convert h
    · cases h
  · split at h
    · exact fits_evaluateUnary h
    · exact fits_evaluateBinary h
    · cases h

/-! ## Operations on a stack -/

namespace Signature

variable {signature hostType : String} {xs : List Value} {n : Nat}

/-- What a host operation makes of the contents of a stack, top first: its result, and the number of
entries it takes. -/
def answer? (signature : String) (xs : List Value) : Option (Value × Nat) := do
  let call ← parse? signature
  guard (call.arity ≤ xs.length)
  let y ← (evaluate call.member (xs.take call.arity).reverse call.result).toOption
  return (y, call.arity)

/-- The operation has a result, and slots of a host type may hold it. -/
def ResultFits (signature hostType : String) : Prop :=
  ∀ call, parse? signature = some call → call.result ≠ "SystemVoid" ∧
    ∀ args y, evaluate call.member args call.result = .ok y → fits y hostType = true

lemma answer?_eq_some_iff : answer? signature xs = some (y, n) ↔
    ∃ call, parse? signature = some call ∧ call.arity = n ∧ n ≤ xs.length ∧
      evaluate call.member (xs.take n).reverse call.result = .ok y := by
  simp only [answer?, Option.bind_eq_bind, Option.bind_eq_some_iff, Option.pure_def,
    Option.some.injEq, Prod.mk.injEq]
  constructor
  · rintro ⟨call, hparse, u, hguard, _, hy, rfl, rfl⟩
    exact ⟨call, hparse, rfl, by simpa using hguard, ok_of_toOption hy⟩
  · rintro ⟨call, hparse, rfl, hle, hy⟩
    exact ⟨call, hparse, (), by simpa using hle, y, by rw [hy]; rfl, rfl, rfl⟩

lemma resultFits_of_declared {call : Call} (hparse : parse? signature = some call)
    (hresult : call.result ≠ "SystemVoid") :
    ResultFits signature (resultType call.member call.result) := by
  intro other hother
  obtain rfl : call = other := Option.some.inj (hparse.symm.trans hother)
  exact ⟨hresult, fun args y hy => fits_evaluate hy⟩

end Signature

end FlatHeap.Host
