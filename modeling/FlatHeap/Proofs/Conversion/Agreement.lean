import FlatHeap.Proofs.Conversion.Yields

/-!
# Code of conversions

A constant is converted by a formula, any other scalar by code: a checked conversion of the host
where every number of the source fits, and otherwise masks in a 64-bit type, after which the checked
conversion cannot fail.  Both give the same value, for every pair of scalar types and every value of
the source, and the code never faults (`Lower.convert_yields`).

The proof goes through the ways of conversion from the inside out.  Each lemma says that a way yields
the value of the target that agrees with the number modulo the target's width; where the target is
signed, this is the number with the low bits and the sign bit taken apart and put together again
(`IntFormat.wrap_eq_sign`).
-/

namespace FlatHeap

variable {work : IntKind} {n : Nat} {stack : List VarRef}

namespace IntFormat

lemma wrap_eq_sign {f : IntFormat} (hf : f.Proper) (hs : f.signed = true) (i : Int) :
    f.wrap i = if 2 ^ (f.bits - 1) ≤ i % 2 ^ f.bits then
      i % 2 ^ (f.bits - 1) - 2 ^ (f.bits - 1) else i % 2 ^ (f.bits - 1) := by
  have hpow := two_pow_bits hf
  have hpos : (0 : Int) < 2 ^ (f.bits - 1) := by positivity
  have hlow := Int.emod_nonneg i (b := 2 ^ f.bits) (by positivity)
  have hhigh := Int.emod_lt_of_pos i (b := 2 ^ f.bits) (by positivity)
  have hmod : i % 2 ^ (f.bits - 1) = i % 2 ^ f.bits % 2 ^ (f.bits - 1) :=
    (Int.emod_emod_of_dvd i (pow_dvd_pow 2 (by omega))).symm
  simp only [wrap, hs, true_and]
  split_ifs with hset
  · have : i % 2 ^ f.bits % 2 ^ (f.bits - 1) = i % 2 ^ f.bits - 2 ^ (f.bits - 1) := by
      rw [← Int.sub_emod_right]
      exact Int.emod_eq_of_lt (by omega) (by omega)
    omega
  · rw [hmod, Int.emod_eq_of_lt hlow (by omega)]

end IntFormat

namespace IntKind

variable {k : IntKind} {i : Int}

lemma holds_unsigned (h : k.format.signed = false) (h₀ : 0 ≤ i) (h₁ : i < 2 ^ k.bits) :
    k.format.Holds i := by
  simp only [IntFormat.Holds, IntFormat.least, IntFormat.greatest, h, bits] at *
  simp only [Bool.false_eq_true, if_false]
  omega

lemma holds_int64 (h₀ : -2 ^ 63 ≤ i) (h₁ : i < 2 ^ 63) : int64.format.Holds i := by
  show (-2 ^ 63 : Int) ≤ i ∧ i ≤ 2 ^ 63 - 1
  omega

lemma holds_uint64 (h₀ : 0 ≤ i) (h₁ : i < 2 ^ 64) : uint64.format.Holds i := by
  show (0 : Int) ≤ i ∧ i ≤ 2 ^ 64 - 1
  omega

lemma holds_work (hwork : work = .int64 ∨ work = .uint64) {j : Int} (hn : n < 64) (h₀ : 0 ≤ j)
    (h₁ : j < 2 ^ n) : work.format.Holds j := by
  have hpow : (2 : Int) ^ n ≤ 2 ^ 63 := pow_le_pow_right₀ (by decide) (by omega)
  rcases hwork with rfl | rfl
  · exact holds_int64 (by omega) (by omega)
  · exact holds_uint64 h₀ (by omega)

end IntKind

namespace Value

lemma ofInt_wrap (k : IntKind) (i : Int) : ofInt k (k.format.wrap i) = ofInt k i := by
  rw [ofInt, ofInt, IntKind.ofInt_wrap]

lemma ofInt_emod (k : IntKind) (i : Int) : ofInt k (i % 2 ^ k.bits) = ofInt k i := by
  rw [← ofInt_wrap k (i % 2 ^ k.bits), IntFormat.wrap_congr (Int.emod_emod_of_dvd i dvd_rfl),
    ofInt_wrap]

end Value

namespace Lower

open FlatHeap.Frame

variable {env : MethodEnv} {s : Frame} {held kept : List VarRef} {v : VarRef} {x : Value} {i : Int}
  {k : IntKind}

section Built

variable (hmd : env.md.Built) {b : Scalar}
include hmd

/-! ## Masks in a 64-bit type -/

lemma lowBits_yields (hwork : work = .int64 ∨ work = .uint64) (hn : n < 64)
    (hx : x.integer? = some i) :
    Gives env v x (bitwise work.type "op_LogicalAnd" v (2 ^ n - 1)) work.type
      (.ofInt work (i % 2 ^ n)) := by
  have hpos : (0 : Int) < 2 ^ n := by positivity
  have hmask : work.format.Holds (2 ^ n - 1) := IntKind.holds_work hwork hn (by omega) (by omega)
  have := bitwise_yields (v := v) hmd work hx hmask
  rwa [Host.bitAnd_mask i hn.le] at this

omit hmd in
lemma holds_lowBits (hwork : work = .int64 ∨ work = .uint64) (hn : n < 64) (i : Int) :
    work.format.Holds (i % 2 ^ n) :=
  IntKind.holds_work hwork hn (Int.emod_nonneg i (by positivity)) (Int.emod_lt_of_pos i (by positivity))

lemma keepBits_yields (hwork : work = .int64 ∨ work = .uint64) (hs : k.format.signed = false)
    (hbits : k.bits < 64) (hx : x.integer? = some i) :
    Gives env v x (keepBits work.type v k.bits k.type) k.type (.ofInt k i) := by
  refine (lowBits_yields hmd hwork hbits hx).bind fun w => ?_
  have := hostConvert_yields (v := w) hmd (.int work) k
    (Scalar.integer?_ofInt (holds_lowBits hwork hbits i)) (IntKind.holds_unsigned hs
      (Int.emod_nonneg i (by positivity)) (Int.emod_lt_of_pos i (by positivity)))
  rwa [Value.ofInt_emod] at this

lemma signBit_yields (work : IntKind) (hn : n < 64) (hbit : work.format.Holds (2 ^ n))
    (hx : x.integer? = some i) :
    Gives env v x (do nonZero work.type (← bitwise work.type "op_LogicalAnd" v (2 ^ n))) .boolean
      (.bool (decide (2 ^ n ≤ i % 2 ^ (n + 1)))) := by
  refine (bitwise_yields hmd work hx hbit).bind fun w => ?_
  have hholds : work.format.Holds (Host.bitAnd i (2 ^ n)) := by
    rw [Host.bitAnd_bit i hn]
    split_ifs
    · exact hbit
    · cases work <;> decide
  have := nonZero_yields (v := w) hmd work (Scalar.integer?_ofInt hholds)
  have hne : decide (Host.bitAnd i (2 ^ n) ≠ 0) = decide (2 ^ n ≤ i % 2 ^ (n + 1)) := by
    have hpos : (2 : Int) ^ n ≠ 0 := by positivity
    rw [Host.bitAnd_bit i hn]
    split_ifs with hle <;> simp [hle, hpos]
  rwa [hne] at this

lemma signExtend_yields (hs : k.format.signed = true) (hbits : k.bits < 64)
    (hx : x.integer? = some i) :
    Gives env v x (signExtend .int64 v k.bits k.type) k.type (.ofInt k i) := by
  have hproper : 0 < k.bits := k.proper
  have hn : k.bits - 1 + 1 = k.bits := by omega
  have hpos : (0 : Int) < 2 ^ (k.bits - 1) := by positivity
  have hpow : (2 : Int) ^ (k.bits - 1) ≤ 2 ^ 62 := pow_le_pow_right₀ (by decide) (by omega)
  have hnn := Int.emod_nonneg i hpos.ne'
  have hlt := Int.emod_lt_of_pos i hpos
  -- the sign bits make the low bits the wrapped number
  have hsign : (if decide (2 ^ (k.bits - 1) ≤ i % 2 ^ (k.bits - 1 + 1)) = true then
      Host.bitOr (i % 2 ^ (k.bits - 1)) (-2 ^ (k.bits - 1)) else i % 2 ^ (k.bits - 1)) =
        k.format.wrap i := by
    rw [IntFormat.wrap_eq_sign k.proper hs, hn, Host.bitOr_neg (by omega) hnn hlt]
    simp only [decide_eq_true_eq]
  have hwide : IntKind.int64.format.Holds (k.format.wrap i) := by
    rw [← hsign, Host.bitOr_neg (by omega) hnn hlt]
    split_ifs <;> exact IntKind.holds_int64 (by omega) (by omega)
  have hlow := bitwiseInto_fills (v := v) hmd .int64 (c := 2 ^ (k.bits - 1) - 1) hx
    (IntKind.holds_int64 (by omega) (by omega))
  rw [Host.bitAnd_mask i (by omega)] at hlow
  refine gives_allocate fun s held kept hb hv => ?_
  have hbits := withSignBits_yields hmd .int64 (c := -2 ^ (k.bits - 1)) hb hv hv hlow
    (signBit_yields hmd .int64 (n := k.bits - 1) (by omega)
      (IntKind.holds_int64 (by omega) (by omega)) hx) (IntKind.holds_int64 (by omega) (by omega))
    (IntKind.holds_int64 (by omega) (by omega))
  rw [hsign] at hbits
  refine Yields.bind (hbits.imp fun σ hσ => ⟨hσ, hσ⟩) fun w s₂ hb₂ hof => ?_
  have := hostConvert_yields hmd (.int .int64) k (Scalar.integer?_ofInt hwide)
    (IntFormat.holds_wrap k.proper i) hb₂ hof.not_address
  rwa [Value.ofInt_wrap] at this

lemma acrossSign_yields (hwork : work = .int64 ∨ work = .uint64) (hk : k = .int64 ∨ k = .uint64)
    {isSet : Lower VarRef} {set : Bool} {c : Int} (hx : x.integer? = some i)
    (hset : Gives env v x isSet .boolean (.bool set)) (hc : k.format.Holds c) :
    Gives env v x (do
      allocate v 1
      let low ← bitwise work.type "op_LogicalAnd" v (2 ^ 63 - 1)
      withSignBits k.type (hostConvertInto low work.type k.type) isSet c) k.type
      (.ofInt k (if set then Host.bitOr (i % 2 ^ 63) c else i % 2 ^ 63)) := by
  refine gives_allocate fun s held kept hb hv => ?_
  refine Yields.bind_with hb (lowBits_yields hmd hwork (by decide) hx hb hv) fun w s₂ g₂ hb₂ hw => ?_
  refine withSignBits_yields hmd k hb₂ hw.not_address
    ((g₂.isAddress_eq (hb.usable_hand (by simp)).1).trans hv) ?_ hset
    (holds_lowBits hk (by decide) i) hc
  exact hostConvertInto_fills hmd (.int work) k (Scalar.integer?_ofInt (holds_lowBits hwork (by decide) i))
    (holds_lowBits hk (by decide) i)

lemma signedToUnsigned64_yields (hx : x.integer? = some i) (hi : IntKind.int64.format.Holds i) :
    Gives env v x (signedToUnsigned64 v .uint64) .uint64 (.ofInt .uint64 i) := by
  have hi : -2 ^ 63 ≤ i ∧ i ≤ 2 ^ 63 - 1 := hi
  have hsign : (if decide (i < 0) = true then Host.bitOr (i % 2 ^ 63) (2 ^ 63) else i % 2 ^ 63) =
      i % 2 ^ 64 := by
    rw [Host.bitOr_bit (by decide) (Int.emod_nonneg i (by decide)) (Int.emod_lt_of_pos i (by decide))]
    simp only [decide_eq_true_eq]
    split_ifs <;> omega
  have hbits := acrossSign_yields (v := v) hmd (.inl rfl) (.inr rfl) (c := 2 ^ 63) hx
    (withConstant_yields hmd .int64 .boolean 0 (by decide) (Scalar.evaluate_lessThan hx (by decide)))
    (by decide)
  rw [hsign, show (2 : Int) ^ 64 = 2 ^ IntKind.uint64.bits from rfl, Value.ofInt_emod] at hbits
  exact hbits

lemma unsignedToSigned64_yields (hx : x.integer? = some i) :
    Gives env v x (unsignedToSigned64 v .int64) .int64 (.ofInt .int64 i) := by
  have hsign : (if decide (2 ^ 63 ≤ i % 2 ^ (63 + 1)) = true then
      Host.bitOr (i % 2 ^ 63) (-2 ^ 63) else i % 2 ^ 63) = IntKind.int64.format.wrap i := by
    rw [IntFormat.wrap_eq_sign (by decide) rfl,
      Host.bitOr_neg (by decide) (Int.emod_nonneg i (by decide)) (Int.emod_lt_of_pos i (by decide))]
    simp only [decide_eq_true_eq]
    rfl
  have hbits := acrossSign_yields (v := v) hmd (.inr rfl) (.inl rfl) (c := -2 ^ 63) hx
    (signBit_yields hmd .uint64 (n := 63) (by decide) (by decide) hx) (by decide)
  rw [hsign, Value.ofInt_wrap] at hbits
  exact hbits

/-! ## Changes of width and signedness -/

lemma fromSigned_yields (hk : k ≠ .int64) (hx : x.integer? = some i)
    (hi : IntKind.int64.format.Holds i) :
    Gives env v x (fromWork .int64 v k.type k.format) k.type (.ofInt k i) := by
  by_cases hu : k = .uint64
  · subst hu
    exact signedToUnsigned64_yields hmd hx hi
  have hbits : k.bits < 64 := by cases k <;> first | decide | contradiction
  have hwork : TypeRef.int64 ≠ .uint64 := by decide
  simp only [fromWork, hwork, decide_false, Bool.false_and, Bool.false_eq_true, if_false,
    if_neg hbits.ne]
  cases hs : k.format.signed
  · exact keepBits_yields hmd (.inl rfl) hs hbits hx
  · exact signExtend_yields hmd hs hbits hx

lemma fromUnsigned_yields (hk : k ≠ .uint64) (hx : x.integer? = some i) :
    Gives env v x (fromWork .uint64 v k.type k.format) k.type (.ofInt k i) := by
  by_cases hu : k = .int64
  · subst hu
    exact unsignedToSigned64_yields hmd hx
  have hbits : k.bits < 64 := by cases k <;> first | decide | contradiction
  simp only [fromWork, hbits, decide_true, Bool.and_self, if_true]
  cases hs : k.format.signed
  · exact keepBits_yields hmd (.inr rfl) hs hbits hx
  · have hlow : IntKind.int64.format.Holds (i % 2 ^ k.bits) := holds_lowBits (.inl rfl) hbits i
    refine (lowBits_yields hmd (.inr rfl) hbits hx).bind fun w => ?_
    refine (hostConvert_yields hmd (.int .uint64) .int64
      (Scalar.integer?_ofInt (holds_lowBits (.inr rfl) hbits i)) hlow).bind fun w₂ => ?_
    have := signExtend_yields (v := w₂) hmd hs hbits (Scalar.integer?_ofInt hlow)
    rwa [Value.ofInt_emod] at this

/-- **Reinterpretation** of a number that may not fit. -/
lemma reinterpret_yields {a : IntKind} (hfit : a.format.fitsIn k.format = false)
    (hx : x.integer? = some i) (hi : a.format.Holds i) :
    Gives env v x (reinterpret v a.type a.format k.type k.format) k.type (.ofInt k i) := by
  rw [reinterpret_eq]
  by_cases ha : a = .uint64
  · subst ha
    have hk : k ≠ .uint64 := by rintro rfl; exact absurd hfit (by decide)
    exact fromUnsigned_yields hmd hk hx
  have hwork : workType a.format = .int64 := by cases a <;> first | rfl | contradiction
  have hwide : IntKind.int64.format.Holds i :=
    hi.of_fitsIn (by cases a <;> first | rfl | contradiction)
  rw [hwork]
  by_cases hsame : a = .int64
  · subst hsame
    have hk : k ≠ .int64 := by rintro rfl; exact absurd hfit (by decide)
    exact fromSigned_yields hmd hk hx hwide
  have hne : a.type ≠ .int64 := by cases a <;> first | decide | contradiction
  have hk : k ≠ .int64 := by
    rintro rfl
    cases a <;> contradiction
  rw [if_neg hne]
  exact (hostConvert_yields hmd (.int a) .int64 hx hwide).bind fun _ =>
    fromSigned_yields hmd hk (Scalar.integer?_ofInt hwide) hwide

/-! ## The chain -/

omit hmd in
lemma yields_orTry_some (m' : Lower VarRef) {m : Lower (Option VarRef)} {k : Lower VarRef}
    {P : Store → Prop} {t : TypeRef} {y : Value} (hm : m env s = (some <$> m') env s)
    (h : Yields env P m' s held kept t y) : Yields env P (orTry m k) s held kept t y := by
  refine (yields_congr ?_).2 h
  calc (orTry m k) env s = (orTry (some <$> m') k) env s := by
        simp only [orTry]
        cases hr : m env s with
        | ok r s₁ => rw [bind_ok hr, bind_ok (hm ▸ hr)]
        | error e s₁ => rw [bind_error hr, bind_error (hm ▸ hr)]
    _ = m' env s := by
        rw [orTry, bind_map_left]
        show (m' >>= pure) env s = m' env s
        rw [bind_pure]

omit hmd in
lemma yields_orTry_none {m : Lower (Option VarRef)} {k : Lower VarRef} {P : Store → Prop}
    {t : TypeRef} {y : Value} (hm : m env s = .ok none s) (h : Yields env P k s held kept t y) :
    Yields env P (orTry m k) s held kept t y :=
  (yields_congr (bind_ok hm)).2 h

lemma toBoolean?_yields {a : IntKind} {k : Lower VarRef} (hx : x.integer? = some i)
    (hi : a.format.Holds i) :
    Gives env v x (orTry (toBoolean? v a.type) k) .boolean (.bool (decide (i ≠ 0))) := by
  intro s held kept h hv
  have hformat := Scalar.intFormat?_int hmd a
  have hrun : toBoolean? v a.type env s = (if a.format.bits < 32 then
      some <$> (hostConvert v a.type .int32 >>= nonZero .int32) else some <$> nonZero a.type v) env s := by
    rw [toBoolean?, metadata_bind, hformat]
    simp only [map_bind]
  by_cases hb : a.format.bits < 32
  · rw [if_pos hb] at hrun
    have hwide : IntKind.int32.format.Holds i :=
      hi.of_fitsIn (by cases a <;> first | rfl | contradiction)
    exact yields_orTry_some _ hrun ((hostConvert_yields hmd (.int a) .int32 hx hwide).bind
      (fun _ => nonZero_yields hmd .int32 (Scalar.integer?_ofInt hwide)) h hv)
  · rw [if_neg hb] at hrun
    exact yields_orTry_some _ hrun (nonZero_yields hmd a hx h hv)

lemma byHost?_yields {a : Scalar} {m : Lower VarRef} (hx : x.integer? = some i)
    (hi : k.format.Holds i) :
    Gives env v x (orTry (byHost? v a.type k.type) m) k.type (.ofInt k i) := by
  intro s held kept h hv
  have hsource : (env.md.conversionName? a.type).isSome = true := by
    cases a with
    | boolean => exact Option.isSome_iff_exists.2 ⟨_, Scalar.conversionName?_boolean hmd⟩
    | int a => exact Option.isSome_iff_exists.2 ⟨_, Scalar.conversionName?_int hmd a⟩
  have htarget : (env.md.conversionName? k.type).isSome = true :=
    Option.isSome_iff_exists.2 ⟨_, Scalar.conversionName?_int hmd k⟩
  have hkind : env.md.kind k.type = .int k := Scalar.kind_type hmd (.int k)
  have hrun : byHost? v a.type k.type env s = (some <$> hostConvert v a.type k.type) env s := by
    show (if env.md.kind k.type = .string ∧ !(env.md.conversionName? a.type).isSome then _ else if _ then
      _ else _ : Lower (Option VarRef)) env s = _
    rw [hsource, htarget, if_neg (by simp [hkind]), if_pos ⟨rfl, rfl⟩]
  exact yields_orTry_some _ hrun (hostConvert_yields hmd a k hx hi h hv)

lemma toInteger?_run (a : Scalar) :
    toInteger? v a.type k.type env s = ((env.md.intFormat? a.type).elim (pure none) fun g =>
      if g.fitsIn k.format then pure none else
        some <$> reinterpret v a.type g k.type k.format : Lower (Option VarRef)) env s := by
  rw [toInteger?, metadata_bind, Scalar.intFormat?_int hmd k]
  cases env.md.intFormat? a.type <;>
    simp only [Scalar.isFloat_type hmd a, Bool.false_eq_true, if_false] <;> rfl

lemma convertPlain_yields {a : Scalar} (hab : a ≠ b) (hx : a.Means x i) :
    Gives env v x (convertPlain v a.type b.type) b.type (b.ofInt i) := by
  intro s held kept h hv
  have hkb := Scalar.kind_type hmd b
  rw [convertPlain_eq]
  show Yields env _ (orTry (if env.md.kind b.type = .boolean then toBoolean? v a.type else pure none)
    (orTry (toInteger? v a.type b.type) (orTry (byHost? v a.type b.type)
      (refuse (.noConversion (env.md.typeName a.type) (env.md.typeName b.type)))))) s held kept
      b.type (b.ofInt i)
  rw [hkb]
  cases b with
  | boolean =>
    cases a with
    | boolean => exact absurd rfl hab
    | int a =>
      rw [if_pos (show Scalar.boolean.kind = .boolean from rfl)]
      exact toBoolean?_yields hmd hx.integer? hx.holds h hv
  | int k =>
    rw [if_neg (by simp [Scalar.kind])]
    refine yields_orTry_none rfl ?_
    cases a with
    | boolean =>
      have hi : k.format.Holds i := by
        rcases hx.holds with rfl | rfl <;> cases k <;> decide
      have hformat : env.md.intFormat? (Scalar.type .boolean) = none :=
        Scalar.intFormat?_boolean hmd
      have hrun := toInteger?_run hmd (v := v) (s := s) (k := k) .boolean
      rw [hformat] at hrun
      exact yields_orTry_none hrun (byHost?_yields hmd hx.integer? hi h hv)
    | int a =>
      have hformat : env.md.intFormat? (Scalar.int a).type = some a.format :=
        Scalar.intFormat?_int hmd a
      have hrun := toInteger?_run hmd (v := v) (s := s) (k := k) (.int a)
      rw [hformat] at hrun
      cases hfit : a.format.fitsIn k.format with
      | true =>
        simp only [Option.elim_some, hfit, if_true] at hrun
        exact yields_orTry_none hrun
          (byHost?_yields hmd hx.integer? (hx.holds.of_fitsIn hfit) h hv)
      | false =>
        simp only [Option.elim_some, hfit, Bool.false_eq_true, if_false] at hrun
        exact yields_orTry_some _ hrun (reinterpret_yields hmd hfit hx.integer? hx.holds h hv)

lemma sameOnHost_scalar (a b : Scalar) :
    sameOnHost a.type b.type env s = .ok (decide (a = b)) s := by
  show EStateM.Result.ok (a.type == b.type || env.ident a.type == env.ident b.type ||
    (env.md.isReference a.type && env.md.isReference b.type && env.md.assignable a.type b.type)) s = _
  rw [Scalar.isReference_type hmd, ident_scalar hmd, ident_scalar hmd]
  by_cases hab : a = b
  · simp [hab]
  · have htype : a.type ≠ b.type := fun heq => hab (Scalar.type_injective heq)
    have hhost : a.hostType ≠ b.hostType := fun heq => hab (Scalar.hostType_injective heq)
    simp [hab, htype, hhost]

lemma foldConstant?_meets {a : Scalar} (h : s.Balanced env (v :: held) kept) (hv : IsOf s v a.type)
    (hx : a.Means x i) :
    Meets (Works env held) (fun _ => False) (foldConstant? v a.type b.type) env s fun r s₁ => match r with
      | none => s₁ = s
      | some out => s₁.Balanced env (out :: held) kept ∧ IsOf s₁ out b.type ∧
        Turns env (fun σ => σ v = x) (s.Keeps held) s s₁ out (b.ofInt i) := by
  rw [foldConstant?, meets_metadata_bind, meets_constant?_bind]
  split
  case h_2 => exact meets_pure rfl
  case h_1 folded hfold =>
    obtain ⟨c, hc, hfold⟩ := Option.bind_eq_some_iff.1 hfold
    obtain ⟨hkind, hvalue⟩ : (s.draft.vars.get v).kind = .constant ∧
        (s.draft.vars.get v).value = some c := by
      simpa [Variable.constant?] using hc
    have hb : s.Balanced env held kept := h.letGo (MethodEnv.weightless_of_kind hv.has hkind)
    have hconst : Meets (Works env held) (fun _ => False) (constant folded b.type) env s fun out s' =>
        Silent s s' ∧ s'.Balanced env held kept ∧ IsConst s'.draft.vars folded b.type out :=
      (constant_meets hb folded b.type).quietly
    refine hconst.bind fun out s₁ g h₁ => meets_pure ⟨h₁.2.1.hold h₁.2.2.weightless,
      ⟨h₁.2.2.1, h₁.2.2.not_address, h₁.2.2.2.2.1⟩, fun K σ hK ha hσ => ?_⟩
    have hstore : σ v = c :=
      ha v (hK.has (g.vars.has hv.has)) ((hK.kind_eq (g.vars.has hv.has)).trans
        ((g.vars.kind_eq hv.has).trans hkind)) c
        ((hK.value_eq (g.vars.has hv.has)).trans ((g.vars.value_eq hv.has).trans hvalue))
    obtain rfl : x = c := hσ.symm.trans hstore
    obtain rfl : b.ofInt i = folded := by
      simpa [Scalar.foldConversion?_eq hmd hx] using hfold
    exact ⟨σ, h₁.1.leads, ha.const (h₁.2.2.grows hK), .refl⟩

/-- **Conversion of a scalar** yields what conversion at compile time gives. -/
lemma convert_yields {a : Scalar} (h : s.Balanced env (v :: held) kept) (hv : IsOf s v a.type)
    (hx : a.Means x i) :
    Yields env (fun σ => σ v = x) (convert v b.type) s held kept b.type (b.ofInt i) := by
  have hroute : route env.md a.type b.type = .plain := by
    simp only [route, Scalar.underlying?_type hmd, optionalRoute, Scalar.nullableInner?_type hmd]
  have hconv : Yields env (fun σ => σ v = x) (convertFrom v a.type b.type) s held kept b.type
      (b.ofInt i) := by
    rw [convertFrom]
    refine meets_metadata_bind.2 ((foldConstant?_meets hmd h hv hx (b := b)).bind
      fun r s₁ _ h₁ => ?_)
    rcases r with _ | out
    swap
    · exact meets_pure h₁
    obtain rfl : s₁ = s := h₁
    refine Meets.bind (meets_of_ok (sameOnHost_scalar hmd a b) (refl_of (Works env held) s₁)
      (Q := fun r s' => r = decide (a = b) ∧ s' = s₁) ⟨rfl, rfl⟩) fun same s₂ _ h₂ => ?_
    obtain ⟨rfl, rfl⟩ := h₂
    by_cases hab : a = b
    · subst hab
      simp only [decide_true, if_true]
      exact yields_pure h hv fun σ hσ => hσ.trans hx.eq_ofInt
    · simp only [hab, decide_false, Bool.false_eq_true, if_false, hroute]
      exact convertPlain_yields hmd hab hx h hv.not_address
  have hrun : convert v b.type env s = convertFrom v a.type b.type env s := by
    show convertFrom v (s.draft.vars.get v).type b.type env s = _
    rw [hv.type_eq]
  exact (yields_congr hrun).2 hconv

end Built

end Lower

/-! ## On the machine -/

/-- The placed draft is a later stage of the draft of a frame. -/
structure Placed.Completes {env : ClassEnv} (P : Placed env) (s : Frame) : Prop where
  vars : s.draft.vars.Grows P.draft.vars
  code : ∃ rest, P.ops = s.draft.ops.toList ++ rest

/-- A machine in the middle of a run: its stack names slots, and constants hold their values. -/
structure Placed.Loaded {env : ClassEnv} (P : Placed env) (m : Host.Machine) : Prop where
  size : m.heap.size = P.program.heap.length
  stack : ∃ vs : List VarRef, (∀ v ∈ vs, v ∈ P.order) ∧ m.stack = vs.map P.index
  constants : ∀ c ∈ P.order, P.draft.vars.kind c = .constant → ∀ x,
    (P.draft.vars.get c).value = some x → m.heap[(P.index c).toNat]? = some x

def Frame.position (s : Frame) : Nat := s.draft.ops.toList.length

namespace Placed.Completes

variable {env : MethodEnv} {P : Placed env.toClassEnv} {s s' : Frame}

lemma sooner {ps : List Piece} (h : P.Completes s') (hc : s.draft.Continues env s'.draft ps) :
    P.Completes s := by
  obtain ⟨rest, hops⟩ := h.code
  refine ⟨hc.vars.trans h.vars, ps.flatMap Piece.ops ++ rest, ?_⟩
  rw [hops, hc.ops, List.append_assoc]

lemma address_position (h : P.Completes s) : P.address s.position = s.draft.codeSize := by
  obtain ⟨rest, hops⟩ := h.code
  exact Placed.address_length hops

lemma position_le (h : P.Completes s) : s.position ≤ P.ops.length := by
  obtain ⟨rest, hops⟩ := h.code
  simp [hops, Frame.position]

lemma pc_eq {σ : Store} {c : Host.Machine.Config} (hP : P.Completes s)
    (h : P.Shows ⟨s.position, σ, stack⟩ c) : c.1 = UInt32.ofNat s.draft.codeSize := by
  apply UInt32.toNat_inj.1
  rw [← hP.address_position, Placed.toNat_address_ofNat]
  exact h.pc

end Placed.Completes

namespace Frame

open Host.Machine

variable {env : MethodEnv} {P : Placed env.toClassEnv} {s s' : Frame} {m : Host.Machine}
  {Q : Store → Prop} {N : VarRef → Prop} {out : VarRef} {y : Value} {σ τ : Store}

/-- The store that a machine shows.  Variables without a slot hold the values of constants. -/
def storeOf (P : Placed env.toClassEnv) (m : Host.Machine) : Store := fun v =>
  if v ∈ P.order then (m.heap[(P.index v).toNat]?).getD .null
  else (P.draft.vars.get v).value.getD .null

lemma storeOf_agrees (h : P.Loaded m) : (storeOf P m).Agrees P.draft.vars := by
  intro v hv hk x hx
  rw [storeOf]
  split_ifs with hmem
  · rw [h.constants v hmem hk x hx, Option.getD_some]
  · rw [hx, Option.getD_some]

lemma shows_storeOf (h : P.Loaded m) {i : Nat} (hi : i ≤ P.ops.length)
    (hs : ∀ v ∈ stack, v ∈ P.order) (hm : m.stack = stack.map P.index) :
    P.Shows ⟨i, storeOf P m, stack⟩ (UInt32.ofNat (P.address i), m) := by
  refine ⟨Placed.toNat_address_ofNat i, hi, hm, hs, h.size, fun v hv => ?_⟩
  have hlt : (P.index v).toNat < m.heap.size := h.size ▸ Placed.index_lt hv
  simp [storeOf, hv, hlt]

lemma shows_behind (hP : P.Completes s) (hm : P.Loaded m) (hs : ∀ v ∈ stack, v ∈ P.order)
    (hstack : m.stack = stack.map P.index) :
    P.Shows ⟨s.position, storeOf P m, stack⟩ (UInt32.ofNat s.draft.codeSize, m) := by
  rw [← hP.address_position]
  exact shows_storeOf hm hP.position_le hs hstack

lemma Leads.moves (h : Leads env P.draft.vars s s' σ τ) (hP : P.Completes s')
    (stack : List VarRef) :
    Relation.ReflTransGen P.Moves ⟨s.position, σ, stack⟩ ⟨s'.position, τ, stack⟩ := by
  obtain ⟨ps, hps, hruns⟩ := h
  obtain ⟨rest, hops⟩ := hP.code
  rw [hps.ops, List.append_assoc] at hops
  have := Placed.moves_of_runs hruns hops stack
  rwa [← hps.ops] at this

/-- **What is recorded is executed.**  The machine follows moves from the code of one frame to that of
another. -/
theorem reaches_of_moves (hP : P.Completes s) (hP' : P.Completes s') (hm : P.Loaded m)
    (h : ∀ stack, Relation.ReflTransGen P.Moves ⟨s.position, storeOf P m, stack⟩
      ⟨s'.position, τ, stack⟩) :
    ∃ m', Reaches P.image (UInt32.ofNat s.draft.codeSize, m)
        (UInt32.ofNat s'.draft.codeSize, m') ∧ m'.stack = m.stack ∧
      ∀ v ∈ P.order, m'.heap[(P.index v).toNat]? = some (τ v) := by
  obtain ⟨stack, hs, hstack⟩ := hm.stack
  obtain ⟨⟨pc, m'⟩, hreach, hshows⟩ :=
    Placed.follow_moves (h stack) (shows_behind hP hm hs hstack)
  obtain rfl : pc = UInt32.ofNat s'.draft.codeSize := hP'.pc_eq hshows
  exact ⟨m', hreach, hshows.stack.trans hstack.symm, hshows.heap⟩

/-- Code that turns stores turns machines. -/
theorem Turns.reaches {ps : List Piece} (h : Turns env Q N s s' out y)
    (hc : s.draft.Continues env s'.draft ps) (hP : P.Completes s') (hm : P.Loaded m)
    (hQ : Q (storeOf P m)) :
    ∃ m', Reaches P.image (UInt32.ofNat s.draft.codeSize, m)
        (UInt32.ofNat s'.draft.codeSize, m') ∧ m'.stack = m.stack ∧
      (out ∈ P.order → m'.heap[(P.index out).toNat]? = some y) := by
  obtain ⟨τ, hleads, hy, -⟩ := h P.draft.vars _ hP.vars (storeOf_agrees hm) hQ
  obtain ⟨m', hreach, hstack, hheap⟩ :=
    reaches_of_moves (hP.sooner hc) hP hm fun stack => hleads.moves hP stack
  exact ⟨m', hreach, hstack, fun hout => hy ▸ hheap out hout⟩

lemma Turns.pushed {K : Variables} {σ : Store} {v : VarRef} {x₀ x₁ y₀ y₁ : Value}
    (h₀ : Turns env (fun σ => σ v = x₀) N s s' out y₀)
    (h₁ : Turns env (fun σ => σ v = x₁) N s s' out y₁) (hy : y₀ ≠ y₁) (hne : out ≠ v)
    (hK : s'.draft.vars.Grows K) (hσ : Store.Agrees K σ) (hv : K.kind v ≠ .constant) :
    .push out ∈ s'.draft.ops.toList := by
  by_contra hpush
  -- otherwise the variable keeps its value whatever the other one holds
  have hkeep {x y : Value} (h : Turns env (fun σ => σ v = x) N s s' out y) : σ out = y := by
    have hagree : Store.Agrees K (Function.update σ v x) := by
      intro c hc hk z hz
      rw [Function.update_of_ne (by rintro rfl; exact hv hk), hσ c hc hk z hz]
    obtain ⟨τ, ⟨ps, hps, hruns⟩, hy, -⟩ := h K _ hK hagree (Function.update_self ..)
    have hsame := hruns.eq_of_not_written (z := out) fun q hq hw => hpush (by
      rw [hps.ops]
      exact List.mem_append_right _ (List.mem_flatMap.2 ⟨q, hq, Piece.push_mem_ops hw⟩))
    rw [← hy, hsame, Function.update_of_ne hne]
  exact hy ((hkeep h₀).symm.trans (hkeep h₁))

end Frame

end FlatHeap
