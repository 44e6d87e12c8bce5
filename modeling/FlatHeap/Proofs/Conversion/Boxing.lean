import FlatHeap.Proofs.Rules.Stores

/-!
# Boxes

The host holds every value boxed.  So a scalar goes into a variable of the object type by a copy, and an
integer comes out of it by a copy again: what is taken out is what was put in.

A truth value does not come back.  In the order in which the ways of conversion are tried, a reference
becomes a truth value before it becomes anything else, by a comparison with null, and what is in the box
is not null.  So a truth value comes out true, whatever was put in.
-/

namespace FlatHeap

open Lower FlatHeap.Frame Host.Machine Relation
open Bytecode (Instruction Opcode)

/-! ## The object type -/

namespace Metadata

variable {md : Metadata} {a : Scalar} {x : Value} {i : Int} (hmd : md.Built)
include hmd

lemma Built.kind_object : md.kind .object = .object :=
  (hmd.extendsEmpty.same .object (by decide)).1

lemma Built.hostIdent_object (behaviour : String) :
    md.hostIdent behaviour .object = "SystemObject" := by
  have hname : (md.type .object).hostName = some "System.Object" :=
    (hmd.extendsEmpty.same .object (by decide)).2
  have hplain : (md.type .object).plainIdent = "SystemObject" := by
    rw [TypeDecl.plainIdent, hname, Option.getD_some]
    decide
  have hkind : (md.type .object).kind = .object := hmd.kind_object
  rw [hostIdent, hkind]
  exact hplain

lemma Built.isReference_object : md.isReference .object = true := by
  simp [isReference, hmd.kind_object]

lemma Built.foldConversion?_box (hx : a.Means x i) : md.foldConversion? x a.type .object = some x := by
  have hnumber : md.foldNumber? x a.type .object = some x := by
    rw [foldNumber?, if_pos (.inr hmd.kind_object)]
  unfold foldConversion?
  cases a with
  | boolean =>
    obtain ⟨b, rfl, -⟩ := hx
    exact hnumber
  | int k =>
    obtain ⟨w, rfl, -⟩ := hx
    cases k <;> exact hnumber

lemma Built.foldConversion?_unbox (hx : a.Means x i) :
    md.foldConversion? x .object a.type = some x := by
  have hne : TypeRef.object ≠ a.type := by
    cases a with
    | boolean => decide
    | int k => cases k <;> decide
  have hnumber : md.foldNumber? x .object a.type = some x := by
    rw [Scalar.foldNumber?_type hmd hx.integer? hne, ← hx.eq_ofInt]
  unfold foldConversion?
  rw [if_neg hne]
  cases a with
  | boolean =>
    obtain ⟨b, rfl, -⟩ := hx
    exact hnumber
  | int k =>
    obtain ⟨w, rfl, -⟩ := hx
    exact hnumber

end Metadata

lemma fits_object (x : Value) : fits x "SystemObject" = true := by
  unfold fits
  split
  · simp
  · decide

lemma Scalar.Means.fits {a : Scalar} {x : Value} {i : Int} (h : a.Means x i) :
    fits x a.hostType = true := by
  cases a with
  | boolean =>
    obtain ⟨b, rfl, -⟩ := h
    rfl
  | int k =>
    obtain ⟨w, rfl, -⟩ := h
    simp [Host.Machine.fits, hostTypeOf?, hostType]

/-- What comes out of a box that a scalar was put into. -/
def Scalar.unboxed : Scalar → Value → Value
  | .boolean, _ => .bool true
  | .int _, x => x

/-! ## Conversions -/

namespace Lower

variable {env : MethodEnv} {s s' : Frame} {held kept : List VarRef} {v : VarRef} {a : Scalar}
  {x : Value} {i : Int} {source target : TypeRef}

lemma convert_plain (hc : (s.draft.vars.get v).constant? = none)
    (htype : (s.draft.vars.get v).type = source)
    (hsame : sameOnHost source target env s = .ok false s)
    (hroute : route env.md source target = .plain) :
    convert v target env s = convertPlain v source target env s := by
  show convertFrom v (s.draft.vars.get v).type target env s = _
  rw [htype, convertFrom]
  show (foldConstant? v source target >>= _) env s = _
  rw [bind_ok (foldConstant?_run hc)]
  show (sameOnHost source target >>= _) env s = _
  rw [bind_ok hsame, hroute]
  rfl

lemma freshCopy_yields (t : TypeRef) (h : s.Balanced env (v :: held) kept)
    (hv : (s.draft.vars.get v).isAddress = false) (hfit : fits x (env.ident t) = true) :
    Yields env (fun σ => σ v = x) (do
      let out ← temp t
      copy v out
      pure out) s held kept t x := by
  refine (freshCopy_meets t h (by simp [hv])).mono fun out s' _ hs => ?_
  obtain ⟨htaken, -⟩ := hs
  refine ⟨htaken.brings.1, htaken.fresh.isOf, fun K σ hK _ hσ => ?_⟩
  obtain ⟨ps, hps, ⟨τ, hr, hτ, hkeep⟩ | ⟨hbad, -⟩⟩ := fares_taken (σ := σ) htaken hK
  · refine ⟨τ, ⟨ps, hps, hr⟩, hτ.trans hσ, fun z hz => hkeep.needed z ?_, hkeep.lasting⟩
    exact hz.mono (by simp +contextual)
  · rw [hσ, hfit] at hbad
    cases hbad

lemma evaluate_nonNull (hx : x ≠ .null) :
    Host.evaluate "op_Inequality" [x, .null] "SystemBoolean" = .ok (.bool true) := by
  have hequal : Host.equal x .null = (x == .null) := by
    unfold Host.equal
    split
    · rename_i h
      cases h
    · split
      · rename_i h
        cases h
      · rfl
  have hm : Host.isConversion "op_Inequality" = false := by decide
  simp [Host.evaluate, hm, Host.evaluateBinary, hequal, hx]

lemma nonNull_yields (h : s.Balanced env (v :: held) kept)
    (hv : (s.draft.vars.get v).isAddress = false) (hx : x ≠ .null) :
    Yields env (fun σ => σ v = x) (nonNull v) s held kept .boolean (.bool true) := by
  refine (nonNull_meets h (by simp [hv])).mono fun out s' _ hs => ?_
  obtain ⟨hb, hfresh, -, x, c, rfl, hc, hinv⟩ := hs
  have hparse : Host.Signature.parse?
      (Host.Signature.binary "SystemObject" "op_Inequality" "SystemBoolean") =
        some ⟨"op_Inequality", 2, "SystemBoolean"⟩ := by
    decide
  refine ⟨hb, hfresh.isOf,
    turns_invoke hinv hfresh.isTemp (fun z hz => hfresh.ne z (hz.mono (by simp +contextual)))
      hparse rfl (by decide) fun K σ hK ha hσ => ?_⟩
  simp only [List.map_cons, List.map_nil, hσ, ha.const (hc.grows hK)]
  exact evaluate_nonNull hx

/-! ### In and out of boxes -/

lemma hostType_ne_object (a : Scalar) : a.hostType ≠ "SystemObject" := by
  cases a with
  | boolean => decide
  | int k => cases k <;> decide

section Built

variable (hmd : env.md.Built)
include hmd

lemma ident_object : env.ident .object = "SystemObject" := hmd.hostIdent_object _

lemma sameOnHost_box (a : Scalar) : sameOnHost a.type .object env s = .ok false s := by
  have htype : a.type ≠ .object := by
    intro heq
    have hk := Scalar.kind_type hmd a
    rw [heq, hmd.kind_object] at hk
    cases a <;> cases hk
  show EStateM.Result.ok (a.type == .object || env.ident a.type == env.ident .object ||
    (env.md.isReference a.type && env.md.isReference .object && env.md.assignable a.type .object)) s = _
  rw [Scalar.isReference_type hmd, ident_scalar hmd, ident_object hmd]
  simp [htype, hostType_ne_object]

lemma sameOnHost_unbox (a : Scalar) : sameOnHost .object a.type env s = .ok false s := by
  have htype : .object ≠ a.type := by
    intro heq
    have hk := Scalar.kind_type hmd a
    rw [← heq, hmd.kind_object] at hk
    cases a <;> cases hk
  show EStateM.Result.ok (.object == a.type || env.ident .object == env.ident a.type ||
    (env.md.isReference .object && env.md.isReference a.type && env.md.assignable .object a.type)) s = _
  rw [Scalar.isReference_type hmd, ident_scalar hmd, ident_object hmd]
  simp [htype, (hostType_ne_object a).symm]

lemma underlying?_object : env.md.underlying? .object = none := by
  simp [Metadata.underlying?, hmd.kind_object]

lemma nullableInner?_object : env.md.nullableInner? .object = none := by
  simp [Metadata.nullableInner?, hmd.kind_object]

lemma intFormat?_object : env.md.intFormat? .object = none := by
  simp [Metadata.intFormat?, hmd.kind_object]

lemma conversionName?_object : env.md.conversionName? .object = none := by
  simp [Metadata.conversionName?, hmd.kind_object]

lemma route_box (a : Scalar) : route env.md a.type .object = .plain := by
  simp only [route, optionalRoute, Scalar.underlying?_type hmd, Scalar.nullableInner?_type hmd,
    underlying?_object hmd, nullableInner?_object hmd]

lemma route_unbox (a : Scalar) : route env.md .object a.type = .plain := by
  simp only [route, optionalRoute, Scalar.underlying?_type hmd, Scalar.nullableInner?_type hmd,
    underlying?_object hmd, nullableInner?_object hmd]

lemma byHost?_copy_yields {m : Lower VarRef} (h : s.Balanced env (v :: held) kept)
    (hv : (s.draft.vars.get v).isAddress = false) (hkind : env.md.kind target ≠ .string)
    (hobject : source = .object ∨ target = .object) (hfit : fits x (env.ident target) = true) :
    Yields env (fun σ => σ v = x) (orTry (byHost? v source target) m) s held kept target x := by
  have hnamed : ¬((env.md.conversionName? source).isSome = true ∧
      (env.md.conversionName? target).isSome = true) := by
    rcases hobject with rfl | rfl <;> simp [conversionName?_object hmd]
  have href : env.md.isReference source = true ∨ env.md.isReference target = true := by
    rcases hobject with rfl | rfl <;> simp [hmd.isReference_object]
  have hrun : byHost? v source target env s = (some <$> (do
      let out ← temp target
      copy v out
      pure out : Lower VarRef)) env s := by
    show (if env.md.kind target = .string ∧ !(env.md.conversionName? source).isSome then _ else if _ then
      _ else if _ then _ else _ : Lower (Option VarRef)) env s = _
    rw [if_neg (by simp [hkind]), if_neg hnamed, if_pos href]
    simp only [map_bind, map_pure]
  exact yields_orTry_some _ hrun (freshCopy_yields target h hv hfit)

/-- **Putting a scalar into a box.** -/
lemma convert_box_yields (h : s.Balanced env (v :: held) kept) (hv : IsOf s v a.type)
    (hc : (s.draft.vars.get v).constant? = none) :
    Yields env (fun σ => σ v = x) (convert v .object) s held kept .object x := by
  have hinteger : toInteger? v a.type .object env s = .ok none s := by
    rw [toInteger?, metadata_bind, intFormat?_object hmd]
    rfl
  rw [yields_congr (convert_plain hc hv.type_eq (sameOnHost_box hmd a) (route_box hmd a)),
    convertPlain_eq]
  show Yields env _ (orTry (if env.md.kind .object = .boolean then toBoolean? v a.type else pure none)
    (orTry (toInteger? v a.type .object) (orTry (byHost? v a.type .object)
      (refuse (.noConversion (env.md.typeName a.type) (env.md.typeName .object)))))) s held kept
      .object x
  rw [if_neg (by simp [hmd.kind_object])]
  refine yields_orTry_none rfl (yields_orTry_none hinteger ?_)
  exact byHost?_copy_yields hmd h hv.not_address (by simp [hmd.kind_object]) (.inr rfl)
    (by rw [ident_object hmd]; exact fits_object x)

/-- **Taking a scalar out of a box.** -/
lemma convert_unbox_yields (h : s.Balanced env (v :: held) kept) (hv : IsOf s v .object)
    (hc : (s.draft.vars.get v).constant? = none) (hx : a.Means x i) :
    Yields env (fun σ => σ v = x) (convert v a.type) s held kept a.type (a.unboxed x) := by
  rw [yields_congr (convert_plain hc hv.type_eq (sameOnHost_unbox hmd a) (route_unbox hmd a)),
    convertPlain_eq]
  show Yields env _ (orTry (if env.md.kind a.type = .boolean then toBoolean? v .object else pure none)
    (orTry (toInteger? v .object a.type) (orTry (byHost? v .object a.type)
      (refuse (.noConversion (env.md.typeName .object) (env.md.typeName a.type)))))) s held kept
      a.type (a.unboxed x)
  have hkind := Scalar.kind_type hmd a
  have hfloat : env.md.isFloat .object = false := by simp [Metadata.isFloat, hmd.kind_object]
  rw [hkind]
  cases a with
  | boolean =>
    have hrun : toBoolean? v .object env s = (some <$> nonNull v) env s := by
      rw [toBoolean?, metadata_bind, intFormat?_object hmd]
      simp only [hfloat, hmd.isReference_object, Bool.false_eq_true, if_false, if_true]
    have hnull : x ≠ .null := by
      obtain ⟨b, rfl, -⟩ := hx
      simp
    rw [if_pos (show Scalar.boolean.kind = .boolean from rfl)]
    exact yields_orTry_some _ hrun (nonNull_yields h hv.not_address hnull)
  | int k =>
    have hinteger : toInteger? v .object (Scalar.int k).type env s = .ok none s := by
      have hformat : env.md.intFormat? (Scalar.int k).type = some k.format :=
        Scalar.intFormat?_int hmd k
      rw [toInteger?, metadata_bind, hformat, intFormat?_object hmd]
      simp only [hfloat, Bool.false_eq_true, if_false]
      rfl
    rw [if_neg (by simp [Scalar.kind])]
    refine yields_orTry_none rfl (yields_orTry_none hinteger ?_)
    refine byHost?_copy_yields hmd h hv.not_address (by simp [hkind, Scalar.kind]) (.inl rfl) ?_
    rw [ident_scalar hmd]
    exact hx.fits

end Built

end Lower

namespace Rules

variable {env : MethodEnv} {s s₁ s₂ s' : Frame} {v slot : VarRef} {x : Value}

/-! ## Casts -/

lemma casts_run {i : Instruction} {t : TypeRef} {rest : List VarRef} (hop : i.opcode ≠ .isinst)
    (operand : i.operand = .type t) (hs : s.stack = v :: rest)
    (run : casts.build i env s = .ok true s') :
    ∃ out s₁, convert v t env { s with stack := rest } = .ok out s₁ ∧
      s' = { s₁ with stack := out :: s₁.stack } := by
  have htype : i.type env s = .ok t s := by
    rw [Instruction.type, operand]
    rfl
  rw [casts] at run
  dsimp only at run
  rw [bind_ok htype, bind_ok (popStack_cons hs), if_neg hop] at run
  obtain ⟨out, s₁, hconv, hrest⟩ := ok_of_bind run
  exact ⟨out, s₁, hconv, (EStateM.Result.ok.inj hrest).2.symm⟩

/-- **A value is cast and stored**: a cast is up while a variable is on top of the operand stack, and
the instruction behind it stores the result into a slot.  The variable is neither a constant nor an
address. -/
structure CastStored (env : ClassEnv) (rules : Rulebook) (menv : MethodEnv) (op : Opcode)
    (t : TypeRef) (v slot : VarRef) (s s' : Frame) : Prop where
  top : ∃ rest, s.stack = v :: rest
  value : (s.draft.vars.get v).isAddress = false
  varies : (s.draft.vars.get v).constant? = none
  lowered : ∃ i u, env.IsUp rules menv i s ∧ i.opcode = op ∧ i.operand = .type t ∧
    casts.build i menv s = .ok true u ∧ Stores menv slot u s'

namespace CastStored

variable {env : ClassEnv} {rules : Rulebook} {menv : MethodEnv} {s s' : Frame} {v slot : VarRef}
  {a : Scalar} {x : Value} {i : Int} (hmd : menv.md.Built)
include hmd

lemma lands_box (h : CastStored env rules menv .box a.type v slot s s')
    (hv : (s.draft.vars.get v).type = a.type) (hslot : (s'.draft.vars.get slot).type = .object) :
    Lands menv s s' v x slot x := by
  obtain ⟨⟨rest, hs⟩, hvalue, hvaries, i, u, hup, hop, operand, hcast, hstores⟩ := h
  obtain ⟨-, lost, hb⟩ := hup.site
  obtain ⟨out, s₁, hconv, rfl⟩ := casts_run (by simp [hop]) operand hs hcast
  -- the cast does nothing: the variable is of the type already
  have hself : convert v a.type menv { s with stack := rest } = .ok v { s with stack := rest } :=
    convert_self hvaries hv
  obtain ⟨rfl, rfl⟩ := EStateM.Result.ok.inj (hself.symm.trans hconv)
  have hsame : ({ s with stack := v :: rest } : Frame) = s := by rw [← hs]
  rw [hsame] at hstores
  obtain ⟨s₁, hputs⟩ := hstores.puts hb hs
  have hof : IsOf s v a.type := ⟨(hb.usable v (by simp [hs])).1, hvalue, hv⟩
  have g := hputs.code.vars
  have hvaries₁ : (s₁.draft.vars.get v).constant? = none :=
    (g.constant?_eq hof.has).trans hvaries
  exact hputs.lands hslot (convert_box_yields hmd hputs.balanced (hof.grows g) hvaries₁)
    (by rw [ident_object hmd]; exact fits_object x)

lemma lands_unbox (h : CastStored env rules menv .unboxAny a.type v slot s s')
    (hv : (s.draft.vars.get v).type = .object) (hslot : (s'.draft.vars.get slot).type = a.type)
    (hx : a.Means x i) : Lands menv s s' v x slot (a.unboxed x) := by
  obtain ⟨⟨rest, hs⟩, hvalue, hvaries, j, u, hup, hop, operand, hcast, hstores⟩ := h
  obtain ⟨-, lost, hb⟩ := hup.site
  obtain ⟨i', hy⟩ : ∃ i', a.Means (a.unboxed x) i' := by
    cases a with
    | boolean => exact ⟨1, true, rfl, rfl⟩
    | int k => exact ⟨i, hx⟩
  have hof : IsOf s v .object := ⟨(hb.usable v (by simp [hs])).1, hvalue, hv⟩
  obtain ⟨out, s₁, hconv, rfl⟩ := casts_run (by simp [hop]) operand hs hcast
  rw [hs] at hb
  obtain ⟨hworks, hb₁, hout, hturn⟩ := Meets.ok (convert_unbox_yields hmd
    (balanced_restack hb rest) ⟨hof.has, hof.not_address, hof.type_eq⟩ hvaries hx) hconv
  have hstack₁ : s₁.stack = rest := hworks.stack_eq
  have hb₂ : ({ s₁ with stack := out :: s₁.stack } : Frame).Balanced menv
      ((out :: s₁.stack) ++ lost) [] := by
    rw [hstack₁]
    exact balanced_restack hb₁ _
  obtain ⟨s₂, hputs⟩ := hstores.puts hb₂ rfl
  have hyields := convert_yields hmd hputs.balanced (hout.grows hputs.code.vars) hy (b := a)
  rw [← hy.eq_ofInt] at hyields
  have hfit : fits (a.unboxed x) (menv.ident a.type) = true := by
    rw [ident_scalar hmd]
    exact hy.fits
  have hlands := hturn.lands hout hfit (hputs.lands hslot hyields hfit) rfl
    (fun r hr => by simpa [hstack₁] using hr) (hputs.code.vars.trans hputs.grows)
  -- the frame in which the variable is off the operand stack has the same code
  intro K σ hK ha hunfit
  exact hlands K σ hK ha fun ⟨r, hr, hbad⟩ => hunfit ⟨r, by rw [hs]; exact List.mem_cons_of_mem v hr, hbad⟩

end CastStored

end Rules

/-- **Values in boxes.**  Let a variable of a scalar type be boxed and stored into a slot of the object
type, and let a variable of the object type be unboxed and stored into a slot of the scalar type,
anywhere in methods of classes that are compiled by the standard rules.  In every program that contains
the code, from every state of the machine in the middle of a run in which the slots on the operand stack
hold values of their types, a value that is put into the box is in the slot of the object type
afterwards, and taking it out gives the same value if it is an integer.  If it is a truth value, taking
it out gives true.  Constants keep their values either way. -/
theorem boxes_keep_integers {env env' : ClassEnv} {rules rules' : Rulebook} {menv menv' : MethodEnv}
    {s s' t t' : Frame} {v box w slot : VarRef} {a : Scalar} (hmd : menv.md.Built)
    (hmd' : menv'.md.Built) (hin : Rules.CastStored env rules menv .box a.type v box s s')
    (hv : (s.draft.vars.get v).type = a.type) (hbox : (s'.draft.vars.get box).type = .object)
    (hout : Rules.CastStored env' rules' menv' .unboxAny a.type w slot t t')
    (hw : (t.draft.vars.get w).type = .object) (hslot : (t'.draft.vars.get slot).type = a.type)
    {x : Value} {i : Int} (hx : a.Means x i) :
    LandsOnMachine menv s s' v x box x ∧ LandsOnMachine menv' t t' w x slot (a.unboxed x) ∧
      (∀ k, a = .int k → a.unboxed x = x) ∧
      menv.md.foldConversion? x a.type .object = some x ∧
      menv.md.foldConversion? x .object a.type = some x := by
  refine ⟨(hin.lands_box hmd hv hbox).onMachine, (hout.lands_unbox hmd' hw hslot hx).onMachine, ?_,
    hmd.foldConversion?_box hx, hmd.foldConversion?_unbox hx⟩
  rintro k rfl
  rfl

/-! ## A box and what is taken out of it -/

/-- A method that puts its first local into a box, the second, and takes it out into the third. -/
def boxing : MethodBody :=
  { locals := [.int32, .object, .int32]
    code := [0x06, 0x8c, 0x08, 0, 0, 0x02, 0x0b, 0x07, 0xa5, 0x08, 0, 0, 0x02, 0x0c, 0x2a] }

def boxingCode : List Instruction :=
  [⟨0, .ldloc0, .localIndex 0⟩, ⟨1, .box, .type .int32⟩, ⟨6, .stloc1, .localIndex 1⟩,
    ⟨7, .ldloc1, .localIndex 1⟩, ⟨8, .unboxAny, .type .int32⟩, ⟨13, .stloc2, .localIndex 2⟩,
    ⟨14, .ret, .none⟩]

lemma hasBody_boxing : (soloClass boxing).HasBody ⟨0⟩ boxingCode 0 := by
  apply ClassEnv.HasBody.method
  decide +kernel

lemma castStored_boxing (n k : Nat) (i : Instruction) (v slot : VarRef) (t u : TypeRef)
    (hoperand : i.operand = .type .int32)
    (hrun : ((Frame.enter (soloClass boxing) (soloDraft.emit (.mark ⟨0⟩)) ⟨0⟩
      boxingCode.toArray 0).toOption.any fun r =>
        (advance .standard r.1 n r.2).any fun s =>
          r.1.nextLive? s.cursor = some n ∧ r.1.code[n]? = some i ∧ r.1.locals[k]? = some slot ∧
          ((beginInstruction i.offset).outcome? r.1 (s.taking n)).any fun s =>
            s.2.stack = [v] ∧ (s.2.draft.vars.get v).isAddress = false ∧
            (s.2.draft.vars.get v).constant? = none ∧ (s.2.draft.vars.get v).type = t ∧
            ((Rules.casts.build i).outcome? r.1 s.2).any fun c => c.1 = true ∧
              ((Rules.storeLocal.build ⟨0, .stloc, .localIndex k⟩).outcome? r.1 c.2).any fun s' =>
                s'.1 = true ∧ (s'.2.draft.vars.get slot).type = u) = true) :
    ∃ menv s s', menv.toClassEnv = soloClass boxing ∧
      Rules.CastStored (soloClass boxing) .standard menv i.opcode .int32 v slot s s' ∧
      (s.draft.vars.get v).type = t ∧ (s'.draft.vars.get slot).type = u := by
  obtain ⟨⟨menv, s₀⟩, henter, hrun⟩ := (Option.any_eq_true _ _).1 hrun
  obtain ⟨s₁, hs, hrun⟩ := (Option.any_eq_true _ _).1 hrun
  obtain ⟨hnext, hinst, hnames, hrun⟩ := of_decide_eq_true hrun
  obtain ⟨⟨_, s⟩, hbegun, hrun⟩ := (Option.any_eq_true _ _).1 hrun
  obtain ⟨hstack, hvalue, hvaries, hv, hrun⟩ := of_decide_eq_true hrun
  obtain ⟨⟨claimed, c⟩, hcast, hrun⟩ := (Option.any_eq_true _ _).1 hrun
  obtain ⟨rfl, hrun⟩ := of_decide_eq_true hrun
  obtain ⟨⟨claimed, s'⟩, hstore, hrun⟩ := (Option.any_eq_true _ _).1 hrun
  obtain ⟨rfl, hslot⟩ := of_decide_eq_true hrun
  obtain ⟨lost, hcourse⟩ := Course.start.advance hs
  have henter := ok_of_toOption henter
  have hsound := (comesTo_solo boxing).sound.mark (l := ⟨0⟩) Nat.one_pos
  have hup : (soloClass boxing).IsUp .standard menv i s :=
    ⟨comesTo_solo boxing, hasBody_boxing, by decide, Nat.one_pos, henter, hcourse, hnext, hinst,
      ok_of_outcome? hbegun⟩
  exact ⟨menv, s, s', (enters_of_enter hsound henter).toClassEnv, ⟨⟨[], hstack⟩, hvalue, hvaries, i, c,
    hup, rfl, hoperand, ok_of_outcome? hcast, .localSlot rfl hnames (ok_of_outcome? hstore)⟩, hv, hslot⟩

/-- The number in the first local of `boxing` goes through the box into the third. -/
theorem boxes_keep_integers_boxing : ∃ menv menv' s s' t t',
    Rules.CastStored (soloClass boxing) .standard menv .box .int32 ⟨3⟩ ⟨4⟩ s s' ∧
      Rules.CastStored (soloClass boxing) .standard menv' .unboxAny .int32 ⟨4⟩ ⟨5⟩ t t' ∧
      ∀ w, LandsOnMachine menv s s' ⟨3⟩ (.int .int32 w) ⟨4⟩ (.int .int32 w) ∧
        LandsOnMachine menv' t t' ⟨4⟩ (.int .int32 w) ⟨5⟩ (.int .int32 w) := by
  obtain ⟨menv, s, s', hmenv, hin, hv, hbox⟩ := castStored_boxing 1 1
    ⟨1, .box, .type .int32⟩ ⟨3⟩ ⟨4⟩ .int32 .object rfl (by decide +kernel)
  obtain ⟨menv', t, t', hmenv', hout, hw, hslot⟩ := castStored_boxing 4 2
    ⟨8, .unboxAny, .type .int32⟩ ⟨4⟩ ⟨5⟩ .object .int32 rfl (by decide +kernel)
  have hbuilt : (soloClass boxing).md.Built :=
    .setBody _ _ (.addMethod _ _ (.arrayOf _ (.addType _ .empty)))
  refine ⟨menv, menv', s, s', t, t', hin, hout, fun w => ?_⟩
  have hkeep := boxes_keep_integers (a := .int .int32) (hmenv ▸ hbuilt) (hmenv' ▸ hbuilt) hin hv hbox
    hout hw hslot (x := .int .int32 w) ⟨w, rfl, rfl⟩
  exact ⟨hkeep.1, hkeep.2.1⟩

/-- A class whose method puts a field into a box and takes it out into another one. -/
def reboxing : Metadata :=
  let md := (Metadata.addType {} (.user "Game.Door" .classType)).2
  let md := (md.addField ⟨16⟩ { name := "b", type := .boolean }).2
  let md := (md.addField ⟨16⟩ { name := "r", type := .boolean }).2
  let md := (md.addMethod ⟨16⟩ { name := "M", result := .void, flags := { exported := true } }).2
  md.setBody ⟨0⟩
    { locals := [.object]
      code := [0x02, 0x7b, 0x01, 0, 0, 0x04, 0x8c, 0x02, 0, 0, 0x02, 0x0a, 0x02, 0x06,
        0xa5, 0x02, 0, 0, 0x02, 0x7d, 0x02, 0, 0, 0x04, 0x2a] }

/-- **A truth value does not come back.**  The method of `reboxing` halts, and what it has taken out of
the box is true although it has put in false. -/
theorem boxed_false_comes_out_true : ∃ p,
    ((Compiler.new {}).compile reboxing ⟨16⟩).1 = .ok p ∧
      p.outcome "M" ["b", "r"] = (true, [some (.bool false), some (.bool true)]) := by
  have hrun : ((Compiler.new {}).compile reboxing ⟨16⟩).1.toOption.map (·.outcome "M" ["b", "r"]) =
      some (true, [some (.bool false), some (.bool true)]) := by
    decide +kernel
  obtain ⟨p, hp, hends⟩ := Option.map_eq_some_iff.1 hrun
  exact ⟨p, ok_of_toOption hp, hends⟩

end FlatHeap
