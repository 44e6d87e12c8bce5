import FlatHeap.Proofs.Rules.Remote

/-!
# Constants

There is one variable for every constant of a program, and all methods share it.  This is sound for
two reasons.  A request for a constant is answered by the first variable of its type and value, and a
table of variables only grows behind the ones it has, so the answer stays the same whatever else is
requested in between (`Variables.constant_later`).  And no code that is recorded for a class writes a
constant.  What an operation writes is the variable that was pushed last before it, so this is a
property of neighbouring operations (`Op.Spares`): it holds for the operations of every piece that a
lowering records, hence for the code of a class after every step of its compilation.
-/

namespace FlatHeap

open Lower FlatHeap.Frame Relation
open Bytecode (Instruction)

/-! ## Requests for variables -/

namespace Variables

variable {vs vs' : Variables} {v w : VarRef} {x y : Value} {t u : TypeRef}

lemma isConst_iff : IsConst vs x t v ↔ vs.Has v ∧
    ((vs.get v).type == t && (vs.get v).constant?.map Value.identity == some x.identity) = true := by
  simp only [IsConst, Variables.kind, Bool.and_eq_true, beq_iff_eq, Variable.constant?]
  by_cases hk : (vs.get v).kind = .constant
  · have hvalue : (vs.get v).value.map Value.identity = some x.identity ↔
        (vs.get v).value = some x :=
      (Option.map_injective Value.identity_injective).eq_iff' rfl
    simp [hk, hvalue]
  · simp [hk]

lemma isConst_grows_iff (g : vs.Grows vs') (hv : vs.Has v) :
    IsConst vs' x t v ↔ IsConst vs x t v := by
  simp only [IsConst, hv, g.has hv, g.kind_eq hv, g.type_eq hv, g.value_eq hv]

lemma findConstant?_eq_some_iff : vs.findConstant? x t = some v ↔
    IsConst vs x t v ∧ ∀ w, w.index < v.index → ¬ IsConst vs x t w := by
  simp only [findConstant?, Option.map_eq_some_iff, Array.findIdx?_eq_some_iff_getElem]
  constructor
  · rintro ⟨i, ⟨hi, hp, hbefore⟩, rfl⟩
    refine ⟨isConst_iff.2 ⟨hi, by simpa [get, hi] using hp⟩, fun w hw hc => hbefore w.index hw ?_⟩
    simpa [get, hw.trans hi] using (isConst_iff.1 hc).2
  · rintro ⟨hc, hbefore⟩
    obtain ⟨hv, hp⟩ := isConst_iff.1 hc
    have hv : v.index < vs.entries.size := hv
    refine ⟨v.index, ⟨hv, by simpa [get, hv] using hp, fun j hj hp => ?_⟩, rfl⟩
    exact hbefore ⟨j⟩ hj (isConst_iff.2 ⟨hj.trans hv, by simpa [get, hj.trans hv] using hp⟩)

lemma not_isConst_of_findConstant? (h : vs.findConstant? x t = none) (v : VarRef) :
    ¬ IsConst vs x t v := by
  intro hc
  obtain ⟨hv, hp⟩ := isConst_iff.1 hc
  simp only [findConstant?, Option.map_eq_none_iff, Array.findIdx?_eq_none_iff] at h
  have hv : v.index < vs.entries.size := hv
  simpa [hp] using h (vs.get v) (by simp [get, hv])

/-- **A request for a constant** is answered by the first variable of its type and value. -/
lemma findConstant?_constant (vs : Variables) (x : Value) (t : TypeRef) :
    vs.Grows (vs.constant x t).2 ∧
      (vs.constant x t).2.findConstant? x t = some (vs.constant x t).1 := by
  unfold constant
  split
  · rename_i v hv
    exact ⟨.refl vs, hv⟩
  · rename_i hnone
    have g := grows_add vs { type := t, kind := .constant, value := some x }
    refine ⟨g, findConstant?_eq_some_iff.2 ⟨⟨has_add_new _ _, ?_, ?_, ?_⟩, fun w hw hc => ?_⟩⟩
    · rw [Variables.kind, get_add_new]
    · rw [get_add_new]
    · rw [get_add_new]
    · exact not_isConst_of_findConstant? hnone w ((isConst_grows_iff g hw).1 hc)

/-- What a table of variables is asked for. -/
inductive Request where
  | add (x : Variable)
  | named (name : String) (type : TypeRef) (kind : VarKind)
  | constant (value : Value) (type : TypeRef)

def Request.perform (vs : Variables) : Request → Variables
  | .add x => (vs.add x).2
  | .named name type kind => (vs.named name type kind).2
  | .constant value type => (vs.constant value type).2

lemma Request.grows (vs : Variables) (r : Request) : vs.Grows (r.perform vs) := by
  cases r with
  | add x => exact grows_add vs x
  | named name type kind => exact (named_spec vs name type kind).1
  | constant value type => exact (findConstant?_constant vs value type).1

end Variables

/-! ## Operations that write -/

/-- A variable that code may write. -/
def Variables.Writable (vs : Variables) (v : VarRef) : Prop :=
  vs.Has v ∧ (vs.get v).isConstant = false

lemma Variables.Writable.grows {vs vs' : Variables} {v : VarRef} (h : vs.Writable v)
    (g : vs.Grows vs') : vs'.Writable v := by
  have hk : (vs'.get v).kind = (vs.get v).kind := g.kind_eq h.1
  refine ⟨g.has h.1, ?_⟩
  rw [Variable.isConstant, hk]
  exact h.2

/-- The operations end by pushing a variable that code may write. -/
def Variables.Offers (vs : Variables) (front : List Op) : Prop :=
  ∃ v, front.getLast? = some (.push v) ∧ vs.Writable v

/-- The operation does not write a constant.  A copy, and an operation of the host that has a result,
write the variable that was pushed last; other operations write nothing. -/
def Op.Spares (env : ClassEnv) (vs : Variables) (front : List Op) : Op → Prop
  | .copy => vs.Offers front
  | .invoke c => vs.Has c ∧ ∃ text, (vs.get c).value = some (.text text) ∧
    (env.IsVoid text ∨ vs.Offers front)
  | _ => True

/-- **The code writes no constant**: none of its operations does, behind those before it. -/
def SparesConstants (env : ClassEnv) (vs : Variables) (ops : List Op) : Prop :=
  ∀ front op back, ops = front ++ op :: back → op.Spares env vs front

section SparesConstants

variable {env : ClassEnv} {vs vs' : Variables} {v : VarRef} {op : Op} {front ops ops' : List Op}

lemma Variables.offers_concat (h : vs.Writable v) (front : List Op) :
    vs.Offers (front ++ [.push v]) :=
  ⟨v, by simp, h⟩

lemma Op.Spares.mono {front' : List Op} (h : op.Spares env vs front) (g : vs.Grows vs')
    (hoffers : vs.Offers front → vs'.Offers front') : op.Spares env vs' front' := by
  cases op with
  | copy => exact hoffers h
  | invoke c =>
    obtain ⟨hc, text, htext, hout⟩ := h
    exact ⟨g.has hc, text, (g.value_eq hc).trans htext, hout.imp_right hoffers⟩
  | _ => trivial

lemma Op.Spares.prepend (h : op.Spares env vs front) (pre : List Op) :
    op.Spares env vs (pre ++ front) := by
  refine h.mono (.refl vs) ?_
  rintro ⟨v, hlast, hv⟩
  exact ⟨v, by simp [List.getLast?_append, hlast], hv⟩

lemma Op.Spares.grows (h : op.Spares env vs front) (g : vs.Grows vs') :
    op.Spares env vs' front := by
  refine h.mono g ?_
  rintro ⟨v, hlast, hv⟩
  exact ⟨v, hlast, hv.grows g⟩

namespace SparesConstants

lemma grows (h : SparesConstants env vs ops) (g : vs.Grows vs') : SparesConstants env vs' ops :=
  fun front op back heq => (h front op back heq).grows g

/-- Operations that write nothing. -/
lemma of_forall (h : ∀ op ∈ ops, ∀ front, op.Spares env vs front) : SparesConstants env vs ops := by
  rintro front op back rfl
  exact h op (by simp) front

lemma append_behind (h : SparesConstants env vs ops)
    (h' : ∀ front op back, ops' = front ++ op :: back → op.Spares env vs (ops ++ front)) :
    SparesConstants env vs (ops ++ ops') := by
  intro front op back heq
  rcases List.append_eq_append_iff.1 heq with ⟨mid, rfl, hback⟩ | ⟨mid, rfl, hback⟩
  · exact h' mid op back hback
  · cases mid with
    | nil => simpa using h' [] op back hback.symm
    | cons x mid =>
      obtain ⟨rfl, -⟩ := List.cons.inj hback
      exact h front op mid rfl

lemma append (h : SparesConstants env vs ops) (h' : SparesConstants env vs ops') :
    SparesConstants env vs (ops ++ ops') :=
  h.append_behind fun front op back heq => (h' front op back heq).prepend ops

lemma concat (h : SparesConstants env vs ops) (hop : op.Spares env vs ops) :
    SparesConstants env vs (ops ++ [op]) := by
  refine h.append_behind fun front op' back heq => ?_
  obtain ⟨rfl, rfl, rfl⟩ : front = [] ∧ op = op' ∧ back = [] := by
    cases front <;> simp_all
  simpa using hop

lemma flatMap {qs : List Piece} (h : ∀ q ∈ qs, SparesConstants env vs q.ops) :
    SparesConstants env vs (qs.flatMap Piece.ops) := by
  induction qs with
  | nil => exact of_forall (by simp)
  | cons q qs ih =>
    obtain ⟨hq, hqs⟩ := List.forall_mem_cons.1 h
    exact hq.append (ih hqs)

end SparesConstants

lemma sparesConstants_ret (h : vs.Writable Draft.returnJump) :
    SparesConstants env vs [.push Draft.returnJump, .copy, .jumpIndirect Draft.returnJump] := by
  have hpush : SparesConstants env vs ([] ++ [.push Draft.returnJump]) :=
    .of_forall (by simp [Op.Spares])
  have hcopy : Op.copy.Spares env vs ([] ++ [.push Draft.returnJump]) :=
    Variables.offers_concat h []
  exact (hpush.concat hcopy).concat trivial

end SparesConstants

/-- **The operations of a piece** write no constant if the piece does not. -/
lemma Piece.sparesConstants {env : MethodEnv} {vs : Variables} {q : Piece} (hq : q.IsInner)
    (hnamed : q.Named env vs) (hwrites : ∀ v ∈ q.writes, vs.Writable v) :
    SparesConstants env.toClassEnv vs q.ops := by
  have hpushes (l : List VarRef) : SparesConstants env.toClassEnv vs (l.map .push) :=
    .of_forall (by simp [Op.Spares])
  cases q with
  | copy x y =>
    have hcopy : Op.copy.Spares env.toClassEnv vs ([.push x] ++ [.push y]) :=
      Variables.offers_concat (hwrites y (by simp [Piece.writes])) [.push x]
    exact (hpushes [x, y]).concat hcopy
  | invoke c inputs output =>
    obtain ⟨hc, -, text, htext, hvoid⟩ := hnamed
    refine ((hpushes inputs).append (hpushes output.toList)).concat ⟨hc, text, htext, ?_⟩
    cases output with
    | none => exact .inl (hvoid rfl)
    | some out => exact .inr (Variables.offers_concat (hwrites out (by simp [Piece.writes])) _)
  | enter | ret => exact hq.elim
  | _ => exact .of_forall (by simp [Piece.ops, Op.Spares])

lemma Frame.Proper.writable {env : MethodEnv} {s s' : Frame} {q : Piece} (h : Proper env s s' q) :
    ∀ v ∈ q.writes, s'.draft.vars.Writable v := by
  intro v hv
  have hkind : s'.draft.vars.Has v ∧ ((s'.draft.vars.get v).kind = .temporary ∨
      Variables.Fixed (s'.draft.vars.get v).kind ∨ (s'.draft.vars.get v).kind = .localSlot) := by
    rcases h.writes v hv with ⟨hhas, htemp⟩ | ⟨hhas, hfixed | ⟨hlocal, -⟩⟩
    · exact ⟨hhas, .inl htemp⟩
    · exact ⟨hhas, .inr (.inl hfixed)⟩
    · exact ⟨hhas, .inr (.inr hlocal)⟩
  refine ⟨hkind.1, ?_⟩
  rw [Variable.isConstant]
  split <;> simp_all [Variables.Fixed]

/-! ## The code of a class -/

/-- The code recorded so far writes no constant, and the slot for return addresses is none. -/
structure Draft.Spared (env : ClassEnv) (d : Draft) : Prop where
  returnJump : d.vars.Writable Draft.returnJump
  code : SparesConstants env d.vars d.ops.toList

namespace Draft

variable {env : ClassEnv} {rules : Rulebook} {d d' : Draft} {ops : List Op} {m : MethodRef}
  {code : List Instruction} {start : Nat} {label : Label} {menv : MethodEnv} {s₀ s : Frame}

lemma Spared.extend (h : d.Spared env) (g : d.vars.Grows d'.vars)
    (hops : d'.ops.toList = d.ops.toList ++ ops) (hnew : SparesConstants env d'.vars ops) :
    d'.Spared env := by
  refine ⟨h.returnJump.grows g, ?_⟩
  rw [hops]
  exact (h.code.grows g).append hnew

lemma Spared.grows (h : d.Spared env) (g : d.vars.Grows d'.vars) (hops : d'.ops = d.ops) :
    d'.Spared env := by
  refine ⟨h.returnJump.grows g, ?_⟩
  rw [hops]
  exact h.code.grows g

lemma Spared.require (h : d.Spared env) (m : MethodRef) : (d.require m).Spared env := by
  unfold Draft.require
  split_ifs
  · exact h
  · exact h.grows (.refl _) rfl

lemma Spared.methodLabel (h : d.Spared env) (m : MethodRef) : (d.methodLabel m).2.Spared env := by
  unfold Draft.methodLabel
  split
  · exact h
  · exact h.grows (.refl _) rfl

lemma Spared.nextMethod (h : d.Spared env) : d.nextMethod.2.Spared env := by
  unfold Draft.nextMethod
  split
  · exact h.grows (.refl _) rfl
  · exact h

lemma Spared.emitAll (h : d.Spared env) (hops : SparesConstants env d.vars ops) :
    (d.emitAll ops).Spared env :=
  h.extend (.refl _) (ops_emitAll d ops) hops

lemma Spared.ret (h : d.Spared env) : d.ret.Spared env := h.emitAll (sparesConstants_ret h.returnJump)

lemma Spared.call (h : d.Spared env) (callee : Label) : (d.call callee).Spared env := by
  refine h.extend (Variables.grows_add _ _) (ops_emitAll _ _) (.of_forall ?_)
  simp [Op.Spares]

lemma Spared.openEntry (h : d.Spared env) (ctor : Option Label) (name : String) :
    (d.openEntry env ctor name).Spared env := by
  have hentry : (d.emitAll [.entry name, .push halt]).Spared env :=
    h.emitAll (.of_forall (by simp [Op.Spares]))
  unfold Draft.openEntry
  dsimp only
  split
  · split_ifs
    · exact hentry.call _
    · exact hentry
  · exact hentry

lemma Spared.addEntry (h : d.Spared env) (ctor : Option Label) (name : String) (m : MethodRef) :
    (d.addEntry env ctor name m).Spared env := by
  rw [addEntry_eq]
  exact (((h.openEntry ctor name).require m).methodLabel m).emitAll (.of_forall (by simp [Op.Spares]))

lemma Lowering.spared (h : Lowering rules env (d.emit (.mark label)) m code start menv s₀ s)
    (hrules : rules.IsStandard) (hd : d.Spared env) :
    (s.draft.emit (.mark menv.returnLabel)).ret.Spared env := by
  obtain ⟨lost, s₁, -, hended, -⟩ := h.ended hrules
  obtain ⟨pieces, hcode, hproper⟩ := hended.landed.code
  have hmark : (d.emit (.mark label)).Spared env := by
    rw [emit_eq]
    exact hd.emitAll (.of_forall (by simp [Op.Spares]))
  -- entering the method makes variables but records nothing
  have hentered : s₀.draft.Spared env := by
    refine hmark.grows h.enters.vars ?_
    rw [h.enters.rest]
  have hpieces : SparesConstants env s.draft.vars (pieces.flatMap Piece.ops) := by
    refine .flatMap fun q hq => ?_
    rw [← h.enters.toClassEnv]
    exact Piece.sparesConstants (hproper q hq).isInner (hcode.legal q hq).named
      (hproper q hq).writable
  have hbody : s.draft.Spared env := hentered.extend hcode.vars hcode.ops hpieces
  rw [emit_eq]
  exact (hbody.emitAll (.of_forall (by simp [Op.Spares]))).ret

end Draft

namespace ClassEnv

variable {env : ClassEnv} {rules : Rulebook} {d d' : Draft}

/-- **One step** of a compilation records no write of a constant. -/
lemma Step.spared (h : env.Step rules d d') (hd : d.Sound) (hrules : rules.IsStandard)
    (hfits : env.naming.Fits env.md) (hs : d.Spared env) : d'.Spared env := by
  cases h with
  | label m => exact hs.methodLabel m
  | entry ctor name m => exact hs.addEntry ctor name m
  | next => exact hs.nextMethod
  | lower body made lowered =>
    obtain ⟨menv, s₀, s, hlowering, rfl⟩ := Draft.lowerBody_ok lowered hd made body.portion hfits
    exact hlowering.spared hrules hs
  | startEvent ctor => exact ((hs.openEntry none env.options.startEvent).call ctor).ret

/-- **Whatever a compilation comes to** has no write of a constant. -/
lemma ComesTo.spared (h : env.ComesTo rules d) : d.Spared env := by
  have hrules := h.isStandard
  have hfits := h.fits
  obtain ⟨-, -, init, d₀, hfields, hsteps⟩ := h
  have hstart : (Draft.start env.owner).Spared env :=
    ⟨⟨show 1 < 3 by decide, rfl⟩, .of_forall (by simp [Draft.start])⟩
  have h₀ : d₀.Spared env := by
    obtain ⟨hgrows, hrest⟩ := Draft.declareFields_spec hfields
    refine hstart.grows hgrows ?_
    rw [hrest]
    rfl
  induction hsteps with
  | refl => exact h₀
  | tail hsteps step ih =>
    have hsound := (steps_sound hsteps (Draft.sound_declareFields hfields) hrules hfits).1
    exact step.spared hsound hrules hfits ih

end ClassEnv

namespace Compiler

end Compiler

end FlatHeap
