import FlatHeap.Proofs.Rules.Methods

/-!
# Whole classes

The draft of a class grows in steps: labels and entry points are made, requested methods are taken up,
and bodies are lowered.  Each step keeps the draft sound and only extends it, so both hold along the
whole compilation (`ClassEnv.Step`).  In particular every method is lowered into a sound draft, and the
program of the class contains the code of every method that was lowered on the way.
-/

namespace FlatHeap

open Lower FlatHeap.Frame Relation
open Bytecode (Instruction)

namespace ClassEnv

/-- Code that is lowered for a method, with the position where it starts: the body of a method, or
what remains of the constructor. -/
inductive HasBody (env : ClassEnv) : MethodRef → List Instruction → Nat → Prop
  | method {m : MethodRef} {code : List Instruction} (read : Draft.readBody env.md m = .ok code) :
    HasBody env m code 0
  | ctor {init : Initializer} {r : Remainder}
    (made : Initializer.ofClass env.md env.naming env.owner = .ok init)
    (left : init.remainder? = some r) : HasBody env r.ctor r.code r.start

inductive Step (env : ClassEnv) (rules : Rulebook) : Draft → Draft → Prop
  | label {d : Draft} (m : MethodRef) : Step env rules d (d.methodLabel m).2
  | entry {d : Draft} (ctor : Option Label) (name : String) (m : MethodRef) :
    Step env rules d (d.addEntry env ctor name m)
  | next {d : Draft} : Step env rules d d.nextMethod.2
  | lower {d d' : Draft} {m : MethodRef} {code : List Instruction} {start : Nat} {label : Label}
    (body : env.HasBody m code start) (made : label.index < d.labelCount)
    (lowered : d.lowerBody rules env m code start label = .ok d') : Step env rules d d'
  | startEvent {d : Draft} (ctor : Label) : Step env rules d (d.addStart env ctor)

variable {env : ClassEnv} {rules : Rulebook} {d d' d₀ : Draft} {m : MethodRef}
  {code : List Instruction} {start : Nat}

lemma HasBody.portion (h : env.HasBody m code start) : Bytecode.Portion code start := by
  cases h with
  | method read =>
    unfold Draft.readBody at read
    split at read
    · cases read
    · exact (Bytecode.wellFormed_of_decode (mapError_eq_ok_iff.1 read)).portion
  | ctor made left => exact (Initializer.remainder_spec made left).1

/-- **One step** keeps a draft sound and extends it. -/
lemma Step.sound (h : env.Step rules d d') (hd : d.Sound) (hrules : rules.IsStandard)
    (hfits : env.naming.Fits env.md) : d'.Sound ∧ d.Extends d' := by
  cases h with
  | label m => exact ⟨(hd.methodLabel m).1, (hd.methodLabel m).2.1⟩
  | entry ctor name m => exact hd.addEntry env ctor name m
  | next => exact hd.nextMethod
  | lower body made lowered =>
    obtain ⟨menv, s₀, s, hlowering, rfl⟩ :=
      Draft.lowerBody_ok lowered hd made body.portion hfits
    obtain ⟨hsound, hextends⟩ := hlowering.sound hrules
    refine ⟨hsound, Draft.Extends.trans ?_ hextends⟩
    rw [Draft.emit_eq]
    exact Draft.extends_emitAll d _
  | startEvent ctor => exact hd.addStart env ctor

/-- **Steps** keep a draft sound and extend it. -/
lemma steps_sound (h : ReflTransGen (env.Step rules) d d') (hd : d.Sound) (hrules : rules.IsStandard)
    (hfits : env.naming.Fits env.md) : d'.Sound ∧ d.Extends d' := by
  induction h with
  | refl => exact ⟨hd, .refl d⟩
  | tail _ step ih =>
    obtain ⟨hsound, hextends⟩ := step.sound ih.1 hrules hfits
    exact ⟨hsound, ih.2.trans hextends⟩

/-- The compilation of a class by the standard rules comes to a draft. -/
structure ComesTo (env : ClassEnv) (rules : Rulebook) (d : Draft) : Prop where
  named : Naming.ofClass env.md env.options env.owner = .ok env.naming
  entered : Rulebook.standard.addClassRules env.md env.naming env.options = .ok rules
  steps : ∃ init d₀, (Draft.start env.owner).declareFields env init = .ok d₀ ∧
    ReflTransGen (env.Step rules) d₀ d

namespace ComesTo

lemma fits (h : env.ComesTo rules d) : env.naming.Fits env.md := Naming.ofClass_fits h.named

lemma isStandard (h : env.ComesTo rules d) : rules.IsStandard :=
  Rulebook.isStandard_of_addClassRules h.entered

lemma sound (h : env.ComesTo rules d) : d.Sound := by
  obtain ⟨init, d₀, hfields, hsteps⟩ := h.steps
  exact (steps_sound hsteps (Draft.sound_declareFields hfields) h.isStandard h.fits).1

lemma resting {label : Label} {menv : MethodEnv} {s₀ : Frame} (h : env.ComesTo rules d)
    (hbody : env.HasBody m code start) (hshort : ∀ i ∈ code, i.offset < endOfBody)
    (hlabel : label.index < d.labelCount)
    (henter : Frame.enter env (d.emit (.mark label)) m code.toArray start = .ok (menv, s₀)) :
    menv.Prepared start ∧ Resting menv start s₀ [] s₀ := by
  have hsound := h.sound.mark hlabel
  have henters := enters_of_enter hsound henter
  have hp := henters.prepared hbody.portion hshort h.fits
  exact ⟨hp, henters.resting hsound hp⟩

end ComesTo

/-! ## A compilation takes such steps -/

lemma steps_lowerMethod (hd : d.Sound) (h : d.lowerMethod rules env m = .ok d') :
    ReflTransGen (env.Step rules) d d' := by
  obtain ⟨code, hread, hbody⟩ := except_bind_eq_ok_iff.1 h
  exact (ReflTransGen.single (.label m)).tail (.lower (.method hread) (hd.methodLabel m).2.2.1 hbody)

lemma steps_lowerRequested {fuel : Nat} (hd : d.Sound) (hrules : rules.IsStandard)
    (hfits : env.naming.Fits env.md) (h : d.lowerRequested rules env fuel = .ok d') :
    ReflTransGen (env.Step rules) d d' := by
  induction fuel generalizing d with
  | zero =>
    obtain rfl := Except.ok.inj h
    exact .refl
  | succ fuel ih =>
    rw [Draft.lowerRequested] at h
    have hnext : env.Step rules d d.nextMethod.2 := .next
    split at h
    · rename_i d₁ heq
      obtain rfl := Except.ok.inj h
      rw [heq] at hnext
      exact .single hnext
    · rename_i m d₁ heq
      rw [heq] at hnext
      obtain ⟨d₂, hmethod, h⟩ := except_bind_eq_ok_iff.1 h
      have hlower := steps_lowerMethod (hnext.sound hd hrules hfits).1 hmethod
      have hsteps := (ReflTransGen.single hnext).trans hlower
      exact hsteps.trans (ih (steps_sound hsteps hd hrules hfits).1 h)

lemma steps_entries (env : ClassEnv) (rules : Rulebook) (ctor : Option Label) (entries : List (String × MethodRef)) (d : Draft) :
    ReflTransGen (env.Step rules) d
      (entries.foldl (fun d (name, m) => d.addEntry env ctor name m) d) := by
  induction entries generalizing d with
  | nil => exact .refl
  | cons e entries ih => exact .head (.entry ctor e.1 e.2) (ih _)

/-- **The draft of a class** is made in steps from the one that has its fields. -/
lemma steps_of_draft (hnaming : Naming.ofClass env.md env.options env.owner = .ok env.naming)
    (hrules : Rulebook.standard.addClassRules env.md env.naming env.options = .ok rules)
    (h : env.draft rules = .ok d) :
    ∃ init d₀, Initializer.ofClass env.md env.naming env.owner = .ok init ∧
      (Draft.start env.owner).declareFields env init = .ok d₀ ∧
      ReflTransGen (env.Step rules) d₀ d := by
  have hfits := Naming.ofClass_fits hnaming
  have hstandard := Rulebook.isStandard_of_addClassRules hrules
  obtain ⟨init, hinit, h⟩ := except_bind_eq_ok_iff.1 h
  obtain ⟨d₀, hfields, h⟩ := except_bind_eq_ok_iff.1 h
  refine ⟨init, d₀, hinit, hfields, ?_⟩
  have h₀ := Draft.sound_declareFields hfields
  have later {d d' : Draft} (hd : d.Sound) (h : ReflTransGen (env.Step rules) d d') : d'.Sound :=
    (steps_sound h hd hstandard hfits).1
  split at h
  · have hentries := steps_entries env rules none env.entries d₀
    exact hentries.trans (steps_lowerRequested (later h₀ hentries) hstandard hfits h)
  · rename_i r hr
    obtain ⟨d₂, hrequested, h⟩ := except_bind_eq_ok_iff.1 h
    obtain ⟨d₃, hctor, h⟩ := except_bind_eq_ok_iff.1 h
    obtain ⟨d₄, hrequested', h⟩ := except_bind_eq_ok_iff.1 h
    obtain ⟨h₁, -, hmade, -⟩ := h₀.methodLabel r.ctor
    have hentries := steps_entries env rules (some (d₀.methodLabel r.ctor).1) env.entries
      (d₀.methodLabel r.ctor).2
    have hlowered := hentries.trans
      (steps_lowerRequested (later h₁ hentries) hstandard hfits hrequested)
    have hmade' := hmade.trans_le (steps_sound hlowered h₁ hstandard hfits).2.labelCount
    have hctor := hlowered.tail (.lower (.ctor hinit hr) hmade' hctor)
    have hall := (ReflTransGen.single (.label r.ctor)).trans
      (hctor.trans (steps_lowerRequested (later h₁ hctor) hstandard hfits hrequested'))
    split_ifs at h
    · obtain rfl := Except.ok.inj h
      exact hall
    · obtain rfl := Except.ok.inj h
      exact hall.tail (.startEvent _)

end ClassEnv

/-! ## Classes with one method -/

/-- A class whose only member is a method with the given body, and the type of arrays of integers. -/
def solo (body : MethodBody) : Metadata :=
  let md := (Metadata.addType {} (.user "Game.Door" .classType)).2
  let md := (md.arrayOf .int32).2
  ((md.addMethod ⟨16⟩ { name := "M", result := .void }).2).setBody ⟨0⟩ body

def soloNames : Naming :=
  { owner := ⟨16⟩, asked := [("M", 1)]
    symbols :=
      [{ member := .method ⟨0⟩, declaring := ⟨16⟩, name := "M", emitted := "M", flags := {} }] }

def soloClass (body : MethodBody) : ClassEnv :=
  ⟨solo body, { inlineAccessors := false }, ⟨16⟩, soloNames⟩

def soloDraft : Draft := ((Draft.start ⟨16⟩).methodLabel ⟨0⟩).2

lemma ofClass_solo (body : MethodBody) :
    Naming.ofClass (solo body) { inlineAccessors := false } ⟨16⟩ = .ok soloNames := rfl

lemma comesTo_solo (body : MethodBody) : (soloClass body).ComesTo .standard soloDraft := by
  refine ⟨ofClass_solo body, rfl, {}, Draft.start ⟨16⟩, rfl, ?_⟩
  exact .single (.label ⟨0⟩)

end FlatHeap
