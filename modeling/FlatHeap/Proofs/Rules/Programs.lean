import FlatHeap.Proofs.Rules.Linking

/-!
# Programs of classes

A compilation names the members of a class, enters its rules, drafts it and lays the draft out.
None of this fails over a label or a slot, so every class that fails does so for another reason, and
every program that a compilation comes to is linked.
-/

namespace FlatHeap

open Lower FlatHeap.Frame Relation
open Bytecode (Instruction)

/-! ## Failure before the layout -/

open CompileError

lemma aboutPlace_malformed (e : Bytecode.BodyError) (method : String) :
    ((malformed e).locate method none).aboutPlace = false :=
  aboutPlace_locate _ _ _

lemma Naming.lookup_error {n : Naming} {md : Metadata} {member : Member} {e : CompileError}
    (h : n.lookup md member = .error e) : e.aboutPlace = false := by
  unfold Naming.lookup at h
  split at h
  · cases h
  · obtain rfl := Except.error.inj h
    rfl

lemma decode_error {md : Metadata} {code : List UInt8} {method : String} {e : CompileError}
    (h : (Bytecode.decode md code).mapError
      (fun e => (malformed e).locate method none) = .error e) : e.aboutPlace = false := by
  cases hdecode : Bytecode.decode md code with
  | ok code =>
    rw [hdecode] at h
    cases h
  | error e' =>
    rw [hdecode] at h
    obtain rfl := Except.error.inj h
    exact aboutPlace_malformed e' method

namespace Initializer

variable {md : Metadata} {naming : Naming} {e : CompileError}

lemma plainCtor_error {t : TypeRef} (h : plainCtor md t = .error e) : e.aboutPlace = false := by
  unfold plainCtor at h
  dsimp only at h
  split at h
  · cases h
  · cases h
  · obtain rfl := Except.error.inj h
    rfl

lemma checkRemainder_error {name : String} {start : Nat} {rest : List Instruction}
    (h : checkRemainder name start rest = .error e) : e.aboutPlace = false := by
  unfold checkRemainder at h
  split at h
  · cases h
  · obtain rfl := Except.error.inj h
    exact aboutPlace_locate _ _ _

lemma ofClass_error {t : TypeRef} (h : ofClass md naming t = .error e) : e.aboutPlace = false := by
  induction hn : (md.ancestors t).length using Nat.strong_induction_on generalizing t e with
  | _ n ih =>
    rw [ofClass] at h
    rcases except_bind_eq_error_iff.1 h with h | ⟨ctor, -, h⟩
    · exact plainCtor_error h
    split at h
    swap
    · cases h
    split at h
    swap
    · cases h
    rcases except_bind_eq_error_iff.1 h with h | ⟨code, -, h⟩
    · exact decode_error h
    rcases except_bind_eq_error_iff.1 h with h | ⟨initial, -, h⟩
    · refine foldlM_error (P := (·.aboutPlace = false)) (fun initial s e h => ?_) h
      split at h
      · cases h
      · rename_i m offset
        dsimp only at h
        split_ifs at h with huser hlt
        rcases except_bind_eq_error_iff.1 h with h | ⟨inherited, -, h⟩
        · exact ih _ (hn ▸ hlt) h rfl
        · split_ifs at h
          obtain rfl := Except.error.inj h
          exact aboutPlace_locate _ _ _
    · split at h
      · cases h
      · rcases except_bind_eq_error_iff.1 h with h | ⟨u, -, h⟩
        · exact checkRemainder_error h
        · cases h

end Initializer

lemma Accessor.ofClass_error {md : Metadata} {naming : Naming} {e : CompileError}
    (h : Accessor.ofClass md naming = .error e) : e.aboutPlace = false := by
  rcases except_bind_eq_error_iff.1 h with h | ⟨found, -, h⟩
  · obtain ⟨m, -, h⟩ := mapM_error h
    rcases except_bind_eq_error_iff.1 h with h | ⟨a, -, h⟩
    · unfold Accessor.ofMethod? at h
      dsimp only at h
      split at h
      · split_ifs at h
        · cases h
        · rcases except_bind_eq_error_iff.1 h with h | ⟨code, -, h⟩
          · exact decode_error h
          · cases h
      · cases h
    · cases h
  · cases h

lemma Rulebook.addClassRules_error {b : Rulebook} {md : Metadata} {naming : Naming} {o : Options}
    {e : CompileError} (h : b.addClassRules md naming o = .error e) : e.aboutPlace = false := by
  unfold addClassRules at h
  split_ifs at h
  · cases h
  · rcases except_bind_eq_error_iff.1 h with h | ⟨accessors, -, h⟩
    · exact Accessor.ofClass_error h
    · cases h

namespace Draft

variable {env : ClassEnv} {rules : Rulebook} {d : Draft} {m : MethodRef} {code : List Instruction}
  {start : Nat} {label : Label} {e : CompileError}

lemma declareFields_error {init : Initializer} (h : d.declareFields env init = .error e) :
    e.aboutPlace = false := by
  refine foldlM_error (P := (·.aboutPlace = false)) (fun d f e h => ?_) h
  rcases except_bind_eq_error_iff.1 h with h | ⟨r, -, h⟩
  · rcases except_bind_eq_error_iff.1 h with h | ⟨r, -, h⟩
    · unfold Draft.fieldVar at h
      split at h
      · cases h
      · rcases except_bind_eq_error_iff.1 h with h | ⟨symbol, -, h⟩
        · exact Naming.lookup_error h
        · cases h
    · split at h
      split at h <;> cases h
  · cases h

lemma readBody_error (h : readBody env.md m = .error e) : e.aboutPlace = false := by
  unfold readBody at h
  split at h
  · obtain rfl := Except.error.inj h
    rfl
  · exact decode_error h

lemma parameterVars_error (h : d.parameterVars env m = .error e) : e.aboutPlace = false := by
  unfold Draft.parameterVars at h
  dsimp only at h
  split_ifs at h
  · cases h
  · rcases except_bind_eq_error_iff.1 h with h | ⟨symbol, -, h⟩
    · exact Naming.lookup_error h
    · split at h <;> cases h

lemma enter_error {code : Array Instruction} (h : Frame.enter env d m code start = .error e) :
    e.aboutPlace = false := by
  rcases except_bind_eq_error_iff.1 h with h | ⟨r, -, h⟩
  · exact parameterVars_error h
  · cases h

/-- **A body does not fail over a label or a slot.** -/
lemma lowerBody_error (hrules : rules.IsStandard) (hfits : env.naming.Fits env.md) (hd : d.Sound)
    (hlabel : label.index < d.labelCount) (hbody : env.HasBody m code start)
    (h : d.lowerBody rules env m code start label = .error e) : e.aboutPlace = false := by
  unfold lowerBody at h
  split_ifs at h with hlarge
  · obtain rfl := Except.error.inj h
    exact aboutPlace_locate _ _ _
  have hshort : ∀ i ∈ code, i.offset < endOfBody := by simpa using hlarge
  rcases except_bind_eq_error_iff.1 h with h | ⟨⟨menv, s₀⟩, henter, h⟩
  · cases henter : Frame.enter env (d.emit (.mark label)) m code.toArray start with
    | ok r =>
      rw [henter] at h
      cases h
    | error e' =>
      rw [henter] at h
      obtain rfl := Except.error.inj h
      exact (aboutPlace_locate _ _ _).trans (enter_error henter)
  have henters := enters_of_enter (hd.mark hlabel) (mapError_eq_ok_iff.1 henter)
  have hp := henters.prepared hbody.portion hshort hfits
  dsimp only at h
  split at h
  · cases h
  · rename_i e' s hrun
    obtain rfl := Except.error.inj h
    rcases (lowerAll_meets hrules hp (henters.resting (hd.mark hlabel) hp)).error hrun with
      hharmless | ⟨lost, s, v, reserved, handOut, -, -, -, hcause⟩
    · exact hharmless.places
    · rw [aboutPlace, hcause]
      rfl

end Draft

namespace ClassEnv

variable {env : ClassEnv} {rules : Rulebook} {d : Draft} {e : CompileError}

lemma lowerRequested_error {fuel : Nat} (hrules : rules.IsStandard) (hfits : env.naming.Fits env.md)
    (hd : d.Sound) (h : d.lowerRequested rules env fuel = .error e) : e.aboutPlace = false := by
  induction fuel generalizing d with
  | zero => cases h
  | succ fuel ih =>
    rw [Draft.lowerRequested] at h
    have hnext : d.nextMethod.2.Sound := hd.nextMethod.1
    split at h
    · cases h
    · rename_i m d₁ heq
      rw [heq] at hnext
      rcases except_bind_eq_error_iff.1 h with h | ⟨d₂, hmethod, h⟩
      · rcases except_bind_eq_error_iff.1 h with h | ⟨code, hread, h⟩
        · exact Draft.readBody_error h
        · obtain ⟨hsound, -, hlabel, -⟩ := hnext.methodLabel m
          exact Draft.lowerBody_error hrules hfits hsound hlabel (.method hread) h
      · exact ih (steps_sound (steps_lowerMethod hnext hmethod) hnext hrules hfits).1 h

/-- **The draft of a class does not fail over a label or a slot.** -/
lemma draft_error (hrules : rules.IsStandard) (hfits : env.naming.Fits env.md)
    (h : env.draft rules = .error e) : e.aboutPlace = false := by
  rcases except_bind_eq_error_iff.1 h with h | ⟨init, hinit, h⟩
  · exact Initializer.ofClass_error h
  rcases except_bind_eq_error_iff.1 h with h | ⟨d₀, hfields, h⟩
  · exact Draft.declareFields_error h
  have h₀ := Draft.sound_declareFields hfields
  have later {d d' : Draft} (hd : d.Sound) (h : ReflTransGen (env.Step rules) d d') :=
    steps_sound h hd hrules hfits
  split at h
  · exact lowerRequested_error hrules hfits (later h₀ (steps_entries env rules _ _ _)).1 h
  · rename_i r hr
    obtain ⟨h₁, -, hlabel, -⟩ := h₀.methodLabel r.ctor
    have hentries := steps_entries env rules (some (d₀.methodLabel r.ctor).1) env.entries
      (d₀.methodLabel r.ctor).2
    have h₂ := (later h₁ hentries).1
    rcases except_bind_eq_error_iff.1 h with h | ⟨d₂, hrequested, h⟩
    · exact lowerRequested_error hrules hfits h₂ h
    have hsteps := hentries.trans (steps_lowerRequested h₂ hrules hfits hrequested)
    obtain ⟨h₃, hext⟩ := later h₁ hsteps
    have hmade := hlabel.trans_le hext.labelCount
    rcases except_bind_eq_error_iff.1 h with h | ⟨d₃, hctor, h⟩
    · exact Draft.lowerBody_error hrules hfits h₃ hmade (.ctor hinit hr) h
    have h₄ := (later h₁ (hsteps.tail (.lower (.ctor hinit hr) hmade hctor))).1
    rcases except_bind_eq_error_iff.1 h with h | ⟨d₄, -, h⟩
    · exact lowerRequested_error hrules hfits h₄ h
    · cases h

end ClassEnv

/-! ## Compilation -/

/-- A class that compiles, with what its compilation goes through. -/
structure Compilation (o : Options) (md : Metadata) (t : TypeRef) where
  /-- Names of its members. -/
  naming : Naming
  /-- The rules while it is compiled. -/
  rules : Rulebook
  /-- Its draft. -/
  draft : Draft
  /-- Its program. -/
  program : Host.Program
  named : Naming.ofClass md o t = .ok naming
  entered : Rulebook.standard.addClassRules md naming o = .ok rules
  drafted : ClassEnv.draft ⟨md, o, t, naming⟩ rules = .ok draft
  laid : draft.layout ⟨md, o, t, naming⟩ = .ok program

namespace Compilation

variable {o : Options} {md : Metadata} {t : TypeRef} (c : Compilation o md t)

def env : ClassEnv := ⟨md, o, t, c.naming⟩

def placed : Placed c.env := ⟨c.draft, c.program, c.laid⟩

lemma fits : c.env.naming.Fits c.env.md := Naming.ofClass_fits c.named

lemma isStandard : c.rules.IsStandard := Rulebook.isStandard_of_addClassRules c.entered

lemma finished : c.draft.Finished c.env c.rules :=
  (ClassEnv.finished_of_draft c.isStandard c.fits c.drafted).1

lemma nodup_entryNames : c.draft.entryNames.Nodup := by
  obtain ⟨-, init, d₀, -, -, -, hnames⟩ :=
    ClassEnv.finished_of_draft c.isStandard c.fits c.drafted
  rw [hnames]
  exact ClassEnv.nodup_entryNames _ init

end Compilation

namespace Compiler

variable {o : Options} {md : Metadata} {t : TypeRef}

/-- **What a compilation comes to.** -/
lemma compile_cases (o : Options) (md : Metadata) (t : TypeRef) :
    (∃ e, ((Compiler.new o).compile md t).1 = .error e ∧ e.aboutPlace = false) ∨
      ∃ c : Compilation o md t, ((Compiler.new o).compile md t).1 = .ok c.program := by
  unfold compile
  split_ifs with hclass
  · exact .inl ⟨_, rfl, rfl⟩
  split
  · rename_i e hnaming
    obtain ⟨name, first, second, hcause⟩ := Naming.ofClass_error hnaming
    exact .inl ⟨e, rfl, by rw [aboutPlace, hcause]⟩
  rename_i naming hnaming
  split
  · rename_i e hrules
    exact .inl ⟨e, rfl, Rulebook.addClassRules_error hrules⟩
  rename_i rules hrules
  have hstandard := Rulebook.isStandard_of_addClassRules hrules
  have hfits := Naming.ofClass_fits hnaming
  cases hcompile : ClassEnv.compile ⟨md, (Compiler.new o).options, t, naming⟩ rules with
  | error e =>
    refine .inl ⟨e, rfl, ?_⟩
    rcases except_bind_eq_error_iff.1 hcompile with h | ⟨d, hdraft, h⟩
    · exact ClassEnv.draft_error hstandard hfits h
    rcases except_bind_eq_error_iff.1 h with h | ⟨u, -, h⟩
    · unfold Draft.checkCalls at h
      split at h
      · cases h
      · obtain rfl := Except.error.inj h
        rfl
    · exact (ClassEnv.finished_of_draft hstandard hfits hdraft).1.layout_error h
  | ok p =>
    obtain ⟨d, hdraft, h⟩ := except_bind_eq_ok_iff.1 hcompile
    obtain ⟨u, -, hlaid⟩ := except_bind_eq_ok_iff.1 h
    exact .inr ⟨⟨naming, rules, d, p, hnaming, hrules, hdraft, hlaid⟩, rfl⟩

/-- **Compiled programs are linked.**  The compilation of a class does not fail over a label that is
not placed once, or over a variable without a slot.  In the program it comes to, jumps, entry points
and the slots that hold return addresses lead to instructions, other operands are indices of slots,
slots and entry points have different names, and the code is as long as the sizes of its
instructions say. -/
theorem compile_linked (o : Options) (md : Metadata) (t : TypeRef) :
    match ((Compiler.new o).compile md t).1 with
    | .error e => e.aboutPlace = false
    | .ok p => p.Linked ∧ ∃ c : Compilation o md t, c.program = p ∧
        ∀ (k : Nat) (v : VarRef) (l : Label), (c.draft.heapOrder c.env)[k]? = some v →
          c.draft.vars.kind v = .labelAddress l → ∃ (slot : Host.HeapSlot) (a : UInt32),
            p.heap[k]? = some slot ∧ slot.value = .address a ∧ p.IsAddress a.toNat := by
  rcases compile_cases o md t with ⟨e, he, hplace⟩ | ⟨c, hc⟩
  · rw [he]
    exact hplace
  · rw [hc]
    have hends := c.finished.ends
    refine ⟨c.placed.linked hends c.nodup_entryNames, c, rfl, fun k v l hv hkind => ?_⟩
    exact c.placed.slot_of_labelAddress hends hv hkind

end Compiler

end FlatHeap
