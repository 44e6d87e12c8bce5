import FlatHeap.Proofs.Rules.Depths

/-!
# Pending reads of temporaries

Between two instructions the pending reads of a temporary are its occurrences on the operand stack,
where the address of an array element stands for a read of its array and one of its index.  A merge
slot that waits is reserved, has one pending read and does not occur.  Two instructions lose
occurrences: `switch` with an empty table and `ldelema`, where an element address is used as a value.
What they lose stays pending, and the check at the end of the method reports it; no other error blames
the use of a temporary.
-/

namespace FlatHeap

open Lower FlatHeap.Frame CompileError
open Bytecode (Instruction)

variable {env : ClassEnv} {rules : Rulebook} {d : Draft} {m : MethodRef} {code : List Instruction}
  {start : Nat} {label : Label} {menv : MethodEnv} {s₀ s : Frame} {lost : List VarRef}

/-- What is kept about temporaries agrees with the operand stack, but for what was lost. -/
structure Frame.Counted (lost : List VarRef) (s : Frame) : Prop where
  uses : ∀ t, s.draft.vars.IsTemp t → t ∉ s.waiting →
    (s.draft.vars.get t).uses = s.draft.vars.loads s.stack t + s.draft.vars.loads lost t
  slots : ∀ t, s.draft.vars.IsTemp t → t ∈ s.waiting →
    (s.draft.vars.get t).uses = 1 ∧ s.draft.vars.loads s.stack t = 0
  reserved : ∀ t, s.draft.vars.IsTemp t → ((s.draft.vars.get t).reserved = true ↔ t ∈ s.waiting)
  pooled : ∀ t, s.draft.vars.IsTemp t →
    ((s.draft.vars.get t).pooled = true ↔ (s.draft.vars.get t).uses = 0 ∧ t ∉ s.waiting)

lemma Frame.Balanced.uses_eq {held kept : List VarRef} (h : s.Balanced menv held kept) {t : VarRef}
    (ht : s.draft.vars.IsTemp t) :
    (s.draft.vars.get t).uses = s.draft.vars.loads held t + s.waiting.count t := by
  have hplain : ∀ v ∈ s.waiting, s.draft.vars.Plain v := by
    intro v hv
    rcases h.waiting v hv with ht | rfl
    · exact Variables.plain_of_temporary ht.2
    · exact h.weightless_self.plain
  rw [h.books.uses t ht, Variables.loads_append, Variables.loads_of_plain hplain]

lemma Frame.Balanced.counted (h : s.Balanced menv (s.stack ++ lost) []) : s.Counted lost := by
  have hreserved (t : VarRef) (ht : s.draft.vars.IsTemp t) :
      (s.draft.vars.get t).reserved = true ↔ t ∈ s.waiting := by
    simpa using h.books.reserved t ht
  refine ⟨fun t ht hw => ?_, fun t ht hw => ?_, hreserved, fun t ht => ?_⟩
  · rw [h.uses_eq ht, List.count_eq_zero.2 hw, Variables.loads_append, Nat.add_zero]
  · obtain ⟨hzero, hone⟩ := h.apart t hw ht
    have hstack : s.draft.vars.loads (s.stack ++ lost) t =
        s.draft.vars.loads s.stack t + s.draft.vars.loads lost t := Variables.loads_append _ _ t
    refine ⟨by rw [h.uses_eq ht, hzero, hone], ?_⟩
    omega
  · rw [h.books.pooled t ht, ← hreserved t ht, Bool.not_eq_true]

/-- **Pending reads are counted.**  In every method that is lowered while a class is compiled, they
agree with the operand stack after every instruction, but for what was lost; and a lowering that fails
does not blame the use of a temporary, unless it leaks one that was lost. -/
theorem uses_agree_with_stack (h : env.ComesTo rules d) (hbody : env.HasBody m code start)
    (hshort : ∀ i ∈ code, i.offset < endOfBody) (hlabel : label.index < d.labelCount)
    (henter : Frame.enter env (d.emit (.mark label)) m code.toArray start = .ok (menv, s₀)) :
    (∀ lost s, Course rules menv s₀ lost s → s.Counted lost) ∧
      ∀ e s, lowerAll rules menv s₀ = .error e s → e.aboutTemporary = true →
        Leaks rules menv s₀ e := by
  obtain ⟨hp, h₀⟩ := h.resting hbody hshort hlabel henter
  constructor
  · intro lost s hcourse
    exact (hcourse.resting h.isStandard hp h₀).balanced.counted
  · intro e s hrun habout
    rcases (lowerAll_meets h.isStandard hp h₀).error hrun with hharmless | hleaks
    · rw [hharmless.temporaries] at habout
      cases habout
    · exact hleaks

lemma enter_choosing : ∃ menv s₀, Frame.enter (soloClass choosing) (soloDraft.emit (.mark ⟨0⟩)) ⟨0⟩
    choosingCode.toArray 0 = .ok (menv, s₀) := by
  obtain ⟨⟨menv, s₀⟩, h⟩ : ∃ r, Frame.enter (soloClass choosing) (soloDraft.emit (.mark ⟨0⟩)) ⟨0⟩
      choosingCode.toArray 0 = .ok r := by
    apply exists_ok_of_isSome
    decide +kernel
  exact ⟨menv, s₀, h⟩

/-- Pending reads are counted in `choosing`. -/
theorem uses_agree_with_stack_choosing : ∃ menv s₀,
    Frame.enter (soloClass choosing) (soloDraft.emit (.mark ⟨0⟩)) ⟨0⟩ choosingCode.toArray 0 =
        .ok (menv, s₀) ∧
      ∀ lost s, Course .standard menv s₀ lost s → s.Counted lost := by
  obtain ⟨menv, s₀, henter⟩ := enter_choosing
  have hcounted := uses_agree_with_stack (comesTo_solo choosing) hasBody_choosing (by decide)
    Nat.one_pos henter
  exact ⟨menv, s₀, henter, hcounted.1⟩

/-! ## A read that is lost -/

/-- A method that loads the address of an element of what is the address of an element itself. -/
def nesting : MethodBody :=
  { code := [0x17, 0x8d, 0x08, 0, 0, 0x02, 0x16, 0x8f, 0x08, 0, 0, 0x02, 0x16, 0x8f, 0x08, 0, 0, 0x02,
      0x26, 0x2a] }

/-- **The outer address loses a read of the array**, and the lowering of the method fails. -/
theorem nested_element_leaks : ∃ code menv s₀ e s, Draft.readBody (solo nesting) ⟨0⟩ = .ok code ∧
    Frame.enter (soloClass nesting) (soloDraft.emit (.mark ⟨0⟩)) ⟨0⟩ code.toArray 0 = .ok (menv, s₀) ∧
      lowerAll .standard menv s₀ = .error e s ∧ e.aboutTemporary = true := by
  have hrun : ((Draft.readBody (solo nesting) ⟨0⟩).toOption.any fun code =>
      (Frame.enter (soloClass nesting) (soloDraft.emit (.mark ⟨0⟩)) ⟨0⟩ code.toArray 0).toOption.any
        fun r => (failure? (lowerAll .standard) r.1 r.2).any (·.aboutTemporary)) = true := by
    decide +kernel
  obtain ⟨code, hread, hrun⟩ := (Option.any_eq_true _ _).1 hrun
  obtain ⟨⟨menv, s₀⟩, henter, hrun⟩ := (Option.any_eq_true _ _).1 hrun
  obtain ⟨e, hfail, habout⟩ := (Option.any_eq_true _ _).1 hrun
  obtain ⟨s, hlower⟩ := failure?_eq_some_iff.1 hfail
  exact ⟨code, menv, s₀, e, s, ok_of_toOption hread, ok_of_toOption henter, hlower, habout⟩

end FlatHeap
