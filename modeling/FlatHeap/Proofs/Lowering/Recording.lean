import FlatHeap.Proofs.Lowering.Balance

/-!
# Recording copies, host operations and tests

The primitives that record code check their variables first, then use up the pending reads of their
inputs, then record one piece.  Their specifications say exactly which piece, so that the same lemmas
serve for the accounts of temporaries and for what the recorded code does when it runs.

What a primitive needs of its output is only that it is not in the pool.  Outputs are temporaries in
hand, merge slots, or slots of the program, and all of these are live.
-/

namespace FlatHeap.Lower

open FlatHeap.Frame

variable {R : Frame → Frame → Prop} [Admits R] {E : CompileError → Prop} {env : MethodEnv}
  {s s' : Frame} {held kept inputs : List VarRef} {v source target : VarRef} {ps : List Piece}
  {signature : String} {output : Option VarRef} {W : VarRef → Prop}

/-! ## Checks -/

lemma checkRead_run (ha : (s.draft.vars.get v).isAddress = false)
    (hp : (s.draft.vars.get v).pooled = false) : checkRead v env s = .ok () s := by
  show (if (s.draft.vars.get v).isAddress = true then _ else _ : Lower Unit) env s = _
  rw [if_neg (by simp [ha])]
  show (if (s.draft.vars.get v).pooled = true then _ else _ : Lower Unit) env s = _
  rw [if_neg (by simp [hp])]
  rfl

lemma checkRead_meets (hE : (s.draft.vars.get v).isAddress = true → E (.invariant (.addressAsValue v)))
    (hp : (s.draft.vars.get v).isAddress = false → (s.draft.vars.get v).pooled = false) :
    Meets R E (checkRead v) env s fun _ s' =>
      s' = s ∧ (s.draft.vars.get v).isAddress = false := by
  cases ha : (s.draft.vars.get v).isAddress with
  | false => exact meets_of_ok (checkRead_run ha (hp ha)) (refl_of R s) ⟨rfl, rfl⟩
  | true =>
    have hrun : checkRead v env s = .error (.invariant (.addressAsValue v)) s := by
      show (if (s.draft.vars.get v).isAddress = true then _ else _ : Lower Unit) env s = _
      rw [if_pos ha]
      rfl
    exact meets_of_error hrun (hE ha)

lemma checkWrite_meets
    (hE : (s.draft.vars.get v).isAddress = true → E (.invariant (.addressAsValue v)))
    (hC : (s.draft.vars.get v).isConstant = true → E (.invariant (.writeToConstant v)))
    (hp : (s.draft.vars.get v).isAddress = false → (s.draft.vars.get v).pooled = false) :
    Meets R E (checkWrite v) env s fun _ s' =>
      s' = s ∧ (s.draft.vars.get v).isAddress = false ∧
        (s.draft.vars.get v).isConstant = false := by
  refine (checkRead_meets hE hp).look fun _ ha => ?_
  rw [meets_var_bind]
  cases hc : (s.draft.vars.get v).isConstant with
  | false => exact meets_pure ⟨rfl, ha, rfl⟩
  | true => exact meets_breach (hC hc)

/-! ## Recording operations -/

def emitting (s : Frame) (ops : List Op) : Frame := { s with draft := s.draft.emitAll ops }

lemma emit_run (op : Op) : emit op env s = .ok () (emitting s [op]) := rfl

lemma emit_bind {β : Type} (op : Op) (f : Unit → Lower β) :
    (emit op >>= f) env s = f () env (emitting s [op]) := rfl

@[simp] lemma emitting_emitting (s : Frame) (ops ops' : List Op) :
    emitting (emitting s ops) ops' = emitting s (ops ++ ops') := by
  have : s.draft.ops ++ ops ++ ops' = s.draft.ops ++ (ops ++ ops') :=
    Array.toList_inj.1 (by simp)
  simp [emitting, Draft.emitAll, this]

lemma records_emitting (h : ∀ q ∈ ps, q.Legal env s.draft.vars) :
    Records env ps s (emitting s (ps.flatMap Piece.ops)) :=
  ⟨⟨.refl _, by simp [emitting, Draft.emitAll], h⟩, untouched_of_stock rfl, rfl⟩

lemma records_emitting_single {q : Piece} (h : q.Legal env s.draft.vars) :
    Records env [q] s (emitting s q.ops) := by
  have hrec : Records env [q] s (emitting s ([q].flatMap Piece.ops)) :=
    records_emitting (by simpa using h)
  simpa using hrec

lemma silent_emitting {ops : List Op} (h : Silent (emitting s ops) s') :
    ∃ s₁, Silent s s₁ ∧ s' = emitting s₁ ops := by
  refine ⟨s.withVars s'.draft.vars s'.scratch, silent_withVars h.vars (h.untouched.congr rfl rfl rfl), ?_⟩
  rw [h.rest]
  rfl

lemma balanced_emitting (h : s.Balanced env held kept) (ops : List Op) :
    (emitting s ops).Balanced env held kept :=
  h.of_eq rfl rfl rfl

/-- The code of a copy; a variable is not copied to itself. -/
def copyPieces (source target : VarRef) : List Piece :=
  if source = target then [] else [.copy source target]

structure Writable (s : Frame) (v : VarRef) : Prop where
  not_address : (s.draft.vars.get v).isAddress = false
  not_constant : (s.draft.vars.get v).isConstant = false

lemma Writable.readable (h : Writable s v) (hh : s.draft.vars.Has v) :
    s.draft.vars.Readable v := by
  refine ⟨hh, h.not_address, fun l (e : (s.draft.vars.get v).kind = _) => ?_⟩
  have hc := h.not_constant
  simp [Variable.isConstant, e] at hc

/-- **Copying** uses up the source and records one piece. -/
lemma copy_meets (h : s.Balanced env (source :: held) kept) (hhas : s.draft.vars.Has target)
    (hlive : (s.draft.vars.get target).isAddress = false →
      (s.draft.vars.get target).pooled = false)
    (hs : (s.draft.vars.get source).isAddress = true → E (.invariant (.addressAsValue source)))
    (ht : (s.draft.vars.get target).isAddress = true → E (.invariant (.addressAsValue target)))
    (hc : (s.draft.vars.get target).isConstant = true → E (.invariant (.writeToConstant target))) :
    Meets Any E (copy source target) env s fun _ s' =>
      s'.Balanced env held kept ∧ Records env (copyPieces source target) s s' ∧
        (s.draft.vars.get source).isAddress = false ∧ Writable s target := by
  refine (checkRead_meets hs fun ha => ?_).bind fun _ s₁ _ h₁ => ?_
  · exact h.not_pooled (by simp) (Variables.plain_of_not_isAddress ha)
  obtain ⟨rfl, hsa⟩ := h₁
  refine (checkWrite_meets ht hc hlive).bind fun _ s₂ _ h₂ => ?_
  obtain ⟨rfl, hta, htc⟩ := h₂
  refine (useVar_meets (R := Silent) h (Variables.plain_of_not_isAddress hsa)).keep.bind
    fun _ s₃ _ h₃ => ?_
  obtain ⟨hsil, hb⟩ := h₃
  by_cases e : source = target
  · rw [if_neg (not_not.2 e)]
    refine meets_of_ok rfl trivial ⟨hb, ?_, hsa, hta, htc⟩
    rw [copyPieces, if_pos e]
    exact hsil.records
  · rw [if_pos e]
    refine meets_of_ok (a := ()) (t := emitting s₃ [.push source, .push target, .copy]) ?_ trivial
      ⟨balanced_emitting hb _, ?_, hsa, hta, htc⟩
    · rw [emit_bind, emit_bind, emit_run, emitting_emitting, emitting_emitting]
      rfl
    · rw [copyPieces, if_neg e]
      have hread := (h.usable_hand (v := source) (by simp)).readable hsa
      have hwrite := Writable.readable ⟨hta, htc⟩ hhas
      refine hsil.records.trans (records_emitting_single (q := .copy source target) ⟨?_, trivial⟩)
      simpa [Piece.vars] using ⟨hread.grows hsil.vars, hwrite.grows hsil.vars⟩

/-! ## Host operations -/

lemma checkInputs_meets (h : s.Balanced env (inputs ++ held) kept)
    (hE : ∀ v ∈ inputs, (s.draft.vars.get v).isAddress = true →
      E (.invariant (.addressAsValue v))) :
    Meets R E (checkInputs inputs) env s fun _ s' =>
      s' = s ∧ ∀ v ∈ inputs, (s.draft.vars.get v).isAddress = false := by
  have live (v : VarRef) (hv : v ∈ inputs) (ha : (s.draft.vars.get v).isAddress = false) :
      (s.draft.vars.get v).pooled = false :=
    h.not_pooled (List.mem_append_left _ hv) (Variables.plain_of_not_isAddress ha)
  clear h
  induction inputs with
  | nil => exact meets_pure ⟨rfl, by simp⟩
  | cons v rest ih =>
    refine (checkRead_meets (hE v (by simp)) (live v (by simp))).look fun _ ha => ?_
    refine (ih (fun w hw => hE w (by simp [hw])) fun w hw => live w (by simp [hw])).mono ?_
    rintro _ s₂ - ⟨rfl, hrest⟩
    exact ⟨rfl, by simpa using ⟨ha, hrest⟩⟩

lemma pushInputs_meets (h : s.Balanced env (inputs ++ held) kept)
    (ha : ∀ v ∈ inputs, (s.draft.vars.get v).isAddress = false) :
    Meets Any E (pushInputs inputs) env s fun _ s' =>
      s'.Balanced env held kept ∧
        ∃ s₁, Silent s s₁ ∧ s' = emitting s₁ (inputs.map .push) := by
  induction inputs generalizing s with
  | nil => exact meets_of_ok rfl trivial ⟨h, s, refl_of Silent s, by simp [emitting, Draft.emitAll]⟩
  | cons v rest ih =>
    refine (useVar_meets (R := Silent) h
      (Variables.plain_of_not_isAddress (ha v (by simp)))).keep.bind fun _ s₁ _ h₁ => ?_
    obtain ⟨hsil, hb⟩ := h₁
    refine Meets.bind (meets_of_ok (emit_run (.push v)) trivial
      (Q := fun _ s' => s' = emitting s₁ [.push v]) rfl) fun _ s₂ _ h₂ => ?_
    subst h₂
    have kind (w : VarRef) (hw : w ∈ rest) :
        ((emitting s₁ [.push v]).draft.vars.get w).isAddress = false := by
      have hk := hsil.vars.kind_eq (h.usable_hand (v := w) (by simp [hw])).1
      have := ha w (by simp [hw])
      simp only [Variable.isAddress, Variables.kind] at hk this ⊢
      rw [show (emitting s₁ [.push v]).draft.vars = s₁.draft.vars from rfl, hk]
      exact this
    refine (ih (balanced_emitting hb _) kind).mono ?_
    rintro _ s' - ⟨hb', s₃, hsil', rfl⟩
    obtain ⟨s₄, hsil₄, rfl⟩ := silent_emitting hsil'
    exact ⟨hb', s₄, hsil.trans hsil₄, by simp⟩

lemma invoke_eq (signature : String) (inputs : List VarRef) (output : Option VarRef) :
    invoke signature inputs output = (do
      checkInputs inputs
      output.elim (pure ()) checkWrite
      pushInputs inputs
      output.elim (pure ()) fun out => emit (.push out)
      let c ← textConstant signature
      emit (.invoke c)) := by
  cases output <;> rfl

/-- The second frame records one host operation more than the first one. -/
def Invokes (env : MethodEnv) (signature : String) (inputs : List VarRef) (output : Option VarRef) (s s' : Frame) :
    Prop :=
  ∃ c, IsConst s'.draft.vars (.text signature) .string c ∧ Records env [.invoke c inputs output] s s'

lemma Invokes.after {s'' : Frame} (hs : Silent s s')
    (h : Invokes env signature inputs output s' s'') :
    Invokes env signature inputs output s s'' := by
  obtain ⟨c, hc, hrec⟩ := h
  exact ⟨c, hc, hs.records.trans hrec⟩

lemma invoke_emits (h : s.Balanced env (inputs ++ held) kept)
    (hlive : ∀ o ∈ output, (s.draft.vars.get o).isAddress = false →
      (s.draft.vars.get o).pooled = false)
    (hi : ∀ v ∈ inputs, (s.draft.vars.get v).isAddress = true →
      E (.invariant (.addressAsValue v)))
    (ho : ∀ o ∈ output, (s.draft.vars.get o).isAddress = true →
      E (.invariant (.addressAsValue o)))
    (hc : ∀ o ∈ output, (s.draft.vars.get o).isConstant = true →
      E (.invariant (.writeToConstant o))) :
    Meets Any E (invoke signature inputs output) env s fun _ s' =>
      s'.Balanced env held kept ∧
        (∃ c s₁, IsConst s'.draft.vars (.text signature) .string c ∧ Silent s s₁ ∧
          s' = emitting s₁ (Piece.invoke c inputs output).ops) ∧
        (∀ v ∈ inputs, (s.draft.vars.get v).isAddress = false) ∧ ∀ o ∈ output, Writable s o := by
  rw [invoke_eq]
  refine (checkInputs_meets h hi).look fun _ hia => ?_
  have hcheck : Meets Any E (output.elim (pure ()) checkWrite) env s fun _ s' =>
      s' = s ∧ ∀ o ∈ output, Writable s o := by
    cases output with
    | none => exact meets_pure ⟨rfl, by simp⟩
    | some o =>
      refine (checkWrite_meets (ho o rfl) (hc o rfl) (hlive o rfl)).mono ?_
      rintro _ s' - ⟨rfl, ha, hc⟩
      exact ⟨rfl, by simpa using ⟨ha, hc⟩⟩
  refine hcheck.look fun _ hwr => ?_
  refine (pushInputs_meets h hia).bind fun _ s₃ _ h₃ => ?_
  obtain ⟨hb, s₄, hsil, rfl⟩ := h₃
  have hpush : Meets Any E (output.elim (pure ()) fun out => emit (.push out)) env
      (emitting s₄ (inputs.map .push)) fun _ s' =>
        s' = emitting s₄ (inputs.map .push ++ output.toList.map .push) := by
    cases output with
    | none => exact meets_pure (by simp)
    | some o => exact meets_of_ok (emit_run _) trivial (by simp)
  refine hpush.bind fun _ s₅ _ h₅ => ?_
  subst h₅
  have hb₅ : (emitting s₄ (inputs.map .push ++ output.toList.map .push)).Balanced env held kept :=
    hb.of_eq rfl rfl rfl
  refine (textConstant_meets (R := Silent) hb₅ signature).keep.bind fun c s₆ _ h₆ => ?_
  obtain ⟨hsil₆, hb₆, hconst⟩ := h₆
  obtain ⟨s₇, hsil₇, rfl⟩ := silent_emitting hsil₆
  exact meets_of_ok (emit_run _) trivial ⟨balanced_emitting hb₆ _,
    ⟨c, s₇, hconst, hsil.trans hsil₇, emitting_emitting ..⟩, hia, hwr⟩

/-- **A host operation** uses up its inputs and records one piece. -/
lemma invoke_meets (hvoid : output = none → env.IsVoid signature)
    (h : s.Balanced env (inputs ++ held) kept) (hhas : ∀ o ∈ output, s.draft.vars.Has o)
    (hlive : ∀ o ∈ output, (s.draft.vars.get o).isAddress = false →
      (s.draft.vars.get o).pooled = false)
    (hi : ∀ v ∈ inputs, (s.draft.vars.get v).isAddress = true →
      E (.invariant (.addressAsValue v)))
    (ho : ∀ o ∈ output, (s.draft.vars.get o).isAddress = true →
      E (.invariant (.addressAsValue o)))
    (hc : ∀ o ∈ output, (s.draft.vars.get o).isConstant = true →
      E (.invariant (.writeToConstant o))) :
    Meets Any E (invoke signature inputs output) env s fun _ s' =>
      s'.Balanced env held kept ∧
        Invokes env signature inputs output s s' ∧
        (∀ v ∈ inputs, (s.draft.vars.get v).isAddress = false) ∧ ∀ o ∈ output, Writable s o := by
  refine (invoke_emits h hlive hi ho hc).mono ?_
  rintro _ s' - ⟨hb, ⟨c, s₁, hconst, g, rfl⟩, hia, hwr⟩
  refine ⟨hb, ⟨c, hconst, ?_⟩, hia, hwr⟩
  refine g.records.trans (records_emitting_single (q := .invoke c inputs output) ⟨?_, ?_⟩)
  · intro v hv
    rcases List.mem_append.1 hv with hv | hv
    · exact ((h.usable_hand (List.mem_append_left held hv)).readable (hia v hv)).grows g.vars
    · have ho := Option.mem_toList.1 hv
      exact ((hwr v ho).readable (hhas v ho)).grows g.vars
  · exact ⟨hconst.1, hconst.2.1, signature, hconst.2.2.2, hvoid⟩

lemma quiet_invoke {c : VarRef} (ho : ∀ o ∈ output, s'.draft.vars.IsTemp o ∧ ¬ s.Keeps held o ∨ W o) :
    Quiet held W s s' (.invoke c inputs output) :=
  ⟨trivial, by simpa [Piece.writes] using ho, by simp [Piece.targets]⟩

lemma quiet_copy (ht : s'.draft.vars.IsTemp target ∧ ¬ s.Keeps held target ∨ W target) :
    Quiet held W s s' (.copy source target) :=
  ⟨trivial, by simpa [Piece.writes] using ht, by simp [Piece.targets]⟩

lemma quiet_copyPieces (ht : s'.draft.vars.IsTemp target ∧ ¬ s.Keeps held target ∨ W target) :
    ∀ q ∈ copyPieces source target, Quiet held W s s' q := by
  unfold copyPieces
  split
  · simp
  · simpa using quiet_copy ht

lemma Invokes.vars (h : Invokes env signature inputs output s s') :
    s.draft.vars.Grows s'.draft.vars := by
  obtain ⟨c, -, hrec⟩ := h
  exact hrec.vars

lemma Invokes.computes (h : Invokes env signature inputs output s s')
    (ho : ∀ o ∈ output, s'.draft.vars.IsTemp o ∧ ¬ s.Keeps held o ∨ W o) :
    Computes env held W s s' := by
  obtain ⟨c, -, hrec⟩ := h
  exact hrec.computes (by simp [Closed, Piece.targets]) (by simp [Piece.marks])
    (by simpa using quiet_invoke ho)

lemma computes_copy (h : Records env (copyPieces source target) s s')
    (ht : s'.draft.vars.IsTemp target ∧ ¬ s.Keeps held target ∨ W target) :
    Computes env held W s s' := by
  refine h.computes ?_ ?_ (quiet_copyPieces ht) <;> unfold copyPieces <;> split
  · simp [Closed]
  · simp [Closed, Piece.targets]
  · simp
  · simp [Piece.marks]

lemma invokeTemp_meets (t : TypeRef)
    (h : s.Balanced env (inputs ++ held) kept)
    (hi : ∀ v ∈ inputs, (s.draft.vars.get v).isAddress = true →
      E (.invariant (.addressAsValue v))) :
    Meets Any E (invokeTemp signature inputs t) env s fun out s' =>
      s'.Balanced env (out :: held) kept ∧
        Invokes env signature inputs (some out) s s' ∧
        (∀ v ∈ inputs, (s.draft.vars.get v).isAddress = false) ∧
        s'.draft.vars.IsTemp out ∧ (s'.draft.vars.get out).type = t ∧
        ∀ x, s.Keeps (inputs ++ held) x → x ≠ out := by
  refine (temp_meets (R := Silent) h t).keep.bind fun out s₁ _ h₁ => ?_
  obtain ⟨hsil, hb, htemp, htype, hfresh, -, -⟩ := h₁
  have hhas (v : VarRef) (hv : v ∈ inputs) : s.draft.vars.Has v :=
    (h.usable_hand (List.mem_append_left held hv)).1
  have hb' : s₁.Balanced env (inputs ++ out :: held) kept := hb.perm List.perm_middle.symm
  refine Meets.bind (invoke_meets (by simp) hb' ?_ ?_ ?_ ?_ ?_) fun _ s₂ _ h₂ => ?_
  · rintro o ⟨⟩
    exact htemp.1
  · rintro o ⟨⟩ -
    exact hb.not_pooled (by simp) (Variables.plain_of_temporary htemp.2)
  · intro v hv ha
    rw [hsil.vars.isAddress_eq (hhas v hv)] at ha
    exact hi v hv ha
  · rintro o ⟨⟩ ha
    exact absurd ha (by simp [Variable.isAddress_of_temporary htemp.2])
  · rintro o ⟨⟩ ha
    exact absurd ha (by simp [Variable.isConstant_of_temporary htemp.2])
  · obtain ⟨hb₂, hinv, hia, -⟩ := h₂
    refine meets_pure ⟨hb₂, hinv.after hsil, fun v hv => ?_, hinv.vars.isTemp htemp,
      (hinv.vars.type_eq htemp.1).trans htype, hfresh⟩
    rw [← hsil.vars.isAddress_eq (hhas v hv)]
    exact hia v hv

/-! ## Labels and tests -/

def labelled (s : Frame) : Frame :=
  { s with draft := { s.draft with labelCount := s.draft.labelCount + 1 } }

lemma newLabel_run : newLabel env s = .ok ⟨s.draft.labelCount⟩ (labelled s) := rfl

lemma balanced_labelled (h : s.Balanced env held kept) :
    (labelled s).Balanced env held kept :=
  h.of_eq rfl rfl rfl

lemma settles_labelled (h : Records env ps (labelled s) s')
    (hm : ps.flatMap Piece.marks = [⟨s.draft.labelCount⟩]) : Settles s s' := by
  have hcount : s'.draft.labelCount = s.draft.labelCount + 1 := by
    rw [h.rest]
    rfl
  have hplaced (l : Label) : s'.draft.placed l =
      s.draft.placed l + if l.index = s.draft.labelCount then 1 else 0 := by
    have hcode := h.code.placed_eq l
    rw [hm, List.count_singleton] at hcode
    rw [hcode]
    obtain ⟨n⟩ := l
    have hbeq : ((⟨s.draft.labelCount⟩ : Label) == ⟨n⟩) = decide (n = s.draft.labelCount) := by
      simp [beq_eq_decide, eq_comm]
    rw [hbeq]
    by_cases hn : n = s.draft.labelCount
    · rw [if_pos (decide_eq_true hn), if_pos hn]
      rfl
    · rw [if_neg (by simpa using hn), if_neg hn]
      rfl
  refine ⟨fun l hb => ?_, fun l hb => ?_⟩ <;> simp only [Between] at hb <;> rw [hplaced]
  · rw [if_pos (by omega)]
  · rw [if_neg (by omega), Nat.add_zero]

lemma computes_labelled (h : Records env ps (labelled s) s') (hc : Closed ps)
    (hm : ps.flatMap Piece.marks = [⟨s.draft.labelCount⟩]) (hq : ∀ q ∈ ps, Quiet held W s s' q) :
    Computes env held W s s' := by
  refine ⟨⟨?_, ?_, ?_, settles_labelled h hm, h.untouched.congr rfl rfl rfl, ps,
    ⟨h.vars, h.code.ops, h.code.legal⟩, hc, hq⟩, ?_⟩ <;> rw [h.rest]
  · exact Nat.le_succ _
  all_goals rfl

lemma mark_run (l : Label) : mark l env s = .ok () (emitting s (Piece.ops (.mark l))) := rfl

lemma jump_run (l : Label) : jump l env s = .ok () (emitting s (Piece.ops (.jump l))) := rfl

/-- **A test** uses up its condition and records one piece. -/
lemma jumpIfFalse_meets (l : Label) (h : s.Balanced env (v :: held) kept)
    (hE : (s.draft.vars.get v).isAddress = true → E (.invariant (.addressAsValue v))) :
    Meets Any E (jumpIfFalse v l) env s fun _ s' =>
      s'.Balanced env held kept ∧ Records env [.test v l] s s' ∧
        (s.draft.vars.get v).isAddress = false := by
  have hpush : Meets Any E (push v) env s fun _ s' =>
      s'.Balanced env held kept ∧ (∃ s₁, Silent s s₁ ∧ s' = emitting s₁ [.push v]) ∧
        (s.draft.vars.get v).isAddress = false := by
    refine (checkRead_meets hE fun ha => ?_).bind fun _ s₁ _ h₁ => ?_
    · exact h.not_pooled (by simp) (Variables.plain_of_not_isAddress ha)
    obtain ⟨rfl, ha⟩ := h₁
    refine (useVar_meets (R := Silent) h (Variables.plain_of_not_isAddress ha)).keep.bind
      fun _ s₂ _ h₂ => ?_
    exact meets_of_ok (emit_run _) trivial ⟨balanced_emitting h₂.2 _, ⟨s₂, h₂.1, rfl⟩, ha⟩
  refine hpush.bind fun _ s₁ _ h₁ => ?_
  obtain ⟨hb, ⟨s₂, hsil, rfl⟩, ha⟩ := h₁
  refine meets_of_ok (emit_run _) trivial ⟨balanced_emitting hb _, ?_, ha⟩
  rw [emitting_emitting]
  have hread := (h.usable_hand (v := v) (by simp)).readable ha
  refine hsil.records.trans (records_emitting_single (q := .test v l) ⟨?_, trivial⟩)
  simpa [Piece.vars] using hread.grows hsil.vars

end FlatHeap.Lower
