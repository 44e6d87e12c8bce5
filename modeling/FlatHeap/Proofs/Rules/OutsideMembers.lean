import FlatHeap.Rules.HostMembers
import FlatHeap.Rules.RemoteMembers
import FlatHeap.Proofs.Rules.OwnMembers

/-!
# Accounts of rules: members of the host and of other programs

A call of a host operation uses up its arguments as inputs.  An argument passed by reference is the
address of a slot, and the slot is the input.  A host value may be constructed, or have a field set,
in an array element; the element is then read, changed and written back through the same address,
which is read twice and so allocated once more beforehand.

The receiver of a call of another program is read once for each argument, once for the event and once
for the result.
-/

namespace FlatHeap

open Lower FlatHeap.Frame CompileError

namespace Rules

variable {E : CompileError → Prop} {env : MethodEnv} {s s' : Frame}
  {held kept carried : List VarRef} {v receiver : VarRef} {i : Bytecode.Instruction} {m : MethodRef}

/-! ## Other programs -/

lemma harmless_namingOf {t : TypeRef} {e : CompileError} (h : env.namingOf t = .error e) :
    e.Harmless := by
  unfold ClassEnv.namingOf at h
  split_ifs at h
  obtain ⟨name, first, second, hcause⟩ := Naming.ofClass_error h
  constructor
  · rw [aboutTemporary, hcause]
  · rw [aboutPlace, hcause]

lemma fits_namingOf {t : TypeRef} {n : Naming} (hfits : env.naming.Fits env.md)
    (h : env.namingOf t = .ok n) : n.Fits env.md := by
  unfold ClassEnv.namingOf at h
  split_ifs at h
  · obtain rfl := Except.ok.inj h
    exact hfits
  · exact Naming.ofClass_fits h

lemma callOut_meets {signature : String} {inputs : List VarRef}
    (hvoid : env.IsVoid signature)
    (h : s.Balanced env (inputs ++ (s.stack ++ held)) kept) :
    Meets (Advances env carried) Harmless (invoke signature inputs none) env s fun _ s' =>
      s'.Balanced env (s'.stack ++ held) kept :=
  (invokeVoid_works hvoid h).works.mono fun _ s' _ hs => by
    rw [hs.1.stack_eq]
    exact hs.2.1

lemma inputs_of_named {c : VarRef} (h : s.Balanced env (v :: receiver :: held) kept)
    (hc : env.Weightless s.draft.vars c) : s.Balanced env ([receiver, c, v] ++ held) kept :=
  (h.hold hc).perm (@List.perm_middle _ receiver [c, v] held)

lemma remoteField_clean : remoteField.Clean := by
  intro env i s held _ h
  simp only [remoteField, meets_read_bind]
  refine (field_meets i).look fun f _ => ?_
  refine meets_ite (fun _ => meets_pure rfl) fun _ => ?_
  refine (ofExcept_meets fun e he => harmless_namingOf he).look fun naming _ => ?_
  refine (ofExcept_meets fun e he => harmless_lookup he).look fun symbol _ => ?_
  refine (textConstant_meets h symbol.emitted).silently.bind fun name s₄ _ h₄ => ?_
  obtain ⟨w₄, hb₄, hname⟩ := h₄
  rw [← w₄.stack_eq] at hb₄
  refine meets_ite (fun _ => ?_) fun _ => ?_
  · refine popTwo_meets hb₄ fun receiver v s₅ g₅ hb₅ => ?_
    refine (convert_works _ (hb₅.perm (.swap v receiver _))).works.bind fun v s₆ _ h₆ => ?_
    obtain ⟨w₆, hb₆, -⟩ := h₆
    have hname₆ : env.Weightless s₆.draft.vars name :=
      (hname.grows (g₅.1.vars.trans w₆.vars)).weightless
    have hb₆ : s₆.Balanced env ([receiver, name, v] ++ (s₆.stack ++ held)) [] := by
      rw [w₆.stack_eq]
      exact inputs_of_named hb₆ hname₆
    exact (callOut_meets .setVariable hb₆).claim
  · refine popOne_meets hb₄ fun receiver s₅ g₅ hb₅ => ?_
    have hname₅ : env.Weightless s₅.draft.vars name := (hname.grows g₅.1.vars).weightless
    have hb₅ : s₅.Balanced env ([receiver, name] ++ (s₅.stack ++ held)) [] :=
      (hb₅.hold hname₅).perm (.swap receiver name _)
    exact (invokeResult_meets _ hb₅).claim

/-- **Setting parameters** uses up the arguments, and one read of the receiver for each. -/
lemma setRemoteParameters_meets (entries : List (VarRef × ParamDecl × String))
    (h : s.Balanced env (List.replicate entries.length receiver ++ (entries.map Prod.fst ++ held))
      kept) :
    Meets (Works env held) Harmless (setRemoteParameters receiver entries) env s fun _ s' =>
      s'.Balanced env held kept := by
  induction entries generalizing s with
  | nil => exact meets_pure h
  | cons e entries ih =>
    obtain ⟨arg, p, name⟩ := e
    set rest := List.replicate entries.length receiver ++ (entries.map Prod.fst ++ held) with hrest
    have hb : s.Balanced env (arg :: receiver :: rest) kept :=
      h.perm (@List.perm_middle _ arg (List.replicate (entries.length + 1) receiver) _)
    rw [setRemoteParameters]
    have hheld : ∀ v ∈ held, v ∈ rest := by simp +contextual [hrest]
    refine ((convert_works _ hb).sparing (by simp +contextual [hheld]) fun _ => id).bind
      fun v s₁ _ h₁ => ?_
    refine (textConstant_meets h₁.1 name).bind fun c s₂ _ h₂ => ?_
    have hb₂ : s₂.Balanced env ([receiver, c, v] ++ rest) kept :=
      inputs_of_named h₂.1 h₂.2.weightless
    rw [meets_read_bind]
    refine ((invokeVoid_works .setVariable hb₂).sparing hheld fun _ => id).bind fun _ s₃ _ h₃ => ?_
    exact ih h₃.1

lemma setRemoteParameters_address (entries : List (VarRef × ParamDecl × String))
    (h : s.Balanced env (receiver :: (entries.map Prod.fst ++ held)) kept)
    (ha : (s.draft.vars.get receiver).isAddress = true) :
    Meets (Works env held) Harmless (setRemoteParameters receiver entries) env s fun _ s' =>
      s' = s ∧ entries = [] := by
  cases entries with
  | nil => exact meets_pure ⟨rfl, rfl⟩
  | cons e entries =>
    obtain ⟨arg, p, name⟩ := e
    rw [setRemoteParameters]
    refine ((convert_works _ (h.perm (.swap arg receiver _))).sparing (by simp +contextual)
      fun _ => id).bind fun v s₁ g₁ h₁ => ?_
    refine (textConstant_meets h₁.1 name).bind fun c s₂ g₂ h₂ => ?_
    have hb₂ : s₂.Balanced env ([receiver, c, v] ++ (entries.map Prod.fst ++ held)) kept :=
      inputs_of_named h₂.1 h₂.2.weightless
    have ha₂ : (s₂.draft.vars.get receiver).isAddress = true :=
      ((g₁.vars.trans g₂.vars).isAddress_eq (h.usable_hand (by simp)).has).trans ha
    rw [meets_read_bind]
    refine ((invokeVoid_works .setVariable hb₂).sparing (by simp +contextual) fun _ => id).bind fun _ s₃ _ h₃ => ?_
    simp [h₃.2 receiver (by simp)] at ha₂

lemma remoteCall_clean : remoteCall.Clean := by
  intro env i s held hsite h
  simp only [remoteCall, meets_read_bind]
  refine (method_meets i).look fun m _ => ?_
  refine meets_ite (fun _ => meets_pure rfl) fun _ => ?_
  split
  · exact meets_refuse (harmless_unsupported _)
  refine (ofExcept_meets fun e he => harmless_namingOf he).look fun naming hnaming => ?_
  refine (ofExcept_meets fun e he => harmless_lookup he).look fun symbol hsymbol => ?_
  obtain ⟨hmem, hmember⟩ := mem_of_lookup_naming hsymbol
  have hlen := (fits_namingOf hsite.fits hnaming symbol hmem m hmember).2
  refine (popMany_meets _ h (harmless_invariant rfl)).bind fun args s₄ _ h₄ => ?_
  obtain ⟨hb₄, hargs, -, -⟩ := h₄
  refine (popStack_meets args hb₄ (harmless_invariant rfl)).bind fun receiver s₅ _ h₅ => ?_
  refine (allocate_works _ h₅.1).works.bind fun _ s₆ _ h₆ => ?_
  obtain ⟨w₆, hb₆⟩ := h₆
  rw [← w₆.stack_eq] at hb₆
  have hentries : (args.zip ((env.md.method m).params.zip symbol.params)).map Prod.fst = args :=
    List.map_fst_zip (by simp [hargs, hlen])
  generalize args.zip ((env.md.method m).params.zip symbol.params) = entries at hentries ⊢
  subst hentries
  rcases hb₆ with ⟨ha, hb₆⟩ | hb₆
  · refine (setRemoteParameters_address entries hb₆ ha).works.bind fun _ s₇ _ h₇ => ?_
    obtain ⟨-, rfl, rfl⟩ := h₇
    refine (textConstant_meets hb₆ symbol.emitted).bind fun event s₈ g₈ h₈ => ?_
    have hb₈ : s₈.Balanced env ([receiver, event] ++ (s₇.stack ++ held)) [] :=
      (h₈.1.hold h₈.2.weightless).perm (.swap receiver event _)
    refine (invokeVoid_works .sendEvent hb₈).works.bind fun _ s₉ _ h₉ => ?_
    have ha₈ := (g₈.vars.isAddress_eq (hb₆.usable_hand (by simp)).has).trans ha
    simp [h₉.2.2 receiver (by simp)] at ha₈
  · set further := List.replicate (if symbol.result.isSome then 1 else 0) receiver with hfurther
    have hb₆ : s₆.Balanced env (List.replicate entries.length receiver ++ (entries.map Prod.fst ++
        (receiver :: (further ++ (s₆.stack ++ held))))) [] := by
      refine hb₆.perm (List.perm_iff_count.2 fun v => ?_)
      simp only [hfurther, List.length_map, List.replicate_add, List.count_append, List.count_cons]
      omega
    refine (setRemoteParameters_meets _ hb₆).works.bind fun _ s₇ _ h₇ => ?_
    obtain ⟨w₇, hb₇⟩ := h₇
    refine (textConstant_meets hb₇ symbol.emitted).silently.bind fun event s₈ _ h₈ => ?_
    obtain ⟨w₈, hb₈, hevent⟩ := h₈
    have hb₈ : s₈.Balanced env ([receiver, event] ++ (further ++ (s₆.stack ++ held))) [] :=
      (hb₈.hold hevent.weightless).perm (.swap receiver event _)
    refine (invokeVoid_works .sendEvent hb₈).works.bind fun _ s₉ _ h₉ => ?_
    obtain ⟨w₉, hb₉, -⟩ := h₉
    rw [← w₇.stack_eq, ← w₈.stack_eq, ← w₉.stack_eq] at hb₉
    cases hresult : symbol.result with
    | none =>
      rw [hresult] at hfurther
      rw [hfurther] at hb₉
      exact meets_pure hb₉
    | some result =>
      rw [hresult] at hfurther
      rw [hfurther] at hb₉
      refine (textConstant_meets hb₉ result).silently.bind fun name s₁₀ _ h₁₀ => ?_
      obtain ⟨w₁₀, hb₁₀, hname⟩ := h₁₀
      rw [← w₁₀.stack_eq] at hb₁₀
      have hb₁₀ : s₁₀.Balanced env ([receiver, name] ++ (s₁₀.stack ++ held)) [] :=
        (hb₁₀.hold hname.weightless).perm (.swap receiver name _)
      exact (invokeResult_meets _ hb₁₀).claim

/-! ## Calls of the host -/

lemma perm_below (v : VarRef) (l l' held : List VarRef) :
    (v :: (l ++ (l' ++ held))).Perm (l ++ (l' ++ v :: held)) := by
  simp only [← List.append_assoc]
  exact List.perm_middle.symm

lemma snapshotSlot_meets {l : List VarRef} {target : VarRef} (ht : env.IsSlot s.draft.vars target)
    (h : s.Balanced env (l ++ (s.stack ++ held)) []) :
    Meets (Advances env carried) Harmless (snapshot (· == target)) env s fun _ s' =>
      s'.Balanced env (l ++ (s'.stack ++ held)) [] ∧ env.IsSlot s'.draft.vars target := by
  have hb : s.Balanced env (s.stack ++ (l ++ held)) [] :=
    h.perm (List.perm_append_comm_assoc _ _ _)
  refine ((snapshot_meets _ hb fun v _ hv => ?_).assigns fun _ => False.elim).mono fun _ s' _ h' => ?_
  · obtain rfl : v = target := beq_iff_eq.1 hv
    exact ht
  · exact ⟨h'.2.1.perm (List.perm_append_comm_assoc _ _ _), ht.grows h'.1⟩

/-- **Arguments are used up** as inputs of a host operation. -/
lemma hostInputs_meets (entries : List (VarRef × ParamDecl))
    (h : s.Balanced env (entries.map Prod.fst ++ (s.stack ++ held)) []) :
    Meets (Advances env carried) Harmless (hostInputs entries) env s fun inputs s' =>
      s'.Balanced env (inputs ++ (s'.stack ++ held)) [] ∧ inputs.length = entries.length := by
  induction entries generalizing s held with
  | nil => exact meets_pure ⟨h, rfl⟩
  | cons e entries ih =>
    obtain ⟨arg, p⟩ := e
    -- The inputs of the other arguments, with the first one in hand.
    have next (input : VarRef) {s₁ : Frame}
        (hb : s₁.Balanced env (input :: (entries.map Prod.fst ++ (s₁.stack ++ held))) []) :
        Meets (Advances env carried) Harmless (do
          let inputs ← hostInputs entries
          pure (input :: inputs)) env s₁ fun inputs s' =>
            s'.Balanced env (inputs ++ (s'.stack ++ held)) [] ∧
              inputs.length = entries.length + 1 := by
      refine (ih (hb.perm (perm_below _ _ _ _))).bind fun inputs s₂ _ h₂ => ?_
      exact meets_pure ⟨h₂.1.perm (perm_below _ _ _ _).symm, by simp [h₂.2]⟩
    rw [hostInputs]
    refine meets_ite (fun _ => ?_) fun _ => ?_
    · rw [meets_var_bind]
      split
      · rename_i target hk
        obtain ⟨hb, hslot⟩ := slot_of_address h hk
        refine (snapshotSlot_meets hslot hb).bind fun _ s₁ _ h₁ => ?_
        rw [pure_bind]
        exact next target (h₁.1.hold h₁.2.weightless)
      · exact meets_refuse (harmless_unsupported _)
    · have value {m : Lower VarRef} {l : List VarRef} (hm : Meets (Works env l) Harmless m env s fun out s' =>
          s'.Balanced env (out :: (entries.map Prod.fst ++ (s.stack ++ held))) []) :
          Meets (Advances env carried) Harmless (do
            let input ← m
            let inputs ← hostInputs entries
            pure (input :: inputs)) env s fun inputs s' =>
              s'.Balanced env (inputs ++ (s'.stack ++ held)) [] ∧
                inputs.length = entries.length + 1 := by
        refine hm.works.bind fun input s₁ _ h₁ => ?_
        rw [← h₁.1.stack_eq] at h₁
        exact next input h₁.2
      rw [meets_metadata_bind]
      split
      · exact value (loadIndirect_works h)
      · exact value (loadIndirect_works h)
      · exact value ((convert_works _ h).mono fun _ _ _ h₁ => h₁.1)

lemma discardAll_meets (vs : List VarRef) (h : s.Balanced env (vs ++ held) kept) :
    Meets Silent Harmless (discardAll vs) env s fun _ s' => s'.Balanced env held kept := by
  induction vs generalizing s with
  | nil => exact meets_pure h
  | cons v vs ih =>
    rw [discardAll]
    exact (discardVar_meets h).bind fun _ s₁ _ h₁ => ih h₁

/-- **Construction** uses up the inputs and the place where the value is to be. -/
lemma construct_meets (signature : String) (inputs : List VarRef) (t : TypeRef)
    (receiver : Option VarRef)
    (h : s.Balanced env (inputs ++ (receiver.toList ++ (s.stack ++ held))) []) :
    Meets (Advances env carried) Harmless (construct signature inputs t receiver) env s fun _ s' =>
      s'.Balanced env (s'.stack ++ held) [] := by
  cases receiver with
  | none => exact invokeResult_meets t h
  | some r =>
    have hb : s.Balanced env (r :: (inputs ++ (s.stack ++ held))) [] := h.perm List.perm_middle
    rw [construct, meets_var_bind]
    split
    · rename_i target hk
      obtain ⟨hb, hslot⟩ := slot_of_address hb hk
      refine (snapshotSlot_meets hslot hb).bind fun _ s₁ _ h₁ => ?_
      refine ((invokeSlot_works h₁.1 h₁.2).imp
        (fun _ g => Follows.rearranges g.toRearranges fun v e => e ▸ h₁.2) (fun _ => id)
        fun _ s' g hb' => ?_)
      rwa [g.stack_eq]
    · rename_i array index hk
      refine (invokeTemp_works t h).works.bind fun v s₁ _ h₁ => ?_
      obtain ⟨w₁, ⟨hb₁, -⟩, -⟩ := h₁
      have hk₁ := (w₁.vars.kind_eq (hb.usable_hand (by simp)).has).trans hk
      refine (arraySet_element hb₁ hk₁).works.mono fun _ s₂ _ h₂ => ?_
      rw [h₂.1.stack_eq, w₁.stack_eq]
      exact h₂.2
    · exact meets_refuse (harmless_unsupported _)

lemma hostOutcome_meets (signature : String) {c c' : Prop} [Decidable c] [Decidable c']
    (hvoid : ¬ c → c' → env.IsVoid signature)
    (t result : TypeRef) (entries : List (VarRef × ParamDecl)) (self : List VarRef)
    (receiver : Option VarRef) {s₀ : Frame}
    (h : s.Balanced env (entries.map Prod.fst ++ (s.stack ++
      (self ++ ((if c then receiver.toList else []) ++ held)))) []) :
    Meets (Advances env carried) Harmless (do
      let inputs ← hostInputs entries
      if c then do
        construct signature (self ++ inputs) t receiver
        pure true
      else if c' then do
        invoke signature (self ++ inputs) none
        pure true
      else do
        invokeResult signature (self ++ inputs) result
        pure true) env s (Settled env held s₀) := by
  refine (hostInputs_meets entries h).bind fun inputs s₁ _ h₁ => ?_
  have hb₁ : s₁.Balanced env ((self ++ inputs) ++
      ((if c then receiver.toList else []) ++ (s₁.stack ++ held))) [] := by
    refine h₁.1.perm (List.perm_iff_count.2 fun v => ?_)
    simp only [List.count_append]
    omega
  refine meets_ite (fun hc => ?_) fun hc => meets_ite (fun hc' => ?_) fun _ => ?_
  · rw [if_pos hc] at hb₁
    exact (construct_meets signature _ t receiver hb₁).claim
  · rw [if_neg hc] at hb₁
    exact (callOut_meets (hvoid hc hc') hb₁).claim
  · rw [if_neg hc] at hb₁
    exact (invokeResult_meets result hb₁).claim

lemma hostCall_clean : hostCall.Clean := by
  intro env i s held _ h
  simp only [hostCall, meets_read_bind]
  refine (method_meets i).look fun m _ => ?_
  refine meets_ite (fun _ => meets_refuse (harmless_unsupported _)) fun _ => ?_
  have hvoid : ¬ (env.md.method m).isCtor = true → env.md.kind (env.md.method m).result = .void →
      env.IsVoid (env.md.methodSignature env.options m) :=
    fun hctor => .method m (Bool.eq_false_of_not_eq_true hctor)
  refine (popMany_meets _ h (harmless_invariant rfl)).bind fun args s₂ _ h₂ => ?_
  obtain ⟨hb₂, hargs, -, -⟩ := h₂
  have hentries : (args.zip (env.md.method m).params).map Prod.fst = args :=
    List.map_fst_zip (by simp [hargs])
  generalize args.zip (env.md.method m).params = entries at hentries ⊢
  subst hentries
  refine meets_join (Q := fun receiver s' => s'.Balanced env (receiver.toList ++
    (entries.map Prod.fst ++ (s'.stack ++ held))) []) (fun _ => meets_pure hb₂) (fun _ => ?_)
    fun receiver s₃ _ hb₃ => ?_
  · rw [map_eq_pure_bind]
    refine (popStack_meets _ hb₂ (harmless_invariant rfl)).bind fun r s₃ _ h₃ => ?_
    exact meets_pure h₃.1
  refine meets_ite (fun hself => ?_) fun _ => ?_
  · -- The constructor of a base class, called on the program itself.
    obtain ⟨-, hself⟩ := Bool.and_eq_true_iff.1 hself
    obtain ⟨r, rfl, hr⟩ := (Option.any_eq_true _ _).1 hself
    obtain rfl : r = Draft.self := beq_iff_eq.1 hr
    have hb₃ : s₃.Balanced env (entries.map Prod.fst ++ (s₃.stack ++ held)) [] :=
      hb₃.letGo hb₃.weightless_self
    refine (discardAll_meets _ hb₃).silently.bind fun _ s₄ _ h₄ => ?_
    rw [← h₄.1.stack_eq] at h₄
    exact meets_pure h₄.2
  · cases receiver with
    | none =>
      rw [pure_bind]
      exact hostOutcome_meets _ hvoid _ _ _ [] none (by simpa using hb₃)
    | some r =>
      have hb₃ : s₃.Balanced env (r :: (entries.map Prod.fst ++ (s₃.stack ++ held))) [] := hb₃
      refine meets_ite (fun hc => ?_) fun hc => ?_
      · rw [pure_bind]
        refine hostOutcome_meets _ hvoid _ _ _ [] (some r) ?_
        rw [if_pos hc]
        exact hb₃.perm (perm_below _ _ _ _)
      · refine (loadIndirect_works hb₃).works.bind fun r' s₄ _ h₄ => ?_
        rw [← h₄.1.stack_eq] at h₄
        rw [pure_bind]
        refine hostOutcome_meets _ hvoid _ _ _ [r'] (some r) ?_
        rw [if_neg hc]
        exact h₄.2.perm (perm_below _ _ _ _)

lemma constrainedReceiver_clean : constrainedReceiver.Clean := fun _ _ _ _ _ h => meets_pure h

/-! ## Fields of the host -/

/-- **Setting a field** uses up the value and the place it is set in. -/
lemma setHostField_meets (f : FieldRef)
    (h : s.Balanced env (v :: receiver :: held) []) :
    Meets (Works env held) Harmless (setHostField (env.md.fieldSetter env.options f) receiver v) env s fun _ s' =>
      s'.Balanced env held [] := by
  have hb : s.Balanced env ([receiver, v] ++ held) [] := h.perm (.swap receiver v held)
  rw [setHostField, meets_var_bind]
  split
  · rename_i target hk
    obtain ⟨hb, hslot⟩ := slot_of_address hb hk
    have hb : s.Balanced env ([target, v] ++ held) [] := hb.hold hslot.weightless
    exact (invokeVoid_works (.setter f) hb).mono fun _ _ _ h' => h'.1
  · rename_i array index hk
    have hhas := (hb.usable_hand (v := receiver) (by simp)).has
    have hallocate := allocateElement_meets (E := Harmless) hb (by simp) hk
    rw [← bind_assoc]
    refine (hallocate.imp (fun _ g => Admits.silent g) (fun _ => id) fun _ _ _ => id).bind
      fun _ s₁ g₁ hb₁ => ?_
    have hk₁ := (g₁.vars.kind_eq hhas).trans hk
    refine ((arrayGet_works hb₁ hk₁).sparing (by simp +contextual) fun _ => id).bind
      fun out s₂ g₂ h₂ => ?_
    obtain ⟨hb₂, htemp⟩ := h₂
    refine (allocate_meets hb₂ (by simp) (Variables.plain_of_not_isAddress htemp.readable.value) 1).bind fun _ s₃ g₃ hb₃ => ?_
    have hb₃ : s₃.Balanced env ([out, v] ++ (out :: receiver :: held)) [] := by
      refine hb₃.perm (List.perm_iff_count.2 fun x => ?_)
      simp only [List.count_append, List.count_cons, List.replicate_one, List.count_nil]
      omega
    refine ((invokeVoid_works (.setter f) hb₃).sparing (by simp +contextual)
      fun _ => id).bind fun _ s₄ g₄ h₄ => ?_
    have g := (g₂.vars.trans g₃.vars).trans g₄.vars
    exact arraySet_element h₄.1 ((g.kind_eq (g₁.vars.has hhas)).trans hk₁)
  · exact (invokeVoid_works (.setter f) hb).mono fun _ _ _ h' => h'.1

lemma hostField_clean : hostField.Clean := by
  intro env i s held hsite h
  simp only [hostField, meets_read_bind]
  refine (field_meets i).look fun f _ => ?_
  refine meets_ite (fun _ => meets_refuse (harmless_unsupported _)) fun _ => ?_
  split
  · refine popOne_meets h fun receiver s₂ _ hb₂ => ?_
    refine (loadIndirect_works hb₂).works.bind fun out s₃ _ h₃ => ?_
    rw [← h₃.1.stack_eq] at h₃
    have hb₃ : s₃.Balanced env ([out] ++ (s₃.stack ++ held)) [] := h₃.2
    exact (invokeResult_meets _ hb₃).claim
  · refine popTwo_meets h fun receiver v s₂ _ hb₂ => ?_
    refine (convert_works _ (hb₂.perm (.swap v receiver _))).works.bind fun v s₃ _ h₃ => ?_
    rw [← h₃.1.stack_eq] at h₃
    refine Meets.claim ((setHostField_meets f h₃.2.1).works.mono fun _ s₄ _ h₄ => ?_)
    rw [h₄.1.stack_eq]
    exact h₄.2
  · exact meets_refuse (harmless_unsupported _)

lemma staticField_clean : staticField.Clean := by
  intro env i s held hsite h
  simp only [staticField, meets_read_bind]
  refine (field_meets i).look fun f _ => ?_
  refine meets_ite (fun _ => meets_refuse (harmless_unsupported _)) fun _ => ?_
  split
  · exact (pushConstant_meets _ _ h).claimBind
  refine meets_ite (fun _ => meets_refuse (harmless_unsupported _)) fun _ => ?_
  refine meets_ite (fun _ => ?_) fun _ => ?_
  · refine popOne_meets h fun v s₂ _ hb₂ => ?_
    refine (convert_works _ hb₂).works.bind fun v s₃ _ h₃ => ?_
    rw [← h₃.1.stack_eq] at h₃
    have hb₃ : s₃.Balanced env ([v] ++ (s₃.stack ++ held)) [] := h₃.2.1
    exact (callOut_meets (.setter f) hb₃).claim
  · have hb : s.Balanced env ([] ++ (s.stack ++ held)) [] := h
    exact (invokeResult_meets _ hb).claim

end Rules

end FlatHeap
