import FlatHeap.Rules.Standard
import FlatHeap.Proofs.Rules.OutsideMembers

/-!
# Accounts of instructions

An instruction is offered to the rules entered for its opcode, one after the other, until one claims
it.  A rule that declines has done nothing, so what holds for the rules holds for the offer.  Two of
the standard rules lose variables, and each is alone under its opcode; all others are clean
(`Rulebook.standard_keepsAt`).
-/

namespace FlatHeap

open Lower FlatHeap.Frame CompileError Rules
open Bytecode (Instruction Opcode)

variable {env : MethodEnv} {i : Instruction} {s s' : Frame} {held : List VarRef} {r : Rule}
  {rules : List Rule}

/-! ## Lists of rules -/

def Lower.lostAt (i : Instruction) (s : Frame) : List VarRef :=
  match i.opcode with
  | .switch => lostSelector i s
  | .ldelema => lostElement s
  | _ => []

lemma Lower.lostAt_eq_nil (hswitch : i.opcode ≠ .switch) (hldelema : i.opcode ≠ .ldelema) :
    lostAt i s = [] := by
  unfold lostAt
  split <;> simp_all

namespace Rule

/-- The rule keeps the books but for what the instruction loses. -/
def KeepsAt (env : MethodEnv) (i : Instruction) (r : Rule) : Prop :=
  ∀ (s : Frame) (held : List VarRef), Site env i s → s.Balanced env (s.stack ++ held) [] →
    Meets (Advances env (carriedAt i s)) Harmless (r.build i) env s (Settled env (lostAt i s ++ held) s)

lemma KeepsAt.of_clean (h : r.CleanAt env i) (hlost : ∀ s, lostAt i s = []) : r.KeepsAt env i := by
  intro s held hsite hb
  rw [hlost s]
  exact h hsite hb

end Rule

/-- **Offering an instruction** to rules that keep the books. -/
lemma Lower.offer_meets (hrules : ∀ r ∈ rules, r.KeepsAt env i) (hsite : Site env i s)
    (h : s.Balanced env (s.stack ++ held) []) :
    Meets (Advances env (carriedAt i s)) Harmless (offer i rules) env s fun _ s' =>
      s'.Balanced env (s'.stack ++ (lostAt i s ++ held)) [] := by
  induction rules with
  | nil =>
    rw [offer, meets_metadata_bind]
    exact meets_throw ⟨rfl, rfl⟩
  | cons r rules ih =>
    obtain ⟨hkeeps, hrest⟩ := List.forall_mem_cons.1 hrules
    rw [offer]
    refine (hkeeps s held hsite h).bind fun claimed s' _ hs => ?_
    cases claimed with
    | true => exact meets_pure hs
    | false =>
      obtain rfl : s' = s := hs
      exact ih hrest

/-! ## The standard rules -/

namespace Rulebook

lemma insertEntry_perm (e : RuleEntry) (entries : List RuleEntry) :
    (insertEntry e entries).Perm (e :: entries) := by
  induction entries with
  | nil => exact .refl _
  | cons x rest ih =>
    unfold insertEntry
    split_ifs
    · exact (ih.cons x).trans (.swap e x rest)
    · exact .refl _

lemma mem_rulesFor_register {b : Rulebook} {opcodes : List Opcode} {priority : Int} {scope : Scope}
    {rule : Rule} {op : Opcode} : r ∈ (b.register opcodes priority scope rule).rulesFor op ↔
      op ∈ opcodes ∧ r = rule ∨ r ∈ b.rulesFor op := by
  unfold rulesFor register
  rw [((insertEntry_perm _ _).flatMap_right _).mem_iff, List.flatMap_cons, List.mem_append,
    List.mem_replicate, ← Nat.pos_iff_ne_zero, List.count_pos_iff]

lemma mem_rulesFor_standard {op : Opcode} (h : r ∈ standard.rulesFor op) :
    ∃ e ∈ standardRules, op ∈ e.1 ∧ r = e.2.2 := by
  have hfold (f : Rulebook → List Opcode × Int × Rule → Rulebook)
      (hf : ∀ b e, f b e = b.register e.1 e.2.1 .permanent e.2.2)
      (l : List (List Opcode × Int × Rule)) (b : Rulebook) (h : r ∈ (l.foldl f b).rulesFor op) :
      r ∈ b.rulesFor op ∨ ∃ e ∈ l, op ∈ e.1 ∧ r = e.2.2 := by
    induction l generalizing b with
    | nil => exact .inl h
    | cons e l ih =>
      rcases ih _ h with h | ⟨e', he', h'⟩
      · rw [hf] at h
        rcases mem_rulesFor_register.1 h with h | h
        · exact .inr ⟨e, by simp, h⟩
        · exact .inl h
      · exact .inr ⟨e', by simp [he'], h'⟩
  rcases hfold _ (fun _ _ => rfl) standardRules {} h with h | h
  · cases h
  · exact h

lemma standard_cleanAt (hswitch : i.opcode ≠ .switch) (hldelema : i.opcode ≠ .ldelema) :
    ∀ e ∈ standardRules, i.opcode ∈ e.1 → e.2.2.CleanAt env i := by
  have hdecides {l : List Opcode} (n : Nat) (hl : ∀ op ∈ l, op.decides = n) (hi : i.opcode ∈ l) :
      i.opcode.decides = n := hl _ hi
  simp only [standardRules, List.forall_mem_cons]
  refine ⟨fun _ => noOp_clean env i, fun _ => loadArgument_clean env i,
    fun _ => storeArgument_clean env i, fun _ => loadLocal_clean env i,
    fun _ => storeLocal_clean env i, fun _ => loadAddress_clean env i,
    fun _ => loadConstant_clean env i, fun _ => duplicate_clean env i,
    fun _ => dropTop_clean env i, fun _ => binary_clean env i, fun _ => unary_clean env i,
    fun _ => conversion_clean env i, fun _ => comparison_clean env i,
    fun h => jumping_cleanAt (hdecides 0 (by decide) h),
    fun h => testing_cleanAt (hdecides 1 (by decide) h),
    fun h => comparingBranch_cleanAt (hdecides 2 (by decide) h), fun h => absurd (List.mem_singleton.1 h) hswitch,
    fun _ => returning_clean env i, fun _ => throwing_clean env i,
    fun _ => optionals_clean env i, fun _ => ownCall_clean env i, fun _ => remoteCall_clean env i,
    fun _ => hostCall_clean env i, fun _ => constrainedReceiver_clean env i,
    fun _ => ownField_clean env i, fun _ => remoteField_clean env i,
    fun _ => hostField_clean env i, fun _ => staticField_clean env i, fun _ => casts_clean env i,
    fun _ => arrays_clean env i, fun _ => loadElement_clean env i,
    fun _ => storeElement_clean env i,
    fun h => absurd (List.mem_singleton.1 h) hldelema, fun _ => loadThrough_clean env i,
    fun _ => storeThrough_clean env i, fun _ => resetThrough_clean env i, by simp⟩

/-- **The standard rules keep the books** when they are offered an instruction they are for. -/
lemma standard_keepsAt (env : MethodEnv) (i : Instruction) :
    ∀ r ∈ standard.rulesFor i.opcode, r.KeepsAt env i := by
  by_cases hswitch : i.opcode = .switch
  · rw [hswitch]
    refine List.forall_mem_singleton.2 fun s held hsite h => ?_
    rw [lostAt, hswitch]
    exact jumpTable_meets (by rw [hswitch]; rfl) hsite h
  by_cases hldelema : i.opcode = .ldelema
  · rw [hldelema]
    refine List.forall_mem_singleton.2 fun s held hsite h => ?_
    rw [lostAt, hldelema]
    exact loadElementAddress_meets h
  · intro r hr
    obtain ⟨e, he, hi, rfl⟩ := mem_rulesFor_standard hr
    exact .of_clean (standard_cleanAt hswitch hldelema e he hi)
      fun _ => lostAt_eq_nil hswitch hldelema

/-- The standard rules, or these and the rule of a class. -/
inductive IsStandard : Rulebook → Prop
  | plain : IsStandard standard
  | withAccessors (accessors : List (MethodRef × Accessor)) : IsStandard
    (standard.register [.call, .callvirt] accessorPriority .oneClass (accessorShortcut accessors))

lemma isStandard_of_addClassRules {md : Metadata} {naming : Naming} {o : Options} {rules : Rulebook}
    (h : standard.addClassRules md naming o = .ok rules) : rules.IsStandard := by
  unfold addClassRules at h
  split_ifs at h
  · obtain rfl := Except.ok.inj h
    exact .plain
  · obtain ⟨accessors, -, h⟩ := except_bind_eq_ok_iff.1 h
    obtain rfl := Except.ok.inj h
    exact .withAccessors accessors

lemma IsStandard.keepsAt {rules : Rulebook} (h : rules.IsStandard) (env : MethodEnv)
    (i : Instruction) : ∀ r ∈ rules.rulesFor i.opcode, r.KeepsAt env i := by
  cases h with
  | plain => exact standard_keepsAt env i
  | withAccessors accessors =>
    intro r hr
    rcases mem_rulesFor_register.1 hr with ⟨hi, rfl⟩ | hr
    · refine .of_clean (accessorShortcut_clean accessors env i) fun _ => lostAt_eq_nil ?_ ?_ <;>
        rintro h <;> simp [h] at hi
    · exact standard_keepsAt env i r hr

end Rulebook

/-- **Lowering an instruction** keeps the books but for what the instruction loses. -/
lemma Lower.dispatch_meets {rules : Rulebook} (hrules : rules.IsStandard) (hsite : Site env i s)
    (h : s.Balanced env (s.stack ++ held) []) :
    Meets (Advances env (carriedAt i s)) Harmless (dispatch rules i) env s fun _ s' =>
      s'.Balanced env (s'.stack ++ (lostAt i s ++ held)) [] :=
  offer_meets (hrules.keepsAt env i) hsite h

end FlatHeap
