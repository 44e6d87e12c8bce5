import FlatHeap.Proofs.Lowering.Faring
import FlatHeap.Proofs.Lowering.Operands

/-!
# Slots, assignments and results

The operations of a lowering that write slots of the program.  All of them are specified in the same
way: the hand before, the hand after, and which variables the recorded code may write.

Before a slot is written, the entries of the operand stack that name it are replaced by copies.  The
loop that does so walks over the operand stack as it was; its invariant is that the part not yet
walked over is unchanged, and that every copy made so far has a place on the operand stack, so that a
further read of it may be allocated.

Assignments are specified by what their code does as well.  A copy may fault, so they *fare* one way or
the other: `Frame.Snaps` and `Frame.Assigns` say what is in the variables if nothing has faulted, and
which contents are to blame if something has.
-/

namespace FlatHeap

variable {k : Nat}

lemma perm_cons_set {α : Type} {l : List α} {v : α} (c : α) (h : l[k]? = some v) :
    (c :: l).Perm (v :: l.set k c) := by
  induction l generalizing k with
  | nil => simp at h
  | cons x l ih =>
    cases k with
    | zero =>
      obtain rfl : x = v := by simpa using h
      exact .swap x c l
    | succ k =>
      exact (List.Perm.swap x c l).trans (((ih (by simpa using h)).cons x).trans (.swap v x _))

lemma mem_of_lookup {α β : Type} [BEq α] [LawfulBEq α] {l : List (α × β)} {a : α} {b : β}
    (h : l.lookup a = some b) : (a, b) ∈ l := by
  obtain ⟨l₁, l₂, rfl, -⟩ := List.lookup_eq_some_iff.1 h
  simp

/-! ## Snapshots -/

namespace Frame

open Function

variable {env : MethodEnv} {K : Variables} {held : List VarRef} {W W' : VarRef → Prop}
  {s s₁ s' s'' : Frame} {σ τ : Store} {v c target : VarRef}

/-- There is a slot on the operand stack whose contents do not fit its type. -/
def Unfit (env : MethodEnv) (K : Variables) (s : Frame) (σ : Store) : Prop :=
  ∃ v ∈ s.stack, env.IsSlot K v ∧ Host.Machine.fits (σ v) (env.ident (K.get v).type) = false

def Restacked (s s' : Frame) : Prop := ∀ x ∈ s'.stack, x ∈ s.stack ∨ s'.draft.vars.IsTemp x

/-- **Snapshots.**  Entries of the operand stack have been replaced by copies.  The code keeps what is
needed, unless a slot on the operand stack did not fit. -/
structure Snaps (env : MethodEnv) (held : List VarRef) (s s' : Frame) : Prop where
  restacked : Restacked s s'
  fares : ∀ K σ, s'.draft.vars.Grows K →
    Fares env K s s' (Unfit env K s σ) σ (Keeping K (s.Keeps held) σ)

lemma Restacked.trans (h : Restacked s s') (h' : Restacked s' s'')
    (g : s'.draft.vars.Grows s''.draft.vars) : Restacked s s'' := by
  intro x hx
  rcases h' x hx with hx | ht
  · exact (h x hx).imp_right g.isTemp
  · exact .inr ht

lemma Unfit.sooner_or {written : List VarRef} (h : Unfit env K s' τ) (hs : Restacked s s')
    (g : s'.draft.vars.Grows K) (hk : ∀ z, env.IsSlot K z → z ∉ written → τ z = σ z) :
    Unfit env K s σ ∨
      ∃ z ∈ written, Host.Machine.fits (τ z) (env.ident (K.get z).type) = false := by
  obtain ⟨v, hv, hslot, hfit⟩ := h
  by_cases hw : v ∈ written
  · exact .inr ⟨v, hw, hfit⟩
  · refine .inl ⟨v, (hs v hv).resolve_right fun ht => ?_, hslot, hk v hslot hw ▸ hfit⟩
    exact hslot.not_temporary (g.isTemp ht).2

lemma Unfit.sooner (h : Unfit env K s' τ) (hs : Restacked s s') (g : s'.draft.vars.Grows K)
    (hk : ∀ z, env.IsSlot K z → τ z = σ z) : Unfit env K s σ :=
  (h.sooner_or hs g fun z hz _ => hk z hz).resolve_right fun ⟨_, hin, _⟩ => List.not_mem_nil hin

lemma fares_taken {t : TypeRef} {kept : List VarRef} (h : Lower.Taken env held kept v t s c s')
    (hK : s'.draft.vars.Grows K) :
    Fares env K s s' (Host.Machine.fits (σ v) (env.ident t) = false) σ fun τ =>
      τ c = σ v ∧ Keeping K (s.Keeps (v :: held)) σ τ := by
  obtain ⟨-, hfresh, s₁, hsil, hrec⟩ := h
  refine ((fares_copy hrec).mono (fun hfit => ?_) ?_).after hsil.records.code
  · rwa [hK.type_eq hfresh.isTemp.1, hfresh.type_eq] at hfit
  · rintro τ ⟨rfl, -⟩
    refine ⟨update_self .., fun z hz => update_of_ne (hfresh.ne z hz) .., fun z hz => ?_⟩
    refine update_of_ne ?_ ..
    rintro rfl
    exact hz (hK.isTemp hfresh.isTemp).2

lemma Rearranges.continues (h : Rearranges env held W s s') :
    ∃ ps, s.draft.Continues env s'.draft ps := by
  obtain ⟨ps, hps, -⟩ := h.code
  exact ⟨ps, hps⟩

namespace Snaps

lemma of_silent (hs : Silent s s₁) (hd : s'.draft = s₁.draft) (he : Restacked s s') :
    Snaps env held s s' :=
  ⟨he, fun _ _ _ => (hs.leads.fares .refl).redraft hd⟩

lemma of_copy {kept : List VarRef}
    (hc : Lower.Taken env (s.stack ++ held) kept v (s.draft.vars.get v).type s c s₁)
    (g : s.draft.vars.Grows s₁.draft.vars) (hd : s'.draft = s₁.draft) (hin : v ∈ s.stack)
    (hv : env.IsSlot s.draft.vars v) (he : Restacked s s') : Snaps env held s s' := by
  refine ⟨he, fun K σ hK => ?_⟩
  rw [hd] at hK
  refine ((fares_taken hc hK).mono (fun hfit => ?_) fun τ hτ => ?_).redraft hd
  · rw [← (g.trans hK).type_eq hv.1] at hfit
    exact ⟨v, hin, hv.grows (g.trans hK), hfit⟩
  · exact ⟨fun z hz => hτ.2.needed z (hz.mono (by simp +contextual)), hτ.2.lasting⟩

lemma trans (h : Snaps env held s s') (h' : Snaps env held s' s'')
    (g : Rearranges env held W s s') (g' : Rearranges env held W' s' s'') :
    Snaps env held s s'' := by
  refine ⟨h.restacked.trans h'.restacked g'.vars, fun K σ hK => ?_⟩
  refine (h.fares K σ (g'.vars.trans hK)).bind g'.continues fun τ hτ => ?_
  refine (h'.fares K τ hK).mono (fun hu => ?_) fun ρ hρ => ?_
  · exact hu.sooner h.restacked (g'.vars.trans hK) fun z hz => hτ.lasting z hz.not_temporary
  · exact hτ.trans hρ fun z hz => hz.later g.vars g.merges_eq

end Snaps

/-- **Assignments.**  A slot has been assigned a value.  If the code does not fault, the slot holds it
and everything else that is needed is kept; it faults only if a slot on the operand stack, or the
value, does not fit. -/
structure Assigns (env : MethodEnv) (held : List VarRef) (target v : VarRef) (s s' : Frame) :
    Prop where
  value : (s.draft.vars.get v).isAddress = false
  restacked : Restacked s s'
  fares : ∀ K σ, s'.draft.vars.Grows K →
    Fares env K s s'
      (Unfit env K s σ ∨ Host.Machine.fits (σ v) (env.ident (K.get target).type) = false) σ
      fun τ => τ target = σ v ∧
        (v = target ∨ Host.Machine.fits (σ v) (env.ident (K.get target).type) = true) ∧
        ∀ z, z ≠ target → s.Keeps held z ∨ K.kind z ≠ .temporary → τ z = σ z

lemma Snaps.assigns (h : Snaps env (v :: held) s s₁)
    (hrec : Records env (Lower.copyPieces v target) s₁ s') (hs : s'.stack = s₁.stack)
    (hv : s.draft.vars.Has v) (ha : (s.draft.vars.get v).isAddress = false) :
    Assigns env held target v s s' := by
  refine ⟨ha, fun x hx => ?_, fun K σ hK => ?_⟩
  · exact (h.restacked x (hs ▸ hx)).imp_right hrec.vars.isTemp
  refine ((h.fares K σ (hrec.vars.trans hK)).mono .inl fun _ => id).bind ⟨_, hrec.code⟩ fun τ hτ => ?_
  have hτv : τ v = σ v := hτ.needed v (keeps_of_mem hv (by simp))
  refine (fares_copy hrec).mono (fun hfit => .inr (hτv ▸ hfit)) ?_
  rintro ρ ⟨rfl, hfit⟩
  rw [hτv] at hfit ⊢
  refine ⟨update_self .., hfit, fun z hne hz => ?_⟩
  rw [update_of_ne hne]
  rcases hz with hz | hz
  · exact hτ.needed z (hz.mono (by simp +contextual))
  · exact hτ.lasting z hz

end Frame

namespace Lower

open FlatHeap.Frame CompileError

variable {R : Frame → Frame → Prop} {E : CompileError → Prop} {env env : MethodEnv} {s s' : Frame}
  {held kept carried inputs : List VarRef} {v w target slot : VarRef} {i : Bytecode.Instruction}
  {signature : String}

lemma setStack_meets [Restacks R] {c : VarRef} (h : s.Balanced env (c :: (s.stack ++ held)) kept)
    (hk : s.stack.reverse[k]? = some v) (hv : env.Weightless s.draft.vars v) :
    Meets R E (setStack k c) env s fun _ s' =>
      s'.Balanced env (s'.stack ++ held) kept ∧ s' = { s with stack := s'.stack } ∧
        s'.stack.reverse = s.stack.reverse.set k c ∧
        ∀ x ∈ s.stack, x = v ∨ x ∈ s'.stack := by
  have hswap : (c :: s.stack).Perm (v :: (s.stack.reverse.set k c).reverse) :=
    ((List.reverse_perm s.stack).symm.cons c).trans
      ((perm_cons_set c hk).trans ((List.reverse_perm _).symm.cons v))
  refine meets_of_ok (a := ()) (t := { s with stack := (s.stack.reverse.set k c).reverse }) rfl
    (Restacks.restack s _) ⟨?_, rfl, by simp, fun x hx => ?_⟩
  · exact Balanced.letGo (v := v) ((balanced_restack h _).perm (hswap.append_right held)) hv
  · exact List.mem_cons.1 (hswap.mem_iff.1 (List.mem_cons_of_mem c hx))

structure Walking (env : MethodEnv) (p : VarRef → Bool) (s : Frame) (entries : List (VarRef × Nat))
    (copies : List (VarRef × VarRef)) : Prop where
  there : ∀ e ∈ entries, s.stack.reverse[e.2]? = some e.1
  once : (entries.map Prod.snd).Nodup
  slots : ∀ e ∈ entries, p e.1 = true → env.IsSlot s.draft.vars e.1
  copied : ∀ e ∈ copies, e.2 ∈ s.stack ∧ s.draft.vars.IsTemp e.2

lemma Walking.tail {p : VarRef → Bool} {e : VarRef × Nat} {entries : List (VarRef × Nat)}
    {copies : List (VarRef × VarRef)} (h : Walking env p s (e :: entries) copies) :
    Walking env p s entries copies :=
  ⟨fun x hx => h.there x (List.mem_cons_of_mem e hx), (List.nodup_cons.1 h.once).2,
    fun x hx => h.slots x (List.mem_cons_of_mem e hx), h.copied⟩

lemma Walking.replaced {p : VarRef → Bool} {entries : List (VarRef × Nat)}
    {copies copies' : List (VarRef × VarRef)} {c : VarRef}
    (h : Walking env p s ((v, k) :: entries) copies) (hv : s.draft.vars.kind v ≠ .temporary)
    (g : s.draft.vars.Grows s'.draft.vars) (hs : s'.stack.reverse = s.stack.reverse.set k c)
    (hc : s'.draft.vars.IsTemp c) (hin : ∀ x ∈ s.stack, x = v ∨ x ∈ s'.stack)
    (hcopies : ∀ e ∈ copies', e ∈ copies ∨ e.2 = c) : Walking env p s' entries copies' := by
  have hk : s.stack.reverse[k]? = some v := h.there (v, k) (by simp)
  have hcin : c ∈ s'.stack := by
    rw [← List.mem_reverse, hs]
    exact List.mem_set (List.getElem?_eq_some_iff.1 hk).1 c
  refine ⟨fun e he => ?_, (List.nodup_cons.1 h.once).2, fun e he hp => ?_, fun e he => ?_⟩
  · have hin : e.2 ∈ entries.map Prod.snd := List.mem_map_of_mem he
    have hne : k ≠ e.2 := by
      rintro rfl
      exact (List.nodup_cons.1 h.once).1 hin
    rw [hs, List.getElem?_set_ne hne]
    exact h.there e (List.mem_cons_of_mem _ he)
  · exact (h.slots e (List.mem_cons_of_mem _ he) hp).grows g
  · rcases hcopies e he with hold | hnew
    · obtain ⟨hmem, htemp⟩ := h.copied e hold
      refine ⟨(hin e.2 hmem).resolve_left ?_, g.isTemp htemp⟩
      intro hev
      exact hv (hev ▸ htemp.2)
    · exact hnew ▸ ⟨hcin, hc⟩

lemma restacked_of_set {c : VarRef} (hs : s'.stack.reverse = s.stack.reverse.set k c)
    (hc : s'.draft.vars.IsTemp c) : Restacked s s' := by
  intro x hx
  rw [← List.mem_reverse, hs] at hx
  rcases List.mem_or_eq_of_mem_set hx with hx | rfl
  · exact .inl (List.mem_reverse.1 hx)
  · exact .inr hc

lemma Meets.rearranges {α : Type} {m : Lower α} {Q : α → Frame → Prop} {W : VarRef → Prop}
    (h : Meets (Works env held) E m env s Q) :
    Meets (Rearranges env held W) E m env s fun a s' => Works env held s s' ∧ Q a s' :=
  h.imp (fun _ g => g.toRearranges.mono (fun _ => id) fun _ => False.elim) (fun _ => id)
    fun _ _ g hQ => ⟨g, hQ⟩

lemma Meets.widen {α : Type} {m : Lower α} {Q : α → Frame → Prop} {held' : List VarRef}
    {W W' : VarRef → Prop} (h : Meets (Rearranges env held' W) E m env s Q)
    (hh : ∀ v ∈ held, v ∈ held') (hW : ∀ v, W v → W' v) :
    Meets (Rearranges env held W') E m env s fun a s' => Rearranges env held' W s s' ∧ Q a s' :=
  h.imp (fun _ g => g.mono hh fun v hv => .inl (hW v hv)) (fun _ => id) fun _ _ g hQ => ⟨g, hQ⟩

/-- **Snapshots**, by induction on what is still to be walked over. -/
lemma snapshotFrom_meets (p : VarRef → Bool) (entries : List (VarRef × Nat))
    (copies : List (VarRef × VarRef)) (h : s.Balanced env (s.stack ++ held) kept)
    (hw : Walking env p s entries copies) :
    Meets (Rearranges env held fun _ => False) Harmless (snapshotFrom p entries copies) env s fun _ s' =>
      s'.Balanced env (s'.stack ++ held) kept ∧ Snaps env held s s' := by
  induction entries generalizing s copies with
  | nil => exact meets_pure ⟨h, .of_silent (refl_of Silent s) rfl fun _ => .inl⟩
  | cons e entries ih =>
    obtain ⟨v, k⟩ := e
    have hk : s.stack.reverse[k]? = some v := hw.there (v, k) (by simp)
    have hmem : v ∈ s.stack := List.mem_reverse.1 (List.mem_of_getElem? hk)
    rw [snapshotFrom, meets_var_bind]
    split_ifs with hskip
    · exact ih copies h hw.tail
    simp only [Bool.or_eq_true, Bool.not_eq_true', not_or] at hskip
    obtain ⟨⟨hp, hnt⟩, -⟩ := hskip
    have hnt : s.draft.vars.kind v ≠ .temporary := mt Variables.isTemporary_iff_kind.2 hnt
    have hslot := hw.slots (v, k) (by simp) (by simpa using hp)
    have hwl : env.Weightless s.draft.vars v := hslot.weightless
    cases hl : copies.lookup v with
    | some c =>
      obtain ⟨hcin, hctemp⟩ := hw.copied (v, c) (mem_of_lookup hl)
      refine (allocate_meets h (List.mem_append_left _ hcin)
        (Variables.plain_of_temporary hctemp.2) 1).quietly.bind fun _ s₁ g h₁ => ?_
      obtain ⟨hsil, hb₁⟩ := h₁
      have hstack : s₁.stack = s.stack := by rw [hsil.rest]; rfl
      rw [← hstack] at hb₁
      refine (setStack_meets hb₁ (hstack ▸ hk) (hwl.grows g.vars)).bind fun _ s₂ g₂ h₂ => ?_
      obtain ⟨hb₂, hrest, hs₂, hin⟩ := h₂
      rw [hstack] at hs₂ hin
      have hdraft : s₂.draft = s₁.draft := by rw [hrest]
      have hctemp₂ : s₂.draft.vars.IsTemp c := hdraft ▸ g.vars.isTemp hctemp
      refine (ih copies hb₂ (hw.replaced hnt (hdraft ▸ g.vars) hs₂ hctemp₂ hin fun e he =>
        .inl he)).mono fun _ s₃ g₃ h₃ => ⟨h₃.1, ?_⟩
      exact (Snaps.of_silent hsil hdraft (restacked_of_set hs₂ hctemp₂)).trans h₃.2 (g.trans g₂) g₃
    | none =>
      have hcopy : Meets (Works env held) Harmless (do
          let c ← temp (s.draft.vars.get v).type
          copy v c
          pure c) env s (Taken env (s.stack ++ held) kept v (s.draft.vars.get v).type s) :=
        ((freshCopy_meets _ (h.hold hwl) fun _ => harmless_invariant rfl).mono fun _ _ _ hs =>
          hs.1).sparing (by simp +contextual) fun _ => id
      have next {c : VarRef} {s₁ : Frame} (g₁ : Works env held s s₁)
          (htaken : Taken env (s.stack ++ held) kept v (s.draft.vars.get v).type s c s₁) :
          Meets (Rearranges env held fun _ => False) Harmless (do
            setStack k c
            snapshotFrom p entries ((v, c) :: copies)) env s₁ fun _ s' =>
              s'.Balanced env (s'.stack ++ held) kept ∧ Snaps env held s s' := by
        obtain ⟨hb₁, hctemp⟩ := htaken.brings
        rw [← g₁.stack_eq] at hb₁
        refine (setStack_meets hb₁ (g₁.stack_eq ▸ hk) (hwl.grows g₁.vars)).bind
          fun _ s₂ g₂ h₂ => ?_
        obtain ⟨hb₂, hrest, hs₂, hin⟩ := h₂
        rw [g₁.stack_eq] at hs₂ hin
        have hdraft : s₂.draft = s₁.draft := by rw [hrest]
        have hsnap : Snaps env held s s₂ := .of_copy htaken g₁.vars hdraft hmem hslot
          (restacked_of_set hs₂ (hdraft ▸ hctemp))
        refine (ih ((v, c) :: copies) hb₂ (hw.replaced hnt (hdraft ▸ g₁.vars) hs₂
          (hdraft ▸ hctemp) hin fun e he => ?_)).mono fun _ s₃ g₃ h₃ =>
            ⟨h₃.1, hsnap.trans h₃.2 (g₁.toRearranges.trans g₂) g₃⟩
        rcases List.mem_cons.1 he with rfl | he
        · exact .inr rfl
        · exact .inl he
      have hall := hcopy.rearranges.bind fun c s₁ _ h₁ => next h₁.1 h₁.2
      simpa only [bind_assoc, pure_bind] using hall

lemma snapshot_meets (p : VarRef → Bool) (h : s.Balanced env (s.stack ++ held) kept)
    (hp : ∀ v ∈ s.stack, p v = true → env.IsSlot s.draft.vars v) :
    Meets (Rearranges env held fun _ => False) Harmless (snapshot p) env s fun _ s' =>
      s'.Balanced env (s'.stack ++ held) kept ∧ Snaps env held s s' := by
  refine snapshotFrom_meets p s.stack.reverse.zipIdx [] h ⟨fun e he => ?_, ?_, fun e he => ?_, ?_⟩
  · exact List.mem_zipIdx_iff_getElem?.1 he
  · rw [List.zipIdx_map_snd]
    exact List.nodup_range'
  · exact hp e.1 (List.mem_reverse.1 (List.mem_of_getElem? (List.mem_zipIdx_iff_getElem?.1 he)))
  · simp

lemma snapshotFields_meets (h : s.Balanced env (s.stack ++ held) kept) :
    Meets (Rearranges env held fun _ => False) Harmless snapshotFields env s fun _ s' =>
      s'.Balanced env (s'.stack ++ held) kept ∧ Snaps env held s s' := by
  refine snapshot_meets _ h fun v hv hfield => ⟨(h.usable v (List.mem_append_left _ hv)).1, .inl ?_⟩
  change Variables.Fixed (s.draft.vars.get v).kind
  unfold Variable.isField at hfield
  split at hfield
  · simp_all [Variables.Fixed]
  · cases hfield

/-! ## Slots -/

lemma harmless_lookup {n : Naming} {md : Metadata} {member : Member} {e : CompileError}
    (h : n.lookup md member = .error e) : e.Harmless := by
  unfold Naming.lookup at h
  split at h
  · cases h
  · obtain rfl := Except.error.inj h
    exact harmless_unsupported _

lemma slot_not_pooled (h : s.Balanced env held kept) (ht : env.IsSlot s.draft.vars target) :
    (s.draft.vars.get target).pooled = false :=
  h.books.unpooled target ht.not_temporary

lemma copySlot_works (h : s.Balanced env (v :: held) kept) (ht : env.IsSlot s.draft.vars target) :
    Meets (Computes env held (· = target)) Harmless (copy v target) env s fun _ s' =>
      s'.Balanced env held kept ∧ Records env (copyPieces v target) s s' ∧
        (s.draft.vars.get v).isAddress = false := by
  refine ((copy_meets h ht.1 (fun _ => slot_not_pooled h ht) (fun _ => harmless_invariant rfl)
    (fun _ => harmless_invariant rfl) fun _ => harmless_invariant rfl).relate ?_).mono
    fun _ s' _ hs => ⟨hs.1, hs.2.1, hs.2.2.1⟩
  rintro _ s' - ⟨-, hrec, -, -⟩
  exact computes_copy hrec (.inr rfl)

/-- **Assigning a slot** uses up the value. -/
lemma store_meets (h : s.Balanced env (v :: (s.stack ++ held)) kept)
    (ht : env.IsSlot s.draft.vars target) :
    Meets (Rearranges env held (· = target)) Harmless (store target v) env s fun _ s' =>
      s'.Balanced env (s'.stack ++ held) kept ∧ Assigns env held target v s s' := by
  have hsnap := snapshot_meets (· == target) (h.perm List.perm_middle.symm) fun w _ hw => by
    obtain rfl : w = target := by simpa using hw
    exact ht
  refine (hsnap.widen (by simp +contextual) fun _ => False.elim).bind fun _ s₁ _ h₁ => ?_
  obtain ⟨g, hb, hs⟩ := h₁
  refine (copySlot_works (hb.perm List.perm_middle) (ht.grows g.vars)).imp
    (fun _ g => g.toRearranges.mono (by simp +contextual) fun _ => .inl) (fun _ => id)
    fun _ s₂ g₂ h₂ => ?_
  obtain ⟨hb₂, hrec, ha⟩ := h₂
  have hhas := (h.usable v (by simp)).1
  rw [g.vars.isAddress_eq hhas] at ha
  exact ⟨by rwa [g₂.stack_eq], hs.assigns hrec g₂.stack_eq hhas ha⟩

lemma named_meets [Admits R] (name : String) (t : TypeRef) (kind : VarKind)
    (hk : Variables.Fixed kind) (h : s.Balanced env held kept) :
    Meets R E (draft (·.named name t kind)) env s fun v s' =>
      s'.Balanced env held kept ∧ env.IsSlot s'.draft.vars v := by
  have hrun : draft (·.named name t kind) env s = .ok (s.draft.vars.named name t kind).1
      (s.withVars (s.draft.vars.named name t kind).2 s.scratch) := rfl
  cases hf : s.draft.vars.find? name with
  | some v =>
    have hn : s.draft.vars.named name t kind = (v, s.draft.vars) := by
      simp only [Variables.named, hf]
    rw [hn] at hrun
    exact meets_of_ok hrun (Admits.silent (silent_withVars (.refl _) (untouched_of_stock rfl)))
      ⟨h.of_eq rfl rfl rfl, (Variables.find?_spec hf).1, .inl (h.tidy.fixed_of_find? hf)⟩
  | none =>
    set x : Variable := { type := t, kind, name := some name } with hx
    have hn : s.draft.vars.named name t kind = s.draft.vars.add x := by
      simp only [Variables.named, hf, hx]
    rw [hn] at hrun
    have hjoins : s.draft.vars.Joins x := by
      refine ⟨fun u e => ?_, fun a i e => ?_, fun _ _ => hk, fun a i e => ?_⟩ <;>
      · change kind = _ at e
        simp [Variables.Fixed, e] at hk
    have hkind : (s.draft.vars.add x).2.kind (s.draft.vars.add x).1 = kind :=
      congrArg Variable.kind (Variables.get_add_new s.draft.vars x)
    have hlasting : x.kind ≠ .temporary := by
      rintro e
      change kind = _ at e
      simp [Variables.Fixed, e] at hk
    exact meets_of_ok hrun (Admits.silent (silent_add hlasting))
      ⟨h.addVar hjoins hlasting rfl, Variables.has_add_new _ x, .inl (hkind.symm ▸ hk)⟩

lemma tryDraft_ok {α : Type} {change : Draft → Except CompileError (α × Draft)} {a : α} {d : Draft}
    (h : change s.draft = .ok (a, d)) : tryDraft change env s = .ok a { s with draft := d } := by
  have hget : (get : Lower Frame) env s = .ok s s := rfl
  refine (bind_ok hget).trans ?_
  rw [h]
  rfl

lemma tryDraft_error {α : Type} {change : Draft → Except CompileError (α × Draft)}
    {e : CompileError} (h : change s.draft = .error e) : tryDraft change env s = .error e s := by
  have hget : (get : Lower Frame) env s = .ok s s := rfl
  refine (bind_ok hget).trans ?_
  rw [h]
  rfl

lemma fieldVar_meets [Admits R] (f : FieldRef) (h : s.Balanced env held kept) :
    Meets R Harmless (fieldVar f) env s fun v s' =>
      s'.Balanced env held kept ∧ env.IsSlot s'.draft.vars v := by
  have hrun : fieldVar f env s = tryDraft (·.fieldVar env.toClassEnv f) env s := rfl
  cases hf : s.draft.vars.findField? f with
  | some v =>
    have hd : s.draft.fieldVar env.toClassEnv f = .ok (v, s.draft) := by
      simp only [Draft.fieldVar, hf]
    rw [tryDraft_ok hd] at hrun
    obtain ⟨hhas, hkind⟩ := Variables.findField?_spec hf
    exact meets_of_ok hrun (refl_of R s) ⟨h, hhas, .inl (hkind.symm ▸ trivial)⟩
  | none =>
    cases hl : env.naming.lookup env.md (.field f) with
    | error e =>
      have hd : s.draft.fieldVar env.toClassEnv f = .error e := by
        simp only [Draft.fieldVar, hf, hl]
        rfl
      rw [tryDraft_error hd] at hrun
      exact meets_of_error hrun (harmless_lookup hl)
    | ok symbol =>
      set x : Variable :=
        { type := (env.md.field f).type, kind := .field f, name := some symbol.emitted
          value := some (env.md.defaultValue (env.md.field f).type)
          exported := symbol.flags.exported, sync := symbol.flags.sync } with hx
      have hd : s.draft.fieldVar env.toClassEnv f = .ok (s.draft.addVar x) := by
        simp only [Draft.fieldVar, hf, hl, hx]
        rfl
      rw [tryDraft_ok hd] at hrun
      have hkind : (s.draft.vars.add x).2.kind (s.draft.vars.add x).1 = .field f :=
        congrArg Variable.kind (Variables.get_add_new s.draft.vars x)
      exact meets_of_ok (t := s.withVars (s.draft.vars.add x).2 s.scratch) hrun
        (Admits.silent (silent_add (x := x) (by simp [hx])))
        ⟨h.addVar ⟨by simp [hx], by simp [hx], fun _ _ => trivial, by simp [hx]⟩ (by simp [hx]) rfl,
          Variables.has_add_new _ x, .inl (hkind.symm ▸ trivial)⟩

/-! ## Results -/

lemma nextLive?_spec {c : Nat} (h : env.nextLive? c = some k) :
    c ≤ k ∧ (∃ i, env.code[k]? = some i ∧ i.opcode ≠ .nop) ∧
      ∀ j i, c ≤ j → j < k → env.code[j]? = some i → i.opcode = .nop := by
  obtain ⟨n, hn, rfl⟩ := Option.map_eq_some_iff.1 h
  obtain ⟨hlt, hlive, hbefore⟩ := List.findIdx?_eq_some_iff_getElem.1 hn
  simp only [List.length_drop, Array.length_toList] at hlt
  refine ⟨Nat.le_add_right c n, ⟨env.code[c + n], by simp, ?_⟩, fun j i hj hjn hi => ?_⟩
  · simpa using hlive
  · obtain ⟨m, rfl⟩ := Nat.exists_eq_add_of_le hj
    have hnop := hbefore m (by omega)
    obtain ⟨hsize, rfl⟩ := Array.getElem?_eq_some_iff.1 hi
    simpa using hnop

lemma ahead_iff {c offset : Nat} (hn : env.nextLive? c = some k) (hi : env.code[k]? = some i) :
    env.Ahead c offset ↔
      env.Ahead (k + 1) offset ∨ env.isTarget offset = true ∧ i.offset = offset := by
  obtain ⟨hck, ⟨i', hi', hlive⟩, hnops⟩ := nextLive?_spec hn
  obtain rfl : i = i' := Option.some.inj (hi.symm.trans hi')
  constructor
  · rintro ⟨htarget, hend | ⟨j, i₁, hj, hi₁, hoff, hlive₁⟩⟩
    · exact .inl ⟨htarget, .inl hend⟩
    · rcases Nat.lt_trichotomy j k with hlt | rfl | hgt
      · exact absurd (hnops j i₁ hj hlt hi₁) hlive₁
      · obtain rfl : i = i₁ := Option.some.inj (hi.symm.trans hi₁)
        exact .inr ⟨htarget, hoff⟩
      · exact .inl ⟨htarget, .inr ⟨j, i₁, hgt, hi₁, hoff, hlive₁⟩⟩
  · rintro (⟨htarget, hend | ⟨j, i', hj, hrest⟩⟩ | ⟨htarget, hoff⟩)
    · exact ⟨htarget, .inl hend⟩
    · exact ⟨htarget, .inr ⟨j, i', by omega, hrest⟩⟩
    · exact ⟨htarget, .inr ⟨k, i, hck, hi, hoff, hlive⟩⟩

lemma ahead_moveTo {c offset : Nat} (hn : env.nextLive? c = some k) (hi : env.code[k]? = some i)
    (ht : env.isTarget i.offset = false) : env.Ahead c offset ↔ env.Ahead (k + 1) offset := by
  rw [ahead_iff hn hi, or_iff_left]
  rintro ⟨htarget, rfl⟩
  simp [ht] at htarget

lemma timely_passing (h : s.Timely env) (hn : env.nextLive? s.cursor = some k)
    (hi : env.code[k]? = some i) :
    (({ s with cursor := k + 1, current := some k } : Frame).withoutMerge i.offset).Timely env := by
  refine ⟨fun e he => ?_, h.distinct.sublist (List.filter_sublist.map _),
    fun e he => h.nonempty e (List.mem_filter.1 he).1, fun c hc => ?_⟩
  · obtain ⟨he, hne⟩ := List.mem_filter.1 he
    rcases (ahead_iff hn hi).1 (h.ahead e he) with ha | ⟨-, hoff⟩
    · exact ha
    · simp [hoff] at hne
  · obtain rfl : k = c := Option.some.inj hc
    exact ⟨rfl, (Array.getElem?_eq_some_iff.1 hi).1⟩

lemma timely_moveTo (h : s.Timely env) (hn : env.nextLive? s.cursor = some k)
    (hi : env.code[k]? = some i) (ht : env.isTarget i.offset = false) :
    ({ s with cursor := k + 1, current := some k } : Frame).Timely env := by
  have hpass := timely_passing h hn hi
  rwa [withoutMerge_eq] at hpass
  intro e he heq
  have htarget := (h.ahead e he).1
  rw [heq, ht] at htarget
  cases htarget

lemma moveTo_meets (h : s.Balanced env held kept) (hn : env.nextLive? s.cursor = some k)
    (hi : env.code[k]? = some i) (ht : env.isTarget i.offset = false) :
    Meets (Advances env carried) E (moveTo k) env s fun _ s' =>
      s'.Balanced env held kept ∧ s'.draft = s.draft ∧ s'.stack = s.stack :=
  have hle : s.cursor ≤ k + 1 := (nextLive?_spec hn).1.trans (Nat.le_succ k)
  meets_of_ok (a := ()) (t := { s with cursor := k + 1, current := some k }) rfl
    (Proceeds.advances ⟨.of_draft rfl rfl fun _ => rfl, fun h => timely_moveTo h hn hi ht,
      fun _ => ahead_moveTo hn hi ht, hle⟩ (aside_of_draft rfl rfl rfl rfl hle))
    ⟨h.of_eq rfl rfl rfl, rfl, rfl⟩

lemma storeSlot?_mem (h : storeSlot? env i = some slot) : slot ∈ env.args ∨ slot ∈ env.locals := by
  unfold storeSlot? at h
  split at h
  any_goals exact .inr (List.mem_of_getElem? h)
  any_goals exact .inl (List.mem_of_getElem? h)
  cases h

/-- The next instruction stores into a slot of a type, nothing jumps to it, and the operand stack does
not name the slot. -/
structure Fuses (env : MethodEnv) (s : Frame) (t : TypeRef) (slot : VarRef) (k : Nat)
    (i : Bytecode.Instruction) : Prop where
  next : env.nextLive? s.cursor = some k
  inst : env.code[k]? = some i
  stores : storeSlot? env i = some slot
  type_eq : (s.draft.vars.get slot).type = t
  not_target : env.isTarget i.offset = false
  not_stacked : slot ∉ s.stack
  not_self : isSelf slot = false

lemma fuses_of_fusable? {t : TypeRef} (h : fusable? t env s = .ok (some (slot, k)) s) :
    ∃ i, Fuses env s t slot k i := by
  have hrun : (do
      let i ← env.nextLive? s.cursor
      let inst ← env.code[i]?
      let slot ← storeSlot? env inst
      guard ((s.draft.vars.get slot).type == t && !env.isTarget inst.offset
        && !s.stack.contains slot && !isSelf slot)
      return (slot, i)) = some (slot, k) := (EStateM.Result.ok.inj h).1
  simp only [Option.bind_eq_bind, Option.bind_eq_some_iff, Option.pure_def] at hrun
  obtain ⟨k', hk, i, hi, slot', hslot, u, hguard, hpair⟩ := hrun
  obtain ⟨rfl, rfl⟩ := Prod.mk.inj (Option.some.inj hpair)
  obtain ⟨⟨⟨htype, ht⟩, hstack⟩, hself⟩ : (((s.draft.vars.get slot').type = t ∧
      env.isTarget i.offset = false) ∧ slot' ∉ s.stack) ∧ isSelf slot' = false := by
    simpa using hguard
  exact ⟨i, hk, hi, hslot, htype, ht, hstack, hself⟩

lemma fusable?_spec {t : TypeRef} (h : fusable? t env s = .ok (some (slot, k)) s) :
    env.nextLive? s.cursor = some k ∧ (slot ∈ env.args ∨ slot ∈ env.locals) ∧
      ∃ i, env.code[k]? = some i ∧ env.isTarget i.offset = false := by
  obtain ⟨i, hf⟩ := fuses_of_fusable? h
  exact ⟨hf.next, storeSlot?_mem hf.stores, i, hf.inst, hf.not_target⟩

/-- Somewhere to write a result to: a slot, or a temporary in hand. -/
def Arranged (env : MethodEnv) (s : Frame) (held kept : List VarRef) (d : Destination) : Prop :=
  (d.fused = true ∧ env.IsSlot s.draft.vars d.var ∧ s.Balanced env held kept) ∨
    (d.fused = false ∧ s.draft.vars.IsTemp d.var ∧ s.Balanced env (d.var :: held) kept)

lemma destination_meets (t : TypeRef) (h : s.Balanced env held kept) :
    Meets (Advances env carried) E (destination t) env s fun d s' =>
      Arranged env s' held kept d ∧ s'.stack = s.stack := by
  rw [destination, meets_fusable?_bind]
  intro r hr
  rcases r with _ | ⟨slot, k⟩
  · refine (temp_meets (R := Works env held) h t).works.bind fun v s₁ _ h₁ => ?_
    exact meets_pure ⟨.inr ⟨rfl, h₁.2.2.1, h₁.2.1⟩, h₁.1.stack_eq⟩
  · obtain ⟨hn, hmem, i, hi, ht⟩ := fusable?_spec hr
    refine (moveTo_meets h hn hi ht).bind fun _ s₁ g h₁ => ?_
    have hslot : env.IsSlot s₁.draft.vars slot := by
      rw [h₁.2.1]
      exact h.slots slot (hmem.imp_right .inl)
    exact meets_pure ⟨.inl ⟨rfl, hslot, h₁.1⟩, h₁.2.2⟩

lemma complete_meets [Restacks R] {d : Destination} (h : Arranged env s (s.stack ++ held) kept d) :
    Meets R E (complete d) env s fun _ s' => s'.Balanced env (s'.stack ++ held) kept := by
  unfold complete
  rcases h with ⟨hf, -, hb⟩ | ⟨hf, -, hb⟩ <;> rw [hf]
  · exact meets_pure hb
  · exact pushStack_meets hb

lemma invokeSlot_works (h : s.Balanced env (inputs ++ held) kept) (ht : env.IsSlot s.draft.vars target) :
    Meets (Computes env held (· = target)) Harmless (invoke signature inputs (some target)) env s
      fun _ s' => s'.Balanced env held kept := by
  refine ((invoke_meets (by simp) h ?_ ?_ (fun _ _ _ => harmless_invariant rfl)
    (fun _ _ _ => harmless_invariant rfl) fun _ _ _ => harmless_invariant rfl).relate ?_).mono
    fun _ s' _ hs => hs.1
  · rintro o ⟨⟩
    exact ht.1
  · rintro o ⟨⟩ -
    exact slot_not_pooled h ht
  · rintro _ s' - ⟨-, hinv, -, -⟩
    refine hinv.computes ?_
    rintro o ⟨⟩
    exact .inr rfl

lemma invokeInto_works (h : s.Balanced env (inputs ++ held) kept) (ho : Output s held w) :
    Meets (Computes env held (· = w)) Harmless (invoke signature inputs (some w)) env s fun _ s' =>
      s'.Balanced env held kept := by
  refine ((invokeInto_meets h ho fun _ _ _ => harmless_invariant rfl).relate ?_).mono
    fun _ s' _ hs => hs.1
  rintro _ s' - ⟨-, hinv, -⟩
  refine hinv.computes ?_
  rintro o ⟨⟩
  exact .inr rfl

lemma invokeVoid_works (hvoid : env.IsVoid signature)
    (h : s.Balanced env (inputs ++ held) kept) :
    Meets (Works env held) Harmless (invoke signature inputs none) env s fun _ s' =>
      s'.Balanced env held kept ∧ ∀ v ∈ inputs, (s.draft.vars.get v).isAddress = false := by
  refine ((invoke_meets (fun _ => hvoid) h (by simp) (by simp) (fun _ _ _ => harmless_invariant rfl)
    (by simp) (by simp)).relate ?_).mono fun _ s' _ hs => ⟨hs.1, hs.2.2.1⟩
  rintro _ s' - ⟨-, hinv, -, -⟩
  exact hinv.computes (by simp)

lemma invokeTo_meets [Follows env R] {d : Destination}
    (h : Arranged env s (inputs ++ held) kept d) :
    Meets R Harmless (invoke signature inputs (some d.var)) env s fun _ s' =>
      Arranged env s' held kept d ∧ s'.stack = s.stack := by
  rcases h with ⟨hf, hslot, hb⟩ | ⟨hf, htemp, hb⟩
  · refine (invokeSlot_works hb hslot).imp (fun _ g => Follows.rearranges g.toRearranges
      fun v e => ?_) (fun _ => id)
      fun _ s' g hb' => ⟨.inl ⟨hf, hslot.grows g.vars, hb'⟩, g.stack_eq⟩
    exact e ▸ hslot
  · exact ((invokeInto_works (hb.perm List.perm_middle.symm) ⟨htemp, by simp⟩).fills hb
      ⟨htemp, by simp⟩).mono
      fun _ s' _ hs => ⟨.inr ⟨hf, hs.1.vars.isTemp htemp, hs.2⟩, hs.1.stack_eq⟩

lemma copyTo_meets [Follows env R] {d : Destination} (h : Arranged env s (v :: held) kept d) :
    Meets R Harmless (copy v d.var) env s fun _ s' =>
      Arranged env s' held kept d ∧ s'.stack = s.stack := by
  rcases h with ⟨hf, hslot, hb⟩ | ⟨hf, htemp, hb⟩
  · refine (copySlot_works hb hslot).imp (fun _ g => Follows.rearranges g.toRearranges
      fun v e => ?_) (fun _ => id)
      fun _ s' g hs => ⟨.inl ⟨hf, hslot.grows g.vars, hs.1⟩, g.stack_eq⟩
    exact e ▸ hslot
  · exact ((copy_works (hb.perm (.swap v d.var held)) ⟨htemp, by simp⟩).fills hb
      ⟨htemp, by simp⟩).mono
      fun _ s' _ hs => ⟨.inr ⟨hf, hs.1.vars.isTemp htemp, hs.2.1⟩, hs.1.stack_eq⟩

/-- **A host operation whose result is left on the operand stack** uses up its inputs. -/
lemma invokeResult_meets (t : TypeRef)
    (h : s.Balanced env (inputs ++ (s.stack ++ held)) kept) :
    Meets (Advances env carried) Harmless (invokeResult signature inputs t) env s fun _ s' =>
      s'.Balanced env (s'.stack ++ held) kept := by
  refine (destination_meets t h).bind fun d s₁ _ h₁ => ?_
  rw [← h₁.2] at h₁
  refine (invokeTo_meets h₁.1).bind fun _ s₂ _ h₂ => ?_
  rw [← h₂.2] at h₂
  exact complete_meets h₂.1

lemma copyResult_meets (t : TypeRef) (h : s.Balanced env (v :: (s.stack ++ held)) kept) :
    Meets (Advances env carried) Harmless (do
      let d ← destination t
      copy v d.var
      complete d) env s fun _ s' => s'.Balanced env (s'.stack ++ held) kept := by
  refine (destination_meets t h).bind fun d s₁ _ h₁ => ?_
  rw [← h₁.2] at h₁
  refine (copyTo_meets h₁.1).bind fun _ s₂ _ h₂ => ?_
  rw [← h₂.2] at h₂
  exact complete_meets h₂.1

end Lower

end FlatHeap
