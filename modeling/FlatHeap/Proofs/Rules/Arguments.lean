import FlatHeap.Rules.OwnMembers
import FlatHeap.Proofs.Rules.Objects

/-!
# Arguments

The arguments of a call are stored into the parameter slots of the callee, one after the other.  An
argument passed by reference is the address of a slot, which is no read; so the arguments are used up
by the stores whichever way they go.

The slots are shared by all calls, and an argument may itself be one of them.  So an argument that names
a slot written before its turn is exchanged for a copy (`Rules.Protects`).  After that no argument names
a slot that is written before it, and this is what carries the induction over the stores
(`Rules.Binds`): neither a store, nor the code of a conversion, nor the copies that save the rest of the
operand stack change an argument that is still to come.  Together, every slot receives the converted
contents that its argument had in the beginning, as if all were assigned at once (`Rules.Conveys`).
-/

namespace FlatHeap

open Lower FlatHeap.Frame CompileError

lemma MethodEnv.ConvertsTo.congr {env : MethodEnv} {source source' : Variable} {target : TypeRef}
    {x y : Value} (h : env.ConvertsTo source target x y) (ht : source'.type = source.type)
    (hc : source'.constant? = source.constant?) : env.ConvertsTo source' target x y :=
  fun s s' v out held kept hb ha htype hconst =>
    h s s' v out held kept hb ha (htype.trans ht) (hconst.trans hc)

namespace Rules

variable {R : Frame → Frame → Prop} {E : CompileError → Prop} {env : MethodEnv} {K : Variables}
  {s s₁ s₂ s₃ s' : Frame} {held held' kept carried args written : List VarRef}
  {v arg out slot : VarRef} {σ τ ρ : Store}

/-- An argument with the declaration and the slot of its parameter. -/
abbrev Binding := VarRef × ParamDecl × VarRef

variable {p : ParamDecl} {entries rest : List Binding}

/-! ## Slots -/

lemma parameterSlots_meets (params : List (ParamDecl × String))
    (h : s.Balanced env held kept) :
    Meets Silent E (parameterSlots params) env s fun slots s' =>
      s'.Balanced env held kept ∧ slots.length = params.length ∧
        (∀ slot ∈ slots, env.IsSlot s'.draft.vars slot) ∧
        List.Forall₂ s'.draft.vars.Named slots (params.map Prod.snd) := by
  induction params generalizing s with
  | nil => exact meets_pure ⟨h, rfl, by simp, .nil⟩
  | cons e rest ih =>
    obtain ⟨p, name⟩ := e
    rw [parameterSlots]
    refine (named_meets name p.type .parameter trivial h).running.bind fun slot s₁ _ h₁ => ?_
    obtain ⟨hrun, hb₁, hslot⟩ := h₁
    have hnamed : s₁.draft.vars.Named slot name := by
      obtain ⟨rfl, rfl⟩ := EStateM.Result.ok.inj hrun
      exact (s.draft.vars.named_spec name p.type .parameter).2
    refine (ih hb₁).bind fun slots s₂ g₂ h₂ => meets_pure ?_
    obtain ⟨hb₂, hlen, hslots, hnames⟩ := h₂
    exact ⟨hb₂, by simp [hlen], by simpa using ⟨hslot.grows g₂.vars, hslots⟩,
      .cons (hnamed.grows g₂.vars) hnames⟩

/-! ## Copies of arguments -/

/-- A variable stands for another one: it would be converted in the same way, and it holds what the
other one held. -/
structure Stands (K : Variables) (σ τ : Store) (v w : VarRef) : Prop where
  type_eq : (K.get w).type = (K.get v).type
  constant_eq : (K.get w).constant? = (K.get v).constant?
  value_eq : τ w = σ v

/-- **Arguments out of harm's way.**  Each argument stands for the one of the entry, and none of them
names a slot written before it.  A copy faults only if the argument does not fit its own type. -/
structure Protects (env : MethodEnv) (held : List VarRef) (entries : List Binding)
    (written args : List VarRef) (s s' : Frame) : Prop where
  apart : ∀ a ∈ args, a ∉ written
  ordered : (args.zip (entries.map Prod.snd)).Pairwise fun e f => f.1 ≠ e.2.2
  code : ∃ ps, s.draft.Continues env s'.draft ps
  fares : ∀ K σ, s'.draft.vars.Grows K →
    Fares env K s s' (∃ e ∈ entries, env.IsSlot K e.1 ∧
        Host.Machine.fits (σ e.1) (env.ident (K.get e.1).type) = false) σ fun τ =>
      (∀ f ∈ args.zip (entries.map Prod.snd), ∃ e ∈ entries, e.2 = f.2 ∧ Stands K σ τ e.1 f.1) ∧
        Keeping K (s.Keeps held) σ τ

lemma Protects.cons (harg : arg ∉ written) (w : Works env [] s s₁) (hhas : s₁.draft.vars.Has arg)
    (hfares : ∀ K σ, s₁.draft.vars.Grows K →
      Fares env K s s₁ (env.IsSlot K v ∧
          Host.Machine.fits (σ v) (env.ident (K.get v).type) = false) σ fun τ =>
        Stands K σ τ v arg ∧ Keeping K (s.Keeps (rest.map Prod.fst ++ held)) σ τ)
    (hin : ∀ e ∈ rest, s.draft.vars.Has e.1) (g : s₁.draft.vars.Grows s'.draft.vars)
    (h : Protects env (arg :: held) rest (written ++ [slot]) args s₁ s') :
    Protects env held ((v, p, slot) :: rest) written (arg :: args) s s' := by
  refine ⟨fun a ha => ?_, ?_, ?_, fun K σ hK => ?_⟩
  · rcases List.mem_cons.1 ha with rfl | ha
    · exact harg
    · exact fun hw => h.apart a ha (List.mem_append_left _ hw)
  · refine List.pairwise_cons.2 ⟨fun f hf heq => ?_, h.ordered⟩
    exact h.apart f.1 (List.of_mem_zip hf).1 (by simp [heq])
  · obtain ⟨ps, hps⟩ := w.continues
    obtain ⟨qs, hqs⟩ := h.code
    exact ⟨ps ++ qs, hps.trans hqs⟩
  refine ((hfares K σ (g.trans hK)).mono (fun hu => ⟨(v, p, slot), by simp, hu⟩)
    fun _ => id).bind h.code fun τ hτ => ?_
  obtain ⟨hstands, hkeep⟩ := hτ
  have hsame (e : Binding) (he : e ∈ rest) : τ e.1 = σ e.1 :=
    hkeep.needed e.1 (keeps_of_mem (hin e he) (List.mem_append_left _ (List.mem_map_of_mem he)))
  refine (h.fares K τ hK).mono ?_ fun ρ hρ => ⟨fun f hf => ?_, ?_⟩
  · rintro ⟨e, he, hslot, hfit⟩
    exact ⟨e, List.mem_cons_of_mem _ he, hslot, hsame e he ▸ hfit⟩
  · rcases List.mem_cons.1 hf with rfl | hf
    · refine ⟨(v, p, slot), by simp, rfl, hstands.type_eq, hstands.constant_eq, ?_⟩
      rw [hρ.2.needed arg (keeps_of_mem hhas (by simp)), hstands.value_eq]
    · obtain ⟨e, he, heq, hf⟩ := hρ.1 f hf
      exact ⟨e, List.mem_cons_of_mem _ he, heq, hf.type_eq, hf.constant_eq,
        hf.value_eq.trans (hsame e he)⟩
  · refine Keeping.trans ⟨fun z hz => hkeep.needed z (hz.mono (by simp +contextual)), hkeep.lasting⟩
      hρ.2 fun z hz => ?_
    exact (hz.mono (by simp +contextual)).later w.vars w.merges_eq

lemma fares_copied (hv : env.IsSlot s.draft.vars v)
    (h : Taken env held kept v (s.draft.vars.get v).type s out s') (g : s.draft.vars.Grows s'.draft.vars)
    (hK : s'.draft.vars.Grows K) :
    Fares env K s s' (env.IsSlot K v ∧
        Host.Machine.fits (σ v) (env.ident (K.get v).type) = false) σ fun τ =>
      Stands K σ τ v out ∧ Keeping K (s.Keeps held) σ τ := by
  have hslot := hv.grows (g.trans hK)
  have htype := (g.trans hK).type_eq hv.1
  have htemp := hK.isTemp h.fresh.isTemp
  refine (fares_taken h hK).mono (fun hfit => ⟨hslot, by rwa [htype]⟩) fun τ hτ => ⟨⟨?_, ?_, hτ.1⟩, ?_⟩
  · rw [hK.type_eq h.fresh.isTemp.1, h.fresh.type_eq, htype]
  · rw [Variable.constant?, Variable.constant?, if_neg, if_neg]
    · exact hslot.not_constant
    · simp [show (K.get out).kind = .temporary from htemp.2]
  · exact ⟨fun z hz => hτ.2.needed z (hz.mono (by simp +contextual)), hτ.2.lasting⟩

lemma protectArguments_meets (entries : List Binding) (written : List VarRef)
    (h : s.Balanced env (entries.map Prod.fst ++ held) kept)
    (hslots : ∀ e ∈ entries, env.IsSlot s.draft.vars e.2.2)
    (hwritten : ∀ w ∈ written, env.IsSlot s.draft.vars w) :
    Meets (Works env []) Harmless (protectArguments entries written) env s fun args s' =>
      s'.Balanced env (args ++ held) kept ∧ args.length = entries.length ∧
        ((∀ e ∈ entries, e.2.1.byRef = false) → Protects env held entries written args s s') := by
  induction entries generalizing s held written with
  | nil =>
    exact meets_pure ⟨h, rfl, fun _ => ⟨by simp, by simp, ⟨[], .refl env _⟩, fun K σ _ =>
      Leads.refl.fares ⟨by simp, .refl⟩⟩⟩
  | cons e rest ih =>
    obtain ⟨v, p, slot⟩ := e
    have hhas (e : Binding) (he : e ∈ rest) : s.draft.vars.Has e.1 :=
      (h.usable e.1 (by simp; exact .inr (.inl ⟨_, _, he⟩))).1
    -- The argument itself, or a copy of it, is in hand; the rest follows.
    have next {arg : VarRef} {s₁ : Frame} (w : Works env [] s s₁)
        (hb : s₁.Balanced env (arg :: (rest.map Prod.fst ++ held)) kept)
        (hfirst : p.byRef = false → arg ∉ written ∧ ∀ K σ, s₁.draft.vars.Grows K →
          Fares env K s s₁ (env.IsSlot K v ∧
              Host.Machine.fits (σ v) (env.ident (K.get v).type) = false) σ fun τ =>
            Stands K σ τ v arg ∧ Keeping K (s.Keeps (rest.map Prod.fst ++ held)) σ τ) :
        Meets (Works env []) Harmless (do
          return arg :: (← protectArguments rest (written ++ [slot]))) env s₁ fun args s' =>
            s'.Balanced env (args ++ held) kept ∧ args.length = rest.length + 1 ∧
              ((∀ e ∈ (v, p, slot) :: rest, e.2.1.byRef = false) →
                Protects env held ((v, p, slot) :: rest) written args s s') := by
      refine (ih _ (hb.perm List.perm_middle.symm) (fun e he => ?_) fun x hx => ?_).bind
        fun args s₂ g₂ h₂ => meets_pure ?_
      · exact (hslots e (List.mem_cons_of_mem _ he)).grows w.vars
      · rcases List.mem_append.1 hx with hx | hx
        · exact (hwritten x hx).grows w.vars
        · obtain rfl := List.mem_singleton.1 hx
          exact (hslots (v, p, x) (by simp)).grows w.vars
      obtain ⟨hb₂, hlen, hprotects⟩ := h₂
      refine ⟨hb₂.perm List.perm_middle, by simp [hlen], fun hval => ?_⟩
      obtain ⟨hp, hval⟩ := List.forall_mem_cons.1 hval
      exact .cons (hfirst hp).1 w (hb.usable arg (by simp)).1 (hfirst hp).2 hhas g₂.vars (hprotects hval)
    rw [protectArguments]
    refine meets_ite (fun hcopy => ?_) fun hplain => ?_
    · rw [meets_typeOf_bind]
      have hv : env.IsSlot s.draft.vars v := by
        simp only [Bool.and_eq_true, List.contains_iff_mem] at hcopy
        exact hwritten v hcopy.2
      have hall := ((freshCopy_meets (s.draft.vars.get v).type h fun _ =>
        harmless_invariant rfl).sparing (by simp) fun _ => id).bind
        fun c s₁ g₁ ⟨h₁, _⟩ => next g₁ h₁.brings.1 fun _ => ⟨fun hin =>
          ((hwritten c hin).grows g₁.vars).not_temporary h₁.brings.2.2, fun K σ hK =>
            fares_copied hv h₁ g₁.vars hK⟩
      simpa only [bind_assoc, pure_bind, List.length_cons] using hall
    · refine next (refl_of _ s) h fun hp => ⟨?_, fun K σ _ => Leads.refl.fares ⟨⟨rfl, rfl, rfl⟩, .refl⟩⟩
      simpa [hp] using hplain

/-! ## Stores -/

def slotsOf (entries : List Binding) : List VarRef := entries.map fun e => e.2.2

lemma slotsOf_eq (entries : List Binding) : slotsOf entries = (entries.map Prod.snd).map Prod.snd := by
  rw [List.map_map]
  rfl

/-- **Storing arguments.**  If nothing faults, every slot has the converted contents that its argument
had in the beginning, and other slots are as before.  It faults only if a slot on the operand stack or
one of the values does not fit. -/
structure Binds (env : MethodEnv) (entries : List Binding) (s s' : Frame) : Prop where
  restacked : Restacked s s'
  code : ∃ ps, s.draft.Continues env s'.draft ps
  fares : ∀ K σ (y : VarRef → Value), s'.draft.vars.Grows K → Store.Agrees K σ →
    (∀ e ∈ entries, env.ConvertsTo (K.get e.1) e.2.1.type (σ e.1) (y e.2.2)) →
    Fares env K s s' (Unfit env K s σ ∨ ∃ z ∈ slotsOf entries,
        Host.Machine.fits (y z) (env.ident (K.get z).type) = false) σ fun τ =>
      (∀ z ∈ slotsOf entries, τ z = y z) ∧
        ∀ z, K.kind z ≠ .temporary → z ∉ slotsOf entries → τ z = σ z

/-- **One argument** is converted and stored.  The others are in hand and do not name its slot. -/
lemma Binds.cons (h : s.Balanced env (arg :: held) kept)
    (hrun : convert arg p.type env s = .ok out s₁) (w : Works env held s s₁)
    (g : s₁.draft.vars.Grows s₂.draft.vars) (hc : ∃ ps, s₁.draft.Continues env s₂.draft ps)
    (ha : Assigns env held' slot out s₁ s₂) (hslot : env.IsSlot s.draft.vars slot)
    (hin : ∀ e ∈ rest, e.1 ∈ held ∧ e.1 ∈ held' ∧ e.1 ≠ slot) (hnew : slot ∉ slotsOf rest)
    (g' : s₂.draft.vars.Grows s'.draft.vars) (hrest : Binds env rest s₂ s') :
    Binds env ((arg, p, slot) :: rest) s s' := by
  have hvalue : (s.draft.vars.get arg).isAddress = false := by
    by_contra hne
    obtain ⟨-, rfl, rfl⟩ := (convert_address (R := Any) p.type h (by simpa using hne)).ok hrun
    exact hne ha.value
  have hhas : s.draft.vars.Has arg := (h.usable arg (by simp)).1
  have hrestack : Restacked s s₂ := fun x hx => w.stack_eq ▸ ha.restacked x hx
  refine ⟨hrestack.trans hrest.restacked g', ?_, fun K σ y hK hA hy => ?_⟩
  · obtain ⟨ps, hps⟩ := w.continues
    obtain ⟨qs, hqs⟩ := hc
    obtain ⟨rs, hrs⟩ := hrest.code
    exact ⟨ps ++ (qs ++ rs), hps.trans (hqs.trans hrs)⟩
  obtain ⟨hy₁, hy⟩ := List.forall_mem_cons.1 hy
  have hK₂ := g'.trans hK
  have hK₁ := g.trans hK₂
  have hK₀ := w.vars.trans hK₁
  have hslotK := hslot.grows hK₀
  obtain ⟨τ, hleads, hout, hkeep⟩ := hy₁ s s₁ arg out held kept h hvalue (hK₀.type_eq hhas).symm
    (hK₀.constant?_eq hhas).symm hrun K σ hK₁ hA rfl
  have hother (z : VarRef) (hz : K.kind z ≠ .temporary) : τ z = σ z := hkeep.lasting z hz
  refine .behind hleads (((ha.fares K τ hK₂).mono ?_ fun _ => id).bind hrest.code fun ρ hρ => ?_)
  · rintro (hu | hfit)
    · exact .inl (hu.sooner (fun x hx => .inl (w.stack_eq ▸ hx)) hK₁ fun z hz => hother z hz.not_temporary)
    · exact .inr ⟨slot, by simp [slotsOf], hout ▸ hfit⟩
  obtain ⟨hslotρ, -, hothers⟩ := hρ
  have hlasting (z : VarRef) (hne : z ≠ slot) (hz : K.kind z ≠ .temporary) : ρ z = σ z :=
    (hothers z hne (.inr hz)).trans (hother z hz)
  have hargs (e : Binding) (he : e ∈ rest) : ρ e.1 = σ e.1 := by
    obtain ⟨h₁, h₂, hne⟩ := hin e he
    have hhas : s.draft.vars.Has e.1 := (h.usable e.1 (List.mem_cons_of_mem _ h₁)).1
    rw [hothers e.1 hne (.inl (keeps_of_mem (w.vars.has hhas) h₂)),
      hkeep.needed e.1 (keeps_of_mem hhas h₁)]
  have hA' : Store.Agrees K ρ := by
    intro z hz hk x hx
    rw [hlasting z (fun heq => hslotK.not_constant (heq ▸ hk)) (by simp [hk]), hA z hz hk x hx]
  refine (hrest.fares K ρ y hK hA' fun e he => hargs e he ▸ hy e he).mono ?_ fun υ hυ => ⟨?_, ?_⟩
  · rintro (hu | ⟨z, hz, hfit⟩)
    · refine (hu.sooner_or hrestack hK₂ fun z hz (hne : z ∉ [slot]) => ?_).imp_right ?_
      · exact hlasting z (by simpa using hne) hz.not_temporary
      · rintro ⟨z, hz, hfit⟩
        obtain rfl := List.mem_singleton.1 hz
        exact ⟨z, List.mem_cons_self, by rwa [hslotρ, hout] at hfit⟩
    · exact .inr ⟨z, List.mem_cons_of_mem _ hz, hfit⟩
  · intro z hz
    rcases List.mem_cons.1 hz with rfl | hz
    · rw [hυ.2 _ hslotK.not_temporary hnew, hslotρ, hout]
    · exact hυ.1 z hz
  · intro z hz hne
    obtain ⟨hne, hnot⟩ := not_or.1 (mt List.mem_cons.2 hne)
    rw [hυ.2 z hz hnot, hlasting z hne hz]

/-- **Arguments are used up** by storing them into parameter slots. -/
lemma storeArguments_meets (entries : List Binding)
    (h : s.Balanced env (entries.map Prod.fst ++ (s.stack ++ held)) [])
    (hslots : ∀ e ∈ entries, env.IsSlot s.draft.vars e.2.2) :
    Meets (Advances env carried) Harmless (storeArguments entries) env s fun passed s' =>
      s'.Balanced env (s'.stack ++ held) [] ∧
        (∀ p ∈ passed, env.IsSlot s'.draft.vars p.1 ∧ env.IsSlot s'.draft.vars p.2) ∧
        ((∀ e ∈ entries, e.2.1.byRef = false) →
          (entries.Pairwise fun e f => f.1 ≠ e.2.2) → (slotsOf entries).Nodup →
          Binds env entries s s') := by
  induction entries generalizing s with
  | nil =>
    exact meets_pure ⟨h, by simp, fun _ _ _ => ⟨fun _ => .inl, ⟨[], .refl env _⟩, fun K σ y _ _ _ =>
      Leads.refl.fares ⟨by simp [slotsOf], fun _ _ _ => rfl⟩⟩⟩
  | cons e rest ih =>
    obtain ⟨arg, p, slot⟩ := e
    have hslot : env.IsSlot s.draft.vars slot := hslots (arg, p, slot) (by simp)
    -- A value stored into the slot is used up, and the other arguments are still in hand.
    have stored {v : VarRef} {s₁ : Frame} (g : s.draft.vars.Grows s₁.draft.vars)
        (hb : s₁.Balanced env (v :: (rest.map Prod.fst ++ (s₁.stack ++ held))) []) :
        Meets (Advances env carried) Harmless (store slot v) env s₁ fun _ s' =>
          s'.Balanced env (rest.map Prod.fst ++ (s'.stack ++ held)) [] ∧
            Rearranges env (rest.map Prod.fst ++ held) (· = slot) s₁ s' ∧
            Assigns env (rest.map Prod.fst ++ held) slot v s₁ s' := by
      have hs₁ := hslot.grows g
      refine (store_meets (hb.perm (.cons v (List.perm_append_comm_assoc _ _ _))) hs₁).imp
        (fun _ g => Follows.rearranges g fun _ e => e ▸ hs₁) (fun _ => id) fun _ s₂ g₂ h₂ => ?_
      exact ⟨h₂.1.perm (List.perm_append_comm_assoc _ _ _), g₂, h₂.2⟩
    have later {s₁ : Frame} (g : s.draft.vars.Grows s₁.draft.vars) (e : Binding) (he : e ∈ rest) :
        env.IsSlot s₁.draft.vars e.2.2 :=
      (hslots e (List.mem_cons_of_mem _ he)).grows g
    have h : s.Balanced env (arg :: (rest.map Prod.fst ++ (s.stack ++ held))) [] := h
    rw [storeArguments]
    refine meets_ite (fun href => ?_) fun _ => ?_
    · rw [meets_var_bind]
      split
      swap
      · exact meets_refuse (harmless_unsupported _)
      rename_i source hk
      obtain ⟨hb, hsource⟩ := slot_of_address h hk
      refine (stored (.refl _) (hb.hold hsource.weightless)).bind fun _ s₁ _ h₁ => ?_
      have g₁ := h₁.2.1.vars
      refine (ih h₁.1 (later g₁)).bind fun passed s₂ g₂ h₂ => meets_pure ⟨h₂.1, ?_, fun hval => ?_⟩
      · have g := g₁.trans g₂.vars
        simpa using ⟨⟨hslot.grows g, hsource.grows g⟩, fun a b hab => h₂.2.1 (a, b) hab⟩
      · simp [href] at hval
    · refine (convert_works p.type h).works.running.bind fun out s₁ _ h₁ => ?_
      obtain ⟨hrun, w₁, hb₁, -⟩ := h₁
      rw [← w₁.stack_eq] at hb₁
      refine (stored w₁.vars hb₁).bind fun _ s₂ _ h₂ => ?_
      obtain ⟨hb₂, w₂, hassigns⟩ := h₂
      refine (ih hb₂ (later (w₁.vars.trans w₂.vars))).mono fun passed s₃ g₃ h₃ =>
        ⟨h₃.1, h₃.2.1, fun hval hordered hnodup => ?_⟩
      obtain ⟨hne, hordered⟩ := List.pairwise_cons.1 hordered
      obtain ⟨hnew, hnodup⟩ := List.nodup_cons.1 hnodup
      refine .cons h hrun w₁ w₂.vars w₂.continues hassigns hslot (fun e he => ?_) hnew g₃.vars
        (h₃.2.2 (fun e he => hval e (List.mem_cons_of_mem _ he)) hordered hnodup)
      have hmem := List.mem_map_of_mem (f := Prod.fst) he
      exact ⟨List.mem_append_left _ hmem, List.mem_append_left _ hmem, hne e he⟩

lemma copyBack_meets (passed : List (VarRef × VarRef)) (h : s.Balanced env (s.stack ++ held) [])
    (hp : ∀ p ∈ passed, env.IsSlot s.draft.vars p.1 ∧ env.IsSlot s.draft.vars p.2) :
    Meets (Advances env carried) Harmless (copyBack passed) env s fun _ s' =>
      s'.Balanced env (s'.stack ++ held) [] := by
  induction passed generalizing s with
  | nil => exact meets_pure h
  | cons e rest ih =>
    obtain ⟨slot, source⟩ := e
    obtain ⟨hslot, hsource⟩ := hp (slot, source) (by simp)
    refine ((store_meets (h.hold hslot.weightless) hsource).assigns fun _ e => e ▸ hsource).bind
      fun _ s₁ _ h₁ => ih h₁.2.1 fun p hin => ?_
    obtain ⟨ht, hs⟩ := hp p (List.mem_cons_of_mem _ hin)
    exact ⟨ht.grows h₁.1, hs.grows h₁.1⟩

/-! ## All arguments -/

/-- **Conveying arguments.**  If nothing faults, the slots of all parameters have the converted contents
that the arguments had in the beginning. -/
def Conveys (env : MethodEnv) (bindings : List Binding) (s s' : Frame) : Prop :=
  ∀ K σ (y : VarRef → Value), s'.draft.vars.Grows K → Store.Agrees K σ →
    (∀ b ∈ bindings, env.ConvertsTo (K.get b.1) b.2.1.type (σ b.1) (y b.2.2)) →
    Fares env K s s' (Unfit env K s σ ∨ ∃ b ∈ bindings,
        Host.Machine.fits (y b.2.2) (env.ident (K.get b.2.2).type) = false) σ fun τ =>
      ∀ b ∈ bindings, τ b.2.2 = y b.2.2

lemma Protects.conveys {entries : List Binding} (hp : Protects env held entries [] args s₁ s₂)
    (hb : Binds env (args.zip (entries.map Prod.snd)) s₂ s₃) (hsnap : Snaps env held' s₃ s')
    (hlen : args.length = entries.length) (hslots : ∀ e ∈ entries, env.IsSlot s₂.draft.vars e.2.2)
    (hs : s.draft.Continues env s₁.draft []) (hstack : ∀ x ∈ s₂.stack, x ∈ s.stack)
    (hargs : ∀ e ∈ entries, e.1 ∈ s.stack) (g₃ : s₂.draft.vars.Grows s₃.draft.vars)
    (g : s₃.draft.vars.Grows s'.draft.vars) (hc : ∃ ps, s₃.draft.Continues env s'.draft ps) :
    Conveys env entries s s' := by
  intro K σ y hK hA hy
  have hK₃ := g.trans hK
  have hK₂ := g₃.trans hK₃
  have hsnd : (args.zip (entries.map Prod.snd)).map Prod.snd = entries.map Prod.snd :=
    List.map_snd_zip (by simp [hlen])
  have hslots_eq : slotsOf (args.zip (entries.map Prod.snd)) = slotsOf entries := by
    rw [slotsOf_eq, hsnd, ← slotsOf_eq]
  have hunfit : (∃ z ∈ slotsOf entries, Host.Machine.fits (y z) (env.ident (K.get z).type) = false) →
      ∃ b ∈ entries, Host.Machine.fits (y b.2.2) (env.ident (K.get b.2.2).type) = false := by
    rintro ⟨z, hz, hfit⟩
    obtain ⟨b, hb, rfl⟩ := List.mem_map.1 hz
    exact ⟨b, hb, hfit⟩
  have hstart (τ : Store) (hkeep : Keeping K (s₁.Keeps held) σ τ) (hu : Unfit env K s₂ τ) :
      Unfit env K s σ :=
    hu.sooner (fun x hx => .inl (hstack x hx)) hK₂ fun z hz => hkeep.lasting z hz.not_temporary
  have hcode : ∃ ps, s₂.draft.Continues env s'.draft ps := by
    obtain ⟨ps, hps⟩ := hb.code
    obtain ⟨qs, hqs⟩ := hc
    exact ⟨ps ++ qs, hps.trans hqs⟩
  refine .after hs (((hp.fares K σ hK₂).mono ?_ fun _ => id).bind hcode fun τ hτ => ?_)
  · rintro ⟨e, he, hslot, hfit⟩
    exact .inl ⟨e.1, hargs e he, hslot, hfit⟩
  obtain ⟨hstands, hkeep⟩ := hτ
  refine ((hb.fares K τ y hK₃ (hkeep.agrees hA) fun f hf => ?_).mono ?_ fun _ => id).bind hc
    fun ρ hρ => ?_
  · obtain ⟨e, he, heq, hstand⟩ := hstands f hf
    rw [hstand.value_eq, ← heq]
    exact (hy e he).congr hstand.type_eq hstand.constant_eq
  · rw [hslots_eq]
    exact Or.imp (hstart τ hkeep) hunfit
  obtain ⟨hvalue, hother⟩ := hρ
  rw [hslots_eq] at hvalue hother
  refine (hsnap.fares K ρ hK).mono (fun hu => ?_) fun υ hυ b hmem => ?_
  · refine (hu.sooner_or hb.restacked hK₃ fun z hz => hother z hz.not_temporary).imp
      (hstart τ hkeep) fun ⟨z, hz, hfit⟩ => hunfit ⟨z, hz, hvalue z hz ▸ hfit⟩
  · rw [hυ.lasting _ ((hslots b hmem).grows hK₂).not_temporary,
      hvalue b.2.2 (List.mem_map_of_mem (f := fun e : Binding => e.2.2) hmem)]

/-- **From the operand stack to the slots.**  The frame `s₀` is one from before the arguments were taken
off the operand stack. -/
structure Passed (env : MethodEnv) (held args : List VarRef) (params : List ParamDecl)
    (names : List String) (s : Frame) (passed : List (VarRef × VarRef)) (s' : Frame) : Prop where
  balanced : s'.Balanced env (s'.stack ++ held) []
  isSlot : ∀ p ∈ passed, env.IsSlot s'.draft.vars p.1 ∧ env.IsSlot s'.draft.vars p.2
  conveys : ∃ slots, List.Forall₂ s'.draft.vars.Named slots names ∧
    ((∀ p ∈ params, p.byRef = false) → names.Nodup → ∀ s₀ : Frame,
      s₀.draft.Continues env s.draft [] → (∀ x ∈ args ++ s.stack, x ∈ s₀.stack) →
      Conveys env (args.zip (params.zip slots)) s₀ s')

lemma passArguments_meets {α : Type} {f : List (VarRef × VarRef) → Lower α} {Q : α → Frame → Prop}
    (params : List ParamDecl) (names : List String)
    (h : s.Balanced env (args ++ (s.stack ++ held)) []) (hargs : args.length = params.length)
    (hnames : names.length = params.length)
    (hf : ∀ passed s', Advances env carried s s' → Passed env held args params names s passed s' →
      Meets (Advances env carried) Harmless (f passed) env s' Q) :
    Meets (Advances env carried) Harmless (do
      let slots ← parameterSlots (params.zip names)
      let args ← protectArguments (args.zip (params.zip slots)) []
      let passed ← storeArguments (args.zip (params.zip slots))
      snapshotFields
      f passed) env s Q := by
  refine (parameterSlots_meets _ h).quietly.bind fun slots s₁ g₁ h₁ => ?_
  obtain ⟨hsil, hb₁, hslots, hslot, hnamed⟩ := h₁
  rw [List.map_snd_zip (by simp [hnames])] at hnamed
  have hstack : s₁.stack = s.stack := by
    rw [hsil.rest]
    rfl
  have hlen : slots.length = params.length := by simp [hslots, hnames]
  have hfst (args : List VarRef) (hargs : args.length = params.length) :
      (args.zip (params.zip slots)).map Prod.fst = args := List.map_fst_zip (by simp [hlen, hargs])
  have hsnd (args : List VarRef) (hargs : args.length = params.length) :
      (args.zip (params.zip slots)).map Prod.snd = params.zip slots :=
    List.map_snd_zip (by simp [hlen, hargs])
  have hslot₁ (args : List VarRef) (e : Binding) (he : e ∈ args.zip (params.zip slots)) :
      env.IsSlot s₁.draft.vars e.2.2 := hslot _ (List.of_mem_zip (List.of_mem_zip he).2).2
  rw [← hfst args hargs, ← hstack] at hb₁
  refine (protectArguments_meets _ [] hb₁ (hslot₁ args) (by simp)).works.bind fun args' s₂ g₂ h₂ => ?_
  obtain ⟨w₂, hb₂, hargs', hprotects⟩ := h₂
  have hargs' : args'.length = params.length := by simpa [hlen, hargs] using hargs'
  rw [← hfst args' hargs', ← w₂.stack_eq] at hb₂
  refine (storeArguments_meets _ hb₂ fun e he => (hslot₁ args' e he).grows w₂.vars).bind
    fun passed s₃ g₃ h₃ => ?_
  obtain ⟨hb₃, hpassed, hbinds⟩ := h₃
  refine ((snapshotFields_meets hb₃).keep.relate fun _ _ _ hs => Follows.rearranges hs.1
    fun _ => False.elim).bind fun _ s₄ g₄ h₄ => hf passed s₄ (((g₁.trans g₂).trans g₃).trans g₄) ?_
  obtain ⟨w₄, hb₄, hsnaps⟩ := h₄
  refine ⟨hb₄, fun p hp => ⟨(hpassed p hp).1.grows w₄.vars, (hpassed p hp).2.grows w₄.vars⟩, slots,
    hnamed.imp fun _ _ hn => hn.grows (g₂.vars.trans (g₃.vars.trans w₄.vars)),
    fun hval hnodup s₀ hcode hin => ?_⟩
  have hvalue (args : List VarRef) (e : Binding) (he : e ∈ args.zip (params.zip slots)) :
      e.2.1.byRef = false := hval _ (List.of_mem_zip (List.of_mem_zip he).2).1
  have hprot := hprotects (hvalue args)
  have hordered := hprot.ordered
  rw [hsnd args hargs] at hordered
  have hdistinct : (slotsOf (args'.zip (params.zip slots))).Nodup := by
    rw [slotsOf_eq, hsnd args' hargs', List.map_snd_zip (by simp [hlen])]
    exact Variables.nodup_of_named hnamed hnodup
  have hbind := hbinds (hvalue args') hordered hdistinct
  rw [← hsnd args hargs] at hbind
  refine hprot.conveys hbind hsnaps (by simp [hlen, hargs, hargs'])
    (fun e he => (hslot₁ args e he).grows w₂.vars) (hcode.trans hsil.records.code) (fun x hx => ?_)
    (fun e he => hin e.1 (List.mem_append_left _ (List.of_mem_zip he).1)) g₃.vars w₄.vars w₄.continues
  rw [w₂.stack_eq, hstack] at hx
  exact hin x (List.mem_append_right _ hx)

end Rules

end FlatHeap
