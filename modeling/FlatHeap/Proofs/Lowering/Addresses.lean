import FlatHeap.Proofs.Lowering.Assignments

/-!
# Arrays and addresses

An element address in hand stands for a read of its array and one of its index, so reading or writing
the element through it is a host operation on the two parts, and the address is used up with them.
The parts are values in every case that matters.  If one of them is itself an address, which the
operand stack of a strange program may hold, the host operation refuses it before anything is read.
-/

namespace FlatHeap

namespace Lower

open FlatHeap.Frame CompileError

variable {R : Frame → Frame → Prop} {env : MethodEnv} {s s' : Frame} {held kept : List VarRef}
  {v w a i : VarRef}

/-! ## Elements by their address -/

lemma parts_cases (vs : Variables) (a i : VarRef) :
    ((vs.get a).isAddress = false ∧ (vs.get i).isAddress = false) ∨
      ∃ w ∈ [a, i], (vs.get w).isAddress = true := by
  cases ha : (vs.get a).isAddress
  · cases hi : (vs.get i).isAddress
    · exact .inl ⟨rfl, rfl⟩
    · exact .inr ⟨i, by simp, hi⟩
  · exact .inr ⟨a, by simp, ha⟩

lemma parts_live {rest : List VarRef} (h : s.Balanced env held kept) (hv : v ∈ held)
    (hk : s.draft.vars.kind v = .element a i) (hrest : ∀ w ∈ rest, w ∈ held) :
    ∀ w ∈ a :: i :: rest, (s.draft.vars.get w).isAddress = false →
      (s.draft.vars.get w).pooled = false := by
  intro w hw hna
  simp only [List.mem_cons] at hw
  rcases hw with rfl | rfl | hw
  · exact part_not_pooled h hv hk (.inl rfl)
  · exact part_not_pooled h hv hk (.inr rfl)
  · exact h.not_pooled (hrest w hw) (Variables.plain_of_not_isAddress hna)

lemma invokeElement_works {rest : List VarRef} {signature : String} (hvoid : env.IsVoid signature)
    (h : s.Balanced env (v :: (rest ++ held)) kept) (hk : s.draft.vars.kind v = .element a i) :
    Meets (Works env held) Harmless (invoke signature (a :: i :: rest) none) env s fun _ s' =>
      s'.Balanced env held kept := by
  rcases parts_cases s.draft.vars a i with ⟨ha, hi⟩ | ⟨w, hw, hwa⟩
  · have hb : s.Balanced env ((a :: i :: rest) ++ held) kept := h.unfold hk ha hi
    exact (invokeVoid_works hvoid hb).mono fun _ _ _ hs => hs.1
  · refine (invoke_address (R := Works env held) signature none (parts_live h (by simp) hk fun w hw => by simp [hw])
      ⟨w, ?_, hwa⟩).absurd fun _ _ hf => hf
    rcases List.mem_pair.1 hw with rfl | rfl <;> simp

lemma arrayElem_meets [Admits R] (array : VarRef) :
    Meets R Harmless (arrayElem array) env s fun _ s' => s' = s := by
  rw [arrayElem, meets_metadata_bind, meets_typeOf_bind]
  cases env.md.arrayElem? (s.draft.vars.get array).type with
  | some elem => exact meets_pure rfl
  | none => exact meets_refuse (harmless_unsupported _)

lemma arrayGetter_meets [Admits R] (array : VarRef) :
    Meets R Harmless (arrayGetter array) env s fun _ s' => s' = s := by
  refine (arrayElem_meets array).bind fun elem s₁ _ h₁ => ?_
  subst h₁
  exact meets_of_ok rfl (refl_of R _) rfl

lemma invokeTemp_element (signature : String) (t : TypeRef) (h : s.Balanced env (v :: held) kept)
    (hk : s.draft.vars.kind v = .element a i) :
    Meets (Works env held) Harmless (invokeTemp signature [a, i] t) env s fun out s' =>
      s'.Balanced env (out :: held) kept ∧ s'.draft.vars.IsTemp out := by
  rcases parts_cases s.draft.vars a i with ⟨ha, hi⟩ | ⟨w, hw, hwa⟩
  · have hb : s.Balanced env ([a, i] ++ held) kept := h.unfold hk ha hi
    exact (invokeTemp_works t hb).mono fun _ _ _ hs => hs.1
  · have hparts := h.tidy.parts v a i hk
    refine (temp_meets h t).bind fun out s₁ g h₁ => ?_
    have hv := (h.usable_hand (v := v) (by simp)).1
    refine Meets.bind (invoke_address signature (some out)
      (parts_live h₁.1 (by simp) ((g.vars.kind_eq hv).trans hk) (by simp)) ⟨w, hw, ?_⟩)
      fun _ _ _ hf => hf.elim
    rw [g.vars.isAddress_eq, hwa]
    rcases List.mem_pair.1 hw with rfl | rfl
    · exact hparts.1
    · exact hparts.2

lemma arrayGet_works (h : s.Balanced env (v :: held) kept)
    (hk : s.draft.vars.kind v = .element a i) :
    Meets (Works env held) Harmless (arrayGet a i) env s fun out s' =>
      s'.Balanced env (out :: held) kept ∧ s'.draft.vars.IsTemp out := by
  refine (arrayGetter_meets a).bind fun r s₁ _ h₁ => ?_
  subst h₁
  exact invokeTemp_element r.1 r.2 h hk

lemma arraySet_works {hand : List VarRef} (hsub : ∀ v ∈ held, v ∈ hand) (h : s.Balanced env (w :: hand) kept)
    (hset : ∀ signature s₁ x, env.IsVoid signature → s₁.Balanced env (x :: hand) kept →
      s.draft.vars.Grows s₁.draft.vars →
      Meets (Works env held) Harmless (invoke signature [a, i, x] none) env s₁ fun _ s' =>
        s'.Balanced env held kept) :
    Meets (Works env held) Harmless (arraySet a i w) env s fun _ s' => s'.Balanced env held kept := by
  refine (arrayElem_meets a).bind fun elem s₁ _ h₁ => ?_
  subst h₁
  refine ((convert_works elem h).sparing hsub fun _ => id).bind fun x s₂ g hb => ?_
  rw [meets_typeOf_bind, meets_ident_bind, meets_ident_bind]
  exact hset _ s₂ x (.setElement _ elem) hb.1 g.vars

lemma arraySet_element (h : s.Balanced env (w :: v :: held) kept)
    (hk : s.draft.vars.kind v = .element a i) :
    Meets (Works env held) Harmless (arraySet a i w) env s fun _ s' => s'.Balanced env held kept := by
  have hv := (h.usable_hand (v := v) (by simp)).1
  refine arraySet_works (by simp +contextual) h fun signature s₁ x hvoid hb g => ?_
  exact invokeElement_works hvoid (hb.perm (.swap v x held)) ((g.kind_eq hv).trans hk)

lemma arraySet_operands (h : s.Balanced env (w :: a :: i :: held) kept) :
    Meets (Works env held) Harmless (arraySet a i w) env s fun _ s' => s'.Balanced env held kept := by
  refine arraySet_works (by simp +contextual) h fun signature s₁ x hvoid hb g => ?_
  have hb : s₁.Balanced env ([a, i, x] ++ held) kept :=
    hb.perm ((List.Perm.swap a x _).trans ((List.Perm.swap i x held).cons a))
  exact (invokeVoid_works hvoid hb).mono fun _ _ _ hs => hs.1

/-! ## Loading and storing through an address -/

lemma slot_of_address {t : VarRef} (h : s.Balanced env (v :: held) kept)
    (hk : s.draft.vars.kind v = .address t) :
    s.Balanced env held kept ∧ env.IsSlot s.draft.vars t := by
  have hv := h.usable_hand (v := v) (by simp)
  refine ⟨h.letGo ⟨hv, fun a i e => ?_, fun e => ?_⟩, hv.2 t hk⟩
  · exact absurd (hk.symm.trans e) (by simp)
  · exact absurd (hk.symm.trans e) (by simp)

lemma loadIndirect_works (h : s.Balanced env (v :: held) kept) :
    Meets (Works env held) Harmless (loadIndirect v) env s fun out s' =>
      s'.Balanced env (out :: held) kept := by
  rw [loadIndirect, meets_var_bind]
  cases hk : (s.draft.vars.get v).kind with
  | address t =>
    obtain ⟨hb, hslot⟩ := slot_of_address h hk
    exact meets_pure (hb.hold hslot.weightless)
  | element a i => exact (arrayGet_works h hk).mono fun _ _ _ hs => hs.1
  | _ => exact meets_pure h

/-- **Storing through an address** uses up the address and the value. -/
lemma storeIndirect_meets [Follows env R] (h : s.Balanced env (w :: v :: (s.stack ++ held)) kept) :
    Meets R Harmless (storeIndirect v w) env s fun _ s' =>
      s'.Balanced env (s'.stack ++ held) kept := by
  rw [storeIndirect, meets_var_bind]
  cases hk : (s.draft.vars.get v).kind with
  | address t =>
    dsimp only
    obtain ⟨hb, hslot⟩ := slot_of_address (h.perm (.swap v w _)) hk
    rw [meets_typeOf_bind]
    refine (convert_works _ hb).works.bind fun x s₁ _ h₁ => ?_
    rw [← h₁.1.stack_eq] at h₁
    have hslot₁ := hslot.grows h₁.1.vars
    exact ((store_meets h₁.2.1 hslot₁).assigns fun u e => e ▸ hslot₁).mono fun _ _ _ hs => hs.2.1
  | element a i =>
    refine (arraySet_element h hk).works.mono fun _ s' _ hs => ?_
    rw [hs.1.stack_eq]
    exact hs.2
  | _ => exact meets_refuse (harmless_unsupported _)

lemma foldConstant?_none {source target : TypeRef} (h : (s.draft.vars.get v).constant? = none) :
    foldConstant? v source target env s = .ok none s := by
  have hrun : constant? v env s = .ok none s := congrArg (EStateM.Result.ok · s) h
  rw [foldConstant?, metadata_bind, bind_ok hrun]
  rfl

/-! ## What an element address hides

An element address may be taken for a value where a conversion leaves it alone.  The temporaries it
stands for are then *behind* it: nobody will read them any more. -/

end Lower

namespace Variables

variable {vs vs' : Variables} {v t : VarRef}

def behind (vs : Variables) (v : VarRef) : List VarRef :=
  if (vs.get v).isAddress then vs.reads v else []

lemma behind_of_value (h : (vs.get v).isAddress = false) : vs.behind v = [] := by
  simp [behind, h]

lemma kind_of_mem_behind {w : VarRef} (h : w ∈ vs.behind v) : vs.kind w = .temporary := by
  unfold behind at h
  split_ifs at h
  · exact kind_of_mem_reads h
  · cases h

lemma Tidy.has_of_mem_behind {w : VarRef} (ht : vs.Tidy) (hv : vs.Has v) (h : w ∈ vs.behind v) :
    vs.Has w := by
  unfold behind at h
  split_ifs at h
  · exact ht.has_of_mem_reads hv h
  · cases h

lemma load_eq_behind (ht : vs.IsTemp t) (v : VarRef) :
    vs.load v t = (if v = t then 1 else 0) + (vs.behind v).count t := by
  by_cases ha : (vs.get v).isAddress = true
  · have hne : v ≠ t := by
      rintro rfl
      simp [Variable.isAddress_of_temporary ht.2] at ha
    simp [behind, ha, hne, load_eq_count_reads ht]
  · have hp : vs.Plain v := plain_of_not_isAddress (by simpa using ha)
    simp [behind, ha, load_of_plain hp]

lemma reads_grows (g : vs.Grows vs') (ht : vs.Tidy) (hv : vs.Has v) : vs'.reads v = vs.reads v := by
  by_cases hp : vs.Plain v
  · have hp' : vs'.Plain v := fun a i hk => hp a i ((g.kind_eq hv).symm.trans hk)
    rw [reads_of_plain hp, reads_of_plain hp', Lower.filter_temporary_grows g (by simpa using hv)]
  · simp only [Plain, not_forall, not_not] at hp
    obtain ⟨a, i, hk⟩ := hp
    rw [reads_of_element hk, reads_of_element ((g.kind_eq hv).trans hk),
      Lower.filter_temporary_grows g (by simpa using ht.parts v a i hk)]

lemma behind_grows (g : vs.Grows vs') (ht : vs.Tidy) (hv : vs.Has v) :
    vs'.behind v = vs.behind v := by
  simp only [behind, g.isAddress_eq hv, reads_grows g ht hv]

end Variables

namespace Lower

open FlatHeap.Frame CompileError

variable {R : Frame → Frame → Prop} {E : CompileError → Prop} {env : MethodEnv} {s s' : Frame}
  {held kept : List VarRef} {v w a i : VarRef}

lemma convert_behind (target : TypeRef) (h : s.Balanced env (v :: held) kept) :
    Meets (Works env held) Harmless (convert v target) env s fun out s' =>
      s'.Balanced env (out :: held) kept ∧ s'.draft.vars.behind out = s.draft.vars.behind v := by
  by_cases ha : (s.draft.vars.get v).isAddress = true
  · refine (convert_address target h ha).mono ?_
    rintro _ _ - ⟨rfl, rfl⟩
    exact ⟨h, rfl⟩
  · have ha : (s.draft.vars.get v).isAddress = false := by simpa using ha
    refine (convert_works target h).mono fun out s' g h' => ⟨h'.1, ?_⟩
    rw [Variables.behind_of_value ha, Variables.behind_of_value]
    apply h'.isAddress_eq
    rw [g.vars.isAddress_eq (h.usable_hand (by simp)).1, ha]

/-- **The address of an element** takes the place of its array and its index.  What is behind these
stays in hand. -/
lemma elementAddress_meets [Admits R] (h : s.Balanced env (a :: i :: held) kept) (t : TypeRef) :
    Meets R E (elementAddress a i t) env s fun e s' =>
      s'.Balanced env (e :: (s.draft.vars.behind a ++ s.draft.vars.behind i ++ held)) kept := by
  set x : Variable := { type := t, kind := .element a i } with hx
  have hrun : elementAddress a i t env s =
      .ok (s.draft.vars.add x).1 (s.withVars (s.draft.vars.add x).2 s.scratch) := rfl
  have g := Variables.grows_add s.draft.vars x
  set e := (s.draft.vars.add x).1 with he
  have hk : (s.draft.vars.add x).2.kind e = .element a i :=
    congrArg Variable.kind (Variables.get_add_new s.draft.vars x)
  have ha := h.usable_hand (v := a) (by simp)
  have hi := h.usable_hand (v := i) (by simp)
  have h' := h.addVar (x := x) ⟨by simp [hx], by rintro _ _ ⟨⟩; exact ⟨ha.has, hi.has⟩, by simp [hx],
    by rintro _ _ ⟨⟩; exact ⟨ha.unlabelled, hi.unlabelled⟩⟩ (by simp [hx]) rfl
  refine meets_of_ok hrun (Admits.silent (silent_add (x := x) (by simp [hx]))) ?_
  rw [← Variables.behind_grows g h.tidy ha.has, ← Variables.behind_grows g h.tidy hi.has]
  set vs := (s.draft.vars.add x).2 with hvs
  have husable {p w : VarRef} (hp : s.draft.vars.Has p) (hw : w ∈ vs.behind p) :
      env.Usable vs w :=
    usable_of_temporary (s := s.withVars vs s.scratch)
      ⟨h'.tidy.has_of_mem_behind (g.has hp) hw, Variables.kind_of_mem_behind hw⟩
  refine h'.exchange [a, i] (e :: (vs.behind a ++ vs.behind i)) (fun w hw => ?_) fun u hu => ?_
  · simp only [List.mem_cons, List.mem_append] at hw
    rcases hw with rfl | hw | hw
    · exact ⟨Variables.has_add_new _ x, fun t e' => absurd (hk.symm.trans e') (by simp),
        fun l e' => absurd (hk.symm.trans e') (by simp)⟩
    · exact husable ha.has hw
    · exact husable hi.has hw
  · have hu : vs.IsTemp u := hu
    have hcount (p : VarRef) : vs.loads (vs.behind p) u = (vs.behind p).count u :=
      Variables.loads_of_plain (fun w hw => Variables.plain_of_temporary
        (Variables.kind_of_mem_behind hw)) u
    have hload : vs.load e u = (if a = u then 1 else 0) + if i = u then 1 else 0 := by
      simp only [Variables.load, hk]
    show vs.loads [a, i] u = vs.loads (e :: (vs.behind a ++ vs.behind i)) u
    simp only [Variables.loads_cons, Variables.loads_nil, Variables.loads_append, hload, hcount,
      Variables.load_eq_behind hu a, Variables.load_eq_behind hu i]
    omega

end Lower

end FlatHeap
