import FlatHeap.Proofs.Lowering.Account

/-!
# Balanced frames and the primitives of a lowering

`Frame.Balanced` is the invariant of a lowering.  Its heart is `Books`; the other parts say which
variables can be reached at all.  Nobody holds an address of anything but a slot, merge slots are
temporaries or the program itself, and a merge slot is referred to from nowhere else while it waits.

The second half of the module specifies the primitives.  Each specification names the hand before and
the hand after.  The error predicate is a parameter: where a primitive can fail, the specification
asks for the error to be admitted, and where it cannot, nothing is asked.  That way the same
specification serves where errors are tolerated and where success is to be shown.
-/

namespace FlatHeap

open Variables

variable {vs : Variables}

namespace MethodEnv

variable {env : MethodEnv} {vs vs' : Variables} {v : VarRef}

/-- A variable that may be in hand. -/
structure Usable (env : MethodEnv) (vs : Variables) (v : VarRef) : Prop where
  has : vs.Has v
  target : ∀ t, vs.kind v = .address t → env.IsSlot vs t
  unlabelled : vs.Unlabelled v

lemma Usable.grows (h : env.Usable vs v) (g : vs.Grows vs') : env.Usable vs' v := by
  have hk := g.kind_eq h.has
  exact ⟨g.has h.has, fun t e => (h.target t (hk ▸ e)).grows g, g.unlabelled h.has h.unlabelled⟩

lemma usable_of_readable (h : vs.Readable v) : env.Usable vs v := by
  refine ⟨h.has, fun t e => ?_, h.unlabelled⟩
  have hv := h.value
  change (vs.get v).kind = _ at e
  simp [Variable.isAddress, e] at hv

lemma Usable.readable (h : env.Usable vs v) (ha : (vs.get v).isAddress = false) :
    vs.Readable v :=
  ⟨h.has, ha, h.unlabelled⟩

lemma IsSlot.readable (h : env.IsSlot vs v) : vs.Readable v := by
  have hk := h.2
  unfold kind at hk
  refine ⟨h.1, ?_, fun l (e : (vs.get v).kind = _) => ?_⟩
  · unfold Variable.isAddress
    split <;> simp_all [Fixed]
  · simp [e, Fixed] at hk

lemma IsSlot.usable (h : env.IsSlot vs v) : env.Usable vs v := usable_of_readable h.readable

lemma IsSlot.plain (h : env.IsSlot vs v) : vs.Plain v :=
  plain_of_not_isAddress h.readable.value

lemma IsSlot.not_temporary (h : env.IsSlot vs v) : vs.kind v ≠ .temporary := by
  intro hk
  rcases h.2 with hf | hl
  · simp [Fixed, hk] at hf
  · simp [hk] at hl

lemma IsSlot.not_constant (h : env.IsSlot vs v) : vs.kind v ≠ .constant := by
  intro hk
  rcases h.2 with hf | hl
  · simp [Fixed, hk] at hf
  · simp [hk] at hl

/-- A usable variable that stands for no read of a temporary. -/
structure Weightless (env : MethodEnv) (vs : Variables) (v : VarRef) : Prop where
  usable : env.Usable vs v
  plain : vs.Plain v
  not_temporary : vs.kind v ≠ .temporary

lemma Weightless.grows (h : env.Weightless vs v) (g : vs.Grows vs') : env.Weightless vs' v := by
  have hk := g.kind_eq h.usable.1
  refine ⟨h.usable.grows g, fun a i => ?_, ?_⟩
  · rw [hk]
    exact h.plain a i
  · rw [hk]
    exact h.not_temporary

lemma IsSlot.weightless (h : env.IsSlot vs v) : env.Weightless vs v :=
  ⟨h.usable, h.plain, h.not_temporary⟩

lemma weightless_of_kind (hh : vs.Has v) (hk : vs.kind v = .constant) : env.Weightless vs v := by
  have hr : vs.Readable v := by
    refine ⟨hh, ?_, ?_⟩
    · unfold kind at hk
      simp [Variable.isAddress, hk]
    · simp [Unlabelled, hk]
  exact ⟨usable_of_readable hr, plain_of_not_isAddress hr.value, by simp [hk]⟩

end MethodEnv

namespace Frame

/-- The books of a frame balance when the variables `held` are in hand and the temporaries `kept`
are reserved by whoever has them in hand. -/
structure Balanced (env : MethodEnv) (s : Frame) (held kept : List VarRef) : Prop where
  tidy : s.draft.vars.Tidy
  books : Books s.draft.vars s.scratch (held ++ s.waiting)
    (fun t => t ∈ s.waiting ∨ t ∈ kept)
  self : s.draft.vars.Has Draft.self ∧ s.draft.vars.kind Draft.self = .self
  slots : ∀ v, v ∈ env.args ∨ v ∈ env.locals ∨ env.returnVar = some v →
    env.IsSlot s.draft.vars v
  usable : ∀ v ∈ held, env.Usable s.draft.vars v
  waiting : ∀ v ∈ s.waiting, s.draft.vars.IsTemp v ∨ v = Draft.self
  apart : ∀ t ∈ s.waiting, s.draft.vars.IsTemp t →
    s.draft.vars.loads held t = 0 ∧ s.waiting.count t = 1

variable {env : MethodEnv} {s s' : Frame} {held held' kept kept' : List VarRef} {v : VarRef}

namespace Balanced

lemma grows_self (h : s.Balanced env held kept) (g : s.draft.vars.Grows s'.draft.vars) :
    s'.draft.vars.Has Draft.self ∧ s'.draft.vars.kind Draft.self = .self :=
  ⟨g.has h.self.1, (g.kind_eq h.self.1).trans h.self.2⟩

lemma ne_of_waiting (h : s.Balanced env held kept) (hv : v ∈ held) {t : VarRef}
    (ht : t ∈ s.waiting) (htemp : s.draft.vars.IsTemp t) : t ≠ v := by
  rintro rfl
  have hle : s.draft.vars.load t t ≤ s.draft.vars.loads held t := load_le_loads hv t
  rw [load_self (plain_of_temporary htemp.2), (h.apart t ht htemp).1] at hle
  exact absurd hle (by simp)

lemma isTemp_waiting (h : s.Balanced env held kept) (g : s.draft.vars.Grows s'.draft.vars)
    {t : VarRef} (ht : t ∈ s.waiting) (htemp : s'.draft.vars.IsTemp t) :
    s.draft.vars.IsTemp t := by
  rcases h.waiting t ht with hh | rfl
  · exact hh
  · exact absurd ((h.grows_self g).2.symm.trans htemp.2) (by simp)

lemma update (h : s.Balanced env held kept) (g : s.draft.vars.Grows s'.draft.vars)
    (tidy : s'.draft.vars.Tidy)
    (books : Books s'.draft.vars s'.scratch (held' ++ s'.waiting)
      (fun t => t ∈ s'.waiting ∨ t ∈ kept'))
    (usable : ∀ v ∈ held', v ∈ held ∨ env.Usable s'.draft.vars v)
    (loads : ∀ t ∈ s.waiting, s.draft.vars.IsTemp t →
      s.draft.vars.loads held t = 0 → s'.draft.vars.loads held' t = 0)
    (merges : s'.merges = s.merges) : s'.Balanced env held' kept' := by
  have hw : s'.waiting = s.waiting := by simp only [Frame.waiting, merges]
  refine ⟨tidy, books, h.grows_self g, fun v hv => (h.slots v hv).grows g, fun v hv => ?_,
    fun v hv => (h.waiting v (hw ▸ hv)).imp_left g.isTemp, fun t ht htemp => ?_⟩
  · rcases usable v hv with hv | hv
    · exact (h.usable v hv).grows g
    · exact hv
  · rw [hw] at ht ⊢
    have htemp := h.isTemp_waiting g ht htemp
    exact ⟨loads t ht htemp (h.apart t ht htemp).1, (h.apart t ht htemp).2⟩

lemma loads_grows (h : s.Balanced env held kept) (g : s.draft.vars.Grows vs) (t : VarRef) :
    vs.loads held t = s.draft.vars.loads held t :=
  loads_eq_of_grows g (fun v hv => (h.usable v hv).1) t

lemma of_eq (h : s.Balanced env held kept) (hv : s'.draft.vars = s.draft.vars)
    (hp : s'.scratch = s.scratch) (hm : s'.merges = s.merges) :
    s'.Balanced env held kept := by
  have hw : s'.waiting = s.waiting := by simp only [Frame.waiting, hm]
  refine h.update ?_ ?_ ?_ ?_ ?_ hm
  · rw [hv]
    exact .refl _
  · rw [hv]
    exact h.tidy
  · rw [hv, hp, hw]
    exact h.books
  · exact fun v hmem => .inl hmem
  · intro t _ _ h0
    rwa [hv]

lemma perm (h : s.Balanced env held kept) (hp : held.Perm held') : s.Balanced env held' kept :=
  { h with
    books := h.books.perm (hp.append_right s.waiting)
    usable := fun v hv => h.usable v (hp.mem_iff.2 hv)
    apart := fun t ht htemp => by
      rw [← loads_perm hp t]
      exact h.apart t ht htemp }

lemma load_weightless (hv : env.Weightless s.draft.vars v) (t : VarRef)
    (ht : s.draft.vars.IsTemp t) : s.draft.vars.load v t = 0 :=
  load_of_not_temporary hv.plain hv.not_temporary ht.2

lemma hold (h : s.Balanced env held kept) (hv : env.Weightless s.draft.vars v) :
    s.Balanced env (v :: held) kept := by
  refine h.update (.refl _) h.tidy ?_ (fun w hw => ?_) (fun t _ ht h0 => ?_) rfl
  · exact h.books.list hv.usable.1 (load_weightless hv)
  · rcases List.mem_cons.1 hw with rfl | hw
    · exact .inr hv.usable
    · exact .inl hw
  · simpa [load_weightless hv t ht] using h0

lemma letGo (h : s.Balanced env (v :: held) kept) (hv : env.Weightless s.draft.vars v) :
    s.Balanced env held kept := by
  refine h.update (.refl _) h.tidy (Books.drop (v := v) h.books (load_weightless hv))
    (fun w hw => .inl (List.mem_cons_of_mem v hw)) (fun t _ ht h0 => ?_) rfl
  simpa [load_weightless hv t ht] using h0

lemma not_pooled (h : s.Balanced env held kept) (hv : v ∈ held) (hp : s.draft.vars.Plain v) :
    (s.draft.vars.get v).pooled = false :=
  h.books.not_pooled (by simp [hv]) hp

lemma usable_hand (h : s.Balanced env held kept) (hv : v ∈ held) :
    env.Usable s.draft.vars v :=
  h.usable v hv

end Balanced

end Frame

/-! ## New variables

All variables but temporaries are made outside the pool, and their making is no read. -/

namespace Frame

lemma Balanced.addVar {env : MethodEnv} {s : Frame} {held kept : List VarRef}
    (h : s.Balanced env held kept) {x : Variable} (hx : s.draft.vars.Joins x)
    (hk : x.kind ≠ .temporary) (hp : x.pooled = false) :
    (s.withVars (s.draft.vars.add x).2 s.scratch).Balanced env held kept :=
  h.update (grows_add _ x) (h.tidy.add hx) (h.books.add x hk hp) (fun _ => .inl)
    (fun t _ _ h0 => (h.loads_grows (grows_add _ x) t).trans h0) rfl

end Frame

namespace Lower

open FlatHeap.Frame

variable {R : Frame → Frame → Prop} [Admits R] {E : CompileError → Prop} {env : MethodEnv} {s : Frame}
  {held kept : List VarRef} {v : VarRef}

def IsConst (vs : Variables) (x : Value) (t : TypeRef) (v : VarRef) : Prop :=
  vs.Has v ∧ vs.kind v = .constant ∧ (vs.get v).type = t ∧ (vs.get v).value = some x

lemma IsConst.weightless {x : Value} {t : TypeRef} (h : IsConst vs x t v) : env.Weightless vs v :=
  MethodEnv.weightless_of_kind h.1 h.2.1

lemma IsConst.grows {vs' : Variables} {x : Value} {t : TypeRef} (h : IsConst vs x t v)
    (g : vs.Grows vs') : IsConst vs' x t v :=
  ⟨g.has h.1, (g.kind_eq h.1).trans h.2.1, (g.type_eq h.1).trans h.2.2.1,
    (g.value_eq h.1).trans h.2.2.2⟩

lemma IsConst.not_address {x : Value} {t : TypeRef} (h : IsConst vs x t v) :
    (vs.get v).isAddress = false := by
  have hk := h.2.1
  simp only [kind] at hk
  simp [Variable.isAddress, hk]

lemma constant_meets (h : s.Balanced env held kept) (x : Value) (t : TypeRef) :
    Meets R E (constant x t) env s fun v s' =>
      s'.Balanced env held kept ∧ IsConst s'.draft.vars x t v := by
  have hrun : constant x t env s = .ok (s.draft.vars.constant x t).1
      (s.withVars (s.draft.vars.constant x t).2 s.scratch) := rfl
  rw [Variables.constant] at hrun
  cases hf : s.draft.vars.findConstant? x t with
  | some v =>
    rw [hf] at hrun
    exact meets_of_ok hrun (refl_of R s) ⟨h, findConstant?_spec hf⟩
  | none =>
    rw [hf] at hrun
    set c : Variable := { type := t, kind := .constant, value := some x } with hc
    refine meets_of_ok hrun (Admits.silent (silent_add (x := c) (by simp [hc])))
      ⟨h.addVar ⟨by simp [hc], by simp [hc], by simp [hc], by simp [hc]⟩ (by simp [hc]) rfl, ?_⟩
    have hget := get_add_new s.draft.vars c
    refine ⟨has_add_new _ c, ?_, ?_, ?_⟩
    · exact congrArg Variable.kind hget
    · exact congrArg Variable.type hget
    · exact congrArg Variable.value hget

lemma textConstant_meets (h : s.Balanced env held kept) (text : String) :
    Meets R E (textConstant text) env s fun v s' =>
      s'.Balanced env held kept ∧ IsConst s'.draft.vars (.text text) .string v :=
  constant_meets h (.text text) .string

lemma intConstant_meets (h : s.Balanced env held kept) (t : TypeRef) (k : Int)
    (hE : env.md.integerValue? t k = none → E (.invariant (.noIntegerConstants (env.md.typeName t)))) :
    Meets R E (intConstant t k) env s fun v s' =>
      s'.Balanced env held kept ∧
        ∃ x, env.md.integerValue? t k = some x ∧ IsConst s'.draft.vars x t v := by
  rw [intConstant, meets_metadata_bind]
  cases hx : env.md.integerValue? t k with
  | none => exact meets_breach (hE hx)
  | some x => exact (constant_meets h x t).mono fun v s' _ hv => ⟨hv.1, x, rfl, hv.2⟩

lemma addressOf_meets (h : s.Balanced env held kept) (hv : env.IsSlot s.draft.vars v) :
    Meets R E (addressOf v) env s fun a s' =>
      s'.Balanced env held kept ∧ env.Weightless s'.draft.vars a := by
  set x : Variable := { type := (s.draft.vars.get v).type, kind := .address v } with hx
  have hrun : addressOf v env s =
      .ok (s.draft.vars.add x).1 (s.withVars (s.draft.vars.add x).2 s.scratch) := rfl
  have g := grows_add s.draft.vars x
  refine meets_of_ok hrun (Admits.silent (silent_add (x := x) (by simp [hx])))
    ⟨h.addVar ⟨?_, by simp [hx], by simp [hx], by simp [hx]⟩ (by simp [hx]) rfl, ?_⟩
  · rintro t ⟨⟩
    exact hv.1
  · have hk : (s.draft.vars.add x).2.kind (s.draft.vars.add x).1 = .address v :=
      congrArg Variable.kind (get_add_new s.draft.vars x)
    have hplain : (s.draft.vars.add x).2.Plain (s.draft.vars.add x).1 := by
      simp [Plain, hk]
    refine ⟨⟨has_add_new _ x, fun t e => ?_, ?_⟩, hplain, ?_⟩
    · obtain rfl : v = t := by simpa using hk.symm.trans e
      exact hv.grows g
    · exact fun l e => absurd (hk.symm.trans e) (by simp)
    · exact fun e => absurd (hk.symm.trans e) (by simp)

end Lower

/-! ## The scratch pool -/

namespace Lower

open FlatHeap.Frame

variable {R : Frame → Frame → Prop} [Admits R] {E : CompileError → Prop} {env : MethodEnv} {s : Frame}
  {held kept : List VarRef} {v : VarRef}

lemma pool_ok {op : Scratch → Variables → Except Breach (Variables × Scratch)} {p : Scratch}
    (h : op s.scratch s.draft.vars = .ok (vs, p)) : pool op env s = .ok () (s.withVars vs p) := by
  rw [pool, get_bind, h]
  rfl

lemma useVar_idle (hk : s.draft.vars.kind v ≠ .temporary) : useVar v env s = .ok () s :=
  pool_ok (by simp [Scratch.use, isTemporary_eq_false hk])

lemma allocate_idle (hk : s.draft.vars.kind v ≠ .temporary) (n : Nat) :
    allocate v n env s = .ok () s :=
  pool_ok (by simp [Scratch.allocate, isTemporary_eq_false hk])

lemma temp_meets (h : s.Balanced env held kept) (t : TypeRef) :
    Meets R E (temp t) env s fun v s' =>
      s'.Balanced env (v :: held) kept ∧ s'.draft.vars.IsTemp v ∧
        (s'.draft.vars.get v).type = t ∧ (∀ x, s.Keeps held x → x ≠ v) ∧ v ∉ s.waiting ∧
        v ∉ kept ∧ s'.draft.vars.loads (held ++ s.waiting) v = 0 := by
  set out : Option HandOut :=
    some ⟨env.name, s.current.bind fun i => (env.code[i]?).map (·.offset)⟩ with hout
  obtain ⟨v, vs, p, ht⟩ : ∃ v vs p, s.scratch.take s.draft.vars t out = (v, vs, p) :=
    ⟨_, _, _, rfl⟩
  obtain ⟨hb, g, tidy, htemp, htype, hzero, hlive, hresv⟩ := h.books.take h.tidy t _ ht
  have hrun : temp t env s = .ok v (s.withVars vs p) := by
    have : temp t env s = .ok (s.scratch.take s.draft.vars t out).1
        (s.withVars (s.scratch.take s.draft.vars t out).2.1
          (s.scratch.take s.draft.vars t out).2.2) := rfl
    rw [this, ht]
  have hothers : Untouched s (s.withVars vs p) :=
    ⟨fun w hw htw => Scratch.get_take_of_ne ht (fun e => hresv (.inl (e ▸ hw))) htw.1,
      [v], .take ht .done, by simpa using fun hw => hresv (.inl hw)⟩
  refine meets_of_ok hrun (Admits.silent (silent_withVars g hothers))
    ⟨?_, htemp, htype, fun x hx => ?_, fun hw => ?_, fun hk => ?_, hzero⟩
  · refine h.update g tidy hb (fun w hw => ?_) (fun t hw ht h0 => ?_) rfl
    · rcases List.mem_cons.1 hw with rfl | hw
      · exact .inr (MethodEnv.usable_of_readable htemp.readable)
      · exact .inl hw
    · have hne : v ≠ t := fun e => hresv (.inl (e ▸ hw))
      rw [← h.loads_grows g] at h0
      have hnew := load_of_plain (plain_of_temporary htemp.2) t
      rw [if_neg hne] at hnew
      show vs.loads (v :: held) t = 0
      rw [loads_cons, hnew, h0]
  · rintro rfl
    by_cases hk : s.draft.vars.kind x = .temporary
    · obtain ⟨w, hw, hl⟩ := hx.2 hk
      exact hlive x ⟨hx.1, hk⟩ (hl.trans_le (load_le_loads hw x)) rfl
    · exact hk ((g.kind_eq hx.1).symm.trans htemp.2)
  · exact hresv (.inl hw)
  · exact hresv (.inr hk)

/-- An operation of the pool on a variable that is no waiting temporary. -/
lemma pool_meets {op : Scratch → Variables → Except Breach (Variables × Scratch)} {p : Scratch}
    {held' kept' : List VarRef} (h : s.Balanced env held kept)
    (hrun : op s.scratch s.draft.vars = .ok (vs, p))
    (ht : Scratch.Tends (s.draft.vars, s.scratch) (vs, p)) (ha : s.draft.vars.Alters v vs)
    (hne : ∀ w ∈ s.waiting, s.draft.vars.IsTemp w → w ≠ v)
    (hb : Books vs p (held' ++ s.waiting) fun t => t ∈ s.waiting ∨ t ∈ kept')
    (usable : ∀ w ∈ held', w ∈ held ∨ env.Usable vs w)
    (loads : ∀ t ∈ s.waiting, s.draft.vars.IsTemp t → vs.loads held t = 0 → vs.loads held' t = 0) :
    Meets R E (pool op) env s fun _ s' => s'.Balanced env held' kept' := by
  have g := ha.grows
  have hothers : Untouched s (s.withVars vs p) :=
    .of_tends ht fun w hw htw => ha.get_of_ne (hne w hw htw)
  refine meets_of_ok (pool_ok hrun) (Admits.silent (silent_withVars g hothers)) ?_
  refine h.update g (h.tidy.of_same ha.size_eq g) hb usable (fun t hw ht h0 => ?_) rfl
  exact loads t hw ht ((h.loads_grows g t).trans h0)

lemma useVar_meets (h : s.Balanced env (v :: held) kept) (hp : s.draft.vars.Plain v) :
    Meets R E (useVar v) env s fun _ s' => s'.Balanced env held kept := by
  obtain ⟨vs, p, hrun, hb⟩ := Books.use (v := v) h.books hp
  refine pool_meets h hrun (.use hrun) (Scratch.alters_use hrun)
    (fun w hw htw => h.ne_of_waiting (by simp) hw htw) hb
    (fun w hw => .inl (List.mem_cons_of_mem v hw)) fun t _ _ h0 => ?_
  rw [loads_cons] at h0
  exact (Nat.add_eq_zero_iff.1 h0).2

lemma allocateRead_meets (h : s.Balanced env held kept) (hv : env.Usable s.draft.vars v)
    (hp : s.draft.vars.Plain v)
    (hpos : s.draft.vars.kind v = .temporary → 0 < s.draft.vars.loads held v)
    (n : Nat) :
    Meets R E (allocate v n) env s fun _ s' =>
      s'.Balanced env (List.replicate n v ++ held) kept := by
  obtain ⟨vs, hrun, hb⟩ := h.books.allocate hv.1 hp
    (fun hk => by rw [loads_append]; exact Nat.add_pos_left (hpos hk) _) n
  have ha := Scratch.alters_allocate hrun
  have hne (w : VarRef) (hw : w ∈ s.waiting) (htw : s.draft.vars.IsTemp w) : w ≠ v := fun e =>
    (hpos (e ▸ htw.2)).ne' (e ▸ (h.apart w hw htw).1)
  rw [← List.append_assoc] at hb
  refine pool_meets h hrun (.allocate hrun) ha hne hb (fun w hw => ?_) fun t hw ht h0 => ?_
  · rcases List.mem_append.1 hw with hw | hw
    · exact .inr (List.eq_of_mem_replicate hw ▸ hv.grows ha.grows)
    · exact .inl hw
  · have hv0 : vs.load v t = 0 := by
      rw [load_eq_of_kind_eq (ha.grows.kind_eq hv.1), load_of_plain hp, if_neg (hne t hw ht).symm]
    rw [loads_append, h0, loads]
    simp [hv0]

lemma allocate_meets (h : s.Balanced env held kept) (hv : v ∈ held)
    (hp : s.draft.vars.Plain v) (n : Nat) :
    Meets R E (allocate v n) env s fun _ s' =>
      s'.Balanced env (List.replicate n v ++ held) kept := by
  refine allocateRead_meets h (h.usable v hv) hp (fun _ => ?_) n
  have hle : s.draft.vars.load v v ≤ s.draft.vars.loads held v := load_le_loads hv v
  rwa [load_self hp] at hle

lemma reserve_meets (h : s.Balanced env held kept) (hv : v ∈ held)
    (hp : s.draft.vars.Plain v) :
    Meets R E (reserve v) env s fun _ s' => s'.Balanced env held (v :: kept) := by
  obtain ⟨vs, hrun, hb⟩ := h.books.reserve (v := v) (by simp [hv]) hp
    (fun t => t ∈ s.waiting ∨ t ∈ v :: kept) (fun t => by simp only [List.mem_cons]; tauto)
  exact pool_meets h hrun (.reserve hrun) (Scratch.alters_reserve hrun)
    (fun w hw htw => h.ne_of_waiting hv hw htw) hb (fun w hw => .inl hw) fun _ _ _ h0 => h0

lemma release_meets (h : s.Balanced env held (v :: kept)) (hw : v ∉ s.waiting) (hk : v ∉ kept) :
    Meets R E (release v) env s fun _ s' => s'.Balanced env held kept := by
  obtain ⟨vs, p, hrun, hb⟩ := h.books.release (v := v) (.inr (by simp))
    (fun t => t ∈ s.waiting ∨ t ∈ kept) (fun t e => by simp [e]) (fun _ hr => hr.elim hw hk)
  exact pool_meets h hrun (.release hrun) (Scratch.alters_release hrun)
    (fun w hw' _ e => hw (e ▸ hw')) hb (fun w hw => .inl hw) fun _ _ _ h0 => h0

end Lower

end FlatHeap
