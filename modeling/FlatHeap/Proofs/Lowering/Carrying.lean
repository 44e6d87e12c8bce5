import FlatHeap.Proofs.Lowering.Addresses

/-!
# Carrying the operand stack

A branch hands its operand stack over to merge slots, and arrival at an offset takes the merge slots
up as the operand stack.  For the books a merge slot is in hand and reserved from the moment it is
made; while it waits the frame has both, and on arrival the reservation is given up and the read goes
to the operand stack.  So the same account serves before and after: what changes is only who has the
slots.

Moving an entry into its slot uses up the entry after an unconditional branch, and a further read of
it after a conditional one.  Addresses are refused by the copy, so an entry that is moved is always a
value.  The moves come one after the other, but no move disturbs another: the code of a conversion
spares what is in hand and what waits, and slots are distinct.
-/

namespace FlatHeap

variable {env : MethodEnv} {source : Variable} {x y : Value} {v : VarRef}

/-! ## Merge slots -/

namespace Frame

variable {env : MethodEnv} {s s' : Frame} {held kept kept' slots : List VarRef} {v : VarRef}

lemma Balanced.rekeep (h : s.Balanced env held kept)
    (hk : ∀ t, s.draft.vars.IsTemp t → (t ∈ kept' ↔ t ∈ kept))
    (hhas : ∀ t ∈ kept', s.draft.vars.Has t) : s.Balanced env held kept' := by
  refine { h with books := { h.books with reserved := fun t ht => ?_, resvHas := fun t ht => ?_ } }
  · rw [h.books.reserved t ht, hk t ht]
  · rcases ht with ht | ht
    · exact h.books.resvHas t (.inl ht)
    · exact hhas t ht

lemma Balanced.weightless_self (h : s.Balanced env held kept) :
    env.Weightless s.draft.vars Draft.self := by
  have hk := h.self.2
  refine ⟨MethodEnv.usable_of_readable ⟨h.self.1, ?_, fun l e => ?_⟩, fun a i e => ?_, fun e => ?_⟩
  · simp only [Variables.kind] at hk
    simp [Variable.isAddress, hk]
  all_goals exact absurd (hk.symm.trans e) (by simp)

/-- Slots for an operand stack: the program itself, and temporaries that nothing else refers to. -/
structure Slots (s : Frame) (slots held : List VarRef) : Prop where
  kinds : ∀ m ∈ slots, s.draft.vars.IsTemp m ∨ m = Draft.self
  single : ∀ m ∈ slots, s.draft.vars.IsTemp m →
    s.draft.vars.loads (slots ++ (held ++ s.waiting)) m = 1

/-- **Installing** merge slots: the frame takes them over with their reservations. -/
lemma Balanced.install (h : s.Balanced env (slots ++ held) (slots ++ kept)) (hm : Slots s slots held)
    (target : Nat) :
    ({ s with merges := (target, slots.reverse) :: s.merges } : Frame).Balanced env held kept := by
  set s' : Frame := { s with merges := (target, slots.reverse) :: s.merges } with hs'
  have hwait : s'.waiting = slots.reverse ++ s.waiting := rfl
  have hrefs : (slots ++ held ++ s.waiting).Perm (held ++ s'.waiting) := by
    rw [hwait, List.append_assoc]
    calc (slots ++ (held ++ s.waiting)).Perm (held ++ s.waiting ++ slots) := List.perm_append_comm
      _ |>.Perm (held ++ (slots ++ s.waiting)) := by
          rw [List.append_assoc]
          exact List.perm_append_comm.append_left held
      _ |>.Perm (held ++ (slots.reverse ++ s.waiting)) :=
          ((List.reverse_perm slots).symm.append_right s.waiting).append_left held
  have hplain (m : VarRef) (hmem : m ∈ slots) : s.draft.vars.Plain m := by
    rcases hm.kinds m hmem with ht | rfl
    · exact Variables.plain_of_temporary ht.2
    · exact h.weightless_self.plain
  refine ⟨h.tidy, ?_, h.self, h.slots, fun v hv => h.usable v (List.mem_append_right _ hv), ?_, ?_⟩
  · refine { h.books.perm hrefs with reserved := fun t ht => ?_, resvHas := fun t ht => ?_ }
    · have := h.books.reserved t ht
      simp only [hwait, List.mem_append, List.mem_reverse] at this ⊢
      tauto
    · refine h.books.resvHas t ?_
      simp only [hwait, List.mem_append, List.mem_reverse] at ht ⊢
      tauto
  · intro v hv
    rcases List.mem_append.1 (hwait ▸ hv) with hv | hv
    · exact hm.kinds v (List.mem_reverse.1 hv)
    · exact h.waiting v hv
  · intro t ht htemp
    have hcount : s'.waiting.count t = slots.count t + s.waiting.count t := by
      rw [hwait, List.count_append, List.count_reverse]
    have hloads := Variables.loads_of_plain hplain t
    rcases List.mem_append.1 (hwait ▸ ht) with hin | hin
    · -- a new slot: it has one reference in all, and that is the slot itself
      have hone := hm.single t (List.mem_reverse.1 hin) htemp
      simp only [Variables.loads_append, hloads] at hone
      have hpos := List.count_pos_iff.2 (List.mem_reverse.1 hin)
      have hout : t ∉ s.waiting := fun hw => by
        have hle : s.draft.vars.load t t ≤ s.draft.vars.loads s.waiting t :=
          Variables.load_le_loads hw t
        rw [Variables.load_self (Variables.plain_of_temporary htemp.2)] at hle
        omega
      refine ⟨show s.draft.vars.loads held t = 0 by omega, ?_⟩
      rw [hcount, List.count_eq_zero.2 hout]
      omega
    · obtain ⟨hzero, hone⟩ := h.apart t hin htemp
      rw [Variables.loads_append, hloads] at hzero
      refine ⟨show s.draft.vars.loads held t = 0 by omega, ?_⟩
      omega

end Frame

namespace Lower

open FlatHeap.Frame CompileError

variable {E : CompileError → Prop} {env : MethodEnv} {s s' : Frame} {held kept : List VarRef}
  {v slot : VarRef}

lemma stackType_run (env : MethodEnv) (s : Frame) (v : VarRef) : ∃ t, stackType v env s = .ok t s := by
  have htype : typeOf v env s = .ok (s.draft.vars.get v).type s := rfl
  rw [stackType, bind_ok htype, metadata_bind]
  cases env.md.intFormat? (s.draft.vars.get v).type with
  | some f => exact ⟨_, rfl⟩
  | none => exact ⟨_, rfl⟩

def newMergeSlot (v : VarRef) : Lower VarRef :=
  if isSelf v then pure v else do
    let m ← temp (← stackType v)
    reserve m
    pure m

lemma newMergeSlots_cons (v : VarRef) (rest : List VarRef) :
    newMergeSlots (v :: rest) = (do return (← newMergeSlot v) :: (← newMergeSlots rest)) := by
  rw [newMergeSlots, newMergeSlot]
  split_ifs <;> simp only [bind_assoc, pure_bind]

lemma newMergeSlot_meets (v : VarRef) (h : s.Balanced env held kept) :
    Meets Silent E (newMergeSlot v) env s fun m s' =>
        s'.Balanced env (m :: held) (m :: kept) ∧
          (s'.draft.vars.IsTemp m ∧ s'.draft.vars.loads (held ++ s'.waiting) m = 0 ∨
            m = Draft.self) := by
  unfold newMergeSlot
  split_ifs with hself
  · obtain rfl : v = Draft.self := by simpa [isSelf] using hself
    have hw := h.weightless_self
    refine meets_pure ⟨(h.hold hw).rekeep (fun t ht => ?_) fun t ht => ?_, .inr rfl⟩
    · have hne : t ≠ Draft.self := fun e => hw.not_temporary (e ▸ ht.2)
      simp [hne]
    · rcases List.mem_cons.1 ht with rfl | ht
      · exact hw.usable.1
      · exact h.books.resvHas t (.inr ht)
  · obtain ⟨t, ht⟩ := stackType_run env s v
    refine (meets_congr (bind_ok ht)).2 ?_
    refine (temp_meets h t).bind fun m s₁ g₁ h₁ => ?_
    obtain ⟨hb, htemp, -, -, -, -, hzero⟩ := h₁
    have hplain := Variables.plain_of_temporary htemp.2
    refine (reserve_meets hb (v := m) (by simp) hplain).bind fun _ s₂ g₂ h₂ => meets_pure ⟨h₂, ?_⟩
    have hw₁ : s₁.waiting = s.waiting := by rw [g₁.rest]; rfl
    have hw₂ : s₂.waiting = s.waiting := by rw [g₂.rest, ← hw₁]; rfl
    refine .inl ⟨g₂.vars.isTemp htemp, ?_⟩
    rw [hw₂, Variables.loads_eq_of_grows g₂.vars, hzero]
    intro x hx
    have hin : x ∈ m :: held ++ s₁.waiting := by
      rw [hw₁]
      exact List.mem_cons_of_mem m hx
    exact hb.books.has x hin

/-- **Making merge slots**, by induction on the entries they are for. -/
lemma newMergeSlots_meets (entries : List VarRef) (h : s.Balanced env held kept) :
    Meets Silent E (newMergeSlots entries) env s fun slots s' =>
      s'.Balanced env (slots ++ held) (slots ++ kept) ∧ Slots s' slots held ∧
        slots.length = entries.length := by
  induction entries generalizing s held kept with
  | nil => exact meets_pure ⟨h, ⟨by simp, by simp⟩, rfl⟩
  | cons v rest ih =>
    rw [newMergeSlots_cons]
    refine (newMergeSlot_meets v h).bind fun m s₁ g₁ h₁ => ?_
    obtain ⟨hb₁, hm⟩ := h₁
    refine (ih hb₁).bind fun slots s₂ g₂ h₂ => meets_pure ?_
    obtain ⟨hb₂, hslots, hlen⟩ := h₂
    have hw : s₂.waiting = s₁.waiting := by rw [g₂.rest]; rfl
    refine ⟨?_, ⟨fun x hx => ?_, fun x hx htemp => ?_⟩, by simp [hlen]⟩
    · have hmem (t : VarRef) : t ∈ m :: slots ++ kept ↔ t ∈ slots ++ m :: kept :=
        (List.perm_middle (a := m)).symm.mem_iff
      exact (hb₂.perm List.perm_middle).rekeep (fun t _ => hmem t)
        fun t ht => hb₂.books.resvHas t (.inr ((hmem t).1 ht))
    · rcases List.mem_cons.1 hx with rfl | hx
      · exact hm.imp_left fun hm => g₂.vars.isTemp hm.1
      · exact hslots.kinds x hx
    · have hmove : (slots ++ (m :: held ++ s₂.waiting)).Perm (m :: slots ++ (held ++ s₂.waiting)) := by
        simp
      rcases List.mem_cons.1 hx with rfl | hx
      · -- the slot made first is not made again
        obtain ⟨ht₁, hzero⟩ : s₁.draft.vars.IsTemp x ∧
            s₁.draft.vars.loads (held ++ s₁.waiting) x = 0 := by
          refine hm.resolve_right ?_
          rintro rfl
          exact hb₂.weightless_self.not_temporary htemp.2
        have hplain := Variables.plain_of_temporary htemp.2
        have hkeep : s₂.draft.vars.loads (held ++ s₂.waiting) x = 0 := by
          rw [hw, Variables.loads_eq_of_grows g₂.vars, hzero]
          intro y hy
          have hin : y ∈ x :: held ++ s₁.waiting := List.mem_cons_of_mem x hy
          exact hb₁.books.has y hin
        have hout : x ∉ slots := fun hin => by
          have hone := hslots.single x hin htemp
          have hle : s₂.draft.vars.load x x ≤ s₂.draft.vars.loads slots x :=
            Variables.load_le_loads hin x
          simp only [Variables.loads_append, Variables.loads_cons,
            Variables.load_self hplain] at hone hle
          omega
        have hnone : s₂.draft.vars.loads slots x = 0 := by
          rw [Variables.loads_of_plain, List.count_eq_zero.2 hout]
          intro y hy
          rcases hslots.kinds y hy with hy | rfl
          · exact Variables.plain_of_temporary hy.2
          · exact hb₂.weightless_self.plain
        rw [Variables.loads_append] at hkeep ⊢
        rw [Variables.loads_cons, Variables.load_self hplain, hnone, Variables.loads_append, hkeep]
      · rw [← Variables.loads_perm hmove]
        exact hslots.single x hx htemp

end Lower

/-! ## Moving entries into slots -/

lemma MethodEnv.Converted.fits (hmd : env.md.Built) {target : TypeRef}
    (h : env.Converted source target x y) : Host.Machine.fits y (env.ident target) = true := by
  cases h with
  | shared _ _ fits => exact fits
  | constant _ _ fits => exact fits
  | @scalar a b i y from_eq to_eq means fold =>
    subst to_eq
    rw [from_eq, Scalar.foldConversion?_eq hmd means] at fold
    obtain rfl := Option.some.inj fold
    rw [Lower.ident_scalar hmd]
    cases b <;> simp [Host.Machine.fits, Host.Machine.hostTypeOf?, Scalar.ofInt, Value.ofInt,
      Scalar.hostType]
  | computed fits _ => exact fits

lemma MethodEnv.Converted.congr {source' : Variable} {target : TypeRef}
    (h : env.Converted source target x y) (ht : source.type = source'.type)
    (hc : source.constant? = source'.constant?) : env.Converted source' target x y := by
  cases h with
  | shared value host fits => exact .shared (hc ▸ value) (ht ▸ host) fits
  | constant value fold fits => exact .constant (hc ▸ value) (ht ▸ fold) fits
  | scalar from_eq to_eq means fold => exact .scalar (ht ▸ from_eq) to_eq means (ht ▸ fold)
  | computed fits turns => exact .computed fits (ht ▸ hc ▸ turns)

lemma Variables.Grows.constant?_eq {vs vs' : Variables} (g : vs.Grows vs') (hv : vs.Has v) :
    (vs'.get v).constant? = (vs.get v).constant? := by
  have hk := g.kind_eq hv
  simp only [Variables.kind] at hk
  rw [Variable.constant?, Variable.constant?, hk, g.value_eq hv]

lemma MethodEnv.Converted.sooner {vs vs' : Variables} {target : TypeRef}
    (h : env.Converted (vs'.get v) target x y) (g : vs.Grows vs') (hv : vs.Has v) :
    env.Converted (vs.get v) target x y :=
  h.congr (g.type_eq hv) (g.constant?_eq hv)

/-- **The code of a conversion** to a type turns the contents `x` of a variable into `y`, wherever it
is recorded. -/
def MethodEnv.ConvertsTo (env : MethodEnv) (source : Variable) (target : TypeRef) (x y : Value) :
    Prop :=
  ∀ (s s' : Frame) (v out : VarRef) (held kept : List VarRef),
    s.Balanced env (v :: held) kept → (s.draft.vars.get v).isAddress = false →
    (s.draft.vars.get v).type = source.type → (s.draft.vars.get v).constant? = source.constant? →
    Lower.convert v target env s = .ok out s' →
    Frame.Turns env (fun σ => σ v = x) (s.Keeps held) s s' out y

namespace Frame

def Filled (pairs : List (VarRef × VarRef)) (v : VarRef) : Prop :=
  v ≠ Draft.self ∧ v ∈ pairs.map Prod.snd

/-- What moving an entry into a slot does: there is the code of a conversion and of a copy, and it
leaves the converted contents in the slot. -/
structure Entrusts (env : MethodEnv) (held : List VarRef) (v slot : VarRef) (s s' : Frame) : Prop where
  code : ∃ out s₁ first, Lower.convert v (s.draft.vars.get slot).type env s = .ok out s₁ ∧
    s.draft.Continues env s₁.draft first ∧ (∀ q ∈ first, ∀ w ∈ s.waiting, w ∉ q.writes) ∧
    Records env [.copy out slot] s₁ s' ∧
    ∀ q ∈ first ++ [.copy out slot], Quiet held (· = slot) s s' q
  turns : env.md.Built → ∀ x y,
    env.Converted (s.draft.vars.get v) (s.draft.vars.get slot).type x y →
    Turns env (fun σ => σ v = x) (fun z => z ≠ slot ∧ s.Keeps held z) s s' slot y

structure Entrust (env : MethodEnv) (held : List VarRef) (pairs : List (VarRef × VarRef))
    (s s' : Frame) : Prop where
  code : ∃ code, Moving env pairs code s s' ∧ ∀ q ∈ code, Quiet held (Filled pairs) s s' q
  delivers : env.md.Built →
    Delivers env (fun z => ¬ Filled pairs z ∧ s.Keeps held z) pairs s s'

variable {env : MethodEnv} {held : List VarRef} {W : VarRef → Prop} {s s' : Frame} {v : VarRef}
  {q : Piece} {pairs : List (VarRef × VarRef)} {code : List Piece}

lemma Moving.continues (h : Moving env pairs code s s') :
    s.draft.Continues env s'.draft code := by
  induction h with
  | done => exact .refl env _
  | self _ ih => exact ih
  | move _ _ further _ conversion _ copied _ _ _ ih =>
    have hfirst := further.records.code.trans conversion
    exact hfirst.trans (copied.code.trans ih)

lemma Quiet.spares (h : Quiet held W s s' q) (hh : s.draft.vars.Has v) (hv : v ∈ held)
    (hW : ¬ W v) : v ∉ q.writes := fun hw =>
  (h.writes v hw).elim (fun ht => ht.2 (keeps_of_mem hh hv)) hW

end Frame

namespace Lower

open FlatHeap.Frame CompileError

variable {env : MethodEnv} {s s' : Frame} {held kept : List VarRef} {v w slot out : VarRef}

lemma convert_shared {target : TypeRef} (hnone : (s.draft.vars.get v).constant? = none)
    (hsame : sameOnHost (s.draft.vars.get v).type target env s = .ok true s) :
    convert v target env s = .ok v s := by
  show convertFrom v (s.draft.vars.get v).type target env s = _
  rw [convertFrom, metadata_bind, bind_ok (foldConstant?_none hnone)]
  exact bind_ok hsame

lemma convert_constant {target : TypeRef} (h : s.Balanced env (v :: held) kept)
    (hx : (s.draft.vars.get v).constant? = some x)
    (hy : env.md.foldConversion? x (s.draft.vars.get v).type target = some y) :
    ∃ out s', convert v target env s = .ok out s' ∧ Silent s s' ∧
      IsConst s'.draft.vars y target out := by
  have hkind : (s.draft.vars.get v).kind = .constant := by
    by_contra hk
    simp [Variable.constant?, hk] at hx
  have hhas : s.draft.vars.Has v := (h.usable_hand (v := v) (by simp)).1
  have hb : s.Balanced env held kept := h.letGo (MethodEnv.weightless_of_kind hhas hkind)
  obtain ⟨out, s', hrun, hsil, -, hconst⟩ := (constant_meets (R := Silent) hb y target).succeeds
  refine ⟨out, s', ?_, hsil, hconst⟩
  have hvalue : constant? v env s = .ok (some x) s := congrArg (EStateM.Result.ok · s) hx
  have hfold : foldConstant? v (s.draft.vars.get v).type target env s = .ok (some out) s' := by
    rw [foldConstant?, metadata_bind, bind_ok hvalue, Option.bind_some, hy]
    show (some <$> constant y target) env s = _
    rw [map_eq_pure_bind, bind_ok hrun]
    rfl
  show convertFrom v (s.draft.vars.get v).type target env s = _
  rw [convertFrom, metadata_bind]
  exact bind_ok hfold

/-- **Conversion of an entry** yields the converted contents. -/
lemma convert_converted (hmd : env.md.Built) {target : TypeRef}
    (h : s.Balanced env (v :: held) kept) (hv : (s.draft.vars.get v).isAddress = false)
    (hc : env.Converted (s.draft.vars.get v) target x y)
    (hrun : convert v target env s = .ok out s') :
    Turns env (fun σ => σ v = x) (s.Keeps held) s s' out y := by
  have hhas : s.draft.vars.Has v := (h.usable_hand (v := v) (by simp)).1
  have hshared (hnone : (s.draft.vars.get v).constant? = none)
      (hsame : sameOnHost (s.draft.vars.get v).type target env s = .ok true s) :
      Turns env (fun σ => σ v = x) (s.Keeps held) s s' out x := by
    rw [convert_shared hnone hsame] at hrun
    obtain ⟨rfl, rfl⟩ := EStateM.Result.ok.inj hrun
    exact .refl fun _ => id
  have hfolded {c y : Value} (hvalue : (s.draft.vars.get v).constant? = some c)
      (hfold : env.md.foldConversion? c (s.draft.vars.get v).type target = some y) :
      Turns env (fun σ => σ v = c) (s.Keeps held) s s' out y := by
    obtain ⟨out', s₁, hrun', hsil, hconst⟩ := convert_constant h hvalue hfold
    rw [hrun] at hrun'
    obtain ⟨rfl, rfl⟩ := EStateM.Result.ok.inj hrun'
    exact fun K σ hK ha _ => ⟨σ, hsil.leads, ha.const (hconst.grows hK), .refl⟩
  cases hc with
  | shared value host fits =>
    refine hshared value ?_
    show EStateM.Result.ok _ s = _
    rcases host with host | host | ⟨h₁, h₂, h₃⟩ <;> simp [*]
  | constant value fold fits => exact hfolded value fold
  | @scalar a b i y from_eq to_eq means fold =>
    subst to_eq
    rw [from_eq, Scalar.foldConversion?_eq hmd means] at fold
    obtain rfl := Option.some.inj fold
    exact ((convert_yields hmd h ⟨hhas, hv, from_eq⟩ means).ok hrun).2.2.2
  | computed fits turns => exact turns s s' v out held kept h rfl rfl hrun

lemma convertsTo_of_converted (hmd : env.md.Built) {target : TypeRef}
    (hc : env.Converted source target x y) : env.ConvertsTo source target x y :=
  fun _ _ _ _ _ _ h hv ht hk hrun => convert_converted hmd h hv (hc.congr ht.symm hk.symm) hrun

lemma turns_copy {N : VarRef → Prop} (hrec : Records env (copyPieces out slot) s s')
    (htemp : s.draft.vars.IsTemp slot)
    (hfit : Host.Machine.fits y (env.ident (s.draft.vars.get slot).type) = true) :
    Turns env (fun σ => σ out = y) (fun z => z ≠ slot ∧ N z) s s' slot y := by
  intro K σ hK ha hσ
  have hslot := (hrec.vars.trans hK).isTemp htemp
  by_cases heq : out = slot
  · refine ⟨σ, ⟨_, hrec.code, ?_⟩, heq ▸ hσ, .refl⟩
    rw [copyPieces, if_pos heq]
    exact .nil
  · refine ⟨Function.update σ slot y, ⟨_, hrec.code, ?_⟩, Function.update_self ..,
      fun z hz => Function.update_of_ne hz.1 .., fun z hz => Function.update_of_ne ?_ ..⟩
    · rw [copyPieces, if_neg heq, ← hσ]
      refine .copy ?_ .nil
      rw [hσ, (hrec.vars.trans hK).type_eq htemp.1]
      exact hfit
    · rintro rfl
      exact hz hslot.2

/-- **Moving an entry into its slot** uses up a read of the entry.  An address is refused. -/
lemma entrust_meets (h : s.Balanced env (v :: held) kept) (hslot : slot ∈ s.waiting)
    (hself : slot ≠ Draft.self) :
    Meets (Computes env held (· = slot)) Harmless (do copy (← convert v (← typeOf slot)) slot) env s
      fun _ s' => s'.Balanced env held kept ∧ Entrusts env held v slot s s' ∧
        (s.draft.vars.get v).isAddress = false := by
  have htemp := (h.waiting slot hslot).resolve_right hself
  rw [meets_typeOf_bind]
  refine (((convert_works _ h).and (convert_converts _ h).keep.running).sparing (fun _ => id)
    fun _ => False.elim).bind fun out s₁ g hout => ?_
  obtain ⟨-, hrun, hworks, ⟨h₁, -⟩, haddress⟩ := hout
  have htemp₁ := g.vars.isTemp htemp
  have hslot₁ : slot ∈ s₁.waiting := by rwa [Frame.waiting, g.merges_eq]
  have hcode : copyPieces out slot = [.copy out slot] :=
    if_neg (h₁.ne_of_waiting (by simp) hslot₁ htemp₁).symm
  refine ((copy_meets h₁ htemp₁.1
    (fun _ => h₁.books.not_pooled_of_needed htemp₁.1 fun _ => .inr (.inl hslot₁))
    (fun _ => harmless_invariant rfl) (fun _ => harmless_invariant rfl)
    fun _ => harmless_invariant rfl).relate ?_).mono ?_
  · rintro _ s₂ - ⟨-, hrec, -, -⟩
    exact computes_copy hrec (.inr rfl)
  · rintro _ s₂ g₂ ⟨hb, hrec, hvalue, -⟩
    have ha : (s.draft.vars.get v).isAddress = false := by
      by_contra ha
      obtain ⟨rfl, rfl⟩ := haddress (by simpa using ha)
      exact ha hvalue
    obtain ⟨first, hfirst, -, hquiet⟩ := hworks.code
    refine ⟨hb, ⟨⟨out, s₁, first, hrun, hfirst, fun q hq w hw hwrites => ?_, hcode ▸ hrec,
      fun q hq => ?_⟩, fun hmd x y hc => ?_⟩, ha⟩
    · obtain ⟨-, hfree⟩ := ((hquiet q hq).writes w hwrites).resolve_right fun h => h
      exact hfree (keeps_of_waiting (h.books.resvHas w (.inl hw)) hw)
    · rcases List.mem_append.1 hq with hq | hq
      · exact ((hquiet q hq).mono (fun _ => id) fun _ => False.elim).later g₂.vars g₂.labels
      · have hcopy : Quiet held (· = slot) s₁ s₂ q :=
          quiet_copyPieces (W := (· = slot)) (.inr rfl) q (hcode ▸ hq)
        exact hcopy.sooner g.vars g.merges_eq g.labels
    · have hfit := hc.fits hmd
      rw [← g.vars.type_eq htemp.1] at hfit
      have hconv := convert_converted hmd h ha hc hrun
      exact hconv.trans (turns_copy hrec htemp₁ hfit) g₂.vars (fun z hz => ⟨hz.2, hz⟩) (fun _ => id)
        fun _ _ _ _ => id

/-- Reads that a branch uses up: those of its entries, unless they are needed again. -/
def spent (conditional : Bool) (pairs : List (VarRef × VarRef)) : List VarRef :=
  if conditional then [] else pairs.map Prod.fst

def moveEntry (conditional : Bool) (v slot : VarRef) : Lower Unit := do
  if conditional then allocate v 1
  copy (← convert v (← typeOf slot)) slot

lemma moveInto_cons (target : Nat) (conditional : Bool) (v slot : VarRef)
    (rest : List (VarRef × VarRef)) :
    moveInto target conditional ((v, slot) :: rest) =
      if isSelf v || isSelf slot then
        if v ≠ slot then (refuse (.selfMeetsOther target) : Lower Unit) >>= fun _ =>
          moveInto target conditional rest
        else moveInto target conditional rest
      else moveEntry conditional v slot >>= fun _ => moveInto target conditional rest := by
  rw [moveInto, moveEntry]
  cases conditional <;> simp only [bind_assoc, if_true, if_false, Bool.false_eq_true]

lemma moveEntry_meets {conditional : Bool} {rest : List (VarRef × VarRef)}
    (h : s.Balanced env (spent conditional ((v, slot) :: rest) ++ held) kept)
    (hin : conditional = true → v ∈ held) (hslot : slot ∈ s.waiting) (hself : slot ≠ Draft.self) :
    Meets (Computes env (spent conditional rest ++ held) (· = slot)) Harmless
      (moveEntry conditional v slot) env s fun _ s' =>
        s'.Balanced env (spent conditional rest ++ held) kept ∧
          ∃ s₁, Silent s s₁ ∧ s₁.Balanced env (v :: (spent conditional rest ++ held)) kept ∧
            Entrusts env (spent conditional rest ++ held) v slot s₁ s' ∧
            Computes env (spent conditional rest ++ held) (· = slot) s₁ s' := by
  cases conditional with
  | false =>
    exact (entrust_meets h hslot hself).mono fun _ s' g hs =>
      ⟨hs.1, s, refl_of Silent s, h, hs.2.1, g⟩
  | true =>
    have h : s.Balanced env held kept := h
    have hv := hin rfl
    by_cases ha : (s.draft.vars.get v).isAddress = true
    · have hidle : allocate v 1 env s = .ok () s :=
        allocate_idle (Variables.not_temporary_of_isAddress ha) 1
      refine (meets_congr (bind_ok hidle)).2 ?_
      exact (entrust_meets (h.perm (List.perm_cons_erase hv)) hslot hself).absurd fun _ _ hs => by
        simp [ha] at hs
    · have hp := Variables.plain_of_not_isAddress (by simpa using ha)
      refine (allocate_meets h hv hp 1).quietly.bind fun _ s₁ g h₁ => ?_
      have hslot₁ : slot ∈ s₁.waiting := by rwa [Frame.waiting, g.merges_eq]
      exact (entrust_meets h₁.2 hslot₁ hself).mono fun _ s' g hs =>
        ⟨hs.1, s₁, h₁.1, h₁.2, hs.2.1, g⟩

end Lower

namespace Frame

variable {env : MethodEnv} {held held' kept : List VarRef} {s s₁ s₂ s' : Frame} {v slot : VarRef}
  {rest : List (VarRef × VarRef)}

lemma Filled.tail {p : VarRef × VarRef} {z : VarRef} (h : Filled rest z) : Filled (p :: rest) z :=
  ⟨h.1, List.mem_cons_of_mem _ h.2⟩

lemma filled_head (h : slot ≠ Draft.self) : Filled ((v, slot) :: rest) slot := ⟨h, by simp⟩

/-- **Moves one after the other.**  The first one spares the entries of the others, and the others
spare the first slot. -/
lemma Entrust.cons (hb : s₁.Balanced env (v :: held') kept) (hsil : Silent s s₁)
    (h : Entrusts env held' v slot s₁ s₂) (g : Computes env held' (· = slot) s₁ s₂)
    (h' : Entrust env held rest s₂ s') (g' : Computes env held (Filled rest) s₂ s')
    (hv : v ≠ Draft.self) (hslot : slot ∈ s₁.waiting) (hself : slot ≠ Draft.self) (hheld : ∀ z ∈ held, z ∈ held')
    (hrest : ∀ p ∈ rest, p.1 ∈ held') (hsingle : slot ∉ rest.map Prod.snd) :
    Entrust env held ((v, slot) :: rest) s s' := by
  have hmerges : s₁.merges = s.merges := by rw [hsil.rest]; rfl
  have hcount : s₁.draft.labelCount = s.draft.labelCount := by rw [hsil.rest]; rfl
  have htemp : s₁.draft.vars.IsTemp slot := (hb.waiting slot hslot).resolve_right hself
  have hhas (p : VarRef × VarRef) (hp : p ∈ rest) : s₁.draft.vars.Has p.1 :=
    (hb.usable p.1 (List.mem_cons_of_mem v (hrest p hp))).1
  have hne (p : VarRef × VarRef) (hp : p ∈ rest) : p.1 ≠ slot :=
    (hb.ne_of_waiting (List.mem_cons_of_mem v (hrest p hp)) hslot htemp).symm
  have hvars : s₁.draft.vars.Grows s'.draft.vars := g.vars.trans g'.vars
  obtain ⟨out, t, first, hrun, hfirst, hspared, hrec, hquiet⟩ := h.code
  obtain ⟨code, hmoving, hquiet'⟩ := h'.code
  refine ⟨⟨first ++ .copy out slot :: code, .move hv hself hsil hrun hfirst hspared hrec
    g.merges_eq (fun q hq p hp => (hquiet q hq).spares (hhas p hp) (hrest p hp) (hne p hp)) hmoving,
    fun q hq => ?_⟩, fun hmd K σ y hK ha hconv => ?_⟩
  · rw [List.append_cons] at hq
    rcases List.mem_append.1 hq with hq | hq
    · refine (((hquiet q hq).mono hheld ?_).later g'.vars g'.labels).sooner hsil.vars hmerges hcount.ge
      rintro _ rfl
      exact .inl (filled_head hself)
    · refine ((hquiet' q hq).mono (fun _ => id) fun z hz => .inl hz.tail).sooner
        (hsil.vars.trans g.vars) (g.merges_eq.trans hmerges) (hcount ▸ g.labels)
  · -- the first entry is converted, and the others hold what they held
    have hfirst : env.Converted (s₁.draft.vars.get v) (s₁.draft.vars.get slot).type (σ v) (y slot) := by
      rw [← hvars.type_eq htemp.1]
      exact (hconv (v, slot) (by simp) hv).sooner hvars (hb.usable v (by simp)).1
    obtain ⟨τ, hl, hy, hk⟩ := h.turns hmd _ _ hfirst K σ (g'.vars.trans hK) ha rfl
    have hsame (p : VarRef × VarRef) (hp : p ∈ rest) : τ p.1 = σ p.1 :=
      hk.needed p.1 ⟨hne p hp, keeps_of_mem (hhas p hp) (hrest p hp)⟩
    obtain ⟨ρ, hl', hy', hk'⟩ := h'.delivers hmd K τ y hK (hk.agrees ha) fun p hp hps => by
      rw [hsame p hp]
      exact hconv p (List.mem_cons_of_mem _ hp) hps
    have hkept : ρ slot = τ slot := by
      refine hk'.needed slot ⟨fun hf => hsingle hf.2, keeps_of_waiting (g.vars.has htemp.1) ?_⟩
      rwa [Frame.waiting, g.merges_eq]
    refine ⟨ρ, hsil.leads.trans (hl.trans hl'), fun p hp hps => ?_, fun z hz => ?_, fun z hz => ?_⟩
    · rcases List.mem_cons.1 hp with rfl | hp
      · rw [hkept, hy]
      · exact hy' p hp hps
    · have hz₁ : s₁.Keeps held z := hz.2.later hsil.vars hmerges
      rw [hk'.needed z ⟨fun hf => hz.1 hf.tail, hz₁.later g.vars g.merges_eq⟩,
        hk.needed z ⟨fun e => hz.1 (e.symm ▸ filled_head hself), hz₁.mono hheld⟩]
    · rw [hk'.lasting z hz, hk.lasting z hz]

lemma Entrust.self (h : Entrust env held rest s s') :
    Entrust env held ((Draft.self, Draft.self) :: rest) s s' := by
  have hfilled (z : VarRef) (hz : Filled ((Draft.self, Draft.self) :: rest) z) : Filled rest z :=
    ⟨hz.1, (List.mem_cons.1 hz.2).resolve_left hz.1⟩
  obtain ⟨code, hmoving, hquiet⟩ := h.code
  refine ⟨⟨code, .self hmoving, fun q hq => (hquiet q hq).mono (fun _ => id) fun z hz =>
    .inl hz.tail⟩, fun hmd K σ y hK ha hconv => ?_⟩
  obtain ⟨τ, hl, hy, hk⟩ := h.delivers hmd K σ y hK ha fun p hp =>
    hconv p (List.mem_cons_of_mem _ hp)
  refine ⟨τ, hl, fun p hp hps => ?_, fun z hz => hk.needed z ⟨fun hf => hz.1 hf.tail, hz.2⟩,
    hk.lasting⟩
  rcases List.mem_cons.1 hp with rfl | hp
  · exact absurd rfl hps
  · exact hy p hp hps

end Frame

namespace Lower

open FlatHeap.Frame CompileError

variable {env : MethodEnv} {s s' : Frame} {held kept : List VarRef}

/-- **Moving entries into slots**, by induction on the entries. -/
lemma moveInto_meets (target : Nat) (conditional : Bool) (pairs : List (VarRef × VarRef))
    (h : s.Balanced env (spent conditional pairs ++ held) kept)
    (hin : conditional = true → ∀ p ∈ pairs, p.1 ∈ held) (hs : ∀ p ∈ pairs, p.2 ∈ s.waiting)
    (hd : ∀ z, z ≠ Draft.self → (pairs.map Prod.snd).count z ≤ 1) :
    Meets (Computes env held (Filled pairs)) Harmless (moveInto target conditional pairs) env s
      fun _ s' => s'.Balanced env held kept ∧ Entrust env held pairs s s' := by
  induction pairs generalizing s with
  | nil =>
    have h : s.Balanced env held kept := by simpa [spent] using h
    refine meets_pure ⟨h, ⟨[], .done, by simp⟩, fun _ K σ y _ _ _ => ⟨σ, .refl, by simp, .refl⟩⟩
  | cons p rest ih =>
    obtain ⟨v, slot⟩ := p
    have hslot : slot ∈ s.waiting := hs (v, slot) (by simp)
    have hd' (z : VarRef) (hz : z ≠ Draft.self) : (rest.map Prod.snd).count z ≤ 1 :=
      (List.count_le_count_cons ..).trans (hd z hz)
    have hin' (hc : conditional = true) (p : VarRef × VarRef) (hp : p ∈ rest) : p.1 ∈ held :=
      hin hc p (List.mem_cons_of_mem _ hp)
    have hs' (p : VarRef × VarRef) (hp : p ∈ rest) : p.2 ∈ s.waiting :=
      hs p (List.mem_cons_of_mem _ hp)
    rw [moveInto_cons]
    split_ifs with hself hne
    · exact meets_refuse (harmless_unsupported _)
    · -- the program itself is carried as itself
      obtain rfl : v = slot := not_not.1 hne
      obtain rfl : v = Draft.self := by simpa [isSelf] using hself
      have hb : s.Balanced env (spent conditional rest ++ held) kept := by
        cases conditional with
        | true => exact h
        | false => exact Balanced.letGo (v := Draft.self) h h.weightless_self
      refine ((ih hb hin' hs' hd').sparing (fun _ => id) fun _ hz => hz.tail).mono
        fun _ s' _ hs => ⟨hs.1, hs.2.self⟩
    · simp only [isSelf, Bool.or_eq_true, beq_iff_eq, not_or] at hself
      have hsingle : slot ∉ rest.map Prod.snd := fun hmem => by
        have hone := hd slot hself.2
        rw [List.map_cons, List.count_cons_self] at hone
        exact absurd (List.count_pos_iff.2 hmem) (by omega)
      have hrest (p : VarRef × VarRef) (hp : p ∈ rest) : p.1 ∈ spent conditional rest ++ held := by
        cases conditional with
        | true => exact hin' rfl p hp
        | false => exact List.mem_append_left _ (List.mem_map_of_mem hp)
      have hheld (z : VarRef) (hz : z ∈ held) : z ∈ spent conditional rest ++ held :=
        List.mem_append_right _ hz
      have hfirst := moveEntry_meets h (fun hc => hin hc (v, slot) (by simp)) hslot hself.2
      refine (hfirst.sparing hheld ?_).bind fun _ s₂ g h₂ => ?_
      · rintro _ rfl
        exact filled_head hself.2
      · obtain ⟨hb₂, s₁, hsil, hb₁, hent, hcomp⟩ := h₂
        have hs₂ (p : VarRef × VarRef) (hp : p ∈ rest) : p.2 ∈ s₂.waiting := by
          rw [Frame.waiting, g.merges_eq]
          exact hs' p hp
        have hslot₁ : slot ∈ s₁.waiting := by
          rw [hsil.rest]
          exact hslot
        refine ((ih hb₂ hin' hs₂ hd').keep.relate fun _ _ _ hs => ?_).mono fun _ s' _ hs => ?_
        · exact hs.1.mono (fun _ => id) fun _ hz => .inl hz.tail
        · exact ⟨hs.2.1, .cons hb₁ hsil hent hcomp hs.2.2 hs.1 hself.1 hslot₁ hself.2 hheld hrest
            hsingle⟩

end Lower

/-! ## Flowing into an offset -/

namespace Frame

/-- The second frame follows from the first one by moving an operand stack to an offset. -/
structure FlowsTo (env : MethodEnv) (target : Nat) (s s' : Frame) : Prop where
  grows : Grows env s s'
  rest : s' = { s with
    draft := s'.draft, scratch := s'.scratch, stack := s'.stack, merges := s'.merges }
  merges : s'.merges = s.merges ∨ ∃ slots, slots ≠ [] ∧ s.merges.lookup target = none ∧
    s'.merges = (target, slots) :: s.merges
  untouched : Untouched s s'

variable {env : MethodEnv} {target : Nat} {s s' s'' : Frame} {held kept slots : List VarRef}
  {W : VarRef → Prop}

lemma FlowsTo.waiting (h : FlowsTo env target s s') (hv : v ∈ s.waiting) : v ∈ s'.waiting := by
  rcases h.merges with hm | ⟨slots, -, -, hm⟩ <;> rw [Frame.waiting, hm]
  · exact hv
  · exact List.mem_append_right slots hv

lemma FlowsTo.mem_merges (h : FlowsTo env target s s') {e : Nat × List VarRef} (he : e ∈ s.merges) :
    e ∈ s'.merges := by
  rcases h.merges with hm | ⟨slots, -, -, hm⟩ <;> rw [hm]
  · exact he
  · exact List.mem_cons_of_mem _ he

lemma FlowsTo.computes (h : FlowsTo env target s s') (g : Computes env held W s' s'')
    (hW : ∀ v, W v → s'.draft.vars.IsTemp v) : FlowsTo env target s s'' := by
  refine ⟨h.grows.trans (g.grows fun v hv => .inl (hW v hv)), ?_, ?_,
    h.untouched.trans_of_subset g.untouched (fun _ => h.waiting) h.grows.vars⟩
  · rw [g.rest, h.rest]
  · rw [g.merges_eq]
    exact h.merges

lemma FlowsTo.restack (h : FlowsTo env target s s') (l : List VarRef) :
    FlowsTo env target s { s' with stack := l } := by
  refine ⟨h.grows.trans (Restacks.restack s' l), ?_, h.merges, h.untouched.congr rfl rfl rfl⟩
  rw [h.rest]

lemma FlowsTo.proceeds (h : FlowsTo env target s s') (ha : env.Ahead s.cursor target) :
    Proceeds env s s' := by
  have hcursor : s'.cursor = s.cursor := by rw [h.rest]
  refine ⟨h.grows, fun t => ?_, fun o => by rw [hcursor], hcursor.ge⟩
  have hcurrent : s'.current = s.current := by rw [h.rest]
  rcases h.merges with hm | ⟨slots, hne, hnone, hm⟩
  · exact t.of_eq hm hcursor hcurrent
  · refine ⟨?_, ?_, ?_, ?_⟩
    · rw [hm, hcursor]
      simpa using ⟨ha, fun a b hab => t.ahead (a, b) hab⟩
    · rw [hm]
      refine List.nodup_cons.2 ⟨fun hin => ?_, t.distinct⟩
      obtain ⟨e, he, rfl⟩ := List.mem_map.1 hin
      simpa using List.lookup_eq_none_iff.1 hnone e he
    · rw [hm]
      simpa using ⟨hne, fun a b hab => t.nonempty (a, b) hab⟩
    · rw [hcursor, hcurrent]
      exact t.position

lemma mem_waiting (h : s.merges.lookup target = some slots) (hv : v ∈ slots) : v ∈ s.waiting :=
  List.mem_flatMap.2 ⟨_, mem_of_lookup h, hv⟩

lemma Untouched.rested (h : Untouched s s') (hl : s.merges.lookup target = some slots) :
    Rested slots s s' := by
  obtain ⟨given, hd, hg⟩ := h.dealt
  exact ⟨⟨given, hd, fun v hv hm => hg v hm (mem_waiting hl hv)⟩,
    fun v hv ht => h.get_eq v (mem_waiting hl hv) ht⟩

lemma Balanced.count_slots (h : s.Balanced env held kept) (hl : s.merges.lookup target = some slots)
    (hv : v ≠ Draft.self) : slots.count v ≤ 1 := by
  by_cases hmem : v ∈ slots
  · have hw := mem_waiting hl hmem
    obtain ⟨-, hone⟩ := h.apart v hw ((h.waiting v hw).resolve_right hv)
    have hsub : slots.Sublist s.waiting := by
      rw [Frame.waiting, List.flatMap_def]
      exact List.sublist_flatten_of_mem (List.mem_map_of_mem (mem_of_lookup hl))
    exact hone ▸ hsub.count_le v
  · rw [List.count_eq_zero.2 hmem]
    exact Nat.zero_le 1

lemma Balanced.offset_eq (h : s.Balanced env held kept) {e e' : Nat × List VarRef}
    (he : e ∈ s.merges) (hv : v ∈ e.2) (he' : e' ∈ s.merges) (hv' : v ∈ e'.2)
    (ht : s.draft.vars.IsTemp v) : e.1 = e'.1 := by
  by_contra hne
  have hw : v ∈ s.waiting := List.mem_flatMap.2 ⟨e, he, hv⟩
  obtain ⟨-, hone⟩ := h.apart v hw ht
  have hperm := (List.perm_cons_erase he).flatMap_right Prod.snd
  have hmem : v ∈ (s.merges.erase e).flatMap Prod.snd := by
    have hin : e' ∈ s.merges.erase e := (List.mem_erase_of_ne fun h => hne (congrArg Prod.fst h).symm).2 he'
    exact List.mem_flatMap.2 ⟨e', hin, hv'⟩
  have hcount : s.waiting.count v = e.2.count v + ((s.merges.erase e).flatMap Prod.snd).count v := by
    rw [Frame.waiting, hperm.count_eq, List.flatMap_cons, List.count_append]
  have := List.count_pos_iff.2 hv
  have := List.count_pos_iff.2 hmem
  omega

lemma HandsOver.needing {needs needs' entries : List VarRef} {carry : List Piece}
    (h : HandsOver env target needs entries slots carry s s') (hn : ∀ v ∈ needs', v ∈ needs) :
    HandsOver env target needs' entries slots carry s s' := by
  refine { h with delivers := fun hmd K σ y hK ha hconv => ?_ }
  obtain ⟨τ, hl, hy, hk⟩ := h.delivers hmd K σ y hK ha hconv
  exact ⟨τ, hl, hy, fun z hz => hk.needed z (hz.imp_right (hn z)), hk.lasting⟩

/-- **Handing over**: merge slots are at hand, the entries are moved into them, and the operand stack
is what is left of it. -/
lemma FlowsTo.handsOver {s₁ s₂ : Frame} {all l : List VarRef} (h : FlowsTo env target s s₁)
    (hcode : s.draft.Continues env s₁.draft []) (hlookup : s₁.merges.lookup target = some slots)
    (hlen : slots.length = s.stack.length)
    (hent : Entrust env held (s.stack.reverse.zip slots.reverse) s₁ s₂)
    (g : Computes env held (Filled (s.stack.reverse.zip slots.reverse)) s₁ s₂)
    (hb : s₁.Balanced env all kept) (hall : ∀ v ∈ held, v ∈ all) (hl : ∀ v ∈ l, v ∈ held)
    (hhas : ∀ v ∈ s.stack, s.draft.vars.Has v) :
    ∃ carry, HandsOver env target held s.stack slots carry s { s₂ with stack := l } := by
  set pairs := s.stack.reverse.zip slots.reverse with hpairs
  obtain ⟨carry, hmoving, hquiet⟩ := hent.code
  have hslots (v : VarRef) (hv : Filled pairs v) : v ∈ slots := by
    obtain ⟨p, hp, rfl⟩ := List.mem_map.1 hv.2
    exact List.mem_reverse.1 (List.of_mem_zip hp).2
  have hlabels : s₂.labels = s.labels := by rw [g.labels_eq, h.rest]
  refine ⟨carry, hcode.trans hmoving.continues, ⟨s.draft.labelCount, le_rfl,
      h.grows.labelCount.trans g.labels, fun e he => .inl (hlabels ▸ he), fun q hq l hl => ?_⟩,
    fun e he => hlabels ▸ he, ?_, fun _ => ?_, hlen, hhas, fun v hv => ?_, ?_,
    (h.untouched.trans_of_subset g.untouched (fun _ => h.waiting) h.grows.vars).congr rfl rfl rfl,
    ⟨s₁, s₂, hcode, hmoving, rfl, g.untouched.rested hlookup, fun _ => hlookup⟩,
    fun q hq v hv ht e he hve => ?_, fun hmd K σ y hK ha hconv => ?_⟩
  · obtain ⟨hlow, hhigh⟩ := (hquiet q hq).targets l hl
    exact ⟨h.grows.labelCount.trans hlow, hhigh⟩
  · show s₂.merges = _ ∨ _ ∧ s₂.merges = _
    rw [g.merges_eq]
    refine h.merges.imp_right ?_
    rintro ⟨slots', -, hnone, hm⟩
    rw [hm, List.lookup_cons_self] at hlookup
    exact ⟨hnone, Option.some.inj hlookup ▸ hm⟩
  · show s₂.merges.lookup target = some slots
    rw [g.merges_eq, hlookup]
  · exact (hb.waiting v (mem_waiting hlookup hv)).imp_left g.vars.isTemp
  · show s₂.cursor = s.cursor
    rw [g.cursor_eq, h.rest]
  · have hw : v ∈ s₁.waiting := h.waiting (List.mem_flatMap.2 ⟨e, he, hve⟩)
    rcases (hquiet q hq).writes v hv with ⟨-, hfree⟩ | hf
    · exact absurd (keeps_of_waiting (h.grows.vars.has ht.1) hw) hfree
    · exact hb.offset_eq (h.mem_merges he) hve (mem_of_lookup hlookup) (hslots v hf)
        (h.grows.vars.isTemp ht)
  · obtain ⟨τ, hleads, hy, hk⟩ := hent.delivers hmd K σ y hK ha hconv
    have hstart : Leads env K s s₁ σ σ := ⟨[], hcode, .nil⟩
    have hneeds (z : VarRef) (hz : z ∈ l ∨ z ∈ held) : z ∈ held := hz.elim (hl z) id
    refine ⟨τ, hstart.trans hleads, hy, fun z hz => hk.needed z ⟨fun hf => ?_, ?_⟩, hk.lasting⟩
    · have hw := mem_waiting hlookup (hslots z hf)
      exact hb.ne_of_waiting (hall z (hneeds z hz)) hw ((hb.waiting z hw).resolve_right hf.1) rfl
    · exact keeps_of_mem (hb.usable z (hall z (hneeds z hz))).1 (hneeds z hz)

end Frame

namespace Lower

open FlatHeap.Frame CompileError

variable {env : MethodEnv} {s s' : Frame} {held kept : List VarRef}

lemma mergeSlots_meets (target : Nat) (h : s.Balanced env held kept) (hne : s.stack ≠ []) :
    Meets Any Harmless (mergeSlots target) env s fun slots s' =>
      FlowsTo env target s s' ∧ s.draft.Continues env s'.draft [] ∧ s'.Balanced env held kept ∧
        s'.stack = s.stack ∧ s'.merges.lookup target = some slots.reverse ∧
        slots.length = s.stack.length := by
  rw [mergeSlots, meets_get_bind, meets_get_bind]
  cases hl : s.merges.lookup target with
  | some slots =>
    dsimp only
    split_ifs with hlen
    · exact meets_breach (harmless_invariant rfl)
    · refine meets_pure ⟨⟨.refl env s, rfl, .inl rfl, .refl s⟩, .refl env _, h, rfl,
        by simpa using hl, ?_⟩
      simpa using hlen
  | none =>
    refine (newMergeSlots_meets s.stack.reverse h).keep.bind fun slots s₁ _ h₁ => ?_
    obtain ⟨g, hb, hslots, hlen⟩ := h₁
    have hlen : slots.length = s.stack.length := by simpa using hlen
    have hmerges : s₁.merges = s.merges := by rw [g.rest]; rfl
    refine meets_of_ok (a := slots) (t := { s₁ with merges := (target, slots.reverse) :: s₁.merges })
      rfl trivial ⟨⟨?_, ?_, .inr ⟨slots.reverse, ?_, hl, by rw [hmerges]⟩, g.untouched.congr rfl rfl rfl⟩,
        g.records.code, hb.install hslots target, ?_, by simp, hlen⟩
    · exact (Admits.silent g : Grows env s s₁).trans (.of_draft rfl rfl id)
    · rw [g.rest]
      rfl
    · rintro e
      rw [List.reverse_eq_nil_iff.1 e] at hlen
      exact hne (List.length_eq_zero_iff.1 hlen.symm)
    · show s₁.stack = s.stack
      rw [g.rest]
      rfl

/-- **Flowing into an offset.**  After a conditional branch the operand stack is still there. -/
lemma flowInto_meets (target : Nat) (conditional : Bool)
    (h : s.Balanced env (s.stack ++ held) kept) (hne : s.stack ≠ []) :
    Meets Any Harmless (flowInto target conditional) env s fun _ s' =>
      FlowsTo env target s s' ∧ s'.Balanced env (s'.stack ++ held) kept ∧
        s'.stack = (if conditional then s.stack else []) ∧
        ∃ slots carry, HandsOver env target held s.stack slots carry s s' := by
  refine (mergeSlots_meets target h hne).bind fun slots s₁ _ h₁ => ?_
  obtain ⟨hflow, hcode, hb, hstack, hlookup, hlen⟩ := h₁
  rw [meets_get_bind, hstack]
  set pairs := s.stack.reverse.zip slots with hpairs
  have hfst : pairs.map Prod.fst = s.stack.reverse := List.map_fst_zip (by simp [hlen])
  have hsnd : pairs.map Prod.snd = slots := List.map_snd_zip (by simp [hlen])
  have hslots (p : VarRef × VarRef) (hp : p ∈ pairs) : p.2 ∈ s₁.waiting :=
    mem_waiting hlookup (List.mem_reverse.2 (List.of_mem_zip hp).2)
  have hfilled (v : VarRef) (hv : Filled pairs v) : s₁.draft.vars.IsTemp v := by
    have hw : v ∈ s₁.waiting := mem_waiting hlookup (List.mem_reverse.2 (hsnd ▸ hv.2))
    exact (hb.waiting v hw).resolve_right hv.1
  have hsingle (z : VarRef) (hz : z ≠ Draft.self) : (pairs.map Prod.snd).count z ≤ 1 := by
    rw [hsnd, ← List.count_reverse]
    exact hb.count_slots hlookup hz
  -- what is needed behind the branch
  set left : List VarRef := if conditional then s.stack else [] with hleft
  have hleft : s₁.Balanced env (spent conditional pairs ++ (left ++ held)) kept := by
    cases conditional with
    | true => exact hb
    | false =>
      show s₁.Balanced env (pairs.map Prod.fst ++ held) kept
      rw [hfst]
      exact hb.perm ((List.reverse_perm s.stack).symm.append_right held)
  refine (moveInto_meets target conditional pairs hleft ?_ hslots hsingle).keep.bind
    fun _ s₂ _ h₂ => ?_
  · rintro rfl p hp
    exact List.mem_append_left _ (List.mem_reverse.1 (List.of_mem_zip hp).1)
  obtain ⟨g, hb₂, hent⟩ := h₂
  have hrun : (if !conditional then modify ({ · with stack := [] }) else pure () : Lower Unit) env s₂ =
      .ok () { s₂ with stack := left } := by
    cases conditional with
    | true =>
      have : s₂.stack = s.stack := g.stack_eq.trans hstack
      show EStateM.Result.ok () s₂ = _
      simp [left, ← this]
    | false => rfl
  rw [hpairs, ← List.reverse_reverse slots] at hent g hfilled
  obtain ⟨carry, hands⟩ := hflow.handsOver hcode hlookup (by simpa using hlen) hent g hleft
    (fun _ => List.mem_append_right _) (fun _ => List.mem_append_left held)
    fun v hv => (h.usable v (List.mem_append_left _ hv)).1
  exact meets_of_ok hrun trivial ⟨(hflow.computes g hfilled).restack left, balanced_restack hb₂ left,
    rfl, slots.reverse, carry, hands.needing fun _ => List.mem_append_right _⟩

end Lower

end FlatHeap
