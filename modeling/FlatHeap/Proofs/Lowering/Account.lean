import FlatHeap.Lowering.Flow
import FlatHeap.Proofs.Lowering.Pieces

/-!
# Accounts of temporaries

A temporary is handed out with one pending read, every read uses one up, and with the last one the
temporary goes back to the pool.  The lowering is right about temporaries if, at every moment, the
pending reads of each are exactly the places that still intend to read it.  Such places are the merge
slots that wait for a branch target not yet reached, and the variables *in hand*: the entries of the
operand stack, and those that were taken off it, or just made, and are not yet used.

`Frame.Balanced env s hand kept` says that the books of the frame `s` balance when the variables
`hand` are in hand and the temporaries `kept` are reserved by whoever lowers the instruction.  Every
step of a lowering is specified by the hand it starts from and the hand it ends with, so a
specification reads like a linear typing: a conversion takes `v :: held` to `w :: held`, a host
operation consumes its inputs.  Between two instructions the hand is the operand stack.

An element address in hand stands for a read of its array and one of its index.  That is the one
place where a reference is not to the variable itself, and `Variables.load` is where it is said.
-/

namespace FlatHeap

open Variables

/-! ## The books of the scratch pool

`refs` lists the places that intend to read, and `resv` holds of the reserved temporaries. -/

/-- Pending reads, reservations and the pool agree with the places that intend to read. -/
structure Books (vs : Variables) (pool : Scratch) (refs : List VarRef) (resv : VarRef → Prop) :
    Prop where
  uses : ∀ t, vs.IsTemp t → (vs.get t).uses = vs.loads refs t
  reserved : ∀ t, vs.IsTemp t → ((vs.get t).reserved = true ↔ resv t)
  pooled : ∀ t, vs.IsTemp t →
    ((vs.get t).pooled = true ↔ (vs.get t).uses = 0 ∧ (vs.get t).reserved = false)
  unpooled : ∀ v, vs.kind v ≠ .temporary → (vs.get v).pooled = false
  free : ∀ v, v ∈ pool.free ↔ v ∈ pool.made ∧ (vs.get v).pooled = true
  freeOnce : pool.free.Nodup
  made : ∀ v ∈ pool.made, vs.IsTemp v
  live : ∀ t, vs.IsTemp t → (vs.get t).pooled = false → t ∈ pool.made
  has : ∀ v ∈ refs, vs.Has v
  resvHas : ∀ v, resv v → vs.Has v

namespace Books

variable {vs : Variables} {pool : Scratch} {refs refs' : List VarRef} {resv resv' : VarRef → Prop}
  {v t : VarRef}

lemma perm (h : Books vs pool refs resv) (hp : refs.Perm refs') : Books vs pool refs' resv :=
  { h with
    uses := fun t ht => (h.uses t ht).trans (loads_perm hp t)
    has := fun v hv => h.has v (hp.mem_iff.2 hv) }

lemma drop (h : Books vs pool (v :: refs) resv) (hv : ∀ t, vs.IsTemp t → vs.load v t = 0) :
    Books vs pool refs resv :=
  { h with
    uses := fun t ht => by simpa [hv t ht] using h.uses t ht
    has := fun w hw => h.has w (List.mem_cons_of_mem v hw) }

lemma list (h : Books vs pool refs resv) (hh : vs.Has v)
    (hv : ∀ t, vs.IsTemp t → vs.load v t = 0) : Books vs pool (v :: refs) resv :=
  { h with
    uses := fun t ht => by simpa [hv t ht] using h.uses t ht
    has := fun w hw => by
      rcases List.mem_cons.1 hw with rfl | hw
      · exact hh
      · exact h.has w hw }

lemma not_pooled_of_needed (h : Books vs pool refs resv) (hh : vs.Has v)
    (hn : vs.kind v = .temporary → 0 < vs.loads refs v ∨ resv v) : (vs.get v).pooled = false := by
  by_cases hk : vs.kind v = .temporary
  · have ht : vs.IsTemp v := ⟨hh, hk⟩
    rw [← Bool.not_eq_true, h.pooled v ht, h.uses v ht, ← Bool.not_eq_true, h.reserved v ht]
    rintro ⟨h0, hr⟩
    exact (hn hk).elim h0.not_gt hr
  · exact h.unpooled v hk

lemma not_pooled (h : Books vs pool refs resv) (hv : v ∈ refs) (hp : vs.Plain v) :
    (vs.get v).pooled = false := by
  refine h.not_pooled_of_needed (h.has v hv) fun _ => .inl ?_
  have hle : vs.load v v ≤ vs.loads refs v := load_le_loads hv v
  rwa [load_self hp] at hle

/-- **A new variable.**  If it is a temporary, then it is handed out. -/
lemma addNew {x : Variable} {made : List VarRef} (h : Books vs pool refs resv)
    (hp : x.pooled = false)
    (hx : x.kind = .temporary →
      x.reserved = false ∧ 0 < x.uses ∧ x.uses = (vs.add x).2.loads refs' (vs.add x).1)
    (hmade : ∀ w, w ∈ made ↔ w ∈ pool.made ∨ x.kind = .temporary ∧ w = (vs.add x).1)
    (hloads : ∀ t, vs.IsTemp t → (vs.add x).2.loads refs' t = vs.loads refs t)
    (has : ∀ w ∈ refs', (vs.add x).2.Has w) :
    Books (vs.add x).2 { pool with made } refs' resv := by
  have g := grows_add vs x
  have hget := get_add_new vs x
  have hnew := not_has_add_new vs x
  have cases {t : VarRef} (ht : (vs.add x).2.IsTemp t) :
      vs.IsTemp t ∧ (vs.add x).2.get t = vs.get t ∨ x.kind = .temporary ∧ t = (vs.add x).1 := by
    rcases (has_add_iff vs x t).1 ht.1 with hh | rfl
    · exact .inl ⟨⟨hh, (g.kind_eq hh).symm.trans ht.2⟩, get_add_old hh x⟩
    · have hk := ht.2
      rw [kind, hget] at hk
      exact .inr ⟨hk, rfl⟩
  have old {w : VarRef} (hw : w ∈ pool.made) : (vs.add x).2.get w = vs.get w :=
    get_add_old (h.made w hw).1 x
  refine ⟨fun t ht => ?_, fun t ht => ?_, fun t ht => ?_, fun w hw => ?_, fun w => ?_, h.freeOnce,
    fun w hw => ?_, fun t ht hl => ?_, has, fun w hw => g.has (h.resvHas w hw)⟩
  · rcases cases ht with ⟨ht, e⟩ | ⟨hk, rfl⟩
    · rw [e, h.uses t ht, hloads t ht]
    · rw [hget, (hx hk).2.2]
  · rcases cases ht with ⟨ht, e⟩ | ⟨hk, rfl⟩
    · rw [e, h.reserved t ht]
    · rw [hget, (hx hk).1]
      simpa using fun hr => hnew (h.resvHas _ hr)
  · rcases cases ht with ⟨ht, e⟩ | ⟨hk, rfl⟩
    · rw [e, h.pooled t ht]
    · simp [hget, hp, (hx hk).2.1.ne']
  · by_cases hh : vs.Has w
    · rw [get_add_old hh]
      exact h.unpooled w fun e => hw ((g.kind_eq hh).trans e)
    · by_cases e : w = (vs.add x).1
      · rw [e, hget, hp]
      · rw [get_of_not_has fun h' => ((has_add_iff vs x w).1 h').elim hh e]
        rfl
  · rw [h.free, hmade]
    constructor
    · rintro ⟨hm, hw⟩
      exact ⟨.inl hm, by rw [old hm, hw]⟩
    · rintro ⟨hm | ⟨-, rfl⟩, hw⟩
      · exact ⟨hm, by rwa [old hm] at hw⟩
      · simp [hget, hp] at hw
  · rcases (hmade w).1 hw with hw | ⟨hk, rfl⟩
    · exact g.isTemp (h.made w hw)
    · exact ⟨has_add_new vs x, by rw [kind, hget, hk]⟩
  · rw [hmade]
    rcases cases ht with ⟨ht, e⟩ | hnew
    · rw [e] at hl
      exact .inl (h.live t ht hl)
    · exact .inr hnew

lemma add (h : Books vs pool refs resv) (x : Variable) (hk : x.kind ≠ .temporary)
    (hp : x.pooled = false) : Books (vs.add x).2 pool refs resv :=
  h.addNew hp (absurd · hk) (by simp [hk]) (fun t _ => loads_eq_of_grows (grows_add vs x) h.has t)
    fun w hw => has_add_old (h.has w hw) x

/-- **Changing one temporary.**  The books still balance if its new entry agrees with the new places,
its place in the pool agrees with the entry, and nothing is said anew about other temporaries. -/
lemma modify {f : Variable → Variable} {pool' : Scratch} (h : Books vs pool refs resv)
    (hv : vs.IsTemp v) (hm : v ∈ pool.made) (hf : ∀ x, (f x).lasting = x.lasting)
    (made : pool'.made = pool.made) (once : pool'.free.Nodup)
    (free : ∀ w, w ∈ pool'.free ↔
      if w = v then (f (vs.get v)).pooled = true else w ∈ pool.free)
    (uses : (f (vs.get v)).uses = vs.loads refs' v)
    (usesElse : ∀ t, t ≠ v → vs.IsTemp t → vs.loads refs' t = vs.loads refs t)
    (reserved : (f (vs.get v)).reserved = true ↔ resv' v)
    (reservedElse : ∀ t, t ≠ v → (resv' t ↔ resv t))
    (pooled : (f (vs.get v)).pooled = true ↔
      (f (vs.get v)).uses = 0 ∧ (f (vs.get v)).reserved = false)
    (has : ∀ w ∈ refs', vs.Has w) : Books (vs.modify v f) pool' refs' resv' := by
  have g := grows_modify vs v f hf
  have hself : (vs.modify v f).get v = f (vs.get v) := get_modify_self hv.1 f
  have helse {w : VarRef} (hw : w ≠ v) : (vs.modify v f).get w = vs.get w :=
    get_modify_of_ne hw f
  have kind (w : VarRef) : (vs.modify v f).kind w = vs.kind w := by
    by_cases hw : w = v
    · subst hw
      exact g.kind_eq hv.1
    · simp only [kind, helse hw]
  have temp (w : VarRef) : (vs.modify v f).IsTemp w ↔ vs.IsTemp w := by
    simp only [IsTemp, has_modify, kind]
  have loads (t : VarRef) : (vs.modify v f).loads refs' t = vs.loads refs' t :=
    loads_eq_of_grows g has t
  refine ⟨fun t ht => ?_, fun t ht => ?_, fun t ht => ?_, fun w hw => ?_, fun w => ?_, once,
    fun w hw => (temp w).2 (h.made w (made ▸ hw)), fun t ht hl => ?_,
    fun w hw => (has_modify vs v w f).2 (has w hw), fun w hw => ?_⟩
  · rw [loads]
    by_cases e : t = v
    · rw [e, hself, uses]
    · rw [helse e, h.uses t ((temp t).1 ht), usesElse t e ((temp t).1 ht)]
  · by_cases e : t = v
    · rw [e, hself, reserved]
    · rw [helse e, reservedElse t e, h.reserved t ((temp t).1 ht)]
  · by_cases e : t = v
    · rw [e, hself, pooled]
    · rw [helse e, h.pooled t ((temp t).1 ht)]
  · have e : w ≠ v := fun e => hw (by rw [kind, e, hv.2])
    rw [helse e]
    exact h.unpooled w fun hk => hw ((kind w).trans hk)
  · rw [free w, made]
    by_cases e : w = v
    · rw [if_pos e, e, hself]
      exact ⟨fun hp => ⟨hm, hp⟩, fun hp => hp.2⟩
    · rw [if_neg e, helse e, h.free w]
  · rw [made]
    by_cases e : t = v
    · exact e ▸ hm
    · rw [helse e] at hl
      exact h.live t ((temp t).1 ht) hl
  · rw [has_modify]
    by_cases e : w = v
    · exact e ▸ hv.1
    · exact h.resvHas w ((reservedElse w e).1 hw)

/-- Changing a temporary outside the pool, where it stays unless its new entry says otherwise. -/
lemma alter {f : Variable → Variable} {pool' : Scratch} (h : Books vs pool refs resv)
    (hv : vs.IsTemp v) (hnp : (vs.get v).pooled = false) (hf : ∀ x, (f x).lasting = x.lasting)
    (hpool : pool' = if (f (vs.get v)).pooled then { pool with free := v :: pool.free } else pool)
    (uses : (f (vs.get v)).uses = vs.loads refs' v)
    (usesElse : ∀ t, t ≠ v → vs.loads refs' t = vs.loads refs t)
    (reserved : (f (vs.get v)).reserved = true ↔ resv' v)
    (reservedElse : ∀ t, t ≠ v → (resv' t ↔ resv t))
    (pooled : (f (vs.get v)).pooled = true ↔
      (f (vs.get v)).uses = 0 ∧ (f (vs.get v)).reserved = false)
    (has : ∀ w ∈ refs', vs.Has w) : Books (vs.modify v f) pool' refs' resv' := by
  have hfree : v ∉ pool.free := by simp [h.free, hnp]
  obtain ⟨made, once, free⟩ : pool'.made = pool.made ∧ pool'.free.Nodup ∧
      ∀ w, w ∈ pool'.free ↔ if w = v then (f (vs.get v)).pooled = true else w ∈ pool.free := by
    rw [hpool]
    split_ifs with hp
    · refine ⟨rfl, List.nodup_cons.2 ⟨hfree, h.freeOnce⟩, fun w => ?_⟩
      by_cases e : w = v <;> simp [e, hp]
    · refine ⟨rfl, h.freeOnce, fun w => ?_⟩
      by_cases e : w = v <;> simp [e, hp, hfree]
  exact h.modify hv (h.live v hv hnp) hf made once free uses (fun t e _ => usesElse t e) reserved
    reservedElse pooled has

lemma use (h : Books vs pool (v :: refs) resv) (hp : vs.Plain v) :
    ∃ vs' pool', pool.use vs v = .ok (vs', pool') ∧ Books vs' pool' refs resv := by
  by_cases hk : vs.kind v = .temporary
  swap
  · exact ⟨vs, pool, by simp [Scratch.use, isTemporary_eq_false hk],
      h.drop fun t ht => load_of_not_temporary hp hk ht.2⟩
  have hv : vs.IsTemp v := ⟨h.has v (by simp), hk⟩
  have hnp := h.not_pooled (v := v) (by simp) hp
  have huses : (vs.get v).uses = 1 + vs.loads refs v := by
    rw [h.uses v hv, loads_cons, load_self hp]
  have others (t : VarRef) (e : t ≠ v) : vs.loads refs t = vs.loads (v :: refs) t := by
    rw [loads_cons, load_of_plain hp, if_neg (Ne.symm e), Nat.zero_add]
  have hhas : ∀ w ∈ refs, vs.Has w := fun w hw => h.has w (List.mem_cons_of_mem v hw)
  have htemp : (vs.get v).isTemporary = true := by simpa [kind] using hk
  by_cases hlast : (vs.get v).uses ≤ 1 ∧ (vs.get v).reserved = false
  · -- the last read: the temporary goes back to the pool
    refine ⟨vs.modify v fun x => { x with uses := x.uses - 1, pooled := true },
      { pool with free := v :: pool.free }, ?_, h.alter hv hnp (fun _ => rfl) rfl
        (by simp only; omega) others (h.reserved v hv) (fun _ _ => Iff.rfl) ?_ hhas⟩
    · simp [Scratch.use, htemp, hnp, hlast, Scratch.recycle, modify_modify]
      rfl
    · simp only [hlast.2, and_true, true_iff]
      omega
  · refine ⟨vs.modify v fun x => { x with uses := x.uses - 1 }, pool, ?_, h.alter hv hnp
      (fun _ => rfl) (by simp [hnp]) (by simp only; omega) others (h.reserved v hv)
      (fun _ _ => Iff.rfl) ?_ hhas⟩
    · simp only [not_and, Bool.not_eq_false] at hlast
      simp [Scratch.use, htemp, hnp]
      intro hu hr
      simp [hlast hu] at hr
    · simp only [hnp, Bool.false_eq_true, false_iff, not_and]
      intro hu hr
      exact hlast ⟨by omega, hr⟩

lemma allocate (h : Books vs pool refs resv) (hh : vs.Has v) (hp : vs.Plain v)
    (hpos : vs.kind v = .temporary → 0 < vs.loads refs v) (n : Nat) :
    ∃ vs', pool.allocate vs v n = .ok (vs', pool) ∧
      Books vs' pool (List.replicate n v ++ refs) resv := by
  have hhas : ∀ w ∈ List.replicate n v ++ refs, vs.Has w := by
    intro w hw
    rcases List.mem_append.1 hw with hw | hw
    · exact (List.eq_of_mem_replicate hw) ▸ hh
    · exact h.has w hw
  have hloads (t : VarRef) :
      vs.loads (List.replicate n v ++ refs) t = n * vs.load v t + vs.loads refs t := by
    simp [loads]
  by_cases hk : vs.kind v = .temporary
  swap
  · refine ⟨vs, by simp [Scratch.allocate, isTemporary_eq_false hk],
      { h with uses := fun t ht => ?_, has := hhas }⟩
    rw [hloads, load_of_not_temporary hp hk ht.2, h.uses t ht]
    omega
  have hv : vs.IsTemp v := ⟨hh, hk⟩
  have hnp := h.not_pooled_of_needed hh fun hk => .inl (hpos hk)
  have htemp : (vs.get v).isTemporary = true := by simpa [kind] using hk
  have hone : 1 ≤ vs.loads refs v := hpos hk
  have hu := h.uses v hv
  refine ⟨vs.modify v fun x => { x with uses := x.uses + n }, by simp [Scratch.allocate, htemp, hnp],
    h.alter hv hnp (fun _ => rfl) (by simp [hnp]) ?_ (fun t e => ?_) (h.reserved v hv)
      (fun _ _ => Iff.rfl) ?_ hhas⟩
  · rw [hloads, load_self hp]
    simp only
    omega
  · rw [hloads, load_of_plain hp, if_neg (Ne.symm e)]
    omega
  · simp only [hnp, Bool.false_eq_true, false_iff, not_and]
    intro h0
    omega

lemma reserve (h : Books vs pool refs resv) (hmem : v ∈ refs) (hp : vs.Plain v)
    (resv' : VarRef → Prop) (hresv : ∀ t, resv' t ↔ resv t ∨ t = v) :
    ∃ vs', pool.reserve vs v = .ok (vs', pool) ∧ Books vs' pool refs resv' := by
  by_cases hk : vs.kind v = .temporary
  swap
  · refine ⟨vs, by simp [Scratch.reserve, isTemporary_eq_false hk],
      { h with reserved := fun t ht => ?_, resvHas := fun t ht => ?_ }⟩
    · have e : t ≠ v := fun e => hk (e ▸ ht.2)
      rw [hresv, h.reserved t ht]
      simp [e]
    · rcases (hresv t).1 ht with ht | rfl
      · exact h.resvHas t ht
      · exact h.has t hmem
  have hnp := h.not_pooled hmem hp
  have htemp : (vs.get v).isTemporary = true := by simpa [kind] using hk
  have hv : vs.IsTemp v := ⟨h.has v hmem, hk⟩
  exact ⟨vs.modify v ({ · with reserved := true }), by simp [Scratch.reserve, htemp, hnp],
    h.alter hv hnp (fun _ => rfl) (by simp [hnp]) (h.uses v hv) (fun _ _ => rfl) (by simp [hresv])
      (fun t e => by simp [hresv, e]) (by simp [hnp]) h.has⟩

lemma release (h : Books vs pool refs resv) (hv : resv v) (resv' : VarRef → Prop)
    (hresv : ∀ t, t ≠ v → (resv' t ↔ resv t)) (hnot : vs.kind v = .temporary → ¬ resv' v) :
    ∃ vs' pool', pool.release vs v = .ok (vs', pool') ∧ Books vs' pool' refs resv' := by
  have hhas := h.resvHas v hv
  by_cases hk : vs.kind v = .temporary
  swap
  · refine ⟨vs, pool, by simp [Scratch.release, isTemporary_eq_false hk],
      { h with reserved := fun t ht => ?_, resvHas := fun t ht => ?_ }⟩
    · have e : t ≠ v := fun e => hk (e ▸ ht.2)
      rw [hresv t e, h.reserved t ht]
    · by_cases e : t = v
      · exact e ▸ hhas
      · exact h.resvHas t ((hresv t e).1 ht)
  have ht : vs.IsTemp v := ⟨hhas, hk⟩
  have hnp := h.not_pooled_of_needed hhas fun _ => .inr hv
  have hr : (vs.get v).reserved = true := (h.reserved v ht).2 hv
  have htemp : (vs.get v).isTemporary = true := by simpa [kind] using hk
  by_cases h0 : (vs.get v).uses = 0
  · refine ⟨vs.modify v fun x => { x with reserved := false, pooled := true },
      { pool with free := v :: pool.free }, ?_, h.alter ht hnp (fun _ => rfl) rfl (h.uses v ht)
        (fun _ _ => rfl) (by simp [hnot hk]) hresv (by simp [h0]) h.has⟩
    simp [Scratch.release, htemp, hr, h0, Scratch.recycle, modify_modify]
    rfl
  · exact ⟨vs.modify v ({ · with reserved := false }), pool,
      by simp [Scratch.release, htemp, hr, h0], h.alter ht hnp (fun _ => rfl) (by simp [hnp])
        (h.uses v ht) (fun _ _ => rfl) (by simp [hnot hk]) hresv (by simp [hnp, h0]) h.has⟩

lemma take (h : Books vs pool refs resv) (htidy : vs.Tidy) (type : TypeRef)
    (out : Option HandOut) {vs' : Variables} {pool' : Scratch}
    (ht : pool.take vs type out = (v, vs', pool')) :
    Books vs' pool' (v :: refs) resv ∧ vs.Grows vs' ∧ vs'.Tidy ∧ vs'.IsTemp v ∧
      (vs'.get v).type = type ∧ vs'.loads refs v = 0 ∧
      (∀ t, vs.IsTemp t → 0 < vs.loads refs t → t ≠ v) ∧ ¬ resv v := by
  cases hfind : pool.free.find? fun w => (vs.get w).type == type with
  | some w =>
    -- a temporary of the pool: nobody refers to it
    simp only [Scratch.take, hfind, Prod.mk.injEq] at ht
    obtain ⟨rfl, rfl, rfl⟩ := ht
    have hmem : w ∈ pool.free := List.mem_of_find?_eq_some hfind
    have htype : (vs.get w).type = type := by simpa using List.find?_some hfind
    obtain ⟨hmade, hp⟩ := (h.free w).1 hmem
    have hw : vs.IsTemp w := h.made w hmade
    obtain ⟨hu, hr⟩ := (h.pooled w hw).1 hp
    have hplain := plain_of_temporary hw.2
    have hzero : vs.loads refs w = 0 := by rw [← h.uses w hw, hu]
    have hnresv : ¬ resv w := fun hh => by simp [(h.reserved w hw).2 hh] at hr
    have g : vs.Grows (vs.modify w ({ · with
        uses := 1, reserved := false, pooled := false, handOut := out })) :=
      grows_modify _ _ _ fun _ => rfl
    refine ⟨?_, g, htidy.of_same (size_modify _ _ _) g, g.isTemp hw,
      (g.type_eq hw.1).trans htype, (loads_eq_of_grows g h.has w).trans hzero, ?_, hnresv⟩
    · refine h.modify hw hmade (fun _ => rfl) rfl (h.freeOnce.erase w) (fun t => ?_) ?_
        (fun t e _ => ?_) (by simp [hnresv]) (fun _ _ => Iff.rfl) (by simp) (fun t ht => ?_)
      · by_cases e : t = w
        · subst e
          simp [h.freeOnce.not_mem_erase]
        · simp [e, List.mem_erase_of_ne e]
      · rw [loads_cons, load_self hplain, hzero]
      · rw [loads_cons, load_of_plain hplain, if_neg (Ne.symm e), Nat.zero_add]
      · rcases List.mem_cons.1 ht with rfl | ht
        · exact hw.1
        · exact h.has t ht
    · rintro t - hpos rfl
      omega
  | none =>
    -- a new temporary: it was no variable before
    simp only [Scratch.take, hfind, Prod.mk.injEq] at ht
    obtain ⟨rfl, rfl, rfl⟩ := ht
    set x : Variable := { type, kind := .temporary, uses := 1, handOut := out } with hx
    have g := grows_add vs x
    have hnew : ¬ vs.Has (vs.add x).1 := not_has_add_new vs x
    have hget := get_add_new vs x
    have htemp : (vs.add x).2.IsTemp (vs.add x).1 := ⟨has_add_new vs x, by rw [kind, hget]⟩
    have hplain := plain_of_temporary htemp.2
    have hzero : (vs.add x).2.loads refs (vs.add x).1 = 0 := by
      rw [loads_eq_of_grows g h.has, loads_of_not_has htidy h.has hnew]
    refine ⟨h.addNew rfl (fun _ => ⟨rfl, Nat.one_pos, ?_⟩) (by simp [hx]) (fun t ht => ?_) fun w hw => ?_,
      g, htidy.add ⟨by simp [hx], by simp [hx], by simp [hx], by simp [hx]⟩, htemp, by rw [hget], hzero,
      fun t ht _ e => hnew (e ▸ ht.1), fun hh => hnew (h.resvHas _ hh)⟩
    · rw [loads_cons, load_self hplain, hzero]
    · have e : (vs.add x).1 ≠ t := fun e => hnew (e ▸ ht.1)
      rw [loads_cons, load_of_plain hplain, if_neg e, loads_eq_of_grows g h.has, Nat.zero_add]
    · rcases List.mem_cons.1 hw with rfl | hw
      · exact htemp.1
      · exact g.has (h.has w hw)

end Books

/-! ## Entries of other variables -/

namespace Scratch

variable {pool pool' : Scratch} {vs vs' : Variables} {v w : VarRef}

lemma get_take_of_ne {type : TypeRef} {out : Option HandOut}
    (h : pool.take vs type out = (v, vs', pool')) (hw : w ≠ v) (hh : vs.Has w) :
    vs'.get w = vs.get w := by
  unfold take at h
  split at h <;> obtain ⟨rfl, rfl, -⟩ := h
  · exact get_modify_of_ne hw _
  · exact get_add_old hh _

lemma alters_allocate {n : Nat} (h : pool.allocate vs v n = .ok (vs', pool')) : vs.Alters v vs' := by
  unfold allocate at h
  split_ifs at h <;> obtain ⟨rfl, -⟩ := Prod.mk.inj (Except.ok.inj h)
  · exact .refl
  · exact ⟨_, rfl, fun _ => rfl⟩

lemma alters_use (h : pool.use vs v = .ok (vs', pool')) : vs.Alters v vs' := by
  unfold use at h
  dsimp only at h
  split_ifs at h <;> obtain ⟨rfl, -⟩ := Prod.mk.inj (Except.ok.inj h)
  · exact .refl
  · exact ⟨_, modify_modify .., fun _ => rfl⟩
  · exact ⟨_, rfl, fun _ => rfl⟩

lemma alters_reserve (h : pool.reserve vs v = .ok (vs', pool')) : vs.Alters v vs' := by
  unfold reserve at h
  split_ifs at h <;> obtain ⟨rfl, -⟩ := Prod.mk.inj (Except.ok.inj h)
  · exact .refl
  · exact ⟨_, rfl, fun _ => rfl⟩

lemma alters_release (h : pool.release vs v = .ok (vs', pool')) : vs.Alters v vs' := by
  unfold release at h
  dsimp only at h
  split_ifs at h <;> obtain ⟨rfl, -⟩ := Prod.mk.inj (Except.ok.inj h)
  · exact .refl
  · exact ⟨_, modify_modify .., fun _ => rfl⟩
  · exact ⟨_, rfl, fun _ => rfl⟩

end Scratch

end FlatHeap
