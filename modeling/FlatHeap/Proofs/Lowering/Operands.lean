import FlatHeap.Proofs.Lowering.Trails

/-!
# The operand stack

Between two instructions the hand is the operand stack.  An instruction takes variables off the
operand stack and puts others there, but for the books it makes no difference where a variable in hand
is kept, so stack operations do nothing to them.  The specifications write the hand as the variables
taken off, in the order in which they were taken, in front of what is left of the operand stack.

An entry may stand for more than a read of itself.  `Variables.reads` lists the temporaries that an
entry stands for a read of, and a variable in hand may always be exchanged for these.

`Frame.Timely` says of branches what has to be kept up beside the books: operand stacks wait only at
offsets that the cursor has not passed.  It is kept apart because it fails for a moment whenever
control arrives at an offset.
-/

namespace FlatHeap

/-! ## Waiting for offsets not yet reached -/

namespace Frame

variable {env : MethodEnv} {held : List VarRef} {W : VarRef → Prop} {s s' s'' : Frame}
  {ps : List Piece}

/-- The cursor has passed no offset at which an operand stack waits. -/
structure Timely (env : MethodEnv) (s : Frame) : Prop where
  ahead : ∀ e ∈ s.merges, env.Ahead s.cursor e.1
  distinct : (s.merges.map Prod.fst).Nodup
  nonempty : ∀ e ∈ s.merges, e.2 ≠ []
  position : ∀ c, s.current = some c → s.cursor = c + 1 ∧ c < env.code.size

lemma Timely.of_eq (h : s.Timely env) (hm : s'.merges = s.merges) (hc : s'.cursor = s.cursor)
    (hp : s'.current = s.current) : s'.Timely env := by
  refine ⟨?_, ?_, ?_, ?_⟩
  · rw [hm, hc]
    exact h.ahead
  · rw [hm]
    exact h.distinct
  · rw [hm]
    exact h.nonempty
  · rw [hp, hc]
    exact h.position

lemma withoutMerge_eq {offset : Nat} (h : ∀ e ∈ s.merges, e.1 ≠ offset) :
    s.withoutMerge offset = s := by
  have hm : s.merges.filter (·.1 != offset) = s.merges :=
    List.filter_eq_self.2 fun e he => by simpa using h e he
  rw [withoutMerge, hm]

/-- The second frame follows from the first one by steps of a rule.  If no operand stack waited behind
the cursor, none does so now, and the cursor has passed no target of a branch. -/
structure Proceeds (env : MethodEnv) (s s' : Frame) : Prop extends Grows env s s' where
  timely : s.Timely env → s'.Timely env
  ahead : ∀ offset, env.Ahead s.cursor offset ↔ env.Ahead s'.cursor offset
  cursor_le : s.cursor ≤ s'.cursor

/-- The same, along a trail of stretches aside and of branches that carry the given entries. -/
structure Advances (env : MethodEnv) (entries : List VarRef) (s s' : Frame) : Prop
    extends Proceeds env s s' where
  trail : ∃ l, Trail env l s s' ∧ ∀ x ∈ l, x.Within entries

/-- The relation admits other entries of the operand stack. -/
class Restacks (R : Frame → Frame → Prop) : Prop extends Admits R where
  restack : ∀ (s : Frame) (l : List VarRef), R s { s with stack := l }

/-- The relation admits what rules do to a frame, the cursor apart. -/
class Follows (env : outParam MethodEnv) (R : Frame → Frame → Prop) : Prop extends Restacks R where
  rearranges : ∀ {held : List VarRef} {W : VarRef → Prop} {s s' : Frame},
    Rearranges env held W s s' → (∀ v, W v → env.IsSlot s.draft.vars v) → R s s'
  records : ∀ {ps : List Piece} {s s' : Frame}, Records env ps s s' →
    (∀ q ∈ ps, q.marks = []) → (∀ q ∈ ps, Proper env s s' q) →
    (∀ q ∈ ps, Discreet env s s' q) → R s s'
  grows : ∀ {s s' : Frame}, R s s' → Grows env s s'

lemma Grows.of_draft (hd : s'.draft = s.draft) (hl : s'.labels = s.labels)
    (hc : s.current.isSome → s'.current.isSome) : Grows env s s' := by
  refine .of_settles (.of_eq ?_ ?_ ?_ hl hc) hl ?_ (.of_count_eq ?_ ?_) ⟨[], ?_, by simp⟩ <;>
    rw [hd]
  · exact .refl _
  · exact fun _ => rfl
  · exact .refl env _

instance : Restacks (Rearranges env held W) where
  restack s _ := ⟨le_rfl, rfl, rfl, .of_count_eq rfl fun _ => rfl, untouched_of_stock rfl, [], .refl env _,
    by simp [Closed], by simp⟩

instance : Restacks Any where
  restack _ _ := trivial

instance : Follows env (Grows env) where
  restack _ _ := .of_draft rfl rfl id
  rearranges h hW := h.grows fun v hv => .inr (hW v hv)
  records h hm hq _ := h.grows hm hq
  grows h := h

lemma Proceeds.refl (env : MethodEnv) (s : Frame) : Proceeds env s s :=
  ⟨.refl env s, id, fun _ => .rfl, le_rfl⟩

lemma Proceeds.trans (h : Proceeds env s s') (h' : Proceeds env s' s'') : Proceeds env s s'' :=
  ⟨h.toGrows.trans h'.toGrows, fun t => h'.timely (h.timely t),
    fun o => (h.ahead o).trans (h'.ahead o), h.cursor_le.trans h'.cursor_le⟩

instance : Std.Refl (Proceeds env) := ⟨Proceeds.refl env⟩

instance : IsTrans Frame (Proceeds env) := ⟨fun _ _ _ => Proceeds.trans⟩

lemma Grows.proceeds (h : Grows env s s') (hm : s'.merges = s.merges) (hc : s'.cursor = s.cursor)
    (hp : s'.current = s.current) : Proceeds env s s' :=
  ⟨h, fun t => t.of_eq hm hc hp, fun o => by rw [hc], hc.ge⟩

instance : Follows env (Proceeds env) where
  silent h := (Admits.silent h : Grows env _ _).proceeds (by rw [h.rest]; rfl)
    (by rw [h.rest]; rfl) (by rw [h.rest]; rfl)
  restack s l := (Restacks.restack s l : Grows env s { s with stack := l }).proceeds rfl rfl rfl
  rearranges h hW := (h.grows fun v hv => .inr (hW v hv)).proceeds h.merges_eq h.cursor_eq
    h.current_eq
  records h hm hq _ := (h.grows hm hq).proceeds (by rw [h.rest]) (by rw [h.rest]) (by rw [h.rest])
  grows h := h.toGrows

lemma Proceeds.advances {code : List Piece} {e : List VarRef} (h : Proceeds env s s')
    (ha : Aside env code s s') : Advances env e s s' :=
  ⟨h, [.aside code], (Links.aside ha).trail, by simp [Stretch.Within]⟩

lemma Advances.refl (env : MethodEnv) (e : List VarRef) (s : Frame) : Advances env e s s :=
  ⟨.refl env s, [], .nil, by simp⟩

lemma Advances.trans {e : List VarRef} (h : Advances env e s s') (h' : Advances env e s' s'') :
    Advances env e s s'' := by
  obtain ⟨l, ht, hw⟩ := h.trail
  obtain ⟨l', ht', hw'⟩ := h'.trail
  refine ⟨h.toProceeds.trans h'.toProceeds, l ++ l', ht.append ht', fun x hx => ?_⟩
  exact (List.mem_append.1 hx).elim (hw x) (hw' x)

instance {e : List VarRef} : Std.Refl (Advances env e) := ⟨Advances.refl env e⟩

instance {e : List VarRef} : IsTrans Frame (Advances env e) := ⟨fun _ _ _ => Advances.trans⟩

instance {e : List VarRef} : Follows env (Advances env e) where
  silent h := (Admits.silent h : Proceeds env _ _).advances (h.records.aside (by simp))
  restack s l := (Restacks.restack s l : Proceeds env s { s with stack := l }).advances
    (aside_of_draft rfl rfl rfl rfl le_rfl)
  rearranges h hW := by
    obtain ⟨code, ha⟩ := h.aside hW
    exact (Follows.rearranges h hW : Proceeds env _ _).advances ha
  records h hm hq hd := (Follows.records h hm hq hd : Proceeds env _ _).advances (h.aside hd)
  grows h := h.toGrows

end Frame

namespace Lower

open FlatHeap.Frame CompileError

variable {α : Type} {R : Frame → Frame → Prop} {E : CompileError → Prop} {env : MethodEnv}
  {s s' : Frame} {held held' kept : List VarRef} {v w : VarRef}

lemma Meets.works [Follows env R] {m : Lower α} {Q : α → Frame → Prop}
    (h : Meets (Works env held) E m env s Q) :
    Meets R E m env s fun a s' => Works env held s s' ∧ Q a s' :=
  h.imp (fun _ g => Follows.rearranges g.toRearranges fun _ => False.elim)
    (fun _ => id) fun _ _ g hQ => ⟨g, hQ⟩

lemma Meets.silently [Follows env R] {m : Lower α} {Q : α → Frame → Prop}
    (h : Meets Silent E m env s Q) :
    Meets R E m env s fun a s' => Works env [] s s' ∧ Q a s' :=
  h.imp (fun _ g => Admits.silent g) (fun _ => id) fun _ _ g hQ => ⟨Admits.silent g, hQ⟩

lemma not_keeps_of_hand (h : s.Balanced env held kept) (ho : Output s held v) : ¬ s.Keeps [] v := by
  rintro ⟨-, hk⟩
  obtain ⟨w, hw, hl⟩ := hk ho.isTemp.2
  have hw : w ∈ s.waiting := by simpa using hw
  have hp := Variables.plain_of_temporary ho.isTemp.2
  have hplain : s.draft.vars.Plain w := by
    rcases h.waiting w hw with ht | rfl
    · exact Variables.plain_of_temporary ht.2
    · exact fun a i e => absurd (h.self.2.symm.trans e) (by simp)
  obtain rfl : w = v := by
    by_contra hne
    rw [Variables.load_of_plain hplain, if_neg hne] at hl
    exact absurd hl (lt_irrefl 0)
  have hle : s.draft.vars.load w w ≤ s.draft.vars.loads held w :=
    Variables.load_le_loads ho.inHand w
  rw [Variables.load_self hp, (h.apart w hw ho.isTemp).1] at hle
  omega

lemma Meets.fills [Follows env R] {m : Lower α} {Q : α → Frame → Prop}
    (h : Meets (Computes env held' (· = v)) E m env s Q) (hb : s.Balanced env held kept)
    (ho : Output s held v) :
    Meets R E m env s fun a s' => Computes env held' (· = v) s s' ∧ Q a s' := by
  have hfree := not_keeps_of_hand hb ho
  refine h.imp (fun s' g => ?_) (fun _ => id) fun _ _ g hQ => ⟨g, hQ⟩
  have hr : Rearranges env [] (fun _ => False) s s' := by
    refine g.toRearranges.mono (by simp) ?_
    rintro _ rfl
    exact .inr ⟨g.vars.isTemp ho.isTemp, hfree⟩
  exact Follows.rearranges hr fun _ => False.elim

lemma Meets.assigns [Follows env R] {W : VarRef → Prop} {m : Lower α} {Q : α → Frame → Prop}
    (h : Meets (Rearranges env held W) E m env s Q) (hW : ∀ v, W v → env.IsSlot s.draft.vars v) :
    Meets R E m env s fun a s' => s.draft.vars.Grows s'.draft.vars ∧ Q a s' :=
  h.imp (fun _ g => Follows.rearranges g hW) (fun _ => id)
    fun _ _ g hQ => ⟨g.vars, hQ⟩

end Lower

/-! ## Pushing and popping -/

namespace Lower

open FlatHeap.Frame CompileError

section Stack

variable {R : Frame → Frame → Prop} [Restacks R] {E : CompileError → Prop} {env : MethodEnv}
  {s s' : Frame} {held kept : List VarRef} {v : VarRef}

lemma balanced_restack (h : s.Balanced env held kept) (l : List VarRef) :
    ({ s with stack := l } : Frame).Balanced env held kept :=
  h.of_eq rfl rfl rfl

lemma pushStack_meets (h : s.Balanced env (v :: (s.stack ++ held)) kept) :
    Meets R E (pushStack v) env s fun _ s' => s'.Balanced env (s'.stack ++ held) kept :=
  meets_of_ok (a := ()) (t := { s with stack := v :: s.stack }) rfl
    (Restacks.restack s (v :: s.stack)) (balanced_restack h _)

lemma popStack_meets (l : List VarRef) (h : s.Balanced env (l ++ (s.stack ++ held)) kept)
    (hE : E (.invariant .stackUnderflow)) :
    Meets R E popStack env s fun v s' =>
      s'.Balanced env (v :: (l ++ (s'.stack ++ held))) kept ∧ s.stack = v :: s'.stack ∧
        s' = { s with stack := s'.stack } := by
  cases hs : s.stack with
  | nil =>
    have hrun : popStack env s = .error (.invariant .stackUnderflow) s := by
      rw [popStack, get_bind, hs]
      rfl
    exact meets_of_error hrun hE
  | cons v rest =>
    have hrun : popStack env s = .ok v { s with stack := rest } := by
      rw [popStack, get_bind, hs]
      rfl
    rw [hs] at h
    exact meets_of_ok hrun (Restacks.restack s rest)
      ⟨(balanced_restack h rest).perm List.perm_middle, rfl, rfl⟩

lemma peekStack_meets (depth : Nat) (hE : E (.invariant .stackUnderflow)) :
    Meets R E (peekStack depth) env s fun v s' => s' = s ∧ s.stack[depth]? = some v := by
  rw [peekStack, meets_get_bind]
  cases hs : s.stack[depth]? with
  | some v => exact meets_pure ⟨rfl, rfl⟩
  | none => exact meets_breach hE

lemma popMany_meets (n : Nat) (h : s.Balanced env (s.stack ++ held) kept)
    (hE : E (.invariant .stackUnderflow)) :
    Meets R E (popMany n) env s fun vs s' =>
      s'.Balanced env (vs ++ (s'.stack ++ held)) kept ∧ vs.length = n ∧
        s' = { s with stack := s'.stack } ∧ s.stack = vs.reverse ++ s'.stack := by
  by_cases hn : s.stack.length < n
  · have hrun : popMany n env s = .error (.invariant .stackUnderflow) s := by
      show (if s.stack.length < n then _ else _ : Lower _) env s = _
      rw [if_pos hn]
      rfl
    exact meets_of_error hrun hE
  · have hrun : popMany n env s =
        .ok (s.stack.take n).reverse { s with stack := s.stack.drop n } := by
      show (if s.stack.length < n then _ else _ : Lower _) env s = _
      rw [if_neg hn]
      rfl
    refine meets_of_ok hrun (Restacks.restack s _)
      ⟨(balanced_restack h _).perm ?_, by simp; omega, rfl, by simp⟩
    calc (s.stack ++ held).Perm (s.stack.take n ++ (s.stack.drop n ++ held)) := by
          rw [← List.append_assoc, List.take_append_drop]
      _ |>.Perm ((s.stack.take n).reverse ++ (s.stack.drop n ++ held)) :=
          (List.reverse_perm _).symm.append_right _

end Stack

end Lower

/-! ## Entries as reads of temporaries -/

namespace Variables

variable {vs : Variables} {v t : VarRef}

/-- The temporaries that an entry stands for a read of. -/
def reads (vs : Variables) (v : VarRef) : List VarRef :=
  match vs.kind v with
  | .element array index => [array, index].filter fun w => (vs.get w).isTemporary
  | _ => [v].filter fun w => (vs.get w).isTemporary

lemma isTemporary_iff_kind : (vs.get v).isTemporary = true ↔ vs.kind v = .temporary :=
  Variable.isTemporary_iff _

lemma reads_of_plain (h : vs.Plain v) :
    vs.reads v = [v].filter fun w => (vs.get w).isTemporary := by
  unfold reads
  split
  · rename_i a i hk
    exact absurd hk (h a i)
  · rfl

lemma reads_of_element {a i : VarRef} (h : vs.kind v = .element a i) :
    vs.reads v = [a, i].filter fun w => (vs.get w).isTemporary := by
  simp only [reads, h]

lemma load_eq_count_reads (ht : vs.IsTemp t) (v : VarRef) :
    vs.load v t = (vs.reads v).count t := by
  have single (w : VarRef) : (if w = t then 1 else 0) =
      ([w].filter fun w => (vs.get w).isTemporary).count t := by
    by_cases e : w = t
    · subst e
      simp [isTemporary_iff_kind.2 ht.2]
    · by_cases hw : (vs.get w).isTemporary = true <;> simp [e, hw]
  by_cases hp : vs.Plain v
  · rw [load_of_plain hp, reads_of_plain hp, single]
  · simp only [Plain, not_forall, not_not] at hp
    obtain ⟨a, i, hk⟩ := hp
    simp only [load, hk, reads_of_element hk]
    rw [single a, single i, ← List.count_append, ← List.filter_append]
    rfl

lemma loads_of_plain {l : List VarRef} (hl : ∀ w ∈ l, vs.Plain w) (t : VarRef) :
    vs.loads l t = l.count t := by
  induction l with
  | nil => rfl
  | cons w l ih =>
    rw [loads_cons, ih fun x hx => hl x (List.mem_cons_of_mem w hx),
      load_of_plain (hl w (by simp)), List.count_cons]
    simp [Nat.add_comm]

lemma kind_of_mem_reads {w : VarRef} (h : w ∈ vs.reads v) : vs.kind w = .temporary := by
  unfold reads at h
  split at h <;> exact isTemporary_iff_kind.1 (List.mem_filter.1 h).2

lemma Tidy.has_of_mem_reads {w : VarRef} (ht : vs.Tidy) (hv : vs.Has v) (h : w ∈ vs.reads v) :
    vs.Has w := by
  unfold reads at h
  split at h
  · rename_i a i hk
    have hp := ht.parts v a i hk
    rcases List.mem_pair.1 (List.mem_filter.1 h).1 with rfl | rfl
    · exact hp.1
    · exact hp.2
  · exact List.mem_singleton.1 (List.mem_filter.1 h).1 ▸ hv

end Variables

namespace Frame

variable {env : MethodEnv} {s : Frame} {held kept : List VarRef} {v w : VarRef}

lemma Balanced.exchange (vs ws : List VarRef) (h : s.Balanced env (vs ++ held) kept)
    (usable : ∀ w ∈ ws, env.Usable s.draft.vars w)
    (loads : ∀ t, s.draft.vars.IsTemp t → s.draft.vars.loads vs t = s.draft.vars.loads ws t) :
    s.Balanced env (ws ++ held) kept := by
  refine h.update (.refl _) h.tidy ?_ (fun w hw => ?_) (fun t _ ht h0 => ?_) rfl
  · refine { h.books with uses := fun t ht => ?_, has := fun w hw => ?_ }
    · have := h.books.uses t ht
      simp only [Variables.loads_append, loads t ht] at this ⊢
      exact this
    · by_cases hm : w ∈ ws
      · exact (usable w hm).1
      · refine h.books.has w ?_
        simp only [List.mem_append] at hw ⊢
        tauto
  · by_cases hm : w ∈ ws
    · exact .inr (usable w hm)
    · refine .inl ?_
      simp only [List.mem_append] at hw ⊢
      tauto
  · simp only [Variables.loads_append, loads t ht] at h0 ⊢
    exact h0

lemma usable_of_temporary (h : s.draft.vars.IsTemp v) : env.Usable s.draft.vars v :=
  MethodEnv.usable_of_readable h.readable

lemma loads_reads (vs : Variables) {t : VarRef} (ht : vs.IsTemp t) (v : VarRef) :
    vs.loads [v] t = vs.loads (vs.reads v) t := by
  rw [Variables.loads_of_plain fun w hw =>
      Variables.plain_of_temporary (Variables.kind_of_mem_reads hw),
    Variables.loads_cons, Variables.loads_nil, Variables.load_eq_count_reads ht, Nat.add_zero]

lemma Balanced.shatter (h : s.Balanced env (v :: held) kept) :
    s.Balanced env (s.draft.vars.reads v ++ held) kept := by
  have hv := h.usable_hand (v := v) (by simp)
  refine h.exchange [v] _ (fun w hw => ?_) fun t ht => loads_reads _ ht v
  exact usable_of_temporary ⟨h.tidy.has_of_mem_reads hv.1 hw, Variables.kind_of_mem_reads hw⟩

lemma Balanced.gather (h : s.Balanced env (s.draft.vars.reads v ++ held) kept)
    (hv : env.Usable s.draft.vars v) : s.Balanced env (v :: held) kept :=
  h.exchange _ [v] (by simpa using hv) fun t ht => (loads_reads _ ht v).symm

lemma Balanced.unfold {a i : VarRef} (h : s.Balanced env (v :: held) kept)
    (hk : s.draft.vars.kind v = .element a i) (ha : (s.draft.vars.get a).isAddress = false)
    (hi : (s.draft.vars.get i).isAddress = false) : s.Balanced env (a :: i :: held) kept := by
  have hparts := h.tidy.parts v a i hk
  have hlabels := h.tidy.unlabelled v a i hk
  refine h.exchange [v] [a, i] (fun w hw => ?_) (fun t ht => ?_)
  · rcases List.mem_pair.1 hw with rfl | rfl
    · exact MethodEnv.usable_of_readable ⟨hparts.1, ha, hlabels.1⟩
    · exact MethodEnv.usable_of_readable ⟨hparts.2, hi, hlabels.2⟩
  · have hpa := Variables.load_of_plain (Variables.plain_of_not_isAddress ha) t
    have hpi := Variables.load_of_plain (Variables.plain_of_not_isAddress hi) t
    simp [Variables.load, hk] at hpa hpi ⊢
    rw [hpa, hpi]

end Frame

namespace Lower

open FlatHeap.Frame CompileError

section Reads

variable {R : Frame → Frame → Prop} [Admits R] {E : CompileError → Prop} {env : MethodEnv}
  {s s' : Frame} {held kept : List VarRef} {v a i : VarRef}

lemma useRead_meets
    (h : s.Balanced env (([v].filter fun w => (s.draft.vars.get w).isTemporary) ++ held) kept) :
    Meets R E (useVar v) env s fun _ s' => s'.Balanced env held kept := by
  by_cases hk : s.draft.vars.kind v = .temporary
  · have hf : ([v].filter fun w => (s.draft.vars.get w).isTemporary) = [v] := by
      simp [Variables.isTemporary_iff_kind.2 hk]
    rw [hf] at h
    exact useVar_meets h (Variables.plain_of_temporary hk)
  · have hf : ([v].filter fun w => (s.draft.vars.get w).isTemporary) = [] := by
      simpa using mt Variables.isTemporary_iff_kind.1 hk
    rw [hf] at h
    exact meets_of_ok (useVar_idle hk) (refl_of R s) h

lemma filter_temporary_grows {vs vs' : Variables} (g : vs.Grows vs') {l : List VarRef}
    (hl : ∀ w ∈ l, vs.Has w) :
    l.filter (fun w => (vs'.get w).isTemporary) = l.filter fun w => (vs.get w).isTemporary := by
  refine List.filter_congr fun w hw => ?_
  have hk := g.kind_eq (hl w hw)
  simp only [Variables.kind] at hk
  simp only [Variable.isTemporary, hk]

/-- **Dropping** a variable in hand uses up what it stands for. -/
lemma discardVar_meets (h : s.Balanced env (v :: held) kept) :
    Meets Silent E (discardVar v) env s fun _ s' => s'.Balanced env held kept := by
  have hv := h.usable_hand (v := v) (by simp)
  rw [discardVar, meets_var_bind]
  cases hk : (s.draft.vars.get v).kind with
  | address t =>
    refine meets_pure (h.letGo ⟨hv, fun a i e => ?_, fun e => ?_⟩)
    · exact absurd (hk.symm.trans e) (by simp)
    · exact absurd (hk.symm.trans e) (by simp)
  | element a i =>
    have hparts := h.tidy.parts v a i hk
    have hb := h.shatter
    rw [Variables.reads_of_element hk, show [a, i] = [a] ++ [i] from rfl, List.filter_append,
      List.append_assoc] at hb
    refine (useRead_meets hb).bind fun _ s₁ g hb₁ => useRead_meets ?_
    rwa [filter_temporary_grows g.vars (by simpa using hparts.2)]
  | _ =>
    refine useVar_meets h fun a i e => ?_
    exact absurd (hk.symm.trans e) (by simp)

lemma part_not_pooled (h : s.Balanced env held kept) (hv : v ∈ held)
    (hk : s.draft.vars.kind v = .element a i) {w : VarRef} (hw : w = a ∨ w = i) :
    (s.draft.vars.get w).pooled = false := by
  have hparts := h.tidy.parts v a i hk
  refine h.books.not_pooled_of_needed (by rcases hw with rfl | rfl; exacts [hparts.1, hparts.2])
    fun _ => .inl ?_
  have hle : s.draft.vars.load v w ≤ s.draft.vars.loads (held ++ s.waiting) w :=
    Variables.load_le_loads (List.mem_append_left _ hv) w
  refine Nat.lt_of_lt_of_le ?_ hle
  simp only [Variables.load, hk]
  rcases hw with rfl | rfl <;> simp

lemma allocatePart_meets (h : s.Balanced env held kept) (hv : v ∈ held)
    (hk : s.draft.vars.kind v = .element a i) {w : VarRef} (hw : w = a ∨ w = i) :
    Meets R E (allocate w 1) env s fun _ s' =>
      s'.Balanced env (([w].filter fun w => (s.draft.vars.get w).isTemporary) ++ held) kept := by
  have hparts := h.tidy.parts v a i hk
  have hhas : s.draft.vars.Has w := by rcases hw with rfl | rfl; exacts [hparts.1, hparts.2]
  by_cases ht : s.draft.vars.kind w = .temporary
  · have hf : ([w].filter fun w => (s.draft.vars.get w).isTemporary) = [w] := by
      simp [Variables.isTemporary_iff_kind.2 ht]
    rw [hf]
    refine allocateRead_meets h (usable_of_temporary ⟨hhas, ht⟩) (Variables.plain_of_temporary ht)
      (fun _ => ?_) 1
    have hle : s.draft.vars.load v w ≤ s.draft.vars.loads held w :=
      Variables.load_le_loads hv w
    refine Nat.lt_of_lt_of_le ?_ hle
    simp only [Variables.load, hk]
    rcases hw with rfl | rfl <;> simp
  · have hf : ([w].filter fun w => (s.draft.vars.get w).isTemporary) = [] := by
      simpa using mt Variables.isTemporary_iff_kind.1 ht
    rw [hf]
    exact meets_of_ok (allocate_idle ht 1) (refl_of R s) h

end Reads

end Lower

end FlatHeap
