import FlatHeap.Proofs.Lowering.Joins

/-!
# Passages

Whoever follows a departure ends up behind the label of the offset with the converted contents of the
entries in the merge slots, which are the operand stack there (`Frame.Passage`).  Whoever runs into the
offset from above does as well (`Frame.Entry`).  `Frame.Joined` says so of all edges of a method.
-/

namespace FlatHeap

/-- The piece jumps if it is executed with these contents. -/
def Piece.Jumps (σ : Store) : Piece → Prop
  | jump _ => True
  | test c _ => σ c = .bool false
  | _ => False

/-- The piece is a test that does not jump if it is executed with these contents. -/
def Piece.Holds (σ : Store) : Piece → Prop
  | test c _ => σ c = .bool true
  | _ => False

namespace Frame

open Lower Host.Machine Relation

variable {env : MethodEnv} {P : Placed env.toClassEnv} {m : Host.Machine} {s s' a b c d : Frame}
  {target : Nat} {needs entries slots : List VarRef} {carry code : List Piece} {exit : Piece}
  {l : Label} {pairs : List (VarRef × VarRef)} {y : VarRef → Value} {σ : Store}

lemma Moving.self_iff (h : Moving env pairs code s s') :
    ∀ p ∈ pairs, p.1 = Draft.self ↔ p.2 = Draft.self := by
  induction h with
  | done => simp
  | self _ ih => exact List.forall_mem_cons.2 ⟨.rfl, ih⟩
  | move entry place _ _ _ _ _ _ _ _ ih =>
    exact List.forall_mem_cons.2 ⟨iff_of_false entry place, ih⟩

lemma Moving.copies (h : Moving env pairs code s s') :
    ∀ p ∈ pairs, p.1 ≠ Draft.self → ∃ out, .copy out p.2 ∈ code := by
  induction h with
  | done => simp
  | self _ ih => exact List.forall_mem_cons.2 ⟨fun h => absurd rfl h, ih⟩
  | @move v slot out _ first code _ _ _ _ _ _ _ _ _ _ _ _ _ _ _ ih =>
    refine List.forall_mem_cons.2 ⟨fun _ => ⟨out, by simp⟩, fun p hp hne => ?_⟩
    obtain ⟨out', hmem⟩ := ih p hp hne
    exact ⟨out', by simp [hmem]⟩

/-- The values `y` are the contents of the entries, converted to the types of their slots. -/
def Valued (P : Placed env.toClassEnv) (σ : Store) (pairs : List (VarRef × VarRef))
    (y : VarRef → Value) : Prop :=
  ∀ p ∈ pairs, p.1 ≠ Draft.self →
    env.Converted (P.draft.vars.get p.1) (P.draft.vars.get p.2).type (σ p.1) (y p.2)

/-- **Handing over**, in a program. -/
lemma HandsOver.moves (h : HandsOver env target needs entries slots carry s s') (hmd : env.md.Built)
    (hP : P.Completes s') (hσ : Store.Agrees P.draft.vars σ) (hy : Valued P σ (entries.zip slots) y) :
    ∃ τ, (∀ stack, ReflTransGen P.Moves ⟨s.position, σ, stack⟩ ⟨s'.position, τ, stack⟩) ∧
      (∀ p ∈ entries.zip slots, p.1 ≠ Draft.self → p.2 ∈ P.order ∧ τ p.2 = y p.2) ∧
      Keeping P.draft.vars (fun z => z ∈ s'.stack ∨ z ∈ needs) σ τ := by
  have hmem {p : VarRef × VarRef} : p ∈ entries.reverse.zip slots.reverse ↔ p ∈ entries.zip slots :=
    mem_zip_reverse h.length_eq
  obtain ⟨s₁, s₂, hcode, hmoving, -, -, -⟩ := h.moving
  obtain ⟨τ, hleads, hvalue, hkeep⟩ := h.delivers hmd P.draft.vars σ y hP.vars hσ
    fun p hp hne => by
      obtain ⟨hentry, hslot⟩ := List.of_mem_zip (hmem.1 hp)
      have hhas := h.continues.vars.has (h.has _ hentry)
      have htemp := (h.kinds _ hslot).resolve_right (mt (hmoving.self_iff p hp).2 hne)
      rw [← hP.vars.type_eq htemp.1]
      exact (hy p (hmem.1 hp) hne).sooner hP.vars hhas
  refine ⟨τ, fun stack => hleads.moves hP stack, fun p hp hne => ⟨?_, hvalue p (hmem.2 hp) hne⟩, hkeep⟩
  obtain ⟨out, hcopy⟩ := hmoving.copies p (hmem.2 hp) hne
  obtain ⟨rest, hops⟩ := hP.code
  have hpush : Op.push p.2 ∈ P.ops := by
    rw [hops, h.continues.ops]
    have hin := List.mem_flatMap.2 ⟨_, hcopy, Piece.push_mem_ops (z := p.2) (by simp [Piece.writes])⟩
    simp [hin]
  exact Placed.mem_order hpush rfl

lemma op_at_position {op : Op} {ops : List Op} {s : Frame}
    (h : P.ops = s.draft.ops.toList ++ op :: ops) : P.ops[s.position]? = some op :=
  Placed.op_at h

lemma Records.exits (h : Records env [exit] s s') (goal : exit = .jump l ∨ ∃ c, exit = .test c l)
    (hP : P.Completes s') (stack : List VarRef) :
    (exit.Jumps σ → ∀ j : Nat, P.ops[j]? = some (.mark l) →
      ReflTransGen P.Moves ⟨s.position, σ, stack⟩ ⟨j, σ, stack⟩) ∧
    (exit.Holds σ → ReflTransGen P.Moves ⟨s.position, σ, stack⟩ ⟨s'.position, σ, stack⟩) := by
  obtain ⟨rest, hops⟩ := hP.code
  rw [h.code.ops, List.append_assoc] at hops
  rcases goal with rfl | ⟨x, rfl⟩
  · refine ⟨fun _ j hj => .single (.jump (op_at_position hops) hj), ?_⟩
    rintro ⟨⟩
  · have hpush : ReflTransGen P.Moves ⟨s.position, σ, stack⟩ ⟨s.position + 1, σ, x :: stack⟩ :=
      .single (.push (op_at_position hops))
    have htest : P.ops[s.position + 1]? = some (.jumpIfFalse l) := by
      rw [hops]
      simp [position, Piece.ops]
    have hend : s'.position = s.position + 1 + 1 := by simp [position, h.code.ops, Piece.ops]
    refine ⟨fun hfalse j hj => hpush.tail (.skip htest hj hfalse), fun htrue => ?_⟩
    rw [hend]
    exact hpush.tail (.pass htest htrue)

/-- **Departures**, in a program.  If the jump is taken, control is at the label; if a test does not
jump, the operand stack holds what it held. -/
lemma Links.departs (h : Links env (.departure target entries slots carry exit) a b)
    (hmd : env.md.Built) (hP : P.Completes b) (hm : P.Loaded m)
    (hy : Valued P (storeOf P m) (entries.zip slots) y) :
    ∃ l τ, (target, l) ∈ b.labels ∧
      (∀ p ∈ entries.zip slots, p.1 ≠ Draft.self → p.2 ∈ P.order ∧ τ p.2 = y p.2) ∧
      (exit.Jumps (storeOf P m) → ∀ j : Nat, P.ops[j]? = some (.mark l) → ∀ stack,
        ReflTransGen P.Moves ⟨a.position, storeOf P m, stack⟩ ⟨j, τ, stack⟩) ∧
      (exit.Holds (storeOf P m) →
        (∀ stack, ReflTransGen P.Moves ⟨a.position, storeOf P m, stack⟩ ⟨b.position, τ, stack⟩) ∧
        ∀ v ∈ entries, τ v = storeOf P m v) := by
  cases h with
  | @departure _ _ _ _ _ l _ s₁ _ _ hands label goal left _ leaves =>
    obtain ⟨τ, hmoves, hvalue, hkeep⟩ :=
      hands.moves hmd (hP.sooner leaves.code) (storeOf_agrees hm) hy
    have hexits := leaves.exits goal hP (σ := τ)
    have hlabel : (target, l) ∈ b.labels := by
      rw [leaves.rest]
      exact label
    have hcond (x : VarRef) (hx : x ∈ exit.vars) : τ x = storeOf P m x := hkeep.needed x (.inr hx)
    refine ⟨l, τ, hlabel, hvalue, fun hj j hmark stack => (hmoves stack).trans ?_, fun hh => ?_⟩
    · refine (hexits stack).1 ?_ j hmark
      rcases goal with rfl | ⟨x, rfl⟩
      · trivial
      · exact (hcond x (by simp [Piece.vars])).trans hj
    · rcases goal with rfl | ⟨x, rfl⟩
      · cases hh
      · have htrue : τ x = .bool true := (hcond x (by simp [Piece.vars])).trans hh
        exact ⟨fun stack => (hmoves stack).trans ((hexits stack).2 htrue),
          fun v hv => hkeep.needed v (.inl (by rwa [left ⟨x, rfl⟩]))⟩

lemma Links.mark_at {stack : List VarRef}
    (h : Links env (.arrival target entries slots carry l stack) s s') (hP : P.Completes s') :
    ∃ (j : Nat) (l : Label), (target, l) ∈ s'.labels ∧ P.ops[j]? = some (.mark l) ∧
      s'.position = j + 1 := by
  obtain ⟨rest, hops⟩ := hP.code
  have hcode : s'.draft.ops.toList =
      (s.draft.ops.toList ++ carry.flatMap Piece.ops) ++ [.mark l] := by
    rw [h.continues.ops, Stretch.code, List.flatMap_append, List.append_assoc]
    rfl
  rw [hcode, List.append_assoc] at hops
  refine ⟨_, l, ?_, Placed.op_at hops, by rw [position, hcode, List.length_append]; rfl⟩
  cases h with
  | arrival _ _ label _ placed takes =>
    rw [takes.rest, placed.rest]
    exact label

/-- The machine runs from behind the code of one frame to behind that of another, and then each slot
holds its value. -/
def Fetches (P : Placed env.toClassEnv) (m : Host.Machine) (pairs : List (VarRef × VarRef))
    (y : VarRef → Value) (a b : Frame) : Prop :=
  ∃ m', Reaches P.image (UInt32.ofNat a.draft.codeSize, m) (UInt32.ofNat b.draft.codeSize, m') ∧
    m'.stack = m.stack ∧
    ∀ p ∈ pairs, p.1 ≠ Draft.self → m'.heap[(P.index p.2).toNat]? = some (y p.2)

/-- The machine runs from behind the code of one frame to behind that of another, and the entries hold
what they held. -/
def Skips (P : Placed env.toClassEnv) (m : Host.Machine) (entries : List VarRef) (a b : Frame) : Prop :=
  ∃ m', Reaches P.image (UInt32.ofNat a.draft.codeSize, m) (UInt32.ofNat b.draft.codeSize, m') ∧
    m'.stack = m.stack ∧ ∀ v ∈ entries, storeOf P m' v = storeOf P m v

/-- **From a departure to the arrival.**  The frames are those before and behind the departure, and
before and behind the arrival. -/
structure Passage (env : MethodEnv) (target : Nat) (entries slots : List VarRef) (carry : List Piece)
    (exit : Piece) (between : List Stretch) (a b c d : Frame) : Prop where
  departs : Links env (.departure target entries slots carry exit) a b
  passes : Trail env between b c
  arrives : ∃ entries' slots' carry' l,
    Links env (.arrival target entries' slots' carry' l slots) c d
  /-- The slots are the operand stack behind the label. -/
  stack_eq : d.stack = slots
  length_eq : slots.length = entries.length
  /-- The running program is carried as itself, and nothing else is. -/
  self_iff : ∀ p ∈ entries.zip slots, p.1 = Draft.self ↔ p.2 = Draft.self
  /-- Only the copies of other edges into the offset write the slots in between. -/
  spared : ∀ x ∈ between, ∀ q ∈ x.code, ∀ v ∈ slots, v ≠ Draft.self → v ∈ q.writes →
    Fills x target slots q v
  /-- The pool does not hand the slots out in between. -/
  rested : Rested slots b c
  /-- Whoever takes the jump comes to the code behind the label with the converted contents of the
  entries in the slots, and whoever does not take it finds the entries unchanged. -/
  taken : env.md.Built → ∀ (P : Placed env.toClassEnv), P.Completes d → ∀ m, P.Loaded m →
    ∀ y, Valued P (storeOf P m) (entries.zip slots) y →
      (exit.Jumps (storeOf P m) → Fetches P m (entries.zip slots) y a d) ∧
      (exit.Holds (storeOf P m) → Skips P m entries a b)

structure Entry (env : MethodEnv) (target : Nat) (entries slots : List VarRef) (carry : List Piece)
    (l : Label) (a b : Frame) : Prop where
  arrives : Links env (.arrival target entries slots carry l slots) a b
  /-- The slots are the operand stack behind the label. -/
  stack_eq : b.stack = slots
  length_eq : slots.length = entries.length
  /-- The running program is carried as itself, and nothing else is. -/
  self_iff : ∀ p ∈ entries.zip slots, p.1 = Draft.self ↔ p.2 = Draft.self
  /-- Control comes to the code behind the label with the converted contents of the entries in the
  slots. -/
  taken : env.md.Built → ∀ (P : Placed env.toClassEnv), P.Completes b → ∀ m, P.Loaded m →
    ∀ y, Valued P (storeOf P m) (entries.zip slots) y → Fetches P m (entries.zip slots) y a b

lemma storeOf_eq {m' : Host.Machine} {τ : Store} {v : VarRef}
    (h : ∀ v ∈ P.order, m'.heap[(P.index v).toNat]? = some (τ v))
    (hv : τ v = storeOf P m v) : storeOf P m' v = storeOf P m v := by
  by_cases hmem : v ∈ P.order
  · rw [storeOf, if_pos hmem, h v hmem, Option.getD_some, hv]
  · rw [storeOf, storeOf, if_neg hmem, if_neg hmem]

lemma fetches_of_moves {τ : Store} (ha : P.Completes a) (hb : P.Completes b) (hm : P.Loaded m)
    (hvalue : ∀ p ∈ pairs, p.1 ≠ Draft.self → p.2 ∈ P.order ∧ τ p.2 = y p.2)
    (h : ∀ stack, ReflTransGen P.Moves ⟨a.position, storeOf P m, stack⟩ ⟨b.position, τ, stack⟩) :
    Fetches P m pairs y a b := by
  obtain ⟨m', hreach, hstack, hheap⟩ := reaches_of_moves ha hb hm h
  refine ⟨m', hreach, hstack, fun p hp hne => ?_⟩
  obtain ⟨horder, hτ⟩ := hvalue p hp hne
  rw [hheap _ horder, hτ]

lemma HandsOver.self_iff (h : HandsOver env target needs entries slots carry s s') :
    ∀ p ∈ entries.zip slots, p.1 = Draft.self ↔ p.2 = Draft.self := by
  obtain ⟨_, _, -, hmoving, -, -, -⟩ := h.moving
  exact fun p hp => hmoving.self_iff p ((mem_zip_reverse h.length_eq).2 hp)

/-- **Every departure that carries values leads to an arrival**, once nothing waits any more. -/
lemma Links.passage {after : List Stretch} {f : Frame}
    (h : Links env (.departure target entries slots carry exit) a b) (hne : entries ≠ [])
    (hrest : Trail env after b f) (hdone : f.merges.lookup target = none)
    (hlabels : (f.labels.map Prod.fst).Nodup) :
    ∃ between x after' c d, after = between ++ x :: after' ∧ Trail env after' d f ∧
      Passage env target entries slots carry exit between a b c d := by
  have hwaits : b.merges.lookup target = some slots := h.edge_waits rfl hne id
  have hself : ∀ p ∈ entries.zip slots, p.1 = Draft.self ↔ p.2 = Draft.self := by
    cases h with
    | departure _ hands => exact hands.self_iff
  have htemp (v : VarRef) (hv : v ∈ slots) (hself : v ≠ Draft.self) : b.draft.vars.IsTemp v := by
    cases h with
    | departure _ hands _ _ _ _ leaves =>
      exact leaves.vars.isTemp ((hands.kinds v hv).resolve_right hself)
  obtain ⟨between, x, after', rfl, hno, hx⟩ := hrest.arrives hwaits hdone
  obtain ⟨c, hbetween, hrest⟩ := trail_append_iff.1 hrest
  obtain ⟨d, hlink, hafter⟩ := trail_cons_iff.1 hrest
  cases x with
  | aside | departure => exact hx.elim
  | arrival target' entries' slots' carry' l stack =>
    obtain rfl : target' = target := hx
    obtain ⟨rfl, hstack⟩ := hlink.takes (.inl (hbetween.waits hwaits hno))
    refine ⟨between, _, after', c, d, rfl, hafter, h, hbetween, ⟨_, _, _, l, hlink⟩, hstack,
      h.edge_length rfl, hself,
      fun x hx q hq v hv hself => hbetween.spares hwaits hno hv (htemp v hv hself) hx hq,
      hbetween.rested hwaits hno, fun hmd P hP m hm y hy => ?_⟩
    have hPb : P.Completes b := (hP.sooner hlink.continues).sooner hbetween.continues
    have hPa : P.Completes a := hPb.sooner h.continues
    obtain ⟨l', τ, hl', hvalue, hjumps, hholds⟩ := h.departs hmd hPb hm hy
    -- both labels are the one of the offset
    obtain ⟨j, l'', hl'', hmark, hpos⟩ := hlink.mark_at hP
    obtain rfl : l' = l'' := by
      have hmem := hafter.labels.2.1 _ (hlink.labels.2.1 _ (hbetween.labels.2.1 _ hl'))
      have hmem' := hafter.labels.2.1 _ hl''
      exact congrArg Prod.snd (List.inj_on_of_nodup_map hlabels hmem hmem' rfl)
    refine ⟨fun hj => fetches_of_moves hPa hP hm hvalue fun stack => ?_, fun hh => ?_⟩
    · rw [hpos]
      exact (hjumps hj j hmark stack).tail (.idle hmark rfl)
    · obtain ⟨hmoves, hkeep⟩ := hholds hh
      obtain ⟨m', hreach, hstack, hheap⟩ := reaches_of_moves hPa hPb hm hmoves
      exact ⟨m', hreach, hstack, fun v hv => storeOf_eq hheap (hkeep v hv)⟩

/-- **Running into an offset** with values on the operand stack. -/
lemma Links.entry {stack : List VarRef}
    (h : Links env (.arrival target entries slots carry l stack) a b) (hne : entries ≠ []) :
    Entry env target entries slots carry l a b := by
  obtain ⟨rfl, hstack⟩ := h.takes (.inr ⟨hne, rfl⟩)
  have hlink := h
  cases h with
  | @arrival _ _ _ _ _ _ _ s₁ s₂ _ _ hands label _ placed takes =>
    refine ⟨hlink, hstack, hands.length_eq, hands.self_iff, fun hmd P hP m hm y hy => ?_⟩
    have hmark : s₁.draft.Continues env b.draft [.mark l] := placed.code.trans takes.continues
    have hP₁ : P.Completes s₁ := hP.sooner hmark
    obtain ⟨τ, hmoves, hvalue, -⟩ := hands.moves hmd hP₁ (storeOf_agrees hm) hy
    refine fetches_of_moves (hP₁.sooner hands.continues) hP hm hvalue fun stack => ?_
    obtain ⟨rest, hops⟩ := hP.code
    have hpos : b.position = s₁.position + 1 := by
      rw [position, hmark.ops, List.length_append]
      rfl
    rw [hmark.ops, List.append_assoc] at hops
    rw [hpos]
    exact (hmoves stack).tail (.idle (op_at_position hops) rfl)

/-! ## Whole methods -/

/-- **Joins carry values.**  The code of a method is cut into stretches such that every jump to the
label of an offset is the end of a departure, every departure that carries values leads to an arrival,
and all edges that carry values to one offset fill the same slots. -/
structure Joined (env : MethodEnv) (trail : List Stretch) (s₀ s : Frame) : Prop where
  recorded : Trail env trail s₀ s
  jumps : ∀ x ∈ trail, ∀ q ∈ x.code, ∀ l ∈ q.targets, ∀ offset, (offset, l) ∈ s.labels →
    ∃ entries slots carry, x = .departure offset entries slots carry q
  agree : ∀ x ∈ trail, ∀ y ∈ trail, x.Agree y
  /-- Behind the label the slots of every edge that carries values are the operand stack. -/
  stack_eq : ∀ x ∈ trail, ∀ target entries slots, x.edge? = some (target, entries, slots) →
    entries ≠ [] → ∀ entries' slots' carry l stack,
      .arrival target entries' slots' carry l stack ∈ trail → stack = slots
  departures : ∀ before target entries slots carry exit after, entries ≠ [] →
    trail = before ++ .departure target entries slots carry exit :: after →
    ∃ between x after' a b c d, after = between ++ x :: after' ∧ Trail env before s₀ a ∧
      Trail env after' d s ∧ Passage env target entries slots carry exit between a b c d
  arrivals : ∀ before target entries slots carry l stack after, entries ≠ [] →
    trail = before ++ .arrival target entries slots carry l stack :: after →
    ∃ a b, Trail env before s₀ a ∧ Trail env after b s ∧ Entry env target entries slots carry l a b

/-- **A trail that leaves nothing waiting joins.** -/
lemma Trail.joined {trail : List Stretch} {s₀ : Frame} (h : Trail env trail s₀ s)
    (hend : trail.Pairwise fun x y => x.ArrivesAt endOfBody → ¬ y.Departs)
    (hmade : ∀ e ∈ s₀.labels, e.2.index < s₀.draft.labelCount) (hl : s.Labelled)
    (honce : ∀ e ∈ s.labels, s.draft.placed e.2 ≤ 1) (hreturn : ∀ o, (o, env.returnLabel) ∉ s.labels)
    (hdone : s.merges = []) : Joined env trail s₀ s := by
  have hsettled := h.settled hend hl.offsets honce
  refine ⟨h, fun x hx q hq l hlabel o ho => ?_, h.agree hsettled,
    fun x hx target entries slots hedge hne entries' slots' carry l stack hy =>
      h.stack_eq hsettled hx hedge hne hy, fun before target entries slots carry exit after hne htrail => ?_,
    fun before target entries slots carry l stack after hne htrail => ?_⟩
  · rcases h.jump hmade hx hq hlabel ho with rfl | ⟨o', entries, slots, carry, rfl, ho'⟩
    · exact absurd ho (hreturn o)
    · obtain rfl : o' = o := congrArg Prod.fst (List.inj_on_of_nodup_map hl.labels ho' ho rfl)
      exact ⟨entries, slots, carry, rfl⟩
  · subst htrail
    obtain ⟨a, hbefore, h⟩ := trail_append_iff.1 h
    obtain ⟨b, hlink, hafter⟩ := trail_cons_iff.1 h
    obtain ⟨between, x, after', c, d, hafter', hrest, hpassage⟩ :=
      hlink.passage hne hafter (by rw [hdone]; rfl) hl.offsets
    exact ⟨between, x, after', a, b, c, d, hafter', hbefore, hrest, hpassage⟩
  · subst htrail
    obtain ⟨a, hbefore, h⟩ := trail_append_iff.1 h
    obtain ⟨b, hlink, hafter⟩ := trail_cons_iff.1 h
    exact ⟨a, b, hbefore, hafter, hlink.entry hne⟩

end Frame

end FlatHeap
