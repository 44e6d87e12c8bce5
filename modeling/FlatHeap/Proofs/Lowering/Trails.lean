import FlatHeap.Proofs.Conversion.Yields

/-!
# Trails

The story of a merge slot is spread over the code of a method: the first branch to an offset makes it,
every edge into the offset fills it, and arrival takes it up.  A *trail* tells it by cutting the code
recorded between two frames into stretches of three kinds.

* A stretch **aside** writes no merge slot that waits, and does not jump to an offset.
* A **departure** moves the operand stack into the merge slots of an offset and ends in a jump or a
  test that leads there.  Nothing stands between the moves and the jump, so whoever follows the jump
  finds in the slots what was just moved.
* An **arrival** moves the operand stack of the code above into the slots as well, places the label
  of the offset, and makes the slots the operand stack.

What the moves achieve is said twice.  `Frame.Moving` says which code they are: for each entry the code
of its conversion to the type of the slot, and a copy, where nothing that is still to be moved has been
written before.  `Frame.Delivers` says what executing the code does to the contents of the slots.
-/

namespace FlatHeap

/-- Control can still arrive at an offset when the cursor is at a position. -/
def MethodEnv.Ahead (env : MethodEnv) (cursor offset : Nat) : Prop :=
  env.isTarget offset = true ∧ (offset = endOfBody ∨
    ∃ k i, cursor ≤ k ∧ env.code[k]? = some i ∧ i.offset = offset ∧ i.opcode ≠ .nop)

/-- The contents `x` of a variable are, as a value of a type, the value `y`: nothing changes where the
types have the same values, scalars are converted as constants are, and constants are converted at
compile time.  Whatever else can be converted becomes what the code of the conversion makes of it. -/
inductive MethodEnv.Converted (env : MethodEnv) (source : Variable) (target : TypeRef) (x : Value) :
    Value → Prop
  | shared (value : source.constant? = none)
    (host : source.type = target ∨ env.ident source.type = env.ident target ∨
      env.md.isReference source.type = true ∧ env.md.isReference target = true ∧
        env.md.assignable source.type target = true)
    (fits : Host.Machine.fits x (env.ident target) = true) : Converted env source target x x
  | constant {y : Value} (value : source.constant? = some x)
    (fold : env.md.foldConversion? x source.type target = some y)
    (fits : Host.Machine.fits y (env.ident target) = true) : Converted env source target x y
  | scalar {a b : Scalar} {i : Int} {y : Value} (from_eq : source.type = a.type)
    (to_eq : target = b.type) (means : a.Means x i)
    (fold : env.md.foldConversion? x source.type target = some y) : Converted env source target x y
  | computed {y : Value} (fits : Host.Machine.fits y (env.ident target) = true)
    (turns : ∀ (s s' : Frame) (v out : VarRef) (held kept : List VarRef),
      s.Balanced env (v :: held) kept → (s.draft.vars.get v).type = source.type →
      (s.draft.vars.get v).constant? = source.constant? →
      Lower.convert v target env s = .ok out s' →
      Frame.Turns env (fun σ => σ v = x) (s.Keeps held) s s' out y) : Converted env source target x y

namespace Frame

variable {env : MethodEnv} {s s' s'' : Frame}

/-! ## Stretches -/

/-- Code that leaves merge slots alone and does not jump to an offset. -/
structure Aside (env : MethodEnv) (code : List Piece) (s s' : Frame) : Prop where
  continues : s.draft.Continues env s'.draft code
  labelCount_le : s.draft.labelCount ≤ s'.draft.labelCount
  labels_eq : s'.labels = s.labels
  merges_eq : s'.merges = s.merges
  cursor_le : s.cursor ≤ s'.cursor
  untouched : Untouched s s'
  writes : ∀ q ∈ code, ∀ v ∈ q.writes, s.draft.vars.IsTemp v → v ∉ s.waiting
  targets : ∀ q ∈ code, ∀ l ∈ q.targets, s.Between s' l ∨ l = env.returnLabel

/-- Merge slots of an offset were not handed out between two frames, and their entries in the table of
variables are the same. -/
def Rested (slots : List VarRef) (s s' : Frame) : Prop :=
  (∃ given, Scratch.Deals given s.stock s'.stock ∧ ∀ v ∈ slots, v ∉ given) ∧
    ∀ v ∈ slots, s.draft.vars.IsTemp v → s'.draft.vars.get v = s.draft.vars.get v

lemma Rested.refl (slots : List VarRef) (s : Frame) : Rested slots s s :=
  ⟨⟨[], .done, by simp⟩, fun _ _ _ => rfl⟩

lemma Rested.trans (h : Rested slots s s') (h' : Rested slots s' s'')
    (g : s.draft.vars.Grows s'.draft.vars) : Rested slots s s'' := by
  obtain ⟨⟨given, hd, hg⟩, hget⟩ := h
  obtain ⟨⟨given', hd', hg'⟩, hget'⟩ := h'
  refine ⟨⟨given ++ given', hd.append hd', fun v hv hm => ?_⟩, fun v hv ht => ?_⟩
  · exact (List.mem_append.1 hm).elim (hg v hv) (hg' v hv)
  · rw [hget' v hv (g.isTemp ht), hget v hv ht]

/-- Code that moves entries into slots, one after the other.  The running program is carried as
itself.  Another entry may first be given a further read; then it is converted to the type of its slot
and the result is copied there.  The conversion writes no merge slot, and none of the entries behind it
has been written when it is done. -/
inductive Moving (env : MethodEnv) : List (VarRef × VarRef) → List Piece → Frame → Frame → Prop
  | done {s : Frame} : Moving env [] [] s s
  | self {pairs : List (VarRef × VarRef)} {code : List Piece} {s s' : Frame}
    (rest : Moving env pairs code s s') :
    Moving env ((Draft.self, Draft.self) :: pairs) code s s'
  | move {v slot out : VarRef} {pairs : List (VarRef × VarRef)} {first code : List Piece}
    {s s₁ s₂ s₃ s' : Frame} (entry : v ≠ Draft.self) (place : slot ≠ Draft.self)
    (further : Silent s s₁)
    (converted : Lower.convert v (s₁.draft.vars.get slot).type env s₁ = .ok out s₂)
    (conversion : s₁.draft.Continues env s₂.draft first)
    (spared : ∀ q ∈ first, ∀ w ∈ s₁.waiting, w ∉ q.writes)
    (copied : Records env [.copy out slot] s₂ s₃) (merges : s₃.merges = s₁.merges)
    (unread : ∀ q ∈ first ++ [.copy out slot], ∀ p ∈ pairs, p.1 ∉ q.writes)
    (rest : Moving env pairs code s₃ s') :
    Moving env ((v, slot) :: pairs) (first ++ .copy out slot :: code) s s'

/-- Executing what was recorded between two frames leaves in each slot the converted contents of its
entry, and keeps what is needed. -/
def Delivers (env : MethodEnv) (N : VarRef → Prop) (pairs : List (VarRef × VarRef)) (s s' : Frame) :
    Prop :=
  ∀ K σ (y : VarRef → Value), s'.draft.vars.Grows K → Store.Agrees K σ →
    (∀ p ∈ pairs, p.1 ≠ Draft.self → env.Converted (s'.draft.vars.get p.1)
      (s'.draft.vars.get p.2).type (σ p.1) (y p.2)) →
    ∃ τ, Leads env K s s' σ τ ∧ (∀ p ∈ pairs, p.1 ≠ Draft.self → τ p.2 = y p.2) ∧
      Keeping K N σ τ

/-- An operand stack is handed over to the merge slots of an offset, which are made if there are none.
Without entries only the label of the offset is made.  What is needed behind the hand-over, and the
operand stack if it is still there, is not disturbed. -/
structure HandsOver (env : MethodEnv) (target : Nat) (needs entries slots : List VarRef)
    (carry : List Piece) (s s' : Frame) : Prop where
  continues : s.draft.Continues env s'.draft carry
  /-- The label of the offset is made before those that the moves jump to. -/
  labels : ∃ n, s.draft.labelCount ≤ n ∧ n ≤ s'.draft.labelCount ∧
    (∀ e ∈ s'.labels, e ∈ s.labels ∨ e.1 = target ∧ s.draft.labelCount ≤ e.2.index ∧ e.2.index < n) ∧
    ∀ q ∈ carry, ∀ l ∈ q.targets, n ≤ l.index ∧ l.index < s'.draft.labelCount
  keepLabels : ∀ e ∈ s.labels, e ∈ s'.labels
  merges : s'.merges = s.merges ∨
    s.merges.lookup target = none ∧ s'.merges = (target, slots) :: s.merges
  waits : entries ≠ [] → s'.merges.lookup target = some slots
  length_eq : slots.length = entries.length
  has : ∀ v ∈ entries, s.draft.vars.Has v
  kinds : ∀ v ∈ slots, s'.draft.vars.IsTemp v ∨ v = Draft.self
  cursor_eq : s'.cursor = s.cursor
  untouched : Untouched s s'
  moving : ∃ s₁ s₂, s.draft.Continues env s₁.draft [] ∧
    Moving env (entries.reverse.zip slots.reverse) carry s₁ s₂ ∧ s₂.stock = s'.stock ∧
    Rested slots s₁ s₂ ∧ (entries ≠ [] → s₁.merges.lookup target = some slots)
  writes : ∀ q ∈ carry, ∀ v ∈ q.writes, s.draft.vars.IsTemp v →
    ∀ e ∈ s.merges, v ∈ e.2 → e.1 = target
  delivers : env.md.Built →
    Delivers env (fun z => z ∈ s'.stack ∨ z ∈ needs) (entries.reverse.zip slots.reverse) s s'

end Frame

inductive Stretch where
  /-- Code that has nothing to do with offsets. -/
  | aside (code : List Piece)
  /-- An edge to an offset, by a jump or a test. -/
  | departure (target : Nat) (entries slots : List VarRef) (carry : List Piece) (exit : Piece)
  /-- Arrival at an offset. -/
  | arrival (target : Nat) (entries slots : List VarRef) (carry : List Piece) (label : Label)
    (stack : List VarRef)

namespace Stretch

def code : Stretch → List Piece
  | aside code => code
  | departure _ _ _ carry exit => carry ++ [exit]
  | arrival _ _ _ carry label _ => carry ++ [.mark label]

/-- The stretch is part of an instruction whose branches carry the given entries. -/
def Within (entries : List VarRef) : Stretch → Prop
  | aside _ => True
  | departure _ entries' _ _ _ => entries' = entries
  | arrival .. => False

def Into (offset : Nat) : Stretch → Prop
  | aside _ => True
  | departure .. => False
  | arrival target .. => target = offset

end Stretch

namespace Frame

variable {env : MethodEnv} {s s' s'' : Frame}

def withoutMerge (s : Frame) (offset : Nat) : Frame :=
  { s with merges := s.merges.filter (·.1 != offset) }

/-- The merge slots of an offset, if there are any, become the operand stack and are released. -/
structure TakesUp (target : Nat) (stack : List VarRef) (s s' : Frame) : Prop where
  vars : s.draft.vars.Grows s'.draft.vars
  rest : s' = { s with
    draft := { s.draft with vars := s'.draft.vars }, scratch := s'.scratch, stack := stack
    merges := s.merges.filter (·.1 != target) }
  taken : s.merges.lookup target = some stack ∨ s.merges.lookup target = none ∧ stack = s.stack
  untouched : Untouched (s.withoutMerge target) s'

inductive Links (env : MethodEnv) : Stretch → Frame → Frame → Prop
  | aside {code : List Piece} {s s' : Frame} (h : Aside env code s s') : Links env (.aside code) s s'
  | departure {target : Nat} {entries slots : List VarRef} {carry : List Piece} {exit : Piece}
    {l : Label} {s s₁ s' : Frame} (stack : s.stack = entries)
    (hands : HandsOver env target exit.vars entries slots carry s s₁)
    (label : (target, l) ∈ s₁.labels) (goal : exit = .jump l ∨ ∃ c, exit = .test c l)
    (left : (∃ c, exit = .test c l) → s₁.stack = entries)
    (ahead : entries ≠ [] → env.Ahead s.cursor target) (leaves : Records env [exit] s₁ s') :
    Links env (.departure target entries slots carry exit) s s'
  | arrival {target : Nat} {entries slots stack : List VarRef} {carry : List Piece} {l : Label}
    {s s₁ s₂ s' : Frame} (above : entries = s.stack ∨ entries = [] ∧ s.flowEnded = true)
    (hands : HandsOver env target [] entries slots carry s s₁) (label : (target, l) ∈ s₁.labels)
    (passed : target ≠ endOfBody → ¬ env.Ahead s.cursor target)
    (placed : Records env [.mark l] s₁ s₂) (takes : TakesUp target stack s₂ s') :
    Links env (.arrival target entries slots carry l stack) s s'

inductive Trail (env : MethodEnv) : List Stretch → Frame → Frame → Prop
  | nil {s : Frame} : Trail env [] s s
  | cons {x : Stretch} {trail : List Stretch} {s s' s'' : Frame} (link : Links env x s s')
    (rest : Trail env trail s' s'') : Trail env (x :: trail) s s''

lemma Links.trail {x : Stretch} (h : Links env x s s') : Trail env [x] s s' := .cons h .nil

lemma Trail.append {l l' : List Stretch} (h : Trail env l s s') (h' : Trail env l' s' s'') :
    Trail env (l ++ l') s s'' := by
  induction h with
  | nil => exact h'
  | cons link _ ih => exact .cons link (ih h')

/-! ## Steps aside -/

/-- A piece that stays away from merge slots and offsets. -/
structure Discreet (env : MethodEnv) (s s' : Frame) (q : Piece) : Prop where
  writes : ∀ v ∈ q.writes, s.draft.vars.IsTemp v → v ∉ s.waiting
  targets : ∀ l ∈ q.targets, s.Between s' l ∨ l = env.returnLabel

lemma Records.aside {ps : List Piece} (h : Records env ps s s')
    (hq : ∀ q ∈ ps, Discreet env s s' q) : Aside env ps s s' := by
  refine ⟨h.code, ?_, ?_, ?_, ?_, h.untouched, fun q hm => (hq q hm).writes,
    fun q hm => (hq q hm).targets⟩ <;> rw [h.rest]

lemma aside_of_draft (hd : s'.draft = s.draft) (hs : s'.scratch = s.scratch)
    (hl : s'.labels = s.labels) (hm : s'.merges = s.merges) (hc : s.cursor ≤ s'.cursor) :
    Aside env [] s s' := by
  refine ⟨?_, ?_, hl, hm, hc, untouched_of_stock ?_, by simp, by simp⟩
  · rw [hd]
    exact .refl env _
  · rw [hd]
  · rw [stock, hd, hs]
    rfl

lemma Rearranges.aside {held : List VarRef} {W : VarRef → Prop} (h : Rearranges env held W s s')
    (hW : ∀ v, W v → env.IsSlot s.draft.vars v) : ∃ code, Aside env code s s' := by
  obtain ⟨ps, hps, -, hq⟩ := h.code
  refine ⟨ps, hps, h.labels, h.labels_eq, h.merges_eq, h.cursor_eq.ge, h.untouched,
    fun q hm v hv ht hw => ?_, fun q hm l hl => .inl ((hq q hm).targets l hl)⟩
  rcases (hq q hm).writes v hv with ⟨-, hfree⟩ | hslot
  · refine hfree ⟨ht.1, fun hk => ⟨v, List.mem_append_right _ hw, ?_⟩⟩
    rw [Variables.load_self (Variables.plain_of_temporary hk)]
    exact Nat.one_pos
  · exact (hW v hslot).not_temporary ht.2

end Frame

end FlatHeap
