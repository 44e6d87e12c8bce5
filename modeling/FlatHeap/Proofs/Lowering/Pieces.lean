import FlatHeap.Proofs.Lowering.Meets
import FlatHeap.Proofs.Lowering.Variables
import FlatHeap.Proofs.Scalars

/-!
# What a lowering records

The operations of a draft come in pieces that leave the machine's stack as they found it: a copy
pushes its two operands and takes them off again, a host operation takes what was pushed for it.  The
exceptions are the call of a method, which leaves a return address for the callee to take, the return
that takes it, and an entry point, which leaves the address that stops the machine.  A lowering
records whole pieces only, and this module says which pieces and how they relate to the frame.

Three relations between frames are used.  `Frame.Computes W` is what conversions and the other helpers
do: they record pieces that write temporaries and variables in `W`, whose jumps stay inside what was
recorded, and they leave everything else of the frame alone.  `Frame.Rearranges W` allows for other
entries of the operand stack as well, as assignments need.  `Frame.Grows` is what a rule does: its
jumps go to labels of the method, and its calls are recorded in the draft.

All of them keep account of labels.  A label is made where it is needed and placed elsewhere, and a
draft can be laid out only if every label that is jumped to is placed once.  A label that a step makes
is either placed by the same step or entered in a table, the one of offsets or the one of methods; and
a step places no label that was made before.
-/

namespace FlatHeap

variable {vs vs' : Variables} {v : VarRef}

inductive Piece where
  /-- Copy a variable. -/
  | copy (source target : VarRef)
  /-- A host operation. -/
  | invoke (signature : VarRef) (inputs : List VarRef) (output : Option VarRef)
  /-- Jump if a variable is false. -/
  | test (condition : VarRef) (l : Label)
  /-- Jump. -/
  | jump (l : Label)
  /-- Call a method: leave the address behind the call and jump. -/
  | call (address : VarRef) (callee after : Label)
  /-- Place a label. -/
  | mark (l : Label)
  /-- Say where the next instruction comes from. -/
  | source (method offset : Nat)
  /-- An entry point: leave the address that stops the machine. -/
  | enter (name : String)
  /-- Return to the caller. -/
  | ret
deriving DecidableEq

namespace Piece

def ops : Piece → List Op
  | copy x y => [.push x, .push y, .copy]
  | invoke signature inputs output =>
    inputs.map .push ++ output.toList.map .push ++ [.invoke signature]
  | test condition l => [.push condition, .jumpIfFalse l]
  | jump l => [.jump l]
  | call address callee after => [.push address, .jump callee, .mark after]
  | mark l => [.mark l]
  | source method offset => [.source method offset]
  | enter name => [.entry name, .push Draft.halt]
  | ret => [.push Draft.returnJump, .copy, .jumpIndirect Draft.returnJump]

/-- Variables a piece reads or writes, other than the signature of a host operation and what belongs
to calls and returns. -/
def vars : Piece → List VarRef
  | copy x y => [x, y]
  | invoke _ inputs output => inputs ++ output.toList
  | test condition _ => [condition]
  | _ => []

def writes : Piece → List VarRef
  | copy _ y => [y]
  | invoke _ _ output => output.toList
  | _ => []

def targets : Piece → List Label
  | test _ l | jump l => [l]
  | _ => []

def marks : Piece → List Label
  | mark l | call _ _ l => [l]
  | _ => []

/-- The piece is neither an entry point nor a return. -/
def IsInner : Piece → Prop
  | enter _ | ret => False
  | _ => True

def IsLocal : Piece → Prop
  | call _ _ _ | enter _ | ret => False
  | _ => True

lemma IsLocal.isInner {q : Piece} (h : q.IsLocal) : q.IsInner := by
  cases q with
  | enter | ret => exact h.elim
  | _ => trivial

lemma count_mark_ops (q : Piece) (l : Label) : q.ops.count (.mark l) = q.marks.count l := by
  cases q <;> simp [ops, marks, List.count_eq_zero, List.count_cons]

end Piece

/-- A variable that code may read: it has a slot, and is not kept for a return. -/
structure Variables.Readable (vs : Variables) (v : VarRef) : Prop where
  has : vs.Has v
  value : (vs.get v).isAddress = false
  unlabelled : vs.Unlabelled v

lemma Variables.Grows.isAddress_eq (g : vs.Grows vs') (h : vs.Has v) :
    (vs'.get v).isAddress = (vs.get v).isAddress := by
  have hk : (vs'.get v).kind = (vs.get v).kind := g.kind_eq h
  simp only [Variable.isAddress, hk]

lemma Variables.Readable.grows (h : vs.Readable v) (g : vs.Grows vs') : vs'.Readable v :=
  ⟨g.has h.has, (g.isAddress_eq h.has).trans h.value, g.unlabelled h.has h.unlabelled⟩

/-- Operations of the host that give no result. -/
inductive ClassEnv.IsVoid (env : ClassEnv) : String → Prop
  | setVariable : IsVoid env env.options.remote.setVariable
  | sendEvent : IsVoid env env.options.remote.sendEvent
  | setter (f : FieldRef) : IsVoid env (env.md.fieldSetter env.options f)
  | setElement (array elem : TypeRef) : IsVoid env
    (Host.Signature.render (env.ident array) "Set" ["SystemInt32", env.ident elem] "SystemVoid")
  | method (m : MethodRef) (notCtor : (env.md.method m).isCtor = false)
    (result : env.md.kind (env.md.method m).result = .void) :
    IsVoid env (env.md.methodSignature env.options m)

namespace Piece

/-- The signature of a host operation is a text, and an operation without a slot for its result has
none.  A source is the method's own. -/
def Named (env : MethodEnv) (vs : Variables) : Piece → Prop
  | invoke signature _ output =>
    vs.Has signature ∧ vs.kind signature = .constant ∧ ∃ text,
      (vs.get signature).value = some (.text text) ∧ (output = none → env.IsVoid text)
  | source method _ => method = env.number
  | _ => True

structure Legal (env : MethodEnv) (vs : Variables) (q : Piece) : Prop where
  readable : ∀ v ∈ q.vars, vs.Readable v
  named : q.Named env vs

variable {env : MethodEnv} {vs vs' : Variables} {q : Piece}

lemma Named.grows (h : q.Named env vs) (g : vs.Grows vs') : q.Named env vs' := by
  cases q with
  | invoke c ins out =>
    obtain ⟨hc, hk, text, ht, hvoid⟩ := h
    exact ⟨g.has hc, (g.kind_eq hc).trans hk, text, (g.value_eq hc).trans ht, hvoid⟩
  | source => exact h
  | _ => trivial

lemma Legal.grows (h : q.Legal env vs) (g : vs.Grows vs') : q.Legal env vs' :=
  ⟨fun v hv => (h.readable v hv).grows g, h.named.grows g⟩

end Piece

namespace Draft

def placed (d : Draft) (l : Label) : Nat := d.ops.toList.count (.mark l)

/-- The second draft continues the code of the first one by some pieces. -/
structure Continues (env : MethodEnv) (d d' : Draft) (pieces : List Piece) : Prop where
  vars : d.vars.Grows d'.vars
  ops : d'.ops.toList = d.ops.toList ++ pieces.flatMap Piece.ops
  legal : ∀ q ∈ pieces, q.Legal env d'.vars

namespace Continues

variable {env : MethodEnv} {d d' d'' : Draft} {ps qs : List Piece} {l : Label}

lemma refl (env : MethodEnv) (d : Draft) : d.Continues env d [] :=
  ⟨.refl _, by simp, by simp⟩

lemma trans (h : d.Continues env d' ps) (h' : d'.Continues env d'' qs) :
    d.Continues env d'' (ps ++ qs) := by
  refine ⟨h.vars.trans h'.vars, ?_, fun q hq => ?_⟩
  · rw [h'.ops, h.ops, List.flatMap_append, List.append_assoc]
  · rcases List.mem_append.1 hq with hq | hq
    · exact (h.legal q hq).grows h'.vars
    · exact h'.legal q hq

lemma placed_eq (h : d.Continues env d' ps) (l : Label) :
    d'.placed l = d.placed l + (ps.flatMap Piece.marks).count l := by
  rw [placed, placed, h.ops, List.count_append, List.count_flatMap, List.count_flatMap]
  congr 2
  exact List.map_congr_left fun q _ => q.count_mark_ops l

lemma placed_of_unmarked (h : d.Continues env d' ps) (hm : ∀ q ∈ ps, q.marks = []) (l : Label) :
    d'.placed l = d.placed l := by
  rw [h.placed_eq, List.flatMap_eq_nil_iff.2 hm, List.count_nil, Nat.add_zero]

end Continues

end Draft

/-! ## What is needed -/

namespace Frame

variable {s s' : Frame} {held held' : List VarRef} {x : VarRef}

def waiting (s : Frame) : List VarRef := s.merges.flatMap (·.2)

def Keeps (s : Frame) (held : List VarRef) (x : VarRef) : Prop :=
  s.draft.vars.Has x ∧ (s.draft.vars.kind x = .temporary →
    ∃ v ∈ held ++ s.waiting, 0 < s.draft.vars.load v x)

lemma Keeps.mono (h : s.Keeps held x) (hh : ∀ v ∈ held, v ∈ held') : s.Keeps held' x := by
  refine ⟨h.1, fun hk => ?_⟩
  obtain ⟨v, hv, hl⟩ := h.2 hk
  refine ⟨v, ?_, hl⟩
  rcases List.mem_append.1 hv with hv | hv
  · exact List.mem_append_left _ (hh v hv)
  · exact List.mem_append_right _ hv

lemma Keeps.later (h : s.Keeps held x) (g : s.draft.vars.Grows s'.draft.vars)
    (hm : s'.merges = s.merges) : s'.Keeps held x := by
  refine ⟨g.has h.1, fun hk => ?_⟩
  obtain ⟨v, hv, hl⟩ := h.2 ((g.kind_eq h.1).symm.trans hk)
  refine ⟨v, by rwa [Frame.waiting, hm], ?_⟩
  have hhas : s.draft.vars.Has v := by
    by_contra hnot
    -- only the variable itself could stand for a read of it
    have hkind := Variables.kind_default hnot
    have hvx : v = x := by
      by_contra hne
      simp [Variables.load, hkind, hne] at hl
    exact hnot (hvx ▸ h.1)
  rwa [Variables.load_eq_of_kind_eq (g.kind_eq hhas)]

lemma keeps_of_mem (hh : s.draft.vars.Has x) (hx : x ∈ held) : s.Keeps held x := by
  refine ⟨hh, fun hk => ⟨x, by simp [hx], ?_⟩⟩
  rw [Variables.load_self (Variables.plain_of_temporary hk)]
  exact Nat.one_pos

lemma keeps_of_waiting (hh : s.draft.vars.Has x) (hx : x ∈ s.waiting) : s.Keeps held x := by
  refine ⟨hh, fun hk => ⟨x, by simp [hx], ?_⟩⟩
  rw [Variables.load_self (Variables.plain_of_temporary hk)]
  exact Nat.one_pos

end Frame

/-! ## Code that computes -/

def Variables.IsTemp (vs : Variables) (v : VarRef) : Prop := vs.Has v ∧ vs.kind v = .temporary

lemma Variables.Grows.isTemp (g : vs.Grows vs') (h : vs.IsTemp v) : vs'.IsTemp v :=
  ⟨g.has h.1, (g.kind_eq h.1).trans h.2⟩

lemma Variables.IsTemp.readable (h : vs.IsTemp v) : vs.Readable v :=
  ⟨h.1, Variable.isAddress_of_temporary h.2, by simp [Variables.Unlabelled, h.2]⟩

namespace Frame

def Between (s s' : Frame) (l : Label) : Prop :=
  s.draft.labelCount ≤ l.index ∧ l.index < s'.draft.labelCount

/-- A piece of a computation.  It spares the temporaries that are needed. -/
structure Quiet (held : List VarRef) (W : VarRef → Prop) (s s' : Frame) (q : Piece) : Prop where
  isLocal : q.IsLocal
  writes : ∀ v ∈ q.writes, s'.draft.vars.IsTemp v ∧ ¬ s.Keeps held v ∨ W v
  targets : ∀ l ∈ q.targets, s.Between s' l

def stock (s : Frame) : Variables × Scratch := (s.draft.vars, s.scratch)

/-- Merge slots were not read or released, and the pool did not hand them out again. -/
structure Untouched (s s' : Frame) : Prop where
  get_eq : ∀ v ∈ s.waiting, s.draft.vars.IsTemp v → s'.draft.vars.get v = s.draft.vars.get v
  dealt : ∃ given, Scratch.Deals given s.stock s'.stock ∧ ∀ v ∈ given, v ∉ s.waiting

def Closed (pieces : List Piece) : Prop :=
  ∀ q ∈ pieces, ∀ l ∈ q.targets, ∃ q' ∈ pieces, l ∈ q'.marks

/-- Labels made between two frames are placed once, others not at all. -/
structure Settles (s s' : Frame) : Prop where
  fresh : ∀ l, s.Between s' l → s'.draft.placed l = s.draft.placed l + 1
  known : ∀ l, ¬ s.Between s' l → s'.draft.placed l = s.draft.placed l

/-- The second frame follows from the first one by a computation that writes only variables in `W` and
temporaries that neither `held` nor a merge slot refers to, and perhaps by other entries of the
operand stack. -/
structure Rearranges (env : MethodEnv) (held : List VarRef) (W : VarRef → Prop) (s s' : Frame) :
    Prop where
  labels : s.draft.labelCount ≤ s'.draft.labelCount
  draft : s'.draft = { s.draft with
    vars := s'.draft.vars, ops := s'.draft.ops, labelCount := s'.draft.labelCount }
  rest : s' = { s with draft := s'.draft, scratch := s'.scratch, stack := s'.stack }
  settles : Settles s s'
  untouched : Untouched s s'
  code : ∃ pieces, s.draft.Continues env s'.draft pieces ∧ Closed pieces ∧
    ∀ q ∈ pieces, Quiet held W s s' q

structure Computes (env : MethodEnv) (held : List VarRef) (W : VarRef → Prop) (s s' : Frame) : Prop
    extends Rearranges env held W s s' where
  stack_eq : s'.stack = s.stack

variable {env : MethodEnv} {held held' : List VarRef} {W W' : VarRef → Prop} {s s' s'' : Frame}
  {q : Piece} {l : Label}

lemma untouched_of_stock (h : s'.stock = s.stock) : Untouched s s' :=
  ⟨fun _ _ _ => by rw [show s'.draft.vars = s.draft.vars from congrArg Prod.fst h],
    [], h ▸ .done, by simp⟩

lemma Untouched.refl (s : Frame) : Untouched s s := untouched_of_stock rfl

lemma Untouched.trans_of_subset (h : Untouched s s') (h' : Untouched s' s'')
    (hw : ∀ v ∈ s.waiting, v ∈ s'.waiting) (g : s.draft.vars.Grows s'.draft.vars) :
    Untouched s s'' := by
  obtain ⟨given, hd, hg⟩ := h.dealt
  obtain ⟨given', hd', hg'⟩ := h'.dealt
  refine ⟨fun v hv ht => ?_, given ++ given', hd.append hd', fun v hv hwait => ?_⟩
  · rw [h'.get_eq v (hw v hv) (g.isTemp ht), h.get_eq v hv ht]
  · rcases List.mem_append.1 hv with hv | hv
    · exact hg v hv hwait
    · exact hg' v hv (hw v hwait)

lemma Untouched.trans (h : Untouched s s') (h' : Untouched s' s'') (hm : s'.merges = s.merges)
    (g : s.draft.vars.Grows s'.draft.vars) : Untouched s s'' :=
  h.trans_of_subset h' (fun v hv => by rwa [waiting, hm]) g

lemma Untouched.congr {t t' : Frame} (h : Untouched s s') (hw : t.waiting = s.waiting)
    (hs : t.stock = s.stock) (hs' : t'.stock = s'.stock) : Untouched t t' := by
  have hv : t.draft.vars = s.draft.vars := congrArg Prod.fst hs
  have hv' : t'.draft.vars = s'.draft.vars := congrArg Prod.fst hs'
  refine ⟨?_, ?_⟩
  · rw [hw, hv, hv']
    exact h.get_eq
  · rw [hw, hs, hs']
    exact h.dealt

lemma between_trans (h : s.draft.labelCount ≤ s'.draft.labelCount)
    (h' : s'.draft.labelCount ≤ s''.draft.labelCount) :
    s.Between s'' l ↔ s.Between s' l ∨ s'.Between s'' l := by
  simp only [Between]
  omega

lemma Closed.append {ps qs : List Piece} (hp : Closed ps) (hq : Closed qs) : Closed (ps ++ qs) := by
  intro q hmem l hl
  rcases List.mem_append.1 hmem with h | h
  · obtain ⟨q', h', hl'⟩ := hp q h l hl
    exact ⟨q', List.mem_append_left qs h', hl'⟩
  · obtain ⟨q', h', hl'⟩ := hq q h l hl
    exact ⟨q', List.mem_append_right ps h', hl'⟩

lemma Quiet.later (h : Quiet held W s s' q) (g : s'.draft.vars.Grows s''.draft.vars)
    (hl : s'.draft.labelCount ≤ s''.draft.labelCount) : Quiet held W s s'' q := by
  refine ⟨h.isLocal, fun v hv => (h.writes v hv).imp_left fun ht => ⟨g.isTemp ht.1, ht.2⟩, ?_⟩
  exact fun l hm => ⟨(h.targets l hm).1, (h.targets l hm).2.trans_le hl⟩

lemma Quiet.sooner (h : Quiet held W s' s'' q) (g : s.draft.vars.Grows s'.draft.vars)
    (hm : s'.merges = s.merges) (hl : s.draft.labelCount ≤ s'.draft.labelCount) :
    Quiet held W s s'' q := by
  refine ⟨h.isLocal, fun v hv => (h.writes v hv).imp_left fun ht => ⟨ht.1, fun hk => ?_⟩, ?_⟩
  · exact ht.2 (hk.later g hm)
  · exact fun l hm => ⟨hl.trans (h.targets l hm).1, (h.targets l hm).2⟩

lemma Quiet.mono (h : Quiet held W s s' q) (hh : ∀ v ∈ held', v ∈ held)
    (hW : ∀ v, W v → W' v ∨ s'.draft.vars.IsTemp v ∧ ¬ s.Keeps held' v) : Quiet held' W' s s' q := by
  refine { h with writes := fun v hv => ?_ }
  rcases h.writes v hv with ht | hw
  · exact .inl ⟨ht.1, fun hk => ht.2 (hk.mono hh)⟩
  · exact (hW v hw).symm

namespace Settles

lemma of_count_eq (hl : s'.draft.labelCount = s.draft.labelCount)
    (hp : ∀ l, s'.draft.placed l = s.draft.placed l) : Settles s s' := by
  refine ⟨fun l hb => ?_, fun l _ => hp l⟩
  simp only [Between] at hb
  omega

lemma trans (h : Settles s s') (h' : Settles s' s'')
    (hl : s.draft.labelCount ≤ s'.draft.labelCount)
    (hl' : s'.draft.labelCount ≤ s''.draft.labelCount) : Settles s s'' := by
  refine ⟨fun l hb => ?_, fun l hb => ?_⟩
  · rcases (between_trans hl hl').1 hb with hb | hb
    · have hn : ¬ s'.Between s'' l := fun hb' => absurd hb.2 (Nat.not_lt.2 hb'.1)
      rw [h'.known l hn, h.fresh l hb]
    · have hn : ¬ s.Between s' l := fun hb' => absurd hb'.2 (Nat.not_lt.2 hb.1)
      rw [h'.fresh l hb, h.known l hn]
  · rw [between_trans hl hl', not_or] at hb
    rw [h'.known l hb.2, h.known l hb.1]

end Settles

namespace Rearranges

lemma vars (h : Rearranges env held W s s') : s.draft.vars.Grows s'.draft.vars := by
  obtain ⟨ps, hps, -⟩ := h.code
  exact hps.vars

lemma refl (env : MethodEnv) (held : List VarRef) (W : VarRef → Prop) (s : Frame) :
    Rearranges env held W s s :=
  ⟨le_rfl, rfl, rfl, .of_count_eq rfl fun _ => rfl, .refl s, [], .refl env _, by simp [Closed],
    by simp⟩

lemma trans (h : Rearranges env held W s s') (h' : Rearranges env held W s' s'') :
    Rearranges env held W s s'' := by
  obtain ⟨ps, hps, hcp, hqp⟩ := h.code
  obtain ⟨qs, hqs, hcq, hqq⟩ := h'.code
  refine ⟨h.labels.trans h'.labels, ?_, ?_, h.settles.trans h'.settles h.labels h'.labels,
    h.untouched.trans h'.untouched (by rw [h.rest]) hps.vars, ps ++ qs, hps.trans hqs,
    hcp.append hcq, fun q hq => ?_⟩
  · rw [h'.draft, h.draft]
  · rw [h'.rest, h.rest]
  · rcases List.mem_append.1 hq with hq | hq
    · exact (hqp q hq).later h'.vars h'.labels
    · exact (hqq q hq).sooner h.vars (by rw [h.rest]) h.labels

instance : Std.Refl (Rearranges env held W) := ⟨refl env held W⟩

instance : IsTrans Frame (Rearranges env held W) := ⟨fun _ _ _ => trans⟩

lemma mono (h : Rearranges env held W s s') (hh : ∀ v ∈ held', v ∈ held)
    (hW : ∀ v, W v → W' v ∨ s'.draft.vars.IsTemp v ∧ ¬ s.Keeps held' v) :
    Rearranges env held' W' s s' := by
  obtain ⟨ps, hps, hc, hq⟩ := h.code
  exact ⟨h.labels, h.draft, h.rest, h.settles, h.untouched, ps, hps, hc,
    fun q hm => (hq q hm).mono hh hW⟩

lemma merges_eq (h : Rearranges env held W s s') : s'.merges = s.merges := by rw [h.rest]

lemma labels_eq (h : Rearranges env held W s s') : s'.labels = s.labels := by rw [h.rest]

lemma cursor_eq (h : Rearranges env held W s s') : s'.cursor = s.cursor := by rw [h.rest]

lemma current_eq (h : Rearranges env held W s s') : s'.current = s.current := by rw [h.rest]

end Rearranges

namespace Computes

lemma refl (env : MethodEnv) (held : List VarRef) (W : VarRef → Prop) (s : Frame) :
    Computes env held W s s :=
  ⟨.refl env held W s, rfl⟩

lemma trans (h : Computes env held W s s') (h' : Computes env held W s' s'') : Computes env held W s s'' :=
  ⟨h.toRearranges.trans h'.toRearranges, h'.stack_eq.trans h.stack_eq⟩

instance : Std.Refl (Computes env held W) := ⟨refl env held W⟩

instance : IsTrans Frame (Computes env held W) := ⟨fun _ _ _ => trans⟩

lemma mono (h : Computes env held W s s') (hh : ∀ v ∈ held', v ∈ held)
    (hW : ∀ v, W v → W' v ∨ s'.draft.vars.IsTemp v ∧ ¬ s.Keeps held' v) :
    Computes env held' W' s s' :=
  ⟨h.toRearranges.mono hh hW, h.stack_eq⟩

end Computes

end Frame

/-! ## Code of a rule -/

def MethodEnv.IsSlot (env : MethodEnv) (vs : Variables) (v : VarRef) : Prop :=
  vs.Has v ∧ (Variables.Fixed (vs.kind v) ∨ vs.kind v = .localSlot ∧ v ∈ env.locals)

lemma MethodEnv.IsSlot.grows {env : MethodEnv} (h : env.IsSlot vs v) (g : vs.Grows vs') :
    env.IsSlot vs' v := by
  refine ⟨g.has h.1, ?_⟩
  rw [g.kind_eq h.1]
  exact h.2

def ClassEnv.Callable (env : ClassEnv) (m : MethodRef) : Prop :=
  env.naming.contains (.method m) = true ∧ (env.md.method m).body.isSome

namespace Frame

/-- The label stands for an offset of the method, or for a method. -/
def Entered (s : Frame) (l : Label) : Prop :=
  (∃ offset, (offset, l) ∈ s.labels) ∨ ∃ m, (m, l) ∈ s.draft.methodLabels

/-- The label was made between two frames, and not for another method. -/
def MadeHere (s s' : Frame) (l : Label) : Prop :=
  s.Between s' l ∧ ∀ m, (m, l) ∈ s'.draft.methodLabels → (m, l) ∈ s.draft.methodLabels

/-- A label that belongs to the method: a fresh one, one known to the frame, or the label of the
method's end. -/
def Own (env : MethodEnv) (s s' : Frame) (l : Label) : Prop :=
  MadeHere s s' l ∨ (∃ offset, (offset, l) ∈ s.labels) ∨ l = env.returnLabel

/-- The tables of the second frame continue those of the first one.  Only methods that have a name and a
body are asked for. -/
structure Tables (env : MethodEnv) (s s' : Frame) : Prop where
  vars : s.draft.vars.Grows s'.draft.vars
  labelCount : s.draft.labelCount ≤ s'.draft.labelCount
  labels : ∀ e ∈ s'.labels, e ∈ s.labels ∨
    MadeHere s s' e.2 ∧ env.isTarget e.1 = true ∧ ∀ e' ∈ s.labels, e'.1 ≠ e.1
  keepLabels : ∀ e ∈ s.labels, e ∈ s'.labels
  methodLabel : ∀ m l, s.draft.methodLabels.lookup m = some l →
    s'.draft.methodLabels.lookup m = some l
  keepMethods : ∀ e ∈ s.draft.methodLabels, e ∈ s'.draft.methodLabels
  methodLabels : ∀ e ∈ s'.draft.methodLabels, e ∈ s.draft.methodLabels ∨
    s.Between s' e.2 ∧ e.1 ∈ s'.draft.requested
  requested : s.draft.requested <+: s'.draft.requested
  distinct : s.draft.requested.Nodup → s'.draft.requested.Nodup
  callable : ∀ m ∈ s'.draft.requested, m ∈ s.draft.requested ∨ env.Callable m
  served : s'.draft.served = s.draft.served
  names : s'.draft.methodNames = s.draft.methodNames
  calls : ∀ c ∈ s.draft.calls, c ∈ s'.draft.calls
  started : s.current.isSome → s'.current.isSome

structure Proper (env : MethodEnv) (s s' : Frame) (q : Piece) : Prop where
  isInner : q.IsInner
  writes : ∀ v ∈ q.writes, s'.draft.vars.IsTemp v ∨ env.IsSlot s'.draft.vars v
  targets : ∀ l ∈ q.targets, Own env s s' l
  calls : ∀ a callee after, q = .call a callee after →
    s'.draft.vars.Has a ∧ s'.draft.vars.kind a = .labelAddress after ∧
      ∃ m, s'.draft.methodLabels.lookup m = some callee ∧ (env.method, m) ∈ s'.draft.calls

structure Labelled (s : Frame) : Prop where
  made : ∀ l, s.Entered l → l.index < s.draft.labelCount
  placed : ∀ l : Label, s.draft.labelCount ≤ l.index → s.draft.placed l = 0
  offsets : (s.labels.map Prod.fst).Nodup
  labels : (s.labels.map Prod.snd).Nodup
  methods : (s.draft.methodLabels.map Prod.fst).Nodup
  methodLabels : (s.draft.methodLabels.map Prod.snd).Nodup
  apart : ∀ offset m l, (offset, l) ∈ s.labels → (m, l) ∉ s.draft.methodLabels

/-- Labels made between two frames are placed once unless they are entered in a table, and others not
at all. -/
structure Accounts (s s' : Frame) : Prop where
  labelled : s'.Labelled
  fresh : ∀ l, s.Between s' l → ¬ s'.Entered l → s'.draft.placed l = s.draft.placed l + 1
  known : ∀ l, ¬ s.Between s' l ∨ s'.Entered l → s'.draft.placed l = s.draft.placed l

/-- The second frame follows from the first one by steps of a rule. -/
structure Grows (env : MethodEnv) (s s' : Frame) : Prop extends Tables env s s' where
  accounts : s.Labelled → Accounts s s'
  code : ∃ pieces, s.draft.Continues env s'.draft pieces ∧ ∀ q ∈ pieces, Proper env s s' q

variable {env : MethodEnv} {held : List VarRef} {W : VarRef → Prop} {s s' s'' : Frame} {q : Piece}
  {l : Label}

/-- A new key has been entered in a table with a new label. -/
lemma nodup_enter {α : Type} {table : List (α × Label)} {k : α} (hkey : ∀ e ∈ table, e.1 ≠ k)
    (hlabel : ∀ e ∈ table, e.2 ≠ l) (hkeys : (table.map Prod.fst).Nodup)
    (hlabels : (table.map Prod.snd).Nodup) :
    (((k, l) :: table).map Prod.fst).Nodup ∧ (((k, l) :: table).map Prod.snd).Nodup := by
  constructor
  · exact List.nodup_cons.2 ⟨by simpa using fun a hin => hkey (k, a) hin rfl, hkeys⟩
  · exact List.nodup_cons.2 ⟨by simpa using fun a hin => hlabel (a, l) hin rfl, hlabels⟩

lemma Labelled.ne_new (h : s.Labelled) (hl : s.Entered l) : l ≠ ⟨s.draft.labelCount⟩ := fun e =>
  absurd (h.made l hl) (by simp [e])

/-- The next label has been made and entered, and nothing has been placed. -/
lemma Labelled.enter (h : s.Labelled) (hcount : s'.draft.labelCount = s.draft.labelCount + 1)
    (hplaced : ∀ l, s'.draft.placed l = s.draft.placed l)
    (hentered : ∀ l, s'.Entered l ↔ s.Entered l ∨ l = ⟨s.draft.labelCount⟩)
    (hoffsets : (s'.labels.map Prod.fst).Nodup ∧ (s'.labels.map Prod.snd).Nodup)
    (hmethods : (s'.draft.methodLabels.map Prod.fst).Nodup ∧
      (s'.draft.methodLabels.map Prod.snd).Nodup)
    (hapart : ∀ offset m l, (offset, l) ∈ s'.labels → (m, l) ∉ s'.draft.methodLabels) :
    Accounts s s' := by
  refine ⟨⟨fun l hl => ?_, fun l hl => ?_, hoffsets.1, hoffsets.2, hmethods.1, hmethods.2, hapart⟩,
    fun l hb hn => ?_, fun l _ => hplaced l⟩
  · rw [hcount]
    rcases (hentered l).1 hl with hl | rfl
    · exact Nat.lt_succ_of_lt (h.made l hl)
    · exact Nat.lt_succ_self _
  · rw [hplaced]
    exact h.placed l (by omega)
  · have hindex : l.index = s.draft.labelCount := by
      have := hb.1
      have := hb.2
      omega
    exact absurd ((hentered l).2 (.inr (by rw [← hindex]))) hn

lemma MadeHere.later (h : MadeHere s s' l) (t : Tables env s' s'') : MadeHere s s'' l := by
  refine ⟨⟨h.1.1, h.1.2.trans_le t.labelCount⟩, fun m hl => ?_⟩
  rcases t.methodLabels _ hl with hl | hb
  · exact h.2 m hl
  · exact absurd h.1.2 (Nat.not_lt.2 hb.1.1)

lemma MadeHere.sooner (h : MadeHere s' s'' l) (t : Tables env s s') : MadeHere s s'' l := by
  refine ⟨⟨t.labelCount.trans h.1.1, h.1.2⟩, fun m hl => ?_⟩
  rcases t.methodLabels _ (h.2 m hl) with hl | hb
  · exact hl
  · exact absurd hb.1.2 (Nat.not_lt.2 h.1.1)

lemma Own.later (h : Own env s s' l) (t : Tables env s' s'') : Own env s s'' l :=
  h.imp_left fun hf => hf.later t

lemma Own.sooner (h : Own env s' s'' l) (t : Tables env s s') (t' : Tables env s' s'') :
    Own env s s'' l := by
  rcases h with hf | ⟨offset, hl⟩ | h
  · exact .inl (hf.sooner t)
  · rcases t.labels _ hl with hl | ⟨hf, -⟩
    · exact .inr (.inl ⟨offset, hl⟩)
    · exact .inl (hf.later t')
  · exact .inr (.inr h)

lemma Proper.later (h : Proper env s s' q) (t : Tables env s' s'') : Proper env s s'' q := by
  refine ⟨h.isInner, fun v hv => ?_, fun l hl => (h.targets l hl).later t,
    fun a callee after hq => ?_⟩
  · exact (h.writes v hv).imp (fun ht => t.vars.isTemp ht) (fun hs => hs.grows t.vars)
  · obtain ⟨ha, hk, m, hm, hc⟩ := h.calls a callee after hq
    exact ⟨t.vars.has ha, (t.vars.kind_eq ha).trans hk, m, t.methodLabel m callee hm, t.calls _ hc⟩

lemma Proper.sooner (h : Proper env s' s'' q) (t : Tables env s s') (t' : Tables env s' s'') :
    Proper env s s'' q :=
  { h with targets := fun l hl => (h.targets l hl).sooner t t' }

namespace Tables

lemma of_eq (hv : s.draft.vars.Grows s'.draft.vars)
    (hd : s'.draft = { s.draft with
      vars := s'.draft.vars, ops := s'.draft.ops, labelCount := s'.draft.labelCount })
    (hn : s.draft.labelCount ≤ s'.draft.labelCount) (hl : s'.labels = s.labels)
    (hc : s.current.isSome → s'.current.isSome) : Tables env s s' := by
  have hm : s'.draft.methodLabels = s.draft.methodLabels := by rw [hd]
  have hr : s'.draft.requested = s.draft.requested := by rw [hd]
  refine ⟨hv, hn, fun e he => .inl (hl ▸ he), fun e he => hl ▸ he, fun m l h => hm ▸ h,
    fun e he => hm ▸ he, fun e he => .inl (hm ▸ he), ?_, fun h => hr ▸ h,
    fun m h => .inl (hr ▸ h), ?_, ?_, ?_, hc⟩
  · rw [hr]
  · rw [hd]
  · rw [hd]
  · intro c hc
    rw [hd]
    exact hc

lemma refl (env : MethodEnv) (s : Frame) : Tables env s s := .of_eq (.refl _) rfl le_rfl rfl id

lemma trans (h : Tables env s s') (h' : Tables env s' s'') : Tables env s s'' := by
  refine ⟨h.vars.trans h'.vars, h.labelCount.trans h'.labelCount, fun e he => ?_,
    fun e he => h'.keepLabels e (h.keepLabels e he),
    fun m l hl => h'.methodLabel m l (h.methodLabel m l hl),
    fun e he => h'.keepMethods e (h.keepMethods e he), fun e he => ?_,
    h.requested.trans h'.requested, fun hn => h'.distinct (h.distinct hn), fun m hm => ?_,
    h'.served.trans h.served, h'.names.trans h.names, fun c hc => h'.calls c (h.calls c hc),
    fun hs => h'.started (h.started hs)⟩
  · rcases h'.labels e he with he | ⟨hf, ht, hk⟩
    · exact (h.labels e he).imp_right fun hn => ⟨hn.1.later h', hn.2⟩
    · exact .inr ⟨hf.sooner h, ht, fun e' he' => hk e' (h.keepLabels e' he')⟩
  · rcases h'.methodLabels e he with he | he
    · exact (h.methodLabels e he).imp_right fun hb =>
        ⟨⟨hb.1.1, hb.1.2.trans_le h'.labelCount⟩, h'.requested.subset hb.2⟩
    · exact .inr ⟨⟨h.labelCount.trans he.1.1, he.1.2⟩, he.2⟩
  · rcases h'.callable m hm with hm | hm
    · exact h.callable m hm
    · exact .inr hm

lemma entered_iff (t : Tables env s s') (hl : l.index < s.draft.labelCount) :
    s'.Entered l ↔ s.Entered l := by
  constructor
  · rintro (⟨offset, h⟩ | ⟨m, h⟩)
    · rcases t.labels _ h with h | ⟨hf, -⟩
      · exact .inl ⟨offset, h⟩
      · exact absurd hl (Nat.not_lt.2 hf.1.1)
    · rcases t.methodLabels _ h with h | hb
      · exact .inr ⟨m, h⟩
      · exact absurd hl (Nat.not_lt.2 hb.1.1)
  · rintro (⟨offset, h⟩ | ⟨m, h⟩)
    · exact .inl ⟨offset, t.keepLabels _ h⟩
    · exact .inr ⟨m, t.keepMethods _ h⟩

end Tables

lemma Labelled.of_tables (h : s.Labelled) (hl : s'.labels = s.labels)
    (hm : s'.draft.methodLabels = s.draft.methodLabels)
    (hn : s.draft.labelCount ≤ s'.draft.labelCount)
    (hp : ∀ l : Label, s'.draft.labelCount ≤ l.index → s'.draft.placed l = 0) : s'.Labelled := by
  refine ⟨fun l hin => ?_, hp, hl ▸ h.offsets, hl ▸ h.labels, hm ▸ h.methods,
    hm ▸ h.methodLabels, ?_⟩
  · rw [Entered, hl, hm] at hin
    exact (h.made l hin).trans_le hn
  · rw [hl, hm]
    exact h.apart

lemma Accounts.trans (h : Accounts s s') (h' : Accounts s' s'') (t : Tables env s s')
    (t' : Tables env s' s'') : Accounts s s'' := by
  refine ⟨h'.labelled, fun l hb he => ?_, fun l hl => ?_⟩
  · rcases (between_trans t.labelCount t'.labelCount).1 hb with hb | hb
    · have hn : ¬ s'.Between s'' l := fun hb' => absurd hb.2 (Nat.not_lt.2 hb'.1)
      rw [t'.entered_iff hb.2] at he
      rw [h'.known l (.inl hn), h.fresh l hb he]
    · have hn : ¬ s.Between s' l := fun hb' => absurd hb'.2 (Nat.not_lt.2 hb.1)
      rw [h'.fresh l hb he, h.known l (.inl hn)]
  · by_cases hlt : l.index < s'.draft.labelCount
    · have hn : ¬ s'.Between s'' l := fun hb => absurd hlt (Nat.not_lt.2 hb.1)
      rw [h'.known l (.inl hn)]
      refine h.known l (hl.imp (fun hb hb' => hb ?_) (t'.entered_iff hlt).1)
      exact (between_trans t.labelCount t'.labelCount).2 (.inl hb')
    · have hn : ¬ s.Between s' l := fun hb => hlt hb.2
      rw [← h.known l (.inl hn)]
      refine h'.known l (hl.imp_left fun hb hb' => hb ?_)
      exact (between_trans t.labelCount t'.labelCount).2 (.inr hb')

namespace Grows

lemma trans (h : Grows env s s') (h' : Grows env s' s'') : Grows env s s'' := by
  obtain ⟨ps, hps, hp⟩ := h.code
  obtain ⟨qs, hqs, hq⟩ := h'.code
  refine ⟨h.toTables.trans h'.toTables, fun hl => ?_, ps ++ qs, hps.trans hqs, fun q hmem => ?_⟩
  · have ha := h.accounts hl
    exact ha.trans (h'.accounts ha.labelled) h.toTables h'.toTables
  · rcases List.mem_append.1 hmem with hmem | hmem
    · exact (hp q hmem).later h'.toTables
    · exact (hq q hmem).sooner h.toTables h'.toTables

lemma of_settles (t : Tables env s s') (hl : s'.labels = s.labels)
    (hm : s'.draft.methodLabels = s.draft.methodLabels) (h : Settles s s')
    (hc : ∃ pieces, s.draft.Continues env s'.draft pieces ∧ ∀ q ∈ pieces, Proper env s s' q) :
    Grows env s s' := by
  refine ⟨t, fun hs => ⟨hs.of_tables hl hm t.labelCount fun l hl => ?_, fun l hb _ => h.fresh l hb,
    fun l hk => h.known l fun hb => ?_⟩, hc⟩
  · rw [h.known l fun hb => absurd hb.2 (Nat.not_lt.2 hl)]
    exact hs.placed l (t.labelCount.trans hl)
  · rcases hk with hk | hk
    · exact hk hb
    · rw [Entered, hl, hm] at hk
      exact absurd (hs.made l hk) (Nat.not_lt.2 hb.1)

lemma refl (env : MethodEnv) (s : Frame) : Grows env s s :=
  .of_settles (.refl env s) rfl rfl (.of_count_eq rfl fun _ => rfl) ⟨[], .refl env _, by simp⟩

instance : Std.Refl (Grows env) := ⟨refl env⟩

instance : IsTrans Frame (Grows env) := ⟨fun _ _ _ => trans⟩

end Grows

lemma Rearranges.grows (h : Rearranges env held W s s')
    (hW : ∀ v, W v → s.draft.vars.IsTemp v ∨ env.IsSlot s.draft.vars v) : Grows env s s' := by
  obtain ⟨ps, hps, -, hq⟩ := h.code
  have hml : s'.draft.methodLabels = s.draft.methodLabels := by rw [h.draft]
  refine .of_settles (.of_eq h.vars h.draft h.labels h.labels_eq ?_) h.labels_eq hml h.settles
    ⟨ps, hps, fun q hmem => ?_⟩
  · rw [h.current_eq]
    exact id
  · have hq := hq q hmem
    refine ⟨hq.isLocal.isInner, fun v hv => ?_, fun l hl => .inl ⟨hq.targets l hl, ?_⟩,
      fun a callee after e => ?_⟩
    · rcases hq.writes v hv with ht | hw
      · exact .inl ht.1
      · exact (hW v hw).imp (fun ht => h.vars.isTemp ht) fun hs => hs.grows h.vars
    · exact fun m hm => hml ▸ hm
    · have := hq.isLocal
      rw [e] at this
      exact this.elim

end Frame

/-! ## Single steps

The primitives of a lowering either change variables and pool only, or record a known list of pieces
as well.  What they do is admitted by both relations, and by others that later modules add. -/

namespace Frame

def withVars (s : Frame) (vs : Variables) (pool : Scratch) : Frame :=
  { s with draft := { s.draft with vars := vs }, scratch := pool }

structure Silent (s s' : Frame) : Prop where
  vars : s.draft.vars.Grows s'.draft.vars
  untouched : Untouched s s'
  rest : s' = s.withVars s'.draft.vars s'.scratch

/-- Only variables and the pool have changed, and pieces have been recorded. -/
structure Records (env : MethodEnv) (pieces : List Piece) (s s' : Frame) : Prop where
  code : s.draft.Continues env s'.draft pieces
  untouched : Untouched s s'
  rest : s' = { s with
    draft := { s.draft with vars := s'.draft.vars, ops := s'.draft.ops }, scratch := s'.scratch }

/-- The relation admits changes of variables and pool. -/
class Admits (R : Frame → Frame → Prop) : Prop extends Std.Refl R, IsTrans Frame R where
  silent : ∀ {s s' : Frame}, Silent s s' → R s s'

variable {env : MethodEnv} {held : List VarRef} {W : VarRef → Prop} {s s' s'' : Frame}
  {ps qs : List Piece}

lemma Silent.trans (h : Silent s s') (h' : Silent s' s'') : Silent s s'' :=
  ⟨h.vars.trans h'.vars, h.untouched.trans h'.untouched (by rw [h.rest]; rfl) h.vars,
    by rw [h'.rest, h.rest]; rfl⟩

instance : Admits Silent where
  refl s := ⟨.refl _, .refl s, rfl⟩
  trans _ _ _ := Silent.trans
  silent := id

def Any (_ _ : Frame) : Prop := True

instance : Admits Any where
  refl _ := trivial
  trans _ _ _ _ _ := trivial
  silent _ := trivial

lemma silent_withVars {pool : Scratch} (g : s.draft.vars.Grows vs)
    (h : Untouched s (s.withVars vs pool)) : Silent s (s.withVars vs pool) := ⟨g, h, rfl⟩

lemma Untouched.of_tends {pool : Scratch} (h : Scratch.Tends s.stock (vs, pool))
    (hget : ∀ v ∈ s.waiting, s.draft.vars.IsTemp v → vs.get v = s.draft.vars.get v) :
    Untouched s (s.withVars vs pool) := ⟨hget, [], h.deals, by simp⟩

lemma silent_add {x : Variable} (hx : x.kind ≠ .temporary) :
    Silent s (s.withVars (s.draft.vars.add x).2 s.scratch) :=
  silent_withVars (Variables.grows_add _ x)
    (.of_tends (.add x hx) fun _ _ ht => Variables.get_add_old ht.1 x)

lemma Records.vars (h : Records env ps s s') : s.draft.vars.Grows s'.draft.vars := h.code.vars

lemma Records.trans (h : Records env ps s s') (h' : Records env qs s' s'') :
    Records env (ps ++ qs) s s'' :=
  ⟨h.code.trans h'.code, h.untouched.trans h'.untouched (by rw [h.rest]) h.vars,
    by rw [h'.rest, h.rest]⟩

lemma Silent.records (h : Silent s s') : Records env [] s s' := by
  refine ⟨⟨h.vars, ?_, by simp⟩, h.untouched, ?_⟩
  · rw [h.rest]
    simp [withVars]
  · rw [h.rest]
    rfl

lemma Records.settles (h : Records env ps s s') (hm : ∀ q ∈ ps, q.marks = []) : Settles s s' :=
  .of_count_eq (by rw [h.rest]) (h.code.placed_of_unmarked hm)

lemma Records.computes (h : Records env ps s s') (hc : Closed ps) (hm : ∀ q ∈ ps, q.marks = [])
    (hq : ∀ q ∈ ps, Quiet held W s s' q) : Computes env held W s s' := by
  refine ⟨⟨?_, ?_, ?_, h.settles hm, h.untouched, ps, h.code, hc, hq⟩, ?_⟩ <;> rw [h.rest]

lemma Records.grows (h : Records env ps s s') (hm : ∀ q ∈ ps, q.marks = [])
    (hq : ∀ q ∈ ps, Proper env s s' q) : Grows env s s' := by
  refine .of_settles (.of_eq h.vars ?_ ?_ ?_ ?_) ?_ ?_ (h.settles hm) ⟨ps, h.code, hq⟩ <;>
    rw [h.rest]
  exact id

instance : Admits (Computes env held W) where
  silent h := h.records.computes (by simp [Closed]) (by simp) (by simp)

instance : Admits (Rearranges env held W) where
  silent h := (Admits.silent (R := Computes env held W) h).toRearranges

instance : Admits (Grows env) where
  silent h := h.records.grows (by simp) (by simp)

end Frame

lemma Lower.Meets.keep {α : Type} {R : Frame → Frame → Prop} {E : CompileError → Prop}
    {m : Lower α} {env : MethodEnv} {s : Frame} {Q : α → Frame → Prop} (h : Meets R E m env s Q) :
    Meets Frame.Any E m env s fun a s' => R s s' ∧ Q a s' :=
  h.imp (fun _ _ => trivial) (fun _ => id) fun _ _ hR hQ => ⟨hR, hQ⟩

lemma Lower.Meets.quietly {α : Type} {R : Frame → Frame → Prop} [Frame.Admits R]
    {E : CompileError → Prop} {m : Lower α} {env : MethodEnv} {s : Frame} {Q : α → Frame → Prop}
    (h : Meets Frame.Silent E m env s Q) :
    Meets R E m env s fun a s' => Frame.Silent s s' ∧ Q a s' :=
  h.imp (fun _ g => Frame.Admits.silent g) (fun _ => id) fun _ _ g hQ => ⟨g, hQ⟩

end FlatHeap
