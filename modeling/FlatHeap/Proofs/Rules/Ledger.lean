import FlatHeap.Proofs.Rules.Classes

/-!
# The labels of a class

A label is made in one place and placed in another: that of a method when the method is first
called, that of a call when the call is recorded, and those of a body while it is lowered.  The
ledger of a draft says which of them have been placed.  A label of a method is placed when the
method has been lowered, and every other label once it has been made; so when no method is left to
lower, every label is placed exactly once.  That no method is left at the end follows from counting:
methods are asked for at most once, and there are no more of them than the class knows.

The ledger also keeps that operations refer only to labels and variables that have been made, and
that the code behind the label of a lowered method is the lowering of its body.
-/

namespace FlatHeap

open Lower FlatHeap.Frame
open Bytecode (Instruction)

namespace Op

variable {d : Draft} {op : Op}

def target? : Op → Option Label
  | jump l | jumpIfFalse l => some l
  | _ => none

/-- Number of a method and offset that what follows comes from. -/
def source? : Op → Option (Nat × Nat)
  | source method offset => some (method, offset)
  | _ => none

/-- What the operation refers to has been made, and its variable may have a slot. -/
structure Linked (d : Draft) (op : Op) : Prop where
  var : ∀ v, op.var? = some v → d.vars.Has v ∧ (d.vars.get v).isAddress = false ∧
    ∀ l, d.vars.kind v = .labelAddress l → l.index < d.labelCount
  target : ∀ l, op.target? = some l → l.index < d.labelCount
  source : ∀ e, op.source? = some e → e.1 < d.methodNames.length

lemma Linked.extends {d' : Draft} (h : op.Linked d) (he : d.Extends d') : op.Linked d' := by
  refine ⟨fun v hv => ?_, fun l hl => (h.target l hl).trans_le he.labelCount,
    fun e hs => (h.source e hs).trans_le he.names.length_le⟩
  obtain ⟨hhas, hvalue, hlabel⟩ := h.var v hv
  refine ⟨he.vars.has hhas, (he.vars.isAddress_eq hhas).trans hvalue, fun l hl => ?_⟩
  exact (hlabel l ((he.vars.kind_eq hhas).symm.trans hl)).trans_le he.labelCount

lemma linked_of_var {v : VarRef} (hop : op.target? = none) (hv : op.var? = some v)
    (hhas : d.vars.Has v) (hvalue : (d.vars.get v).isAddress = false) (hkind : d.vars.Unlabelled v) :
    op.Linked d := by
  refine ⟨fun w hw => ?_, fun l hl => ?_, fun e he => by cases op <;> cases he; cases hv⟩
  · obtain rfl := Option.some.inj (hv.symm.trans hw)
    exact ⟨hhas, hvalue, fun l hl => absurd hl (hkind l)⟩
  · rw [hop] at hl
    cases hl

lemma linked_of_none (hv : op.var? = none) (hop : op.target? = none) (hs : op.source? = none) :
    op.Linked d := by
  refine ⟨fun v h => ?_, fun l h => ?_, fun e h => ?_⟩
  · rw [hv] at h
    cases h
  · rw [hop] at h
    cases h
  · rw [hs] at h
    cases h

lemma linked_of_target {l : Label} (hv : op.var? = none) (hop : op.target? = some l)
    (hl : l.index < d.labelCount) : op.Linked d := by
  refine ⟨fun v h => ?_, fun l' h => ?_, fun e he => by cases op <;> cases he; cases hop⟩
  · rw [hv] at h
    cases h
  · obtain rfl := Option.some.inj (hop.symm.trans h)
    exact hl

end Op

namespace Draft

variable {env : ClassEnv} {rules : Rulebook} {extra done : MethodRef → Prop} {d d' : Draft}
  {m : MethodRef} {l : Label}

@[simp] lemma ops_require (d : Draft) (m : MethodRef) : (d.require m).ops = d.ops := by
  unfold require
  split <;> rfl

@[simp] lemma served_require (d : Draft) (m : MethodRef) : (d.require m).served = d.served := by
  unfold require
  split <;> rfl

@[simp] lemma ops_methodLabel (d : Draft) (m : MethodRef) : (d.methodLabel m).2.ops = d.ops := by
  unfold methodLabel
  split <;> rfl

@[simp] lemma served_methodLabel (d : Draft) (m : MethodRef) :
    (d.methodLabel m).2.served = d.served := by
  unfold methodLabel
  split <;> rfl

@[simp] lemma requested_methodLabel (d : Draft) (m : MethodRef) :
    (d.methodLabel m).2.requested = d.requested := by
  unfold methodLabel
  split <;> rfl

/-- The code behind the label of a method is the lowering of its body. -/
def Holds (env : ClassEnv) (rules : Rulebook) (d : Draft) (m : MethodRef) : Prop :=
  ∃ code start l, ∃ d₁ : Draft, ∃ menv s₀ s, env.HasBody m code start ∧ (m, l) ∈ d.methodLabels ∧
    Lowering rules env (d₁.emit (.mark l)) m code start menv s₀ s ∧
    (s.draft.emit (.mark menv.returnLabel)).ret.Extends d

/-- The address that stops the machine is a constant of the draft. -/
structure HasHalt (d : Draft) : Prop where
  has : d.vars.Has halt
  kind : d.vars.kind halt = .constant
  value : (d.vars.get halt).value = some (.address Host.haltAddress)

lemma HasHalt.extends (h : d.HasHalt) (he : d.Extends d') : d'.HasHalt :=
  ⟨he.vars.has h.has, (he.vars.kind_eq h.has).trans h.kind, (he.vars.value_eq h.has).trans h.value⟩

/-- The books of a class.  `done` holds of the methods that have been lowered, and `extra` of what
gets a label without being asked for. -/
structure Ledger (env : ClassEnv) (rules : Rulebook) (extra done : MethodRef → Prop) (d : Draft) :
    Prop extends d.Sound where
  returnJump : d.vars.Has returnJump ∧ d.vars.kind returnJump = .returnJump
  halt : d.HasHalt
  linked : ∀ op ∈ d.ops.toList, op.Linked d
  distinct : d.requested.Nodup
  callable : ∀ m ∈ d.requested, env.Callable m
  asked : ∀ e ∈ d.methodLabels, e.1 ∈ d.requested ∨ extra e.1
  waiting : ∀ e ∈ d.methodLabels, ¬ done e.1 → d.placed e.2 = 0
  lowered : ∀ e ∈ d.methodLabels, done e.1 → d.placed e.2 = 1
  settled : ∀ l : Label, l.index < d.labelCount → (∀ m, (m, l) ∉ d.methodLabels) → d.placed l = 1
  holds : ∀ m, done m → d.Holds env rules m

lemma Holds.extends (h : d.Holds env rules m) (he : d.Extends d') : d'.Holds env rules m := by
  obtain ⟨code, start, l, d₁, menv, s₀, s, hbody, hm, hlower, hext⟩ := h
  exact ⟨code, start, l, d₁, menv, s₀, s, hbody, he.methods hm, hlower, hext.trans he⟩

namespace Ledger

lemma extend (h : d.Ledger env rules extra done) (hs : d'.Sound) (he : d.Extends d')
    (hm : d'.methodLabels = d.methodLabels) (hr : d'.requested = d.requested)
    (hold : ∀ l : Label, l.index < d.labelCount → d'.placed l = d.placed l)
    (hnew : ∀ l : Label, d.labelCount ≤ l.index → l.index < d'.labelCount → d'.placed l = 1)
    (hops : ∀ op ∈ d'.ops.toList, op ∈ d.ops.toList ∨ op.Linked d') :
    d'.Ledger env rules extra done := by
  have hplaced (e : MethodRef × Label) (hmem : e ∈ d'.methodLabels) :
      e ∈ d.methodLabels ∧ d'.placed e.2 = d.placed e.2 := by
    rw [hm] at hmem
    exact ⟨hmem, hold e.2 (h.made e hmem)⟩
  refine ⟨hs, ?_, h.halt.extends he, fun op hop => ?_, hr ▸ h.distinct, hr ▸ h.callable, ?_,
    fun e hmem hd => ?_, fun e hmem hd => ?_, fun l hl hfree => ?_,
    fun m hd => (h.holds m hd).extends he⟩
  · exact ⟨he.vars.has h.returnJump.1, (he.vars.kind_eq h.returnJump.1).trans h.returnJump.2⟩
  · rcases hops op hop with hop | hop
    · exact (h.linked op hop).extends he
    · exact hop
  · rw [hm, hr]
    exact h.asked
  · obtain ⟨hmem, heq⟩ := hplaced e hmem
    rw [heq, h.waiting e hmem hd]
  · obtain ⟨hmem, heq⟩ := hplaced e hmem
    rw [heq, h.lowered e hmem hd]
  · by_cases hlt : l.index < d.labelCount
    · rw [hold l hlt, h.settled l hlt fun m hmem => hfree m (hm ▸ hmem)]
    · exact hnew l (Nat.not_lt.1 hlt) hl

lemma linked_returnJump
    (h : d.vars.Has Draft.returnJump ∧ d.vars.kind Draft.returnJump = .returnJump) :
    ∀ op ∈ [Op.push Draft.returnJump, .copy, .jumpIndirect Draft.returnJump], op.Linked d := by
  have hvar {op : Op} (hop : op.target? = none) (hv : op.var? = some Draft.returnJump) :
      op.Linked d :=
    Op.linked_of_var hop hv h.1
      (by simp [Variable.isAddress, show (d.vars.get _).kind = _ from h.2])
      (by simp [Variables.Unlabelled, h.2])
  exact List.forall_mem_cons.2 ⟨hvar rfl rfl, List.forall_mem_cons.2
    ⟨Op.linked_of_none rfl rfl rfl, List.forall_mem_singleton.2 (hvar rfl rfl)⟩⟩

lemma linked_halt (h : d.Ledger env rules extra done) : (Op.push Draft.halt).Linked d :=
  Op.linked_of_var rfl rfl h.halt.has
    (by simp [Variable.isAddress, show (d.vars.get _).kind = _ from h.halt.kind])
    (by simp [Variables.Unlabelled, h.halt.kind])

lemma emitAll (h : d.Ledger env rules extra done) {ops : List Op} (hops : ∀ op ∈ ops, op.Linked d)
    (hmarks : ∀ l, .mark l ∉ ops) : (d.emitAll ops).Ledger env rules extra done := by
  have he := extends_emitAll d ops
  refine h.extend (h.toSound.emitAll fun l _ => hmarks l) he rfl rfl (fun l _ => ?_)
    (fun l hl hl' => absurd hl' (Nat.not_lt.2 hl)) fun op hop => ?_
  · rw [placed_emitAll, List.count_eq_zero.2 (hmarks l), Nat.add_zero]
  · rw [ops_emitAll, List.mem_append] at hop
    exact hop.imp_right fun hop => (hops op hop).extends he

lemma ret (h : d.Ledger env rules extra done) : d.ret.Ledger env rules extra done :=
  h.emitAll (linked_returnJump h.returnJump) (by simp)

lemma call (h : d.Ledger env rules extra done) {callee : Label} (hl : callee.index < d.labelCount) :
    (d.call callee).Ledger env rules extra done := by
  obtain ⟨hs, he⟩ := h.toSound.call callee
  set address : Variable := { type := .uint32, kind := .labelAddress ⟨d.labelCount⟩ } with haddress
  have hops : (d.call callee).ops.toList = d.ops.toList ++
      [.push (d.vars.add address).1, .jump callee, .mark ⟨d.labelCount⟩] := ops_emitAll _ _
  have hplaced (l : Label) : (d.call callee).placed l =
      d.placed l + if l = ⟨d.labelCount⟩ then 1 else 0 := by
    rw [placed, hops, List.count_append, placed]
    by_cases heq : l = ⟨d.labelCount⟩
    · simp [heq]
    · simp [heq, List.count_eq_zero]
  have hcount : (d.call callee).labelCount = d.labelCount + 1 := rfl
  refine h.extend hs he rfl rfl (fun l hl => ?_) (fun l hl hl' => ?_) fun op hop => ?_
  · rw [hplaced, if_neg, Nat.add_zero]
    rintro rfl
    exact absurd hl (lt_irrefl _)
  · obtain rfl : l = ⟨d.labelCount⟩ := by
      obtain ⟨k⟩ := l
      simp only at hl hl'
      rw [hcount] at hl'
      rw [show k = d.labelCount by omega]
    rw [hplaced, if_pos rfl, h.unplaced _ le_rfl]
  · rw [hops, List.mem_append] at hop
    refine hop.imp_right fun hop => ?_
    simp only [List.mem_cons, List.not_mem_nil, or_false] at hop
    rcases hop with rfl | rfl | rfl
    · have hget : (d.call callee).vars.get (d.vars.add address).1 = address :=
        Variables.get_add_new _ _
      refine ⟨fun v hv => ?_, by simp [Op.target?], by simp [Op.source?]⟩
      obtain rfl : (d.vars.add address).1 = v := Option.some.inj hv
      refine ⟨Variables.has_add_new _ _, by rw [hget]; rfl, fun l hk => ?_⟩
      rw [Variables.kind, hget] at hk
      obtain rfl : (⟨d.labelCount⟩ : Label) = l := by simpa [haddress] using hk
      exact Nat.lt_succ_self _
    · exact Op.linked_of_target rfl rfl (hl.trans (Nat.lt_succ_self _))
    · exact Op.linked_of_none rfl rfl rfl

lemma methodLabel (h : d.Ledger env rules extra done) (hm : m ∈ d.requested ∨ extra m) :
    (d.methodLabel m).2.Ledger env rules extra done := by
  obtain ⟨hs, he, -, -⟩ := h.toSound.methodLabel m
  revert hs he
  unfold Draft.methodLabel
  split
  · exact fun _ _ => h
  rename_i hnone
  intro hs he
  have hnew : ¬ done m := by
    intro hd
    obtain ⟨-, -, l, -, -, -, -, -, hl, -⟩ := h.holds m hd
    simpa using List.lookup_eq_none_iff.1 hnone _ hl
  refine ⟨hs, h.returnJump, h.halt.extends he, fun op hop => (h.linked op hop).extends he,
    h.distinct, h.callable, List.forall_mem_cons.2 ⟨hm, h.asked⟩,
    List.forall_mem_cons.2 ⟨fun _ => h.unplaced _ le_rfl, h.waiting⟩,
    List.forall_mem_cons.2 ⟨fun hd => absurd hd hnew, h.lowered⟩, fun l hl hfree => ?_,
    fun m hd => (h.holds m hd).extends he⟩
  refine h.settled l ?_ fun m hmem => hfree m (List.mem_cons_of_mem _ hmem)
  have hne : l ≠ ⟨d.labelCount⟩ := by
    rintro rfl
    exact hfree m List.mem_cons_self
  obtain ⟨k⟩ := l
  have hlt : k < d.labelCount + 1 := hl
  have hk : k ≠ d.labelCount := fun hk => hne (congrArg Label.mk hk)
  exact Nat.lt_of_le_of_ne (Nat.le_of_lt_succ hlt) hk

lemma require (h : d.Ledger env rules extra done) (hm : env.Callable m) :
    (d.require m).Ledger env rules extra done := by
  obtain ⟨hs, he⟩ := h.toSound.require m
  revert hs he
  unfold Draft.require
  split_ifs with hin
  · exact fun _ _ => h
  intro hs he
  have hfree : m ∉ d.requested := by simpa using hin
  refine ⟨hs, h.returnJump, h.halt.extends he, fun op hop => (h.linked op hop).extends he, ?_,
    fun x hx => ?_, fun e hmem => ?_, h.waiting, h.lowered, h.settled,
    fun m hd => (h.holds m hd).extends he⟩
  · exact List.nodup_append.2 ⟨h.distinct, List.nodup_singleton m, by
      rintro a ha _ hb rfl
      exact hfree (List.mem_singleton.1 hb ▸ ha)⟩
  · rcases List.mem_append.1 hx with hx | hx
    · exact h.callable x hx
    · exact List.mem_singleton.1 hx ▸ hm
  · exact (h.asked e hmem).imp_left (List.mem_append_left _)

lemma nextMethod (h : d.Ledger env rules extra done) :
    d.nextMethod.2.Ledger env rules extra done := by
  obtain ⟨hs, he⟩ := h.toSound.nextMethod
  revert hs he
  unfold Draft.nextMethod
  split
  · intro hs he
    exact ⟨hs, h.returnJump, h.halt.extends he, fun op hop => (h.linked op hop).extends he,
      h.distinct, h.callable, h.asked, h.waiting, h.lowered, h.settled,
      fun m hd => (h.holds m hd).extends he⟩
  · exact fun _ _ => h

end Ledger

/-! ## Entry points -/

/-- Start an entry point: leave the address that stops the machine, and run what remains of the
constructor first if the entry point is that of the start event. -/
def openEntry (env : ClassEnv) (ctor : Option Label) (d : Draft) (name : String) : Draft :=
  let d := d.emitAll [.entry name, .push halt]
  match ctor with
  | some l => if name = env.options.startEvent then d.call l else d
  | none => d

lemma addEntry_eq (env : ClassEnv) (ctor : Option Label) (d : Draft) (name : String)
    (m : MethodRef) : d.addEntry env ctor name m =
      (((d.openEntry env ctor name).require m).methodLabel m).2.emitAll
        [.jump (((d.openEntry env ctor name).require m).methodLabel m).1] := by
  have hcomm (d : Draft) : ((d.methodLabel m).2.emit (.jump (d.methodLabel m).1)).require m =
      ((d.require m).methodLabel m).2.emitAll [.jump ((d.require m).methodLabel m).1] := by
    rw [← emit_eq]
    by_cases hin : m ∈ d.requested
    · cases hlabel : d.methodLabels.lookup m <;>
        simp [Draft.require, Draft.methodLabel, emit, newLabel, hin, hlabel]
    · cases hlabel : d.methodLabels.lookup m <;>
        simp [Draft.require, Draft.methodLabel, emit, newLabel, hin, hlabel]
  exact hcomm (d.openEntry env ctor name)

namespace Ledger

lemma openEntry (h : d.Ledger env rules extra done) {ctor : Option Label}
    (hctor : ∀ l ∈ ctor, l.index < d.labelCount) (name : String) :
    (d.openEntry env ctor name).Ledger env rules extra done := by
  have hentry : (d.emitAll [.entry name, .push Draft.halt]).Ledger env rules extra done := by
    refine h.emitAll (List.forall_mem_cons.2 ⟨Op.linked_of_none rfl rfl rfl, ?_⟩) (by simp)
    exact List.forall_mem_singleton.2 h.linked_halt
  cases ctor with
  | none => exact hentry
  | some l =>
    unfold Draft.openEntry
    dsimp only
    split_ifs
    · exact hentry.call (hctor l rfl)
    · exact hentry

lemma addEntry (h : d.Ledger env rules extra done) {ctor : Option Label}
    (hctor : ∀ l ∈ ctor, l.index < d.labelCount) (name : String) (hm : env.Callable m) :
    (d.addEntry env ctor name m).Ledger env rules extra done := by
  have hasked := (h.openEntry hctor name).require hm
  have hin : m ∈ ((d.openEntry env ctor name).require m).requested := by
    unfold Draft.require
    split_ifs with hin
    · simpa using hin
    · simp
  rw [addEntry_eq]
  refine (hasked.methodLabel (.inl hin)).emitAll (List.forall_mem_singleton.2 ?_) (by simp)
  exact Op.linked_of_target rfl rfl (hasked.toSound.methodLabel m).2.2.1

lemma addStart (h : d.Ledger env rules extra done) {ctor : Label}
    (hctor : ctor.index < d.labelCount) : (d.addStart env ctor).Ledger env rules extra done := by
  have hentry : (d.openEntry env none env.options.startEvent).Ledger env rules extra done :=
    h.openEntry (by simp) _
  exact (hentry.call hctor).ret

end Ledger

end Draft

/-! ## Bodies -/

lemma Piece.linked {env : MethodEnv} {s₀ s : Frame} {q : Piece} (hlegal : q.Legal env s.draft.vars)
    (hproper : Proper env s₀ s q) (hs : s.Labelled) (hstart : s₀.labels = [])
    (hreturn : env.returnLabel.index < s.draft.labelCount)
    (hnumbered : env.number < s.draft.methodNames.length)
    (hmarks : ∀ l ∈ q.marks, l.index < s.draft.labelCount) : ∀ op ∈ q.ops, op.Linked s.draft := by
  have hpush {v : VarRef} (hv : v ∈ q.vars) : (Op.push v).Linked s.draft := by
    have hread := hlegal.readable v hv
    exact Op.linked_of_var rfl rfl hread.has hread.value hread.unlabelled
  have htarget {l : Label} (hl : l ∈ q.targets) : l.index < s.draft.labelCount := by
    rcases hproper.targets l hl with hmade | ⟨offset, hl⟩ | rfl
    · exact hmade.1.2
    · simp [hstart] at hl
    · exact hreturn
  cases q with
  | copy x y =>
    exact List.forall_mem_cons.2 ⟨hpush (by simp [Piece.vars]), List.forall_mem_cons.2
      ⟨hpush (by simp [Piece.vars]), List.forall_mem_singleton.2 (Op.linked_of_none rfl rfl rfl)⟩⟩
  | invoke signature inputs output =>
    obtain ⟨hhas, hkind, -⟩ := hlegal.named
    intro op hop
    simp only [Piece.ops, List.mem_append, List.mem_map, List.mem_singleton] at hop
    rcases hop with (⟨v, hv, rfl⟩ | ⟨v, hv, rfl⟩) | rfl
    · exact hpush (List.mem_append_left _ hv)
    · exact hpush (List.mem_append_right _ hv)
    · exact Op.linked_of_var rfl rfl hhas
        (by simp [Variable.isAddress, show (s.draft.vars.get signature).kind = _ from hkind])
        (by simp [Variables.Unlabelled, hkind])
  | test condition l =>
    exact List.forall_mem_cons.2 ⟨hpush (by simp [Piece.vars]), List.forall_mem_singleton.2
      (Op.linked_of_target rfl rfl (htarget (by simp [Piece.targets])))⟩
  | jump l =>
    exact List.forall_mem_singleton.2
      (Op.linked_of_target rfl rfl (htarget (by simp [Piece.targets])))
  | call a callee after =>
    obtain ⟨hhas, hkind, m, hm, -⟩ := hproper.calls a callee after rfl
    refine List.forall_mem_cons.2 ⟨⟨fun v hv => ?_, by simp [Op.target?], by simp [Op.source?]⟩,
      List.forall_mem_cons.2
      ⟨Op.linked_of_target rfl rfl ?_, List.forall_mem_singleton.2 (Op.linked_of_none rfl rfl rfl)⟩⟩
    · obtain rfl : a = v := Option.some.inj hv
      refine ⟨hhas, ?_, fun l hl => ?_⟩
      · simp [Variable.isAddress, show (s.draft.vars.get a).kind = _ from hkind]
      · obtain rfl : after = l := by simpa [hkind] using hl
        exact hmarks after (by simp [Piece.marks])
    · exact hs.made callee (.inr ⟨m, mem_of_lookup hm⟩)
  | mark l => exact List.forall_mem_singleton.2 (Op.linked_of_none rfl rfl rfl)
  | source method offset =>
    refine List.forall_mem_singleton.2 ⟨by simp [Op.var?], by simp [Op.target?], fun e he => ?_⟩
    obtain rfl := Option.some.inj he
    have hnumber : method = env.number := hlegal.named
    exact hnumber ▸ hnumbered
  | enter name => exact hproper.isInner.elim
  | ret => exact hproper.isInner.elim

namespace Draft

variable {env : ClassEnv} {rules : Rulebook} {extra done : MethodRef → Prop} {d d' : Draft}
  {m : MethodRef} {label : Label} {code : List Instruction} {start : Nat} {menv : MethodEnv}
  {s₀ s : Frame}

lemma Lowering.placed_spec (h : Lowering rules env (d.emit (.mark label)) m code start menv s₀ s)
    (hrules : rules.IsStandard) (hd : d.Sound) (hlabel : label.index < d.labelCount) :
    let d' := (s.draft.emit (.mark menv.returnLabel)).ret
    (∀ l : Label, l.index < d.labelCount → d'.placed l = d.placed l + if label = l then 1 else 0) ∧
      ∀ l : Label, d.labelCount ≤ l.index → l.index < d'.labelCount →
        ((∃ x, (x, l) ∈ d'.methodLabels) → d'.placed l = 0) ∧
        ((∀ x, (x, l) ∉ d'.methodLabels) → d'.placed l = 1) := by
  intro d'
  obtain ⟨lost, s₁, -, hended, -⟩ := h.ended hrules
  have hland := hended.landed
  have hcount : s₀.draft.labelCount = d.labelCount + 1 := by rw [h.enters.rest]; rfl
  have hstart (l : Label) : s₀.draft.placed l = d.placed l + if label = l then 1 else 0 := by
    have hops : s₀.draft.ops = (d.emitAll [.mark label]).ops := by rw [h.enters.rest, emit_eq]
    rw [placed, hops, ← placed, placed_emitAll]
    congr 1
    by_cases heq : label = l <;> simp [heq]
  have hend (l : Label) :
      d'.placed l = s.draft.placed l + if menv.returnLabel = l then 1 else 0 := by
    show ((s.draft.emit (.mark menv.returnLabel)).emitAll _).placed l = _
    rw [placed_emitAll, emit_eq, placed_emitAll, Nat.add_assoc]
    congr 1
    by_cases heq : menv.returnLabel = l <;> simp [heq]
  have hreturn : menv.returnLabel.index = d.labelCount := congrArg Label.index h.enters.returnLabel
  -- labels from before the body was entered
  have hold {l : Label} (hl : l.index ≤ d.labelCount) : s.draft.placed l = s₀.draft.placed l :=
    hland.known l (.inl fun hb => absurd hb.1 (by omega))
  refine ⟨fun l hl => ?_, fun l hle hlt => ⟨?_, fun hfree => ?_⟩⟩
  · have hne : menv.returnLabel ≠ l := by
      rintro rfl
      omega
    rw [hend, if_neg hne, Nat.add_zero, hold hl.le, hstart]
  · rintro ⟨x, hx⟩
    have hne : menv.returnLabel ≠ l := by
      rintro rfl
      rcases hland.tables.methodLabels _ hx with hx | ⟨hb, -⟩
      · rw [h.enters.rest] at hx
        exact absurd (hd.made _ hx) (Nat.not_lt.2 hle)
      · exact absurd hb.1 (by rw [hcount]; simp only; omega)
    have hlne : label ≠ l := by
      rintro rfl
      omega
    rw [hend, if_neg hne, Nat.add_zero, hland.known l (.inr ⟨x, hx⟩), hstart, if_neg hlne,
      Nat.add_zero, hd.unplaced l hle]
  · by_cases heq : menv.returnLabel = l
    · subst heq
      have hlne : label ≠ menv.returnLabel := by
        rintro rfl
        omega
      rw [hend, if_pos rfl, hold hreturn.le, hstart, if_neg hlne, hd.unplaced _ hle]
    · have hbetween : s₀.Between s l := by
        refine ⟨?_, hlt⟩
        have hne : l.index ≠ d.labelCount := by
          intro hl
          exact heq (h.enters.returnLabel.trans (congrArg Label.mk hl.symm))
        omega
      rw [hend, if_neg heq, Nat.add_zero]
      by_cases hentered : s.Entered l
      · rcases hentered with ⟨offset, ho⟩ | ⟨x, hx⟩
        · exact hland.passed _ ho id
        · exact absurd hx (hfree x)
      · exact hland.fresh l hbetween hentered

lemma Lowering.linked (h : Lowering rules env (d.emit (.mark label)) m code start menv s₀ s)
    (hrules : rules.IsStandard) (hops : ∀ op ∈ d.ops.toList, op.Linked d) :
    ∀ op ∈ s.draft.ops.toList, op.Linked s.draft := by
  obtain ⟨lost, s₁, -, hended, -⟩ := h.ended hrules
  have hland := hended.landed
  obtain ⟨pieces, hcode, hproper⟩ := hland.code
  have hreturn := h.returnLabel_lt.trans_le hland.tables.labelCount
  have hmarks : ∀ q ∈ pieces, ∀ l ∈ q.marks, l.index < s.draft.labelCount := by
    intro q hq l hl
    by_contra hlt
    have hzero := hland.labelled.placed l (Nat.not_lt.1 hlt)
    rw [hcode.placed_eq, Nat.add_eq_zero_iff, List.count_eq_zero] at hzero
    exact hzero.2 (List.mem_flatMap.2 ⟨q, hq, hl⟩)
  intro op hop
  rw [hcode.ops, List.mem_append] at hop
  rcases hop with hop | hop
  · have hops₀ : s₀.draft.ops = (d.emitAll [.mark label]).ops := by rw [h.enters.rest, emit_eq]
    rw [hops₀, ops_emitAll, List.mem_append, List.mem_singleton] at hop
    rcases hop with hop | rfl
    · have hmark : d.Extends (d.emit (.mark label)) := emit_eq d _ ▸ extends_emitAll d _
      exact (hops op hop).extends (hmark.trans (h.extends hrules))
    · exact Op.linked_of_none rfl rfl rfl
  · obtain ⟨q, hq, hop⟩ := List.mem_flatMap.1 hop
    have hnumbered : menv.number < s.draft.methodNames.length :=
      hland.tables.names ▸ h.enters.number_lt
    exact Piece.linked (hcode.legal q hq) (hproper q hq) hland.labelled hland.start hreturn hnumbered
      (hmarks q hq) op hop

lemma Lowering.linked_ret (h : Lowering rules env (d.emit (.mark label)) m code start menv s₀ s)
    (hrules : rules.IsStandard) (hops : ∀ op ∈ d.ops.toList, op.Linked d)
    (hjump : d.vars.Has returnJump ∧ d.vars.kind returnJump = .returnJump) :
    let d' := (s.draft.emit (.mark menv.returnLabel)).ret
    ∀ op ∈ d'.ops.toList, op.Linked d' := by
  intro d' op hop
  have hlast : s.draft.Extends d' := by
    show s.draft.Extends (s.draft.emit _).ret
    rw [emit_eq]
    exact (extends_emitAll _ _).trans (extends_ret _)
  have hvars := (h.extends hrules).vars.trans hlast.vars
  have hops' : d'.ops.toList = s.draft.ops.toList ++ [.mark menv.returnLabel] ++
      [.push returnJump, .copy, .jumpIndirect returnJump] := by
    show ((s.draft.emit (.mark menv.returnLabel)).emitAll _).ops.toList = _
    rw [ops_emitAll, emit_eq, ops_emitAll]
  rw [hops', List.mem_append, List.mem_append, List.mem_singleton] at hop
  rcases hop with (hop | rfl) | hop
  · exact (h.linked hrules hops op hop).extends hlast
  · exact Op.linked_of_none rfl rfl rfl
  · exact Ledger.linked_returnJump
      ⟨hvars.has hjump.1, (hvars.kind_eq hjump.1).trans hjump.2⟩ op hop

lemma Lowering.methodLabels_spec
    (h : Lowering rules env (d.emit (.mark label)) m code start menv s₀ s)
    (hrules : rules.IsStandard) (hd : d.Sound) :
    let d' := (s.draft.emit (.mark menv.returnLabel)).ret
    ∀ e ∈ d'.methodLabels, e ∈ d.methodLabels ∨ d.labelCount ≤ e.2.index ∧
      e.2.index < d'.labelCount ∧ e.1 ∈ d'.requested ∧ ∀ l, (e.1, l) ∉ d.methodLabels := by
  intro d' e he
  obtain ⟨lost, s₁, -, hended, -⟩ := h.ended hrules
  obtain ⟨hsound, hext⟩ := h.sound hrules
  have hmethods₀ : s₀.draft.methodLabels = d.methodLabels := by rw [h.enters.rest]; rfl
  have hcount₀ : s₀.draft.labelCount = d.labelCount + 1 := by rw [h.enters.rest]; rfl
  rcases hended.landed.tables.methodLabels e he with he' | ⟨hb, hr⟩
  · exact .inl (hmethods₀ ▸ he')
  have hle := hb.1
  refine .inr ⟨by omega, hb.2, hr, fun l hl => ?_⟩
  -- a method has one label
  have heq : e = (e.1, l) := List.inj_on_of_nodup_map hsound.methods he (hext.methods hl) rfl
  have hlt : e.2.index < d.labelCount := by
    rw [heq]
    exact hd.made _ hl
  omega

/-- **Lowering a body** places the label of its method, and adds the method to those that have been
lowered. -/
lemma Ledger.lowerBody (h : d.Ledger env rules extra done) (hrules : rules.IsStandard)
    (hfits : env.naming.Fits env.md) (hbody : env.HasBody m code start)
    (hm : (m, label) ∈ d.methodLabels) (hnew : ¬ done m)
    (hlower : d.lowerBody rules env m code start label = .ok d') :
    d'.Ledger env rules extra (fun x => done x ∨ x = m) ∧ d.requested <+: d'.requested ∧
      d'.served = d.served := by
  have hlabel := h.made _ hm
  obtain ⟨menv, s₀, s, hl, rfl⟩ := lowerBody_ok hlower h.toSound hlabel hbody.portion hfits
  obtain ⟨hold, hmade⟩ := hl.placed_spec hrules h.toSound hlabel
  have hmethods := hl.methodLabels_spec hrules h.toSound
  obtain ⟨lost, s₁, -, hended, -⟩ := hl.ended hrules
  have htables := hended.landed.tables
  have hrequested₀ : s₀.draft.requested = d.requested := by rw [hl.enters.rest]; rfl
  obtain ⟨hsound, hext⟩ := hl.sound hrules
  set d' := (s.draft.emit (.mark menv.returnLabel)).ret
  have hext : d.Extends d' := by
    have hemit : d.Extends (d.emit (.mark label)) := emit_eq d _ ▸ extends_emitAll d _
    exact hemit.trans hext
  -- methods with new labels are others than those before
  have hfresh {x : MethodRef} (hx : ∀ l, (x, l) ∉ d.methodLabels) : ¬ (done x ∨ x = m) := by
    rintro (hd | rfl)
    · obtain ⟨-, -, l, -, -, -, -, -, hl, -⟩ := h.holds _ hd
      exact hx l hl
    · exact hx label hm
  -- the label that is placed belongs to no other method
  have hother {e : MethodRef × Label} (he : e ∈ d.methodLabels) (hne : e.1 ≠ m) :
      d'.placed e.2 = d.placed e.2 := by
    rw [hold e.2 (h.made e he), if_neg, Nat.add_zero]
    intro heq
    exact hne (congrArg Prod.fst (List.inj_on_of_nodup_map h.labels he hm heq.symm))
  refine ⟨⟨hsound, ?_, h.halt.extends hext, hl.linked_ret hrules h.linked h.returnJump, ?_,
    fun x hx => ?_, fun e he => ?_, fun e he hd => ?_, fun e he hd => ?_, fun l hl hfree => ?_,
    fun x hx => ?_⟩, hrequested₀ ▸ htables.requested, ?_⟩
  · exact ⟨hext.vars.has h.returnJump.1, (hext.vars.kind_eq h.returnJump.1).trans h.returnJump.2⟩
  · exact htables.distinct (hrequested₀ ▸ h.distinct)
  · rcases htables.callable x hx with hx | hx
    · exact h.callable x (hrequested₀ ▸ hx)
    · exact hl.enters.toClassEnv ▸ hx
  · rcases hmethods e he with he | ⟨-, -, hr, -⟩
    · exact (h.asked e he).imp_left fun hr => (hrequested₀ ▸ htables.requested).subset hr
    · exact .inl hr
  · rcases hmethods e he with he' | ⟨hle, hlt, -, -⟩
    · rw [not_or] at hd
      rw [hother he' hd.2, h.waiting e he' hd.1]
    · exact (hmade e.2 hle hlt).1 ⟨e.1, he⟩
  · rcases hmethods e he with he' | ⟨-, -, -, hx⟩
    · by_cases heq : e.1 = m
      · obtain rfl : e = (m, label) := List.inj_on_of_nodup_map h.methods he' hm heq
        rw [hold _ hlabel, if_pos rfl, h.waiting _ hm hnew]
      · rw [hother he' heq, h.lowered e he' (hd.resolve_right heq)]
    · exact absurd hd (hfresh hx)
  · by_cases hlt : l.index < d.labelCount
    · have hfree' (x : MethodRef) : (x, l) ∉ d.methodLabels := fun hx => hfree x (hext.methods hx)
      have hne : label ≠ l := by
        rintro rfl
        exact hfree' m hm
      rw [hold l hlt, if_neg hne, Nat.add_zero, h.settled l hlt hfree']
    · exact (hmade l (Nat.not_lt.1 hlt) hl).2 hfree
  · rcases hx with hx | rfl
    · exact (h.holds x hx).extends hext
    · exact ⟨code, start, label, d, menv, s₀, s, hbody, hext.methods hm, hl, .refl _⟩
  · exact htables.served.trans (by rw [hl.enters.rest]; rfl)

end Draft

end FlatHeap
