import FlatHeap.Proofs.Rules.Ledger

/-!
# Methods that are asked for

Methods are lowered in the order they were asked for, and each may ask for others.  When the list
has been worked off, every label of the class has been placed (`Draft.Finished`).  The entry points
come before all bodies, and bodies add none.
-/

namespace FlatHeap

open Bytecode (Instruction)

variable {init : Initializer}

lemma optionRel_imp {α β : Type} {R S : α → β → Prop} {a : Option α} {b : Option β}
    (h : Option.Rel R a b) (himp : ∀ a b, R a b → S a b) : Option.Rel S a b := by
  cases h with
  | some h => exact .some (himp _ _ h)
  | none => exact .none

def Op.entry? : Op → Option String
  | entry name => some name
  | _ => none

lemma Piece.entry?_eq_none {q : Piece} (h : q.IsInner) : ∀ op ∈ q.ops, op.entry? = none := by
  cases q with
  | invoke signature inputs output =>
    simp only [Piece.ops, List.mem_append, List.mem_map, List.mem_singleton]
    rintro op ((⟨v, -, rfl⟩ | ⟨v, -, rfl⟩) | rfl) <;> rfl
  | copy | test | jump | call | mark | source => simp [Piece.ops, Op.entry?]
  | enter | ret => exact h.elim

namespace Draft

variable {env : ClassEnv} {rules : Rulebook} {extra done base : MethodRef → Prop} {d d' d'' : Draft}
  {m : MethodRef} {label : Label} {code : List Instruction} {start : Nat}

def entryNames (d : Draft) : List String := d.ops.toList.filterMap Op.entry?

def Ends (d : Draft) : Prop := ∀ op ∈ d.ops.toList.getLast?, 0 < op.size

lemma entryNames_emitAll (d : Draft) (ops : List Op) :
    (d.emitAll ops).entryNames = d.entryNames ++ ops.filterMap Op.entry? := by
  rw [entryNames, ops_emitAll, List.filterMap_append, entryNames]

lemma entryNames_call (d : Draft) (l : Label) : (d.call l).entryNames = d.entryNames :=
  (entryNames_emitAll _ _).trans (List.append_nil _)

lemma entryNames_ret (d : Draft) : d.ret.entryNames = d.entryNames :=
  (entryNames_emitAll _ _).trans (List.append_nil _)

lemma ends_emitAll (d : Draft) (ops : List Op) {op : Op} (hop : 0 < op.size) :
    (d.emitAll (ops ++ [op])).Ends := by
  rw [Ends, ops_emitAll, ← List.append_assoc]
  simpa using hop

/-- What is done to a draft by the lowering of methods. -/
structure Follows (d d' : Draft) : Prop extends d.Extends d' where
  entryNames : d'.entryNames = d.entryNames
  ends : d.Ends → d'.Ends

lemma Follows.refl (d : Draft) : d.Follows d := ⟨.refl d, rfl, id⟩

lemma Follows.trans (h : d.Follows d') (h' : d'.Follows d'') : d.Follows d'' :=
  ⟨h.toExtends.trans h'.toExtends, h'.entryNames.trans h.entryNames, fun hd => h'.ends (h.ends hd)⟩

lemma follows_of_ops (he : d.Extends d') (hops : d'.ops = d.ops) : d.Follows d' := by
  refine ⟨he, ?_, ?_⟩
  · rw [entryNames, hops, entryNames]
  · rw [Ends, Ends, hops]
    exact id

lemma Lowering.follows {menv : MethodEnv} {s₀ s : Frame}
    (h : Lowering rules env (d.emit (.mark label)) m code start menv s₀ s)
    (hrules : rules.IsStandard) : d.Follows (s.draft.emit (.mark menv.returnLabel)).ret := by
  obtain ⟨lost, s₁, -, hended, -⟩ := h.ended hrules
  obtain ⟨pieces, hcode, hproper⟩ := hended.landed.code
  have hmark : d.Extends (d.emit (.mark label)) := emit_eq d _ ▸ extends_emitAll d _
  refine ⟨hmark.trans (h.sound hrules).2, ?_, fun _ => ends_emitAll _ [_, _] (by decide)⟩
  have hops₀ : s₀.draft.ops = (d.emitAll [.mark label]).ops := by rw [h.enters.rest, emit_eq]
  have hinner : (pieces.flatMap Piece.ops).filterMap Op.entry? = [] := by
    rw [List.filterMap_eq_nil_iff]
    intro op hop
    obtain ⟨q, hq, hop⟩ := List.mem_flatMap.1 hop
    exact Piece.entry?_eq_none (hproper q hq).isInner op hop
  have hs : s.draft.entryNames = d.entryNames := by
    rw [entryNames, hcode.ops, List.filterMap_append, hinner, List.append_nil, hops₀]
    exact (entryNames_emitAll d [.mark label]).trans (List.append_nil _)
  rw [entryNames_ret, emit_eq, entryNames_emitAll, hs]
  exact List.append_nil _

lemma follows_lowerBody (hd : d.Sound) (hrules : rules.IsStandard) (hfits : env.naming.Fits env.md)
    (hbody : env.HasBody m code start) (hlabel : label.index < d.labelCount)
    (hlower : d.lowerBody rules env m code start label = .ok d') : d.Follows d' := by
  obtain ⟨menv, s₀, s, hl, rfl⟩ := lowerBody_ok hlower hd hlabel hbody.portion hfits
  exact hl.follows hrules

namespace Ledger

lemma length_requested_le (h : d.Ledger env rules extra done) :
    d.requested.length ≤ env.md.methods.size := by
  have hlt : ∀ m ∈ d.requested, m.index < env.md.methods.size := by
    intro m hm
    by_contra hlt
    have hbody := (h.callable m hm).2
    rw [Metadata.method, Array.getD, dif_neg hlt] at hbody
    cases hbody
  have hmap : (d.requested.map MethodRef.index).Nodup :=
    h.distinct.map fun _ _ heq => congrArg MethodRef.mk heq
  have hsub : d.requested.map MethodRef.index ⊆ List.range env.md.methods.size := by
    intro k hk
    obtain ⟨m, hm, rfl⟩ := List.mem_map.1 hk
    exact List.mem_range.2 (hlt m hm)
  simpa using (hmap.subperm hsub).length_le

lemma congr (h : d.Ledger env rules extra done) {done' : MethodRef → Prop}
    (hdone : ∀ m, done m ↔ done' m) : d.Ledger env rules extra done' := by
  obtain rfl : done = done' := funext fun m => propext (hdone m)
  exact h

/-- **Taking up a method** that is asked for. -/
lemma lowerMethod (h : d.Ledger env rules extra (fun x => x ∈ d.requested.take d.served ∨ base x))
    (hrules : rules.IsStandard) (hfits : env.naming.Fits env.md)
    (hbase : ∀ x, base x → ¬ env.Callable x) (hm : d.requested[d.served]? = some m)
    (hlower : Draft.lowerMethod rules env d.nextMethod.2 m = .ok d') :
    d'.Ledger env rules extra (fun x => x ∈ d'.requested.take d'.served ∨ base x) ∧
      d'.served = d.served + 1 ∧ d'.served ≤ d'.requested.length ∧ d.Follows d' := by
  obtain ⟨code, hread, hlower⟩ := except_bind_eq_ok_iff.1 hlower
  have hmem : m ∈ d.requested := List.mem_of_getElem? hm
  have hnext : d.nextMethod.2 = { d with served := d.served + 1 } := by
    rw [Draft.nextMethod, hm]
  have htake : d.requested.take (d.served + 1) = d.requested.take d.served ++ [m] := by
    rw [List.take_add_one, hm]
    rfl
  have hnew : ¬ (m ∈ d.requested.take d.served ∨ base m) := by
    rintro (hin | hin)
    · have hnodup := h.distinct.sublist (List.take_sublist (d.served + 1) d.requested)
      rw [htake, List.nodup_append] at hnodup
      exact hnodup.2.2 m hin m List.mem_cons_self rfl
    · exact hbase m hin (h.callable m hmem)
  have hd₁ := h.nextMethod
  have hd₂ := hd₁.methodLabel (m := m) (.inl (by rwa [hnext]))
  obtain ⟨-, hext, hlt, hlabel⟩ := hd₁.toSound.methodLabel m
  obtain ⟨hdone, hprefix, hserved⟩ := hd₂.lowerBody hrules hfits (.method hread) hlabel hnew hlower
  rw [requested_methodLabel, hnext] at hprefix
  rw [served_methodLabel, hnext] at hserved
  have hlen : d.served + 1 ≤ d.requested.length := (List.getElem?_eq_some_iff.1 hm).1
  refine ⟨hdone.congr fun x => ?_, hserved, hserved ▸ hlen.trans hprefix.length_le, ?_⟩
  · obtain ⟨more, hmore⟩ := hprefix
    rw [hserved, ← hmore, List.take_append_of_le_length hlen, htake, List.mem_append,
      List.mem_singleton, or_right_comm]
  · have hops : (d.nextMethod.2.methodLabel m).2.ops = d.ops := by rw [ops_methodLabel, hnext]
    exact (follows_of_ops ((h.toSound.nextMethod).2.trans hext) hops).trans
      (follows_lowerBody hd₂.toSound hrules hfits (.method hread) hlt hlower)

/-- **The list of methods is worked off.** -/
lemma lowerRequested {fuel : Nat}
    (h : d.Ledger env rules extra (fun x => x ∈ d.requested.take d.served ∨ base x))
    (hrules : rules.IsStandard) (hfits : env.naming.Fits env.md)
    (hbase : ∀ x, base x → ¬ env.Callable x) (hserved : d.served ≤ d.requested.length)
    (hfuel : env.md.methods.size < fuel + d.served)
    (hlower : d.lowerRequested rules env fuel = .ok d') :
    d'.Ledger env rules extra (fun x => x ∈ d'.requested ∨ base x) ∧
      d'.served = d'.requested.length ∧ d.Follows d' := by
  induction fuel generalizing d with
  | zero =>
    have := h.length_requested_le
    omega
  | succ fuel ih =>
    rw [Draft.lowerRequested] at hlower
    cases hm : d.requested[d.served]? with
    | none =>
      have hnext : d.nextMethod = (none, d) := by rw [Draft.nextMethod, hm]
      rw [hnext] at hlower
      obtain rfl := Except.ok.inj hlower
      have hall : d.served = d.requested.length :=
        le_antisymm hserved (List.getElem?_eq_none_iff.1 hm)
      refine ⟨h.congr fun x => ?_, hall, .refl d⟩
      rw [hall, List.take_length]
    | some m =>
      have hnext : d.nextMethod = (some m, d.nextMethod.2) := by rw [Draft.nextMethod, hm]
      rw [hnext] at hlower
      obtain ⟨d₁, hmethod, hlower⟩ := except_bind_eq_ok_iff.1 hlower
      obtain ⟨h₁, hnext₁, hserved₁, hfollows⟩ := h.lowerMethod hrules hfits hbase hm hmethod
      obtain ⟨h', hserved', hfollows'⟩ := ih h₁ hserved₁ (by omega) hlower
      exact ⟨h', hserved', hfollows.trans hfollows'⟩

lemma lowerAll (h : d.Ledger env rules extra fun _ => False) (hrules : rules.IsStandard)
    (hfits : env.naming.Fits env.md) (hserved : d.served = 0)
    (hlower : d.lowerRequested rules env (env.md.methods.size + 1) = .ok d') :
    d'.Ledger env rules extra (· ∈ d'.requested) ∧ d'.served = d'.requested.length ∧
      d.Follows d' := by
  have hnone : d.Ledger env rules extra (fun x => x ∈ d.requested.take d.served ∨ False) :=
    h.congr fun m => by simp [hserved]
  obtain ⟨h', hserved', hfollows⟩ :=
    hnone.lowerRequested hrules hfits (by simp) (by simp [hserved]) (by omega) hlower
  exact ⟨h'.congr fun m => iff_of_eq (or_false _), hserved', hfollows⟩

/-- **What remains of the constructor** is lowered last, and may ask for other methods. -/
lemma lowerCtor (h : d.Ledger env rules extra (· ∈ d.requested)) (hrules : rules.IsStandard)
    (hfits : env.naming.Fits env.md) (hctor : ¬ env.Callable m)
    (hserved : d.served = d.requested.length) (hbody : env.HasBody m code start)
    (hm : (m, label) ∈ d.methodLabels) (hlower : d.lowerBody rules env m code start label = .ok d')
    (hrest : d'.lowerRequested rules env (env.md.methods.size + 1) = .ok d'') :
    d''.Ledger env rules extra (fun x => x ∈ d''.requested ∨ x = m) ∧ d.Follows d'' := by
  have hnew : m ∉ d.requested := fun hin => hctor (h.callable m hin)
  obtain ⟨h', hprefix, hserved'⟩ := h.lowerBody hrules hfits hbody hm hnew hlower
  have hfollows := follows_lowerBody h.toSound hrules hfits hbody (h.made _ hm) hlower
  obtain ⟨more, hmore⟩ := hprefix
  have htake : d'.requested.take d'.served = d.requested := by
    rw [hserved', hserved, ← hmore, List.take_left]
  have hall : d'.Ledger env rules extra (fun x => x ∈ d'.requested.take d'.served ∨ x = m) :=
    h'.congr fun x => by rw [htake]
  have hle : d'.served ≤ d'.requested.length := by
    rw [hserved', hserved, ← hmore, List.length_append]
    exact Nat.le_add_right _ _
  obtain ⟨h'', -, hfollows'⟩ := hall.lowerRequested hrules hfits
    (fun x (hx : x = m) => hx ▸ hctor) hle (by omega) hrest
  exact ⟨h'', hfollows.trans hfollows'⟩

end Ledger

/-! ## The start -/

lemma fieldVar_spec {f : FieldRef} {v : VarRef} (h : d.fieldVar env f = .ok (v, d')) :
    d.vars.Grows d'.vars ∧ d'.vars.kind v = .field f ∧ d' = { d with vars := d'.vars } := by
  unfold Draft.fieldVar at h
  split at h
  · rename_i v hv
    obtain ⟨rfl, rfl⟩ := Prod.mk.inj (Except.ok.inj h)
    exact ⟨.refl _, (Variables.findField?_spec hv).2, rfl⟩
  · obtain ⟨symbol, -, h⟩ := except_bind_eq_ok_iff.1 h
    obtain ⟨rfl, rfl⟩ := Prod.mk.inj (Except.ok.inj h)
    refine ⟨Variables.grows_add _ _, ?_, rfl⟩
    rw [Variables.kind]
    exact congrArg Variable.kind (Variables.get_add_new _ _)

lemma declareFields_spec {owner : TypeRef} (h : (Draft.start owner).declareFields env init = .ok d) :
    (Draft.start owner).vars.Grows d.vars ∧ d = { vars := d.vars } := by
  refine foldlM_induction
    (P := fun d => (Draft.start owner).vars.Grows d.vars ∧ d = { vars := d.vars })
    (fun d f d' _ hd hf => ?_) ⟨.refl _, rfl⟩ h
  obtain ⟨⟨v, d'⟩, hfield, hf⟩ := except_bind_eq_ok_iff.1 hf
  obtain rfl := Except.ok.inj hf
  obtain ⟨⟨v₁, d₁⟩, hvar, hfield⟩ := except_bind_eq_ok_iff.1 hfield
  obtain ⟨hgrows, hkind, hrest⟩ := fieldVar_spec hvar
  have hgrows := hd.1.trans hgrows
  have hrest : d₁ = { vars := d₁.vars } := hrest.trans (by rw [hd.2])
  cases hinit : init.initial.lookup f with
  | none =>
    rw [hinit] at hfield
    obtain ⟨rfl, rfl⟩ := Prod.mk.inj (Except.ok.inj hfield)
    exact ⟨hgrows, hrest⟩
  | some y =>
    rw [hinit] at hfield
    obtain ⟨rfl, rfl⟩ := Prod.mk.inj (Except.ok.inj hfield)
    refine ⟨⟨?_, fun w hw => ?_⟩, by rw [hrest]⟩
    · exact hgrows.size_le.trans (Variables.size_modify _ _ _).ge
    · -- none of the three variables there are at the start is a field
      have hne : w ≠ v₁ := by
        rintro rfl
        have hstart := (hgrows.kind_eq hw).symm.trans hkind
        obtain ⟨k⟩ := w
        have hk : k < 3 := hw
        interval_cases k <;> cases hstart
      rw [Variables.get_modify_of_ne hne, hgrows.same w hw]

lemma ledger_declareFields (h : (Draft.start env.owner).declareFields env init = .ok d) :
    d.Ledger env rules extra (fun _ => False) := by
  obtain ⟨hgrows, hrest⟩ := declareFields_spec h
  have hsound := sound_declareFields h
  have hjump : (Draft.start env.owner).vars.Has returnJump := show 1 < 3 by decide
  have hhalt : (Draft.start env.owner).vars.Has halt := show 2 < 3 by decide
  have hops : d.ops = #[] := by rw [hrest]
  have hcount : d.labelCount = 0 := by rw [hrest]
  have hlabels : d.methodLabels = [] := by rw [hrest]
  have hrequested : d.requested = [] := by rw [hrest]
  refine ⟨hsound, ⟨hgrows.has hjump, hgrows.kind_eq hjump⟩,
    ⟨hgrows.has hhalt, hgrows.kind_eq hhalt, hgrows.value_eq hhalt⟩, by simp [hops],
    by simp [hrequested], by simp [hrequested], by simp [hlabels], by simp [hlabels],
    by simp [hlabels], fun l hl => absurd hl (by simp [hcount]), by simp⟩

/-! ## Entry points -/

/-- The label of what remains of the constructor, if anything does. -/
def ctorLabel (init : Initializer) (d : Draft) : Option Label × Draft :=
  match init.remainder? with
  | none => (none, d)
  | some r => (some (d.methodLabel r.ctor).1, (d.methodLabel r.ctor).2)

lemma Ledger.ctorLabel (h : d.Ledger env rules extra done)
    (hextra : ∀ r, init.remainder? = some r → extra r.ctor) :
    (d.ctorLabel init).2.Ledger env rules extra done ∧
      (d.ctorLabel init).2.ops = d.ops ∧ (d.ctorLabel init).2.served = d.served ∧
      Option.Rel (fun r l => (r.ctor, l) ∈ (d.ctorLabel init).2.methodLabels) init.remainder?
        (d.ctorLabel init).1 := by
  unfold Draft.ctorLabel
  cases hr : init.remainder? with
  | none => exact ⟨h, rfl, rfl, .none⟩
  | some r =>
    obtain ⟨-, -, -, hmade⟩ := h.toSound.methodLabel r.ctor
    exact ⟨h.methodLabel (.inr (hextra r hr)), ops_methodLabel d r.ctor,
      served_methodLabel d r.ctor, .some hmade⟩

lemma Ledger.made_of_rel (h : d.Ledger env rules extra done) {α : Type} {a : Option α}
    {f : α → MethodRef} {ctor : Option Label}
    (hctor : Option.Rel (fun r l => (f r, l) ∈ d.methodLabels) a ctor) :
    ∀ l ∈ ctor, l.index < d.labelCount := by
  rintro l rfl
  cases hctor with
  | some hmem => exact h.made _ hmem

def addEntries (env : ClassEnv) (ctor : Option Label) (entries : List (String × MethodRef))
    (d : Draft) : Draft :=
  entries.foldl (fun d (name, m) => d.addEntry env ctor name m) d

lemma callable_of_entries {e : String × MethodRef} (h : e ∈ env.entries) : env.Callable e.2 := by
  obtain ⟨s, -, hs⟩ := List.mem_filterMap.1 h
  obtain ⟨m, hm, rfl⟩ := Option.map_eq_some_iff.1 hs
  exact Rules.callable_of_dispatchTarget? hm

lemma addEntry_spec (env : ClassEnv) (ctor : Option Label) (d : Draft) (name : String)
    (m : MethodRef) : (d.addEntry env ctor name m).served = d.served ∧
      (d.addEntry env ctor name m).entryNames = d.entryNames ++ [name] ∧
      (d.addEntry env ctor name m).Ends := by
  have hopen : (d.openEntry env ctor name).served = d.served ∧
      (d.openEntry env ctor name).entryNames = d.entryNames ++ [name] := by
    have hname : (d.emitAll [.entry name, .push halt]).entryNames = d.entryNames ++ [name] :=
      entryNames_emitAll d _
    unfold Draft.openEntry
    split
    · split_ifs
      · exact ⟨rfl, (entryNames_call _ _).trans hname⟩
      · exact ⟨rfl, hname⟩
    · exact ⟨rfl, hname⟩
  rw [addEntry_eq]
  refine ⟨?_, ?_, ends_emitAll _ [] (by simp [Op.size])⟩
  · rw [emitAll, served_methodLabel, served_require, hopen.1]
  · rw [entryNames_emitAll, entryNames, ops_methodLabel, ops_require, ← entryNames, hopen.2]
    exact List.append_nil _

lemma entryNames_addStart (env : ClassEnv) (ctor : Label) (d : Draft) :
    (d.addStart env ctor).entryNames = d.entryNames ++ [env.options.startEvent] := by
  rw [Draft.addStart, entryNames_ret, entryNames_call]
  exact entryNames_emitAll _ _

/-- **Entry points** keep the books in order. -/
lemma Ledger.addEntries (h : d.Ledger env rules extra done) {ctor : Option Label}
    (hctor : ∀ l ∈ ctor, l.index < d.labelCount) {entries : List (String × MethodRef)}
    (hentries : ∀ e ∈ entries, env.Callable e.2) :
    (d.addEntries env ctor entries).Ledger env rules extra done ∧
      d.Extends (d.addEntries env ctor entries) ∧
      (d.addEntries env ctor entries).served = d.served ∧
      (d.addEntries env ctor entries).entryNames = d.entryNames ++ entries.map Prod.fst ∧
      (d.Ends → (d.addEntries env ctor entries).Ends) := by
  induction entries generalizing d with
  | nil => exact ⟨h, .refl d, rfl, (List.append_nil _).symm, id⟩
  | cons e entries ih =>
    obtain ⟨he, hentries⟩ := List.forall_mem_cons.1 hentries
    have hext := (h.toSound.addEntry env ctor e.1 e.2).2
    obtain ⟨hserved, hnames, hends⟩ := addEntry_spec env ctor d e.1 e.2
    obtain ⟨hledger, hext', hserved', hnames', hends'⟩ :=
      ih (h.addEntry hctor e.1 he) (fun l hl => (hctor l hl).trans_le hext.labelCount) hentries
    refine ⟨hledger, hext.trans hext', hserved'.trans hserved, ?_, fun _ => hends' hends⟩
    exact hnames'.trans (by rw [hnames, List.append_assoc]; rfl)

/-! ## Whole classes -/

structure Finished (env : ClassEnv) (rules : Rulebook) (d : Draft) : Prop extends d.Sound where
  linked : ∀ op ∈ d.ops.toList, op.Linked d
  placed : ∀ l : Label, l.index < d.labelCount → d.placed l = 1
  holds : ∀ e ∈ d.methodLabels, d.Holds env rules e.1
  halt : d.HasHalt
  ends : d.Ends

lemma Ledger.finished (h : d.Ledger env rules extra done) (hall : ∀ e ∈ d.methodLabels, done e.1)
    (hends : d.Ends) : d.Finished env rules := by
  refine ⟨h.toSound, h.linked, fun l hl => ?_, fun e he => h.holds e.1 (hall e he), h.halt, hends⟩
  by_cases hm : ∃ m, (m, l) ∈ d.methodLabels
  · obtain ⟨m, hm⟩ := hm
    exact h.lowered (m, l) hm (hall _ hm)
  · exact h.settled l hl fun m hmem => hm ⟨m, hmem⟩

end Draft

namespace ClassEnv

variable {env : ClassEnv} {rules : Rulebook} {d : Draft}

/-- Names of the entry points of a class: of those that lead to methods, and of the start event if
nothing else runs what remains of the constructor. -/
def entryNames (env : ClassEnv) (init : Initializer) : List String :=
  env.entries.map Prod.fst ++
    if init.remainder?.isSome ∧ env.options.startEvent ∉ env.entries.map Prod.fst then
      [env.options.startEvent] else []

lemma not_callable_of_isCtor {m : MethodRef} (hfits : env.naming.Fits env.md)
    (hm : (env.md.method m).isCtor = true) : ¬ env.Callable m := by
  rintro ⟨hnamed, -⟩
  obtain ⟨s, hs, hmember⟩ := List.any_eq_true.1 hnamed
  rw [(hfits s hs m (by simpa using hmember)).1] at hm
  cases hm

lemma ledger_entries (rules : Rulebook) {d₀ : Draft}
    (hfields : (Draft.start env.owner).declareFields env init = .ok d₀) :
    let ctor := d₀.ctorLabel init
    let d₁ := ctor.2.addEntries env ctor.1 env.entries
    d₁.Ledger env rules (fun m => ∃ r, init.remainder? = some r ∧ m = r.ctor) (fun _ => False) ∧
      d₁.served = 0 ∧ d₁.entryNames = env.entries.map Prod.fst ∧ d₁.Ends ∧
      Option.Rel (fun r l => (r.ctor, l) ∈ d₁.methodLabels) init.remainder? ctor.1 := by
  intro ctor d₁
  set extra : MethodRef → Prop := fun m => ∃ r, init.remainder? = some r ∧ m = r.ctor
  have h₀ : d₀.Ledger env rules extra (fun _ => False) := Draft.ledger_declareFields hfields
  have hextra : ∀ r, init.remainder? = some r → extra r.ctor := fun r hr => ⟨r, hr, rfl⟩
  obtain ⟨hledger, hops, hserved, hctor⟩ := h₀.ctorLabel hextra
  obtain ⟨h₁, hext, hserved₁, hnames₁, hends₁⟩ :=
    hledger.addEntries (hledger.made_of_rel hctor) fun e => Draft.callable_of_entries
  obtain ⟨-, hrest⟩ := Draft.declareFields_spec hfields
  have hnone : (d₀.ctorLabel init).2.ops = #[] := by rw [hops, hrest]
  refine ⟨h₁, ?_, ?_, hends₁ (by simp [Draft.Ends, hnone]),
    optionRel_imp hctor fun _ _ hmem => hext.methods hmem⟩
  · rw [hserved₁, hserved, hrest]
  · rw [hnames₁, Draft.entryNames, hnone]
    rfl

/-- **The draft of a class**: its entry points, and behind them its methods. -/
lemma finished_of_draft (hrules : rules.IsStandard) (hfits : env.naming.Fits env.md)
    (h : env.draft rules = .ok d) : d.Finished env rules ∧ ∃ init d₀,
      Initializer.ofClass env.md env.naming env.owner = .ok init ∧
      (Draft.start env.owner).declareFields env init = .ok d₀ ∧
      ((d₀.ctorLabel init).2.addEntries env (d₀.ctorLabel init).1 env.entries).Extends d ∧
      d.entryNames = env.entryNames init := by
  obtain ⟨init, hinit, h⟩ := except_bind_eq_ok_iff.1 h
  obtain ⟨d₀, hfields, h⟩ := except_bind_eq_ok_iff.1 h
  obtain ⟨h₁, hserved₁, hnames₁, hends₁, hctor⟩ := ledger_entries rules hfields
  suffices hgoal : d.Finished env rules ∧
      ((d₀.ctorLabel init).2.addEntries env (d₀.ctorLabel init).1 env.entries).Extends d ∧
      d.entryNames = env.entryNames init from ⟨hgoal.1, init, d₀, hinit, hfields, hgoal.2⟩
  cases hr : init.remainder? with
  | none =>
    rw [hr] at h
    have hlabel : d₀.ctorLabel init = (none, d₀) := by rw [Draft.ctorLabel, hr]
    rw [hlabel] at h₁ hserved₁ hnames₁ hends₁ ⊢
    obtain ⟨h₂, -, hfollows⟩ := h₁.lowerAll hrules hfits hserved₁ h
    refine ⟨h₂.finished (fun e he => (h₂.asked e he).resolve_right ?_) (hfollows.ends hends₁),
      hfollows.toExtends, ?_⟩
    · rintro ⟨r, hsome, -⟩
      rw [hr] at hsome
      cases hsome
    · rw [hfollows.entryNames, hnames₁, entryNames, hr]
      simp
  | some r =>
    rw [hr] at h hctor
    have hlabel : d₀.ctorLabel init =
        (some (d₀.methodLabel r.ctor).1, (d₀.methodLabel r.ctor).2) := by
      rw [Draft.ctorLabel, hr]
    rw [hlabel] at h₁ hserved₁ hnames₁ hends₁ hctor ⊢
    obtain ⟨d₂, hrequested, h⟩ := except_bind_eq_ok_iff.1 h
    obtain ⟨d₃, hbody, h⟩ := except_bind_eq_ok_iff.1 h
    obtain ⟨d₄, hrequested', h⟩ := except_bind_eq_ok_iff.1 h
    obtain ⟨-, hisCtor, -⟩ := Initializer.remainder_spec hinit hr
    obtain ⟨hmade⟩ := hctor
    obtain ⟨h₂, hserved₂, hfollows⟩ := h₁.lowerAll hrules hfits hserved₁ hrequested
    have hnot := not_callable_of_isCtor hfits hisCtor
    obtain ⟨h₄, hfollows'⟩ := h₂.lowerCtor hrules hfits hnot hserved₂ (.ctor hinit hr)
      (hfollows.methods hmade) hbody hrequested'
    have hfollows := hfollows.trans hfollows'
    have hnames : d₄.entryNames = env.entries.map Prod.fst := hfollows.entryNames.trans hnames₁
    have hasked (e : MethodRef × Label) (he : e.1 ∈ d₄.requested ∨
        ∃ r', init.remainder? = some r' ∧ e.1 = r'.ctor) : e.1 ∈ d₄.requested ∨ e.1 = r.ctor := by
      refine he.imp_right ?_
      rintro ⟨r', hsome, heq⟩
      rw [Option.some.inj (hr.symm.trans hsome), heq]
    have hany : env.entries.any (·.1 == env.options.startEvent) = true ↔
        env.options.startEvent ∈ env.entries.map Prod.fst := by
      simp [List.any_eq_true]
    rw [entryNames, hr]
    split_ifs at h with hstart
    · obtain rfl := Except.ok.inj h
      refine ⟨h₄.finished (fun e he => hasked e (h₄.asked e he)) (hfollows.ends hends₁),
        hfollows.toExtends, ?_⟩
      rw [if_neg fun hnot => hnot.2 (hany.1 hstart), List.append_nil, hnames]
    · obtain rfl := Except.ok.inj h
      have h₅ := h₄.addStart (h₄.made _ (hfollows.methods hmade))
      refine ⟨h₅.finished (fun e he => hasked e (h₅.asked e he))
        (Draft.ends_emitAll _ [_, _] (by decide)),
        hfollows.toExtends.trans (h₄.toSound.addStart env _).2, ?_⟩
      rw [if_pos ⟨rfl, fun hin => hstart (hany.2 hin)⟩, Draft.entryNames_addStart, hnames]

end ClassEnv

end FlatHeap
