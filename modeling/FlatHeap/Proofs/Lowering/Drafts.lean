import FlatHeap.Compiler
import FlatHeap.Proofs.Lowering.Landing

/-!
# Drafts between methods

The methods of a class are lowered into one draft, one after the other.  Between two of them the
draft is *sound*: every temporary is at rest, labels of methods are distinct, and no label is placed
that has not been made.  The steps around methods, which declare fields and record entry points, keep
a draft sound and only extend it.
-/

namespace FlatHeap

/-! ## Tables at rest -/

/-- A table of variables between two methods: every temporary is at rest. -/
structure Variables.Idle (vs : Variables) : Prop where
  tidy : vs.Tidy
  self : vs.Has Draft.self ∧ vs.kind Draft.self = .self
  temporaries : ∀ t, vs.IsTemp t →
    (vs.get t).uses = 0 ∧ (vs.get t).reserved = false ∧ (vs.get t).pooled = true
  others : ∀ v, vs.kind v ≠ .temporary → (vs.get v).pooled = false

namespace Variables

variable {vs vs' : Variables} {x : Variable} {v : VarRef} {kind : VarKind}

lemma Idle.fixed_self (h : vs.Idle) : Fixed (vs.kind Draft.self) := by
  rw [h.self.2]
  trivial

lemma Idle.add (h : vs.Idle) (hx : vs.Joins x) (hk : x.kind ≠ .temporary) (hp : x.pooled = false) :
    (vs.add x).2.Idle := by
  have g := grows_add vs x
  refine ⟨h.tidy.add hx, ⟨g.has h.self.1, (g.kind_eq h.self.1).trans h.self.2⟩, fun t ht => ?_,
    fun v hv => ?_⟩
  · rcases (has_add_iff vs x t).1 ht.1 with hold | rfl
    · rw [get_add_old hold]
      exact h.temporaries t ⟨hold, (g.kind_eq hold).symm.trans ht.2⟩
    · have := ht.2
      rw [Variables.kind, get_add_new] at this
      exact absurd this hk
  · by_cases hhas : (vs.add x).2.Has v
    · rcases (has_add_iff vs x v).1 hhas with hold | rfl
      · rw [get_add_old hold]
        exact h.others v (g.kind_eq hold ▸ hv)
      · rw [get_add_new]
        exact hp
    · rw [get_of_not_has hhas]
      rfl

lemma joins_of_kind (ht : ∀ u, x.kind ≠ .address u) (hp : ∀ a i, x.kind ≠ .element a i)
    (hn : ∀ n, x.name = some n → Fixed x.kind) : vs.Joins x :=
  ⟨fun u e => absurd e (ht u), fun a i e => absurd e (hp a i), hn, fun a i e => absurd e (hp a i)⟩

lemma Idle.named (h : vs.Idle) (name : String) (t : TypeRef) (hk : Fixed kind) :
    (vs.named name t kind).2.Idle ∧ vs.Grows (vs.named name t kind).2 ∧
      (vs.named name t kind).2.Has (vs.named name t kind).1 ∧
      Fixed ((vs.named name t kind).2.kind (vs.named name t kind).1) := by
  unfold Variables.named
  split
  · rename_i v hv
    exact ⟨h, .refl vs, (find?_spec hv).1, h.tidy.fixed_of_find? hv⟩
  · refine ⟨h.add (joins_of_kind ?_ ?_ fun _ _ => hk) ?_ rfl, grows_add vs _, has_add_new vs _, ?_⟩
    · rintro u rfl
      exact hk
    · rintro a i rfl
      exact hk
    · rintro rfl
      exact hk
    · rw [Variables.kind, get_add_new]
      exact hk

lemma Idle.setValue (h : vs.Idle) (v : VarRef) (y : Value) :
    (vs.modify v ({ · with value := some y })).Idle := by
  set vs' := vs.modify v ({ · with value := some y }) with hvs'
  have hget (w : VarRef) : ∃ z, vs'.get w = { vs.get w with value := z } := by
    by_cases hw : w = v
    · subst hw
      by_cases hhas : vs.Has w
      · exact ⟨some y, get_modify_self hhas _⟩
      · have : ¬ vs'.Has w := by rwa [hvs', has_modify]
        exact ⟨_, by rw [get_of_not_has this, get_of_not_has hhas]⟩
    · exact ⟨_, by rw [hvs', get_modify_of_ne hw]⟩
  have hkind (w : VarRef) : vs'.kind w = vs.kind w := by
    obtain ⟨z, hz⟩ := hget w
    rw [Variables.kind, hz]
    rfl
  have hhas (w : VarRef) : vs'.Has w ↔ vs.Has w := has_modify vs v w _
  have hlabel (w : VarRef) : vs'.Unlabelled w ↔ vs.Unlabelled w := by
    simp only [Unlabelled, hkind]
  refine ⟨⟨fun w u hw => ?_, fun w a i hw => ?_, fun w n hw => ?_, fun w a i hw => ?_⟩,
    ⟨(hhas _).2 h.self.1, (hkind _).trans h.self.2⟩, fun w hw => ?_, fun w hw => ?_⟩
  · exact (hhas u).2 (h.tidy.target w u (hkind w ▸ hw))
  · exact (h.tidy.parts w a i (hkind w ▸ hw)).imp (hhas a).2 (hhas i).2
  · obtain ⟨z, hz⟩ := hget w
    rw [hz] at hw
    rw [hkind]
    exact h.tidy.named w n hw
  · exact (h.tidy.unlabelled w a i (hkind w ▸ hw)).imp (hlabel a).2 (hlabel i).2
  · obtain ⟨z, hz⟩ := hget w
    rw [hz]
    exact h.temporaries w ⟨(hhas w).1 hw.1, (hkind w).symm.trans hw.2⟩
  · obtain ⟨z, hz⟩ := hget w
    rw [hz]
    exact h.others w (hkind w ▸ hw)

end Variables

namespace Draft

variable {d d' d'' : Draft} {m : MethodRef} {l : Label} {env : ClassEnv}

structure Sound (d : Draft) : Prop where
  vars : d.vars.Idle
  made : ∀ e ∈ d.methodLabels, e.2.index < d.labelCount
  unplaced : ∀ l : Label, d.labelCount ≤ l.index → d.placed l = 0
  methods : (d.methodLabels.map Prod.fst).Nodup
  labels : (d.methodLabels.map Prod.snd).Nodup

/-- The second draft goes on where the first one stops. -/
structure Extends (d d' : Draft) : Prop where
  vars : d.vars.Grows d'.vars
  ops : d.ops.toList <+: d'.ops.toList
  labelCount : d.labelCount ≤ d'.labelCount
  methods : d.methodLabels ⊆ d'.methodLabels
  names : d.methodNames <+: d'.methodNames

lemma Extends.refl (d : Draft) : d.Extends d :=
  ⟨.refl _, List.prefix_rfl, le_rfl, fun _ => id, List.prefix_rfl⟩

lemma Extends.trans (h : d.Extends d') (h' : d'.Extends d'') : d.Extends d'' :=
  ⟨h.vars.trans h'.vars, h.ops.trans h'.ops, h.labelCount.trans h'.labelCount,
    List.Subset.trans h.methods h'.methods, h.names.trans h'.names⟩

/-! ## Operations and labels -/

lemma ops_emitAll (d : Draft) (ops : List Op) :
    (d.emitAll ops).ops.toList = d.ops.toList ++ ops := by
  simp [emitAll]

lemma placed_emitAll (d : Draft) (ops : List Op) (l : Label) :
    (d.emitAll ops).placed l = d.placed l + ops.count (.mark l) := by
  rw [placed, ops_emitAll, List.count_append, placed]

lemma extends_emitAll (d : Draft) (ops : List Op) : d.Extends (d.emitAll ops) :=
  ⟨.refl _, by rw [ops_emitAll]; exact List.prefix_append _ _, le_rfl, fun _ => id,
    List.prefix_rfl⟩

lemma Sound.emitAll (h : d.Sound) {ops : List Op}
    (hops : ∀ l : Label, d.labelCount ≤ l.index → .mark l ∉ ops) : (d.emitAll ops).Sound := by
  refine ⟨h.vars, h.made, fun l hl => ?_, h.methods, h.labels⟩
  rw [placed_emitAll, h.unplaced l hl, List.count_eq_zero.2 (hops l hl)]

lemma emit_eq (d : Draft) (op : Op) : d.emit op = d.emitAll [op] := by
  have h : (d.emit op).ops = (d.emitAll [op]).ops := by
    apply Array.toList_inj.1
    rw [ops_emitAll]
    simp [emit]
  show { d with ops := (d.emit op).ops } = { d with ops := (d.emitAll [op]).ops }
  rw [h]

lemma Sound.mark (h : d.Sound) (hl : l.index < d.labelCount) : (d.emit (.mark l)).Sound := by
  rw [emit_eq]
  refine h.emitAll fun l' hl' hmem => ?_
  obtain rfl : l' = l := by simpa using hmem
  omega

lemma Sound.newLabel (h : d.Sound) : d.newLabel.2.Sound :=
  ⟨h.vars, fun e he => (h.made e he).trans (Nat.lt_succ_self _),
    fun l hl => h.unplaced l (Nat.le_of_succ_le hl), h.methods, h.labels⟩

lemma extends_newLabel (d : Draft) : d.Extends d.newLabel.2 :=
  ⟨.refl _, List.prefix_rfl, Nat.le_succ _, fun _ => id, List.prefix_rfl⟩

lemma Sound.methodLabel (h : d.Sound) (m : MethodRef) :
    (d.methodLabel m).2.Sound ∧ d.Extends (d.methodLabel m).2 ∧
      (d.methodLabel m).1.index < (d.methodLabel m).2.labelCount ∧
      (m, (d.methodLabel m).1) ∈ (d.methodLabel m).2.methodLabels := by
  unfold Draft.methodLabel
  split
  · rename_i l hl
    exact ⟨h, .refl d, h.made _ (mem_of_lookup hl), mem_of_lookup hl⟩
  · rename_i hnone
    have hnew : ∀ e ∈ d.methodLabels, e.1 ≠ m ∧ e.2 ≠ d.newLabel.1 := by
      intro e he
      refine ⟨fun hm => ?_, fun hl => ?_⟩
      · simpa [hm] using List.lookup_eq_none_iff.1 hnone e he
      · have := h.made e he
        rw [hl] at this
        exact absurd this (lt_irrefl _)
    refine ⟨⟨h.vars, ?_, h.newLabel.unplaced, ?_, ?_⟩, ⟨.refl _, List.prefix_rfl, Nat.le_succ _,
      fun _ => List.mem_cons_of_mem _, List.prefix_rfl⟩, Nat.lt_succ_self _, List.mem_cons_self⟩
    · exact List.forall_mem_cons.2 ⟨Nat.lt_succ_self _, h.newLabel.made⟩
    · refine List.nodup_cons.2 ⟨fun hin => ?_, h.methods⟩
      obtain ⟨e, he, heq⟩ := List.mem_map.1 hin
      exact (hnew e he).1 heq
    · refine List.nodup_cons.2 ⟨fun hin => ?_, h.labels⟩
      obtain ⟨e, he, heq⟩ := List.mem_map.1 hin
      exact (hnew e he).2 heq

lemma Sound.require (h : d.Sound) (m : MethodRef) :
    (d.require m).Sound ∧ d.Extends (d.require m) := by
  unfold Draft.require
  split_ifs
  · exact ⟨h, .refl d⟩
  · exact ⟨⟨h.vars, h.made, h.unplaced, h.methods, h.labels⟩, .refl _, List.prefix_rfl, le_rfl,
      fun _ => id, List.prefix_rfl⟩

lemma Sound.nextMethod (h : d.Sound) : d.nextMethod.2.Sound ∧ d.Extends d.nextMethod.2 := by
  unfold Draft.nextMethod
  split
  · exact ⟨⟨h.vars, h.made, h.unplaced, h.methods, h.labels⟩, .refl _, List.prefix_rfl, le_rfl,
      fun _ => id, List.prefix_rfl⟩
  · exact ⟨h, .refl d⟩

/-! ## Variables -/

lemma Sound.withVars (h : d.Sound) {vs : Variables} (hvs : vs.Idle) : { d with vars := vs }.Sound :=
  ⟨hvs, h.made, h.unplaced, h.methods, h.labels⟩

lemma Sound.call (h : d.Sound) (callee : Label) :
    (d.call callee).Sound ∧ d.Extends (d.call callee) := by
  set address : Variable := { type := .uint32, kind := .labelAddress d.newLabel.1 } with haddress
  have hvars : d.newLabel.2.Extends { d.newLabel.2 with vars := (d.vars.add address).2 } :=
    ⟨Variables.grows_add _ _, List.prefix_rfl, le_rfl, fun _ => id, List.prefix_rfl⟩
  have hidle : (d.vars.add address).2.Idle :=
    h.vars.add (Variables.joins_of_kind (by simp [haddress]) (by simp [haddress])
      (by simp [haddress])) (by simp [haddress]) rfl
  refine ⟨(h.newLabel.withVars hidle).emitAll fun l hl hmem => ?_,
    ((extends_newLabel d).trans hvars).trans (extends_emitAll _ _)⟩
  obtain rfl : l = ⟨d.labelCount⟩ := by simpa using hmem
  exact absurd hl (Nat.not_le.2 (Nat.lt_succ_self _))

lemma Sound.ret (h : d.Sound) : d.ret.Sound := h.emitAll (by simp)

lemma extends_ret (d : Draft) : d.Extends d.ret := extends_emitAll d _

lemma Sound.addEntry (h : d.Sound) (env : ClassEnv) (ctor : Option Label) (name : String)
    (m : MethodRef) :
    (d.addEntry env ctor name m).Sound ∧ d.Extends (d.addEntry env ctor name m) := by
  have hentry : (d.emitAll [.entry name, .push halt]).Sound := h.emitAll (by simp)
  -- the start event runs what remains of the constructor first
  have hctor : ∃ d₁ : Draft, d₁.Sound ∧ (d.emitAll [.entry name, .push halt]).Extends d₁ ∧
      d.addEntry env ctor name m =
        ((d₁.methodLabel m).2.emit (.jump (d₁.methodLabel m).1)).require m := by
    cases ctor with
    | none => exact ⟨_, hentry, .refl _, rfl⟩
    | some l =>
      by_cases hstart : name = env.options.startEvent
      · exact ⟨_, (hentry.call l).1, (hentry.call l).2, by rw [Draft.addEntry]; simp only [if_pos hstart]⟩
      · exact ⟨_, hentry, .refl _, by rw [Draft.addEntry]; simp only [if_neg hstart]⟩
  obtain ⟨d₁, h₁, he₁, heq⟩ := hctor
  obtain ⟨h₂, he₂, -, -⟩ := h₁.methodLabel m
  have h₃ : ((d₁.methodLabel m).2.emit (.jump (d₁.methodLabel m).1)).Sound := by
    rw [emit_eq]
    exact h₂.emitAll (by simp)
  have he₃ : (d₁.methodLabel m).2.Extends ((d₁.methodLabel m).2.emit (.jump (d₁.methodLabel m).1)) := by
    rw [emit_eq]
    exact extends_emitAll _ _
  obtain ⟨h₄, he₄⟩ := h₃.require m
  rw [heq]
  exact ⟨h₄, (extends_emitAll d _).trans (he₁.trans (he₂.trans (he₃.trans he₄)))⟩

lemma Sound.addStart (h : d.Sound) (env : ClassEnv) (ctor : Label) :
    (d.addStart env ctor).Sound ∧ d.Extends (d.addStart env ctor) := by
  have hentry : (d.emitAll [.entry env.options.startEvent, .push halt]).Sound := h.emitAll (by simp)
  obtain ⟨hcall, hextends⟩ := hentry.call ctor
  exact ⟨hcall.ret, (extends_emitAll d _).trans (hextends.trans (extends_ret _))⟩

/-! ## Entering a method -/

/-- Only variables that are at rest have joined the draft. -/
structure Furnishes (d d' : Draft) : Prop where
  rest : d' = { d with vars := d'.vars }
  grows : d.vars.Grows d'.vars
  idle : d'.vars.Idle

lemma Furnishes.trans (h : d.Furnishes d') (h' : d'.Furnishes d'') : d.Furnishes d'' :=
  ⟨by rw [h'.rest, h.rest], h.grows.trans h'.grows, h'.idle⟩

lemma furnishes_params (params : List (ParamDecl × String)) (acc : List VarRef) (h : d.vars.Idle)
    (hacc : ∀ v ∈ acc, d.vars.Has v ∧ Variables.Fixed (d.vars.kind v)) :
    let r := params.foldl (fun (acc, d) (p, name) =>
      let (v, d) := d.named name p.type .parameter
      (acc ++ [v], d)) (acc, d)
    d.Furnishes r.2 ∧ ∀ v ∈ r.1, r.2.vars.Has v ∧ Variables.Fixed (r.2.vars.kind v) := by
  induction params generalizing d acc with
  | nil => exact ⟨⟨rfl, .refl _, h⟩, hacc⟩
  | cons p params ih =>
    obtain ⟨hidle, hgrows, hhas, hfixed⟩ :=
      h.named p.2 p.1.type (show Variables.Fixed .parameter from trivial)
    obtain ⟨hrest, hslots⟩ := ih (d := (d.named p.2 p.1.type .parameter).2)
      (acc ++ [(d.named p.2 p.1.type .parameter).1]) hidle fun v hv => by
        rcases List.mem_append.1 hv with hv | hv
        · obtain ⟨hv, hk⟩ := hacc v hv
          exact ⟨hgrows.has hv, (hgrows.kind_eq hv).symm ▸ hk⟩
        · rw [List.mem_singleton.1 hv]
          exact ⟨hhas, hfixed⟩
    exact ⟨.trans ⟨rfl, hgrows, hidle⟩ hrest, hslots⟩

lemma Sound.parameterVars {r : List VarRef × Option VarRef × Draft} (h : d.Sound)
    (hr : d.parameterVars env m = .ok r) :
    d.Furnishes r.2.2 ∧ ∀ v, v ∈ r.1 ∨ r.2.1 = some v →
      r.2.2.vars.Has v ∧ Variables.Fixed (r.2.2.vars.kind v) := by
  unfold Draft.parameterVars at hr
  simp only at hr
  split_ifs at hr
  · obtain rfl := Except.ok.inj hr
    exact ⟨⟨rfl, .refl _, h.vars⟩, by simp⟩
  obtain ⟨symbol, -, hr⟩ := except_bind_eq_ok_iff.1 hr
  obtain ⟨hparams, hslots⟩ :=
    furnishes_params ((env.md.method m).params.zip symbol.params) [] h.vars (by simp)
  split at hr
  · obtain rfl := Except.ok.inj hr
    exact ⟨hparams, by simpa using hslots⟩
  · rename_i name _
    obtain rfl := Except.ok.inj hr
    obtain ⟨hidle, hgrows, hhas, hfixed⟩ := hparams.idle.named name (env.md.method m).result
      (show Variables.Fixed .returnValue from trivial)
    refine ⟨hparams.trans ⟨rfl, hgrows, hidle⟩, fun v hv => ?_⟩
    rcases hv with hv | hv
    · obtain ⟨hv, hk⟩ := hslots v hv
      exact ⟨hgrows.has hv, (hgrows.kind_eq hv).symm ▸ hk⟩
    · rw [← Option.some.inj hv]
      exact ⟨hhas, hfixed⟩

lemma furnishes_locals (types : List TypeRef) (acc : List VarRef) (h : d.vars.Idle)
    (hacc : ∀ v ∈ acc, d.vars.Has v ∧ d.vars.kind v = .localSlot) :
    let r := types.foldl (fun (acc, d) t =>
      let (v, d) := d.addVar { type := t, kind := .localSlot }
      (acc ++ [v], d)) (acc, d)
    d.Furnishes r.2 ∧ ∀ v ∈ r.1, r.2.vars.Has v ∧ r.2.vars.kind v = .localSlot := by
  induction types generalizing d acc with
  | nil => exact ⟨⟨rfl, .refl _, h⟩, hacc⟩
  | cons t types ih =>
    set x : Variable := { type := t, kind := .localSlot } with hx
    have hidle : (d.vars.add x).2.Idle :=
      h.add (Variables.joins_of_kind (by simp [hx]) (by simp [hx]) (by simp [hx])) (by simp [hx]) rfl
    have hgrows := Variables.grows_add d.vars x
    obtain ⟨hrest, hslots⟩ := ih (d := (d.addVar x).2) (acc ++ [(d.addVar x).1]) hidle fun v hv => by
      rcases List.mem_append.1 hv with hv | hv
      · obtain ⟨hv, hk⟩ := hacc v hv
        exact ⟨hgrows.has hv, (hgrows.kind_eq hv).trans hk⟩
      · rw [List.mem_singleton.1 hv]
        exact ⟨Variables.has_add_new _ _, congrArg Variable.kind (Variables.get_add_new _ _)⟩
    exact ⟨.trans ⟨rfl, hgrows, hidle⟩ hrest, hslots⟩

/-! ## The start -/

lemma idle_self (owner : TypeRef) : Variables.Idle
    ⟨#[{ type := owner, kind := .self, name := some "__this", value := some .self }]⟩ := by
  set x : Variable := { type := owner, kind := .self, name := some "__this", value := some .self }
  have hget (v : VarRef) : (⟨#[x]⟩ : Variables).get v = x ∨ (⟨#[x]⟩ : Variables).get v = default := by
    obtain ⟨_ | i⟩ := v
    · exact .inl rfl
    · exact .inr rfl
  have hkind (v : VarRef) : (⟨#[x]⟩ : Variables).kind v = .self := by
    rcases hget v with h | h
    · exact congrArg Variable.kind h
    · exact congrArg Variable.kind h
  refine ⟨⟨fun v u => ?_, fun v a i => ?_, fun v n _ => ?_, fun v a i => ?_⟩,
    ⟨Nat.one_pos, rfl⟩, fun v hv => ?_, fun v _ => ?_⟩
  · simp [hkind]
  · simp [hkind]
  · rw [hkind]
    trivial
  · simp [hkind]
  · have := hv.2
    simp [hkind] at this
  · rcases hget v with h | h
    · exact congrArg Variable.pooled h
    · exact congrArg Variable.pooled h

lemma sound_start (owner : TypeRef) : (start owner).Sound := by
  refine ⟨?_, by simp [start], fun l _ => rfl, .nil, .nil⟩
  have hjump := (idle_self owner).add
    (x := { type := .uint32, kind := .returnJump, name := some "__return_jump" })
    (Variables.joins_of_kind (by simp) (by simp) fun _ _ => trivial) (by simp) rfl
  exact hjump.add
    (x := { type := .uint32, kind := .constant, value := some (.address Host.haltAddress) })
    (Variables.joins_of_kind (by simp) (by simp) (by simp)) (by simp) rfl

lemma Sound.fieldVar {f : FieldRef} {r : VarRef × Draft} (h : d.Sound)
    (hr : d.fieldVar env f = .ok r) : r.2.Sound := by
  unfold Draft.fieldVar at hr
  split at hr
  · obtain rfl := Except.ok.inj hr
    exact h
  · obtain ⟨symbol, -, hr⟩ := except_bind_eq_ok_iff.1 hr
    obtain rfl := Except.ok.inj hr
    exact h.withVars (h.vars.add
      (Variables.joins_of_kind (by simp) (by simp) fun _ _ => trivial) (by simp) rfl)

lemma Sound.declareField {f : FieldRef} {initial : Option Value} {r : VarRef × Draft} (h : d.Sound)
    (hr : d.declareField env f initial = .ok r) : r.2.Sound := by
  obtain ⟨⟨v, d₁⟩, h₁, hr⟩ := except_bind_eq_ok_iff.1 hr
  have hd₁ := h.fieldVar h₁
  cases initial with
  | none =>
    obtain rfl := Except.ok.inj hr
    exact hd₁
  | some y =>
    obtain rfl := Except.ok.inj hr
    exact hd₁.withVars (hd₁.vars.setValue v y)

lemma sound_declareFields {init : Initializer} {owner : TypeRef}
    (h : (start owner).declareFields env init = .ok d) : d.Sound := by
  refine foldlM_induction (fun d f d' _ hd hf => ?_) (sound_start owner) h
  obtain ⟨r, hr, hf⟩ := except_bind_eq_ok_iff.1 hf
  obtain rfl := Except.ok.inj hf
  exact hd.declareField hr

end Draft

end FlatHeap
