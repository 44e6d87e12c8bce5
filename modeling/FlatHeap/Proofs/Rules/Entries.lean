import FlatHeap.Proofs.Rules.Programs

/-!
# Entry points

An entry point leaves the address that stops the machine on the stack and jumps to the body of a
method, so the machine stops when the body returns.  The entry point of the start event calls what
remains of the constructor first.

Each exported method has exactly one entry point, under the name of its family, that leads to the
body which dispatch on the family selects.  The name is that of an event if the first member of the
family is exported.  If it is not, the event need not have an entry point, even though a later
member is exported.
-/

namespace FlatHeap

open Host.Machine (Reaches)

/-! ## Operations of an entry point -/

namespace Draft

variable {env : ClassEnv} {ctor : Option Label} {d d' : Draft} {name : String} {m : MethodRef}
  {call : List Op}

/-- The call of what remains of the constructor, in the entry point of the start event only. -/
def Preludes (env : ClassEnv) (ctor : Option Label) (d : Draft) (name : String) (call : List Op) :
    Prop :=
  (∃ l a after, ctor = some l ∧ name = env.options.startEvent ∧
      call = [.push a, .jump l, .mark after] ∧ d.vars.Has a ∧ d.vars.kind a = .labelAddress after) ∨
    ¬ (ctor.isSome = true ∧ name = env.options.startEvent) ∧ call = []

/-- The draft has an entry point that leads to a method. -/
def Leads (env : ClassEnv) (ctor : Option Label) (d : Draft) (name : String) (m : MethodRef) :
    Prop :=
  ∃ pre call post l, d.ops.toList = pre ++ .entry name :: .push halt :: (call ++ .jump l :: post) ∧
    (m, l) ∈ d.methodLabels ∧ d.Preludes env ctor name call

lemma Preludes.extends (h : d.Preludes env ctor name call) (he : d.Extends d') :
    d'.Preludes env ctor name call := by
  refine h.imp_left ?_
  rintro ⟨l, a, after, hctor, hname, hcall, hhas, hkind⟩
  exact ⟨l, a, after, hctor, hname, hcall, he.vars.has hhas, (he.vars.kind_eq hhas).trans hkind⟩

lemma Leads.extends (h : d.Leads env ctor name m) (he : d.Extends d') :
    d'.Leads env ctor name m := by
  obtain ⟨pre, call, post, l, hops, hm, hcall⟩ := h
  obtain ⟨more, hmore⟩ := he.ops
  refine ⟨pre, call, post ++ more, l, ?_, he.methods hm, hcall.extends he⟩
  rw [← hmore, hops]
  simp

lemma openEntry_ops (env : ClassEnv) (ctor : Option Label) (d : Draft) (name : String) :
    ∃ call, (d.openEntry env ctor name).ops.toList =
        d.ops.toList ++ .entry name :: .push halt :: call ∧
      (d.openEntry env ctor name).Preludes env ctor name call := by
  have hentry : (d.emitAll [.entry name, .push halt]).ops.toList =
      d.ops.toList ++ [.entry name, .push halt] := ops_emitAll _ _
  cases ctor with
  | none => exact ⟨[], hentry, .inr ⟨by simp, rfl⟩⟩
  | some l =>
    unfold openEntry
    dsimp only
    split_ifs with hstart
    · set d₁ := d.emitAll [.entry name, .push halt]
      refine ⟨_, ?_, .inl ⟨l, _, ⟨d₁.labelCount⟩, rfl, hstart, rfl, Variables.has_add_new _ _, ?_⟩⟩
      · rw [call, ops_emitAll]
        show d₁.ops.toList ++ _ = _
        rw [hentry]
        exact List.append_assoc _ _ _
      · rw [Variables.kind]
        exact congrArg Variable.kind (Variables.get_add_new _ _)
    · exact ⟨[], hentry, .inr ⟨fun h => hstart h.2, rfl⟩⟩

lemma Ledger.leads_addEntry {rules : Rulebook} {extra done : MethodRef → Prop}
    (h : d.Ledger env rules extra done) (hctor : ∀ l ∈ ctor, l.index < d.labelCount) (name : String)
    (m : MethodRef) : (d.addEntry env ctor name m).Leads env ctor name m := by
  obtain ⟨call, hops, hcall⟩ := openEntry_ops env ctor d name
  obtain ⟨hrequire, hext⟩ := (h.openEntry hctor name).toSound.require m
  obtain ⟨-, hext', -, hlabel⟩ := hrequire.methodLabel m
  rw [addEntry_eq]
  refine ⟨d.ops.toList, call, [], _, ?_, hlabel,
    (hcall.extends (hext.trans hext')).extends (extends_emitAll _ _)⟩
  rw [ops_emitAll, ops_methodLabel, ops_require, hops]
  simp

/-- **Entry points lead to their methods.** -/
lemma Ledger.leads_addEntries {rules : Rulebook} {extra done : MethodRef → Prop}
    (h : d.Ledger env rules extra done) (hctor : ∀ l ∈ ctor, l.index < d.labelCount)
    {entries : List (String × MethodRef)} (hentries : ∀ e ∈ entries, env.Callable e.2)
    {e : String × MethodRef} (he : e ∈ entries) :
    (d.addEntries env ctor entries).Leads env ctor e.1 e.2 := by
  induction entries generalizing d with
  | nil => cases he
  | cons e' entries ih =>
    obtain ⟨he', hrest⟩ := List.forall_mem_cons.1 hentries
    have hext := (h.toSound.addEntry env ctor e'.1 e'.2).2
    have hledger := h.addEntry hctor e'.1 he'
    have hctor' : ∀ l ∈ ctor, l.index < (d.addEntry env ctor e'.1 e'.2).labelCount :=
      fun l hl => (hctor l hl).trans_le hext.labelCount
    rcases List.mem_cons.1 he with rfl | he
    · exact (h.leads_addEntry hctor e.1 e.2).extends (hledger.addEntries hctor' hrest).2.1
    · exact ih hledger hctor' hrest he

end Draft

/-! ## Execution of an entry point -/

namespace Placed

variable {env : ClassEnv} {P : Placed env} {i j k : Nat} {op : Op} {v : VarRef} {l : Label}
  {vs ws : List VarRef}

/-- Whatever the machine holds, it goes from one operation to another and pushes some slots. -/
def Goes (P : Placed env) (i : Nat) (vs : List VarRef) (j : Nat) : Prop :=
  ∀ m : Host.Machine, Reaches P.image (UInt32.ofNat (P.address i), m)
    (UInt32.ofNat (P.address j), { m with stack := vs.map P.index ++ m.stack })

def Points (P : Placed env) (v : VarRef) (a : UInt32) : Prop :=
  ∃ slot, P.image.slots[(P.index v).toNat]? = some slot ∧ slot.value = .address a

lemma Goes.trans (h : P.Goes i vs j) (h' : P.Goes j ws k) : P.Goes i (ws ++ vs) k := by
  intro m
  rw [List.map_append, List.append_assoc]
  exact (h m).trans (h' _)

lemma goes_of_size (h : P.ops[i]? = some op) (hop : op.size = 0) : P.Goes i [] (i + 1) := by
  intro m
  rw [address_succ h, hop]
  exact .refl

lemma goes_push (h : P.ops[i]? = some (.push v)) : P.Goes i [v] (i + 1) := by
  intro m
  obtain ⟨hfetch, hhalt⟩ := P.fetch (split_at h) (instruction?_push (mem_order (mem_ops h) rfl))
  have hnext : UInt32.ofNat (P.address i) + 8 = UInt32.ofNat (P.address (i + 1)) := by
    apply UInt32.toNat_inj.1
    rw [toNat_next (toNat_address_ofNat i) h rfl, toNat_address_ofNat]
  rw [← hnext]
  exact .single ⟨hhalt, _, hfetch, Host.Machine.execute_push⟩

lemma goes_jump (h : P.ops[i]? = some (.jump l)) (hl : P.ops[j]? = some (.mark l)) :
    P.Goes i [] j := by
  intro m
  obtain ⟨hfetch, hhalt⟩ := P.fetch (split_at h) (instruction?_jump hl)
  exact .single ⟨hhalt, _, hfetch, Host.Machine.execute_jump⟩

lemma points_of_labelAddress (hv : v ∈ P.order) (hkind : P.draft.vars.kind v = .labelAddress l)
    (hl : P.ops[j]? = some (.mark l)) : P.Points v (UInt32.ofNat (P.address j)) := by
  obtain ⟨slot, hslot, -, hvalue, -⟩ := slot_eq hv
  rw [Draft.slotValue, show (P.draft.vars.get v).kind = _ from hkind] at hvalue
  obtain ⟨a, ha, hvalue⟩ := except_bind_eq_ok_iff.1 hvalue
  obtain rfl := Except.ok.inj (ha.symm.trans (resolve_mark hl))
  exact ⟨slot, hslot, (Except.ok.inj hvalue).symm⟩

lemma points_halt (h : P.draft.HasHalt) (hv : Draft.halt ∈ P.order) :
    P.Points Draft.halt Host.haltAddress := by
  obtain ⟨slot, hslot, -, hvalue, -⟩ := slot_eq hv
  rw [Draft.slotValue, show (P.draft.vars.get Draft.halt).kind = _ from h.kind, h.value] at hvalue
  exact ⟨slot, hslot, (Except.ok.inj hvalue).symm⟩

end Placed

namespace Compilation

variable {o : Options} {md : Metadata} {t : TypeRef} (c : Compilation o md t) {m : MethodRef}
  {l : Label} {name : String}

/-- The lowered body of a method begins at a position; `menv` is what the body was lowered with. -/
def BodyAt (m : MethodRef) (menv : MethodEnv) (j : Nat) : Prop :=
  ∃ code start l, ∃ d₁ : Draft, ∃ s₀ s, c.env.HasBody m code start ∧
    Draft.Lowering c.rules c.env (d₁.emit (.mark l)) m code start menv s₀ s ∧
    (s.draft.emit (.mark menv.returnLabel)).ret.Extends c.draft ∧ j = d₁.ops.size

/-- An entry point leads to the body of a method, with the address that stops the machine left on
the stack.  That of the start event calls what remains of the constructor first. -/
def Leads (entry : Host.EntryPoint) (m : MethodRef) (menv : MethodEnv) : Prop :=
  ∃ init i j, Initializer.ofClass md c.naming t = .ok init ∧ entry.address = c.placed.address i ∧
    c.BodyAt m menv j ∧ c.placed.Points Draft.halt Host.haltAddress ∧
    ((∃ r ctor k a after, init.remainder? = some r ∧ entry.name = o.startEvent ∧
        c.BodyAt r.ctor ctor k ∧ c.placed.Goes i [a, Draft.halt] k ∧
        c.placed.Points a (UInt32.ofNat (c.placed.address after)) ∧ c.placed.Goes after [] j) ∨
      ¬ (init.remainder?.isSome = true ∧ entry.name = o.startEvent) ∧
        c.placed.Goes i [Draft.halt] j)

variable {c}

lemma Leads.bodyAt {entry : Host.EntryPoint} {menv : MethodEnv} (h : c.Leads entry m menv) :
    ∃ j, c.BodyAt m menv j := by
  obtain ⟨-, -, j, -, -, hat, -⟩ := h
  exact ⟨j, hat⟩

lemma exists_bodyAt (h : (m, l) ∈ c.draft.methodLabels) :
    ∃ menv j, c.BodyAt m menv j ∧ c.placed.ops[j]? = some (.mark l) := by
  obtain ⟨code, start, l', d₁, menv, s₀, s, hbody, hm, hlower, hext⟩ := c.finished.holds _ h
  obtain rfl : l = l' := congrArg Prod.snd (List.inj_on_of_nodup_map c.finished.methods h hm rfl)
  refine ⟨menv, _, ⟨code, start, l, d₁, s₀, s, hbody, hlower, hext, rfl⟩, ?_⟩
  obtain ⟨more, hmore⟩ := ((hlower.sound c.isStandard).2.trans hext).ops
  show c.draft.ops.toList[_]? = _
  rw [← hmore, Draft.emit_eq, Draft.ops_emitAll]
  simp

/-- **Execution of an entry point.** -/
lemma exists_leads {init : Initializer} {ctor : Option Label}
    (hinit : Initializer.ofClass md c.naming t = .ok init)
    (hctor : Option.Rel (fun r l => (r.ctor, l) ∈ c.draft.methodLabels) init.remainder? ctor)
    (h : c.draft.Leads c.env ctor name m) :
    ∃ entry ∈ c.program.entryPoints, entry.name = name ∧ ∃ menv, c.Leads entry m menv := by
  obtain ⟨pre, call, post, l, hops, hm, hcall⟩ := h
  have hops : c.placed.ops = pre ++ .entry name :: .push Draft.halt :: (call ++ .jump l :: post) :=
    hops
  have hat (k : Nat) : c.placed.ops[pre.length + k]? =
      (Op.entry name :: .push Draft.halt :: (call ++ .jump l :: post))[k]? := by
    rw [hops, List.getElem?_append_right (Nat.le_add_right _ _), Nat.add_sub_cancel_left]
  obtain ⟨menv, j, hbody, hmark⟩ := exists_bodyAt hm
  have hhalt := c.placed.points_halt c.finished.halt (Placed.mem_order (Placed.mem_ops (hat 1)) rfl)
  have hopen : c.placed.Goes pre.length [Draft.halt] (pre.length + 2) :=
    (Placed.goes_of_size (hat 0) rfl).trans (Placed.goes_push (hat 1))
  refine ⟨⟨name, c.placed.address pre.length⟩, ?_, rfl, menv, init, pre.length, j, hinit, rfl,
    hbody, hhalt, ?_⟩
  · show _ ∈ c.placed.program.entryPoints
    rw [Placed.entryPoints_eq]
    refine Op.mem_entryPoints_iff.2 ⟨pre, _, hops, ?_⟩
    rw [Nat.zero_add]
    exact Placed.address_length hops
  rcases hcall with ⟨l', a, after, rfl, hname, rfl, -, hkind⟩ | ⟨hnot, rfl⟩
  · left
    generalize hr : init.remainder? = remainder at hctor
    cases hctor with
    | @some r _ hlabel =>
      obtain ⟨ctor, k, hctorBody, hctorMark⟩ := exists_bodyAt hlabel
      refine ⟨r, ctor, k, a, pre.length + 4, rfl, hname, hctorBody, ?_, ?_, ?_⟩
      · exact (hopen.trans (Placed.goes_push (hat 2))).trans (Placed.goes_jump (hat 3) hctorMark)
      · have ha := Placed.mem_order (Placed.mem_ops (hat 2)) rfl
        exact Placed.points_of_labelAddress ha hkind (hat 4)
      · exact (Placed.goes_of_size (hat 4) rfl).trans (Placed.goes_jump (hat 5) hmark)
  · right
    refine ⟨fun h => hnot ⟨?_, h.2⟩, hopen.trans (Placed.goes_jump (hat 2) hmark)⟩
    generalize init.remainder? = remainder at hctor h
    cases hctor with
    | some => rfl
    | none => exact h.1

/-- **The entry points of a class** lead to their methods. -/
lemma leads_of_mem_entries {e : String × MethodRef} (he : e ∈ c.env.entries) :
    ∃ entry ∈ c.program.entryPoints, entry.name = e.1 ∧ ∃ menv, c.Leads entry e.2 menv := by
  obtain ⟨-, init, d₀, hinit, hfields, hext, -⟩ :=
    ClassEnv.finished_of_draft c.isStandard c.fits c.drafted
  have h₀ : d₀.Ledger c.env c.rules (fun _ => True) (fun _ => False) :=
    Draft.ledger_declareFields hfields
  have hextra : ∀ r, init.remainder? = some r → True := fun _ _ => trivial
  obtain ⟨h₁, -, -, hctor⟩ := h₀.ctorLabel hextra
  have hmade := h₁.made_of_rel hctor
  have hentries : ∀ e ∈ c.env.entries, c.env.Callable e.2 := fun e => Draft.callable_of_entries
  obtain ⟨-, hadded, -⟩ := h₁.addEntries hmade hentries
  exact exists_leads hinit (optionRel_imp hctor fun _ _ hmem => (hadded.trans hext).methods hmem)
    ((h₁.leads_addEntries hmade hentries he).extends hext)

lemma mem_entries {s : Symbol} (hs : s ∈ c.naming.symbols) (hm : s.member = .method m)
    (hexported : s.flags.exported = true) (hbody : (md.method m).body.isSome = true) :
    ∃ target, c.naming.dispatchTarget? md s.emitted = some target ∧
      (s.emitted, target) ∈ c.env.entries := by
  obtain ⟨target, htarget⟩ := Naming.exists_dispatchTarget? hs hm hbody
  obtain ⟨f, hf, heq⟩ := Naming.exists_exportedMethod (Naming.ofClass_separate c.named)
    (Naming.ofClass_wired c.named) hs hm hexported
  refine ⟨target, htarget, List.mem_filterMap.2 ⟨f, hf, ?_⟩⟩
  rw [heq]
  exact Option.map_eq_some_iff.2 ⟨target, htarget, rfl⟩

end Compilation

/-! ## Events -/

/-- A method has a symbol, in a family that begins with the method `r`. -/
def Naming.Roots (n : Naming) (m : MethodRef) (s : Symbol) (r : MethodRef) : Prop :=
  ∃ i b, n.At i s ∧ s.member = .method m ∧ n.At (s.root i) b ∧ b.member = .method r

namespace Compiler

variable {o : Options} {md : Metadata} {t : TypeRef} {m : MethodRef} {p : Host.Program} {e : String}

lemma exists_compilation (h : ((Compiler.new o).compile md t).1 = .ok p) :
    ∃ c : Compilation o md t, c.program = p := by
  rcases compile_cases o md t with ⟨e, he, -⟩ | ⟨c, hc⟩
  · rw [h] at he
    cases he
  · exact ⟨c, (Except.ok.inj (h.symm.trans hc)).symm⟩

/-- **Events are wired.**  An exported method of a class has exactly one entry point, under the name
of its family, and it leads to the body that dispatch on the family selects.  If the method stands
for an event and the first member of the family is exported, that is the name of the event. -/
theorem event_leads_to_body (h : ((Compiler.new o).compile md t).1 = .ok p)
    (hm : m ∈ (md.type t).methods) (hctor : (md.method m).isCtor = false)
    (hinit : (md.method m).isTypeInitializer = false)
    (hexported : (md.method m).flags.exported = true) (hbody : (md.method m).body.isSome = true)
    (he : o.eventName? (md.method m).name = some e) :
    ∃ c : Compilation o md t, c.program = p ∧ ∃ s r target, c.naming.Roots m s r ∧
      ((md.method r).flags.exported = true → s.emitted = e) ∧
      c.naming.dispatchTarget? md s.emitted = some target ∧
      (p.entryPoints.map Host.EntryPoint.name).count s.emitted = 1 ∧
      ∃ entry ∈ p.entryPoints, entry.name = s.emitted ∧ ∃ menv, c.Leads entry target menv := by
  obtain ⟨c, rfl⟩ := exists_compilation h
  obtain ⟨s, hs, hmember⟩ :=
    Naming.exists_symbol_of_listed c.named hm (by simp [Naming.isNamed, hctor, hinit])
  obtain ⟨i, hi⟩ := List.getElem?_of_mem hs
  obtain ⟨b, r, hb, hheads⟩ := Naming.ofClass_wired c.named i s m hi hmember
  obtain ⟨target, htarget, hentry⟩ := c.mem_entries hs hmember (hheads.exported hexported) hbody
  obtain ⟨entry, hmem, hname, hleads⟩ := c.leads_of_mem_entries hentry
  refine ⟨c, rfl, s, r, target, ⟨i, b, hi, hmember, hb, hheads.first⟩, fun hroot => ?_, htarget, ?_,
    entry, hmem, hname, hleads⟩
  · rw [hheads.emitted]
    exact hheads.event e hroot (hheads.name ▸ he)
  · have hnodup := (c.placed.linked c.finished.ends c.nodup_entryNames).entryNames
    exact List.count_eq_one_of_mem hnodup (List.mem_map.2 ⟨entry, hmem, hname⟩)

/-- A class and one derived from it that overrides its method for the start event. -/
def starting (exported : Bool) : Metadata :=
  let start : MethodDecl := { name := "Start", result := .void, isVirtual := true }
  let md := (Metadata.addType {} (Naming.userClass "Game.Base" none [])).2
  let md := (md.addType (Naming.userClass "Game.Door" (some ⟨16⟩) [])).2
  let md := (md.addMethod ⟨16⟩ { start with flags := { exported } }).2
  let md := (md.addMethod ⟨17⟩ { start with flags := { exported := true } }).2
  (md.setBody ⟨0⟩ { code := [0x2a] }).setBody ⟨1⟩ { code := [0x2a] }

/-- The override is what the start event leads to. -/
theorem event_leads_to_body_overriding :
    ∃ p, ((Compiler.new {}).compile (starting true) ⟨17⟩).1 = .ok p ∧
      p.entryPoints.map Host.EntryPoint.name = ["_start"] ∧
      ∃ c : Compilation {} (starting true) ⟨17⟩, c.program = p ∧ ∃ s r target,
        c.naming.Roots ⟨1⟩ s r ∧
        (((starting true).method r).flags.exported = true → s.emitted = "_start") ∧
        c.naming.dispatchTarget? (starting true) s.emitted = some target ∧
        (p.entryPoints.map Host.EntryPoint.name).count s.emitted = 1 ∧
        ∃ entry ∈ p.entryPoints, entry.name = s.emitted ∧ ∃ menv, c.Leads entry target menv := by
  have hnames : ((Compiler.new {}).compile (starting true) ⟨17⟩).1.toOption.map
      (fun p => p.entryPoints.map Host.EntryPoint.name) = some ["_start"] := by
    decide +kernel
  obtain ⟨p, hp, hnames⟩ := Option.map_eq_some_iff.1 hnames
  have hp := ok_of_toOption hp
  exact ⟨p, hp, hnames, event_leads_to_body hp (by decide +kernel) rfl rfl rfl rfl rfl⟩

/-- **Where the first member of a family is not exported, the event has no entry point**, though the
method that stands for it is exported. -/
theorem hidden_event_has_no_entry :
    let md := starting false
    ⟨1⟩ ∈ (md.type ⟨17⟩).methods ∧ (md.method ⟨1⟩).flags.exported = true ∧
      (md.method ⟨1⟩).body.isSome = true ∧
      Options.eventName? {} (md.method ⟨1⟩).name = some "_start" ∧
      ∃ p, ((Compiler.new {}).compile md ⟨17⟩).1 = .ok p ∧
        p.entryPoints.map Host.EntryPoint.name = ["Start"] := by
  have hnames : ((Compiler.new {}).compile (starting false) ⟨17⟩).1.toOption.map
      (fun p => p.entryPoints.map Host.EntryPoint.name) = some ["Start"] := by
    decide +kernel
  obtain ⟨p, hp, hnames⟩ := Option.map_eq_some_iff.1 hnames
  exact ⟨by decide +kernel, rfl, rfl, rfl, p, ok_of_toOption hp, hnames⟩

end Compiler

end FlatHeap
