import FlatHeap.Proofs.Rules.Entries

/-!
# Calls from other programs

A program calls a method of another one by name: it sets the variables of the parameters, sends the
event of the method and reads the variable of the result.  The two programs are compiled on their
own and agree only through the naming of the class that declares the method.

The event has an entry point, and the body it leads to was lowered with variables of the very names
that callers use.  A variable gets a slot only if the code of the program refers to it, though.  So
there is none for a parameter that no code touches, and setting it fails.
-/

namespace FlatHeap

/-! ## Variables with names -/

namespace Draft

variable {env : ClassEnv} {d : Draft} {m : MethodRef} {s : Symbol}

lemma named_params (params : List (ParamDecl × String)) {acc : List VarRef} {names : List String}
    (h : List.Forall₂ d.vars.Named acc names) :
    let r := params.foldl (fun (acc, d) (p, name) =>
      let (v, d) := d.named name p.type .parameter
      (acc ++ [v], d)) (acc, d)
    List.Forall₂ r.2.vars.Named r.1 (names ++ params.map Prod.snd) := by
  induction params generalizing d acc names with
  | nil => simpa using h
  | cons p params ih =>
    obtain ⟨hgrows, hnamed⟩ := d.vars.named_spec p.2 p.1.type .parameter
    have hnext : List.Forall₂ (d.named p.2 p.1.type .parameter).2.vars.Named
        (acc ++ [(d.named p.2 p.1.type .parameter).1]) (names ++ [p.2]) :=
      List.rel_append (h.imp fun _ _ hv => hv.grows hgrows) (.cons hnamed .nil)
    simpa using ih hnext

lemma named_parameterVars {r : List VarRef × Option VarRef × Draft}
    (h : d.parameterVars env m = .ok r) (hs : env.naming.lookup env.md (.method m) = .ok s)
    (hlen : s.params.length = (env.md.method m).params.length) :
    List.Forall₂ r.2.2.vars.Named r.1 s.params ∧
      (env.md.kind (env.md.method m).result ≠ .void →
        Option.Rel r.2.2.vars.Named r.2.1 s.result) := by
  unfold Draft.parameterVars at h
  simp only at h
  split_ifs at h with hnone
  · obtain rfl := Except.ok.inj h
    simp only [Bool.and_eq_true, List.isEmpty_iff, beq_iff_eq] at hnone
    rw [hnone.1, List.length_nil, List.length_eq_zero_iff] at hlen
    exact ⟨hlen ▸ .nil, fun hvoid => absurd hnone.2 hvoid⟩
  rw [hs] at h
  obtain ⟨symbol, hsymbol, h⟩ := except_bind_eq_ok_iff.1 h
  obtain rfl := Except.ok.inj hsymbol
  have hparams := named_params ((env.md.method m).params.zip s.params) (d := d) .nil
  rw [List.nil_append, List.map_snd_zip hlen.le] at hparams
  cases hresult : s.result with
  | none =>
    rw [hresult] at h
    obtain rfl := Except.ok.inj h
    exact ⟨hparams, fun _ => .none⟩
  | some x =>
    rw [hresult] at h
    obtain rfl := Except.ok.inj h
    obtain ⟨hgrows, hnamed⟩ := Variables.named_spec _ x (env.md.method m).result .returnValue
    exact ⟨hparams.imp fun _ _ hv => hv.grows hgrows, fun _ => .some hnamed⟩

lemma grows_locals (types : List TypeRef) (acc : List VarRef) (d : Draft) :
    d.vars.Grows (types.foldl (fun (acc, d) t =>
      let (v, d) := d.addVar { type := t, kind := .localSlot }
      (acc ++ [v], d)) (acc, d)).2.vars := by
  induction types generalizing acc d with
  | nil => exact .refl _
  | cons t types ih =>
    exact (Variables.grows_add _ _).trans
      (ih (acc ++ [_]) (d.addVar { type := t, kind := .localSlot }).2)

end Draft

namespace Compilation

variable {o : Options} {md : Metadata} {t : TypeRef} {c : Compilation o md t} {m : MethodRef}
  {menv : MethodEnv} {j : Nat} {v : VarRef} {x : String} {s : Symbol}

lemma BodyAt.named (h : c.BodyAt m menv j) (hs : c.naming.lookup md (.method m) = .ok s) :
    ∃ params, menv.args = (if (md.method m).isStatic then [] else [Draft.self]) ++ params ∧
      List.Forall₂ c.draft.vars.Named params s.params ∧
      (md.kind (md.method m).result ≠ .void →
        Option.Rel c.draft.vars.Named menv.returnVar s.result) := by
  obtain ⟨code, start, l, d₁, s₀, s₁, -, hlower, hext, -⟩ := h
  have hentered := hlower.enters.entered
  unfold Frame.enter at hentered
  simp only at hentered
  obtain ⟨⟨params, result, d₂⟩, hparams, hentered⟩ := except_bind_eq_ok_iff.1 hentered
  obtain ⟨rfl, rfl⟩ := Prod.mk.inj (Except.ok.inj hentered)
  obtain ⟨hmem, hmember⟩ := Rules.mem_of_lookup_naming hs
  obtain ⟨hnamed, hresult⟩ :=
    Draft.named_parameterVars hparams hs (c.fits s hmem m hmember).2
  obtain ⟨lost, s₂, -, hended, -⟩ := hlower.ended c.isStandard
  have hgrows : d₂.vars.Grows c.draft.vars :=
    (Draft.grows_locals _ [] d₂).trans (hended.landed.tables.vars.trans hext.vars)
  exact ⟨params, rfl, hnamed.imp fun _ _ hv => hv.grows hgrows,
    fun hvoid => optionRel_imp (hresult hvoid) fun _ _ hv => hv.grows hgrows⟩

variable (c)

/-- The program has the slot of a variable, under a name. -/
def HasSlot (v : VarRef) (x : String) : Prop :=
  ∃ slot, (v, slot) ∈ c.placed.order.zip c.program.heap ∧ slot.name = x

/-- The code of the program refers to a variable, or it is a field, which the host may read. -/
def Refers (v : VarRef) : Prop :=
  (c.draft.vars.get v).isField = true ∨ ∃ op ∈ c.draft.ops.toList, op.var? = some v

/-- A variable has a name, and a slot under that name if the program refers to it. -/
def Offers (v : VarRef) (x : String) : Prop :=
  c.draft.vars.Named v x ∧ (c.HasSlot v x ↔ c.Refers v)

variable {c}

lemma mem_order_iff (h : c.draft.vars.Has v) : v ∈ c.placed.order ↔ c.Refers v := by
  constructor
  · intro hv
    obtain ⟨-, hfield | ⟨-, hop⟩⟩ := Draft.mem_heapOrder_iff.1 hv
    · exact .inl hfield
    · exact .inr (List.mem_filterMap.1 hop)
  · rintro (hfield | ⟨op, hop, hv⟩)
    · exact Draft.mem_heapOrder_iff.2 ⟨h, .inl hfield⟩
    · exact c.finished.mem_heapOrder hop hv

/-- **Named variables are offered.** -/
lemma offers_of_named (h : c.draft.vars.Named v x) : c.Offers v x := by
  refine ⟨h, ?_⟩
  rw [← mem_order_iff h.1]
  constructor
  · rintro ⟨slot, hslot, -⟩
    exact (List.of_mem_zip hslot).1
  · intro hv
    obtain ⟨hlen, hall⟩ := List.forall₂_iff_zip.1 c.placed.heap_spec
    rw [← List.map_fst_zip hlen.le] at hv
    obtain ⟨⟨_, slot⟩, hslot, rfl⟩ := List.mem_map.1 hv
    exact ⟨slot, hslot, (hall hslot).name x h.2⟩

end Compilation

namespace Compiler

variable {o : Options} {md : Metadata} {t : TypeRef} {m : MethodRef} {p : Host.Program}

/-- **Names that other programs use are answered.**  Let a class list no method twice, and an
exported method with a body.  All programs know the method by the same symbol.  There is an entry
point for its event, which leads to the body that dispatch selects.  That body takes its parameters
from variables with the names that callers set, and unless it is void leaves its result in the
variable that they read.  Each of these has its slot exactly if the program refers to it. -/
theorem remote_names_are_answered (h : ((Compiler.new o).compile md t).1 = .ok p)
    (honce : (md.type t).methods.Nodup) (hm : m ∈ (md.type t).methods)
    (hctor : (md.method m).isCtor = false) (hinit : (md.method m).isTypeInitializer = false)
    (hexported : (md.method m).flags.exported = true)
    (hbody : (md.method m).body.isSome = true) :
    ∃ c : Compilation o md t, c.program = p ∧ ∃ s target menv params,
      (∀ caller naming, caller ≠ t → (ClassEnv.namingOf ⟨md, o, caller, naming⟩ t).bind
        (·.lookup md (.method m)) = .ok s) ∧
      c.naming.dispatchTarget? md s.emitted = some target ∧
      (∃ entry ∈ p.entryPoints, entry.name = s.emitted ∧ c.Leads entry target menv) ∧
      menv.args = (if (md.method target).isStatic then [] else [Draft.self]) ++ params ∧
      List.Forall₂ c.Offers params s.params ∧
      (md.kind (md.method target).result ≠ .void →
        Option.Rel c.Offers menv.returnVar s.result) := by
  obtain ⟨c, rfl⟩ := exists_compilation h
  have hnamed : Naming.isNamed md m = true := by simp [Naming.isNamed, hctor, hinit]
  obtain ⟨s, hs⟩ : ∃ s, c.naming.find? (.method m) = some s := by
    obtain ⟨s, hs, hmember⟩ := Naming.exists_symbol_of_listed c.named hm hnamed
    rw [← Option.isSome_iff_exists, Naming.find?, List.find?_isSome]
    exact ⟨s, List.mem_reverse.2 hs, by simpa using hmember⟩
  have hlookup {x : MethodRef} {s : Symbol} (hs : c.naming.find? (.method x) = some s) :
      c.naming.lookup md (.method x) = .ok s := by
    rw [Naming.lookup, hs]
  obtain ⟨hmem, hmember⟩ := Rules.mem_of_lookup_naming (hlookup hs)
  obtain ⟨i, hi⟩ := List.getElem?_of_mem hmem
  obtain ⟨b, r, -, hheads⟩ := Naming.ofClass_wired c.named i s m hi hmember
  obtain ⟨target, htarget, hentry⟩ := c.mem_entries hmem hmember (hheads.exported hexported) hbody
  obtain ⟨entry, hin, hname, menv, hleads⟩ := c.leads_of_mem_entries hentry
  -- the body was lowered with the symbol of the method it belongs to
  obtain ⟨s', hs', hemitted⟩ :=
    Naming.lookup_dispatchTarget? c.named honce hm hnamed hbody hs htarget
  obtain ⟨hparams, hresult⟩ := (Naming.ofClass_separate c.named).names_eq
    (Rules.mem_of_lookup_naming (hlookup hs')).1 hmem hemitted
  obtain ⟨j, hat⟩ := hleads.bodyAt
  obtain ⟨params, hargs, hnames, hreturn⟩ := hat.named (hlookup hs')
  refine ⟨c, rfl, s, target, menv, params, fun caller naming hcaller => ?_, htarget,
    ⟨entry, hin, hname, hleads⟩, hargs, ?_, fun hvoid => ?_⟩
  · rw [ClassEnv.namingOf, if_neg (Ne.symm hcaller), c.named]
    exact hlookup hs
  · rw [← hparams]
    exact hnames.imp fun _ _ => Compilation.offers_of_named
  · rw [← hresult]
    exact optionRel_imp (hreturn hvoid) fun _ _ => Compilation.offers_of_named

/-- A class with a method that takes a number and returns one. -/
def answering (code : List UInt8) : Metadata :=
  let md := (Metadata.addType {} (Naming.userClass "Game.Door" none [])).2
  let md := (md.addMethod ⟨16⟩
    { name := "M", result := .int32, params := [{ name := "x", type := .int32 }]
      flags := { exported := true } }).2
  md.setBody ⟨0⟩ { code }

/-- A method that returns its parameter has both slots. -/
theorem remote_names_are_answered_echoing :
    let md := answering [0x03, 0x2a]
    ∃ p, ((Compiler.new {}).compile md ⟨16⟩).1 = .ok p ∧
      p.heap.map Host.HeapSlot.name =
        ["__return_jump", "__0_const_SystemUInt32", "__M_x", "__M__ret"] ∧
      ∃ c : Compilation {} md ⟨16⟩, c.program = p ∧ ∃ s target menv params,
        (∀ caller naming, caller ≠ ⟨16⟩ → (ClassEnv.namingOf ⟨md, {}, caller, naming⟩ ⟨16⟩).bind
          (·.lookup md (.method ⟨0⟩)) = .ok s) ∧
        c.naming.dispatchTarget? md s.emitted = some target ∧
        (∃ entry ∈ p.entryPoints, entry.name = s.emitted ∧ c.Leads entry target menv) ∧
        menv.args = (if (md.method target).isStatic then [] else [Draft.self]) ++ params ∧
        List.Forall₂ c.Offers params s.params ∧
        (md.kind (md.method target).result ≠ .void →
          Option.Rel c.Offers menv.returnVar s.result) := by
  have hslots : ((Compiler.new {}).compile (answering [0x03, 0x2a]) ⟨16⟩).1.toOption.map
      (fun p => p.heap.map Host.HeapSlot.name) =
        some ["__return_jump", "__0_const_SystemUInt32", "__M_x", "__M__ret"] := by
    decide +kernel
  obtain ⟨p, hp, hslots⟩ := Option.map_eq_some_iff.1 hslots
  have hp := ok_of_toOption hp
  exact ⟨p, hp, hslots,
    remote_names_are_answered hp (by decide +kernel) (by decide +kernel) rfl rfl rfl rfl⟩

/-- **A parameter that no code touches has no slot**, though callers set it: the method returns a
constant. -/
theorem untouched_parameter_has_no_slot :
    let md := answering [0x17, 0x2a]
    ⟨0⟩ ∈ (md.type ⟨16⟩).methods ∧ (md.method ⟨0⟩).flags.exported = true ∧
      (md.method ⟨0⟩).body.isSome = true ∧
      ((Naming.ofClass md {} ⟨16⟩).bind (·.lookup md (.method ⟨0⟩))).toOption.map Symbol.params =
        some ["__M_x"] ∧
      ∃ p, ((Compiler.new {}).compile md ⟨16⟩).1 = .ok p ∧
        "__M_x" ∉ p.heap.map Host.HeapSlot.name := by
  have hslots : ((Compiler.new {}).compile (answering [0x17, 0x2a]) ⟨16⟩).1.toOption.map
      (fun p => decide ("__M_x" ∈ p.heap.map Host.HeapSlot.name)) = some false := by
    decide +kernel
  obtain ⟨p, hp, hslots⟩ := Option.map_eq_some_iff.1 hslots
  exact ⟨by decide +kernel, rfl, rfl, by decide +kernel, p, ok_of_toOption hp,
    of_decide_eq_false hslots⟩

end Compiler

end FlatHeap
