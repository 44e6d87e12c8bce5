import FlatHeap.Proofs.Construction.Execution
import FlatHeap.Proofs.Rules.Remote

/-!
# Fields and their initial values

A class sets up slots for the fields it declares, for exported fields it inherits and for the fields that
its constructor stores into.  They are declared one after another before any code is lowered
(`Draft.Declared` says what a declared field looks like), lowering changes neither name nor value of a
variable, and the layout gives every field a slot.

`Initializer.constructor_is_executed` puts this together with the execution of the constructor: what
running the leading part of the constructor stores is what the slots of the program start with.
-/

namespace FlatHeap

open Construction

/-! ## Declared fields -/

/-- The class has a slot for the field whether or not code refers to it. -/
inductive Initializer.Declares (init : Initializer) (md : Metadata) (naming : Naming) (t : TypeRef)
    (f : FieldRef) : Prop
  | own (listed : f ∈ (md.type t).fields) (notStatic : (md.field f).isStatic = false)
  | exported (s : Symbol) (named : s ∈ naming.symbols) (member : s.member = .field f)
    (exported : s.flags.exported = true)
  | stored (stored : f ∈ init.initial.map Prod.fst)

lemma ClassEnv.mem_declaredFields {env : ClassEnv} {init : Initializer} {f : FieldRef}
    (h : init.Declares env.md env.naming env.owner f) : f ∈ env.declaredFields init := by
  rw [declaredFields, List.mem_eraseDups, List.mem_append, List.mem_append]
  cases h with
  | own hlisted hstatic => exact .inl (.inl (List.mem_filter.2 ⟨hlisted, by simp [hstatic]⟩))
  | exported s hs hmember hexported =>
    exact .inl (.inr (List.mem_filterMap.2 ⟨s, hs, by simp [hmember, hexported]⟩))
  | stored hstored => exact .inr hstored

/-- What the slot of a field is to start with: what the constructor stores, or else the default of the
type. -/
def Initializer.startValue (init : Initializer) (md : Metadata) (f : FieldRef) : Value :=
  (init.initial.lookup f).getD (md.defaultValue (md.field f).type)

/-- The variable stands for a field: it has the type of the field and its name on the host. -/
structure Variable.Stands (x : Variable) (env : ClassEnv) (f : FieldRef) : Prop where
  type : x.type = (env.md.field f).type
  name : ∃ s, env.naming.find? (.field f) = some s ∧ x.name = some s.emitted

namespace Draft

variable {env : ClassEnv} {init : Initializer} {d d' : Draft} {f g : FieldRef} {v : VarRef}

/-- Variables of fields stand for them and have the values that are to be set up. -/
def Declared (env : ClassEnv) (init : Initializer) (d : Draft) : Prop :=
  ∀ v f, d.vars.Has v → d.vars.kind v = .field f →
    (d.vars.get v).Stands env f ∧ (d.vars.get v).value = some (init.startValue env.md f)

def HasField (d : Draft) (f : FieldRef) : Prop := ∃ v, d.vars.Has v ∧ d.vars.kind v = .field f

lemma declared_start (owner : TypeRef) : (start owner).Declared env init := by
  rintro ⟨k⟩ f hv hkind
  have hk : k < 3 := hv
  interval_cases k <;> cases hkind

lemma fieldVar_cases (h : d.fieldVar env f = .ok (v, d')) :
    d' = d ∧ d.vars.Has v ∧ d.vars.kind v = .field f ∨
      ∃ x : Variable, v = (d.vars.add x).1 ∧ d'.vars = (d.vars.add x).2 ∧ x.kind = .field f ∧
        x.Stands env f ∧ x.value = some (env.md.defaultValue (env.md.field f).type) := by
  unfold Draft.fieldVar at h
  split at h
  · rename_i w hw
    obtain ⟨rfl, rfl⟩ := Prod.mk.inj (Except.ok.inj h)
    exact .inl ⟨rfl, Variables.findField?_spec hw⟩
  · obtain ⟨s, hs, h⟩ := except_bind_eq_ok_iff.1 h
    obtain ⟨rfl, rfl⟩ := Prod.mk.inj (Except.ok.inj h)
    refine .inr ⟨_, rfl, rfl, rfl, ⟨rfl, s, ?_, rfl⟩, rfl⟩
    unfold Naming.lookup at hs
    split at hs
    · rename_i s' hs'
      rw [hs', Except.ok.inj hs]
    · cases hs

/-- What a step of the declaration of fields does to the variables: a field has one that stands for it,
and others are left alone. -/
structure Declaring (env : ClassEnv) (f : FieldRef) (v : VarRef) (d d' : Draft) : Prop where
  has : d'.vars.Has v
  kind : d'.vars.kind v = .field f
  stands : (d'.vars.get v).Stands env f
  kept : ∀ w, d.vars.Has w → d'.vars.Has w ∧ d'.vars.kind w = d.vars.kind w
  others : ∀ w, w ≠ v → d'.vars.Has w → d.vars.Has w ∧ d'.vars.get w = d.vars.get w

lemma fieldVar_declaring (h : d.fieldVar env f = .ok (v, d')) (hd : d.Declared env init) :
    Declaring env f v d d' ∧ ((d'.vars.get v).value = some (init.startValue env.md f) ∨
      (d'.vars.get v).value = some (env.md.defaultValue (env.md.field f).type)) := by
  rcases fieldVar_cases h with ⟨rfl, hv, hkind⟩ | ⟨x, rfl, hvars, hkind, hstands, hvalue⟩
  · obtain ⟨hstands, hvalue⟩ := hd v f hv hkind
    exact ⟨⟨hv, hkind, hstands, fun w hw => ⟨hw, rfl⟩, fun w _ hw => ⟨hw, rfl⟩⟩, .inl hvalue⟩
  · have hnew : d'.vars.get (d.vars.add x).1 = x := by rw [hvars, Variables.get_add_new]
    refine ⟨⟨?_, ?_, by rwa [hnew], fun w hw => ?_, fun w hne hw => ?_⟩, .inr (by rwa [hnew])⟩
    · rw [hvars]
      exact Variables.has_add_new _ _
    · rw [Variables.kind, hnew, hkind]
    · rw [hvars, Variables.kind, Variables.get_add_old hw]
      exact ⟨Variables.has_add_old hw x, rfl⟩
    · rw [hvars] at hw ⊢
      have hold := ((Variables.has_add_iff _ _ _).1 hw).resolve_right hne
      exact ⟨hold, Variables.get_add_old hold x⟩

/-- **Declaring one field.**  What the constructor stores replaces the default. -/
lemma declareField_declaring (h : d.declareField env f (init.initial.lookup f) = .ok (v, d'))
    (hd : d.Declared env init) :
    Declaring env f v d d' ∧ (d'.vars.get v).value = some (init.startValue env.md f) := by
  obtain ⟨⟨v₁, d₁⟩, hvar, h⟩ := except_bind_eq_ok_iff.1 h
  obtain ⟨hdecl, hvalue⟩ := fieldVar_declaring hvar hd
  cases hinit : init.initial.lookup f with
  | none =>
    rw [hinit] at h
    obtain ⟨rfl, rfl⟩ := Prod.mk.inj (Except.ok.inj h)
    refine ⟨hdecl, hvalue.elim id fun hdefault => ?_⟩
    rw [hdefault, Initializer.startValue, hinit]
    rfl
  | some y =>
    rw [hinit] at h
    obtain ⟨rfl, rfl⟩ := Prod.mk.inj (Except.ok.inj h)
    have hself := Variables.get_modify_self hdecl.has ({ · with value := some y })
    have hkind (w : VarRef) :
        (d₁.vars.modify v₁ ({ · with value := some y })).kind w = d₁.vars.kind w := by
      by_cases hw : w = v₁
      · rw [hw, Variables.kind, hself]
        rfl
      · rw [Variables.kind, Variables.get_modify_of_ne hw]
        rfl
    refine ⟨⟨(Variables.has_modify ..).2 hdecl.has, (hkind v₁).trans hdecl.kind, ?_, fun w hw => ?_,
      fun w hne hw => ?_⟩, ?_⟩
    · dsimp only
      rw [hself]
      exact ⟨hdecl.stands.type, hdecl.stands.name⟩
    · obtain ⟨hhas, hsame⟩ := hdecl.kept w hw
      exact ⟨(Variables.has_modify ..).2 hhas, (hkind w).trans hsame⟩
    · dsimp only
      rw [Variables.get_modify_of_ne hne]
      exact hdecl.others w hne ((Variables.has_modify ..).1 hw)
    · dsimp only
      rw [hself, Initializer.startValue, hinit]
      rfl

/-- **Declaring fields** one after another. -/
lemma declared_foldlM (fields : List FieldRef) (hd : d.Declared env init)
    (h : fields.foldlM (fun d f => do return (← d.declareField env f (init.initial.lookup f)).2) d =
      .ok d') :
    d'.Declared env init ∧ ∀ f, f ∈ fields ∨ d.HasField f → d'.HasField f := by
  induction fields generalizing d with
  | nil =>
    obtain rfl := Except.ok.inj h
    exact ⟨hd, fun f hf => hf.elim (by simp) id⟩
  | cons f fields ih =>
    rw [List.foldlM_cons] at h
    obtain ⟨d₁, hone, h⟩ := except_bind_eq_ok_iff.1 h
    obtain ⟨⟨v, d₁'⟩, hfield, hone⟩ := except_bind_eq_ok_iff.1 hone
    obtain rfl := Except.ok.inj hone
    obtain ⟨hdecl, hvalue⟩ := declareField_declaring hfield hd
    have hd₁ : d₁'.Declared env init := by
      intro w g hw hkind
      by_cases hwv : w = v
      · subst hwv
        obtain rfl : f = g := by simpa using hdecl.kind.symm.trans hkind
        exact ⟨hdecl.stands, hvalue⟩
      · obtain ⟨hold, hsame⟩ := hdecl.others w hwv hw
        rw [hsame]
        exact hd w g hold (by rw [Variables.kind, ← hsame]; exact hkind)
    obtain ⟨hd', hhas⟩ := ih hd₁ h
    refine ⟨hd', fun g hg => hhas g ?_⟩
    rcases hg with hg | ⟨w, hw, hkind⟩
    · rcases List.mem_cons.1 hg with rfl | hg
      · exact .inr ⟨v, hdecl.has, hdecl.kind⟩
      · exact .inl hg
    · obtain ⟨hw', hkind'⟩ := hdecl.kept w hw
      exact .inr ⟨w, hw', hkind'.trans hkind⟩

end Draft

/-! ## Slots -/

namespace Compilation

variable {o : Options} {md : Metadata} {t : TypeRef} (c : Compilation o md t) {init : Initializer}
  {f : FieldRef}

/-- **A declared field has its variable in the draft**, with name and initial value. -/
lemma exists_var_of_declares (hinit : Initializer.ofClass md c.naming t = .ok init)
    (hf : init.Declares md c.naming t f) :
    ∃ v, v ∈ c.placed.order ∧ (c.draft.vars.get v).Stands c.env f ∧
      c.draft.vars.kind v = .field f ∧ (c.draft.vars.get v).value = some (init.startValue md f) := by
  obtain ⟨init', d₀, hinit', hfields, hsteps⟩ := ClassEnv.steps_of_draft c.named c.entered c.drafted
  obtain rfl := Except.ok.inj (hinit.symm.trans hinit')
  obtain ⟨hdeclared, hhas⟩ := Draft.declared_foldlM _ (Draft.declared_start t) hfields
  obtain ⟨v, hv, hkind⟩ := hhas f (.inl (ClassEnv.mem_declaredFields hf))
  obtain ⟨⟨htype, hname⟩, hvalue⟩ := hdeclared v f hv hkind
  have hgrows := (ClassEnv.steps_sound hsteps (Draft.sound_declareFields hfields) c.isStandard c.fits).2.vars
  have hfield : c.draft.vars.kind v = .field f := (hgrows.kind_eq hv).trans hkind
  refine ⟨v, Draft.mem_heapOrder_iff.2 ⟨hgrows.has hv, .inl ?_⟩, ⟨?_, ?_⟩, hfield, ?_⟩
  · rw [Variable.isField, show (c.placed.draft.vars.get v).kind = _ from hfield]
  · exact (hgrows.type_eq hv).trans htype
  · rwa [hgrows.name_eq hv]
  · exact (hgrows.value_eq hv).trans hvalue

lemma nodup_slotNames : (c.program.heap.map Host.HeapSlot.name).Nodup :=
  (Draft.nodup_slots c.placed.layout_parts.2.1).1

end Compilation

lemma Naming.Separate.field_eq {md : Metadata} {n : Naming} {s s' : Symbol} {f g : FieldRef}
    (h : n.Separate md) (hs : n.find? (.field f) = some s) (hs' : n.find? (.field g) = some s')
    (heq : s.emitted = s'.emitted) : f = g := by
  have hfirst {s : Symbol} {f : FieldRef} (hs : n.find? (.field f) = some s) :
      ∃ i, n.At i s ∧ s.overrides = none ∧ s.member = .field f := by
    have hmember : s.member = .field f := by simpa using List.find?_some hs
    obtain ⟨i, hi⟩ := List.getElem?_of_mem (List.mem_reverse.1 (List.mem_of_find?_eq_some hs))
    obtain ⟨b, hb, hroot, hself | hfollows⟩ := h.family hi
    · obtain rfl := At.unique hi (hself ▸ hb)
      exact ⟨i, hi, hroot.overrides, hmember⟩
    · have hmethod := hfollows.isMethod
      simp [Symbol.method?, hmember] at hmethod
  obtain ⟨i, hi, hnone, hf⟩ := hfirst hs
  obtain ⟨j, hj, hnone', hg⟩ := hfirst hs'
  obtain rfl := h.distinct hi hj hnone hnone' heq
  obtain rfl := At.unique hi hj
  simpa using hf.symm.trans hg

/-- The field has exactly one slot in a program, which has the type of the field and starts with what the
constructor stores or else with the default of the type. -/
def Initializer.FillsSlot (init : Initializer) (md : Metadata) (o : Options) (naming : Naming)
    (p : Host.Program) (f : FieldRef) : Prop :=
  ∃ s, naming.find? (.field f) = some s ∧ (p.heap.map Host.HeapSlot.name).count s.emitted = 1 ∧
    ∃ slot ∈ p.heap, slot.name = s.emitted ∧
      slot.hostType = md.hostIdent o.behaviourType (md.field f).type ∧ slot.value = init.startValue md f

namespace Initializer

variable {o : Options} {md : Metadata} {naming : Naming} {t : TypeRef} {init : Initializer}

/-- **Declared fields have their slots.** -/
lemma fillsSlot_of_compile {p : Host.Program} {f : FieldRef}
    (h : ((Compiler.new o).compile md t).1 = .ok p) (hnaming : Naming.ofClass md o t = .ok naming)
    (hinit : ofClass md naming t = .ok init) (hf : init.Declares md naming t f) :
    init.FillsSlot md o naming p f := by
  obtain ⟨c, rfl⟩ := Compiler.exists_compilation h
  obtain rfl := Except.ok.inj (c.named.symm.trans hnaming)
  obtain ⟨v, hv, ⟨htype, s, hs, hname⟩, hkind, hvalue⟩ := c.exists_var_of_declares hinit hf
  obtain ⟨hlen, hall⟩ := List.forall₂_iff_zip.1 c.placed.heap_spec
  rw [← List.map_fst_zip hlen.le] at hv
  obtain ⟨⟨_, slot⟩, hslot, rfl⟩ := List.mem_map.1 hv
  have hfor := hall hslot
  have hmem : slot ∈ c.program.heap := (List.of_mem_zip hslot).2
  have hemitted : slot.name = s.emitted := hfor.name _ hname
  refine ⟨s, hs, ?_, slot, hmem, hemitted, ?_, ?_⟩
  · exact List.count_eq_one_of_mem c.nodup_slotNames (List.mem_map.2 ⟨slot, hmem, hemitted⟩)
  · exact hfor.hostType.trans (congrArg _ htype)
  · have hslotValue := hfor.value
    rw [Draft.slotValue, show (c.placed.draft.vars.get _).kind = _ from hkind] at hslotValue
    exact (Except.ok.inj hslotValue).symm.trans (by rw [show (c.placed.draft.vars.get _).value = _ from hvalue]; rfl)

/-- **Constructors are executed when the class is compiled.**  Let base classes never lead back, and let
types have at most one constructor without parameters, which is not static.  Running the constructor of a
class up to its remainder, or to its return if there is none, stores into exactly the fields that have
initial values and leaves these there.  Nothing is skipped behind what is executed but the return, and no
jump of the remainder leads in front of it.  In every program of the class the fields that it declares, the
exported ones and those with initial values have one slot each, which starts with the initial value or else
with the default of the type. -/
theorem constructor_is_executed (hmd : md.Made) (hacyclic : Metadata.Acyclic md.BaseLink)
    (hplain : md.PlainCtors) (hnaming : Naming.ofClass md o t = .ok naming)
    (hinit : ofClass md naming t = .ok init) :
    (∀ ctor body, init.ctor = some ctor → (md.method ctor).body = some body →
      plainCtor md t = .ok (some ctor) ∧ Bytecode.decode md body.code = .ok init.code) ∧
    (init.initial.map Prod.fst).Nodup ∧
    Construction.run md t init.executed = some { fields := fun f => init.initial.lookup f } ∧
    (init.remainder = none →
      ∀ i ∈ init.code.drop init.executed.length, i.opcode = .nop ∨ i.opcode = .ret) ∧
    (∀ cut, init.remainder = some cut → init.executed = init.code.take cut ∧
      ∃ first, init.code[cut]? = some first ∧
        ∀ i ∈ init.code.drop cut, ∀ x ∈ i.targets, first.offset ≤ x) ∧
    (∀ p, ((Compiler.new o).compile md t).1 = .ok p →
      ∀ f, init.Declares md naming t f → init.FillsSlot md o naming p f) ∧
    (∀ f g s s', naming.find? (.field f) = some s → naming.find? (.field g) = some s' →
      s.emitted = s'.emitted → f = g) := by
  obtain ⟨hnodup, hruns⟩ := ofClass_runs hmd.catalogued hacyclic hplain hinit
    (Metadata.length_ancestorsWithin_le md md.types.size t)
  refine ⟨fun ctor body hctor hbody => ?_, hnodup, ?_, ofClass_whole hinit, fun cut hcut => ?_,
    fun p hp f => fillsSlot_of_compile hp hnaming hinit,
    fun f g s s' => (Naming.ofClass_separate hnaming).field_eq⟩
  · rcases ofClass_cases hinit with ⟨-, rfl⟩ | ⟨ctor', hplain, ⟨hnone, rfl⟩ | hscans⟩
    · cases hctor
    · obtain rfl := Option.some.inj hctor
      rw [hnone] at hbody
      cases hbody
    · obtain rfl := Option.some.inj (hscans.isSet.symm.trans hctor)
      obtain ⟨body', hbody', hdecode⟩ := hscans.decoded
      obtain rfl := Option.some.inj (hbody'.symm.trans hbody)
      exact ⟨hplain, hdecode⟩
  · rw [Construction.run, hruns]
    congr 2
    funext f
    exact Option.or_none
  · exact ⟨by rw [executed, hcut], ofClass_closed hinit hcut⟩

/-- A class and one derived from it, both with constructors.  That of the base class stores constants, and
the other calls it, stores over one of them, converts another constant and then copies a field. -/
def constructing : Metadata :=
  let ctor : MethodDecl := { name := ".ctor", result := .void }
  let md := (Metadata.addType {} (Naming.userClass "Game.Base" none [])).2
  let md := (md.addType (Naming.userClass "Game.Door" (some ⟨16⟩) [])).2
  let md := (md.addField ⟨16⟩ { name := "a", type := .int32, flags := { exported := true } }).2
  let md := (md.addField ⟨16⟩ { name := "b", type := .int32 }).2
  let md := (md.addField ⟨17⟩ { name := "c", type := .int64 }).2
  let md := (md.addField ⟨17⟩ { name := "d", type := .int32 }).2
  let md := (md.addMethod ⟨16⟩ ctor).2
  let md := (md.addMethod ⟨17⟩ ctor).2
  let md := md.setBody ⟨0⟩
    { code := [0x02, 0x1b, 0x7d, 0x01, 0, 0, 0x04, 0x02, 0x1c, 0x7d, 0x02, 0, 0, 0x04, 0x2a] }
  md.setBody ⟨1⟩
    { code := [0x00, 0x02, 0x28, 0x01, 0, 0, 0x06, 0x00, 0x02, 0x1d, 0x7d, 0x02, 0, 0, 0x04,
        0x02, 0x1e, 0x7d, 0x03, 0, 0, 0x04,
        0x02, 0x02, 0x7b, 0x02, 0, 0, 0x04, 0x7d, 0x04, 0, 0, 0x04, 0x2a] }

lemma made_constructing : constructing.Made := by
  refine .setBody _ _ (.setBody _ _ (.addMethod _ (.addMethod _ (.addField _ (.addField _ (.addField _
    (.addField _ (.addType (.addType .empty ?_ ?_) ?_ ?_) ?_) ?_) ?_) ?_) ?_) ?_))
  all_goals decide

lemma acyclic_constructing : Metadata.Acyclic constructing.BaseLink :=
  (Metadata.acyclic_of_lt (by decide)).mono fun _ _ => Or.inl

lemma plainCtors_constructing : constructing.PlainCtors :=
  Metadata.plainCtors_of_forall (by decide)

/-- The constructor of the derived class is executed up to the copy, and all four fields have slots. -/
theorem constructor_is_executed_constructing : ∃ naming init p,
    constructing.Made ∧ Metadata.Acyclic constructing.BaseLink ∧ constructing.PlainCtors ∧
    Naming.ofClass constructing {} ⟨17⟩ = .ok naming ∧ ofClass constructing naming ⟨17⟩ = .ok init ∧
    ((Compiler.new {}).compile constructing ⟨17⟩).1 = .ok p ∧
    init.initial = [(⟨0⟩, .int .int32 5), (⟨1⟩, .int .int32 7), (⟨2⟩, .int .int64 8)] ∧
    Construction.run constructing ⟨17⟩ (init.code.take 10) =
      some { fields := fun f => init.initial.lookup f } ∧
    (∃ first, init.code[10]? = some first ∧
      ∀ i ∈ init.code.drop 10, ∀ x ∈ i.targets, first.offset ≤ x) ∧
    ∀ f ∈ [⟨0⟩, ⟨1⟩, ⟨2⟩, ⟨3⟩], init.FillsSlot constructing {} naming p f := by
  have hparts : ((Naming.ofClass constructing {} ⟨17⟩).toOption.bind fun naming =>
      (ofClass constructing naming ⟨17⟩).toOption).map (fun init => (init.initial, init.remainder)) =
      some ([(⟨0⟩, .int .int32 5), (⟨1⟩, .int .int32 7), (⟨2⟩, .int .int64 8)], some 10) := by
    decide +kernel
  have hcompiled : ((Compiler.new {}).compile constructing ⟨17⟩).1.toOption.isSome = true := by
    decide +kernel
  obtain ⟨init, hinit, hparts⟩ := Option.map_eq_some_iff.1 hparts
  obtain ⟨naming, hnaming, hinit⟩ := Option.bind_eq_some_iff.1 hinit
  obtain ⟨p, hp⟩ := Option.isSome_iff_exists.1 hcompiled
  have hnaming := ok_of_toOption hnaming
  have hinit := ok_of_toOption hinit
  have hp := ok_of_toOption hp
  obtain ⟨hinitial, hremainder⟩ := Prod.mk.inj hparts
  obtain ⟨-, -, hrun, -, hcut, hslots, -⟩ := constructor_is_executed made_constructing
    acyclic_constructing plainCtors_constructing hnaming hinit
  obtain ⟨htake, hclosed⟩ := hcut 10 hremainder
  refine ⟨naming, init, p, made_constructing, acyclic_constructing, plainCtors_constructing, hnaming,
    hinit, hp, hinitial, htake ▸ hrun, hclosed, fun f hf => hslots p hp f ?_⟩
  -- two fields of the base class that the constructors store into, and two of the class itself
  fin_cases hf
  · exact .stored (by simp [hinitial])
  · exact .stored (by simp [hinitial])
  · exact .own (by decide) rfl
  · exact .own (by decide) rfl

end Initializer

end FlatHeap
