import FlatHeap.Lowering.Scratch
import FlatHeap.Proofs.Words

/-!
# The variable table during a lowering

A lowering only ever adds variables.  What it changes about a variable that is there already is what
the scratch pool keeps about it: the pending reads, the reservation, whether it is in the pool, and
where it was handed out.  Type, kind, name and value stay.  `Variables.Grows` says so, and everything
that is later said about an operation recorded early in a draft rests on it: the variable the
operation names is still the same variable when the draft is laid out.

Two facts about tables that hold throughout are collected in `Variables.Tidy`: the parts of an
address are themselves variables of the table, and a variable with a fixed name is a slot, never a
temporary, a local slot, a constant or an address.

`Variables.load` counts how often an operand stack entry refers to a variable.  An entry refers to
itself once, but an element address stands for two reads, one of its array and one of its index.
-/

namespace FlatHeap

namespace Variable

def lasting (v : Variable) : Variable :=
  { v with uses := 0, reserved := false, pooled := false, handOut := none }

lemma type_eq_of_lasting {v w : Variable} (h : v.lasting = w.lasting) : v.type = w.type := by
  simpa [lasting] using congrArg Variable.type h

lemma kind_eq_of_lasting {v w : Variable} (h : v.lasting = w.lasting) : v.kind = w.kind := by
  simpa [lasting] using congrArg Variable.kind h

lemma name_eq_of_lasting {v w : Variable} (h : v.lasting = w.lasting) : v.name = w.name := by
  simpa [lasting] using congrArg Variable.name h

lemma value_eq_of_lasting {v w : Variable} (h : v.lasting = w.lasting) : v.value = w.value := by
  simpa [lasting] using congrArg Variable.value h

@[simp] lemma isTemporary_iff (v : Variable) : v.isTemporary = true ↔ v.kind = .temporary := by
  simp [isTemporary]

lemma isAddress_of_temporary {v : Variable} (h : v.kind = .temporary) : v.isAddress = false := by
  simp [isAddress, h]

lemma isConstant_of_temporary {v : Variable} (h : v.kind = .temporary) :
    v.isConstant = false := by
  simp [isConstant, h]

end Variable

namespace Variables

variable {vs vs' : Variables}

def Has (vs : Variables) (v : VarRef) : Prop := v.index < vs.entries.size

def kind (vs : Variables) (v : VarRef) : VarKind := (vs.get v).kind

lemma not_temporary_of_isAddress {v : VarRef} (h : (vs.get v).isAddress = true) :
    vs.kind v ≠ .temporary := fun hk => by
  simp [Variable.isAddress_of_temporary hk] at h

lemma isTemporary_eq_false {v : VarRef} (h : vs.kind v ≠ .temporary) :
    (vs.get v).isTemporary = false := by
  simpa [Variable.isTemporary, kind] using h

/-! ## Reading a changed table -/

lemma get_of_not_has {v : VarRef} (h : ¬ vs.Has v) : vs.get v = default := by
  simp only [Has, Nat.not_lt] at h
  simp [get, Array.getElem?_eq_none h]

lemma size_modify (vs : Variables) (v : VarRef) (f : Variable → Variable) :
    (vs.modify v f).entries.size = vs.entries.size := by
  simp [modify]

@[simp] lemma has_modify (vs : Variables) (v w : VarRef) (f : Variable → Variable) :
    (vs.modify v f).Has w ↔ vs.Has w := by
  simp [Has, size_modify]

lemma get_modify_self {v : VarRef} (h : vs.Has v) (f : Variable → Variable) :
    (vs.modify v f).get v = f (vs.get v) := by
  simp only [Has] at h
  simp [get, modify, Array.getElem_modify, h]

lemma get_modify_of_ne {v w : VarRef} (h : w ≠ v) (f : Variable → Variable) :
    (vs.modify v f).get w = vs.get w := by
  have hne : ¬ v.index = w.index := fun e => h (by cases v; cases w; simp_all)
  simp [get, modify, Array.getElem?_modify, hne]

lemma modify_modify (vs : Variables) (v : VarRef) (f g : Variable → Variable) :
    (vs.modify v f).modify v g = vs.modify v (g ∘ f) := by
  simp only [modify, Variables.mk.injEq]
  ext i hi hi'
  · simp
  · simp only [Array.getElem_modify, Function.comp]
    split <;> rfl

lemma has_add_old {v : VarRef} (h : vs.Has v) (x : Variable) : (vs.add x).2.Has v := by
  simp only [Has, add, Array.size_push] at *
  omega

lemma has_add_new (vs : Variables) (x : Variable) : (vs.add x).2.Has (vs.add x).1 := by
  simp [Has, add]

lemma not_has_add_new (vs : Variables) (x : Variable) : ¬ vs.Has (vs.add x).1 := by
  simp [Has, add]

lemma has_add_iff (vs : Variables) (x : Variable) (v : VarRef) :
    (vs.add x).2.Has v ↔ vs.Has v ∨ v = (vs.add x).1 := by
  cases v
  simp only [Has, add, Array.size_push, VarRef.mk.injEq]
  omega

lemma get_add_old {v : VarRef} (h : vs.Has v) (x : Variable) : (vs.add x).2.get v = vs.get v := by
  simp only [Has] at h
  have hne : ¬ v.index = vs.entries.size := by omega
  simp [get, add, Array.getElem?_push, hne]

lemma get_add_new (vs : Variables) (x : Variable) : (vs.add x).2.get (vs.add x).1 = x := by
  simp [get, add]

/-! ## Growth -/

/-- The second table has all variables of the first one, as far as they last. -/
structure Grows (vs vs' : Variables) : Prop where
  size_le : vs.entries.size ≤ vs'.entries.size
  same : ∀ v, vs.Has v → (vs'.get v).lasting = (vs.get v).lasting

namespace Grows

variable {vs vs' vs'' : Variables} {v : VarRef}

lemma refl (vs : Variables) : vs.Grows vs := ⟨le_rfl, fun _ _ => rfl⟩

lemma has (h : vs.Grows vs') (hv : vs.Has v) : vs'.Has v := lt_of_lt_of_le hv h.size_le

lemma trans (h : vs.Grows vs') (h' : vs'.Grows vs'') : vs.Grows vs'' :=
  ⟨h.size_le.trans h'.size_le, fun v hv => (h'.same v (h.has hv)).trans (h.same v hv)⟩

lemma kind_eq (h : vs.Grows vs') (hv : vs.Has v) : vs'.kind v = vs.kind v :=
  Variable.kind_eq_of_lasting (h.same v hv)

lemma type_eq (h : vs.Grows vs') (hv : vs.Has v) : (vs'.get v).type = (vs.get v).type :=
  Variable.type_eq_of_lasting (h.same v hv)

lemma name_eq (h : vs.Grows vs') (hv : vs.Has v) : (vs'.get v).name = (vs.get v).name :=
  Variable.name_eq_of_lasting (h.same v hv)

lemma value_eq (h : vs.Grows vs') (hv : vs.Has v) : (vs'.get v).value = (vs.get v).value :=
  Variable.value_eq_of_lasting (h.same v hv)

end Grows

lemma grows_modify (vs : Variables) (v : VarRef) (f : Variable → Variable)
    (hf : ∀ x, (f x).lasting = x.lasting) : vs.Grows (vs.modify v f) := by
  refine ⟨(size_modify vs v f).ge, fun w hw => ?_⟩
  by_cases h : w = v
  · subst h
    rw [get_modify_self hw, hf]
  · rw [get_modify_of_ne h]

lemma grows_add (vs : Variables) (x : Variable) : vs.Grows (vs.add x).2 := by
  refine ⟨by simp [add], fun w hw => ?_⟩
  rw [get_add_old hw]

/-- The second table differs from the first one in what the scratch pool keeps about `v` at most. -/
def Alters (vs : Variables) (v : VarRef) (vs' : Variables) : Prop :=
  ∃ f : Variable → Variable, vs' = vs.modify v f ∧ ∀ x, (f x).lasting = x.lasting

namespace Alters

variable {v w : VarRef}

lemma refl : vs.Alters v vs := by
  refine ⟨id, congrArg Variables.mk (Array.ext (by simp) fun i _ _ => ?_), fun _ => rfl⟩
  simp [Array.getElem_modify]

lemma grows (h : vs.Alters v vs') : vs.Grows vs' := by
  obtain ⟨f, rfl, hf⟩ := h
  exact grows_modify vs v f hf

lemma size_eq (h : vs.Alters v vs') : vs'.entries.size = vs.entries.size := by
  obtain ⟨f, rfl, -⟩ := h
  exact size_modify vs v f

lemma get_of_ne (h : vs.Alters v vs') (hw : w ≠ v) : vs'.get w = vs.get w := by
  obtain ⟨f, rfl, -⟩ := h
  exact get_modify_of_ne hw f

end Alters

/-! ## Looking variables up -/

lemma findIdx?_index {p : Variable → Bool} {v : VarRef}
    (h : (vs.entries.findIdx? p).map VarRef.mk = some v) : vs.Has v ∧ p (vs.get v) = true := by
  obtain ⟨i, hi, rfl⟩ := Option.map_eq_some_iff.1 h
  obtain ⟨hlt, hp, -⟩ := Array.findIdx?_eq_some_iff_getElem.1 hi
  refine ⟨hlt, ?_⟩
  simpa [get, hlt] using hp

lemma find?_spec {name : String} {v : VarRef} (h : vs.find? name = some v) :
    vs.Has v ∧ (vs.get v).name = some name := by
  obtain ⟨i, hi, rfl⟩ := Option.map_eq_some_iff.1 h
  obtain ⟨hlt, hp, -⟩ := List.findIdx?_eq_some_iff_getElem.1 hi
  simp only [List.length_reverse, Array.length_toList] at hlt
  have hv : vs.entries.size - 1 - i < vs.entries.size := by omega
  refine ⟨hv, ?_⟩
  simpa [get, hv, List.getElem_reverse] using hp

lemma findField?_spec {f : FieldRef} {v : VarRef} (h : vs.findField? f = some v) :
    vs.Has v ∧ vs.kind v = .field f := by
  obtain ⟨hv, hp⟩ := findIdx?_index h
  exact ⟨hv, by simpa [kind] using hp⟩

lemma findConstant?_spec {x : Value} {t : TypeRef} {v : VarRef} (h : vs.findConstant? x t = some v) :
    vs.Has v ∧ vs.kind v = .constant ∧ (vs.get v).type = t ∧
      (vs.get v).value = some x := by
  obtain ⟨hv, hp⟩ := findIdx?_index h
  simp only [Bool.and_eq_true, beq_iff_eq, Variable.constant?] at hp
  obtain ⟨ht, hc⟩ := hp
  by_cases hk : (vs.get v).kind = .constant
  · rw [if_pos hk] at hc
    obtain ⟨y, hy, hxy⟩ := Option.map_eq_some_iff.1 hc
    exact ⟨hv, hk, ht, by rw [hy, Value.identity_injective hxy]⟩
  · simp [hk] at hc

def Named (vs : Variables) (v : VarRef) (x : String) : Prop :=
  vs.Has v ∧ (vs.get v).name = some x

lemma Named.grows {v : VarRef} {x : String} (h : vs.Named v x) (g : vs.Grows vs') : vs'.Named v x :=
  ⟨g.has h.1, (g.name_eq h.1).trans h.2⟩

lemma named_spec (vs : Variables) (x : String) (t : TypeRef) (kind : VarKind) :
    vs.Grows (vs.named x t kind).2 ∧ (vs.named x t kind).2.Named (vs.named x t kind).1 x := by
  unfold Variables.named
  split
  · rename_i v hv
    exact ⟨.refl vs, find?_spec hv⟩
  · exact ⟨grows_add vs _, has_add_new vs _, by rw [get_add_new]⟩

lemma nodup_of_named {l : List VarRef} {names : List String} (h : List.Forall₂ vs.Named l names)
    (hn : names.Nodup) : l.Nodup := by
  refine List.Nodup.of_map (fun v => (vs.get v).name) ?_
  have hmap : l.map (fun v => (vs.get v).name) = names.map some := by
    induction h with
    | nil => rfl
    | cons hv _ ih => rw [List.map_cons, List.map_cons, hv.2, ih (List.nodup_cons.1 hn).2]
  rw [hmap]
  exact hn.map (Option.some_injective _)

/-! ## Tidy tables -/

def Fixed : VarKind → Prop
  | .self | .field _ | .parameter | .returnValue | .returnJump => True
  | _ => False

def Unlabelled (vs : Variables) (v : VarRef) : Prop := ∀ l, vs.kind v ≠ .labelAddress l

/-- Parts of addresses are variables of the table, and names are given to slots only. -/
structure Tidy (vs : Variables) : Prop where
  target : ∀ v t, vs.kind v = .address t → vs.Has t
  parts : ∀ v a i, vs.kind v = .element a i → vs.Has a ∧ vs.Has i
  named : ∀ v n, (vs.get v).name = some n → Fixed (vs.kind v)
  unlabelled : ∀ v a i, vs.kind v = .element a i → vs.Unlabelled a ∧ vs.Unlabelled i

structure Joins (vs : Variables) (x : Variable) : Prop where
  target : ∀ t, x.kind = .address t → vs.Has t
  parts : ∀ a i, x.kind = .element a i → vs.Has a ∧ vs.Has i
  named : ∀ n, x.name = some n → Fixed x.kind
  unlabelled : ∀ a i, x.kind = .element a i → vs.Unlabelled a ∧ vs.Unlabelled i

lemma Grows.unlabelled {v : VarRef} (g : vs.Grows vs') (hv : vs.Has v) (h : vs.Unlabelled v) :
    vs'.Unlabelled v := by
  intro l
  rw [g.kind_eq hv]
  exact h l

lemma Tidy.of_same (h : vs.Tidy) (size : vs'.entries.size = vs.entries.size) (g : vs.Grows vs') :
    vs'.Tidy := by
  have has (v : VarRef) : vs'.Has v ↔ vs.Has v := by simp [Has, size]
  have same (v : VarRef) : (vs'.get v).lasting = (vs.get v).lasting := by
    by_cases hv : vs.Has v
    · exact g.same v hv
    · rw [get_of_not_has hv, get_of_not_has (fun h' => hv ((has v).1 h'))]
  have kind (v : VarRef) : vs'.kind v = vs.kind v := Variable.kind_eq_of_lasting (same v)
  refine ⟨fun v t hk => ?_, fun v a i hk => ?_, fun v n hn => ?_, fun v a i hk => ?_⟩
  · exact (has t).2 (h.target v t (kind v ▸ hk))
  · exact ⟨(has a).2 (h.parts v a i (kind v ▸ hk)).1, (has i).2 (h.parts v a i (kind v ▸ hk)).2⟩
  · rw [kind v]
    exact h.named v n (by rw [← Variable.name_eq_of_lasting (same v), hn])
  · rw [kind v] at hk
    rw [Unlabelled, Unlabelled, kind a, kind i]
    exact h.unlabelled v a i hk

lemma kind_default {v : VarRef} (h : ¬ vs.Has v) : vs.kind v = .self := by
  rw [kind, get_of_not_has h]
  rfl

lemma Tidy.add {x : Variable} (h : vs.Tidy) (hx : vs.Joins x) : (vs.add x).2.Tidy := by
  have cases (v : VarRef) : (vs.add x).2.get v = vs.get v ∨ (vs.add x).2.get v = x := by
    by_cases hv : (vs.add x).2.Has v
    · rcases (has_add_iff vs x v).1 hv with hv | rfl
      · exact .inl (get_add_old hv x)
      · exact .inr (get_add_new vs x)
    · have hv' : ¬ vs.Has v := fun h' => hv (has_add_old h' x)
      exact .inl (by rw [get_of_not_has hv, get_of_not_has hv'])
  have keep {a : VarRef} (ha : vs.Has a) (hl : vs.Unlabelled a) : (vs.add x).2.Unlabelled a :=
    (grows_add vs x).unlabelled ha hl
  refine ⟨fun v t hk => ?_, fun v a i hk => ?_, fun v n hn => ?_, fun v a i hk => ?_⟩
  · rcases cases v with e | e <;> rw [kind, e] at hk
    · exact has_add_old (h.target v t hk) x
    · exact has_add_old (hx.target t hk) x
  · rcases cases v with e | e <;> rw [kind, e] at hk
    · exact ⟨has_add_old (h.parts v a i hk).1 x, has_add_old (h.parts v a i hk).2 x⟩
    · exact ⟨has_add_old (hx.parts a i hk).1 x, has_add_old (hx.parts a i hk).2 x⟩
  · rcases cases v with e | e <;> rw [e] at hn <;> rw [kind, e]
    · exact h.named v n hn
    · exact hx.named n hn
  · rcases cases v with e | e <;> rw [kind, e] at hk
    · have hp := h.parts v a i hk
      have hl := h.unlabelled v a i hk
      exact ⟨keep hp.1 hl.1, keep hp.2 hl.2⟩
    · have hp := hx.parts a i hk
      have hl := hx.unlabelled a i hk
      exact ⟨keep hp.1 hl.1, keep hp.2 hl.2⟩

lemma Tidy.fixed_of_find? (h : vs.Tidy) {name : String} {v : VarRef} (hv : vs.find? name = some v) :
    Fixed (vs.kind v) :=
  h.named v name (find?_spec hv).2

end Variables

/-! ## How often an entry refers to a variable -/

namespace Variables

/-- How many reads of `t` an operand stack entry `v` stands for. -/
def load (vs : Variables) (v t : VarRef) : Nat :=
  match vs.kind v with
  | .element array index => (if array = t then 1 else 0) + (if index = t then 1 else 0)
  | _ => if v = t then 1 else 0

def loads (vs : Variables) (l : List VarRef) (t : VarRef) : Nat := (l.map (vs.load · t)).sum

variable {vs vs' : Variables} {v t : VarRef} {l l' : List VarRef}

@[simp] lemma loads_nil (t : VarRef) : vs.loads [] t = 0 := rfl

@[simp] lemma loads_cons (v : VarRef) (l : List VarRef) (t : VarRef) :
    vs.loads (v :: l) t = vs.load v t + vs.loads l t := by
  simp [loads]

@[simp] lemma loads_append (l l' : List VarRef) (t : VarRef) :
    vs.loads (l ++ l') t = vs.loads l t + vs.loads l' t := by
  simp [loads]

lemma loads_perm (h : l.Perm l') (t : VarRef) : vs.loads l t = vs.loads l' t :=
  (h.map _).sum_eq

/-- The entry stands for a variable itself and not for an element address. -/
def Plain (vs : Variables) (v : VarRef) : Prop := ∀ a i, vs.kind v ≠ .element a i

lemma load_of_plain (h : vs.Plain v) (t : VarRef) : vs.load v t = if v = t then 1 else 0 := by
  unfold load
  split
  · rename_i a i hk
    exact absurd hk (h a i)
  · rfl

lemma load_self (h : vs.Plain v) : vs.load v v = 1 := by simp [load_of_plain h]

lemma plain_of_not_isAddress (h : (vs.get v).isAddress = false) : vs.Plain v := by
  intro a i hk
  simp only [kind] at hk
  simp [Variable.isAddress, hk] at h

lemma plain_of_temporary (h : vs.kind v = .temporary) : vs.Plain v := by
  intro a i hk
  simp [h] at hk

lemma load_of_not_temporary (hp : vs.Plain v) (hv : vs.kind v ≠ .temporary)
    (ht : vs.kind t = .temporary) : vs.load v t = 0 := by
  rw [load_of_plain hp, if_neg]
  rintro rfl
  exact hv ht

lemma load_eq_of_kind_eq (h : vs'.kind v = vs.kind v) (t : VarRef) : vs'.load v t = vs.load v t := by
  simp only [load, h]

lemma loads_eq_of_grows (g : vs.Grows vs') (h : ∀ v ∈ l, vs.Has v) (t : VarRef) :
    vs'.loads l t = vs.loads l t := by
  unfold loads
  congr 1
  exact List.map_congr_left fun v hv => load_eq_of_kind_eq (g.kind_eq (h v hv)) t

lemma load_of_not_has (ht : vs.Tidy) (hv : vs.Has v) (h : ¬ vs.Has t) : vs.load v t = 0 := by
  unfold load
  split
  · rename_i a i hk
    obtain ⟨ha, hi⟩ := ht.parts v a i hk
    have hat : a ≠ t := fun e => h (e ▸ ha)
    have hit : i ≠ t := fun e => h (e ▸ hi)
    simp [hat, hit]
  · rw [if_neg]
    rintro rfl
    exact h hv

lemma loads_of_not_has (ht : vs.Tidy) (hl : ∀ v ∈ l, vs.Has v) (h : ¬ vs.Has t) :
    vs.loads l t = 0 := by
  induction l with
  | nil => rfl
  | cons v l ih =>
    rw [loads_cons, load_of_not_has ht (hl v (by simp)) h,
      ih fun w hw => hl w (List.mem_cons_of_mem v hw)]

lemma load_le_loads (h : v ∈ l) (t : VarRef) : vs.load v t ≤ vs.loads l t := by
  induction l with
  | nil => simp at h
  | cons w l ih =>
    rcases List.mem_cons.1 h with rfl | h
    · simp
    · have := ih h
      simp only [loads_cons]
      omega

end Variables

/-! ## What happens to variables and pool -/

namespace Scratch

/-- A step that changes variables and pool and hands out no temporary. -/
inductive Tends : Variables × Scratch → Variables × Scratch → Prop
  | add {vs : Variables} {p : Scratch} (x : Variable) (lasting : x.kind ≠ .temporary) :
    Tends (vs, p) ((vs.add x).2, p)
  | allocate {vs : Variables} {p : Scratch} {r : Variables × Scratch} {v : VarRef} {n : Nat}
    (op : p.allocate vs v n = .ok r) : Tends (vs, p) r
  | use {vs : Variables} {p : Scratch} {r : Variables × Scratch} {v : VarRef}
    (op : p.use vs v = .ok r) : Tends (vs, p) r
  | reserve {vs : Variables} {p : Scratch} {r : Variables × Scratch} {v : VarRef}
    (op : p.reserve vs v = .ok r) : Tends (vs, p) r
  | release {vs : Variables} {p : Scratch} {r : Variables × Scratch} {v : VarRef}
    (op : p.release vs v = .ok r) : Tends (vs, p) r

/-- **What happens to variables and pool**, step by step, with the temporaries that are handed out on
the way. -/
inductive Deals : List VarRef → Variables × Scratch → Variables × Scratch → Prop
  | done {r : Variables × Scratch} : Deals [] r r
  | take {given : List VarRef} {vs : Variables} {p : Scratch} {r r' : Variables × Scratch}
    {t : TypeRef} {place : Option HandOut} {v : VarRef} (op : p.take vs t place = (v, r))
    (rest : Deals given r r') : Deals (v :: given) (vs, p) r'
  | tend {given : List VarRef} {r r' r'' : Variables × Scratch} (op : Tends r r')
    (rest : Deals given r' r'') : Deals given r r''

lemma Deals.append {given given' : List VarRef} {r r' r'' : Variables × Scratch}
    (h : Deals given r r') (h' : Deals given' r' r'') : Deals (given ++ given') r r'' := by
  induction h with
  | done => exact h'
  | take op _ ih => exact .take op (ih h')
  | tend op _ ih => exact .tend op (ih h')

lemma Tends.deals {r r' : Variables × Scratch} (h : Tends r r') : Deals [] r r' := .tend h .done

end Scratch

end FlatHeap
