import FlatHeap.Proofs.Metadata.Stability

/-!
# Derived types

Array and nullable types are remembered by their element type, so a request for one is answered by a
type of exactly that element, by the same one from then on, and by different ones for different
elements.  A by-reference type is found again by its name.  It too is the same from then on, but it
refers to the element asked for only if the first type with its name does
(`Metadata.derived_types_are_remembered`); elements of one name share theirs
(`Metadata.namesakes_share_reference`).
-/

namespace FlatHeap.Metadata

open Relation

inductive Derivation where
  | array
  | nullable
  | byRef
deriving DecidableEq

namespace Derivation

def request : Derivation → Metadata → TypeRef → TypeRef × Metadata
  | array => arrayOf
  | nullable => nullableOf
  | byRef => byRefOf

def kind : Derivation → TypeRef → TypeKind
  | array => .array
  | nullable => .nullable
  | byRef => .byRef

/-- Derived types that are remembered by their element. -/
def table : Derivation → Metadata → List (TypeRef × TypeRef)
  | array => arrays
  | nullable => nullables
  | byRef => fun _ => []

lemma kind_inj (d : Derivation) {e e' : TypeRef} (h : d.kind e = d.kind e') : e = e' := by
  cases d <;> injection h

end Derivation

variable {md md' md'' : Metadata} {e e' t : TypeRef} {d : Derivation}

/-- Remembered types are types of the store, each derived from its element. -/
def Remembers (md : Metadata) : Prop :=
  ∀ d e t, (Derivation.table d md).lookup e = some t →
    t.index < md.types.size ∧ md.kind t = d.kind e

/-- The second store extends the first one and has all its derived types. -/
structure Recalls (md md' : Metadata) : Prop extends md.Extends md' where
  lookup : ∀ d e t, (Derivation.table d md).lookup e = some t →
    (Derivation.table d md').lookup e = some t

/-- Remembered types stay right, and none is forgotten. -/
def Goes (md md' : Metadata) : Prop := md.Remembers → md'.Remembers ∧ md.Recalls md'

lemma Goes.refl (md : Metadata) : md.Goes md := fun h => ⟨h, .refl md, fun _ _ _ => id⟩

lemma Goes.trans (h : md.Goes md') (h' : md'.Goes md'') : md.Goes md'' := by
  intro hmd
  obtain ⟨hmd', hr⟩ := h hmd
  obtain ⟨hmd'', hr'⟩ := h' hmd'
  exact ⟨hmd'', hr.trans hr'.toExtends, fun d e t ht => hr'.lookup d e t (hr.lookup d e t ht)⟩

lemma Extends.kind_eq (h : md.Extends md') (ht : t.index < md.types.size) :
    t.index < md'.types.size ∧ md'.kind t = md.kind t :=
  ⟨lt_of_lt_of_le ht (by simpa using h.types.length_le), (h.same t ht).1⟩

lemma goes_of_tables (hext : md.Extends md')
    (htables : ∀ d : Derivation, d.table md' = d.table md) : md.Goes md' := by
  refine fun h => ⟨fun d e t ht => ?_, hext, fun d e t ht => (htables d).symm ▸ ht⟩
  obtain ⟨hlt, hkind⟩ := h d e t (htables d ▸ ht)
  exact (hext.kind_eq hlt).imp_right (·.trans hkind)

/-- A type is derived for the first time. -/
lemma goes_of_enter (hext : md.Extends md') (hnew : (d.table md).lookup e = none)
    (ht : t.index < md'.types.size ∧ md'.kind t = d.kind e)
    (htable : d.table md' = (e, t) :: d.table md)
    (hothers : ∀ d' : Derivation, d' ≠ d → d'.table md' = d'.table md) : md.Goes md' := by
  have hlookup (d' : Derivation) (e' t' : TypeRef) : (d'.table md').lookup e' = some t' ↔
      (d'.table md).lookup e' = some t' ∨ d' = d ∧ e' = e ∧ t' = t := by
    by_cases hd : d' = d
    · subst hd
      rw [htable, List.lookup_cons]
      split
      · rename_i heq
        obtain rfl := beq_iff_eq.1 heq
        simp [hnew, eq_comm]
      · rename_i hne
        simp [beq_eq_false_iff_ne.1 hne]
    · simp [hothers d' hd, hd]
  refine fun h => ⟨fun d' e' t' ht' => ?_, hext,
    fun d' e' t' ht' => (hlookup d' e' t').2 (.inl ht')⟩
  rcases (hlookup d' e' t').1 ht' with ht' | ⟨rfl, rfl, rfl⟩
  · obtain ⟨hlt, hkind⟩ := h d' e' t' ht'
    exact (hext.kind_eq hlt).imp_right (·.trans hkind)
  · exact ht

lemma kind_addType (md : Metadata) (decl : TypeDecl) :
    (md.addType decl).1.index < (md.addType decl).2.types.size ∧
      (md.addType decl).2.kind (md.addType decl).1 = decl.kind := by
  simp [Metadata.kind, type, addType]

lemma goes_arrayOf (md : Metadata) (e : TypeRef) : md.Goes (md.arrayOf e).2 := by
  cases hl : md.arrays.lookup e with
  | some t =>
    rw [show md.arrayOf e = (t, md) by rw [arrayOf, hl]]
    exact .refl md
  | none =>
    refine goes_of_enter (d := .array) (t := ⟨md.types.size⟩) (extends_arrayOf md e) hl ?_ ?_ ?_ <;>
      rw [arrayOf, hl]
    · exact kind_addType md _
    · rfl
    · intro d hd
      cases d <;> trivial

lemma goes_nullableOf (md : Metadata) (e : TypeRef) : md.Goes (md.nullableOf e).2 := by
  cases hl : md.nullables.lookup e with
  | some t =>
    rw [show md.nullableOf e = (t, md) by rw [nullableOf, hl]]
    exact .refl md
  | none =>
    refine goes_of_enter (d := .nullable) (t := ⟨md.types.size⟩) (extends_nullableOf md e) hl
      ?_ ?_ ?_ <;> rw [nullableOf, hl]
    · obtain ⟨hlt, hkind⟩ := kind_addType md
        (.host ("System.Nullable<" ++ md.typeName e ++ ">") (.nullable e))
      exact ((extends_addMethods _ (nullableMethods e) _).kind_eq hlt).imp_right (·.trans hkind)
    · rfl
    · intro d hd
      cases d <;> trivial

lemma Step.goes (h : md.Step md') : md.Goes md' := by
  cases h with
  | arrayOf elem => exact goes_arrayOf md elem
  | nullableOf inner => exact goes_nullableOf md inner
  | byRefOf elem =>
    refine goes_of_tables (extends_byRefOf md elem) fun d => ?_
    simp only [Metadata.byRefOf]
    split
    · rfl
    · cases d <;> rfl
  | stringToken s =>
    refine goes_of_tables (extends_stringToken md s) fun d => ?_
    rw [Metadata.stringToken]
    split
    · rfl
    · cases d <;> rfl
  | addType => exact goes_of_tables (extends_addType md _) fun d => by cases d <;> rfl
  | addField decl => exact goes_of_tables (extends_addField md _ decl) fun d => by cases d <;> rfl
  | addMethod decl => exact goes_of_tables (extends_addMethod md _ decl) fun d => by cases d <;> rfl
  | setBody m body => exact goes_of_tables (extends_setBody md m body) fun d => by cases d <;> rfl

lemma run_goes (h : ReflTransGen Step md md') : md.Goes md' := by
  induction h with
  | refl => exact .refl md
  | tail _ hstep ih => exact ih.trans hstep.goes

lemma step_request (d : Derivation) (md : Metadata) (e : TypeRef) : md.Step (d.request md e).2 := by
  cases d with
  | array => exact .arrayOf e
  | nullable => exact .nullableOf e
  | byRef => exact .byRefOf e

lemma remembers_empty : Remembers {} := by
  intro d e t ht
  cases d <;> cases ht

lemma Made.run (h : md.Made) : ReflTransGen Step {} md := by
  induction h with
  | empty => exact .refl
  | addType _ fields methods ih => exact ih.tail (.addType fields methods)
  | addField decl _ inStore ih => exact ih.tail (.addField decl inStore)
  | addMethod decl _ inStore ih => exact ih.tail (.addMethod decl inStore)
  | setBody m body _ ih => exact ih.tail (.setBody m body)
  | arrayOf elem _ ih => exact ih.tail (.arrayOf elem)
  | nullableOf inner _ ih => exact ih.tail (.nullableOf inner)
  | byRefOf elem _ ih => exact ih.tail (.byRefOf elem)
  | stringToken s _ ih => exact ih.tail (.stringToken s)

lemma request_of_lookup (hl : (d.table md).lookup e = some t) : d.request md e = (t, md) := by
  cases d with
  | array =>
    change md.arrays.lookup e = some t at hl
    simp only [Derivation.request, arrayOf, hl]
  | nullable =>
    change md.nullables.lookup e = some t at hl
    simp only [Derivation.request, nullableOf, hl]
  | byRef => cases hl

lemma lookup_request (hd : d ≠ .byRef) (md : Metadata) (e : TypeRef) :
    (d.table (d.request md e).2).lookup e = some (d.request md e).1 := by
  cases hl : (d.table md).lookup e with
  | some t => rw [request_of_lookup hl, hl]
  | none =>
    cases d with
    | array =>
      change md.arrays.lookup e = none at hl
      simp only [Derivation.table, Derivation.request, arrayOf, hl]
      exact List.lookup_cons_self
    | nullable =>
      change md.nullables.lookup e = none at hl
      simp only [Derivation.table, Derivation.request, nullableOf, hl]
      exact List.lookup_cons_self
    | byRef => exact absurd rfl hd

/-! ## References -/

lemma Extends.findType? (h : md.Extends md') {name : String} (hfind : md.findType? name = some t) :
    md'.findType? name = some t := by
  have hnames (md : Metadata) : md.findType? name =
      ((md.types.toList.map TypeDecl.outline).findIdx? (·.name == name)).map TypeRef.mk := by
    rw [Metadata.findType?, List.findIdx?_map]
    rfl
  rw [hnames] at hfind ⊢
  obtain ⟨i, hi, rfl⟩ := Option.map_eq_some_iff.1 hfind
  obtain ⟨rest, hrest⟩ := h.types
  rw [← hrest, List.findIdx?_append, hi]
  rfl

lemma findType?_byRefOf (md : Metadata) (e : TypeRef) :
    (md.byRefOf e).2.findType? (md.typeName e ++ "&") = some (md.byRefOf e).1 := by
  simp only [byRefOf]
  split
  · assumption
  · rename_i hnone
    rw [Metadata.findType?, Option.map_eq_none_iff] at hnone
    simp [Metadata.findType?, addType, List.findIdx?_append, hnone, TypeDecl.host]

lemma byRefOf_of_find (h : md.findType? (md.typeName e ++ "&") = some t) :
    md.byRefOf e = (t, md) := by
  simp only [byRefOf, h]

lemma Extends.typeName_eq (h : md.Extends md') (ht : t.index < md.types.size) :
    md'.typeName t = md.typeName t :=
  (congrArg TypeDecl.name (h.outline_type ht) :)

lemma lt_of_findType? {name : String} (h : md.findType? name = some t) :
    t.index < md.types.size := by
  obtain ⟨i, hi, rfl⟩ := Option.map_eq_some_iff.1 h
  simpa using (List.findIdx?_eq_some_iff_getElem.1 hi).1

/-- A by-reference type is one of the element asked for if it is new, and else as what was found. -/
lemma kind_byRefOf (h : (md.byRefOf e).2.Extends md') : md'.kind (md.byRefOf e).1 = .byRef e ↔
    ∀ t, md.findType? (md.typeName e ++ "&") = some t → md.kind t = .byRef e := by
  cases hfind : md.findType? (md.typeName e ++ "&") with
  | some t =>
    rw [byRefOf_of_find hfind] at h ⊢
    rw [(h.kind_eq (lt_of_findType? hfind)).2]
    exact ⟨fun hk t' ht' => Option.some.inj ht' ▸ hk, fun hk => hk t rfl⟩
  | none =>
    have hnew : md.byRefOf e = md.addType (.host (md.typeName e ++ "&") (.byRef e)) := by
      simp only [byRefOf, hfind]
    rw [hnew] at h ⊢
    obtain ⟨hlt, hkind⟩ := kind_addType md (.host (md.typeName e ++ "&") (.byRef e))
    exact iff_of_true ((h.kind_eq hlt).2.trans hkind) fun _ ht =>
      absurd ht.symm (Option.some_ne_none _)

/-- **Derived types are remembered.**  Let a derived type be requested, and further steps be taken.
The same request is still answered by the same type.  An array or nullable type is one of exactly the
element asked for, and no other element gets it.  A by-reference type is one of the element asked for
exactly if no other type was found under its name. -/
theorem derived_types_are_remembered (d : Derivation) (hmd : md.Made) (he : e.index < md.types.size)
    (hrun : ReflTransGen Step (d.request md e).2 md') :
    (d.request md' e).1 = (d.request md e).1 ∧
      (md'.kind (d.request md e).1 = d.kind e ↔ (d = .byRef →
        ∀ t, md.findType? (md.typeName e ++ "&") = some t → md.kind t = .byRef e)) ∧
      (d ≠ .byRef → ∀ e', (d.request md' e').1 = (d.request md e).1 → e' = e) := by
  have hrem := (run_goes hmd.run remembers_empty).1
  have hrem₁ := ((step_request d md e).goes hrem).1
  obtain ⟨hrem', hrec⟩ := run_goes hrun hrem₁
  by_cases hd : d = .byRef
  · subst hd
    refine ⟨?_, (kind_byRefOf hrec.toExtends).trans ⟨fun h _ => h, fun h => h rfl⟩,
      fun h => absurd rfl h⟩
    have hname := (extends_byRefOf md e |>.trans hrec.toExtends).typeName_eq he
    have hfind := hrec.toExtends.findType? (findType?_byRefOf md e)
    rw [← hname] at hfind
    exact (congrArg Prod.fst (byRefOf_of_find hfind) :)
  · have hlook := hrec.lookup d e _ (lookup_request hd md e)
    refine ⟨by rw [request_of_lookup hlook], ?_, fun _ e' heq => ?_⟩
    · exact iff_of_true (hrem' d e _ hlook).2 fun h => absurd h hd
    · obtain ⟨hrem₂, hrec₂⟩ := (step_request d md' e').goes hrem'
      have hhere := hrem₂ d e' _ (lookup_request hd md' e')
      rw [heq] at hhere
      exact d.kind_inj (hhere.2.symm.trans (hrem₂ d e _ (hrec₂.lookup d e _ hlook)).2)

/-- Two structures of one name. -/
def namesakes : Metadata :=
  (addType (addType {} (.user "Game.Point" .structType)).2 (.user "Game.Point" .structType)).2

/-- Arrays of the first one stay its own after arrays of the second one have been made. -/
theorem derived_types_are_remembered_namesakes :
    namesakes.Made ∧ ((namesakes.arrayOf ⟨16⟩).2.arrayOf ⟨17⟩).2.kind (namesakes.arrayOf ⟨16⟩).1 =
      .array ⟨16⟩ := by
  have hmade : namesakes.Made := .addType (.addType .empty rfl rfl) rfl rfl
  have h := derived_types_are_remembered .array hmade (e := ⟨16⟩) (by decide)
    (.single (.arrayOf ⟨17⟩))
  exact ⟨hmade, h.2.1.2 fun hd => by cases hd⟩

/-- **Types of one name share their by-reference type**, which refers to the first one only. -/
theorem namesakes_share_reference :
    ((namesakes.byRefOf ⟨16⟩).2.byRefOf ⟨17⟩).1 = (namesakes.byRefOf ⟨16⟩).1 ∧
      (namesakes.byRefOf ⟨16⟩).2.kind ((namesakes.byRefOf ⟨16⟩).2.byRefOf ⟨17⟩).1 = .byRef ⟨16⟩ := by
  decide +kernel

end FlatHeap.Metadata
