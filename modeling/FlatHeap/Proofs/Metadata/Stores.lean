import Mathlib.Data.List.Infix
import Mathlib.Tactic
import FlatHeap.Metadata.Basic

/-!
# Stores of declarations

A store of declarations only grows.  Types gain members and methods get bodies, and apart from that
what is entered stays as it is, at its position (`Metadata.Extends`).  So whatever is known of the host
types that every store starts with is known of them in every store that can be built
(`Metadata.Built.extendsEmpty`).
-/

namespace FlatHeap

def TypeDecl.outline (d : TypeDecl) : TypeDecl := { d with fields := [], methods := [] }

def MethodDecl.outline (d : MethodDecl) : MethodDecl := { d with body := none }

namespace Metadata

inductive Built : Metadata → Prop
  | empty : Built {}
  | addType {md} (decl : TypeDecl) (h : Built md) : Built (md.addType decl).2
  | addField {md} (owner : TypeRef) (decl : FieldDecl) (h : Built md) :
    Built (md.addField owner decl).2
  | addMethod {md} (owner : TypeRef) (decl : MethodDecl) (h : Built md) :
    Built (md.addMethod owner decl).2
  | setBody {md} (m : MethodRef) (body : MethodBody) (h : Built md) : Built (md.setBody m body)
  | arrayOf {md} (elem : TypeRef) (h : Built md) : Built (md.arrayOf elem).2
  | nullableOf {md} (inner : TypeRef) (h : Built md) : Built (md.nullableOf inner).2
  | byRefOf {md} (elem : TypeRef) (h : Built md) : Built (md.byRefOf elem).2
  | stringToken {md} (s : String) (h : Built md) : Built (md.stringToken s).2

/-- The second store has what the first one has, at the same positions, but for members of types and
bodies of methods. -/
structure Extends (md md' : Metadata) : Prop where
  types : md.types.toList.map TypeDecl.outline <+: md'.types.toList.map TypeDecl.outline
  fields : md.fields.toList <+: md'.fields.toList
  methods : md.methods.toList.map MethodDecl.outline <+: md'.methods.toList.map MethodDecl.outline
  strings : md.strings <+: md'.strings

variable {md md' md'' : Metadata}

namespace Extends

lemma refl (md : Metadata) : md.Extends md :=
  ⟨List.prefix_rfl, List.prefix_rfl, List.prefix_rfl, List.prefix_rfl⟩

lemma trans (h : md.Extends md') (h' : md'.Extends md'') : md.Extends md'' :=
  ⟨h.types.trans h'.types, h.fields.trans h'.fields, h.methods.trans h'.methods,
    h.strings.trans h'.strings⟩

lemma outline_type (h : md.Extends md') {t : TypeRef} (ht : t.index < md.types.size) :
    (md'.type t).outline = (md.type t).outline := by
  have := List.prefix_iff_getElem?.1 h.types t.index (by simpa using ht)
  obtain ⟨d, hd, heq⟩ := by simpa using this
  simp [type, hd, heq, ht]

lemma same (h : md.Extends md') (t : TypeRef) (ht : t.index < md.types.size) :
    (md'.type t).kind = (md.type t).kind ∧ (md'.type t).hostName = (md.type t).hostName := by
  have heq := h.outline_type ht
  exact ⟨(congrArg TypeDecl.kind heq :), (congrArg TypeDecl.hostName heq :)⟩

end Extends

lemma map_set_of_eq {α β : Type} {f : α → β} {l : List α} {i : Nat} {x : α}
    (h : ∀ a, l[i]? = some a → f x = f a) : (l.set i x).map f = l.map f := by
  refine List.ext_getElem? fun j => ?_
  simp only [List.getElem?_map, List.getElem?_set]
  split
  · rename_i hij
    subst hij
    cases hl : l[i]? with
    | none => simp [List.getElem?_eq_none_iff.1 hl]
    | some a => simp [(List.getElem?_eq_some_iff.1 hl).1, h a hl]
  · rfl

lemma extends_addType (md : Metadata) (decl : TypeDecl) : md.Extends (md.addType decl).2 :=
  { Extends.refl md with types := by simp [addType] }

lemma extends_updateType (md : Metadata) (t : TypeRef) {change : TypeDecl → TypeDecl}
    (hc : ∀ d, (change d).outline = d.outline) : md.Extends (md.updateType t change) := by
  refine { Extends.refl md with types := ?_ }
  rw [updateType, Array.toList_setIfInBounds, map_set_of_eq]
  intro d hd
  rw [hc, type, Array.getD_eq_getD_getElem?, ← Array.getElem?_toList, hd, Option.getD_some]

lemma extends_addField (md : Metadata) (owner : TypeRef) (decl : FieldDecl) :
    md.Extends (md.addField owner decl).2 := by
  have h : md.Extends { md with fields := md.fields.push { decl with declaring := owner } } :=
    { Extends.refl md with fields := by simp }
  dsimp only [addField]
  refine h.trans ?_
  apply extends_updateType
  exact fun _ => rfl

lemma extends_addMethod (md : Metadata) (owner : TypeRef) (decl : MethodDecl) :
    md.Extends (md.addMethod owner decl).2 := by
  have h : md.Extends { md with methods := md.methods.push { decl with declaring := owner } } :=
    { Extends.refl md with methods := by simp }
  dsimp only [addMethod]
  refine h.trans ?_
  apply extends_updateType
  exact fun _ => rfl

lemma extends_setBody (md : Metadata) (m : MethodRef) (body : MethodBody) :
    md.Extends (md.setBody m body) := by
  refine { Extends.refl md with methods := ?_ }
  rw [setBody, Array.toList_setIfInBounds, map_set_of_eq]
  intro d hd
  rw [method, Array.getD_eq_getD_getElem?, ← Array.getElem?_toList, hd, Option.getD_some]
  rfl

lemma extends_arrayOf (md : Metadata) (elem : TypeRef) : md.Extends (md.arrayOf elem).2 := by
  rw [arrayOf]
  split
  · exact .refl md
  · exact { extends_addType md _ with }

lemma extends_addMethods (t : TypeRef) (decls : List MethodDecl) (md : Metadata) :
    md.Extends (decls.foldl (fun md decl => (md.addMethod t decl).2) md) := by
  induction decls generalizing md with
  | nil => exact .refl md
  | cons decl decls ih => exact (extends_addMethod md t decl).trans (ih _)

lemma extends_nullableOf (md : Metadata) (inner : TypeRef) :
    md.Extends (md.nullableOf inner).2 := by
  rw [nullableOf]
  split
  · exact .refl md
  · refine .trans ?_ (extends_addMethods _ (nullableMethods inner) _)
    exact { extends_addType md _ with }

lemma extends_byRefOf (md : Metadata) (elem : TypeRef) : md.Extends (md.byRefOf elem).2 := by
  simp only [byRefOf]
  split
  · exact .refl md
  · exact extends_addType md _

lemma extends_stringToken (md : Metadata) (s : String) : md.Extends (md.stringToken s).2 := by
  rw [stringToken]
  split
  · exact .refl md
  · exact { Extends.refl md with strings := List.prefix_append _ _ }

/-- **Host types stay.**  Every store extends the one it started from. -/
theorem Built.extendsEmpty (h : Built md) : Extends {} md := by
  induction h with
  | empty => exact .refl _
  | addType decl _ ih => exact ih.trans (extends_addType _ decl)
  | addField owner decl _ ih => exact ih.trans (extends_addField _ owner decl)
  | addMethod owner decl _ ih => exact ih.trans (extends_addMethod _ owner decl)
  | setBody m body _ ih => exact ih.trans (extends_setBody _ m body)
  | arrayOf elem _ ih => exact ih.trans (extends_arrayOf _ elem)
  | nullableOf inner _ ih => exact ih.trans (extends_nullableOf _ inner)
  | byRefOf elem _ ih => exact ih.trans (extends_byRefOf _ elem)
  | stringToken s _ ih => exact ih.trans (extends_stringToken _ s)

end Metadata

end FlatHeap
