import Mathlib.Data.List.Perm.Basic
import Mathlib.Tactic
import FlatHeap.Lowering.Naming

/-!
# Catalogues of members

Types are entered without members, and members are then added one by one to types of the store.  So
every member stands in exactly one list, once, and that is the list of the type that declares it
(`Metadata.Made.catalogued`).  Each way to extend a store either leaves the lists alone
(`Metadata.Keeps`) or puts one new member into one of them (`Metadata.Enlists`).
-/

namespace FlatHeap.Metadata

def declaring (md : Metadata) : Member → TypeRef
  | .field f => (md.field f).declaring
  | .method m => (md.method m).declaring

def listed (md : Metadata) (t : TypeRef) : List Member :=
  (md.type t).fields.map .field ++ (md.type t).methods.map .method

def HasMember (md : Metadata) : Member → Prop
  | .field f => f.index < md.fields.size
  | .method m => m.index < md.methods.size

/-- Members are in the store and are listed only by the type that declares them. -/
def Ordered (md : Metadata) : Prop := ∀ t, ∀ x ∈ md.listed t, md.HasMember x ∧ md.declaring x = t

/-- Stores that are made step by step: types come without members, and members are added to types of
the store. -/
inductive Made : Metadata → Prop
  | empty : Made {}
  | addType {md} {decl : TypeDecl} (h : Made md) (fields : decl.fields = [])
    (methods : decl.methods = []) : Made (md.addType decl).2
  | addField {md} {owner : TypeRef} (decl : FieldDecl) (h : Made md)
    (inStore : owner.index < md.types.size) : Made (md.addField owner decl).2
  | addMethod {md} {owner : TypeRef} (decl : MethodDecl) (h : Made md)
    (inStore : owner.index < md.types.size) : Made (md.addMethod owner decl).2
  | setBody {md} (m : MethodRef) (body : MethodBody) (h : Made md) : Made (md.setBody m body)
  | arrayOf {md} (elem : TypeRef) (h : Made md) : Made (md.arrayOf elem).2
  | nullableOf {md} (inner : TypeRef) (h : Made md) : Made (md.nullableOf inner).2
  | byRefOf {md} (elem : TypeRef) (h : Made md) : Made (md.byRefOf elem).2
  | stringToken {md} (s : String) (h : Made md) : Made (md.stringToken s).2

/-- Members of the store are listed once, by the type that declares them, and no others are. -/
structure Catalogued (md : Metadata) : Prop where
  ordered : md.Ordered
  once : ∀ t, (md.listed t).Nodup
  listed : ∀ x, md.HasMember x → x ∈ md.listed (md.declaring x)

variable {md md' md'' : Metadata} {owner t u : TypeRef} {x : Member}

lemma default_members : (default : TypeDecl).fields = [] ∧ (default : TypeDecl).methods = [] := ⟨rfl, rfl⟩

lemma ordered_empty : Ordered {} := by
  intro t x hx
  have hnone : (type {} t).fields = [] ∧ (type {} t).methods = [] := by
    have hall : ∀ d ∈ hostTypes, d.fields = [] ∧ d.methods = [] := by decide
    by_cases ht : t.index < hostTypes.length
    · have := hall _ (List.getElem_mem ht)
      simpa [type, ht] using this
    · simp [type, ht, default_members]
  simp [listed, hnone] at hx

lemma listed_addType (decl : TypeDecl) (hf : decl.fields = []) (hm : decl.methods = []) (t : TypeRef) :
    (md.addType decl).2.listed t = md.listed t := by
  simp only [listed, type, addType, Array.getD_eq_getD_getElem?, Array.getElem?_push]
  split
  · rename_i heq
    have hnone : md.types[t.index]? = none := Array.getElem?_eq_none (by omega)
    simp [hf, hm, hnone, default_members]
  · rfl

/-! ## Steps that leave the lists alone -/

/-- Both stores have the same members and list them in the same way. -/
structure Keeps (md md' : Metadata) : Prop where
  listed : ∀ t, md'.listed t = md.listed t
  hasMember : ∀ x, md'.HasMember x ↔ md.HasMember x
  declaring : ∀ x, md.HasMember x → md'.declaring x = md.declaring x

lemma Keeps.refl (md : Metadata) : md.Keeps md := ⟨fun _ => rfl, fun _ => .rfl, fun _ _ => rfl⟩

lemma Keeps.trans (h : md.Keeps md') (h' : md'.Keeps md'') : md.Keeps md'' :=
  ⟨fun t => (h'.listed t).trans (h.listed t), fun x => (h'.hasMember x).trans (h.hasMember x),
    fun x hx => (h'.declaring x ((h.hasMember x).2 hx)).trans (h.declaring x hx)⟩

lemma Catalogued.keeps (h : md.Catalogued) (hk : md.Keeps md') : md'.Catalogued := by
  constructor
  · intro t x hx
    rw [hk.listed] at hx
    obtain ⟨hhas, hdecl⟩ := h.ordered t x hx
    exact ⟨(hk.hasMember x).2 hhas, (hk.declaring x hhas).trans hdecl⟩
  · exact fun t => hk.listed t ▸ h.once t
  · intro x hx
    have hhas := (hk.hasMember x).1 hx
    rw [hk.declaring x hhas, hk.listed]
    exact h.listed x hhas

lemma keeps_of_tables (htypes : md'.types = md.types) (hfields : md'.fields = md.fields)
    (hmethods : md'.methods = md.methods) : md.Keeps md' := by
  refine ⟨fun t => by simp [Metadata.listed, type, htypes], fun x => ?_, fun x _ => ?_⟩
  · cases x <;> simp [HasMember, hfields, hmethods]
  · cases x <;> simp [Metadata.declaring, field, method, hfields, hmethods]

lemma keeps_addType {decl : TypeDecl} (hf : decl.fields = []) (hm : decl.methods = []) :
    md.Keeps (md.addType decl).2 :=
  ⟨listed_addType decl hf hm, fun x => by cases x <;> exact .rfl, fun x _ => by cases x <;> rfl⟩

lemma keeps_setBody (m : MethodRef) (body : MethodBody) : md.Keeps (md.setBody m body) := by
  refine ⟨fun _ => rfl, fun x => ?_, fun x _ => ?_⟩
  · cases x <;> simp [HasMember, setBody]
  · cases x with
    | field f => rfl
    | method k =>
      simp only [Metadata.declaring, method, setBody, Array.getD_eq_getD_getElem?,
        Array.getElem?_setIfInBounds]
      by_cases hk : m.index = k.index
      · by_cases hlt : k.index < md.methods.size <;> simp [hk, hlt]
      · simp [hk]

lemma keeps_arrayOf (elem : TypeRef) : md.Keeps (md.arrayOf elem).2 := by
  rw [arrayOf]
  split
  · exact .refl md
  · exact (keeps_addType rfl rfl).trans (keeps_of_tables rfl rfl rfl)

lemma keeps_byRefOf (elem : TypeRef) : md.Keeps (md.byRefOf elem).2 := by
  simp only [byRefOf]
  split
  · exact .refl md
  · exact keeps_addType rfl rfl

lemma keeps_stringToken (s : String) : md.Keeps (md.stringToken s).2 := by
  rw [stringToken]
  split
  · exact .refl md
  · exact keeps_of_tables rfl rfl rfl

/-! ## Steps that add a member -/

/-- The second store has one more member, listed by a type. -/
structure Enlists (owner : TypeRef) (x : Member) (md md' : Metadata) : Prop where
  new : ¬ md.HasMember x
  hasMember : ∀ y, md'.HasMember y ↔ md.HasMember y ∨ y = x
  declaring : ∀ y, md.HasMember y → md'.declaring y = md.declaring y
  declares : md'.declaring x = owner
  owned : (md'.listed owner).Perm (x :: md.listed owner)
  others : ∀ t, t ≠ owner → md'.listed t = md.listed t

lemma Enlists.mem_listed (h : Enlists owner x md md') {y : Member} :
    y ∈ md'.listed t ↔ y ∈ md.listed t ∨ t = owner ∧ y = x := by
  by_cases ht : t = owner
  · subst ht
    simp [h.owned.mem_iff, or_comm]
  · simp [h.others t ht, ht]

lemma Catalogued.enlists (h : md.Catalogued) (he : Enlists owner x md md') : md'.Catalogued := by
  have hnot (t : TypeRef) : x ∉ md.listed t := fun hx => he.new (h.ordered t x hx).1
  constructor
  · intro t y hy
    rcases he.mem_listed.1 hy with hy | ⟨rfl, rfl⟩
    · obtain ⟨hhas, hdecl⟩ := h.ordered t y hy
      exact ⟨(he.hasMember y).2 (.inl hhas), (he.declaring y hhas).trans hdecl⟩
    · exact ⟨(he.hasMember y).2 (.inr rfl), he.declares⟩
  · intro t
    by_cases ht : t = owner
    · exact ht ▸ he.owned.nodup_iff.2 (List.nodup_cons.2 ⟨hnot owner, h.once owner⟩)
    · exact he.others t ht ▸ h.once t
  · intro y hy
    rcases (he.hasMember y).1 hy with hy | rfl
    · exact he.mem_listed.2 (.inl (he.declaring y hy ▸ h.listed y hy))
    · exact he.mem_listed.2 (.inr ⟨he.declares, rfl⟩)

lemma type_updateType_self (change : TypeDecl → TypeDecl) (h : owner.index < md.types.size) :
    (md.updateType owner change).type owner = change (md.type owner) := by
  simp [updateType, type, h]

lemma type_updateType_of_ne (change : TypeDecl → TypeDecl) (h : t ≠ owner) :
    (md.updateType owner change).type t = md.type t := by
  have hne : owner.index ≠ t.index := fun heq => h (by cases owner; cases t; simp_all)
  simp [updateType, type, Array.getElem?_setIfInBounds_ne hne]

lemma enlists_addField (decl : FieldDecl) (h : owner.index < md.types.size) :
    Enlists owner (.field ⟨md.fields.size⟩) md (md.addField owner decl).2 := by
  refine ⟨by simp [HasMember], fun y => ?_, fun y hy => ?_, ?_, ?_, fun t ht => ?_⟩
  · cases y with
    | field f =>
      cases f
      simp [HasMember, Metadata.addField, updateType, Nat.le_iff_lt_or_eq]
    | method m => simp [HasMember, Metadata.addField, updateType]
  · cases y with
    | field f =>
      have hf : f.index < md.fields.size := hy
      simp [Metadata.declaring, Metadata.addField, updateType, field, Array.getElem?_push_lt hf, hf]
    | method m => rfl
  · simp [Metadata.declaring, Metadata.addField, updateType, field]
  · simp only [Metadata.listed, Metadata.addField, type_updateType_self _ (show owner.index <
      ({ md with fields := md.fields.push { decl with declaring := owner } } : Metadata).types.size from h)]
    simp only [List.map_append, List.map_cons, List.map_nil, List.append_assoc, List.cons_append,
      List.nil_append]
    exact List.perm_middle
  · simp only [Metadata.listed, Metadata.addField, type_updateType_of_ne _ ht]
    rfl

lemma enlists_addMethod (decl : MethodDecl) (h : owner.index < md.types.size) :
    Enlists owner (.method ⟨md.methods.size⟩) md (md.addMethod owner decl).2 := by
  refine ⟨by simp [HasMember], fun y => ?_, fun y hy => ?_, ?_, ?_, fun t ht => ?_⟩
  · cases y with
    | field f => simp [HasMember, Metadata.addMethod, updateType]
    | method m =>
      cases m
      simp [HasMember, Metadata.addMethod, updateType, Nat.le_iff_lt_or_eq]
  · cases y with
    | field f => rfl
    | method m =>
      have hm : m.index < md.methods.size := hy
      simp [Metadata.declaring, Metadata.addMethod, updateType, method, Array.getElem?_push_lt hm, hm]
  · simp [Metadata.declaring, Metadata.addMethod, updateType, method]
  · simp only [Metadata.listed, Metadata.addMethod, type_updateType_self _ (show owner.index <
      ({ md with methods := md.methods.push { decl with declaring := owner } } : Metadata).types.size from h)]
    rw [List.map_append, ← List.append_assoc]
    exact List.perm_append_singleton _ _
  · simp only [Metadata.listed, Metadata.addMethod, type_updateType_of_ne _ ht]
    rfl

lemma Catalogued.addMethods (h : md.Catalogued) (ht : t.index < md.types.size)
    (decls : List MethodDecl) :
    (decls.foldl (fun md decl => (md.addMethod t decl).2) md).Catalogued := by
  induction decls generalizing md with
  | nil => exact h
  | cons decl decls ih =>
    refine ih (h.enlists (enlists_addMethod decl ht)) ?_
    simpa [Metadata.addMethod, updateType] using ht

lemma Catalogued.nullableOf (h : md.Catalogued) (inner : TypeRef) :
    (md.nullableOf inner).2.Catalogued := by
  rw [Metadata.nullableOf]
  split
  · exact h
  · have entered : Catalogued (md.addType (.host
        ("System.Nullable<" ++ md.typeName inner ++ ">") (.nullable inner))).2 :=
      h.keeps (keeps_addType rfl rfl)
    dsimp only
    apply Catalogued.addMethods
    · exact entered.keeps (keeps_of_tables rfl rfl rfl)
    · simp [Metadata.addType]

lemma catalogued_empty : Catalogued {} := by
  have hno (x : Member) : ¬ HasMember {} x := by cases x <;> simp [HasMember]
  refine ⟨ordered_empty, fun t => ?_, fun x hx => absurd hx (hno x)⟩
  have hnil : listed {} t = [] :=
    List.eq_nil_iff_forall_not_mem.2 fun x hx => hno x (ordered_empty t x hx).1
  exact hnil ▸ .nil

/-- **Every store that is made step by step is catalogued.** -/
theorem Made.catalogued (h : md.Made) : md.Catalogued := by
  induction h with
  | empty => exact catalogued_empty
  | addType _ fields methods ih => exact ih.keeps (keeps_addType fields methods)
  | addField decl _ inStore ih => exact ih.enlists (enlists_addField decl inStore)
  | addMethod decl _ inStore ih => exact ih.enlists (enlists_addMethod decl inStore)
  | setBody m body _ ih => exact ih.keeps (keeps_setBody m body)
  | arrayOf elem _ ih => exact ih.keeps (keeps_arrayOf elem)
  | nullableOf inner _ ih => exact ih.nullableOf inner
  | byRefOf elem _ ih => exact ih.keeps (keeps_byRefOf elem)
  | stringToken s _ ih => exact ih.keeps (keeps_stringToken s)

end FlatHeap.Metadata
