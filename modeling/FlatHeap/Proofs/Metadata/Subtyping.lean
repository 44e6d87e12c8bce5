import FlatHeap.Proofs.Metadata.Links
import FlatHeap.Proofs.Metadata.Stores

/-!
# The subtype order

Values of a type can be used where another type is wanted if its declaration leads there, through its
base classes and the interfaces that it or they list.  The search follows base classes first and then
interfaces.  An interface has no base class, so every way along the links is of that form
(`Metadata.link_way_iff`), and the search finds what can be reached at all: it decides the order that
the declarations generate, with the object type on top (`Metadata.assignable_iff_way`).
-/

namespace FlatHeap.Metadata

open Relation

variable {md : Metadata} {t u g i : TypeRef} {k k' : Nat}

/-! ## Interfaces -/

lemma extendsWithin_iff (hk : Shallow md.InterfaceLink k i) :
    md.extendsWithin g k i = true ↔ ReflTransGen md.InterfaceLink i g := by
  induction k generalizing i with
  | zero =>
    rw [extendsWithin, beq_iff_eq, ReflTransGen.cases_head_iff]
    exact ⟨.inl, fun h => h.resolve_right fun ⟨u, hu, _⟩ => hk u hu⟩
  | succ k ih =>
    rw [extendsWithin, Bool.or_eq_true, beq_iff_eq, List.any_eq_true, ReflTransGen.cases_head_iff]
    refine or_congr_right (exists_congr fun u => and_congr_right fun hu => ?_)
    exact ih (hk u hu)

lemma shallow_mono {r : TypeRef → TypeRef → Prop} (h : Shallow r k t) (hk : k ≤ k') :
    Shallow r k' t := by
  induction k generalizing t k' with
  | zero =>
    cases k' with
    | zero => exact h
    | succ k' => exact fun u hu => absurd hu (h u)
  | succ k ih =>
    obtain ⟨k', rfl⟩ : ∃ l, k' = l + 1 := ⟨k' - 1, by omega⟩
    exact fun u hu => ih (h u hu) (Nat.le_of_succ_le_succ hk)

/-! ## Ways along the links -/

section Ordered

variable (hearlier : ∀ t u, md.Link t u → u.index < t.index)
include hearlier

lemma shallow_index (t : TypeRef) : Shallow md.Link t.index t := by
  have hway (k : Nat) (t : TypeRef) (ht : t.index ≤ k) : Shallow md.Link k t := by
    induction k generalizing t with
    | zero => exact fun u hu => absurd (hearlier t u hu) (by omega)
    | succ k ih => exact fun u hu => ih u (by have := hearlier t u hu; omega)
  exact hway _ t le_rfl

lemma acyclic_link : Acyclic md.Link :=
  acyclic_of_lt fun i _ u hu => hearlier ⟨i⟩ u (by simpa [Link, BaseLink, InterfaceLink] using hu)

lemma search_eq (hk : md.types.size ≤ k) (t g : TypeRef) :
    md.ancestorsWithin k t = md.ancestors t ∧ md.extendsWithin g k t = md.interfaceExtends t g := by
  have hacyclic := acyclic_link hearlier
  have hbase : Acyclic md.BaseLink := hacyclic.mono fun _ _ => .inl
  have hshallow : Shallow md.InterfaceLink md.types.size t :=
    (hacyclic.mono fun _ _ => Or.inr).shallow (fun _ _ => Or.inr) t
  refine ⟨ancestorsWithin_eq (hbase.shallow_base t) hk, Bool.eq_iff_iff.2 ?_⟩
  rw [interfaceExtends, extendsWithin_iff (shallow_mono hshallow hk), extendsWithin_iff hshallow]

end Ordered

/-- **Base classes come first.**  Where interfaces have no base classes, a way along the links passes
base classes and then interfaces. -/
lemma link_way_iff (hplain : ∀ t u, md.InterfaceLink t u → (md.type u).base = none) :
    ReflTransGen md.Link t g ↔
      ∃ c, ReflTransGen md.BaseLink t c ∧ ReflTransGen md.InterfaceLink c g := by
  constructor
  · intro h
    induction h using ReflTransGen.head_induction_on with
    | refl => exact ⟨g, .refl, .refl⟩
    | head hlink _ ih =>
      obtain ⟨c, hbase, hface⟩ := ih
      rcases hlink with hlink | hlink
      · exact ⟨c, .head hlink hbase, hface⟩
      · -- The interface has no base class, so the rest of the way passes interfaces only.
        rcases ReflTransGen.cases_head hbase with rfl | ⟨b, hb, -⟩
        · exact ⟨_, .refl, .head hlink hface⟩
        · cases (hplain _ _ hlink).symm.trans hb
  · rintro ⟨c, hbase, hface⟩
    exact .trans (ReflTransGen.mono (fun _ _ => Or.inl) _ _ hbase)
      (ReflTransGen.mono (fun _ _ => Or.inr) _ _ hface)

/-! ## Assignability -/

lemma Built.not_link_object (hmd : md.Built) (u : TypeRef) : ¬ md.Link .object u := by
  have heq : (md.type .object).outline = (type {} .object).outline :=
    hmd.extendsEmpty.outline_type (by decide)
  have hbase : (md.type .object).base = none := congrArg TypeDecl.base heq
  have hfaces : (md.type .object).interfaces = [] := congrArg TypeDecl.interfaces heq
  simp [Link, BaseLink, InterfaceLink, hbase, hfaces]

lemma assignable_iff_way (hearlier : ∀ t u, md.Link t u → u.index < t.index)
    (hplain : ∀ t u, md.InterfaceLink t u → (md.type u).base = none) :
    md.assignable t g = true ↔ g = .object ∨ ReflTransGen md.Link t g := by
  have hacyclic := acyclic_link hearlier
  have hbase : Acyclic md.BaseLink := hacyclic.mono fun _ _ => .inl
  have hfaces (c : TypeRef) : (c == g || (md.type c).interfaces.any (md.interfaceExtends · g)) = true ↔
      ReflTransGen md.InterfaceLink c g := by
    rw [← extendsWithin_iff (k := md.types.size + 1), extendsWithin]
    · rfl
    · exact shallow_mono ((hacyclic.mono fun _ _ => Or.inr).shallow (fun _ _ => Or.inr) c)
        (Nat.le_succ _)
  have hclasses (c : TypeRef) : c ∈ t :: md.ancestors t ↔ ReflTransGen md.BaseLink t c := by
    rw [List.mem_cons, mem_ancestors_iff hbase, ← reflTransGen_iff_eq_or_transGen]
  rw [link_way_iff hplain, assignable, Bool.or_eq_true, Bool.or_eq_true, beq_iff_eq, beq_iff_eq,
    List.any_eq_true]
  simp only [hfaces, hclasses]
  -- A type is found among the classes that its own way begins with.
  refine ⟨?_, fun h => h.elim (fun h => .inl (.inr h)) .inr⟩
  rintro ((rfl | h) | h)
  · exact .inr ⟨_, .refl, .refl⟩
  · exact .inl h
  · exact .inr h

/-- **Assignability is the subtype order.**  Let links only refer to earlier types and interfaces have
no base classes.  Then no way along the links is longer than the position of the type where it starts,
so that following more links than there are types would change nothing.  A type is assignable to what
its links lead to and to the object type, and to nothing else, and this is a preorder. -/
theorem assignable_is_subtype_order (hmd : md.Built)
    (hearlier : ∀ t u, md.Link t u → u.index < t.index)
    (hplain : ∀ t u, md.InterfaceLink t u → (md.type u).base = none) :
    (∀ t, Shallow md.Link t.index t) ∧
      (∀ k ≥ md.types.size, ∀ t g, md.ancestorsWithin k t = md.ancestors t ∧
        md.extendsWithin g k t = md.interfaceExtends t g) ∧
      (∀ t g, md.assignable t g = true ↔ g = .object ∨ ReflTransGen md.Link t g) ∧
      (∀ t, md.assignable t t = true) ∧
      ∀ t u g, md.assignable t u = true → md.assignable u g = true → md.assignable t g = true := by
  have hiff (t g : TypeRef) := assignable_iff_way (t := t) (g := g) hearlier hplain
  refine ⟨shallow_index hearlier, fun k hk => search_eq hearlier hk, hiff,
    fun t => (hiff t t).2 (.inr .refl), fun t u g htu hug => (hiff t g).2 ?_⟩
  rcases (hiff u g).1 hug with rfl | hug
  · exact .inl rfl
  rcases (hiff t u).1 htu with rfl | htu
  · -- Nothing lies beyond the object type.
    rcases ReflTransGen.cases_head hug with rfl | ⟨b, hb, -⟩
    · exact .inl rfl
    · exact absurd hb (hmd.not_link_object b)
  · exact .inr (htu.trans hug)

/-- A door that can be hit: a class with a base class and an interface that extends another. -/
def hittable : Metadata :=
  let md := (addType {} (.user "Game.ITarget" .interfaceType)).2
  let md := (md.addType { TypeDecl.user "Game.IHit" .interfaceType with interfaces := [⟨16⟩] }).2
  let md := (md.addType { TypeDecl.user "Game.Base" .classType with base := some .object }).2
  (md.addType { TypeDecl.user "Game.Door" .classType with base := some ⟨18⟩, interfaces := [⟨17⟩] }).2

/-- The door is a target through its interface, and a target is no door. -/
theorem assignable_is_subtype_order_hittable :
    hittable.Built ∧ (∀ t u, hittable.Link t u → u.index < t.index) ∧
      (∀ t u, hittable.InterfaceLink t u → (hittable.type u).base = none) ∧
      hittable.assignable ⟨19⟩ ⟨16⟩ = true ∧ ¬ ReflTransGen hittable.Link ⟨16⟩ ⟨19⟩ := by
  have hbuilt : hittable.Built := .addType _ (.addType _ (.addType _ (.addType _ .empty)))
  have hearlier (t u : TypeRef) (h : hittable.Link t u) : u.index < t.index := by
    have hall : ∀ i < hittable.types.size, ∀ u ∈ (hittable.type ⟨i⟩).base.toList ++
        (hittable.type ⟨i⟩).interfaces, u.index < i := by decide
    exact hall t.index h.lt_size u (by simpa [Link, BaseLink, InterfaceLink] using h)
  have hplain (t u : TypeRef) (h : hittable.InterfaceLink t u) : (hittable.type u).base = none := by
    have hall : ∀ i < hittable.types.size, ∀ u ∈ (hittable.type ⟨i⟩).interfaces,
        (hittable.type u).base = none := by decide
    exact hall t.index (Link.lt_size (.inr h)) u h
  obtain ⟨-, -, hiff, -, -⟩ := assignable_is_subtype_order hbuilt hearlier hplain
  refine ⟨hbuilt, hearlier, hplain, (hiff _ _).2 (.inr ?_), fun h => ?_⟩
  · have hdoor : hittable.InterfaceLink ⟨19⟩ ⟨17⟩ := List.mem_singleton_self _
    exact .head (.inr hdoor) (.single (.inr (List.mem_singleton_self _)))
  · exact absurd ((hiff _ _).2 (.inr h)) (by decide)

end FlatHeap.Metadata
