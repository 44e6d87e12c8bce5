import FlatHeap.Lowering.Naming
import FlatHeap.Proofs.Metadata.Links

/-!
# Types visited for a class

The members that are named for a class are those of its base classes in the compiled program, of the
interfaces reached from these and from the class over interfaces of the compiled program, and its own.
`Metadata.Visits` says so with links.  Interfaces are found depth first, along every way to them, and
listed behind those they extend; what is listed stays closed under links, which is why a way that comes
to a listed interface can stop (`Naming.collectWithin_gathers`).

If links never lead back, exactly the types to be visited are (`Naming.mem_chain_iff`).  If moreover
interfaces are only listed as interfaces and classes only as base classes, each is visited once, and
`Naming.Behind` says in which order (`Naming.pairwise_chain`).
-/

namespace FlatHeap

open Relation

namespace Metadata

/-- The first type lists the second as an interface, and that belongs to the compiled program. -/
def UserLink (md : Metadata) (t u : TypeRef) : Prop := md.InterfaceLink t u ∧ md.isUser u = true

/-- The second type is the first, or a base class of it that belongs to the compiled program. -/
def Inherits (md : Metadata) (t c : TypeRef) : Prop :=
  c = t ∨ TransGen md.BaseLink t c ∧ md.isUser c = true

/-- Members of the second type are members of the first: it is the type, or a base class of the
compiled program, or reached from one of these over interfaces of the compiled program. -/
def Visits (md : Metadata) (t u : TypeRef) : Prop :=
  ∃ c, md.Inherits t c ∧ ReflTransGen md.UserLink c u

/-- Interfaces are listed as interfaces and nothing else is, and no interface is a base class. -/
structure WellKinded (md : Metadata) : Prop where
  interfaces : ∀ t u, md.InterfaceLink t u → md.kind u = .interfaceType
  bases : ∀ t u, md.BaseLink t u → md.kind u ≠ .interfaceType

variable {md : Metadata} {t u c : TypeRef}

lemma wellKinded_of_forall (h : ∀ i < md.types.size,
      (∀ u ∈ (md.type ⟨i⟩).interfaces, md.kind u = .interfaceType) ∧
        ∀ u ∈ (md.type ⟨i⟩).base.toList, md.kind u ≠ .interfaceType) : md.WellKinded := by
  constructor
  · exact fun t u hu => (h t.index (Link.lt_size (.inr hu))).1 u hu
  · exact fun t u hu => (h t.index (Link.lt_size (.inl hu))).2 u (Option.mem_toList.2 hu)

lemma UserLink.link (h : md.UserLink t u) : md.Link t u := .inr h.1

lemma transGen_link_of_userLink (h : TransGen md.UserLink t u) : TransGen md.Link t u :=
  TransGen.mono (fun _ _ => UserLink.link) t u h

lemma Inherits.reflTransGen (h : md.Inherits t c) : ReflTransGen md.Link t c := by
  rcases h with rfl | ⟨h, -⟩
  · exact .refl
  · exact (TransGen.mono (fun _ _ => Or.inl) t c h).to_reflTransGen

lemma Visits.reflTransGen (h : md.Visits t u) : ReflTransGen md.Link t u := by
  obtain ⟨c, hc, hu⟩ := h
  exact hc.reflTransGen.trans (ReflTransGen.mono (fun _ _ => UserLink.link) c u hu)

lemma WellKinded.kind_of_userLink (h : md.WellKinded) (hu : TransGen md.UserLink t u) :
    md.kind u = .interfaceType := by
  obtain ⟨c, -, hc⟩ := TransGen.tail'_iff.1 hu
  exact h.interfaces c u hc.1

lemma WellKinded.kind_of_baseLink (h : md.WellKinded) (hu : TransGen md.BaseLink t u) :
    md.kind u ≠ .interfaceType := by
  obtain ⟨c, -, hc⟩ := TransGen.tail'_iff.1 hu
  exact h.bases c u hc

end Metadata

namespace Naming

variable {md : Metadata} {t u i : TypeRef} {acc acc' : List TypeRef} {k : Nat}
  {P : TypeRef → Prop}

/-! ## Interfaces -/

/-- Each interface is listed once, with all that it extends in the compiled program and behind it. -/
structure Gathered (md : Metadata) (acc : List TypeRef) : Prop where
  nodup : acc.Nodup
  closed : ∀ a ∈ acc, ∀ u, md.UserLink a u → u ∈ acc
  order : acc.Pairwise fun a b => ¬ TransGen md.UserLink a b

/-- The second list is gathered and has what the first has and what satisfies the property. -/
structure Gathers (md : Metadata) (P : TypeRef → Prop) (acc acc' : List TypeRef) : Prop where
  gathered : Gathered md acc'
  mem_iff : ∀ u, u ∈ acc' ↔ u ∈ acc ∨ P u

lemma gathered_nil (md : Metadata) : Gathered md [] := ⟨.nil, by simp, .nil⟩

lemma Gathered.mem_of_reach (h : Gathered md acc) (hi : i ∈ acc)
    (hu : ReflTransGen md.UserLink i u) : u ∈ acc := by
  induction hu with
  | refl => exact hi
  | tail _ hlink ih => exact h.closed _ ih _ hlink

lemma foldl_gathers {α : Type} {Q : α → TypeRef → Prop} {f : List TypeRef → α → List TypeRef}
    {xs : List α} (step : ∀ x ∈ xs, ∀ acc, Gathered md acc → Gathers md (Q x) acc (f acc x))
    (hacc : Gathered md acc) : Gathers md (fun u => ∃ x ∈ xs, Q x u) acc (xs.foldl f acc) := by
  induction xs generalizing acc with
  | nil => exact ⟨hacc, by simp⟩
  | cons x xs ih =>
    have hx := step x List.mem_cons_self acc hacc
    have hxs := ih (fun y hy => step y (List.mem_cons_of_mem x hy)) hx.gathered
    refine ⟨hxs.gathered, fun u => ?_⟩
    rw [List.foldl_cons, hxs.mem_iff, hx.mem_iff, List.exists_mem_cons_iff, or_assoc]

lemma Gathered.append (hacyclic : Metadata.Acyclic md.UserLink) (hi : i ∉ acc)
    (h : Gathers md (TransGen md.UserLink i) acc acc') :
    Gathers md (ReflTransGen md.UserLink i) acc (acc' ++ [i]) := by
  have hnew : i ∉ acc' := fun hmem => ((h.mem_iff i).1 hmem).elim hi (hacyclic i)
  refine ⟨⟨?_, fun a ha u hu => ?_, ?_⟩, fun u => ?_⟩
  · exact List.nodup_append.2 ⟨h.gathered.nodup, List.nodup_singleton i, by grind⟩
  · rcases List.mem_append.1 ha with ha | ha
    · exact List.mem_append_left _ (h.gathered.closed a ha u hu)
    · rw [List.mem_singleton.1 ha] at hu
      exact List.mem_append_left _ ((h.mem_iff u).2 (.inr (.single hu)))
  · refine List.pairwise_append.2 ⟨h.gathered.order, List.pairwise_singleton _ _, ?_⟩
    intro a ha b hb hab
    rw [List.mem_singleton.1 hb] at hab
    exact hnew (h.gathered.mem_of_reach ha hab.to_reflTransGen)
  · rw [List.mem_append, h.mem_iff, List.mem_singleton, reflTransGen_iff_eq_or_transGen, or_assoc,
      or_comm (a := u = i)]

/-- **Interfaces** that a type reaches are added to those listed, each once.  The induction is on the
number of links that are followed, which is no less than there are. -/
lemma collectWithin_gathers (hacyclic : Metadata.Acyclic md.UserLink)
    (hk : Metadata.Shallow md.UserLink k t) (hacc : Gathered md acc) :
    Gathers md (TransGen md.UserLink t) acc (collectWithin md k t acc) := by
  induction k generalizing t acc with
  | zero =>
    refine ⟨hacc, fun u => ⟨.inl, fun h => h.resolve_right fun hu => ?_⟩⟩
    obtain ⟨i, hi, -⟩ := TransGen.head'_iff.1 hu
    exact hk i hi
  | succ k ih =>
    have hfold : Gathers md
        (fun u => ∃ i ∈ (md.type t).interfaces, md.isUser i = true ∧ ReflTransGen md.UserLink i u)
        acc (collectWithin md (k + 1) t acc) := by
      refine foldl_gathers (fun i hi acc hacc => ?_) hacc
      cases huser : md.isUser i with
      | false => exact ⟨by simpa using hacc, by simp⟩
      | true =>
        by_cases hmem : i ∈ acc
        · refine ⟨by simpa [hmem] using hacc, fun u => ?_⟩
          simpa [hmem] using hacc.mem_of_reach hmem
        · simpa [hmem] using Gathered.append hacyclic hmem (ih (hk i ⟨hi, huser⟩) hacc)
    refine ⟨hfold.gathered, fun u => (hfold.mem_iff u).trans (or_congr_right ?_)⟩
    simp only [TransGen.head'_iff, Metadata.UserLink, Metadata.InterfaceLink, and_assoc]

/-! ## Classes and interfaces -/

section Acyclic

variable (h : Metadata.Acyclic md.Link)
include h

lemma acyclic_userLink : Metadata.Acyclic md.UserLink := h.mono fun _ _ => Metadata.UserLink.link

lemma acyclic_baseLink : Metadata.Acyclic md.BaseLink := h.mono fun _ _ => Or.inl

lemma collectInterfaces_gathers (hacc : Gathered md acc) :
    Gathers md (TransGen md.UserLink t) acc (collectInterfaces md t acc) :=
  collectWithin_gathers (acyclic_userLink h)
    ((acyclic_userLink h).shallow (fun _ _ => Metadata.UserLink.link) t) hacc

lemma mem_classes_iff : u ∈ ((md.ancestors t).filter md.isUser).reverse ++ [t] ↔ md.Inherits t u := by
  simp [Metadata.mem_ancestors_iff (acyclic_baseLink h), Metadata.Inherits, or_comm]

lemma interfaces_gathers (t : TypeRef) :
    Gathers md (fun u => ∃ c, md.Inherits t c ∧ TransGen md.UserLink c u) []
      ((((md.ancestors t).filter md.isUser).reverse ++ [t]).foldl
        (fun acc c => collectInterfaces md c acc) []) := by
  simp only [← mem_classes_iff h]
  exact foldl_gathers (fun c _ acc hacc => collectInterfaces_gathers h hacc) (gathered_nil md)

/-- **What is visited** for a class. -/
theorem mem_chain_iff : u ∈ chain md t ↔ md.Visits t u := by
  have hinterfaces := (interfaces_gathers h t).mem_iff u
  have hclasses := mem_classes_iff h (t := t) (u := u)
  simp only [List.not_mem_nil, false_or] at hinterfaces
  simp only [List.mem_append] at hclasses
  have hreach (c : TypeRef) : ReflTransGen md.UserLink c u ↔ u = c ∨ TransGen md.UserLink c u :=
    reflTransGen_iff_eq_or_transGen
  simp only [chain, List.mem_append, hinterfaces, Metadata.Visits, hreach, and_or_left, exists_or,
    exists_eq_right', ← hclasses]
  exact or_right_comm

/-- Why the second of two types that are visited for a class comes behind the first: it is the class, an
interface behind a base class, an interface that the first does not extend, or derived from the first. -/
inductive Behind (md : Metadata) (t : TypeRef) : TypeRef → TypeRef → Prop
  | own {a} : Behind md t a t
  | interface {a i} (isBase : TransGen md.BaseLink t a) (isInterface : md.kind i = .interfaceType) :
    Behind md t a i
  | extended {i j} (isInterface : md.kind j = .interfaceType) (not : ¬ TransGen md.UserLink i j) :
    Behind md t i j
  | derived {a b} (isBase : TransGen md.BaseLink b a) : Behind md t a b

/-- **The order of the visit.**  The class comes last and nothing is visited twice. -/
theorem pairwise_chain (hkinds : md.WellKinded) (t : TypeRef) :
    (chain md t).Pairwise fun a b => a ≠ t ∧ a ≠ b ∧ Behind md t a b := by
  have hbase := acyclic_baseLink h
  have hinterfaces := interfaces_gathers h t
  have hclass {c : TypeRef} (hc : c ∈ ((md.ancestors t).filter md.isUser).reverse) :
      TransGen md.BaseLink t c :=
    (Metadata.mem_ancestors_iff hbase).1 (List.mem_of_mem_filter (List.mem_reverse.1 hc))
  have hclass_ne {c : TypeRef} (hc : c ∈ ((md.ancestors t).filter md.isUser).reverse) : c ≠ t :=
    fun heq => hbase t (heq ▸ hclass hc)
  have hreach {i : TypeRef} (hi : i ∈ (((md.ancestors t).filter md.isUser).reverse ++ [t]).foldl
      (fun acc c => collectInterfaces md c acc) []) :
      ∃ c, md.Inherits t c ∧ TransGen md.UserLink c i :=
    ((hinterfaces.mem_iff i).1 hi).resolve_left List.not_mem_nil
  have hkind {i : TypeRef} (hi : ∃ c, md.Inherits t c ∧ TransGen md.UserLink c i) :
      md.kind i = .interfaceType := hkinds.kind_of_userLink hi.choose_spec.2
  have hreach_ne {i : TypeRef} (hi : ∃ c, md.Inherits t c ∧ TransGen md.UserLink c i) : i ≠ t := by
    rintro rfl
    obtain ⟨c, hc, hci⟩ := hi
    exact h i (.trans_right hc.reflTransGen (Metadata.transGen_link_of_userLink hci))
  refine List.pairwise_append.2 ⟨List.pairwise_append.2 ⟨?_, ?_, ?_⟩, List.pairwise_singleton _ _, ?_⟩
  · -- base classes, the most derived last
    have hpairs := List.pairwise_reverse.2 ((Metadata.pairwise_ancestors hbase t).filter md.isUser)
    refine hpairs.imp_of_mem fun ha _ hba => ⟨hclass_ne ha, ?_, .derived hba⟩
    rintro rfl
    exact hbase _ hba
  · -- interfaces, each behind those it extends
    have hpairs := hinterfaces.gathered.order.and hinterfaces.gathered.nodup
    exact hpairs.imp_of_mem fun ha hb hab =>
      ⟨hreach_ne (hreach ha), hab.2, .extended (hkind (hreach hb)) hab.1⟩
  · intro c hc i hi
    refine ⟨hclass_ne hc, ?_, .interface (hclass hc) (hkind (hreach hi))⟩
    rintro rfl
    exact hkinds.kind_of_baseLink (hclass hc) (hkind (hreach hi))
  · intro a ha b hb
    obtain rfl := List.mem_singleton.1 hb
    have hne : a ≠ b := (List.mem_append.1 ha).elim hclass_ne fun hi => hreach_ne (hreach hi)
    exact ⟨hne, hne, .own⟩

end Acyclic

end Naming

end FlatHeap
