import Mathlib.Data.List.Perm.Subperm
import Mathlib.Logic.Relation
import Mathlib.Tactic
import FlatHeap.Metadata.Subtype

/-!
# Links between types

A type refers to its base class and to the interfaces it lists.  Where these links do not go in circles,
a way along them passes no type twice, and only types of the store have links.  So it has no more links
than the store has types (`Metadata.Acyclic.shallow`), which is as far as the definitions follow it.
What they find is then everything there is: `Metadata.mem_ancestors_iff` says so of base classes.
-/

namespace FlatHeap.Metadata

open Relation

def BaseLink (md : Metadata) (t u : TypeRef) : Prop := (md.type t).base = some u

def InterfaceLink (md : Metadata) (t u : TypeRef) : Prop := u ∈ (md.type t).interfaces

def Link (md : Metadata) (t u : TypeRef) : Prop := md.BaseLink t u ∨ md.InterfaceLink t u

def Acyclic (r : TypeRef → TypeRef → Prop) : Prop := ∀ t, ¬ TransGen r t t

/-- No way from the type has more than a number of links. -/
def Shallow (r : TypeRef → TypeRef → Prop) : Nat → TypeRef → Prop
  | 0, t => ∀ u, ¬ r t u
  | k + 1, t => ∀ u, r t u → Shallow r k u

variable {md : Metadata} {r r' : TypeRef → TypeRef → Prop} {t u b : TypeRef} {k k' : Nat}

lemma Acyclic.mono (h : Acyclic r) (hr : ∀ t u, r' t u → r t u) : Acyclic r' :=
  fun t ht => h t (TransGen.mono hr t t ht)

lemma Link.lt_size (h : md.Link t u) : t.index < md.types.size := by
  by_contra hlt
  have hdefault : md.type t = default := by simp [type, hlt]
  simp only [Link, BaseLink, InterfaceLink, hdefault] at h
  exact h.elim (fun h => by cases h) List.not_mem_nil

lemma acyclic_of_lt (h : ∀ i < md.types.size,
      ∀ u ∈ (md.type ⟨i⟩).base.toList ++ (md.type ⟨i⟩).interfaces, u.index < i) :
    Acyclic md.Link := by
  have hlt {t u : TypeRef} (hlink : md.Link t u) : u.index < t.index := by
    refine h t.index hlink.lt_size u (List.mem_append.2 (hlink.imp_left fun hb => ?_))
    exact Option.mem_toList.2 hb
  have hway {t u : TypeRef} (hway : TransGen md.Link t u) : u.index < t.index := by
    induction hway with
    | single hlink => exact hlt hlink
    | tail _ hlink ih => exact (hlt hlink).trans ih
  exact fun t ht => (hway ht).false

lemma length_le_size (md : Metadata) {ts : List TypeRef} (hnodup : ts.Nodup)
    (hlt : ∀ t ∈ ts, t.index < md.types.size) : ts.length ≤ md.types.size := by
  have hinj : Function.Injective TypeRef.index := fun a b h => by
    cases a
    cases b
    exact congrArg TypeRef.mk h
  have hsub : ts.map TypeRef.index ⊆ List.range md.types.size := by
    intro i hi
    obtain ⟨t, ht, rfl⟩ := List.mem_map.1 hi
    exact List.mem_range.2 (hlt t ht)
  simpa using ((hnodup.map hinj).subperm hsub).length_le

/-- **Without circles no way is longer than the store.**  The types already passed are the invariant:
they are different from each other and from the one the way has come to. -/
lemma Acyclic.shallow (h : Acyclic r) (hr : ∀ t u, r t u → md.Link t u) (t : TypeRef) :
    Shallow r md.types.size t := by
  have hway (k : Nat) (passed : List TypeRef) (t : TypeRef) (hnodup : passed.Nodup)
      (hlt : ∀ p ∈ passed, p.index < md.types.size) (hto : ∀ p ∈ passed, TransGen r p t)
      (hlen : md.types.size ≤ passed.length + k) : Shallow r k t := by
    induction k generalizing passed t with
    | zero =>
      intro u hu
      have hnew : t ∉ passed := fun ht => h t (hto t ht)
      have := length_le_size md (List.nodup_cons.2 ⟨hnew, hnodup⟩)
        (List.forall_mem_cons.2 ⟨(hr t u hu).lt_size, hlt⟩)
      rw [List.length_cons] at this
      omega
    | succ k ih =>
      intro u hu
      have hnew : t ∉ passed := fun ht => h t (hto t ht)
      refine ih (t :: passed) u (List.nodup_cons.2 ⟨hnew, hnodup⟩)
        (List.forall_mem_cons.2 ⟨(hr t u hu).lt_size, hlt⟩)
        (List.forall_mem_cons.2 ⟨.single hu, fun p hp => (hto p hp).tail hu⟩) ?_
      rw [List.length_cons]
      omega
  exact hway _ [] t .nil (by simp) (by simp) (by simp)

/-! ## Base classes -/

lemma Acyclic.shallow_base (h : Acyclic md.BaseLink) (t : TypeRef) :
    Shallow md.BaseLink md.types.size t :=
  h.shallow (fun _ _ hb => Or.inl hb) t

lemma ancestorsWithin_of_none (h : (md.type t).base = none) (k : Nat) :
    md.ancestorsWithin k t = [] := by
  cases k with
  | zero => rfl
  | succ k => rw [ancestorsWithin, h]

lemma length_ancestorsWithin_le (md : Metadata) (k : Nat) (t : TypeRef) :
    (md.ancestorsWithin k t).length ≤ k := by
  induction k generalizing t with
  | zero => exact le_rfl
  | succ k ih =>
    rw [ancestorsWithin]
    split
    · exact Nat.zero_le _
    · exact Nat.succ_le_succ (ih _)

lemma ancestorsWithin_eq (h : Shallow md.BaseLink k t) (hk : k ≤ k') :
    md.ancestorsWithin k' t = md.ancestorsWithin k t := by
  induction k generalizing t k' with
  | zero =>
    rw [ancestorsWithin_of_none, ancestorsWithin_of_none] <;>
      exact Option.eq_none_iff_forall_ne_some.2 h
  | succ k ih =>
    obtain ⟨k', rfl⟩ : ∃ l, k' = l + 1 := ⟨k' - 1, by omega⟩
    rw [ancestorsWithin, ancestorsWithin]
    cases hb : (md.type t).base with
    | none => rfl
    | some b =>
      dsimp only
      rw [ih (h b hb) (Nat.le_of_succ_le_succ hk)]

section Acyclic

variable (h : Acyclic md.BaseLink)
include h

lemma ancestors_of_base (hb : (md.type t).base = some b) :
    md.ancestors t = b :: md.ancestors b := by
  have hsize : t.index < md.types.size := Link.lt_size (.inl hb)
  have hshallow := h.shallow_base t
  obtain ⟨k, hk⟩ : ∃ k, md.types.size = k + 1 := ⟨md.types.size - 1, by omega⟩
  rw [hk] at hshallow
  rw [ancestors, ancestors, hk, ancestorsWithin, hb]
  dsimp only
  rw [ancestorsWithin_eq (hshallow b hb) (Nat.le_succ k)]

/-- **Base classes** are what base links lead to. -/
lemma mem_ancestors_iff : u ∈ md.ancestors t ↔ TransGen md.BaseLink t u := by
  have hwithin (k : Nat) (t : TypeRef) (hk : Shallow md.BaseLink k t) :
      u ∈ md.ancestorsWithin k t ↔ TransGen md.BaseLink t u := by
    induction k generalizing t with
    | zero =>
      refine iff_of_false List.not_mem_nil fun hu => ?_
      obtain ⟨b, hb, -⟩ := TransGen.head'_iff.1 hu
      exact hk b hb
    | succ k ih =>
      rw [ancestorsWithin, TransGen.head'_iff]
      cases hb : (md.type t).base with
      | none => simp [BaseLink, hb]
      | some b =>
        rw [List.mem_cons, ih b (hk b hb), ← reflTransGen_iff_eq_or_transGen]
        simp [BaseLink, hb]
  exact hwithin _ t (h.shallow_base t)

lemma pairwise_ancestors (t : TypeRef) : (md.ancestors t).Pairwise (TransGen md.BaseLink) := by
  induction hn : (md.ancestors t).length using Nat.strong_induction_on generalizing t with
  | _ n ih =>
    cases hb : (md.type t).base with
    | none => simp [ancestors, ancestorsWithin_of_none hb]
    | some b =>
      have heq := ancestors_of_base h hb
      rw [heq]
      exact List.pairwise_cons.2 ⟨fun _ => (mem_ancestors_iff h).1, ih _ (by simp [← hn, heq]) b rfl⟩

end Acyclic

end FlatHeap.Metadata
