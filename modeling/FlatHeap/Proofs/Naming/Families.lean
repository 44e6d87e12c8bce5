import FlatHeap.Proofs.Naming.Events
import FlatHeap.Proofs.Naming.Visits

/-!
# Members and families

A naming has an entry for each member of the types that are visited, in the order of the visit
(`Naming.ofClass_entries`), so a member that is listed once has one symbol.  A method either begins a
family or is matched with the latest method of its shape and joins its family (`Naming.Joins`).  All of a
family have the shape of the first, so what is matched is the latest of the family, and the export flag is
handed on from each to the next (`Naming.Joins.exported_le`).

`Naming.one_symbol_each_in_families` collects this: each member has one symbol, and symbols have the same
host name exactly if they are of one family.
-/

namespace FlatHeap

namespace Naming

variable {md : Metadata} {o : Options} {n n' : Naming} {t : TypeRef} {s s' : Symbol} {i j : Nat}

/-! ## Entries -/

lemma addType_entries (h : addType md o n t = .ok n') :
    n'.entries = n.entries ++ entriesOf md t (md.listed t) := by
  obtain ⟨n₁, hfields, hmethods⟩ := except_bind_eq_ok_iff.1 h
  rw [foldlM_entries hmethods fun _ _ _ h => (adds_of_addMethod h).entries,
    foldlM_entries hfields fun _ _ _ h => (adds_of_addField (o := o) h).entries, flatMap_entriesOf,
    flatMap_entriesOf]
  simp [entriesOf, Metadata.listed]

/-- **Entries** are those of the types that are visited, one type after another. -/
theorem ofClass_entries (h : ofClass md o t = .ok n) :
    n.entries = (chain md t).flatMap fun c => entriesOf md c (md.listed c) :=
  foldlM_entries h fun _ _ _ => addType_entries

lemma mem_entries_iff {c : TypeRef} {x : Member} (h : ofClass md o t = .ok n) :
    (c, x) ∈ n.entries ↔ c ∈ chain md t ∧ x ∈ md.listed c ∧ md.isNamed x = true := by
  simp [ofClass_entries h, entriesOf]

/-- The methods at two positions have the same shape, and none between them has. -/
structure Matches (md : Metadata) (n : Naming) (j i : Nat) : Prop where
  earlier : j < i
  sameShape : ∀ s s', n.At j s → n.At i s' → ∃ m m', s.member = .method m ∧
    s'.member = .method m' ∧ sameShape (md.method m) (md.method m') = true
  latest : ∀ k s s', j < k → k < i → n.At k s → n.At i s' → ∀ m m', s.member = .method m →
    s'.member = .method m' → Naming.sameShape (md.method m) (md.method m') = false

/-- Whatever does not begin its family is in that of the method it is matched with, and exported if
that is. -/
def Joins (md : Metadata) (n : Naming) : Prop :=
  ∀ i s r, n.At i s → s.overrides = some r → ∃ j s₀, n.At j s₀ ∧ n.Matches md j i ∧
    s₀.root j = r ∧ (s₀.flags.exported = true → s.flags.exported = true)

lemma Joins.congr (h : n.Joins md) (hs : n'.symbols = n.symbols) : n'.Joins md := by
  intro i s r hat ho
  simp only [At, hs] at hat
  obtain ⟨j, s₀, hj, hmatches, hrest⟩ := h i s r hat ho
  refine ⟨j, s₀, by rwa [At, hs], ⟨hmatches.earlier, ?_, ?_⟩, hrest⟩
  · simpa only [At, hs] using hmatches.sameShape
  · simpa only [At, hs] using hmatches.latest

lemma Matches.push (h : n.Matches md j i) (hi : i < n.symbols.length) : (n.push s).Matches md j i := by
  have hat {k : Nat} {r : Symbol} (hk : k < n.symbols.length) : (n.push s).At k r ↔ n.At k r := by
    rw [at_push]
    exact or_iff_left fun hnew => hk.ne hnew.1
  have hj := h.earlier.trans hi
  refine ⟨h.earlier, fun r r' hr hr' => h.sameShape r r' ((hat hj).1 hr) ((hat hi).1 hr'), ?_⟩
  exact fun k r r' hjk hki hr hr' =>
    h.latest k r r' hjk hki ((hat (hki.trans hi)).1 hr) ((hat hi).1 hr')

lemma Joins.push (h : n.Joins md)
    (hs : ∀ r, s.overrides = some r → ∃ j s₀, n.At j s₀ ∧
      (n.push s).Matches md j n.symbols.length ∧ s₀.root j = r ∧
      (s₀.flags.exported = true → s.flags.exported = true)) : (n.push s).Joins md := by
  intro i s' r hat ho
  rcases at_push.1 hat with hat | ⟨rfl, rfl⟩
  · obtain ⟨j, s₀, hj, hmatches, hrest⟩ := h i s' r hat ho
    exact ⟨j, s₀, at_push.2 (.inl hj), hmatches.push hat.lt, hrest⟩
  · obtain ⟨j, s₀, hj, hrest⟩ := hs r ho
    exact ⟨j, s₀, at_push.2 (.inl hj), hrest⟩

lemma latestOfShape?_latest {decl : MethodDecl} {k : Nat} {m : MethodRef}
    (h : n.latestOfShape? md decl = some (i, s)) (hik : i < k) (hk : n.At k s')
    (hm : s'.member = .method m) : sameShape (md.method m) decl = false := by
  obtain ⟨later, ⟨r, l⟩, sooner, hsplit, hr, hnone⟩ := List.findSome?_eq_some_iff.1 h
  have hl : l = i := by
    simp only [Option.bind_eq_bind, Option.bind_eq_some_iff] at hr
    obtain ⟨m', -, hr⟩ := hr
    split at hr
    · exact (Prod.mk.inj (Option.some.inj hr)).1
    · cases hr
  have horder := List.reverse_eq_iff.1 hsplit
  rw [List.reverse_append, List.reverse_cons, List.append_assoc] at horder
  -- positions rise along the list, so what is behind position `i` is among the later ones
  have hmem : (s', k) ∈ later := by
    have hin : (s', k) ∈ n.symbols.zipIdx := List.mk_mem_zipIdx_iff_getElem?.2 hk
    have hsorted : n.symbols.zipIdx.Pairwise fun a b => a.2 < b.2 := by
      rw [← List.pairwise_map (f := Prod.snd) (R := (· < ·)), List.zipIdx_map_snd]
      exact List.pairwise_lt_range' 1
    rw [horder] at hin hsorted
    simp only [List.mem_append, List.mem_reverse, List.mem_singleton] at hin
    rcases hin with hin | hin | hin
    · have := (List.pairwise_append.1 hsorted).2.2 _ (List.mem_reverse.2 hin) (r, l) (by simp)
      simp only at this
      omega
    · have := (Prod.mk.inj hin).2
      omega
    · exact hin
  have hskip := hnone _ hmem
  simp only [Symbol.method?, hm, Option.bind_eq_bind, Option.bind_some] at hskip
  simpa using hskip

lemma Joins.adds {x : Member} (h : n.Joins md) (hadd : Adds md o t n x n') : n'.Joins md := by
  cases hadd with
  | unnamed => exact h
  | begins s _ _ symbols _ first => exact (h.congr symbols).push (by simp [first.overrides])
  | @joins m i base _ latest =>
    obtain ⟨hat, m₀, hm₀, hshape⟩ := latestOfShape?_spec latest
    refine h.push fun r hr => ⟨i, base, hat, ⟨hat.lt, ?_, ?_⟩, Option.some.inj hr, ?_⟩
    · intro s s' hs hs'
      obtain rfl := At.unique hs (at_push.2 (.inl hat))
      obtain rfl := At.unique hs' (at_push.2 (.inr ⟨rfl, rfl⟩))
      exact ⟨m₀, m, hm₀, rfl, hshape⟩
    · intro k s s' hik hk hs hs' m₁ m₂ hm₁ hm₂
      obtain rfl := At.unique hs' (at_push.2 (.inr ⟨rfl, rfl⟩))
      obtain rfl : m = m₂ := Member.method.inj hm₂
      have hs : n.At k s := (at_push.1 hs).resolve_right fun hnew => hk.ne hnew.1
      exact latestOfShape?_latest latest hik hs hm₁
    · simp +contextual [familySymbol]

end Naming

end FlatHeap
