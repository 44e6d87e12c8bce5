import Mathlib.Data.List.Infix
import Mathlib.Tactic
import FlatHeap.Host.SourceMap

/-!
# Looking up sources

The source of an address is that of the last point at or below it, and of points with one address the
one that was added last.  `SourceMap.Governs` says so of the points as they were added.  Sorting keeps
the order of points with the same address, so that point is the last one of the sorted points that are
not above the address, and bisection finds it (`SourceMap.lookup?_sort`).
-/

namespace FlatHeap.Host.SourceMap

variable {points : List SourcePoint} {p q : SourcePoint} {address : Nat}

lemma intern_spec (names : List String) (name : String) :
    names <+: (intern names name).2 ∧ (intern names name).2[(intern names name).1]? = some name := by
  unfold intern
  split
  · rename_i i hi
    refine ⟨List.prefix_rfl, ?_⟩
    obtain ⟨hlt, heq, -⟩ := List.findIdx?_eq_some_iff_getElem.1 hi
    simpa [hlt] using heq
  · simp

/-! ## Bisection -/

lemma bisect_spec {test : Nat → Bool} {n : Nat} (htest : ∀ i, test i = true ↔ i < n)
    (base size : Nat) (hsize : 0 < size) :
    (n ≤ base → bisect test base size = base) ∧
      (base < n → n ≤ base + size → bisect test base size + 1 = n) := by
  induction size using Nat.strong_induction_on generalizing base with
  | _ size ih =>
    rw [bisect]
    split_ifs with hone
    · omega
    · dsimp only
      by_cases hlt : base + size / 2 < n
      · have := ih (size - size / 2) (by omega) (base + size / 2) (by omega)
        rw [if_pos ((htest _).2 hlt)]
        omega
      · have := ih (size - size / 2) (by omega) base (by omega)
        rw [if_neg (mt (htest _).1 hlt)]
        omega

def below (points : List SourcePoint) (address : Nat) : List SourcePoint :=
  points.filter (·.address ≤ address)

lemma below_prefix (hsorted : points.Pairwise (·.address ≤ ·.address)) (address : Nat) :
    ∃ above, points = below points address ++ above ∧ ∀ q ∈ above, address < q.address := by
  induction points with
  | nil => exact ⟨[], rfl, by simp⟩
  | cons p points ih =>
    obtain ⟨hp, hsorted⟩ := List.pairwise_cons.1 hsorted
    by_cases hle : p.address ≤ address
    · obtain ⟨above, heq, habove⟩ := ih hsorted
      refine ⟨above, ?_, habove⟩
      rw [below, List.filter_cons_of_pos (by simpa using hle), List.cons_append, ← below, ← heq]
    · have hall : ∀ q ∈ p :: points, address < q.address :=
        List.forall_mem_cons.2 ⟨by omega, fun q hq => by have := hp q hq; omega⟩
      refine ⟨p :: points, ?_, hall⟩
      rw [below, List.filter_eq_nil_iff.2 fun q hq => by have := hall q hq; simpa using this,
        List.nil_append]

lemma countUpTo_eq (hsorted : points.Pairwise (·.address ≤ ·.address)) (address : Nat) :
    countUpTo points address = (below points address).length := by
  have htest (i : Nat) : (points[i]?).any (·.address ≤ address) = true ↔
      i < (below points address).length := by
    obtain ⟨above, heq, habove⟩ := below_prefix hsorted address
    have hbelow : ∀ q ∈ below points address, q.address ≤ address := fun q hq => by
      simpa using (List.mem_filter.1 hq).2
    generalize below points address = first at heq hbelow
    subst heq
    rw [List.getElem?_append]
    split_ifs with hi
    · simpa [hi] using hbelow _ (List.getElem_mem hi)
    · refine iff_of_false (fun hany => ?_) hi
      obtain ⟨q, hq, hle⟩ := (Option.any_eq_true _ _).1 hany
      have := habove q (List.mem_of_getElem? hq)
      exact absurd this (Nat.not_lt.2 (by simpa using hle))
  have hle : (below points address).length ≤ points.length := List.length_filter_le _ _
  have hbisect := bisect_spec htest 0 points.length
  rw [countUpTo]
  by_cases hnil : points = []
  · simp [hnil, below]
  · have hpos : 0 < points.length := List.length_pos_iff.2 hnil
    simp only [List.isEmpty_iff, hnil, if_false, htest]
    split_ifs <;> omega

/-! ## Lookup -/

/-- The point is the source of an address: it is not above it, no point lies between them, and of the
points with its address it was added last. -/
structure Governs (points : List SourcePoint) (address : Nat) (p : SourcePoint) : Prop where
  le : p.address ≤ address
  greatest : ∀ q ∈ points, q.address ≤ address → q.address ≤ p.address
  latest : (points.filter (·.address = p.address)).getLast? = some p

lemma Governs.mem (h : Governs points address p) : p ∈ points :=
  List.mem_of_mem_filter (List.mem_of_getLast? h.latest)

lemma Governs.unique (hp : Governs points address p) (hq : Governs points address q) : p = q := by
  have haddress : p.address = q.address :=
    le_antisymm (hq.greatest p hp.mem hp.le) (hp.greatest q hq.mem hq.le)
  have hlatest := hp.latest
  rw [haddress, hq.latest] at hlatest
  exact (Option.some.inj hlatest).symm

lemma sorted_sort (m : SourceMap) : m.sort.points.Pairwise (·.address ≤ ·.address) := by
  have hsorted : (m.points.mergeSort fun p q => p.address ≤ q.address).Pairwise fun p q =>
      decide (p.address ≤ q.address) = true :=
    List.pairwise_mergeSort (by simp; omega) (by simp; omega) m.points
  simpa [sort] using hsorted

lemma perm_sort (m : SourceMap) : m.sort.points.Perm m.points := List.mergeSort_perm _ _

lemma filter_sort (m : SourceMap) (k : Nat) :
    m.sort.points.filter (·.address = k) = m.points.filter (·.address = k) := by
  have hsub : (m.points.filter (·.address = k)).Sublist m.sort.points := by
    refine List.sublist_mergeSort (by simp; omega) (by simp; omega) ?_ List.filter_sublist
    refine List.pairwise_of_forall_mem_list fun p hp q hq => ?_
    simp only [List.mem_filter, decide_eq_true_eq] at hp hq ⊢
    omega
  refine (List.Sublist.eq_of_length ?_ ?_).symm
  · simpa using hsub.filter (·.address = k)
  · exact ((perm_sort m).filter _).length_eq.symm

lemma governs_of_getLast? {m : SourceMap} (h : (below m.sort.points address).getLast? = some p) :
    Governs m.points address p := by
  obtain ⟨init, hinit⟩ := List.getLast?_eq_some_iff.1 h
  have hle : p.address ≤ address := by
    simpa using (List.mem_filter.1 (List.mem_of_getLast? h)).2
  refine ⟨hle, fun q hq hqle => ?_, ?_⟩
  · have hmem : q ∈ init ++ [p] :=
      hinit ▸ List.mem_filter.2 ⟨(perm_sort m).mem_iff.2 hq, by simpa using hqle⟩
    have hpair : (init ++ [p]).Pairwise (·.address ≤ ·.address) := hinit ▸ (sorted_sort m).filter _
    rcases List.mem_append.1 hmem with hmem | hmem
    · exact (List.pairwise_append.1 hpair).2.2 q hmem p (List.mem_singleton_self p)
    · rw [List.mem_singleton.1 hmem]
  · -- points with the address of this one are all among those that are not above
    have hfilter : m.sort.points.filter (·.address = p.address) =
        (below m.sort.points address).filter (·.address = p.address) := by
      rw [below, List.filter_filter]
      refine List.filter_congr fun q _ => ?_
      by_cases hq : q.address = p.address <;> simp [hq, hle]
    rw [← filter_sort, hfilter, hinit, List.filter_append]
    simp

/-- **Lookup** finds the last of the sorted points at or below the address. -/
lemma lookup?_sort (m : SourceMap) (address : Nat) :
    m.sort.lookup? address = (below m.sort.points address).getLast?.bind fun p =>
      m.methods[p.method]?.map (·, p.offset) := by
  obtain ⟨above, heq, -⟩ := below_prefix (sorted_sort m) address
  rw [lookup?, countUpTo_eq (sorted_sort m)]
  cases hlast : (below m.sort.points address).getLast? with
  | none =>
    rw [List.getLast?_eq_none_iff.1 hlast]
    rfl
  | some p =>
    obtain ⟨init, hinit⟩ := List.getLast?_eq_some_iff.1 hlast
    have hat : m.sort.points[init.length]? = some p := by rw [heq, hinit]; simp
    rw [hinit, List.length_append, List.length_singleton]
    simp only [lookup?.pred?, Option.bind_eq_bind, Option.bind_some, hat, Option.map_eq_bind]
    rfl

/-- **The source of an address** is what lookup answers with, provided the map has its method. -/
lemma lookup?_cases (m : SourceMap) (address : Nat) :
    (∀ p ∈ m.points, address < p.address) ∧ m.sort.lookup? address = none ∨
      ∃ p, Governs m.points address p ∧
        m.sort.lookup? address = m.methods[p.method]?.map (·, p.offset) := by
  rw [lookup?_sort]
  cases hlast : (below m.sort.points address).getLast? with
  | none =>
    have habove := List.getLast?_eq_none_iff.1 hlast
    simp only [below, List.filter_eq_nil_iff, decide_eq_true_eq, Nat.not_le] at habove
    exact .inl ⟨fun p hp => habove p ((perm_sort m).mem_iff.2 hp), rfl⟩
  | some p => exact .inr ⟨p, governs_of_getLast? hlast, rfl⟩

lemma lookup?_eq_some_iff {m : SourceMap} {name : String} {offset : Nat} :
    m.sort.lookup? address = some (name, offset) ↔ ∃ p, Governs m.points address p ∧
      m.methods[p.method]? = some name ∧ p.offset = offset := by
  rcases lookup?_cases m address with ⟨habove, hnone⟩ | ⟨p, hp, heq⟩
  · refine iff_of_false (by simp [hnone]) ?_
    rintro ⟨p, hp, -⟩
    exact absurd hp.le (Nat.not_le.2 (habove p hp.mem))
  · rw [heq]
    constructor
    · intro h
      obtain ⟨x, hx, hname⟩ := Option.map_eq_some_iff.1 h
      obtain ⟨rfl, rfl⟩ := Prod.mk.inj hname
      exact ⟨p, hp, hx, rfl⟩
    · rintro ⟨q, hq, hname, rfl⟩
      rw [hp.unique hq, hname]
      rfl

lemma lookup?_eq_none_iff {m : SourceMap} :
    m.sort.lookup? address = none ↔ (∀ p ∈ m.points, address < p.address) ∨
      ∃ p, Governs m.points address p ∧ m.methods.length ≤ p.method := by
  rcases lookup?_cases m address with ⟨habove, hnone⟩ | ⟨p, hp, heq⟩
  · exact iff_of_true hnone (.inl habove)
  · rw [heq, Option.map_eq_none_iff, List.getElem?_eq_none_iff]
    refine ⟨fun hle => .inr ⟨p, hp, hle⟩, ?_⟩
    rintro (habove | ⟨q, hq, hle⟩)
    · exact absurd hp.le (Nat.not_le.2 (habove p hp.mem))
    · rwa [hp.unique hq]

lemma foldl_add (m : SourceMap) (added : List SourcePoint) :
    added.foldl add m = { m with points := m.points ++ added } := by
  induction added generalizing m with
  | nil => simp
  | cons p added ih => rw [List.foldl_cons, ih, add, List.append_assoc]; rfl

end FlatHeap.Host.SourceMap
