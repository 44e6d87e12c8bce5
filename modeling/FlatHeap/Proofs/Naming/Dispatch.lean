import FlatHeap.Proofs.Naming.Families

/-!
# Bodies that calls lead to

A call by name leads to the latest method of the family that has a body, in the order in which types are
visited for the class.  The class itself comes last, so a body of its own is chosen first.  Interfaces
come next, and base classes only then: the body that an interface has for a method hides the one that a
base class implements it with (`Naming.interface_hides_base`), whichever of the two is more derived.

`Naming.dispatch_prefers_interfaces_to_bases` says for every class what is chosen.
-/

namespace FlatHeap.Naming

open Relation

variable {md : Metadata} {o : Options} {n : Naming} {t c : TypeRef} {name : String} {m : MethodRef}

/-- The type declares a method of the family with a body. -/
def Provides (md : Metadata) (n : Naming) (name : String) (c : TypeRef) (m : MethodRef) : Prop :=
  ∃ s ∈ n.symbols, s.declaring = c ∧ s.member = .method m ∧ s.emitted = name ∧
    (md.method m).body.isSome = true

/-- The method with a body that a symbol of the family stands for. -/
def provided? (md : Metadata) (name : String) (s : Symbol) : Option MethodRef :=
  (if s.emitted == name then s.method? else none).filter fun m => (md.method m).body.isSome

lemma provided?_eq_some_iff {s : Symbol} : provided? md name s = some m ↔
    s.member = .method m ∧ s.emitted = name ∧ (md.method m).body.isSome = true := by
  rw [provided?, Option.filter_eq_some_iff]
  by_cases hname : s.emitted = name
  · have hmethod : s.method? = some m ↔ s.member = .method m :=
      ⟨Symbol.member_of_method?, fun h => by rw [Symbol.method?, h]⟩
    simp [hname, hmethod]
  · simp [hname]

lemma provides_iff : n.Provides md name c m ↔
    ∃ s ∈ n.symbols, s.declaring = c ∧ provided? md name s = some m := by
  simp only [Provides, provided?_eq_some_iff]

lemma dispatchTarget?_eq (n : Naming) (md : Metadata) (name : String) :
    n.dispatchTarget? md name = n.symbols.reverse.findSome? (provided? md name) := by
  rw [dispatchTarget?]
  induction n.symbols.reverse with
  | nil => rfl
  | cons s symbols ih =>
    rw [List.findSome?_cons, ← ih, provided?, List.filterMap_cons]
    cases (if s.emitted == name then s.method? else none) with
    | none => rfl
    | some m =>
      cases hbody : (md.method m).body.isSome <;>
        simp only [List.find?_cons, Option.filter, hbody] <;> rfl

lemma dispatchTarget?_eq_none_iff :
    n.dispatchTarget? md name = none ↔ ∀ c m, ¬ n.Provides md name c m := by
  rw [dispatchTarget?_eq, List.findSome?_eq_none_iff]
  simp only [List.mem_reverse, provides_iff, Option.eq_none_iff_forall_ne_some]
  grind

/-- **What is chosen** is declared by a type behind all others that provide a body. -/
lemma exists_provides_behind (hacyclic : Metadata.Acyclic md.Link) (hkinds : md.WellKinded)
    (h : ofClass md o t = .ok n) (hm : n.dispatchTarget? md name = some m) :
    ∃ c, n.Provides md name c m ∧
      ∀ a m', n.Provides md name a m' → a = c ∨ a ≠ t ∧ Behind md t a c := by
  rw [dispatchTarget?_eq] at hm
  obtain ⟨later, s, sooner, hsplit, hs, hnone⟩ := List.findSome?_eq_some_iff.1 hm
  have hsymbols : n.symbols = sooner.reverse ++ s :: later.reverse := by
    simpa using congrArg List.reverse hsplit
  refine ⟨s.declaring, provides_iff.2 ⟨s, by simp [hsymbols], rfl, hs⟩, fun a m' ha => ?_⟩
  obtain ⟨s', hs', rfl, hprovided⟩ := provides_iff.1 ha
  -- entries are in the order of the visit
  have horder : n.entries.Pairwise fun a b => a.1 = b.1 ∨ a.1 ≠ t ∧ Behind md t a.1 b.1 := by
    rw [ofClass_entries h, List.pairwise_flatMap]
    refine ⟨fun c _ => List.pairwise_of_forall_mem_list fun a ha b hb => .inl ?_,
      (pairwise_chain hacyclic hkinds t).imp fun {c d} hcd a ha b hb => .inr ?_⟩
    · obtain ⟨_, -, rfl⟩ := List.mem_map.1 ha
      obtain ⟨_, -, rfl⟩ := List.mem_map.1 hb
      rfl
    · obtain ⟨_, -, rfl⟩ := List.mem_map.1 ha
      obtain ⟨_, -, rfl⟩ := List.mem_map.1 hb
      exact ⟨hcd.1, hcd.2.2⟩
  rw [entries, List.pairwise_map, hsymbols, List.pairwise_append] at horder
  rw [hsymbols, List.mem_append, List.mem_cons, List.mem_reverse, List.mem_reverse] at hs'
  rcases hs' with hs' | rfl | hs'
  · exact horder.2.2 s' (List.mem_reverse.2 hs') s List.mem_cons_self
  · exact .inl rfl
  · simp [hnone s' hs'] at hprovided

lemma Provides.visits (hacyclic : Metadata.Acyclic md.Link) (h : ofClass md o t = .ok n)
    (hc : n.Provides md name c m) : md.Visits t c := by
  obtain ⟨s, hs, rfl, -⟩ := hc
  have hentry : (s.declaring, s.member) ∈ n.entries := List.mem_map_of_mem hs
  exact (mem_chain_iff hacyclic).1 ((mem_entries_iff h).1 hentry).1

lemma base_of_visits (hkinds : md.WellKinded) (hc : md.Visits t c) (hne : c ≠ t)
    (hkind : md.kind c ≠ .interfaceType) : TransGen md.BaseLink t c := by
  obtain ⟨b, hb, hreach⟩ := hc
  rcases reflTransGen_iff_eq_or_transGen.1 hreach with heq | hlinks
  · rw [heq] at hne ⊢
    exact (hb.resolve_left hne).1
  · exact absurd (hkinds.kind_of_userLink hlinks) hkind

/-- **Interfaces come before base classes.**  Let links never lead back and interfaces be kept apart from
base classes.  A call by name leads nowhere exactly if no type that is visited for the class has a body for
it.  Otherwise it leads to a body of the class itself if that has one, else of an interface if one has,
else of a base class.  Of classes it is the most derived one, of interfaces one that no other with a body
extends. -/
theorem dispatch_prefers_interfaces_to_bases (hacyclic : Metadata.Acyclic md.Link)
    (hkinds : md.WellKinded) (h : ofClass md o t = .ok n) (name : String) :
    (n.dispatchTarget? md name = none ↔ ∀ c m, ¬ n.Provides md name c m) ∧
      ∀ m, n.dispatchTarget? md name = some m → ∃ c, n.Provides md name c m ∧
        ((∃ m', n.Provides md name t m') → c = t) ∧
        ((¬ ∃ m', n.Provides md name t m') → (md.kind c = .interfaceType ↔
          ∃ i m', md.kind i = .interfaceType ∧ n.Provides md name i m')) ∧
        (md.kind c ≠ .interfaceType → ∀ b m', md.kind b ≠ .interfaceType →
          n.Provides md name b m' → b = c ∨ TransGen md.BaseLink c b) ∧
        ∀ i m', md.kind i = .interfaceType → n.Provides md name i m' → ¬ TransGen md.UserLink i c := by
  refine ⟨dispatchTarget?_eq_none_iff, fun m hm => ?_⟩
  obtain ⟨c, hc, hlast⟩ := exists_provides_behind hacyclic hkinds h hm
  refine ⟨c, hc, ?_, fun hown => ⟨fun hkind => ⟨c, m, hkind, hc⟩, ?_⟩, ?_, ?_⟩
  · rintro ⟨m', ht⟩
    exact ((hlast t m' ht).resolve_right fun hne => hne.1 rfl).symm
  · rintro ⟨i, m', hkind, hi⟩
    rcases hlast i m' hi with rfl | ⟨-, hbehind⟩
    · exact hkind
    · cases hbehind with
      | own => exact absurd ⟨m, hc⟩ hown
      | interface _ hinterface => exact hinterface
      | extended hinterface => exact hinterface
      | derived hbase => exact absurd hkind (hkinds.kind_of_baseLink hbase)
  · intro hkind b m' hbkind hb
    rcases hlast b m' hb with rfl | ⟨hne, hbehind⟩
    · exact .inl rfl
    · cases hbehind with
      | own => exact .inr (base_of_visits hkinds (hb.visits hacyclic h) hne hbkind)
      | interface _ hinterface => exact absurd hinterface hkind
      | extended hinterface => exact absurd hinterface hkind
      | derived hbase => exact .inr hbase
  · intro i m' hkind hi hextends
    rcases hlast i m' hi with rfl | ⟨-, hbehind⟩
    · exact acyclic_userLink hacyclic i hextends
    · cases hbehind with
      | own =>
        have hreach := (hi.visits hacyclic h).reflTransGen
        exact hacyclic t (.trans_right hreach (Metadata.transGen_link_of_userLink hextends))
      | interface hbase => exact hkinds.kind_of_baseLink hbase hkind
      | extended _ hnot => exact hnot hextends
      | derived hbase => exact hkinds.kind_of_baseLink hbase hkind

/-- A method without parameters that may be overridden, with a body that does nothing. -/
def emptyMethod : MethodDecl :=
  { name := "M", result := .void, isVirtual := true, body := some { code := [0x2a] } }

/-- A class implements a method for which the interface has a body too, and another class is derived from
it. -/
def shadowing : Metadata :=
  let md := (Metadata.addType {} (.user "Game.Switch" .interfaceType)).2
  let md := (md.addType (userClass "Game.Base" none [⟨16⟩])).2
  let md := (md.addType (userClass "Game.Door" (some ⟨17⟩) [])).2
  let md := (md.addMethod ⟨16⟩ emptyMethod).2
  (md.addMethod ⟨17⟩ emptyMethod).2

lemma acyclic_shadowing : Metadata.Acyclic shadowing.Link := Metadata.acyclic_of_lt (by decide)

lemma wellKinded_shadowing : shadowing.WellKinded := Metadata.wellKinded_of_forall (by decide)

lemma ofClass_shadowing : ∃ n, ofClass shadowing {} ⟨18⟩ = .ok n ∧
    n.dispatchTarget? shadowing "M" = some ⟨0⟩ ∧ n.Provides shadowing "M" ⟨16⟩ ⟨0⟩ ∧
    n.Provides shadowing "M" ⟨17⟩ ⟨1⟩ := by
  have hchain : chain shadowing ⟨18⟩ = [⟨17⟩, ⟨16⟩, ⟨18⟩] := rfl
  rw [ofClass, hchain]
  exact ⟨_, rfl, rfl, ⟨_, List.mem_cons_of_mem _ List.mem_cons_self, rfl, rfl, rfl, rfl⟩,
    ⟨_, List.mem_cons_self, rfl, rfl, rfl, rfl⟩⟩

/-- **An interface hides a base class.**  The base class has a body for the method, and the call leads to
the body of the interface. -/
theorem interface_hides_base : ∃ n, ofClass shadowing {} ⟨18⟩ = .ok n ∧
    TransGen shadowing.BaseLink ⟨18⟩ ⟨17⟩ ∧ n.Provides shadowing "M" ⟨17⟩ ⟨1⟩ ∧
    n.dispatchTarget? shadowing "M" = some ⟨0⟩ ∧ shadowing.declaring (.method ⟨0⟩) = ⟨16⟩ ∧
    shadowing.kind ⟨16⟩ = .interfaceType := by
  obtain ⟨n, hn, htarget, -, hbase⟩ := ofClass_shadowing
  exact ⟨n, hn, .single rfl, hbase, htarget, rfl, rfl⟩

/-- The interface is chosen, since the class derived from the base class has no body. -/
theorem dispatch_prefers_interfaces_to_bases_shadowing : ∃ n c, ofClass shadowing {} ⟨18⟩ = .ok n ∧
    Metadata.Acyclic shadowing.Link ∧ shadowing.WellKinded ∧
    n.dispatchTarget? shadowing "M" = some ⟨0⟩ ∧ n.Provides shadowing "M" c ⟨0⟩ ∧
    shadowing.kind c = .interfaceType := by
  obtain ⟨n, hn, htarget, hinterface, -⟩ := ofClass_shadowing
  obtain ⟨c, hc, -, hkind, -⟩ :=
    (dispatch_prefers_interfaces_to_bases acyclic_shadowing wellKinded_shadowing hn "M").2 ⟨0⟩ htarget
  refine ⟨n, c, hn, acyclic_shadowing, wellKinded_shadowing, htarget, hc, (hkind ?_).2 ?_⟩
  · rintro ⟨m, s, hs, hd, -⟩
    have hentry : (⟨18⟩, s.member) ∈ n.entries := hd ▸ List.mem_map_of_mem hs
    exact List.not_mem_nil ((mem_entries_iff hn).1 hentry).2.1
  · exact ⟨⟨16⟩, ⟨0⟩, rfl, hinterface⟩

end FlatHeap.Naming
