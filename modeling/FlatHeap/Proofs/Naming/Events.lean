import FlatHeap.Proofs.Naming.Inheritance

/-!
# Names of events

An exported method that stands for an event is named after the event where its family begins.  Later
members take the name over, and being exported is passed on to them but not back to the first one.
So the event has its name if the first member of the family is exported, whatever the others are
(`Naming.Wired`).
-/

namespace FlatHeap.Naming

variable {md : Metadata} {o : Options} {n n' : Naming} {s b : Symbol} {t : TypeRef} {i : Nat}
  {m r : MethodRef}

/-- What a family makes of one of its methods `m`, where `r` is its first one. -/
structure Heads (md : Metadata) (o : Options) (r : MethodRef) (b : Symbol) (m : MethodRef)
    (s : Symbol) : Prop where
  first : b.member = .method r
  name : (md.method r).name = (md.method m).name
  emitted : s.emitted = b.emitted
  event : ∀ e, (md.method r).flags.exported = true → o.eventName? (md.method r).name = some e →
    b.emitted = e
  exported : (md.method m).flags.exported = true → s.flags.exported = true

/-- Every method has a family that is named after an event if its first member is. -/
def Wired (md : Metadata) (o : Options) (n : Naming) : Prop :=
  ∀ i s m, n.At i s → s.member = .method m → ∃ b r, n.At (s.root i) b ∧ Heads md o r b m s

lemma Wired.congr (h : n.Wired md o) (hs : n'.symbols = n.symbols) : n'.Wired md o := by
  intro i s m hat
  rw [At, hs] at hat
  simpa only [At, hs] using h i s m hat

lemma Wired.push (h : n.Wired md o)
    (hs : ∀ m, s.member = .method m →
      ∃ b r, (n.push s).At (s.root n.symbols.length) b ∧ Heads md o r b m s) :
    (n.push s).Wired md o := by
  intro i s' m hat hm
  rcases at_push.1 hat with hat | ⟨rfl, rfl⟩
  · obtain ⟨b, r, hb, hheads⟩ := h i s' m hat hm
    exact ⟨b, r, at_push.2 (.inl hb), hheads⟩
  · exact hs m hm

lemma Wired.adds {x : Member} (h : n.Wired md o) (hadd : Adds md o t n x n') : n'.Wired md o := by
  cases hadd with
  | unnamed => exact h
  | begins s _ entry symbols _ first exported =>
    obtain ⟨-, rfl⟩ := Prod.mk.inj entry
    refine (h.congr symbols).push fun m hm => ⟨s, m, at_push.2 (.inr ⟨?_, rfl⟩), ?_⟩
    · simp [Symbol.root, first.overrides]
    · exact ⟨hm, rfl, rfl, fun e hexp he => (exported m hm hexp).2 e he,
        fun hexp => (exported m hm hexp).1⟩
  | @joins m i base _ latest =>
    obtain ⟨hat, m₀, hm₀, hshape⟩ := latestOfShape?_spec latest
    obtain ⟨b, r, hb, hheads⟩ := h i base m₀ hat hm₀
    simp only [sameShape, Bool.and_eq_true, beq_iff_eq] at hshape
    refine h.push fun m' hm' => ⟨b, r, at_push.2 (.inl hb), ?_⟩
    obtain rfl : m = m' := Member.method.inj hm'
    refine ⟨hheads.first, hheads.name.trans hshape.1.1, hheads.emitted, hheads.event,
      fun hexp => ?_⟩
    simp [familySymbol, hexp]

/-- **Events are wired** in every naming of a class. -/
theorem ofClass_wired (h : ofClass md o t = .ok n) : n.Wired md o :=
  ofClass_induction (fun i s m hat => by simp [At] at hat) Wired.adds h

/-! ## Methods that a class lists -/

/-- **The methods that a class lists** are named behind everything else. -/
lemma exists_own_symbols (h : ofClass md o t = .ok n) : ∃ others own, n.symbols = others ++ own ∧
    own.map Symbol.member = ((md.type t).methods.filter (isNamed md)).map Member.method := by
  rw [ofClass, chain, List.foldlM_append] at h
  obtain ⟨n₁, -, h⟩ := except_bind_eq_ok_iff.1 h
  rw [List.foldlM_cons] at h
  obtain ⟨n₂, hadd, h⟩ := except_bind_eq_ok_iff.1 h
  obtain rfl := Except.ok.inj h
  obtain ⟨n₃, -, hadd⟩ := except_bind_eq_ok_iff.1 hadd
  have hentries : n₂.entries = n₃.entries ++ entriesOf md t ((md.type t).methods.map .method) := by
    rw [foldlM_entries hadd fun _ _ _ h => (adds_of_addMethod h).entries, flatMap_entriesOf]
  obtain ⟨others, own, hsplit, -, hown⟩ := List.map_eq_append_iff.1 hentries
  refine ⟨others, own, hsplit, ?_⟩
  have hmembers := congrArg (List.map Prod.snd) hown
  simpa [entriesOf, List.filter_map, Function.comp_def, Metadata.isNamed] using hmembers

lemma exists_mem_own {own : List Symbol}
    (hown : own.map Symbol.member = ((md.type t).methods.filter (isNamed md)).map Member.method)
    (hm : m ∈ (md.type t).methods) (hnamed : isNamed md m = true) :
    ∃ s ∈ own, s.member = .method m := by
  have hmem : Member.method m ∈ own.map Symbol.member := by
    rw [hown]
    exact List.mem_map_of_mem (List.mem_filter.2 ⟨hm, hnamed⟩)
  exact List.mem_map.1 hmem

lemma exists_symbol_of_listed (h : ofClass md o t = .ok n) (hm : m ∈ (md.type t).methods)
    (hnamed : isNamed md m = true) : ∃ s ∈ n.symbols, s.member = .method m := by
  obtain ⟨others, own, hsplit, hown⟩ := exists_own_symbols h
  obtain ⟨s, hs, hmember⟩ := exists_mem_own hown hm hnamed
  exact ⟨s, hsplit ▸ List.mem_append_right others hs, hmember⟩

lemma lookup_dispatchTarget? {target : MethodRef} (h : ofClass md o t = .ok n)
    (honce : (md.type t).methods.Nodup) (hm : m ∈ (md.type t).methods)
    (hnamed : isNamed md m = true) (hbody : (md.method m).body.isSome = true)
    (hs : n.find? (.method m) = some s) (htarget : n.dispatchTarget? md s.emitted = some target) :
    ∃ s', n.find? (.method target) = some s' ∧ s'.emitted = s.emitted := by
  obtain ⟨others, own, hsplit, hown⟩ := exists_own_symbols h
  have hnodup : (own.map Symbol.member).Nodup := by
    rw [hown]
    exact (honce.filter _).map fun _ _ heq => Member.method.inj heq
  have hfind {x : Symbol} (hx : x ∈ own) : n.find? x.member = some x := by
    rw [find?, hsplit, List.reverse_append, List.find?_append]
    cases hy : own.reverse.find? (·.member == x.member) with
    | none => simpa using List.find?_eq_none.1 hy x (List.mem_reverse.2 hx)
    | some y =>
      have hmem := List.mem_reverse.1 (List.mem_of_find?_eq_some hy)
      have hmember : y.member = x.member := by simpa using List.find?_some hy
      rw [List.inj_on_of_nodup_map hnodup hmem hx hmember]
      rfl
  have hsown : s ∈ own := by
    obtain ⟨x, hx, hmember⟩ := exists_mem_own hown hm hnamed
    rw [← hmember, hfind hx] at hs
    exact Option.some.inj hs ▸ hx
  have hmember : s.member = .method m := by simpa using List.find?_some hs
  rw [dispatchTarget?, hsplit, List.reverse_append, List.filterMap_append,
    List.find?_append] at htarget
  -- the method itself would do, so the search ends among the methods of the class
  cases hfirst : (own.reverse.filterMap fun x =>
      if x.emitted == s.emitted then x.method? else none).find?
      fun x => (md.method x).body.isSome with
  | none =>
    refine absurd hbody (List.find?_eq_none.1 hfirst m (List.mem_filterMap.2 ⟨s, ?_, ?_⟩))
    · exact List.mem_reverse.2 hsown
    · simp [Symbol.method?, hmember]
  | some x =>
    rw [hfirst] at htarget
    obtain rfl : x = target := Option.some.inj htarget
    obtain ⟨s', hs', hx⟩ := List.mem_filterMap.1 (List.mem_of_find?_eq_some hfirst)
    split_ifs at hx with hemitted
    refine ⟨s', ?_, by simpa using hemitted⟩
    rw [← Symbol.member_of_method? hx]
    exact hfind (List.mem_reverse.1 hs')

/-! ## Methods with an entry point -/

lemma firsts_aux (symbols acc : List Symbol)
    (hacc : acc.Pairwise fun s s' => s.emitted ≠ s'.emitted) :
    let firsts := symbols.foldl
      (fun acc s => if acc.any (·.emitted == s.emitted) then acc else acc ++ [s]) acc
    firsts.Pairwise (fun s s' => s.emitted ≠ s'.emitted) ∧ (∀ f ∈ firsts, f ∈ acc ∨ f ∈ symbols) ∧
      ∀ s, s ∈ acc ∨ s ∈ symbols → ∃ f ∈ firsts, f.emitted = s.emitted := by
  induction symbols generalizing acc with
  | nil =>
    exact ⟨hacc, fun f hf => .inl hf, fun s hs => ⟨s, hs.resolve_right List.not_mem_nil, rfl⟩⟩
  | cons x symbols ih =>
    rw [List.foldl_cons]
    split_ifs with hany
    · obtain ⟨hpair, hfrom, hall⟩ := ih acc hacc
      refine ⟨hpair, fun f hf => (hfrom f hf).imp_right (List.mem_cons_of_mem x), fun s hs => ?_⟩
      rw [List.mem_cons] at hs
      rcases hs with hs | rfl | hs
      · exact hall s (.inl hs)
      · obtain ⟨f, hf, heq⟩ := List.any_eq_true.1 hany
        obtain ⟨f', hf', heq'⟩ := hall f (.inl hf)
        exact ⟨f', hf', heq'.trans (by simpa using heq)⟩
      · exact hall s (.inr hs)
    · have hnew : (acc ++ [x]).Pairwise fun s s' => s.emitted ≠ s'.emitted := by
        refine List.pairwise_append.2 ⟨hacc, List.pairwise_singleton _ _, fun s hs r hr heq => ?_⟩
        rw [List.mem_singleton.1 hr] at heq
        exact hany (List.any_eq_true.2 ⟨s, hs, by simpa using heq⟩)
      obtain ⟨hpair, hfrom, hall⟩ := ih (acc ++ [x]) hnew
      refine ⟨hpair, fun f hf => ?_, fun s hs => hall s ?_⟩
      · have := hfrom f hf
        simp only [List.mem_append, List.mem_cons, List.not_mem_nil, or_false] at this ⊢
        tauto
      · simp only [List.mem_append, List.mem_cons, List.not_mem_nil, or_false] at hs ⊢
        tauto

lemma pairwise_firsts (n : Naming) : n.firsts.Pairwise fun s s' => s.emitted ≠ s'.emitted :=
  (firsts_aux n.symbols [] .nil).1

lemma exists_mem_firsts (hs : s ∈ n.symbols) :
    ∃ f ∈ n.firsts, f ∈ n.symbols ∧ f.emitted = s.emitted := by
  obtain ⟨-, hfrom, hall⟩ := firsts_aux n.symbols [] .nil
  obtain ⟨f, hf, heq⟩ := hall s (.inr hs)
  exact ⟨f, hf, (hfrom f hf).resolve_left List.not_mem_nil, heq⟩

lemma method?_isSome_of_emitted {f : Symbol} (hsep : n.Separate md) (hwired : n.Wired md o)
    (hs : s ∈ n.symbols) (hm : s.member = .method m) (hf : f ∈ n.symbols)
    (heq : f.emitted = s.emitted) : f.method?.isSome = true := by
  obtain ⟨i, hi⟩ := List.getElem?_of_mem hs
  obtain ⟨j, hj⟩ := List.getElem?_of_mem hf
  obtain ⟨b, r, hb, hheads⟩ := hwired i s m hi hm
  obtain ⟨b', hb', hfirst', hor⟩ := hsep.family hj
  obtain ⟨b₁, hb₁, hfirst, -⟩ := hsep.family hi
  obtain rfl : b = b₁ := hb.unique hb₁
  rcases hor with hroot | hfollows
  · -- a symbol that begins its family begins that of the method
    rw [hroot] at hb'
    obtain rfl : f = b' := At.unique hj hb'
    have hij := hsep.distinct hj hb hfirst'.overrides hfirst.overrides (heq.trans hheads.emitted)
    obtain rfl : f = b := At.unique hj (hij ▸ hb)
    simp [Symbol.method?, hheads.first]
  · exact hfollows.isMethod

/-- **An exported method has an entry point** under the name of its family. -/
lemma exists_exportedMethod (hsep : n.Separate md) (hwired : n.Wired md o) (hs : s ∈ n.symbols)
    (hm : s.member = .method m) (hexported : s.flags.exported = true) :
    ∃ f ∈ n.exportedMethods, f.emitted = s.emitted := by
  obtain ⟨f, hf, hfmem, heq⟩ := exists_mem_firsts hs
  refine ⟨f, List.mem_filter.2 ⟨hf, ?_⟩, heq⟩
  rw [Bool.and_eq_true, List.any_eq_true]
  exact ⟨method?_isSome_of_emitted hsep hwired hs hm hfmem heq, s, hs, by simp [heq, hexported]⟩

lemma exists_dispatchTarget? (hs : s ∈ n.symbols) (hm : s.member = .method m)
    (hbody : (md.method m).body.isSome = true) :
    ∃ target, n.dispatchTarget? md s.emitted = some target := by
  rw [← Option.isSome_iff_exists, dispatchTarget?, List.find?_isSome]
  refine ⟨m, List.mem_filterMap.2 ⟨s, List.mem_reverse.2 hs, ?_⟩, hbody⟩
  simp [Symbol.method?, hm]

end FlatHeap.Naming
