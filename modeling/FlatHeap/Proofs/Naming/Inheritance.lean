import FlatHeap.Proofs.Metadata.Catalogue
import FlatHeap.Proofs.Naming.Storage

/-!
# Names of inherited members

A program is reached from outside under the names that the static type of the reference gives, while
it was compiled with those of its own class, so the two have to agree for the members they share.
Names depend on the order in which types are visited.  A base class is visited early for a derived one
but last, behind its interfaces, for itself, and what was visited before it may have taken the name it
wants or have begun the family it joins.

If a class has no interfaces of the compiled program, nothing comes between its base classes and
itself, the naming of a derived class begins with that of the class, and everything the two share has
the same symbol (`Naming.names_agree_below`).  With an interface even the slots of parameters can
differ (`Naming.param_slots_differ_below`).
-/

namespace FlatHeap

namespace Naming

variable {md : Metadata} {o : Options} {n n' : Naming} {t b d : TypeRef} {ms : List Member}
  {s : Symbol}

/-! ## Order of visit -/

lemma collectInterfaces_of_host {acc : List TypeRef}
    (h : ∀ i ∈ (md.type t).interfaces, md.isUser i = false) : collectInterfaces md t acc = acc := by
  rw [collectInterfaces]
  cases md.types.size with
  | zero => rfl
  | succ k =>
    rw [collectWithin]
    generalize (md.type t).interfaces = interfaces at h
    induction interfaces generalizing acc with
    | nil => rfl
    | cons i interfaces ih =>
      rw [List.foldl_cons, h i List.mem_cons_self]
      exact ih fun j hj => h j (List.mem_cons_of_mem i hj)

lemma chain_of_host (h : ∀ c ∈ t :: md.ancestors t, ∀ i ∈ (md.type c).interfaces, md.isUser i = false) :
    chain md t = ((md.ancestors t).filter md.isUser).reverse ++ [t] := by
  have hnone {cs : List TypeRef} (hcs : ∀ c ∈ cs, c ∈ t :: md.ancestors t) :
      cs.foldl (fun acc c => collectInterfaces md c acc) [] = [] := by
    induction cs with
    | nil => rfl
    | cons c cs ih =>
      rw [List.foldl_cons, collectInterfaces_of_host (h c (hcs c List.mem_cons_self))]
      exact ih fun c' hc' => hcs c' (List.mem_cons_of_mem c hc')
  rw [chain, hnone, List.append_nil]
  intro c hc
  simp only [List.mem_append, List.mem_reverse, List.mem_filter, List.mem_singleton] at hc
  rcases hc with ⟨hc, -⟩ | rfl
  · exact List.mem_cons_of_mem t hc
  · exact List.mem_cons_self

lemma chain_prefix_of_host (hd : ∃ between, md.ancestors d = between ++ b :: md.ancestors b)
    (hb : md.isUser b = true)
    (h : ∀ c ∈ b :: md.ancestors b, ∀ i ∈ (md.type c).interfaces, md.isUser i = false) :
    chain md b <+: chain md d := by
  obtain ⟨between, hd⟩ := hd
  rw [chain_of_host h, chain, hd, List.filter_append, List.filter_cons_of_pos hb, List.reverse_append,
    List.reverse_cons]
  simp only [List.append_assoc]
  exact List.prefix_append_right_inj _ |>.2 (List.prefix_append _ _)

/-! ## What is added -/

/-- The second naming has the symbols of the first and then some of given members. -/
def Extends (members : List Member) (n n' : Naming) : Prop :=
  ∃ more, n'.symbols = n.symbols ++ more ∧ ∀ s ∈ more, s.member ∈ members

lemma Extends.refl (members : List Member) (n : Naming) : Extends members n n := ⟨[], by simp, by simp⟩

lemma Extends.trans {n₁ n₂ n₃ : Naming} (h : Extends ms n₁ n₂) (h' : Extends ms n₂ n₃) :
    Extends ms n₁ n₃ := by
  obtain ⟨more, hmore, hms⟩ := h
  obtain ⟨more', hmore', hms'⟩ := h'
  refine ⟨more ++ more', by rw [hmore', hmore, List.append_assoc], fun s hs => ?_⟩
  exact (List.mem_append.1 hs).elim (hms s) (hms' s)

lemma extends_push (hn : n'.symbols = n.symbols) (hs : s.member ∈ ms) : Extends ms n (n'.push s) :=
  ⟨[s], by rw [push, hn], by simpa using hs⟩

lemma Adds.extends {x : Member} (h : Adds md o t n x n') (hx : x ∈ ms) : Extends ms n n' := by
  cases h with
  | unnamed => exact .refl ms n
  | begins s _ entry symbols => exact extends_push symbols ((Prod.mk.inj entry).2 ▸ hx)
  | joins => exact extends_push rfl hx

lemma foldlM_extends {α : Type} {xs : List α} {f : Naming → α → Except CompileError Naming}
    (step : ∀ n x n', x ∈ xs → f n x = .ok n' → Extends ms n n') (h : xs.foldlM f n = .ok n') :
    Extends ms n n' :=
  foldlM_induction (fun _ x _ hx hn hstep => hn.trans (step _ x _ hx hstep)) (.refl ms n) h

lemma addTypes_extends {ts : List TypeRef} (h : ts.foldlM (addType md o) n = .ok n') :
    Extends (ts.flatMap md.listed) n n' := by
  refine foldlM_extends (fun n t n' ht hadd => ?_) h
  obtain ⟨n₁, h₁, h₂⟩ := except_bind_eq_ok_iff.1 hadd
  have hmem {x : Member} (hx : x ∈ md.listed t) : x ∈ ts.flatMap md.listed :=
    List.mem_flatMap.2 ⟨t, ht, hx⟩
  have hfields : Extends (ts.flatMap md.listed) n n₁ :=
    foldlM_extends (fun _ f _ hf hadd =>
      (adds_of_addField (o := o) hadd).extends (hmem (by simp [Metadata.listed, hf]))) h₁
  exact hfields.trans (foldlM_extends (fun _ m _ hm hadd =>
    (adds_of_addMethod hadd).extends (hmem (by simp [Metadata.listed, hm]))) h₂)

/-- Members with the types they are named for, in naming order. -/
def entries (n : Naming) : List (TypeRef × Member) := n.symbols.map fun s => (s.declaring, s.member)

/-- Entries for those members of a type that get a name. -/
def entriesOf (md : Metadata) (t : TypeRef) (members : List Member) : List (TypeRef × Member) :=
  (members.filter md.isNamed).map (t, ·)

lemma entries_push : (n.push s).entries = n.entries ++ [(s.declaring, s.member)] := by
  simp [entries, push]

lemma Adds.entries {x : Member} (h : Adds md o t n x n') :
    n'.entries = n.entries ++ entriesOf md t [x] := by
  cases h with
  | unnamed unnamed => simp [entriesOf, unnamed]
  | begins s named entry symbols =>
    rw [entries_push, Naming.entries, Naming.entries, symbols, entry]
    simp [entriesOf, named]
  | @joins m i base named _ =>
    have hnamed : md.isNamed (.method m) = true := named
    rw [entries_push]
    simp [entriesOf, hnamed, familySymbol]

lemma foldlM_entries {α : Type} {f : Naming → α → Except CompileError Naming}
    {new : α → List (TypeRef × Member)} {xs : List α}
    (h : xs.foldlM f n = .ok n')
    (step : ∀ n x n', f n x = .ok n' → n'.entries = n.entries ++ new x) :
    n'.entries = n.entries ++ xs.flatMap new := by
  induction xs generalizing n with
  | nil =>
    obtain rfl := Except.ok.inj h
    simp
  | cons x xs ih =>
    rw [List.foldlM_cons] at h
    obtain ⟨n₁, hstep, h⟩ := except_bind_eq_ok_iff.1 h
    rw [ih h, step n x n₁ hstep, List.append_assoc, List.flatMap_cons]

lemma flatMap_entriesOf {α : Type} (g : α → Member) (xs : List α) :
    xs.flatMap (fun x => entriesOf md t [g x]) = entriesOf md t (xs.map g) := by
  induction xs with
  | nil => rfl
  | cons x xs ih =>
    rw [List.flatMap_cons, ih, entriesOf, entriesOf, entriesOf, ← List.map_append,
      ← List.filter_append]
    rfl

/-! ## Namings of two classes -/

def withOwner (u : TypeRef) (n : Naming) : Naming := { n with owner := u }

lemma claim_withOwner (u : TypeRef) (n : Naming) (x : Member) (name : String) (unique : Bool) :
    (n.withOwner u).claim md x name unique =
      (n.claim md x name unique).map fun r => (r.1, r.2.withOwner u) := by
  have hsame : (n.withOwner u).byEmitted? name = n.byEmitted? name := rfl
  simp only [claim, hsame]
  split
  · cases n.byEmitted? name <;> rfl
  · rfl

lemma addField_withOwner (u : TypeRef) (n : Naming) (f : FieldRef) :
    addField md t (n.withOwner u) f = (addField md t n f).map (withOwner u) := by
  simp only [addField, claim_withOwner]
  split
  · rfl
  · cases n.claim md (.field f) (md.field f).name (md.field f).flags.unique <;> rfl

lemma addMethod_withOwner (u : TypeRef) (n : Naming) (m : MethodRef) :
    addMethod md o t (n.withOwner u) m = (addMethod md o t n m).map (withOwner u) := by
  have hsame (decl : MethodDecl) :
      (n.withOwner u).latestOfShape? md decl = n.latestOfShape? md decl := rfl
  simp only [addMethod, claim_withOwner, hsame]
  split
  · rfl
  split
  · rfl
  · generalize n.claim md (.method m) _ _ = claimed
    cases claimed <;> rfl

lemma addTypes_withOwner (u : TypeRef) (n : Naming) (ts : List TypeRef) :
    ts.foldlM (addType md o) (n.withOwner u) = (ts.foldlM (addType md o) n).map (withOwner u) := by
  refine foldlM_comm (fun n t => ?_) ts n
  rw [addType, addType, foldlM_comm (addField_withOwner u)]
  cases (md.type t).fields.foldlM (addField md t) n with
  | error e => rfl
  | ok n₁ => exact foldlM_comm (addMethod_withOwner u) (md.type t).methods n₁

lemma ofClass_extends {nb nd : Naming} {rest : List TypeRef} (hchain : chain md d = chain md b ++ rest)
    (hb : ofClass md o b = .ok nb) (hd : ofClass md o d = .ok nd) :
    Extends (rest.flatMap md.listed) nb nd := by
  have hstart : ({ owner := d } : Naming) = withOwner d { owner := b } := rfl
  rw [ofClass] at hb
  rw [ofClass, hchain, List.foldlM_append, hstart, addTypes_withOwner, hb] at hd
  exact addTypes_extends (n := nb.withOwner d) hd

lemma member_mem_of_ofClass (h : ofClass md o t = .ok n) (hs : s ∈ n.symbols) :
    s.member ∈ (chain md t).flatMap md.listed := by
  obtain ⟨more, hmore, hms⟩ := addTypes_extends h
  exact hms s (by simpa [hmore] using hs)

/-- **Inherited members keep their names.**  Let a class and its base classes list no interface of the
compiled program.  Then every field and method that is named for the class has the same symbol, with
the same host name and the same slots for parameters and result, in every class derived from it. -/
theorem names_agree_below {nb nd : Naming} (hmd : md.Ordered)
    (hderived : ∃ between, md.ancestors d = between ++ b :: md.ancestors b)
    (huser : md.isUser b = true)
    (hhost : ∀ c ∈ b :: md.ancestors b, ∀ i ∈ (md.type c).interfaces, md.isUser i = false)
    (honce : (chain md d).Nodup) (hb : ofClass md o b = .ok nb) (hd : ofClass md o d = .ok nd)
    (x : Member) (s : Symbol) (hs : nb.find? x = some s) : nd.find? x = some s := by
  obtain ⟨rest, hrest⟩ := chain_prefix_of_host hderived huser hhost
  obtain ⟨more, hmore, hms⟩ := ofClass_extends hrest.symm hb hd
  -- later types are others, so they list other members
  have hnew : more.reverse.find? (·.member == x) = none := by
    refine List.find?_eq_none.2 fun r hr => ?_
    have hx : s.member = x := by simpa using List.find?_some hs
    have hold := member_mem_of_ofClass hb (List.mem_reverse.1 (List.mem_of_find?_eq_some hs))
    obtain ⟨t, ht, hlisted⟩ := List.mem_flatMap.1 hold
    obtain ⟨u, hu, hlisted'⟩ := List.mem_flatMap.1 (hms r (List.mem_reverse.1 hr))
    rw [← hrest] at honce
    simp only [beq_iff_eq]
    intro heq
    have htu : t = u := by
      rw [← (hmd t _ hlisted).2, ← (hmd u _ hlisted').2, hx, heq]
    exact (List.disjoint_of_nodup_append honce) ht (htu ▸ hu)
  rw [find?, hmore, List.reverse_append, List.find?_append, hnew]
  exact hs

/-! ## Two hierarchies -/

def userClass (name : String) (base : Option TypeRef) (interfaces : List TypeRef) : TypeDecl :=
  { name, kind := .classType, hostName := none, base, interfaces }

def openMethod (param : String) : MethodDecl :=
  { name := "M", result := .void, isVirtual := true, params := [{ name := param, type := .int32 }] }

/-- A class and one derived from it that overrides its method. -/
def overriding : Metadata :=
  let md := (Metadata.addType {} (userClass "Game.Base" none [])).2
  let md := (md.addType (userClass "Game.Door" (some ⟨16⟩) [])).2
  let md := (md.addMethod ⟨16⟩ (openMethod "x")).2
  (md.addMethod ⟨17⟩ (openMethod "y")).2

lemma ordered_overriding : overriding.Ordered := by
  refine Metadata.Catalogued.ordered (Metadata.Made.catalogued ?_)
  refine .addMethod _ (.addMethod _ (.addType (.addType .empty ?_ ?_) ?_ ?_) ?_) ?_
  all_goals decide

lemma ancestors_overriding : overriding.ancestors ⟨16⟩ = [] ∧ overriding.ancestors ⟨17⟩ = [⟨16⟩] :=
  ⟨rfl, rfl⟩

lemma host_overriding (c : TypeRef) (hc : c = ⟨16⟩ ∨ c = ⟨17⟩) :
    ∀ i ∈ (overriding.type c).interfaces, overriding.isUser i = false := by
  have hnone : (overriding.type c).interfaces = [] := by rcases hc with rfl | rfl <;> rfl
  simp [hnone]

lemma chain_overriding : chain overriding ⟨16⟩ = [⟨16⟩] ∧ chain overriding ⟨17⟩ = [⟨16⟩, ⟨17⟩] :=
  ⟨rfl, rfl⟩

/-- The override uses the slots of the method it overrides in both namings. -/
theorem names_agree_below_overriding : ∃ nb nd s, ofClass overriding {} ⟨16⟩ = .ok nb ∧
    ofClass overriding {} ⟨17⟩ = .ok nd ∧ nb.find? (.method ⟨0⟩) = some s ∧
    nd.find? (.method ⟨0⟩) = some s := by
  obtain ⟨hbase, hderived⟩ := ancestors_overriding
  obtain ⟨nb, s, hb, hs⟩ : ∃ nb s, ofClass overriding {} ⟨16⟩ = .ok nb ∧
      nb.find? (.method ⟨0⟩) = some s := by
    rw [ofClass, chain_overriding.1]
    exact ⟨_, _, rfl, rfl⟩
  obtain ⟨nd, hd⟩ : ∃ nd, ofClass overriding {} ⟨17⟩ = .ok nd := by
    rw [ofClass, chain_overriding.2]
    exact ⟨_, rfl⟩
  refine ⟨nb, nd, s, hb, hd, hs, ?_⟩
  refine names_agree_below ordered_overriding ⟨[], by simp [hbase, hderived]⟩ rfl ?_ ?_ hb hd _ s hs
  · simpa [hbase] using host_overriding ⟨16⟩ (.inl rfl)
  · rw [chain_overriding.2]
    decide

/-- A class that implements an interface, with another name for the parameter, and a class derived
from it. -/
def implementing : Metadata :=
  let md := (Metadata.addType {} (.user "Game.Switch" .interfaceType)).2
  let md := (md.addType (userClass "Game.Base" none [⟨16⟩])).2
  let md := (md.addType (userClass "Game.Door" (some ⟨17⟩) [])).2
  let md := (md.addMethod ⟨16⟩ (openMethod "x")).2
  (md.addMethod ⟨17⟩ (openMethod "y")).2

lemma chain_implementing :
    chain implementing ⟨17⟩ = [⟨16⟩, ⟨17⟩] ∧ chain implementing ⟨18⟩ = [⟨17⟩, ⟨16⟩, ⟨18⟩] :=
  ⟨rfl, rfl⟩

/-- **Inherited members may change their names.**  The parameter of a method that implements a method
of an interface is passed to the class in another slot than to the class derived from it. -/
theorem param_slots_differ_below : ∃ nb nd s s', implementing.ancestors ⟨18⟩ = [⟨17⟩] ∧
    ofClass implementing {} ⟨17⟩ = .ok nb ∧ ofClass implementing {} ⟨18⟩ = .ok nd ∧
    nb.find? (.method ⟨1⟩) = some s ∧ nd.find? (.method ⟨1⟩) = some s' ∧
    s.params = ["__M_x"] ∧ s'.params = ["__M_y"] := by
  rw [ofClass, ofClass, chain_implementing.1, chain_implementing.2]
  exact ⟨_, _, _, _, rfl, rfl, rfl, rfl, rfl, rfl, rfl⟩

end Naming

end FlatHeap
