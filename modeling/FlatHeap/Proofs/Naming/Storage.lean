import Mathlib.Data.List.Perm.Subperm
import Mathlib.Tactic
import FlatHeap.Lowering.Naming
import FlatHeap.Proofs.Failure

/-!
# What the slots of a class are named

A naming gives out host names: one for each field, and for each family of methods one for each
parameter and one for the result.  Two more are fixed, for the class itself and for the address that
a method returns to.  A `Purpose` says what such a slot is for, and `Naming.Slot` relates it to its
name.

Entering a member has three outcomes (`Naming.Adds`): it gets no name, it begins a family, or it joins
one.  What all three keep holds of the naming of a class (`Naming.ofClass_induction`).

Names of members are distinct up to families, since a name is only claimed while it is free
(`Naming.Separate`).  Names of parameters and results are built from them and never compared with them
again, so slots with different purposes can share a name.  `Purpose.Clash` lists the ways in which that
happens; there is no other (`Naming.Separate.eq_or_clash`).
-/

namespace FlatHeap

/-! ## Texts -/

lemma append_underscore_inj {a b p q : List Char} (hp : '_' ∉ p) (hq : '_' ∉ q)
    (h : a ++ '_' :: p = b ++ '_' :: q) : a = b ∧ p = q := by
  rcases List.append_eq_append_iff.1 h with ⟨c, rfl, hc⟩ | ⟨c, rfl, hc⟩
  · cases c with
    | nil => simpa using hc
    | cons x c =>
      obtain ⟨-, hc⟩ := List.cons.inj hc
      exact absurd (hc ▸ List.mem_append_right c List.mem_cons_self) hp
  · cases c with
    | nil => simpa [eq_comm] using hc
    | cons x c =>
      obtain ⟨-, hc⟩ := List.cons.inj hc
      exact absurd (hc ▸ List.mem_append_right c List.mem_cons_self) hq

namespace Naming

variable {md : Metadata} {n n' : Naming}

/-! ## Claims -/

lemma taken_iff {name : String} : n.taken name = true ↔ ∃ s ∈ n.symbols, s.emitted = name := by
  simp [taken]

lemma numbered_injective (name : String) : Function.Injective (numbered name) := by
  have hne (k : Nat) : numbered name (k + 1) ≠ name := by
    intro h
    have h : "__" ++ Nat.repr (k + 1) ++ "_" ++ name = name := h
    have := congrArg (fun s : String => s.toList.length) h
    simp [String.toList_append] at this
    omega
  intro i j h
  match i, j with
  | 0, 0 => rfl
  | 0, j + 1 => exact absurd h.symm (hne j)
  | i + 1, 0 => exact absurd h (hne i)
  | i + 1, j + 1 =>
    have h : "__" ++ Nat.repr (i + 1) ++ "_" ++ name = "__" ++ Nat.repr (j + 1) ++ "_" ++ name := h
    rw [String.append_left_inj, String.append_left_inj, String.append_right_inj] at h
    have h := congrArg String.toList h
    rw [Nat.toList_repr, Nat.toList_repr] at h
    have := congrArg (Nat.ofDigitChars 10 · 0) h
    simpa [Nat.ofDigitChars_toDigits] using this

lemma not_taken_firstFree (n : Naming) (name : String) (k : Nat) :
    n.taken (numbered name (n.firstFree name k)) = false := by
  rw [firstFree]
  cases hf : (List.range (n.symbols.length + 1)).find? fun i => !n.taken (numbered name (k + i)) with
  | some i => simpa [Nat.add_comm i k] using List.find?_some hf
  | none =>
    have hall : ∀ i < n.symbols.length + 1, numbered name (k + i) ∈ n.symbols.map (·.emitted) := by
      intro i hi
      have := List.find?_eq_none.1 hf i (List.mem_range.2 hi)
      simpa [taken_iff] using this
    have hnodup : ((List.range (n.symbols.length + 1)).map fun i => numbered name (k + i)).Nodup :=
      List.nodup_range.map ((numbered_injective name).comp (add_right_injective k))
    have hsub : ((List.range (n.symbols.length + 1)).map fun i => numbered name (k + i)) ⊆
        n.symbols.map (·.emitted) := by
      intro x hx
      obtain ⟨i, hi, rfl⟩ := List.mem_map.1 hx
      exact hall i (List.mem_range.1 hi)
    have hle := (hnodup.subperm hsub).length_le
    simp at hle

lemma claim_spec {member : Member} {name emitted : String} {unique : Bool}
    (h : n.claim md member name unique = .ok (emitted, n')) :
    n'.taken emitted = false ∧ n'.symbols = n.symbols := by
  unfold claim at h
  split at h
  · split at h
    · simp at h
    · rename_i hnone
      injection h with h
      obtain ⟨rfl, rfl⟩ := Prod.mk.inj h
      refine ⟨?_, rfl⟩
      rw [Bool.eq_false_iff, Ne, taken_iff]
      rintro ⟨s, hs, heq⟩
      simpa [heq] using List.find?_eq_none.1 hnone s hs
  · injection h with h
    obtain ⟨rfl, rfl⟩ := Prod.mk.inj h
    exact ⟨not_taken_firstFree .., rfl⟩

lemma emitted_of_unique {member : Member} {name emitted : String}
    (h : n.claim md member name true = .ok (emitted, n')) : emitted = name := by
  rw [claim, if_pos rfl] at h
  split at h
  · cases h
  · exact (Prod.mk.inj (Except.ok.inj h)).1.symm

def isNamed (md : Metadata) (m : MethodRef) : Bool :=
  !((md.method m).isCtor || (md.method m).isTypeInitializer)

end Naming

/-- Members that get a name: fields of objects, and methods but for constructors and type
initialisers. -/
def Metadata.isNamed (md : Metadata) : Member → Bool
  | .field f => !(md.field f).isStatic
  | .method m => Naming.isNamed md m

/-! ## Families -/

def paramSlot (emitted name : String) : String := "__" ++ emitted ++ "_" ++ name

def resultSlot (emitted : String) : String := "__" ++ emitted ++ "__ret"

lemma toList_paramSlot (emitted name : String) :
    (paramSlot emitted name).toList = '_' :: '_' :: (emitted.toList ++ '_' :: name.toList) := by
  simp [paramSlot]

lemma toList_resultSlot (emitted : String) : (resultSlot emitted).toList =
    '_' :: '_' :: ((emitted.toList ++ ['_']) ++ '_' :: "ret".toList) := by
  simp [resultSlot]

namespace Symbol

/-- Position of the first member of the family of the symbol at a position. -/
def root (s : Symbol) (i : Nat) : Nat := s.overrides.getD i

lemma member_of_method? {s : Symbol} {m : MethodRef} (h : s.method? = some m) :
    s.member = .method m := by
  unfold method? at h
  split at h
  · rename_i hmember
    exact hmember.trans (congrArg Member.method (Option.some.inj h))
  · cases h

def paramNames (md : Metadata) (s : Symbol) : List String :=
  (s.method?.elim [] fun m => (md.method m).params).map (·.name)

/-- The symbol begins a family, and its slots are named after it. -/
structure First (md : Metadata) (s : Symbol) : Prop where
  overrides : s.overrides = none
  params : s.params = (s.paramNames md).map (paramSlot s.emitted)
  result : ∀ r, s.result = some r → r = resultSlot s.emitted

/-- The symbol shares its names with the one that begins its family. -/
structure Follows (s b : Symbol) : Prop where
  isMethod : s.method?.isSome = true
  emitted : s.emitted = b.emitted
  params : s.params = b.params
  result : s.result = b.result

end Symbol

namespace Naming

variable {md : Metadata} {o : Options} {n n' : Naming} {s s' b : Symbol} {i j : Nat}

/-- **What entering a member does.**  It may get no name; it may begin a family, under a new name; or it
may join the family of the latest method of its shape. -/
inductive Adds (md : Metadata) (o : Options) (t : TypeRef) (n : Naming) : Member → Naming → Prop
  | unnamed {x : Member} (unnamed : md.isNamed x = false) : Adds md o t n x n
  | begins {x : Member} {n₁ : Naming} (s : Symbol) (named : md.isNamed x = true)
    (entry : (s.declaring, s.member) = (t, x)) (symbols : n₁.symbols = n.symbols)
    (free : n₁.taken s.emitted = false) (first : s.First md)
    (exported : ∀ m, x = .method m → (md.method m).flags.exported = true →
      s.flags.exported = true ∧ ∀ e, o.eventName? (md.method m).name = some e → s.emitted = e) :
    Adds md o t n x (n₁.push s)
  | joins {m : MethodRef} {i : Nat} {base : Symbol} (named : isNamed md m = true)
    (latest : n.latestOfShape? md (md.method m) = some (i, base)) :
    Adds md o t n (.method m) (n.push (familySymbol t m (md.method m) i base))

lemma adds_of_addField {t : TypeRef} {f : FieldRef} (h : addField md t n f = .ok n') :
    Adds md o t n (.field f) n' := by
  simp only [addField] at h
  split at h
  · rename_i hstatic
    obtain rfl := Except.ok.inj h
    exact .unnamed (by simp [Metadata.isNamed, hstatic])
  · rename_i hstatic
    obtain ⟨⟨emitted, n₁⟩, hclaim, h⟩ := except_bind_eq_ok_iff.1 h
    obtain ⟨hfree, hsymbols⟩ := claim_spec hclaim
    obtain rfl := Except.ok.inj h
    exact .begins _ (by simp [Metadata.isNamed, hstatic]) rfl hsymbols hfree
      ⟨rfl, rfl, fun r hr => by cases hr⟩ fun m hm => by cases hm

lemma adds_of_addMethod {t : TypeRef} {m : MethodRef} (h : addMethod md o t n m = .ok n') :
    Adds md o t n (.method m) n' := by
  simp only [addMethod] at h
  split at h
  · rename_i hnone
    obtain rfl := Except.ok.inj h
    exact .unnamed (by simp [Metadata.isNamed, isNamed, hnone])
  rename_i hnamed
  have hnamed : isNamed md m = true := by simp [isNamed, hnamed]
  split at h
  · rename_i i base hprior
    obtain rfl := Except.ok.inj h
    exact .joins hnamed (Option.filter_eq_some_iff.1 hprior).1
  · obtain ⟨⟨emitted, n₁⟩, hclaim, h⟩ := except_bind_eq_ok_iff.1 h
    obtain ⟨hfree, hsymbols⟩ := claim_spec hclaim
    obtain rfl := Except.ok.inj h
    refine .begins _ hnamed rfl hsymbols hfree ⟨rfl, ?_, fun r hr => ?_⟩ fun m' hm' hexp => ?_
    · simp [Symbol.paramNames, Symbol.method?, paramSlot, Function.comp_def]
    · simp only [Option.ite_none_left_eq_some, Option.some.injEq] at hr
      exact hr.2.symm
    · obtain rfl : m = m' := Member.method.inj hm'
      refine ⟨hexp, fun e he => ?_⟩
      simp only [hexp, he, if_true, Option.isSome_some, Bool.or_true, Option.getD_some] at hclaim
      exact emitted_of_unique hclaim

/-- What holds at the start and is kept when members are entered holds of the naming of a class. -/
theorem ofClass_induction {t : TypeRef} {P : Naming → Prop} (empty : P { owner := t })
    (step : ∀ {n n' : Naming} {c : TypeRef} {x : Member}, P n → Adds md o c n x n' → P n')
    (h : ofClass md o t = .ok n) : P n := by
  refine foldlM_induction (fun n c n' _ hn hadd => ?_) empty h
  obtain ⟨n₁, h₁, h₂⟩ := except_bind_eq_ok_iff.1 hadd
  have hn₁ : P n₁ :=
    foldlM_induction (fun _ _ _ _ hn hadd => step hn (adds_of_addField hadd)) hn h₁
  exact foldlM_induction (fun _ _ _ _ hn hadd => step hn (adds_of_addMethod hadd)) hn₁ h₂

abbrev At (n : Naming) (i : Nat) (s : Symbol) : Prop := n.symbols[i]? = some s

/-- Members are in families, and different families have different names. -/
structure Separate (md : Metadata) (n : Naming) : Prop where
  family : ∀ {i s}, n.At i s → ∃ b, n.At (s.root i) b ∧ b.First md ∧ (s.root i = i ∨ s.Follows b)
  distinct : ∀ {i j s s'}, n.At i s → n.At j s' → s.overrides = none → s'.overrides = none →
    s.emitted = s'.emitted → i = j

lemma separate_empty (t : TypeRef) : Separate md { owner := t } :=
  ⟨fun h => by simp [At] at h, fun h => by simp [At] at h⟩

lemma Separate.congr (h : n.Separate md) (hs : n'.symbols = n.symbols) : n'.Separate md := by
  have hat {i : Nat} {s : Symbol} : n'.At i s ↔ n.At i s := by rw [At, At, hs]
  constructor
  · intro i s hi
    obtain ⟨b, hb, hrest⟩ := h.family (hat.1 hi)
    exact ⟨b, hat.2 hb, hrest⟩
  · exact fun hi hj => h.distinct (hat.1 hi) (hat.1 hj)

lemma at_push : (n.push b).At i s ↔ n.At i s ∨ i = n.symbols.length ∧ s = b := by
  simp only [At, push, List.getElem?_append]
  by_cases hi : i < n.symbols.length
  · simp [hi, hi.ne]
  · have : n.symbols[i]? = none := List.getElem?_eq_none (by omega)
    rw [if_neg hi, this]
    cases hk : i - n.symbols.length with
    | zero => simp [eq_comm, show i = n.symbols.length by omega]
    | succ k => simp [show i ≠ n.symbols.length by omega]

lemma At.lt (h : n.At i s) : i < n.symbols.length := (List.getElem?_eq_some_iff.1 h).1

lemma At.unique (h : n.At i s) (h' : n.At i s') : s = s' := by
  simpa [At] using h.symm.trans h'

lemma Separate.push_first (h : n.Separate md) (hs : s.First md) (hfree : n.taken s.emitted = false) :
    (n.push s).Separate md := by
  have hnew {i : Nat} {r : Symbol} (hr : n.At i r) : r.emitted ≠ s.emitted := fun heq =>
    Bool.eq_false_iff.1 hfree (taken_iff.2 ⟨r, List.mem_of_getElem? hr, heq⟩)
  constructor
  · intro i r hr
    rcases at_push.1 hr with hr | ⟨rfl, rfl⟩
    · obtain ⟨b, hb, hfirst, hor⟩ := h.family hr
      exact ⟨b, at_push.2 (.inl hb), hfirst, hor⟩
    · have hroot : r.root n.symbols.length = n.symbols.length := by simp [Symbol.root, hs.overrides]
      exact ⟨r, at_push.2 (.inr ⟨hroot, rfl⟩), hs, .inl hroot⟩
  · intro i j r r' hr hr' ho ho' heq
    rcases at_push.1 hr with hi | ⟨rfl, rfl⟩ <;> rcases at_push.1 hr' with hj | ⟨rfl, rfl⟩
    · exact h.distinct hi hj ho ho' heq
    · exact absurd heq (hnew hi)
    · exact absurd heq.symm (hnew hj)
    · rfl

lemma Separate.push_later (h : n.Separate md) (hb : n.At i b) (ho : s.overrides = some (b.root i))
    (hs : s.Follows b) : (n.push s).Separate md := by
  constructor
  · intro j r hr
    rcases at_push.1 hr with hr | ⟨rfl, rfl⟩
    · obtain ⟨f, hf, hfirst, hor⟩ := h.family hr
      exact ⟨f, at_push.2 (.inl hf), hfirst, hor⟩
    · obtain ⟨f, hf, hfirst, hor⟩ := h.family hb
      have hroot : r.root n.symbols.length = b.root i := by simp [Symbol.root, ho]
      refine ⟨f, at_push.2 (.inl (hroot ▸ hf)), hfirst, .inr ?_⟩
      rcases hor with heq | hbf
      · exact hb.unique (heq ▸ hf) ▸ hs
      · exact ⟨hs.isMethod, hs.emitted.trans hbf.emitted, hs.params.trans hbf.params,
          hs.result.trans hbf.result⟩
  · intro j k r r' hr hr' hor hor' heq
    rcases at_push.1 hr with hr | ⟨-, rfl⟩
    · rcases at_push.1 hr' with hr' | ⟨-, rfl⟩
      · exact h.distinct hr hr' hor hor' heq
      · simp [ho] at hor'
    · simp [ho] at hor

lemma latestOfShape?_spec {decl : MethodDecl} (h : n.latestOfShape? md decl = some (i, s)) :
    n.At i s ∧ ∃ m, s.member = .method m ∧ sameShape (md.method m) decl = true := by
  obtain ⟨⟨r, k⟩, hmem, hr⟩ := List.exists_of_findSome?_eq_some h
  simp only [Option.bind_eq_bind, Option.bind_eq_some_iff] at hr
  obtain ⟨m, hm, hr⟩ := hr
  split at hr
  · rename_i hshape
    injection hr with hr
    obtain ⟨rfl, rfl⟩ := Prod.mk.inj hr
    exact ⟨List.mk_mem_zipIdx_iff_getElem?.1 (List.mem_reverse.1 hmem), m,
      Symbol.member_of_method? hm, hshape⟩
  · simp at hr

lemma Separate.adds {t : TypeRef} {x : Member} (h : n.Separate md) (hadd : Adds md o t n x n') :
    n'.Separate md := by
  cases hadd with
  | unnamed => exact h
  | begins s _ _ symbols free first => exact (h.congr symbols).push_first first free
  | joins _ latest =>
    exact h.push_later (latestOfShape?_spec latest).1 rfl ⟨rfl, rfl, rfl, rfl⟩

lemma Separate.names_of_root (h : n.Separate md) (hs : n.At i s) : ∃ b, n.At (s.root i) b ∧
    b.overrides = none ∧ s.emitted = b.emitted ∧ s.params = b.params ∧ s.result = b.result := by
  obtain ⟨b, hb, hfirst, hself | hfollows⟩ := h.family hs
  · obtain rfl := At.unique hs (hself ▸ hb)
    exact ⟨s, hb, hfirst.overrides, rfl, rfl, rfl⟩
  · exact ⟨b, hb, hfirst.overrides, hfollows.emitted, hfollows.params, hfollows.result⟩

lemma Separate.names_eq (h : n.Separate md) (hs : s ∈ n.symbols) (hs' : s' ∈ n.symbols)
    (heq : s.emitted = s'.emitted) : s.params = s'.params ∧ s.result = s'.result := by
  obtain ⟨i, hi⟩ := List.getElem?_of_mem hs
  obtain ⟨j, hj⟩ := List.getElem?_of_mem hs'
  obtain ⟨b, hb, hfirst, hemitted, hparams, hresult⟩ := h.names_of_root hi
  obtain ⟨b', hb', hfirst', hemitted', hparams', hresult'⟩ := h.names_of_root hj
  have hroot := h.distinct hb hb' hfirst hfirst' (hemitted.symm.trans (heq.trans hemitted'))
  obtain rfl : b = b' := At.unique hb (hroot ▸ hb')
  exact ⟨hparams.trans hparams'.symm, hresult.trans hresult'.symm⟩

/-- **Families are separate** in every naming of a class. -/
theorem ofClass_separate {t : TypeRef} (h : ofClass md o t = .ok n) : n.Separate md :=
  ofClass_induction (separate_empty t) Separate.adds h

end Naming

/-! ## Slots -/

/-- What a slot of a class is for.  Families are given by the positions of their first members. -/
inductive Purpose where
  | self
  | returnJump
  | field (position : Nat)
  | param (family : Nat) (name : String)
  | result (family : Nat)
deriving DecidableEq, Repr

/-- Slots for different purposes that may have the same name: a field and anything else, parameters
one of which has an underscore in its name, and a parameter whose slot looks like a result or like
the return address. -/
inductive Purpose.Clash : Purpose → Purpose → Prop
  | field {i p} (h : ∀ j, p ≠ .field j) : Clash (.field i) p
  | params {a b p q} (ne : a ≠ b) (h : '_' ∈ p.toList ∨ '_' ∈ q.toList) :
    Clash (.param a p) (.param b q)
  | result {a b p} (h : p = "ret" ∨ '_' ∈ p.toList) : Clash (.param a p) (.result b)
  | returnJump {a} : Clash (.param a "jump") .returnJump
  | symm {p q} (h : Clash p q) : Clash q p

namespace Naming

inductive Slot (md : Metadata) (n : Naming) : Purpose → String → Prop
  | self : Slot md n .self "__this"
  | returnJump : Slot md n .returnJump "__return_jump"
  | field {i s f} (at_position : n.At i s) (isField : s.member = .field f) :
    Slot md n (.field i) s.emitted
  | param {i s b name slot} {k : Nat} (at_position : n.At i s) (first : n.At (s.root i) b)
    (named : (b.paramNames md)[k]? = some name) (has : s.params[k]? = some slot) :
    Slot md n (.param (s.root i) name) slot
  | result {i s slot} (at_position : n.At i s) (has : s.result = some slot) :
    Slot md n (.result (s.root i)) slot

variable {md : Metadata} {n : Naming} {p q : Purpose} {name : String}

inductive Shape (md : Metadata) (n : Naming) : Purpose → List Char → Prop
  | self : Shape md n .self "__this".toList
  | returnJump : Shape md n .returnJump "__return_jump".toList
  | field {i s} (at_position : n.At i s) (first : s.First md) : Shape md n (.field i) s.emitted.toList
  | param {i s x} (at_position : n.At i s) (first : s.First md) :
    Shape md n (.param i x) ('_' :: '_' :: (s.emitted.toList ++ '_' :: x.toList))
  | result {i s} (at_position : n.At i s) (first : s.First md) :
    Shape md n (.result i) ('_' :: '_' :: ((s.emitted.toList ++ ['_']) ++ '_' :: "ret".toList))

lemma Slot.shape (h : n.Separate md) (hslot : n.Slot md p name) : n.Shape md p name.toList := by
  cases hslot with
  | self => exact .self
  | returnJump => exact .returnJump
  | @field i s f hat hf =>
    obtain ⟨b, hb, hfirst, hor⟩ := h.family hat
    rcases hor with hroot | hfollows
    · obtain rfl := hat.unique (hroot ▸ hb)
      exact .field hat hfirst
    · simpa [Symbol.method?, hf] using hfollows.isMethod
  | @param i s b k x _ hat hb hx hslot =>
    obtain ⟨b', hb', hfirst, hor⟩ := h.family hat
    obtain rfl := hb.unique hb'
    have hparams : s.params = b.params := by
      rcases hor with hroot | hfollows
      · rw [hat.unique (hroot ▸ hb)]
      · exact hfollows.params
    rw [hparams, hfirst.params, List.getElem?_map, hx, Option.map_some, Option.some.injEq] at hslot
    rw [← hslot, toList_paramSlot]
    exact .param hb hfirst
  | @result i s _ hat hr =>
    obtain ⟨b, hb, hfirst, hor⟩ := h.family hat
    have hresult : s.result = b.result := by
      rcases hor with hroot | hfollows
      · rw [hat.unique (hroot ▸ hb)]
      · exact hfollows.result
    have hname : name = resultSlot b.emitted := hfirst.result name (hresult ▸ hr)
    rw [hname, toList_resultSlot]
    exact .result hb hfirst

lemma this_ne (a b : List Char) : "__this".toList ≠ '_' :: '_' :: (a ++ '_' :: b) := by
  intro h
  have hmem : '_' ∈ a ++ '_' :: b := by simp
  have hthis : "__this".toList = '_' :: '_' :: ['t', 'h', 'i', 's'] := by decide
  rw [hthis] at h
  simp only [List.cons.injEq, true_and] at h
  simp [← h] at hmem

lemma eq_jump_of_returnJump_eq {a b : List Char}
    (h : "__return_jump".toList = '_' :: '_' :: (a ++ '_' :: b)) : b = "jump".toList := by
  have hjump : "__return_jump".toList = '_' :: '_' :: ("return".toList ++ '_' :: "jump".toList) := by
    decide
  rw [hjump] at h
  simp only [List.cons.injEq, true_and] at h
  have hcount := congrArg (List.count '_') h
  have hreturn : List.count '_' ("return".toList ++ '_' :: "jump".toList) = 1 := by decide
  rw [hreturn, List.count_append, List.count_cons_self] at hcount
  have hb : '_' ∉ b := List.count_eq_zero.1 (by omega)
  exact (append_underscore_inj (by decide) hb h).2.symm

lemma Shape.eq_or_clash {t t' : List Char} (h : n.Separate md) (hp : n.Shape md p t)
    (hq : n.Shape md q t') (heq : t = t') : p = q ∨ p.Clash q := by
  have same {i j : Nat} {s r : Symbol} (hi : n.At i s) (hj : n.At j r) (hs : s.First md)
      (hr : r.First md) (heq : s.emitted.toList = r.emitted.toList) : i = j :=
    h.distinct hi hj hs.overrides hr.overrides (String.toList_inj.1 heq)
  have ret {x : String} {a b : List Char}
      (heq : '_' :: '_' :: (a ++ '_' :: x.toList) = '_' :: '_' :: ((b ++ ['_']) ++ '_' :: "ret".toList)) :
      x = "ret" ∨ '_' ∈ x.toList := by
    refine or_iff_not_imp_right.2 fun hx => String.toList_inj.1 ?_
    simp only [List.cons.injEq, true_and] at heq
    exact (append_underscore_inj hx (by decide) heq).2
  cases hp with
  | self =>
    cases hq with
    | self => exact .inl rfl
    | returnJump => exact absurd heq (by decide)
    | field => exact .inr (.symm (.field (by simp)))
    | param => exact absurd heq (this_ne _ _)
    | result => exact absurd heq (this_ne _ _)
  | returnJump =>
    cases hq with
    | self => exact absurd heq (by decide)
    | returnJump => exact .inl rfl
    | field => exact .inr (.symm (.field (by simp)))
    | param =>
      rw [String.toList_inj.1 (eq_jump_of_returnJump_eq heq)]
      exact .inr (.symm .returnJump)
    | result => exact absurd (eq_jump_of_returnJump_eq heq) (by decide)
  | field hi hs =>
    cases hq with
    | field hj hr => exact .inl (by rw [same hi hj hs hr heq])
    | _ => exact .inr (.field (by simp))
  | @param i s x hi hs =>
    cases hq with
    | self => exact absurd heq.symm (this_ne _ _)
    | returnJump =>
      rw [String.toList_inj.1 (eq_jump_of_returnJump_eq heq.symm)]
      exact .inr .returnJump
    | field => exact .inr (.symm (.field (by simp)))
    | @param j r y hj hr =>
      simp only [List.cons.injEq, true_and] at heq
      by_cases hij : i = j
      · subst hij
        obtain rfl := hi.unique hj
        have : x = y := String.toList_inj.1 (by simpa using heq)
        exact .inl (by rw [this])
      · refine .inr (.params hij ?_)
        by_contra hno
        rw [not_or] at hno
        exact hij (same hi hj hs hr (append_underscore_inj hno.1 hno.2 heq).1)
    | result => exact .inr (.result (ret heq))
  | @result i s hi hs =>
    cases hq with
    | self => exact absurd heq.symm (this_ne _ _)
    | returnJump => exact absurd (eq_jump_of_returnJump_eq heq.symm) (by decide)
    | field => exact .inr (.symm (.field (by simp)))
    | param => exact .inr (.symm (.result (ret heq.symm)))
    | @result j r hj hr =>
      have : i = j := same hi hj hs hr (by simpa using heq)
      exact .inl (by rw [this])

/-- A class with a field named like the slot of a parameter. -/
def door : Metadata :=
  let md := (Metadata.addType {} (.user "Game.Door" .classType)).2
  let md := (md.addField ⟨16⟩ { name := "__N_x", type := .int32 }).2
  (md.addMethod ⟨16⟩ { name := "N", result := .void, params := [{ name := "x", type := .int32 }] }).2

lemma chain_door : chain door ⟨16⟩ = [⟨16⟩] := rfl

def doorField : Symbol :=
  { member := .field ⟨0⟩, declaring := ⟨16⟩, name := "__N_x", emitted := "__N_x", flags := {} }

def doorMethod : Symbol :=
  { member := .method ⟨0⟩, declaring := ⟨16⟩, name := "N", emitted := "N", flags := {}
    params := ["__N_x"] }

def doorNames : Naming :=
  { owner := ⟨16⟩, symbols := [doorField, doorMethod], asked := [("N", 1), ("__N_x", 1)] }

lemma ofClass_door : ofClass door {} ⟨16⟩ = .ok doorNames := by
  rw [ofClass, chain_door]
  rfl

lemma slot_doorField : doorNames.Slot door (.field 0) "__N_x" :=
  @Slot.field _ _ 0 doorField ⟨0⟩ rfl rfl

lemma slot_doorParam : doorNames.Slot door (.param 1 "x") "__N_x" :=
  @Slot.param _ _ 1 doorMethod doorMethod "x" "__N_x" 0 rfl rfl rfl rfl

/-- The field and the parameter of the method have one slot. -/
theorem field_and_param_share_name : ∃ n p q, ofClass door {} ⟨16⟩ = .ok n ∧ p ≠ q ∧
    n.Slot door p "__N_x" ∧ n.Slot door q "__N_x" :=
  ⟨doorNames, .field 0, .param 1 "x", ofClass_door, by decide, slot_doorField, slot_doorParam⟩

/-- **What shares a name.**  In every naming of a class, two slots with the same name are for the same
purpose, or one is for a field and the other is not, or both are for parameters of different families
and one parameter has an underscore in its name, or one is for a parameter named `ret`, `jump` or with
an underscore and the other for a result or the return address. -/
theorem slots_with_same_name {o : Options} {t : TypeRef} (h : ofClass md o t = .ok n)
    (hp : n.Slot md p name) (hq : n.Slot md q name) : p = q ∨ p.Clash q :=
  (hp.shape (ofClass_separate h)).eq_or_clash (ofClass_separate h)
    (hq.shape (ofClass_separate h)) rfl

/-- The field and the parameter clash. -/
theorem slots_with_same_name_door : ofClass door {} ⟨16⟩ = .ok doorNames ∧
    doorNames.Slot door (.field 0) "__N_x" ∧ doorNames.Slot door (.param 1 "x") "__N_x" ∧
    (Purpose.field 0 = .param 1 "x" ∨ (Purpose.field 0).Clash (.param 1 "x")) :=
  ⟨ofClass_door, slot_doorField, slot_doorParam,
    slots_with_same_name ofClass_door slot_doorField slot_doorParam⟩

end Naming

end FlatHeap
