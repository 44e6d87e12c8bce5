import Mathlib.Logic.Function.Basic
import FlatHeap.Proofs.Bytecode.Offsets
import FlatHeap.Proofs.Bytecode.Tokens
import FlatHeap.Proofs.Metadata.Catalogue
import FlatHeap.Proofs.Metadata.Links

/-!
# Constructors that store constants

The leading part of a constructor is executed when the class is compiled.  Here is what executing it
means, instruction by instruction: the object under construction and constants are loaded onto an operand
stack, a store takes one of each and puts the constant, folded to the type of the field, into the field,
and a call of the plain constructor of the base class runs that constructor to its end, or does nothing if
the base class belongs to the host.

Compilation reads whole statements instead and never sees a stack, skips instructions that do nothing, and
keeps a list of stores in which a later one replaces an earlier one.  `Initializer.ofClass_runs` says that
what it finds are the fields that the execution stores into, with the values it leaves there.
-/

namespace FlatHeap

open Bytecode (Instruction)

/-! ## Execution -/

namespace Construction

/-- What a constructor that stores constants has on its operand stack. -/
inductive Item where
  | self
  | constant (value : Value) (type : TypeRef)
deriving DecidableEq, Repr

abbrev Fields := FieldRef → Option Value

structure State where
  stack : List Item := []
  fields : Fields := fun _ => none

inductive Action where
  | nothing
  | load (item : Item)
  | store (f : FieldRef)
  | call (m : MethodRef)
deriving DecidableEq, Repr

/-- What an instruction does, if such a constructor can have it. -/
def action? (i : Instruction) : Option Action :=
  match i.opcode with
  | .nop => some .nothing
  | .ret => none
  | .ldarg0 => some (.load .self)
  | .stfld =>
    match i.operand with
    | .field f => some (.store f)
    | _ => none
  | .call =>
    match i.operand with
    | .method m => some (.call m)
    | _ => none
  | _ => i.loadedConstant?.map fun c => .load (.constant c.1 c.2)

/-- The method is the constructor without parameters of the base class. -/
def isBaseCtor (md : Metadata) (t : TypeRef) (m : MethodRef) : Bool :=
  (md.method m).isCtor && (md.method m).params.isEmpty
    && (md.type t).base == some (md.method m).declaring

/-- One instruction of the constructor of a class, given what calls do to fields. -/
def act (md : Metadata) (call : MethodRef → Fields → Option Fields) (t : TypeRef) (s : State)
    (i : Instruction) : Option State :=
  match action? i, s.stack with
  | some .nothing, _ => some s
  | some (.load item), _ => some { s with stack := item :: s.stack }
  | some (.store f), .constant v source :: .self :: stack =>
    (md.foldConversion? v source (md.field f).type).map fun w =>
      { stack, fields := Function.update s.fields f (some w) }
  | some (.call m), .self :: stack =>
    if isBaseCtor md t m then (call m s.fields).map fun fields => { stack, fields } else none
  | _, _ => none

/-- Instructions of a method; without a body there are none. -/
def code? (md : Metadata) (m : MethodRef) : Option (List Instruction) :=
  match (md.method m).body with
  | none => some []
  | some body => (Bytecode.decode md body.code).toOption

/-- Fields after a constructor has run to its return or its end, with at most a number of constructors
of base classes below it.  Constructors of the host store nothing. -/
def construct (md : Metadata) : Nat → MethodRef → Fields → Option Fields
  | 0, m, fields => if md.isUser (md.method m).declaring then none else some fields
  | k + 1, m, fields =>
    if md.isUser (md.method m).declaring then do
      let code ← code? md m
      let s ← (code.takeWhile (·.opcode != .ret)).foldlM
        (act md (construct md k) (md.method m).declaring) { fields }
      return s.fields
    else some fields

/-- Run instructions of the constructor of a class.  No class has more base classes than there are
types. -/
def run (md : Metadata) (t : TypeRef) (code : List Instruction) : Option State :=
  code.foldlM (act md (construct md md.types.size) t) {}

variable {md : Metadata} {call : MethodRef → Fields → Option Fields} {t : TypeRef} {s : State}
  {i : Instruction} {code : List Instruction}

lemma act_nop (h : i.opcode = .nop) : act md call t s i = some s := by
  rw [act, action?, h]

lemma foldlM_filter_nop (code : List Instruction) (s : State) :
    (code.filter (·.opcode != .nop)).foldlM (act md call t) s = code.foldlM (act md call t) s := by
  induction code generalizing s with
  | nil => rfl
  | cons i code ih =>
    by_cases hi : i.opcode = .nop
    · rw [List.filter_cons_of_neg (by simp [hi]), ih, List.foldlM_cons, act_nop hi]
      rfl
    · rw [List.filter_cons_of_pos (by simp [hi]), List.foldlM_cons, List.foldlM_cons]
      exact bind_congr fun s' => ih s'

end Construction

/-! ## Decoded operands -/

namespace Bytecode

variable {md : Metadata} {bytes : List UInt8} {code : List Instruction} {i : Instruction}

lemma operand_of_mem_decode (h : decode md bytes = .ok code) (hi : i ∈ code) :
    ∃ (size : Nat) (rest : List UInt8),
      Site.operand ⟨md, size, i.offset, i.opcode⟩ rest = .ok i.operand := by
  have hone {size offset : Nat} {bytes : List UInt8} {i : Instruction}
      (h : decodeOne md size offset bytes = .ok i) :
      ∃ rest, Site.operand ⟨md, size, i.offset, i.opcode⟩ rest = .ok i.operand := by
    unfold decodeOne at h
    split at h
    · cases h
    · obtain ⟨operand, hoperand, h⟩ := except_bind_eq_ok_iff.1 h
      obtain rfl := Except.ok.inj h
      exact ⟨_, hoperand⟩
  have hfrom {size offset : Nat} {bytes : List UInt8} {code : List Instruction}
      (h : decodeFrom md size offset bytes = .ok code) :
      ∀ i ∈ code, ∃ rest, Site.operand ⟨md, size, i.offset, i.opcode⟩ rest = .ok i.operand := by
    induction offset, bytes using decodeFrom.induct generalizing code with
    | case1 offset =>
      rw [decodeFrom] at h
      obtain rfl := Except.ok.inj h
      simp
    | case2 offset b rest ih =>
      rw [decodeFrom] at h
      obtain ⟨i, hi, h⟩ := except_bind_eq_ok_iff.1 h
      obtain ⟨others, hothers, h⟩ := except_bind_eq_ok_iff.1 h
      obtain rfl := Except.ok.inj h
      exact List.forall_mem_cons.2 ⟨hone hi, ih i hothers⟩
  obtain ⟨code', hcode, h⟩ := except_bind_eq_ok_iff.1 h
  split at h
  · cases h
  · obtain rfl := Except.ok.inj h
    exact ⟨_, hfrom hcode i hi⟩

lemma action?_of_loadedConstant? (h : decode md bytes = .ok code) (hi : i ∈ code) {v : Value}
    {source : TypeRef} (hv : i.loadedConstant? = some (v, source)) :
    Construction.action? i = some (.load (.constant v source)) := by
  obtain ⟨size, rest, hoperand⟩ := operand_of_mem_decode h hi
  rw [Construction.action?]
  -- the operands of the other kinds of instructions are no constants
  split <;> rename_i hop
  · rw [hop] at hoperand
    simp [Instruction.loadedConstant?, hop, ← Except.ok.inj hoperand] at hv
  · rw [hop] at hoperand
    simp [Instruction.loadedConstant?, hop, ← Except.ok.inj hoperand] at hv
  · rw [hop] at hoperand
    simp [Instruction.loadedConstant?, hop, ← Except.ok.inj hoperand] at hv
  · rw [hop] at hoperand
    obtain ⟨f, -, hf⟩ := except_bind_eq_ok_iff.1 hoperand
    simp [Instruction.loadedConstant?, hop, ← Except.ok.inj hf] at hv
  · rw [hop] at hoperand
    obtain ⟨m, -, hm⟩ := except_bind_eq_ok_iff.1 hoperand
    simp [Instruction.loadedConstant?, hop, ← Except.ok.inj hm] at hv
  · rw [hv]
    rfl

lemma hasMember_of_call (h : decode md bytes = .ok code) (hi : i ∈ code) (hop : i.opcode = .call)
    {m : MethodRef} (hm : i.operand = .method m) : md.HasMember (.method m) := by
  obtain ⟨size, rest, hoperand⟩ := operand_of_mem_decode h hi
  rw [hop] at hoperand
  obtain ⟨m', hresolve, hm'⟩ := except_bind_eq_ok_iff.1 hoperand
  obtain rfl : m' = m := by simpa [hm] using Except.ok.inj hm'
  obtain ⟨token, -, hresolve⟩ := except_bind_eq_ok_iff.1 hresolve
  dsimp only at hresolve
  split at hresolve
  · rename_i hsome
    obtain rfl := Except.ok.inj hresolve
    obtain ⟨k, hk, rfl⟩ := Option.map_eq_some_iff.1 hsome
    exact (Metadata.resolveIn?_eq_some_iff.1 hk).2.1
  · cases hresolve

end Bytecode

/-! ## Statements -/

namespace Initializer

open Construction

variable {md : Metadata} {naming : Naming} {t : TypeRef} {code front : List Instruction}
  {i j : Instruction} {st : Statement} {ss ss' : List Statement} {n : Nat}
  {initial : List (FieldRef × Value)}

/-- What a statement does to fields, given what calls do. -/
def Statement.exec (call : MethodRef → Fields → Option Fields) (fields : Fields) :
    Statement → Option Fields
  | .store f v => some (Function.update fields f (some v))
  | .chain m _ => call m fields

/-- The instructions do what the statements do, do not return, and call what the statements call. -/
structure Covers (md : Metadata) (t : TypeRef) (front : List Instruction) (ss : List Statement) :
    Prop where
  runs : ∀ call s, front.foldlM (act md call t) s =
    (ss.foldlM (Statement.exec call) s.fields).map fun fields => { s with fields }
  noReturn : ∀ i ∈ front, i.opcode ≠ .ret
  base : ∀ m offset, .chain m offset ∈ ss → isBaseCtor md t m = true ∧
    ∃ i ∈ front, i.opcode = .call ∧ i.operand = .method m

lemma covers_nil : Covers md t [] [] := ⟨fun _ _ => rfl, by simp, by simp⟩

lemma Covers.append {front' : List Instruction} (h : Covers md t front ss)
    (h' : Covers md t front' ss') : Covers md t (front ++ front') (ss ++ ss') := by
  refine ⟨fun call s => ?_, fun i hi => ?_, fun m offset hm => ?_⟩
  · rw [List.foldlM_append, h.runs, List.foldlM_append]
    cases ss.foldlM (Statement.exec call) s.fields with
    | none => rfl
    | some fields => exact h'.runs call { s with fields }
  · exact (List.mem_append.1 hi).elim (h.noReturn i) (h'.noReturn i)
  · rcases List.mem_append.1 hm with hm | hm
    · obtain ⟨hbase, i, hi, hcall⟩ := h.base m offset hm
      exact ⟨hbase, i, List.mem_append_left _ hi, hcall⟩
    · obtain ⟨hbase, i, hi, hcall⟩ := h'.base m offset hm
      exact ⟨hbase, i, List.mem_append_right _ hi, hcall⟩

/-- Constants are loaded by instructions for that only. -/
def Loading (code : List Instruction) : Prop := ∀ i ∈ code, ∀ v source,
  i.loadedConstant? = some (v, source) → action? i = some (.load (.constant v source))

lemma action?_of_loadsSelf (h : loadsSelf i = true) : action? i = some (.load .self) := by
  have hop : i.opcode = .ldarg0 := by simpa [loadsSelf] using h
  rw [action?, hop]

lemma ne_ret_of_action? {a : Action} (h : action? i = some a) : i.opcode ≠ .ret := by
  intro hop
  rw [action?, hop] at h
  cases h

lemma store?_eq_some {value store : Instruction} (h : store? md naming value store = some st) :
    ∃ f v source w, store.operand = .field f ∧ value.loadedConstant? = some (v, source) ∧
      md.foldConversion? v source (md.field f).type = some w ∧ st = .store f w := by
  unfold store? at h
  split at h
  · rename_i f hf
    simp only [Option.bind_eq_bind, Option.bind_eq_some_iff] at h
    obtain ⟨-, -, ⟨v, source⟩, hv, w, hw, h⟩ := h
    exact ⟨f, v, source, w, hf, hv, hw, (Option.some.inj h).symm⟩
  · cases h

lemma chain?_eq_some (h : chain? md (md.type t).base j = some st) :
    ∃ m, j.operand = .method m ∧ isBaseCtor md t m = true ∧ st = .chain m j.offset := by
  unfold chain? at h
  split at h
  · rename_i m hm
    simp only [Option.bind_eq_bind, Option.bind_eq_some_iff, guard] at h
    obtain ⟨u, hguard, h⟩ := h
    split_ifs at hguard with hbase
    exact ⟨m, hm, hbase, (Option.some.inj h).symm⟩
  · cases h

lemma covers_of_store? {value store : Instruction} (hi : loadsSelf i = true)
    (hload : Loading [value]) (hop : store.opcode = .stfld)
    (h : store? md naming value store = some st) : Covers md t [i, value, store] [st] := by
  obtain ⟨f, v, source, w, hf, hv, hw, rfl⟩ := store?_eq_some h
  have hself := action?_of_loadsSelf hi
  have hvalue := hload value List.mem_cons_self v source hv
  have hstore : action? store = some (.store f) := by rw [action?, hop, hf]
  refine ⟨fun call s => ?_, ?_, by simp⟩
  · simp [act, hself, hvalue, hstore, hw, Statement.exec]
  · simp [ne_ret_of_action? hself, ne_ret_of_action? hvalue, ne_ret_of_action? hstore]

lemma covers_of_chain? (hi : loadsSelf i = true) (hop : j.opcode = .call)
    (h : chain? md (md.type t).base j = some st) : Covers md t [i, j] [st] := by
  obtain ⟨m, hm, hbase, rfl⟩ := chain?_eq_some h
  have hself := action?_of_loadsSelf hi
  have hcall : action? j = some (.call m) := by rw [action?, hop, hm]
  refine ⟨fun call s => ?_, ?_, fun m' offset hm' => ?_⟩
  · simp [act, hself, hcall, hbase, Statement.exec]
  · simp [ne_ret_of_action? hself, ne_ret_of_action? hcall]
  · obtain ⟨rfl, -⟩ := Statement.chain.inj (List.mem_singleton.1 hm')
    exact ⟨hbase, j, by simp, hop, hm⟩

lemma covers_of_statement? (hload : Loading code)
    (h : statement? md naming (md.type t).base code = some (st, n)) :
    ∃ front rest, code = front ++ rest ∧ front.length = n ∧ Covers md t front [st] := by
  unfold statement? at h
  split at h
  swap
  · cases h
  rename_i i j rest
  have hvalue : Loading [j] := fun k hk => by
    obtain rfl := List.mem_singleton.1 hk
    exact hload k (by simp)
  split at h
  · cases h
  rename_i hi
  have hi : loadsSelf i = true := by simpa using hi
  split at h
  · rename_i k rest
    split at h
    · rename_i hop
      obtain ⟨st', hst, heq⟩ := Option.map_eq_some_iff.1 h
      obtain ⟨rfl, rfl⟩ := Prod.mk.inj heq
      exact ⟨[i, j, k], rest, rfl, rfl, covers_of_store? hi hvalue hop hst⟩
    · split at h
      · rename_i hop
        obtain ⟨st', hst, heq⟩ := Option.map_eq_some_iff.1 h
        obtain ⟨rfl, rfl⟩ := Prod.mk.inj heq
        exact ⟨[i, j], k :: rest, rfl, rfl, covers_of_chain? hi hop hst⟩
      · cases h
  · split at h
    · rename_i hop
      obtain ⟨st', hst, heq⟩ := Option.map_eq_some_iff.1 h
      obtain ⟨rfl, rfl⟩ := Prod.mk.inj heq
      exact ⟨[i, j], [], rfl, rfl, covers_of_chain? hi hop hst⟩
    · cases h

/-- **Leading statements** are what the leading instructions do. -/
lemma covers_of_leading (naming : Naming) (t : TypeRef) (hload : Loading code) :
    ∃ front, code = front ++ (leading md naming (md.type t).base code).2 ∧
      Covers md t front (leading md naming (md.type t).base code).1 := by
  induction hn : code.length using Nat.strong_induction_on generalizing code with
  | _ n ih =>
    rw [leading]
    split
    · exact ⟨[], rfl, covers_nil⟩
    rename_i st k hst
    split
    swap
    · exact ⟨[], rfl, covers_nil⟩
    rename_i hlt
    obtain ⟨front, rest, rfl, rfl, hfront⟩ := covers_of_statement? hload hst
    rw [List.drop_left] at hlt ⊢
    obtain ⟨front', hrest, hfront'⟩ := ih _ (hn ▸ hlt)
      (fun i hi => hload i (List.mem_append_right front hi)) rfl
    exact ⟨front ++ front', by rw [List.append_assoc, ← hrest], hfront.append hfront'⟩

/-! ## What is executed -/

/-- The part of the code that is executed when the class is compiled: all up to the remainder or, if there
is none, up to the return or the end. -/
def executed (init : Initializer) : List Instruction :=
  match init.remainder with
  | some cut => init.code.take cut
  | none => init.code.takeWhile (·.opcode != .ret)

lemma filter_eq_append_cons {α : Type} {p : α → Bool} {code front rest : List α} {i : α}
    (h : code.filter p = front ++ i :: rest) :
    ∃ before after, code = before ++ i :: after ∧ before.filter p = front ∧ after.filter p = rest := by
  obtain ⟨l₁, l₂, rfl, hfront, hrest⟩ := List.filter_eq_append_iff.1 h
  obtain ⟨l₃, l₄, rfl, hnone, -, hrest⟩ := List.filter_eq_cons_iff.1 hrest
  refine ⟨l₁ ++ l₃, l₄, by simp, ?_, hrest⟩
  rw [List.filter_append, hfront, List.filter_eq_nil_iff.2 hnone, List.append_nil]

lemma remainderOffset?_cons (i : Instruction) (rest : List Instruction) :
    remainderOffset? (i :: rest) = if rest = [] ∧ i.opcode = .ret then none else some i.offset := by
  cases rest <;> simp [remainderOffset?]

lemma executed_append {init : Initializer} {rest : List Instruction}
    (hcode : Bytecode.WellFormed init.code)
    (hlive : init.code.filter (·.opcode != .nop) = front ++ rest)
    (hfront : ∀ i ∈ front, i.opcode ≠ .ret)
    (hrem : init.remainder =
      (remainderOffset? rest).map fun start => init.code.findIdx (·.offset == start)) :
    ∃ after, init.code = init.executed ++ after ∧
      init.executed.filter (·.opcode != .nop) = front ∧ after.filter (·.opcode != .nop) = rest := by
  have hnoReturn {before : List Instruction} (hb : before.filter (·.opcode != .nop) = front) :
      ∀ i ∈ before, (i.opcode != .ret) = true := by
    intro i hi
    by_cases hnop : i.opcode = .nop
    · simp [hnop]
    · simpa using hfront i (hb ▸ List.mem_filter.2 ⟨hi, by simpa using hnop⟩)
  cases rest with
  | nil =>
    rw [List.append_nil] at hlive
    have hall : init.executed = init.code := by
      rw [executed, hrem]
      exact List.takeWhile_eq_self_iff.2 (hnoReturn hlive)
    exact ⟨[], by simp [hall], hall ▸ hlive, rfl⟩
  | cons i rest =>
    obtain ⟨before, after, hsplit, hbefore, hafter⟩ := filter_eq_append_cons hlive
    have hexecuted : init.executed = before := by
      rw [executed, hrem, remainderOffset?_cons]
      split_ifs with hret
      · simp only [Option.map_none, hsplit]
        rw [List.takeWhile_append_of_pos (hnoReturn hbefore),
          List.takeWhile_cons_of_neg (by simp [hret.2]), List.append_nil]
      · have hlt : ∀ j ∈ before, j.offset < i.offset := fun j hj =>
          (List.pairwise_append.1 (hsplit ▸ hcode.increasing)).2.2 j hj i List.mem_cons_self
        have hcut : init.code.findIdx (·.offset == i.offset) = before.length := by
          rw [hsplit, List.findIdx_append,
            List.findIdx_eq_length.2 fun j hj => by simpa using (hlt j hj).ne]
          simp [List.findIdx_cons]
        simp only [Option.map_some, hcut]
        rw [hsplit, List.take_left]
    refine ⟨i :: after, by rw [hexecuted, hsplit], hexecuted ▸ hbefore, ?_⟩
    have hi : i ∈ init.code.filter (·.opcode != .nop) := by simp [hlive]
    simp only [List.filter_cons, (List.mem_filter.1 hi).2, if_true, hafter]

/-! ## Stores -/

def overlay (fields : Fields) (initial : List (FieldRef × Value)) : Fields :=
  fun f => (initial.lookup f).or (fields f)

lemma lookup_cons_eq (e : FieldRef × Value) (initial : List (FieldRef × Value)) (g : FieldRef) :
    (e :: initial).lookup g = if g = e.1 then some e.2 else initial.lookup g := by
  obtain ⟨f, v⟩ := e
  rw [List.lookup_cons]
  by_cases hg : g = f
  · simp [hg]
  · rw [beq_eq_false_iff_ne.2 hg, if_neg hg]

lemma lookup_eq_none {f : FieldRef} (h : f ∉ initial.map Prod.fst) : initial.lookup f = none :=
  List.lookup_eq_none_iff.2 fun e he => by simpa using fun heq => h (List.mem_map.2 ⟨e, he, heq.symm⟩)

lemma lookup_map_replace (initial : List (FieldRef × Value)) (f g : FieldRef) (v : Value) :
    (initial.map fun e => if e.1 == f then (f, v) else e).lookup g =
      if g = f then (initial.lookup f).map fun _ => v else initial.lookup g := by
  induction initial with
  | nil => simp
  | cons e initial ih =>
    rw [List.map_cons, lookup_cons_eq, lookup_cons_eq, lookup_cons_eq, ih]
    by_cases he : e.1 = f
    · subst he
      by_cases hg : g = e.1 <;> simp [hg]
    · by_cases hg : g = f
      · simp [hg, he, Ne.symm he]
      · simp [hg, he]

lemma lookup_record (initial : List (FieldRef × Value)) (f g : FieldRef) (v : Value) :
    (record initial f v).lookup g = if g = f then some v else initial.lookup g := by
  unfold record
  split
  · rename_i hany
    obtain ⟨w, hw⟩ : ∃ w, initial.lookup f = some w := by
      obtain ⟨e, he, hf⟩ := List.any_eq_true.1 hany
      rw [← Option.isSome_iff_exists, List.lookup_isSome_iff]
      exact ⟨e, he, beq_iff_eq.2 (beq_iff_eq.1 hf).symm⟩
    rw [lookup_map_replace, hw]
    rfl
  · rename_i hany
    have hnone : initial.lookup f = none := lookup_eq_none (by simpa using hany)
    rw [List.lookup_append, lookup_cons_eq]
    split_ifs with hg
    · rw [hg, hnone]
      rfl
    · simp

lemma map_fst_record (initial : List (FieldRef × Value)) (f : FieldRef) (v : Value) :
    (record initial f v).map Prod.fst =
      if f ∈ initial.map Prod.fst then initial.map Prod.fst else initial.map Prod.fst ++ [f] := by
  unfold record
  have hany : initial.any (·.1 == f) = true ↔ f ∈ initial.map Prod.fst := by simp
  simp only [hany]
  split_ifs with hf
  · rw [List.map_map]
    refine List.map_congr_left fun e _ => ?_
    by_cases he : e.1 = f <;> simp [he]
  · simp

lemma nodup_record (h : (initial.map Prod.fst).Nodup) (f : FieldRef) (v : Value) :
    ((record initial f v).map Prod.fst).Nodup := by
  rw [map_fst_record]
  split_ifs with hf
  · exact h
  · exact List.concat_eq_append ▸ h.concat hf

lemma overlay_record (fields : Fields) (initial : List (FieldRef × Value)) (f : FieldRef)
    (v : Value) :
    overlay fields (record initial f v) = Function.update (overlay fields initial) f (some v) := by
  funext g
  rw [overlay, lookup_record, Function.update_apply]
  split_ifs <;> rfl

lemma overlay_foldl_record (fields : Fields) {inherited : List (FieldRef × Value)}
    (h : (inherited.map Prod.fst).Nodup) (initial : List (FieldRef × Value)) :
    overlay fields (inherited.foldl (fun acc e => record acc e.1 e.2) initial) =
      overlay (overlay fields initial) inherited := by
  induction inherited generalizing initial with
  | nil => rfl
  | cons e inherited ih =>
    rw [List.map_cons, List.nodup_cons] at h
    rw [List.foldl_cons, ih h.2, overlay_record]
    funext g
    simp only [overlay, lookup_cons_eq, Function.update_apply]
    by_cases hg : g = e.1
    · rw [hg, lookup_eq_none h.1]
      simp
    · simp [hg]

lemma nodup_foldl_record {inherited : List (FieldRef × Value)} (h : (initial.map Prod.fst).Nodup) :
    ((inherited.foldl (fun acc e => record acc e.1 e.2) initial).map Prod.fst).Nodup := by
  induction inherited generalizing initial with
  | nil => exact h
  | cons e inherited ih => exact ih (nodup_record h e.1 e.2)

lemma exec_of_foldlM (call : MethodRef → Fields → Option Fields) {final : List (FieldRef × Value)}
    {step : List (FieldRef × Value) → Statement → Except CompileError (List (FieldRef × Value))}
    (hstep : ∀ initial initial', ∀ st ∈ ss, (initial.map Prod.fst).Nodup →
      step initial st = .ok initial' → (initial'.map Prod.fst).Nodup ∧
        ∀ fields, st.exec call (overlay fields initial) = some (overlay fields initial'))
    (hnodup : (initial.map Prod.fst).Nodup) (h : ss.foldlM step initial = .ok final) :
    (final.map Prod.fst).Nodup ∧
      ∀ fields, ss.foldlM (Statement.exec call) (overlay fields initial) = some (overlay fields final) := by
  induction ss generalizing initial with
  | nil =>
    obtain rfl := Except.ok.inj h
    exact ⟨hnodup, fun _ => rfl⟩
  | cons st ss ih =>
    rw [List.foldlM_cons] at h
    obtain ⟨next, hnext, h⟩ := except_bind_eq_ok_iff.1 h
    obtain ⟨hnodup', hexec⟩ := hstep initial next st List.mem_cons_self hnodup hnext
    obtain ⟨hfinal, hrest⟩ :=
      ih (fun a b st hst => hstep a b st (List.mem_cons_of_mem _ hst)) hnodup' h
    refine ⟨hfinal, fun fields => ?_⟩
    rw [List.foldlM_cons, hexec]
    exact hrest fields

end Initializer

/-! ## Constructors -/

/-- No type has two constructors without parameters, and none of these is static. -/
structure Metadata.PlainCtors (md : Metadata) : Prop where
  unique : ∀ t, ∀ m ∈ (md.type t).methods, ∀ m' ∈ (md.type t).methods, (md.method m).isCtor = true →
    (md.method m').isCtor = true → (md.method m).params = [] → (md.method m').params = [] → m = m'
  notStatic : ∀ t, ∀ m ∈ (md.type t).methods, (md.method m).isCtor = true →
    (md.method m).params = [] → (md.method m).isStatic = false

lemma Metadata.plainCtors_of_forall {md : Metadata} (h : ∀ i < md.types.size,
      ∀ m ∈ (md.type ⟨i⟩).methods, (md.method m).isCtor = true → (md.method m).params = [] →
        (md.method m).isStatic = false ∧ ∀ m' ∈ (md.type ⟨i⟩).methods,
          (md.method m').isCtor = true → (md.method m').params = [] → m = m') : md.PlainCtors := by
  have hlt {t : TypeRef} {m : MethodRef} (hm : m ∈ (md.type t).methods) : t.index < md.types.size := by
    by_contra hlt
    rw [Metadata.type, Array.getD, dif_neg hlt] at hm
    cases hm
  constructor
  · exact fun t m hm m' hm' hc hc' hp hp' => (h t.index (hlt hm) m hm hc hp).2 m' hm' hc' hp'
  · exact fun t m hm hc hp => (h t.index (hlt hm) m hm hc hp).1

namespace Initializer

open Construction

variable {md : Metadata} {naming : Naming} {t : TypeRef} {init : Initializer} {m ctor : MethodRef}

lemma plainCtor_of_mem (hplain : md.PlainCtors) (hm : m ∈ (md.type t).methods)
    (hctor : (md.method m).isCtor = true) (hparams : (md.method m).params = []) :
    plainCtor md t = .ok (some m) := by
  have hstatic := hplain.notStatic t m hm hctor hparams
  have hmem : m ∈ (md.type t).methods.filter fun m => (md.method m).isCtor && !(md.method m).isStatic :=
    List.mem_filter.2 ⟨hm, by simp [hctor, hstatic]⟩
  rw [plainCtor]
  cases hfind : ((md.type t).methods.filter fun m =>
      (md.method m).isCtor && !(md.method m).isStatic).find? fun m => (md.method m).params.isEmpty with
  | none => simpa [hparams] using List.find?_eq_none.1 hfind m hmem
  | some m' =>
    have hmem' := List.mem_filter.1 (List.mem_of_find?_eq_some hfind)
    have hctor' := (Bool.and_eq_true_iff.1 hmem'.2).1
    have hparams' : (md.method m').params = [] := by simpa using List.find?_some hfind
    rw [hplain.unique t m' hmem'.1 m hm hctor' hctor hparams' hparams]

lemma plainCtor_of_isBaseCtor (hmd : md.Catalogued) (hplain : md.PlainCtors)
    (h : isBaseCtor md t m = true) (hm : md.HasMember (.method m)) :
    plainCtor md (md.method m).declaring = .ok (some m) := by
  simp only [isBaseCtor, Bool.and_eq_true, List.isEmpty_iff] at h
  have hlisted := hmd.listed (.method m) hm
  refine plainCtor_of_mem hplain ?_ h.1.1 h.1.2
  simpa [Metadata.listed, Metadata.declaring] using hlisted

/-- What becomes of the stores found so far when a statement is read. -/
inductive Records (md : Metadata) (naming : Naming) (t : TypeRef) :
    List (FieldRef × Value) → Statement → List (FieldRef × Value) → Prop
  | store {initial f v} : Records md naming t initial (.store f v) (record initial f v)
  | host {initial m offset} (host : md.isUser (md.method m).declaring = false) :
    Records md naming t initial (.chain m offset) initial
  | base {initial m offset inherited} (user : md.isUser (md.method m).declaring = true)
    (init : ofClass md naming (md.method m).declaring = .ok inherited)
    (whole : inherited.remainder = none) :
    Records md naming t initial (.chain m offset)
      (inherited.initial.foldl (fun acc e => record acc e.1 e.2) initial)
  | circular {initial m offset}
    (not : ¬ (md.ancestors (md.method m).declaring).length < (md.ancestors t).length) :
    Records md naming t initial (.chain m offset) initial

/-- The stores that statements come to, read one after another. -/
def Reads (md : Metadata) (naming : Naming) (t : TypeRef) (ss : List Statement)
    (initial : List (FieldRef × Value)) : Prop :=
  ∃ step : List (FieldRef × Value) → Statement → Except CompileError (List (FieldRef × Value)),
    (∀ initial st initial', step initial st = .ok initial' → Records md naming t initial st initial') ∧
      ss.foldlM step [] = .ok initial

structure Scans (md : Metadata) (naming : Naming) (t : TypeRef) (ctor : MethodRef)
    (init : Initializer) : Prop where
  isSet : init.ctor = some ctor
  decoded : ∃ body, (md.method ctor).body = some body ∧ Bytecode.decode md body.code = .ok init.code
  reads : Reads md naming t
    (leading md naming (md.type t).base (init.code.filter (·.opcode != .nop))).1 init.initial
  remainder : init.remainder = (remainderOffset?
      (leading md naming (md.type t).base (init.code.filter (·.opcode != .nop))).2).map
    fun start => init.code.findIdx (·.offset == start)
  closed : ∀ start ∈ remainderOffset?
      (leading md naming (md.type t).base (init.code.filter (·.opcode != .nop))).2,
    ∀ i ∈ init.code.drop (init.code.findIdx (·.offset == start)), ∀ x ∈ i.targets, start ≤ x

lemma ofClass_cases (h : ofClass md naming t = .ok init) :
    plainCtor md t = .ok none ∧ init = {} ∨ ∃ ctor, plainCtor md t = .ok (some ctor) ∧
      ((md.method ctor).body = none ∧ init = { ctor := some ctor } ∨ Scans md naming t ctor init) := by
  rw [ofClass] at h
  obtain ⟨ctor?, hctor, h⟩ := except_bind_eq_ok_iff.1 h
  split at h
  swap
  · rename_i hnone
    obtain rfl := Except.ok.inj h
    exact .inl ⟨hctor.trans (by rw [Option.eq_none_iff_forall_ne_some.2 hnone]), rfl⟩
  rename_i ctor
  refine .inr ⟨ctor, hctor, ?_⟩
  split at h
  swap
  · rename_i hbody
    obtain rfl := Except.ok.inj h
    exact .inl ⟨Option.eq_none_iff_forall_ne_some.2 hbody, rfl⟩
  rename_i body hbody
  obtain ⟨code, hcode, h⟩ := except_bind_eq_ok_iff.1 h
  have hdecode : Bytecode.decode md body.code = .ok code := mapError_eq_ok_iff.1 hcode
  obtain ⟨initial, hinitial, h⟩ := except_bind_eq_ok_iff.1 h
  have hreads : Reads md naming t
      (leading md naming (md.type t).base (code.filter (·.opcode != .nop))).1 initial := by
    refine ⟨_, fun initial st initial' hst => ?_, hinitial⟩
    split at hst
    · obtain rfl := Except.ok.inj hst
      exact .store
    · dsimp only at hst
      split at hst
      · rename_i hhost
        obtain rfl := Except.ok.inj hst
        exact .host (by simpa using hhost)
      · rename_i huser
        split at hst
        · obtain ⟨inherited, hinherited, hst⟩ := except_bind_eq_ok_iff.1 hst
          split at hst
          · cases hst
          · rename_i hwhole
            obtain rfl := Except.ok.inj hst
            exact .base (by simpa using huser) hinherited (by simpa using hwhole)
        · rename_i hnot
          obtain rfl := Except.ok.inj hst
          exact .circular hnot
  split at h
  · rename_i hnone
    obtain rfl := Except.ok.inj h
    exact .inr ⟨rfl, ⟨body, hbody, hdecode⟩, hreads, by simp [hnone], by simp [hnone]⟩
  · rename_i start hstart
    obtain ⟨u, hcheck, h⟩ := except_bind_eq_ok_iff.1 h
    obtain rfl := Except.ok.inj h
    refine .inr ⟨rfl, ⟨body, hbody, hdecode⟩, hreads, by simp [hstart], fun x hx => ?_⟩
    obtain rfl : start = x := by simpa [hstart] using hx
    exact le_of_checkRemainder hcheck

lemma code?_of_plainCtor (h : ofClass md naming t = .ok init) (hctor : plainCtor md t = .ok (some ctor)) :
    code? md ctor = some init.code := by
  rcases ofClass_cases h with ⟨hnone, -⟩ | ⟨ctor', hctor', hcases⟩
  · rw [hctor] at hnone
    cases hnone
  obtain rfl := Option.some.inj (Except.ok.inj (hctor.symm.trans hctor'))
  rcases hcases with ⟨hbody, rfl⟩ | hscans
  · rw [code?, hbody]
  · obtain ⟨body, hbody, hdecode⟩ := hscans.decoded
    simp only [code?, hbody, hdecode]
    rfl

lemma Scans.split (h : Scans md naming t ctor init) : ∃ after, init.code = init.executed ++ after ∧
    Covers md t (init.executed.filter (·.opcode != .nop))
      (leading md naming (md.type t).base (init.code.filter (·.opcode != .nop))).1 ∧
    after.filter (·.opcode != .nop) =
      (leading md naming (md.type t).base (init.code.filter (·.opcode != .nop))).2 := by
  obtain ⟨body, -, hdecode⟩ := h.decoded
  have hload : Loading (init.code.filter (·.opcode != .nop)) := fun i hi v source =>
    Bytecode.action?_of_loadedConstant? hdecode (List.mem_of_mem_filter hi)
  obtain ⟨front, hlive, hcovers⟩ := covers_of_leading naming t hload
  obtain ⟨after, hcode, hfront, hafter⟩ := executed_append (Bytecode.wellFormed_of_decode hdecode) hlive
    hcovers.noReturn h.remainder
  exact ⟨after, hcode, hfront ▸ hcovers, hafter⟩

/-- **Folding is execution.**  The part of a constructor that is executed when the class is compiled stores
into the fields that have initial values, and leaves these there.  The induction is on the number of base
classes, as many of which are followed as there are. -/
theorem ofClass_runs (hmd : md.Catalogued) (hacyclic : Metadata.Acyclic md.BaseLink)
    (hplain : md.PlainCtors) (h : ofClass md naming t = .ok init) {k : Nat}
    (hk : (md.ancestors t).length ≤ k) :
    (init.initial.map Prod.fst).Nodup ∧ ∀ s : State, init.executed.foldlM (act md (construct md k) t) s =
      some { s with fields := overlay s.fields init.initial } := by
  induction hn : (md.ancestors t).length using Nat.strong_induction_on generalizing t init k with
  | _ n ih =>
    rcases ofClass_cases h with ⟨-, rfl⟩ | ⟨ctor, hctor, ⟨-, rfl⟩ | hscans⟩
    · exact ⟨.nil, fun s => rfl⟩
    · exact ⟨.nil, fun s => rfl⟩
    obtain ⟨after, hcode, hcovers, -⟩ := hscans.split
    obtain ⟨step, hstep, hinitial⟩ := hscans.reads
    -- one statement; a call goes to the plain constructor of the base class
    have hone : ∀ initial initial', ∀ st ∈ (leading md naming (md.type t).base
          (init.code.filter (·.opcode != .nop))).1, (initial.map Prod.fst).Nodup →
        step initial st = .ok initial' → (initial'.map Prod.fst).Nodup ∧
          ∀ fields, st.exec (construct md k) (overlay fields initial) =
            some (overlay fields initial') := by
      intro initial initial' st hst hinit hnext
      have hcall {m : MethodRef} {offset : Nat} (hchain : st = .chain m offset) :
          md.ancestors t = (md.method m).declaring :: md.ancestors (md.method m).declaring ∧
            plainCtor md (md.method m).declaring = .ok (some m) := by
        obtain ⟨hbase, i, hi, hop, hoperand⟩ := hcovers.base m offset (hchain ▸ hst)
        obtain ⟨body, -, hdecode⟩ := hscans.decoded
        have hmem : i ∈ init.code := hcode ▸ List.mem_append_left _ (List.mem_of_mem_filter hi)
        refine ⟨Metadata.ancestors_of_base hacyclic (by simpa [isBaseCtor] using (Bool.and_eq_true_iff.1 hbase).2),
          plainCtor_of_isBaseCtor hmd hplain hbase ?_⟩
        exact Bytecode.hasMember_of_call hdecode hmem hop hoperand
      cases hstep initial st initial' hnext with
      | store => exact ⟨nodup_record hinit _ _, fun fields => by rw [overlay_record]; rfl⟩
      | host hhost =>
        refine ⟨hinit, fun fields => ?_⟩
        cases k <;> simp [Statement.exec, construct, hhost]
      | @base m offset inherited huser hinherited hwhole =>
        obtain ⟨hancestors, hctor'⟩ := hcall rfl
        have hlen := congrArg List.length hancestors
        rw [List.length_cons] at hlen
        obtain ⟨k, rfl⟩ : ∃ k', k = k' + 1 := ⟨k - 1, by omega⟩
        obtain ⟨hnodup', hruns⟩ := ih _ (by omega) hinherited (k := k) (by omega) rfl
        refine ⟨nodup_foldl_record hinit, fun fields => ?_⟩
        rw [overlay_foldl_record fields hnodup', Statement.exec, construct, if_pos huser,
          code?_of_plainCtor hinherited hctor']
        have hexecuted : inherited.executed = inherited.code.takeWhile (·.opcode != .ret) := by
          rw [executed, hwhole]
        rw [hexecuted] at hruns
        simp only [Option.bind_eq_bind, Option.bind_some, hruns]
        rfl
      | circular hnot =>
        obtain ⟨hancestors, -⟩ := hcall rfl
        exact absurd (by simp [hancestors]) hnot
    have hstart : (([] : List (FieldRef × Value)).map Prod.fst).Nodup := List.nodup_nil
    obtain ⟨hnodup, hexec⟩ := exec_of_foldlM (construct md k) hone hstart hinitial
    refine ⟨hnodup, fun s => ?_⟩
    rw [← foldlM_filter_nop, hcovers.runs, ← show overlay s.fields [] = s.fields from rfl, hexec]
    rfl

lemma ofClass_whole (h : ofClass md naming t = .ok init) (hnone : init.remainder = none) :
    ∀ i ∈ init.code.drop init.executed.length, i.opcode = .nop ∨ i.opcode = .ret := by
  rcases ofClass_cases h with ⟨-, rfl⟩ | ⟨ctor, -, ⟨-, rfl⟩ | hscans⟩
  · simp
  · simp
  obtain ⟨after, hcode, -, hafter⟩ := hscans.split
  have hrest := hscans.remainder
  rw [hnone, eq_comm, Option.map_eq_none_iff, ← hafter] at hrest
  intro i hi
  rw [hcode, List.drop_left] at hi
  refine or_iff_not_imp_left.2 fun hnop => ?_
  have hlive : i ∈ after.filter (·.opcode != .nop) := List.mem_filter.2 ⟨hi, by simpa using hnop⟩
  cases hcase : after.filter (·.opcode != .nop) with
  | nil => simp [hcase] at hlive
  | cons j rest =>
    rw [hcase, remainderOffset?_cons] at hrest
    split_ifs at hrest with hret
    rw [hcase, hret.1, List.mem_singleton] at hlive
    exact hlive ▸ hret.2

lemma ofClass_closed (h : ofClass md naming t = .ok init) {cut : Nat}
    (hcut : init.remainder = some cut) :
    ∃ first, init.code[cut]? = some first ∧
      ∀ i ∈ init.code.drop cut, ∀ x ∈ i.targets, first.offset ≤ x := by
  rcases ofClass_cases h with ⟨-, rfl⟩ | ⟨ctor, -, ⟨-, rfl⟩ | hscans⟩
  · cases hcut
  · cases hcut
  obtain ⟨start, hstart, rfl⟩ := Option.map_eq_some_iff.1 (hscans.remainder.symm.trans hcut)
  obtain ⟨after, hcode, -, hafter⟩ := hscans.split
  obtain ⟨i, hi, hoffset⟩ : ∃ i ∈ init.code, i.offset = start := by
    rw [← hafter] at hstart
    cases hcase : after.filter (·.opcode != .nop) with
    | nil => simp [hcase, remainderOffset?] at hstart
    | cons i rest =>
      rw [hcase, remainderOffset?_cons] at hstart
      split_ifs at hstart
      have hmem : i ∈ after := List.mem_of_mem_filter (hcase ▸ List.mem_cons_self)
      exact ⟨i, hcode ▸ List.mem_append_right _ hmem, Option.some.inj hstart⟩
  have hlt : init.code.findIdx (·.offset == start) < init.code.length :=
    List.findIdx_lt_length.2 ⟨i, hi, by simpa using hoffset⟩
  refine ⟨_, List.getElem?_eq_getElem hlt, ?_⟩
  have hfirst := List.findIdx_getElem (w := hlt)
  rw [beq_iff_eq.1 hfirst]
  exact hscans.closed start hstart

end Initializer

end FlatHeap
