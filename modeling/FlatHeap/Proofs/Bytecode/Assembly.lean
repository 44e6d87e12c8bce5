import FlatHeap.Proofs.Bytecode.Grammar

/-!
# Assembling and decoding

What an assembler has written is read back by the decoder.  A run of assembler commands leaves a
history, each command with the offset the assembler stood at.  The commands that write something are
its emissions, and the history tells where a label was bound.

A command may write its operand in several forms, and `Command.Writes` lists them.  In each form the
bytes filled in at the end are the encoding of an instruction with the operand the command names
(`Command.Writes.operandBytes?`), so an assembled body is the encoding of one instruction for each
emission (`exists_code`).  It is a body of the grammar unless a branch leads to its very end, and
then the first such branch is at fault (`decodeFrom_badTarget`).
-/

namespace FlatHeap.Bytecode

variable {ts : List Nat}

/-! ## Commands -/

inductive Access where
  | ldarg | ldarga | starg | ldloc | ldloca | stloc
deriving DecidableEq, Repr

namespace Access

def implicit : Access → List Opcode
  | ldarg => [.ldarg0, .ldarg1, .ldarg2, .ldarg3]
  | ldloc => [.ldloc0, .ldloc1, .ldloc2, .ldloc3]
  | stloc => [.stloc0, .stloc1, .stloc2, .stloc3]
  | ldarga | starg | ldloca => []

def short : Access → Opcode
  | ldarg => .ldargS
  | ldarga => .ldargaS
  | starg => .stargS
  | ldloc => .ldlocS
  | ldloca => .ldlocaS
  | stloc => .stlocS

def long : Access → Opcode
  | ldarg => .ldarg
  | ldarga => .ldarga
  | starg => .starg
  | ldloc => .ldloc
  | ldloca => .ldloca
  | stloc => .stloc

def operand (n : Nat) : Access → Operand
  | ldarg | ldarga | starg => .arg n
  | ldloc | ldloca | stloc => .localIndex n

end Access

inductive Command where
  | emit (opcode : Opcode)
  | token (opcode : Opcode) (t : UInt32)
  | access (way : Access) (n : UInt16)
  | ldcI4 (w : BitVec 32)
  | ldcI8 (w : BitVec 64)
  | ldcR4 (x : Single)
  | ldcR8 (x : Double)
  | newLabel
  | bind (label : Nat)
  | branch (opcode : Opcode) (label : Nat)
  | switch (labels : List Nat)
deriving DecidableEq

/-- What a token names in the table that the opcode's operand refers to. -/
def key? (md : Metadata) (opcode : Opcode) (t : UInt32) : Option Operand :=
  match opcode.operandKind with
  | .typeToken => (md.resolveType? t).map .type
  | .fieldToken => (md.resolveField? t).map .field
  | .methodToken => (md.resolveMethod? t).map .method
  | .stringToken => (md.resolveString? t).map .text
  | _ => none

/-- Operand contained in an opcode that takes no bytes for it. -/
def contained? (opcode : Opcode) : Option Operand :=
  match opcode.operandKind with
  | .none => some .none
  | .implicitArg n => some (.arg n)
  | .implicitLocal n => some (.localIndex n)
  | .implicitInt v => some (.int32 (BitVec.ofInt 32 v))
  | _ => none

namespace Command

def emits : Command → Bool
  | newLabel | bind _ => false
  | _ => true

def opcodes : Command → List Opcode
  | emit opcode | token opcode _ | branch opcode _ => [opcode]
  | access way _ => way.long :: way.short :: way.implicit
  | ldcI4 _ =>
    [.ldcI4, .ldcI4S, .ldcI4M1, .ldcI40, .ldcI41, .ldcI42, .ldcI43, .ldcI44, .ldcI45, .ldcI46,
      .ldcI47, .ldcI48]
  | ldcI8 _ => [.ldcI8]
  | ldcR4 _ => [.ldcR4]
  | ldcR8 _ => [.ldcR8]
  | switch _ => [.switch]
  | newLabel | bind _ => []

def labels : Command → List Nat
  | branch _ label => [label]
  | switch labels => labels
  | _ => []

/-- Operand the command names, for labels bound where `bound?` says. -/
def operand? (md : Metadata) (bound? : Nat → Option Nat) : Command → Option Operand
  | emit opcode => contained? opcode
  | token opcode t => key? md opcode t
  | access way n => some (way.operand n.toNat)
  | ldcI4 w => some (.int32 w)
  | ldcI8 w => some (.int64 w)
  | ldcR4 x => some (.single x)
  | ldcR8 x => some (.double x)
  | branch _ label => (bound? label).map .target
  | switch labels => (labels.mapM bound?).map .switch
  | newLabel | bind _ => none

end Command

namespace Assembler

def access (a : Assembler) : Access → Nat → Assembler
  | .ldarg => a.ldarg
  | .ldarga => a.ldarga
  | .starg => a.starg
  | .ldloc => a.ldloc
  | .ldloca => a.ldloca
  | .stloc => a.stloc

/-- Carry out a command; there is no result where the assembler is misused.  A label bound twice is
reported, and stays where it was bound first. -/
def perform? (a : Assembler) : Command → Option Assembler
  | .emit opcode => (a.emit opcode).toOption
  | .token opcode t => some (a.token opcode t)
  | .access way n => some (a.access way n.toNat)
  | .ldcI4 w => some (a.ldcI4 w)
  | .ldcI8 w => some (a.ldcI8 w)
  | .ldcR4 x => some (a.ldcR4 x)
  | .ldcR8 x => some (a.ldcR8 x)
  | .newLabel => some a.newLabel.2
  | .bind label =>
    if label < a.labels.length then some ((a.bind label).toOption.getD a) else none
  | .branch opcode label => (a.branch opcode label).toOption
  | .switch labels => some (a.switch labels)

/-- Carry out commands one after another, and list each with the offset reported before it. -/
def run? (a : Assembler) : List Command → Option (List (Nat × Command) × Assembler)
  | [] => some ([], a)
  | c :: cs => do
    let b ← a.perform? c
    let (history, z) ← b.run? cs
    return ((a.offset, c) :: history, z)

end Assembler

def emissions (history : List (Nat × Command)) : List (Nat × Command) :=
  history.filter (·.2.emits)

def bound? (history : List (Nat × Command)) (label : Nat) : Option Nat :=
  (history.find? (·.2 = .bind label)).map (·.1)

/-! ## Forms -/

/-- Opcode and operand bytes that a command may write. -/
inductive Command.Writes : Command → Opcode → Payload → Prop
  | emit {op : Opcode} (bare : op.operandKind.size? = some 0) : Writes (.emit op) op (.bytes [])
  | token {op : Opcode} {t : UInt32} : Writes (.token op t) op (.bytes (bytesOf 4 t.toNat))
  | implicit {way : Access} {n : UInt16} {op : Opcode} (here : way.implicit[n.toNat]? = some op) :
      Writes (.access way n) op (.bytes [])
  | short {way : Access} {n : UInt16} (small : n.toNat < 256) :
      Writes (.access way n) way.short (.bytes (bytesOf 1 n.toNat))
  | long {way : Access} {n : UInt16} :
      Writes (.access way n) way.long (.bytes (bytesOf 2 n.toNat))
  | implicitInt {w : BitVec 32} {op : Opcode} (same : op.operandKind = .implicitInt w.toInt) :
      Writes (.ldcI4 w) op (.bytes [])
  | shortInt {w : BitVec 32} (small : -128 ≤ w.toInt ∧ w.toInt < 128) :
      Writes (.ldcI4 w) .ldcI4S (.bytes (bytesOf 1 w.toNat))
  | longInt {w : BitVec 32} : Writes (.ldcI4 w) .ldcI4 (.bytes (bytesOf 4 w.toNat))
  | ldcI8 {w : BitVec 64} : Writes (.ldcI8 w) .ldcI8 (.bytes (bytesOf 8 w.toNat))
  | ldcR4 {x : Single} : Writes (.ldcR4 x) .ldcR4 (.bytes (bytesOf 4 x.toNat))
  | ldcR8 {x : Double} : Writes (.ldcR8 x) .ldcR8 (.bytes (bytesOf 8 x.toNat))
  | shortBranch {op : Opcode} {l : Nat} (kind : op.operandKind = .branchShort) :
      Writes (.branch op l) op (.short l)
  | longBranch {op : Opcode} {l : Nat} (kind : op.operandKind = .branch) :
      Writes (.branch op l) op (.long l)
  | switch {ls : List Nat} : Writes (.switch ls) .switch (.table ls)

namespace Assembler

variable {a b z : Assembler} {c : Command}

lemma access_eq (a : Assembler) (way : Access) (n : Nat) :
    a.access way n = a.indexed way.implicit way.short way.long n := by
  cases way <;> rfl

lemma perform?_cases (h : a.perform? c = some b) :
    (c.emits = false ∧ b.items = a.items ∧ b.offset = a.offset) ∨
      (c.emits = true ∧ ∃ op payload, c.Writes op payload ∧ b = a.push op payload) := by
  cases c with
  | emit op =>
    have done := ok_of_toOption h
    unfold emit at done
    split at done
    · rename_i bare
      exact .inr ⟨rfl, op, _, .emit bare, (Except.ok.inj done).symm⟩
    · cases done
  | token op t => exact .inr ⟨rfl, op, _, .token, (Option.some.inj h).symm⟩
  | access way n =>
    obtain rfl := Option.some.inj h
    rw [access_eq]
    unfold indexed
    split
    · rename_i op here
      exact .inr ⟨rfl, op, _, .implicit here, rfl⟩
    · split
      · rename_i small
        exact .inr ⟨rfl, _, _, .short small, rfl⟩
      · exact .inr ⟨rfl, _, _, .long, rfl⟩
  | ldcI4 w =>
    obtain rfl := Option.some.inj h
    simp only [ldcI4]
    split
    · rename_i op found
      exact .inr ⟨rfl, op, _, .implicitInt (by simpa using List.find?_some found), rfl⟩
    · split
      · rename_i small
        exact .inr ⟨rfl, _, _, .shortInt small, rfl⟩
      · exact .inr ⟨rfl, _, _, .longInt, rfl⟩
  | ldcI8 w => exact .inr ⟨rfl, _, _, .ldcI8, (Option.some.inj h).symm⟩
  | ldcR4 x => exact .inr ⟨rfl, _, _, .ldcR4, (Option.some.inj h).symm⟩
  | ldcR8 x => exact .inr ⟨rfl, _, _, .ldcR8, (Option.some.inj h).symm⟩
  | newLabel =>
    obtain rfl := Option.some.inj h
    exact .inl ⟨rfl, rfl, rfl⟩
  | bind l =>
    obtain ⟨-, ⟨⟩⟩ := Option.ite_none_right_eq_some.1 h
    refine .inl ⟨rfl, ?_⟩
    unfold bind
    split <;> exact ⟨rfl, rfl⟩
  | branch op l =>
    have done := ok_of_toOption h
    unfold branch at done
    split at done
    · rename_i kind
      exact .inr ⟨rfl, op, _, .shortBranch kind, (Except.ok.inj done).symm⟩
    · rename_i kind
      exact .inr ⟨rfl, op, _, .longBranch kind, (Except.ok.inj done).symm⟩
    · cases done
  | switch ls => exact .inr ⟨rfl, _, _, .switch, (Option.some.inj h).symm⟩

lemma position?_perform? (h : a.perform? c = some b) (l : Nat) :
    b.position? l = (a.position? l).or (if c = .bind l then some a.offset else none) := by
  rcases perform?_cases h with ⟨quiet, -⟩ | ⟨loud, op, payload, -, rfl⟩
  swap
  · rw [if_neg (by rintro rfl; cases loud), Option.or_none]
    rfl
  cases c with
  | newLabel =>
    obtain rfl := Option.some.inj h
    rw [if_neg (by simp), Option.or_none]
    simp only [position?, newLabel, List.getElem?_append]
    split
    · rfl
    · rename_i outside
      rw [List.getElem?_eq_none (Nat.le_of_not_lt outside)]
      cases hl : l - a.labels.length <;> rfl
  | bind l' =>
    obtain ⟨known, ⟨⟩⟩ := Option.ite_none_right_eq_some.1 h
    unfold bind
    by_cases same : l' = l
    · subst same
      rw [if_pos rfl]
      cases here : a.position? l' with
      | some p => simp [Except.toOption, here]
      | none => simp [Except.toOption, position?, known]
    · rw [if_neg (by simpa using same), Option.or_none]
      cases a.position? l' with
      | some p => rfl
      | none => simp [Except.toOption, position?, List.getElem?_set_ne same]
  | _ => cases quiet

/-! ## Runs -/

def InRow : Nat → List Item → Prop
  | _, [] => True
  | start, i :: rest => i.offset = start ∧ InRow (start + i.size) rest

def Left (e : Nat × Command) (i : Item) : Prop :=
  i.offset = e.1 ∧ e.2.Writes i.opcode i.payload

variable {cs : List Command} {history : List (Nat × Command)}

lemma run?_cons_eq_some_iff : a.run? (c :: cs) = some (history, z) ↔
    ∃ b rest, a.perform? c = some b ∧ b.run? cs = some (rest, z) ∧
      history = (a.offset, c) :: rest := by
  simp only [run?, Option.bind_eq_bind, Option.bind_eq_some_iff, Option.pure_def,
    Option.some.injEq, Prod.mk.injEq, Prod.exists]
  constructor
  · rintro ⟨b, done, rest, z, ran, rfl, rfl⟩
    exact ⟨b, rest, done, ran, rfl⟩
  · rintro ⟨b, rest, done, ran, rfl⟩
    exact ⟨b, done, rest, z, ran, rfl, rfl⟩

lemma commands_of_run? (run : a.run? cs = some (history, z)) : history.map (·.2) = cs := by
  induction cs generalizing a history with
  | nil =>
    obtain ⟨rfl, -⟩ := Prod.mk.inj (Option.some.inj run)
    rfl
  | cons c cs ih =>
    obtain ⟨b, rest, -, ran, rfl⟩ := run?_cons_eq_some_iff.1 run
    rw [List.map_cons, ih ran]

lemma items_of_run? (run : a.run? cs = some (history, z)) :
    ∃ items, z.items.reverse = a.items.reverse ++ items ∧
      List.Forall₂ Left (emissions history) items ∧ InRow a.offset items ∧
      z.offset = a.offset + (items.map (·.size)).sum := by
  induction cs generalizing a history with
  | nil =>
    obtain ⟨rfl, rfl⟩ := Prod.mk.inj (Option.some.inj run)
    exact ⟨[], by simp, .nil, trivial, rfl⟩
  | cons c cs ih =>
    obtain ⟨b, rest, done, ran, rfl⟩ := run?_cons_eq_some_iff.1 run
    obtain ⟨items, whole, left, row, stop⟩ := ih ran
    rcases perform?_cases done with ⟨quiet, same, stay⟩ | ⟨loud, op, payload, writes, rfl⟩
    · rw [same] at whole
      rw [stay] at row stop
      exact ⟨items, whole, by simpa [emissions, quiet] using left, row, stop⟩
    · refine ⟨⟨a.offset, op, payload⟩ :: items, ?_, ?_, ⟨rfl, row⟩, ?_⟩
      · rw [whole]
        simp [push]
      · simpa [emissions, loud] using ⟨⟨rfl, writes⟩, left⟩
      · rw [stop]
        simp only [push, List.map_cons, List.sum_cons]
        omega

lemma position?_run? (run : a.run? cs = some (history, z)) (l : Nat) :
    z.position? l = (a.position? l).or (bound? history l) := by
  induction cs generalizing a history with
  | nil =>
    obtain ⟨rfl, rfl⟩ := Prod.mk.inj (Option.some.inj run)
    simp [bound?]
  | cons c cs ih =>
    obtain ⟨b, rest, done, ran, rfl⟩ := run?_cons_eq_some_iff.1 run
    rw [ih ran, position?_perform? done, Option.or_assoc]
    by_cases same : c = .bind l <;> simp [bound?, same]

lemma offset_of_run? (run : a.run? cs = some (history, z)) :
    ∀ p ∈ a.offset :: history.map (·.1),
      p ≤ z.offset ∧ (p = z.offset ∨ ∃ e ∈ emissions history, e.1 = p) := by
  induction cs generalizing a history with
  | nil =>
    obtain ⟨rfl, rfl⟩ := Prod.mk.inj (Option.some.inj run)
    simp
  | cons c cs ih =>
    obtain ⟨b, rest, done, ran, rfl⟩ := run?_cons_eq_some_iff.1 run
    have later : ∀ p ∈ b.offset :: rest.map (·.1),
        p ≤ z.offset ∧ (p = z.offset ∨ ∃ e ∈ emissions ((a.offset, c) :: rest), e.1 = p) := by
      intro p mem
      refine (ih ran p mem).imp_right (Or.imp_right fun ⟨e, there, same⟩ => ⟨e, ?_, same⟩)
      exact ((List.sublist_cons_self _ _).filter _).subset there
    have next := later _ List.mem_cons_self
    have first : a.offset ≤ z.offset ∧
        (a.offset = z.offset ∨ ∃ e ∈ emissions ((a.offset, c) :: rest), e.1 = a.offset) := by
      rcases perform?_cases done with ⟨-, -, stay⟩ | ⟨loud, op, payload, -, rfl⟩
      · exact stay ▸ next
      · exact ⟨(Nat.le_add_right _ _).trans next.1, .inr ⟨(a.offset, c), by simp [emissions, loud], rfl⟩⟩
    exact List.forall_mem_cons.2 ⟨first, List.forall_mem_cons.2
      ⟨first, fun p mem => later p (List.mem_cons_of_mem _ mem)⟩⟩

lemma bound?_mem {l p : Nat} (h : bound? history l = some p) : p ∈ history.map (·.1) := by
  obtain ⟨e, found, rfl⟩ := Option.map_eq_some_iff.1 h
  exact List.mem_map_of_mem (List.mem_of_find?_eq_some found)

/-! ## Filling in -/

variable {i : Item} {bytes : List UInt8}

lemma distance_eq_ok_iff {l : Nat} {d : Int} : z.distance i l = .ok d ↔
    ∃ p, z.position? l = some p ∧ d = p - (i.offset + i.size : Nat) := by
  unfold distance
  cases z.position? l <;> simp [eq_comm]

lemma length_payloadBytes (h : z.payloadBytes i = .ok bytes) : bytes.length = i.payload.size := by
  unfold payloadBytes at h
  split at h
  · rename_i bs payload
    obtain rfl := Except.ok.inj h
    rw [payload, Payload.size]
  · rename_i l payload
    obtain ⟨d, -, h⟩ := except_bind_eq_ok_iff.1 h
    split at h
    · obtain rfl := Except.ok.inj h
      rw [length_bytesOf, payload, Payload.size]
    · cases h
  · rename_i l payload
    obtain ⟨d, -, h⟩ := except_bind_eq_ok_iff.1 h
    obtain rfl := Except.ok.inj h
    rw [length_bytesOf, payload, Payload.size]
  · rename_i ls payload
    obtain ⟨ds, each, h⟩ := except_bind_eq_ok_iff.1 h
    obtain rfl := Except.ok.inj h
    have same := (mapM_eq_ok_iff.1 each).length_eq
    simp [payload, Payload.size, length_bytesOf, same, mul_comm]

lemma length_filled {items : List Item} {parts : List (List UInt8)}
    (filled : List.Forall₂
      (fun i part => (do return i.opcode.bytes ++ (← z.payloadBytes i)) = .ok part) items parts) :
    parts.flatten.length = (items.map (·.size)).sum := by
  induction filled with
  | nil => rfl
  | cons head _ ih =>
    obtain ⟨operand, written, head⟩ := except_bind_eq_ok_iff.1 head
    obtain rfl := Except.ok.inj head
    rw [List.flatten_cons, List.length_append, ih, List.length_append, length_payloadBytes written,
      List.map_cons, List.sum_cons, Item.size]

end Assembler

/-! ## Instructions -/

section Instructions

variable {md : Metadata} {z : Assembler} {c : Command} {op : Opcode} {payload : Payload}
  {start n : Nat} {bytes : List UInt8}

lemma operandBytes?_contained (bare : op.operandKind.size? = some 0) :
    ∃ o, contained? op = some o ∧ (⟨start, op, o⟩ : Instruction).operandBytes? md = some [] := by
  unfold contained? Instruction.operandBytes?
  cases kind : op.operandKind with
  | none | implicitArg | implicitLocal | implicitInt => simp [kind]
  | _ => simp [kind, OperandKind.size?] at bare

lemma operandBytes?_key (nodup : md.strings.Nodup) {t : UInt32} {o : Operand}
    (found : key? md op t = some o) :
    (⟨start, op, o⟩ : Instruction).operandBytes? md = some (bytesOf 4 t.toNat) := by
  unfold key? at found
  unfold Instruction.operandBytes?
  cases kind : op.operandKind with
  | typeToken =>
    simp only [kind] at found
    obtain ⟨r, resolved, rfl⟩ := Option.map_eq_some_iff.1 found
    have only := Metadata.eq_token_of_resolve TypeRef.index (fun _ => rfl) resolved
    exact only ▸ if_pos (only ▸ resolved)
  | fieldToken =>
    simp only [kind] at found
    obtain ⟨r, resolved, rfl⟩ := Option.map_eq_some_iff.1 found
    have only := Metadata.eq_token_of_resolve FieldRef.index (fun _ => rfl) resolved
    exact only ▸ if_pos (only ▸ resolved)
  | methodToken =>
    simp only [kind] at found
    obtain ⟨r, resolved, rfl⟩ := Option.map_eq_some_iff.1 found
    have only := Metadata.eq_token_of_resolve MethodRef.index (fun _ => rfl) resolved
    exact only ▸ if_pos (only ▸ resolved)
  | stringToken =>
    simp only [kind] at found
    obtain ⟨r, resolved, rfl⟩ := Option.map_eq_some_iff.1 found
    have only := Metadata.eq_token_of_resolveString nodup resolved
    exact only ▸ if_pos (only ▸ resolved)
  | _ => simp [kind] at found

lemma operandBytes?_access {way : Access} {v : UInt16}
    (writes : (Command.access way v).Writes op (.bytes bytes)) :
    (⟨start, op, way.operand v.toNat⟩ : Instruction).operandBytes? md = some bytes := by
  cases writes with
  | implicit here =>
    have index (ops : List Opcode) (four : ops.length ≤ 4) (here : ops[v.toNat]? = some op) :
        v.toNat < 4 := by
      obtain ⟨inside, -⟩ := List.getElem?_eq_some_iff.1 here
      omega
    have := index _ (by cases way <;> decide) here
    generalize v.toNat = n at *
    cases way <;> interval_cases n <;> cases here <;> rfl
  | short small =>
    have room : numberBytes? 1 v.toNat = some (bytesOf 1 v.toNat) := if_pos (by simpa using small)
    cases way <;> exact room
  | long =>
    have room : numberBytes? 2 v.toNat = some (bytesOf 2 v.toNat) := if_pos v.toNat_lt
    cases way <;> exact room

lemma signedBytes?_toInt {w : BitVec 32} (small : -128 ≤ w.toInt ∧ w.toInt < 128) :
    signedBytes? 1 w.toInt = some (bytesOf 1 w.toNat) := by
  have same : UInt8.ofNat (w.toInt % 256 ^ 1).toNat = UInt8.ofNat w.toNat := by
    rw [← UInt8.toNat_inj, UInt8.toNat_ofNat', UInt8.toNat_ofNat', BitVec.toInt_eq_toNat_cond]
    have := w.isLt
    split <;> omega
  rw [signedBytes?, if_pos (by omega), bytesOf, bytesOf, bytesOf, bytesOf, same]

lemma signedBytes?_distance {i : Instruction} {p : Nat} (small : n < 2 ^ 31)
    (fits : i.offset + i.size ≤ n) (inside : p ≤ n) :
    signedBytes? 4 (i.distance p) =
      some (bytesOf 4 ((p - (i.offset + i.size : Nat) : Int) % 2 ^ 32).toNat) := by
  have span : (256 : Int) ^ 4 = 2 ^ 32 := by norm_num
  rw [signedBytes?, Instruction.distance, if_pos, span]
  omega

lemma targets_of_distances {i : Item} {ls : List Nat} {ds : List Int}
    (far : ls.mapM (fun l => z.distance i l) = .ok ds) :
    ∃ ts, ls.mapM z.position? = some ts ∧ (∀ p ∈ ts, ∃ l, z.position? l = some p) ∧
      ds = ts.map fun p : Nat => (p : Int) - (i.offset + i.size : Nat) := by
  have each := mapM_eq_ok_iff.1 far
  simp only [Assembler.distance_eq_ok_iff] at each
  simp only [mapM_eq_some_iff]
  clear far
  induction each with
  | nil => exact ⟨[], .nil, by simp, rfl⟩
  | cons head _ ih =>
    obtain ⟨p, here, rfl⟩ := head
    obtain ⟨ts, found, bound, rfl⟩ := ih
    exact ⟨p :: ts, .cons here found, List.forall_mem_cons.2 ⟨⟨_, here⟩, bound⟩, rfl⟩

lemma tableBytes?_eq {i : Instruction} (small : n < 2 ^ 31) (count : 4 * ts.length ≤ n)
    (fits : i.offset + i.size ≤ n) (inside : ∀ p ∈ ts, p ≤ n) :
    i.tableBytes? ts = some (bytesOf 4 ts.length ++
      (ts.map fun p : Nat => (p : Int) - (i.offset + i.size : Nat)).flatMap
        fun d => bytesOf 4 (d % 2 ^ 32).toNat) := by
  have number : numberBytes? 4 ts.length = some (bytesOf 4 ts.length) := if_pos (by omega)
  have table : ts.mapM (fun t => signedBytes? 4 (i.distance t)) =
      some (ts.map fun p : Nat =>
        bytesOf 4 (((p : Int) - (i.offset + i.size : Nat)) % 2 ^ 32).toNat) := by
    rw [mapM_eq_some_iff, List.forall₂_map_right_iff, List.forall₂_same]
    exact fun p mem => signedBytes?_distance small fits (inside p mem)
  simp only [Instruction.tableBytes?, number, table, Option.bind_eq_bind, Option.bind_some,
    Option.pure_def, List.flatMap_def, List.map_map, Function.comp_def]

lemma Command.Writes.operandBytes? (writes : c.Writes op payload) (nodup : md.strings.Nodup)
    (tokens : ∀ op t, c = .token op t → (key? md op t).isSome)
    (filled : z.payloadBytes ⟨start, op, payload⟩ = .ok bytes)
    (small : n < 2 ^ 31) (fits : start + (op.bytes.length + payload.size) ≤ n)
    (inside : ∀ l p, z.position? l = some p → p ≤ n) :
    ∃ o, c.operand? md z.position? = some o ∧
      (⟨start, op, o⟩ : Instruction).operandBytes? md = some bytes := by
  cases writes with
  | emit bare =>
    obtain rfl := Except.ok.inj filled
    exact operandBytes?_contained bare
  | token =>
    obtain rfl := Except.ok.inj filled
    obtain ⟨o, found⟩ := Option.isSome_iff_exists.1 (tokens _ _ rfl)
    exact ⟨o, found, operandBytes?_key nodup found⟩
  | implicit here =>
    obtain rfl := Except.ok.inj filled
    exact ⟨_, rfl, operandBytes?_access (.implicit here)⟩
  | short small =>
    obtain rfl := Except.ok.inj filled
    exact ⟨_, rfl, operandBytes?_access (.short small)⟩
  | long =>
    obtain rfl := Except.ok.inj filled
    exact ⟨_, rfl, operandBytes?_access .long⟩
  | @implicitInt w _ same =>
    obtain rfl := Except.ok.inj filled
    refine ⟨.int32 w, rfl, ?_⟩
    simp [Instruction.operandBytes?, same]
  | shortInt small =>
    obtain rfl := Except.ok.inj filled
    exact ⟨_, rfl, signedBytes?_toInt small⟩
  | longInt | ldcI8 | ldcR4 | ldcR8 =>
    obtain rfl := Except.ok.inj filled
    exact ⟨_, rfl, rfl⟩
  | @shortBranch _ l kind =>
    obtain ⟨d, far, filled⟩ := except_bind_eq_ok_iff.1 filled
    obtain ⟨p, here, rfl⟩ := Assembler.distance_eq_ok_iff.1 far
    have size : (⟨start, op, .target p⟩ : Instruction).size = op.bytes.length + 1 := by
      simp [Instruction.size, kind, OperandKind.size?]
    split at filled
    swap
    · cases filled
    rename_i near
    obtain rfl := Except.ok.inj filled
    refine ⟨.target p, by simp [Command.operand?, here], ?_⟩
    simp only [Item.size, Payload.size] at near
    simp only [Instruction.operandBytes?, kind, signedBytes?, Instruction.distance, size, Item.size,
      Payload.size]
    rw [if_pos (by omega)]
    rfl
  | @longBranch _ l kind =>
    obtain ⟨d, far, filled⟩ := except_bind_eq_ok_iff.1 filled
    obtain ⟨p, here, rfl⟩ := Assembler.distance_eq_ok_iff.1 far
    obtain rfl := Except.ok.inj filled
    have size : (⟨start, op, .target p⟩ : Instruction).size = op.bytes.length + 4 := by
      simp [Instruction.size, kind, OperandKind.size?]
    refine ⟨.target p, by simp [Command.operand?, here], ?_⟩
    simp only [Instruction.operandBytes?, kind]
    rw [signedBytes?_distance small (by rwa [size]) (inside l p here), size]
    rfl
  | @switch ls =>
    obtain ⟨ds, far, filled⟩ := except_bind_eq_ok_iff.1 filled
    obtain rfl := Except.ok.inj filled
    obtain ⟨ts, found, bound, rfl⟩ := targets_of_distances far
    have len := (mapM_eq_some_iff.1 found).length_eq
    have inside : ∀ p ∈ ts, p ≤ n := by
      intro p mem
      obtain ⟨l, here⟩ := bound p mem
      exact inside l p here
    refine ⟨.switch ts, by simp [Command.operand?, found], ?_⟩
    simp only [Payload.size, len] at fits
    have size : (⟨start, .switch, .switch ts⟩ : Instruction).size =
        Opcode.switch.bytes.length + (4 + 4 * ts.length) := rfl
    have table := tableBytes?_eq small (by omega) (by rw [size]; exact fits) inside
    rw [size] at table
    simp only [Item.size, Payload.size, len]
    exact table

lemma Command.Writes.mem_opcodes (writes : c.Writes op payload) : op ∈ c.opcodes := by
  cases writes with
  | implicit here =>
    have := List.mem_of_getElem? here
    simp [Command.opcodes, this]
  | implicitInt same =>
    revert same
    cases op <;> simp [Opcode.operandKind, Opcode.row, Command.opcodes]
  | _ => simp [Command.opcodes]

end Instructions

/-! ## Bodies -/

/-- The instruction is the one a command asks for at its offset. -/
structure Answers (md : Metadata) (bound? : Nat → Option Nat) (e : Nat × Command)
    (i : Instruction) : Prop where
  offset : i.offset = e.1
  opcode : i.opcode ∈ e.2.opcodes
  operand : e.2.operand? md bound? = some i.operand

section Bodies

variable {md : Metadata} {z : Assembler} {start n m : Nat} {bytes front : List UInt8}
  {es : List (Nat × Command)} {code : List Instruction} {position? : Nat → Option Nat} {s : Site}

lemma Answers.mem_targets_iff {e : Nat × Command} {i : Instruction}
    (answers : Answers md position? e i) {t : Nat} :
    t ∈ i.targets ↔ ∃ l ∈ e.2.labels, position? l = some t := by
  obtain ⟨offset, c⟩ := e
  obtain ⟨start, opcode, o⟩ := i
  have named := answers.operand
  clear answers
  cases c with
  | emit op =>
    simp only [Command.operand?, contained?] at named
    split at named <;> cases named <;> simp [Command.labels, Instruction.targets]
  | token op u =>
    simp only [Command.operand?, key?] at named
    split at named
    case h_5 => cases named
    all_goals
      obtain ⟨r, -, rfl⟩ := Option.map_eq_some_iff.1 named
      simp [Command.labels, Instruction.targets]
  | access way v =>
    obtain rfl := Option.some.inj named
    cases way <;> simp [Access.operand, Command.labels, Instruction.targets]
  | ldcI4 | ldcI8 | ldcR4 | ldcR8 =>
    obtain rfl := Option.some.inj named
    simp [Command.labels, Instruction.targets]
  | newLabel | bind => cases named
  | branch op l =>
    obtain ⟨p, here, rfl⟩ := Option.map_eq_some_iff.1 named
    simp [Command.labels, Instruction.targets, here, eq_comm]
  | switch ls =>
    obtain ⟨ts, found, rfl⟩ := Option.map_eq_some_iff.1 named
    have each := mapM_eq_some_iff.1 found
    simp only [Command.labels, Instruction.targets]
    clear found named
    induction each with
    | nil => simp
    | cons head _ ih => simp [ih, head, eq_comm]

lemma exists_code (nodup : md.strings.Nodup) {items : List Item} {parts : List (List UInt8)}
    (left : List.Forall₂ Assembler.Left es items)
    (filled : List.Forall₂
      (fun i part => (do return i.opcode.bytes ++ (← z.payloadBytes i)) = .ok part) items parts)
    (tokens : ∀ e ∈ es, ∀ op t, e.2 = .token op t → (key? md op t).isSome)
    (row : Assembler.InRow start items) (fits : start + (items.map (·.size)).sum ≤ n)
    (small : n < 2 ^ 31) (inside : ∀ l p, z.position? l = some p → p ≤ n) :
    ∃ code, List.Forall₂ (Answers md z.position?) es code ∧
      encode? md code = some parts.flatten ∧ Laid start code := by
  induction left generalizing parts start with
  | nil =>
    cases filled
    exact ⟨[], .nil, rfl, by simp [Laid]⟩
  | @cons e item es items head left ih =>
    cases filled with
    | @cons _ part _ parts first filled =>
    obtain ⟨here, writes⟩ := head
    obtain ⟨rfl, row⟩ := row
    obtain ⟨operand, written, first⟩ := except_bind_eq_ok_iff.1 first
    obtain rfl := Except.ok.inj first
    rw [List.map_cons, List.sum_cons] at fits
    obtain ⟨o, named, encoded⟩ := writes.operandBytes? nodup (tokens e List.mem_cons_self) written
      small (by simp only [Item.size] at fits; omega) inside
    have whole : (⟨item.offset, item.opcode, o⟩ : Instruction).encode? md =
        some (item.opcode.bytes ++ operand) := by
      rw [Instruction.encode?, encoded, Option.map_some]
    have size : (⟨item.offset, item.opcode, o⟩ : Instruction).size = item.size := by
      rw [← Instruction.length_of_encode? whole, List.length_append,
        Assembler.length_payloadBytes written, Item.size]
    obtain ⟨code, answers, others, laid⟩ := ih filled
      (fun e mem => tokens e (List.mem_cons_of_mem _ mem)) row (by omega)
    exact ⟨⟨item.offset, item.opcode, o⟩ :: code, .cons ⟨here, writes.mem_opcodes, named⟩ answers,
      encode?_cons_eq_some_iff.2 ⟨_, _, whole, others, rfl⟩, laid_cons_iff.2 ⟨rfl, by rwa [size]⟩⟩

lemma Site.target_end {i : Instruction} {d : Int}
    (stop : i.offset + i.size = s.offset + s.opcode.bytes.length + m)
    (far : d = i.distance s.bodySize) : s.target m d = .error (.badTarget s.offset s.bodySize) := by
  have there : ((s.offset + s.opcode.bytes.length + m : Nat) : Int) + d = s.bodySize := by
    rw [far, Instruction.distance, stop]
    omega
  simp only [target, there]
  rw [if_neg (by omega)]

lemma mapM_target_end {i : Instruction} {groups : List (List UInt8)}
    (stop : i.offset + i.size = s.offset + s.opcode.bytes.length + m)
    (each : List.Forall₂ (fun t g => signedOf 32 g = i.distance t) ts groups)
    (inside : ∀ t ∈ ts, t ≤ s.bodySize) (stray : s.bodySize ∈ ts) :
    groups.mapM (fun g => s.target m (signedOf 32 g)) =
      .error (.badTarget s.offset s.bodySize) := by
  induction each with
  | nil => cases stray
  | @cons t g ts groups far _ ih =>
    rw [List.mapM_cons]
    rcases (inside t List.mem_cons_self).lt_or_eq with less | rfl
    · rw [(Site.target_eq_ok_iff stop).2 ⟨less, far⟩]
      have stray := (List.mem_cons.1 stray).resolve_left less.ne'
      have := ih (fun t mem => inside t (List.mem_cons_of_mem _ mem)) stray
      simp only [bind, Except.bind, this]
    · rw [Site.target_end stop far]
      rfl

lemma Site.take_target_end {w : Nat} (pos : 0 < m) (width : 8 * m = w)
    (size : s.opcode.operandKind.size? = some m) (here : front <+: bytes)
    (encoded : signedBytes? m ((s.reading (.target s.bodySize)).distance s.bodySize) =
      some front) :
    (do return Operand.target (← s.target m (signedOf w (← s.take m bytes)))) =
      .error (.badTarget s.offset s.bodySize) := by
  obtain ⟨len, far⟩ := (signedBytes?_eq_some_iff pos width).1 encoded
  have read : s.take m bytes = .ok front := take_eq_ok_iff.2 ⟨here, len⟩
  have stop : (s.reading (.target s.bodySize)).offset + (s.reading (.target s.bodySize)).size =
      s.offset + s.opcode.bytes.length + m := by
    simp only [Instruction.size, size, Option.getD_some]
    omega
  simp only [read, bind, Except.bind, target_end stop far]

lemma Site.switchTargets_end {i : Instruction}
    (stop : i.offset + i.size = s.offset + s.opcode.bytes.length + (4 + 4 * ts.length))
    (here : front <+: bytes) (encoded : i.tableBytes? ts = some front)
    (inside : ∀ t ∈ ts, t ≤ s.bodySize) (stray : s.bodySize ∈ ts) :
    s.switchTargets bytes = .error (.badTarget s.offset s.bodySize) := by
  obtain ⟨count, groups, rfl, four, same, lengths, each⟩ :=
    Instruction.tableBytes?_eq_some_iff.1 encoded
  have counted : s.take 4 bytes = .ok count :=
    take_eq_ok_iff.2 ⟨(List.prefix_append _ _).trans here, four⟩
  have table : s.take (4 * ts.length) (bytes.drop 4) = .ok groups.flatten := by
    obtain ⟨rest, rfl⟩ := here
    rw [List.append_assoc, List.drop_left' four, take_eq_ok_iff]
    refine ⟨List.prefix_append _ _, ?_⟩
    rw [List.length_flatten, List.map_congr_left lengths, each.length_eq]
    simp [mul_comm]
  simp only [switchTargets, counted, same, table, bind, Except.bind, groupsOfFour_flatten lengths]
  exact mapM_target_end stop each inside stray

lemma Site.operand_end {o : Operand} (encoded : (s.reading o).operandBytes? s.md = some front)
    (here : front <+: bytes) (inside : ∀ t ∈ (s.reading o).targets, t ≤ s.bodySize)
    (stray : s.bodySize ∈ (s.reading o).targets) :
    s.operand bytes = .error (.badTarget s.offset s.bodySize) := by
  unfold Instruction.operandBytes? at encoded
  unfold operand
  cases o with
  | target t =>
    obtain rfl : s.bodySize = t := by simpa [Instruction.targets] using stray
    cases kind : s.opcode.operandKind with
    | branchShort | branch =>
      simp only [kind] at encoded
      exact take_target_end (by decide) rfl (by rw [kind]; rfl) here encoded
    | _ => simp [kind] at encoded
  | switch ts =>
    cases kind : s.opcode.operandKind with
    | switch =>
      simp only [kind] at encoded
      have stop : (s.reading (.switch ts)).offset + (s.reading (.switch ts)).size =
          s.offset + s.opcode.bytes.length + (4 + 4 * ts.length) := by
        simp only [Instruction.size, kind, OperandKind.size?, Instruction.targets, Option.getD_none]
        omega
      simp only [switchTargets_end stop here encoded inside stray, bind, Except.bind]
    | _ => simp [kind] at encoded
  | _ => simp [Instruction.targets] at stray

lemma decodeOne_end {i : Instruction} {b : UInt8} {rest : List UInt8}
    (encoded : i.encode? md = some front) (here : front <+: b :: rest)
    (inside : ∀ t ∈ i.targets, t ≤ n) (stray : n ∈ i.targets) :
    decodeOne md n i.offset (b :: rest) = .error (.badTarget i.offset n) := by
  obtain ⟨operand, written, rfl⟩ := Option.map_eq_some_iff.1 encoded
  have found : Opcode.ofCode? (opcodeNumber (b :: rest)) = some i.opcode :=
    Opcode.ofCode?_eq_some_iff.2
      (Opcode.code_eq_opcodeNumber_iff.2 ((List.prefix_append _ _).trans here))
  obtain ⟨others, split⟩ := here
  have behind : (b :: rest).drop i.opcode.bytes.length = operand ++ others := by
    rw [← split, List.append_assoc, List.drop_left]
  have refused := Site.operand_end (s := ⟨md, n, i.offset, i.opcode⟩) (o := i.operand) written
    (List.prefix_append operand others) inside stray
  simp only [decodeOne, found, behind, refused, bind, Except.bind]

lemma decodeFrom_end (nodup : md.strings.Nodup)
    (answers : List.Forall₂ (Answers md position?) es code)
    (encoded : encode? md code = some bytes) (laid : Laid start code)
    (inside : ∀ i ∈ code, ∀ t ∈ i.targets, t ≤ n) (stray : ∃ i ∈ code, n ∈ i.targets) :
    ∃ before e after, es = before ++ e :: after ∧
      (∀ e ∈ before, ∀ l ∈ e.2.labels, position? l ≠ some n) ∧
      (∃ l ∈ e.2.labels, position? l = some n) ∧
      decodeFrom md n start bytes = .error (.badTarget e.1 n) := by
  induction answers generalizing start bytes with
  | nil => simp at stray
  | @cons e i es code head answers ih =>
    obtain ⟨front, rest, first, others, rfl⟩ := encode?_cons_eq_some_iff.1 encoded
    obtain ⟨rfl, laid⟩ := laid_cons_iff.1 laid
    obtain ⟨within, inside⟩ := List.forall_mem_cons.1 inside
    have size := i.length_of_encode? first
    obtain ⟨b, front, rfl⟩ : ∃ b front', front = b :: front' :=
      List.exists_cons_of_length_pos (size ▸ i.size_pos)
    have here : b :: front <+: b :: (front ++ rest) := List.prefix_append (b :: front) rest
    rw [List.cons_append, decodeFrom]
    by_cases last : n ∈ i.targets
    · refine ⟨[], e, es, rfl, by simp, head.mem_targets_iff.1 last, ?_⟩
      rw [decodeOne_end first here within last, ← head.offset]
      rfl
    · have read : decodeOne md n i.offset (b :: (front ++ rest)) = .ok i := by
        refine (decodeOne_eq_ok_iff nodup).2 ⟨rfl, fun t mem => ?_, _, here, first⟩
        exact (within t mem).lt_of_ne fun same => last (same ▸ mem)
      have drop : (b :: (front ++ rest)).drop i.size = rest := by
        rw [← List.cons_append, List.drop_left' size]
      have stray : ∃ i ∈ code, n ∈ i.targets := by
        obtain ⟨j, mem, there⟩ := stray
        rcases List.mem_cons.1 mem with rfl | mem
        · exact absurd there last
        · exact ⟨j, mem, there⟩
      obtain ⟨before, f, after, rfl, none, some, refused⟩ := ih others laid inside stray
      refine ⟨e :: before, f, after, rfl, List.forall_mem_cons.2 ⟨fun l mem same => ?_, none⟩,
        some, ?_⟩
      · exact last (head.mem_targets_iff.2 ⟨l, mem, same⟩)
      · simp only [read, drop, refused, bind, Except.bind]

lemma exists_answer (answers : List.Forall₂ (Answers md position?) es code) :
    (∀ e ∈ es, ∃ i ∈ code, Answers md position? e i) ∧
      ∀ i ∈ code, ∃ e ∈ es, Answers md position? e i := by
  induction answers with
  | nil => simp
  | cons head _ ih =>
    refine ⟨List.forall_mem_cons.2 ⟨⟨_, List.mem_cons_self, head⟩, fun e mem => ?_⟩,
      List.forall_mem_cons.2 ⟨⟨_, List.mem_cons_self, head⟩, fun i mem => ?_⟩⟩
    · obtain ⟨i, there, found⟩ := ih.1 e mem
      exact ⟨i, List.mem_cons_of_mem _ there, found⟩
    · obtain ⟨e, there, found⟩ := ih.2 i mem
      exact ⟨e, List.mem_cons_of_mem _ there, found⟩

lemma assembled_spec (nodup : md.strings.Nodup) {cs : List Command}
    {history : List (Nat × Command)} (run : ({} : Assembler).run? cs = some (history, z))
    (tokens : ∀ op t, .token op t ∈ cs → (key? md op t).isSome)
    (finished : z.finish = .ok bytes) (small : bytes.length < 2 ^ 31) :
    ∃ code, List.Forall₂ (Answers md (bound? history)) (emissions history) code ∧
      encode? md code = some bytes ∧ Laid 0 code ∧
      ∀ l p, bound? history l = some p → p = bytes.length ∨ ∃ i ∈ code, i.offset = p := by
  obtain ⟨items, whole, left, row, stop⟩ := Assembler.items_of_run? run
  obtain ⟨parts, filled, finished⟩ := except_bind_eq_ok_iff.1 finished
  obtain rfl := Except.ok.inj finished
  rw [whole, List.reverse_nil, List.nil_append, mapM_eq_ok_iff] at filled
  have bound : z.position? = bound? history := by
    funext l
    rw [Assembler.position?_run? run]
    simp [Assembler.position?]
  have len : parts.flatten.length = z.offset := by
    rw [Assembler.length_filled filled, stop, Nat.zero_add]
  have inside : ∀ l p, z.position? l = some p → p ≤ parts.flatten.length := by
    intro l p here
    rw [len]
    exact (Assembler.offset_of_run? run p
      (List.mem_cons_of_mem _ (Assembler.bound?_mem (bound ▸ here)))).1
  have tokens : ∀ e ∈ emissions history, ∀ op t, e.2 = .token op t → (key? md op t).isSome := by
    intro e mem op t same
    refine tokens op t ?_
    rw [← Assembler.commands_of_run? run, ← same]
    exact List.mem_map_of_mem (List.mem_of_mem_filter mem)
  obtain ⟨code, answers, encoded, laid⟩ :=
    exists_code nodup left filled tokens row (by rw [len, stop]) small inside
  rw [bound] at answers
  refine ⟨code, answers, encoded, laid, fun l p here => ?_⟩
  rw [len]
  refine (Assembler.offset_of_run? run p
    (List.mem_cons_of_mem _ (Assembler.bound?_mem here))).2.imp_right ?_
  rintro ⟨e, mem, rfl⟩
  obtain ⟨i, there, answer⟩ := (exists_answer answers).1 e mem
  exact ⟨i, there, answer.offset⟩

end Bodies

/-- What an assembler wrote is what a decoder reads.  If every label that is used is bound before an
emission, the body has one instruction for each emission, with the offset the assembler reported,
the opcode and operand that were asked for, and labels where they were bound.  If a label that is
used is bound at the very end, the body is refused at the first command that uses such a label. -/
theorem decode_assembled {md : Metadata} (built : md.Built) {cs : List Command}
    {history : List (Nat × Command)} {z : Assembler}
    (run : ({} : Assembler).run? cs = some (history, z))
    (tokens : ∀ op t, .token op t ∈ cs → (key? md op t).isSome) {bytes : List UInt8}
    (finished : z.finish = .ok bytes) (small : bytes.length < 2 ^ 31) :
    ((∀ c ∈ cs, ∀ l ∈ c.labels, ∃ p, bound? history l = some p ∧
        ∃ e ∈ emissions history, p ≤ e.1) →
      ∃ code, decode md bytes = .ok code ∧
        List.Forall₂ (Answers md (bound? history)) (emissions history) code) ∧
    ((∃ c ∈ cs, ∃ l ∈ c.labels, bound? history l = some bytes.length) →
      ∃ before e after, emissions history = before ++ e :: after ∧
        (∀ e ∈ before, ∀ l ∈ e.2.labels, bound? history l ≠ some bytes.length) ∧
        (∃ l ∈ e.2.labels, bound? history l = some bytes.length) ∧
        decode md bytes = .error (.badTarget e.1 bytes.length)) := by
  have nodup := built.strings_nodup
  obtain ⟨code, answers, encoded, laid, landing⟩ := assembled_spec nodup run tokens finished small
  have len := length_of_encode? encoded
  have offset_lt : ∀ i ∈ code, i.offset < bytes.length := by
    intro i mem
    have := offset_lt_of_laid laid mem
    omega
  have listed := Assembler.commands_of_run? run
  constructor
  · intro followed
    refine ⟨code, (decode_eq_ok_iff nodup).2 ⟨encoded, laid, fun i mem t target => ?_⟩, answers⟩
    obtain ⟨e, there, answer⟩ := (exists_answer answers).2 i mem
    obtain ⟨l, used, here⟩ := answer.mem_targets_iff.1 target
    have command : e.2 ∈ cs := listed ▸ List.mem_map_of_mem (List.mem_of_mem_filter there)
    obtain ⟨p, same, f, later, le⟩ := followed e.2 command l used
    obtain rfl : p = t := Option.some.inj (same.symm.trans here)
    obtain ⟨j, mem, answer⟩ := (exists_answer answers).1 f later
    have := answer.offset ▸ offset_lt j mem
    exact (landing l p here).resolve_left (by omega)
  · rintro ⟨c, command, l, used, here⟩
    have inside : ∀ i ∈ code, ∀ t ∈ i.targets, t ≤ bytes.length := by
      intro i mem t target
      obtain ⟨e, -, answer⟩ := (exists_answer answers).2 i mem
      obtain ⟨l, -, here⟩ := answer.mem_targets_iff.1 target
      rcases landing l t here with rfl | ⟨j, mem, rfl⟩
      · exact le_rfl
      · exact (offset_lt j mem).le
    have stray : ∃ i ∈ code, bytes.length ∈ i.targets := by
      rw [← listed] at command
      obtain ⟨e, there, rfl⟩ := List.mem_map.1 command
      have loud : e.2.emits = true := by
        cases same : e.2 <;> simp_all [Command.emits, Command.labels]
      obtain ⟨i, mem, answer⟩ := (exists_answer answers).1 e (List.mem_filter.2 ⟨there, loud⟩)
      exact ⟨i, mem, answer.mem_targets_iff.2 ⟨l, used, here⟩⟩
    obtain ⟨before, e, after, split, none, some, refused⟩ :=
      decodeFrom_end nodup answers encoded laid inside stray
    exact ⟨before, e, after, split, none, some, by simp only [decode, refused, bind, Except.bind]⟩

/-- A text and a table of labels before and behind it, and a branch to the very end. -/
theorem decode_assembled_branching :
    (∃ history z bytes, ({} : Assembler).run? [.newLabel, .newLabel, .bind 0,
        .token .ldstr 0x70000001, .switch [1, 0], .bind 1, .ldcI4 300, .branch .brS 1] =
          some (history, z) ∧
      z.finish = .ok bytes ∧ ∃ code, decode (Metadata.stringToken {} "a").2 bytes = .ok code ∧
        List.Forall₂ (Answers (Metadata.stringToken {} "a").2 (bound? history))
          (emissions history) code) ∧
    ∃ history z, ({} : Assembler).run? [.newLabel, .access .stloc 4, .branch .brS 0, .bind 0] =
        some (history, z) ∧ z.finish = .ok [0x13, 4, 0x2b, 0] ∧
      ∃ e ∈ emissions history,
        decode (Metadata.stringToken {} "a").2 [0x13, 4, 0x2b, 0] = .error (.badTarget e.1 4) := by
  have built : (Metadata.stringToken {} "a").2.Built := .stringToken "a" .empty
  constructor
  · refine ⟨_, _, [0x72, 1, 0, 0, 0x70, 0x45, 2, 0, 0, 0, 0, 0, 0, 0, 0xee, 0xff, 0xff, 0xff, 0x20,
      0x2c, 1, 0, 0, 0x2b, 0xf9], rfl, by decide +kernel, ?_⟩
    refine (@decode_assembled _ built [.newLabel, .newLabel, .bind 0, .token .ldstr 0x70000001,
      .switch [1, 0], .bind 1, .ldcI4 300, .branch .brS 1] _ _ rfl ?_ _ (by decide +kernel)
      (by decide)).1 (by decide)
    intro op t mem
    obtain ⟨rfl, rfl⟩ : op = .ldstr ∧ t = 0x70000001 := by simpa using mem
    decide
  · refine ⟨_, _, rfl, by decide +kernel, ?_⟩
    obtain ⟨before, e, after, split, -, -, refused⟩ := (@decode_assembled _ built
      [.newLabel, .access .stloc 4, .branch .brS 0, .bind 0] _ _ rfl (by simp)
      [0x13, 4, 0x2b, 0] (by decide +kernel) (by decide)).2 (by decide)
    exact ⟨e, split ▸ by simp, refused⟩

end FlatHeap.Bytecode
