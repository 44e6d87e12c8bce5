import FlatHeap.Proofs.Bytecode.Grammar
import FlatHeap.Proofs.Padding.Classes
import FlatHeap.Proofs.Rules.Remote

/-!
# Nops do not matter

Code is padded with instructions that do nothing.  Each instruction becomes a block of the padded code:
the nops inserted directly before it, and then the instruction itself, where every target names some
instruction of the block that belongs to the old target.  More nops may follow the last block.

The instructions that do something are the same in both codes, at other offsets.  A branch into a block
lands on the first instruction from there on that does something, which is the copy of the one on which
the old branch lands.  So the two codes are paired, and a class compiles to the same program with either
of them as the body of a method, or fails for the same cause up to offsets.
-/

namespace FlatHeap

namespace Bytecode

/-- An instruction, and what stands for it in padded code. -/
structure Block where
  /-- The instruction. -/
  original : Instruction
  /-- Nops inserted before it. -/
  pads : List Instruction
  /-- The instruction in the padded code. -/
  copy : Instruction
  pads_nop : ∀ i ∈ pads, i.opcode = .nop
  opcode : copy.opcode = original.opcode

def Block.code (b : Block) : List Instruction := b.pads ++ [b.copy]

/-- A target of the code, and a target of the padded code in the block that stands for it. -/
def Names (blocks : List Block) (t t' : Nat) : Prop :=
  ∃ b ∈ blocks, b.original.offset = t ∧ ∃ i ∈ b.code, i.offset = t'

/-- A way to get a code from another one by inserting nops. -/
structure Padding (code code' : List Instruction) where
  /-- Blocks of the padded code. -/
  blocks : List Block
  /-- Nops behind the last block. -/
  tail : List Instruction
  original : code = blocks.map (·.original)
  padded : code' = blocks.flatMap (·.code) ++ tail
  tail_nop : ∀ i ∈ tail, i.opcode = .nop
  operand : ∀ b ∈ blocks, b.original.operand.Follows (Names blocks) b.copy.operand

/-! ## Where instructions stand -/

variable {md : Metadata} {bytes bytes' : List UInt8} {code code' : List Instruction} {n start : Nat}

lemma laid_of_decodeFrom (h : decodeFrom md n start bytes = .ok code) :
    Laid start code ∧ ∀ i ∈ code, i.offset < start + bytes.length := by
  induction start, bytes using decodeFrom.induct generalizing code with
  | case1 start =>
    rw [decodeFrom] at h
    obtain rfl := Except.ok.inj h
    exact ⟨by simp [Laid], List.forall_mem_nil _⟩
  | case2 start b rest ih =>
    rw [decodeFrom] at h
    obtain ⟨i, one, h⟩ := except_bind_eq_ok_iff.1 h
    obtain ⟨others, more, h⟩ := except_bind_eq_ok_iff.1 h
    obtain rfl := Except.ok.inj h
    obtain ⟨laid, inside⟩ := ih i more
    have here := offset_of_decodeOne one
    refine ⟨laid_cons_iff.2 ⟨here, laid⟩, List.forall_mem_cons.2 ⟨by simp [here], fun j mem => ?_⟩⟩
    have behind := inside j mem
    rw [List.length_drop] at behind
    by_cases enough : i.size ≤ (b :: rest).length
    · omega
    · rw [List.drop_eq_nil_of_le (by omega), decodeFrom] at more
      obtain rfl := Except.ok.inj more
      cases mem

lemma laid_of_decode (h : decode md bytes = .ok code) :
    Laid 0 code ∧ ∀ i ∈ code, i.offset < bytes.length := by
  obtain ⟨code', read, h⟩ := except_bind_eq_ok_iff.1 h
  split at h
  · cases h
  · obtain rfl := Except.ok.inj h
    simpa using laid_of_decodeFrom read

lemma live_append (code others : List Instruction) :
    live (code ++ others) = live code ++ live others := List.filter_append ..

lemma live_eq_nil (nops : ∀ i ∈ code, i.opcode = .nop) : live code = [] :=
  List.filter_eq_nil_iff.2 fun i mem => by simp [nops i mem]

lemma landingOffset_of_split {front rest : List Instruction} {i : Instruction}
    (increasing : (front ++ i :: rest).Pairwise fun a b => a.offset < b.offset) :
    landingOffset (front ++ i :: rest) i.offset =
      ((live (i :: rest)).head?.map (·.offset)).getD endOfBody := by
  have before : ∀ j ∈ front, (j.offset != i.offset) = true := fun j mem => by
    simpa using ((List.pairwise_append.1 increasing).2.2 j mem i List.mem_cons_self).ne
  have here : (front ++ i :: rest).dropWhile (·.offset != i.offset) = i :: rest := by
    rw [List.dropWhile_append_of_pos before, List.dropWhile_cons_of_neg (by simp)]
  simp only [landingOffset, here, live, List.head?_filter]

namespace Block

variable (b : Block) (blocks : List Block)

def busy : Bool := b.original.opcode != .nop

lemma size_copy {R : Nat → Nat → Prop} (operand : b.original.operand.Follows R b.copy.operand) :
    b.copy.size = b.original.size := by
  rw [Instruction.size, Instruction.size, b.opcode, operand.targets.length_eq]

lemma sum_sizes_le (sizes : ∀ b ∈ blocks, b.copy.size = b.original.size) :
    ((blocks.map (·.original)).map (·.size)).sum ≤ ((blocks.flatMap (·.code)).map (·.size)).sum := by
  induction blocks with
  | nil => exact le_rfl
  | cons b blocks ih =>
    obtain ⟨size, sizes⟩ := List.forall_mem_cons.1 sizes
    have here : (b.code.map (·.size)).sum = (b.pads.map (·.size)).sum + b.original.size := by
      simp [code, size]
    have others := ih sizes
    rw [List.map_cons, List.map_cons, List.sum_cons, List.flatMap_cons, List.map_append,
      List.sum_append, here]
    omega

lemma live_code : live b.code = if b.busy then [b.copy] else [] := by
  rw [code, live_append, live_eq_nil b.pads_nop, List.nil_append, live, List.filter_cons, b.opcode]
  rfl

lemma live_from {front rest : List Instruction} {i : Instruction}
    (split : b.code = front ++ i :: rest) : live (i :: rest) = live b.code := by
  have front_nop : live front = [] := by
    have inside : front <+: b.pads ++ [b.copy] := ⟨i :: rest, split.symm⟩
    rcases List.prefix_concat_iff.1 inside with whole | inside
    · rw [code, whole] at split
      simp at split
    · exact live_eq_nil fun j mem => b.pads_nop j (inside.subset mem)
  rw [split, live_append, front_nop, List.nil_append]

lemma live_originals : live (blocks.map (·.original)) = (blocks.filter busy).map (·.original) :=
  List.filter_map ..

lemma live_copies : live (blocks.flatMap (·.code)) = (blocks.filter busy).map (·.copy) := by
  induction blocks with
  | nil => rfl
  | cons b blocks ih =>
    rw [List.flatMap_cons, live_append, live_code, ih, List.filter_cons]
    split <;> rfl

end Block

namespace Padding

variable (p : Padding code code')

lemma live_original : live code = (p.blocks.filter Block.busy).map (·.original) :=
  (congrArg live p.original).trans (Block.live_originals p.blocks)

lemma live_padded : live code' = (p.blocks.filter Block.busy).map (·.copy) := by
  refine (congrArg live p.padded).trans ?_
  rw [live_append, Block.live_copies, live_eq_nil p.tail_nop, List.append_nil]

def Same (a a' : Nat) : Prop :=
  (∃ b ∈ p.blocks, a = b.original.offset ∧ a' = b.copy.offset) ∨ a = endOfBody ∧ a' = endOfBody

variable {p}

lemma exists_split {b : Block} (mem : b ∈ p.blocks) :
    ∃ before behind, p.blocks = before ++ b :: behind ∧
      code = before.map (·.original) ++ b.original :: behind.map (·.original) ∧
      code' = before.flatMap (·.code) ++ (b.code ++ (behind.flatMap (·.code) ++ p.tail)) := by
  obtain ⟨before, behind, blocks⟩ := List.append_of_mem mem
  refine ⟨before, behind, blocks, ?_, p.padded.trans ?_⟩
  · rw [p.original, blocks, List.map_append, List.map_cons]
  · rw [blocks, List.flatMap_append, List.flatMap_cons, List.append_assoc, List.append_assoc]

/-- **Branches land at the same places.** -/
lemma same_landing (wf : WellFormed code) (wf' : WellFormed code') {t t' : Nat}
    (names : Names p.blocks t t') : p.Same (landingOffset code t) (landingOffset code' t') := by
  obtain ⟨b, mem, rfl, i, here, rfl⟩ := names
  obtain ⟨before, behind, blocks, code_eq, code'_eq⟩ := exists_split mem
  obtain ⟨front, rest, split⟩ := List.append_of_mem here
  have code'_eq : code' = (before.flatMap (·.code) ++ front) ++
      i :: (rest ++ behind.flatMap (·.code) ++ p.tail) := by
    simpa only [split, List.append_assoc, List.cons_append] using code'_eq
  -- on both sides the first block from `b` on that does something decides
  have lands : landingOffset code b.original.offset =
      ((((b :: behind).filter Block.busy).map (·.original)).head?.map (·.offset)).getD endOfBody := by
    rw [code_eq, landingOffset_of_split (code_eq ▸ wf.increasing), ← Block.live_originals,
      List.map_cons]
  have lands' : landingOffset code' i.offset =
      ((((b :: behind).filter Block.busy).map (·.copy)).head?.map (·.offset)).getD endOfBody := by
    rw [code'_eq, landingOffset_of_split (code'_eq ▸ wf'.increasing), ← Block.live_copies,
      List.flatMap_cons, ← List.cons_append, ← List.cons_append, live_append, live_append, live_append,
      b.live_from split, live_eq_nil p.tail_nop, List.append_nil]
  rw [lands, lands']
  cases first : (b :: behind).filter Block.busy with
  | nil => exact .inr ⟨rfl, rfl⟩
  | cons c others =>
    have found : c ∈ b :: behind := List.mem_of_mem_filter (first ▸ List.mem_cons_self)
    exact .inl ⟨c, by rw [blocks]; exact List.mem_append_right _ found, rfl, rfl⟩

lemma offset_le (laid : Laid 0 code) (laid' : Laid 0 code') {b : Block} (mem : b ∈ p.blocks) :
    b.original.offset ≤ b.copy.offset := by
  obtain ⟨before, behind, blocks, code_eq, code'_eq⟩ := exists_split mem
  have here := laid _ _ _ code_eq
  have here' := laid' (before.flatMap (·.code) ++ b.pads) b.copy (behind.flatMap (·.code) ++ p.tail)
    (by simpa [Block.code] using code'_eq)
  have le := Block.sum_sizes_le before fun c mem =>
    c.size_copy (p.operand c (by rw [blocks]; exact List.mem_append_left _ mem))
  rw [here, here', List.map_append, List.sum_append]
  omega

lemma le_iff_of_mem (wf : WellFormed code) (wf' : WellFormed code') {b c : Block} (mem : b ∈ p.blocks)
    (mem' : c ∈ p.blocks) :
    b.original.offset ≤ c.original.offset ↔ b.copy.offset ≤ c.copy.offset := by
  have originals : p.blocks.Pairwise fun b c => b.original.offset < c.original.offset := by
    have increasing := wf.increasing
    rwa [p.original, List.pairwise_map] at increasing
  have copies : p.blocks.Pairwise fun b c => b.copy.offset < c.copy.offset := by
    have blocks := (List.pairwise_append.1 (p.padded ▸ wf'.increasing)).1
    refine (List.pairwise_flatMap.1 blocks).2.imp fun less => less _ ?_ _ ?_ <;> simp [Block.code]
  have both := originals.and copies
  have ahead : p.blocks.Pairwise fun b c =>
      b.original.offset ≤ c.original.offset ↔ b.copy.offset ≤ c.copy.offset :=
    both.imp fun less => iff_of_true less.1.le less.2.le
  have back : p.blocks.Pairwise fun c b =>
      b.original.offset ≤ c.original.offset ↔ b.copy.offset ≤ c.copy.offset :=
    both.imp fun less => iff_of_false less.1.not_ge less.2.not_ge
  refine ahead.forall_of_forall_of_flip ?_ back mem mem'
  exact fun _ _ => iff_of_true le_rfl le_rfl

lemma same_le_iff (wf : WellFormed code) (wf' : WellFormed code')
    (short : ∀ b ∈ p.blocks, b.original.offset < endOfBody ∧ b.copy.offset < endOfBody)
    {a a' b b' : Nat} (h : p.Same a a') (h' : p.Same b b') : a ≤ b ↔ a' ≤ b' := by
  rcases h with ⟨x, mem, rfl, rfl⟩ | ⟨rfl, rfl⟩ <;> rcases h' with ⟨y, mem', rfl, rfl⟩ | ⟨rfl, rfl⟩
  · exact le_iff_of_mem wf wf' mem mem'
  · exact iff_of_true (short x mem).1.le (short x mem).2.le
  · exact iff_of_false (short y mem').1.not_ge (short y mem').2.not_ge
  · exact Iff.rfl

lemma images (wf : WellFormed code) (wf' : WellFormed code') (decoded : ∀ i ∈ code, i.Decoded) :
    List.Forall₂
      (Counterpart p.Same fun t t' => p.Same (landingOffset code t) (landingOffset code' t'))
      (live code) (live code') := by
  rw [p.live_original, p.live_padded, List.forall₂_map_left_iff, List.forall₂_map_right_iff,
    List.forall₂_same]
  intro b mem
  have mem := List.mem_of_mem_filter mem
  have named : Counterpart p.Same (Names p.blocks) b.original b.copy :=
    ⟨b.opcode, .inl ⟨b, mem, rfl, rfl⟩, p.operand b mem,
      decoded _ (p.original ▸ List.mem_map_of_mem mem)⟩
  exact named.relate fun t _ t' _ names => same_landing wf wf' names

/-- **Padded code does the same** as the code it comes from. -/
lemma interchangeable (p : Padding code code') (read : decode md bytes = .ok code)
    (read' : decode md bytes' = .ok code') (small : bytes'.length ≤ endOfBody) :
    Interchangeable code code' := by
  obtain ⟨laid, -⟩ := laid_of_decode read
  obtain ⟨laid', inside⟩ := laid_of_decode read'
  have wf := wellFormed_of_decode read
  have wf' := wellFormed_of_decode read'
  -- the padded code is the longer one, so both are short enough
  have copied : ∀ i ∈ code', i.offset < endOfBody := fun i mem => (inside i mem).trans_le small
  have copies : ∀ b ∈ p.blocks, b.copy ∈ code' := fun b mem => by
    refine p.padded ▸ List.mem_append_left _ (List.mem_flatMap.2 ⟨b, mem, ?_⟩)
    simp [Block.code]
  have short : ∀ b ∈ p.blocks, b.original.offset < endOfBody ∧ b.copy.offset < endOfBody :=
    fun b mem => ⟨(offset_le laid laid' mem).trans_lt (copied _ (copies b mem)),
      copied _ (copies b mem)⟩
  have originals : ∀ i ∈ code, i.offset < endOfBody := fun i mem => by
    rw [p.original] at mem
    obtain ⟨b, block, rfl⟩ := List.mem_map.1 mem
    exact (short b block).1
  refine ⟨⟨⟨p.Same, .inr ⟨rfl, rfl⟩, same_le_iff wf wf' short, images wf wf' (decoded_of_decode read),
    decoded_of_decode read, decoded_of_decode read'⟩⟩, ?_⟩
  rw [Bool.eq_iff_iff]
  simpa [List.any_eq_true] using iff_of_false (by simpa using copied) (by simpa using originals)

end Padding

end Bytecode

open Bytecode (Instruction)

/-! ## Classes with a padded method -/

variable {md : Metadata} {m : MethodRef} {body : MethodBody} {bytes : List UInt8}

lemma Metadata.setBody_eq_recode (has : (md.method m).body = some body) :
    md.setBody m { body with code := bytes } =
      md.recode fun k code => if k = m then bytes else code := by
  have methods : md.methods.setIfInBounds m.index
      { md.method m with body := some { body with code := bytes } } =
        md.methods.mapIdx fun k decl => decl.recode fun code => if ⟨k⟩ = m then bytes else code := by
    refine Array.ext_getElem? fun k => ?_
    rw [Array.getElem?_setIfInBounds, Array.getElem?_mapIdx]
    rcases Nat.lt_or_ge k md.methods.size with inside | outside
    · rw [Array.getElem?_eq_getElem inside]
      by_cases here : m.index = k
      · subst here
        have decl : md.method m = md.methods[m.index] := by simp [method, inside]
        rw [if_pos rfl, if_pos inside, Option.map_some, ← decl, MethodDecl.recode, has]
        simp
      · have other : (⟨k⟩ : MethodRef) ≠ m := fun e => here (congrArg MethodRef.index e).symm
        simp [here, other, MethodDecl.recode]
    · rw [Array.getElem?_eq_none outside, Option.map_none, ite_eq_right_iff]
      exact fun here => if_neg (by omega)
  rw [setBody, recode, methods]

lemma Metadata.maintains_padded {code code' : List Instruction}
    (notCtor : (md.method m).isCtor = false) (has : (md.method m).body = some body)
    (read : Bytecode.decode md body.code = .ok code) (read' : Bytecode.decode md bytes = .ok code')
    (same : Bytecode.Interchangeable code code') :
    md.Maintains fun k code => if k = m then bytes else code where
  ctors k other ctor := by
    refine if_neg ?_
    rintro rfl
    simp [notCtor] at ctor
  bodies k other hask := by
    by_cases here : k = m
    · subst here
      obtain rfl := Option.some.inj (has.symm.trans hask)
      exact .inr ⟨code, code', read, by simpa using read', same⟩
    · exact .inl (if_neg here)

/-- **Nops do not matter.**  Let the body of one method, not a constructor, be replaced by one with
nops inserted before its instructions or behind the last one, where targets name the same instructions
as before or nops inserted directly before them.  The size of a body is a number of 32 bits, as offsets
are.  Without a source map, every class compiles to the same program as before, or fails with the same
error up to the offsets it mentions. -/
theorem compile_ignores_nops {o : Options} (off : o.sourceMap = false) (t : TypeRef)
    {code code' : List Instruction} (notCtor : (md.method m).isCtor = false)
    (has : (md.method m).body = some body) (read : Bytecode.decode md body.code = .ok code)
    (read' : Bytecode.decode md bytes = .ok code') (padded : Nonempty (Bytecode.Padding code code'))
    (small : bytes.length < 2 ^ 32) :
    ((Compiler.new o).compile (md.setBody m { body with code := bytes }) t).1.mapError
        CompileError.blur =
      ((Compiler.new o).compile md t).1.mapError CompileError.blur := by
  obtain ⟨p⟩ := padded
  have same := p.interchangeable read read' (Nat.le_pred_of_lt small)
  rw [Metadata.setBody_eq_recode has]
  exact (Compiler.matched_compile (Metadata.maintains_padded notCtor has read read' same) off
    t).mapError_blur

/-- A way to pad a method that returns 5, or 6 if its parameter is not zero.  Its branch leads to a
nop. -/
def Bytecode.choosingPadding : Padding
    [⟨0, .ldarg1, .arg 1⟩, ⟨1, .brtrueS, .target 5⟩, ⟨3, .ldcI45, .int32 5⟩, ⟨4, .ret, .none⟩,
      ⟨5, .ldcI46, .int32 6⟩, ⟨6, .ret, .none⟩]
    [⟨0, .ldarg1, .arg 1⟩, ⟨1, .nop, .none⟩, ⟨2, .brtrueS, .target 6⟩, ⟨4, .ldcI45, .int32 5⟩,
      ⟨5, .ret, .none⟩, ⟨6, .nop, .none⟩, ⟨7, .ldcI46, .int32 6⟩, ⟨8, .ret, .none⟩,
      ⟨9, .nop, .none⟩] where
  blocks :=
    [⟨⟨0, .ldarg1, .arg 1⟩, [], ⟨0, .ldarg1, .arg 1⟩, by decide, rfl⟩,
      ⟨⟨1, .brtrueS, .target 5⟩, [⟨1, .nop, .none⟩], ⟨2, .brtrueS, .target 6⟩, by decide, rfl⟩,
      ⟨⟨3, .ldcI45, .int32 5⟩, [], ⟨4, .ldcI45, .int32 5⟩, by decide, rfl⟩,
      ⟨⟨4, .ret, .none⟩, [], ⟨5, .ret, .none⟩, by decide, rfl⟩,
      ⟨⟨5, .ldcI46, .int32 6⟩, [⟨6, .nop, .none⟩], ⟨7, .ldcI46, .int32 6⟩, by decide, rfl⟩,
      ⟨⟨6, .ret, .none⟩, [], ⟨8, .ret, .none⟩, by decide, rfl⟩]
  tail := [⟨9, .nop, .none⟩]
  original := rfl
  padded := rfl
  tail_nop := by decide
  operand := by
    simp only [List.forall_mem_cons]
    refine ⟨.same (by simp) (by simp), .target ?_, .same (by simp) (by simp), .same (by simp) (by simp),
      .same (by simp) (by simp), .same (by simp) (by simp), List.forall_mem_nil _⟩
    simp [Names, Block.code]

/-- The padded method compiles to the same program. -/
theorem compile_ignores_nops_choosing :
    let md := Compiler.answering [0x03, 0x2d, 2, 0x1b, 0x2a, 0x1c, 0x2a]
    let bytes : List UInt8 := [0x03, 0, 0x2d, 2, 0x1b, 0x2a, 0, 0x1c, 0x2a, 0]
    ∃ p, ((Compiler.new { sourceMap := false }).compile md ⟨16⟩).1 = .ok p ∧
      ((Compiler.new { sourceMap := false }).compile (md.setBody ⟨0⟩ { code := bytes }) ⟨16⟩).1 =
        .ok p := by
  intro md bytes
  obtain ⟨p, compiled⟩ : ∃ p, ((Compiler.new { sourceMap := false }).compile md ⟨16⟩).1 = .ok p := by
    apply exists_ok_of_isSome
    decide +kernel
  have has : (md.method ⟨0⟩).body = some { code := [0x03, 0x2d, 2, 0x1b, 0x2a, 0x1c, 0x2a] } := rfl
  have small : bytes.length < 2 ^ 32 := by decide
  have same := compile_ignores_nops (o := { sourceMap := false }) rfl ⟨16⟩ rfl has
    (by decide +kernel) (by decide +kernel) ⟨Bytecode.choosingPadding⟩ small
  exact ⟨p, compiled, mapError_eq_ok_iff.1 (same.trans (mapError_eq_ok_iff.2 compiled))⟩

end FlatHeap
