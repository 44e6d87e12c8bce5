import FlatHeap.Compiler
import FlatHeap.Proofs.Failure

/-!
# Sessions

A compiler is asked for classes and for whole programs, one request after another, and keeps its
rules in between.  The rules of a class are entered among the others by priority and taken out
again, also where the class is refused half way.  What carries a session is that taking out the
rules of a class restores any rulebook whose own rules are all permanent; the standard one is such.
-/

namespace FlatHeap

open Bytecode (Opcode)

variable {c : Compiler}

namespace Rulebook

variable {b : Rulebook}

def Lasting (b : Rulebook) : Prop := ∀ e ∈ b.entries, e.scope = .permanent

theorem mem_insertEntry {e x : RuleEntry} {entries : List RuleEntry} :
    x ∈ insertEntry e entries ↔ x = e ∨ x ∈ entries := by
  fun_induction insertEntry e entries with
  | case1 => simp
  | case2 y rest _ ih =>
    rw [List.mem_cons, ih, List.mem_cons]
    exact or_left_comm
  | case3 y rest _ => exact List.mem_cons

/-- Where an entry that a test refuses was inserted cannot be seen behind the test. -/
theorem filter_insertEntry {p : RuleEntry → Bool} {e : RuleEntry} (refused : p e = false)
    (entries : List RuleEntry) : (insertEntry e entries).filter p = entries.filter p := by
  fun_induction insertEntry e entries with
  | case1 => simp [refused]
  | case2 y rest _ ih => rw [List.filter_cons, List.filter_cons, ih]
  | case3 y rest _ => simp [List.filter_cons, refused]

theorem Lasting.register (lasting : b.Lasting) (opcodes : List Opcode) (priority : Int)
    (rule : Rule) : (b.register opcodes priority .permanent rule).Lasting := by
  intro e mem
  rcases mem_insertEntry.mp mem with rfl | mem
  · rfl
  · exact lasting e mem

theorem Lasting.dropClassRules (lasting : b.Lasting) : b.dropClassRules = b := by
  have kept : b.entries.filter (·.scope == .permanent) = b.entries :=
    List.filter_eq_self.mpr fun e mem => by simp [lasting e mem]
  rw [Rulebook.dropClassRules, kept]

end Rulebook

namespace Compiler

end Compiler

/-- What a compiler is asked for: one class, or all classes of a program. -/
inductive Request where
  | one (md : Metadata) (t : TypeRef)
  | all (md : Metadata)

inductive Answer where
  | one (result : Except CompileError Host.Program)
  | all (results : List (TypeRef × Except CompileError Host.Program))

namespace Compiler

def answer (c : Compiler) : Request → Answer × Compiler
  | .one md t => let (result, c) := c.compile md t; (.one result, c)
  | .all md => let (results, c) := c.compileAll md; (.all results, c)

end Compiler

end FlatHeap
