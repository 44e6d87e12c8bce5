import Mathlib.Data.List.Chain
import Mathlib.Data.List.Perm.Subperm
import Mathlib.Logic.Relation
import Mathlib.Tactic
import FlatHeap.Lowering.Draft
import FlatHeap.Proofs.Failure

/-!
# The search for call cycles is exact

The recorded calls are a relation between methods.  The search goes depth first from every caller, and
two things are true of it all the time.  The methods that are done with are listed so that each one only
calls methods behind it (`Calls.Settled`), whence none of them leads into a cycle, and a method is put
in front of the list when all it calls is in there.  The path is a chain of calls without repetitions
that avoids the list (`Calls.Searching`), so when a method turns up that is on the path already, the
path closes to a cycle there.

A path has no repetitions and consists of methods that occur in the calls.  There are at most twice as
many of these as there are calls, so the depth that the search is given is never used up.
-/

namespace FlatHeap

open Relation

namespace Calls

variable {calls : Calls} {path done done' cycle : List MethodRef} {m k : MethodRef} {fuel : Nat}

def Calling (calls : Calls) (caller callee : MethodRef) : Prop := (caller, callee) ∈ calls

/-- The methods call each other in turn, and the last one calls the first. -/
def IsCycle (calls : Calls) (cycle : List MethodRef) : Prop :=
  ∃ first rest, cycle = first :: rest ∧ (cycle ++ [first]).IsChain calls.Calling

def methods (calls : Calls) : List MethodRef := calls.flatMap fun c => [c.1, c.2]

lemma mem_record {c : MethodRef × MethodRef} :
    c ∈ calls.record m k ↔ c ∈ calls ∨ c = (m, k) := by
  unfold record
  split_ifs with h
  · rw [List.contains_iff_mem] at h
    exact ⟨.inl, fun hc => hc.elim id fun e => e ▸ h⟩
  · simp

@[simp] lemma mem_callees : k ∈ calls.callees m ↔ calls.Calling m k := by
  simp only [callees, List.mem_filterMap, Calling, Prod.exists, Option.ite_none_right_eq_some,
    beq_iff_eq, Option.some.injEq]
  constructor
  · rintro ⟨a, b, hmem, rfl, rfl⟩
    exact hmem
  · exact fun h => ⟨m, k, h, rfl, rfl⟩

lemma length_methods (calls : Calls) : calls.methods.length = 2 * calls.length := by
  induction calls with
  | nil => rfl
  | cons c calls ih =>
    change (methods calls).length + 1 + 1 = 2 * (calls.length + 1)
    omega

lemma Calling.caller_mem (h : calls.Calling m k) : m ∈ calls.methods :=
  List.mem_flatMap.2 ⟨(m, k), h, by simp⟩

lemma Calling.callee_mem (h : calls.Calling m k) : k ∈ calls.methods :=
  List.mem_flatMap.2 ⟨(m, k), h, by simp⟩

/-! ## Methods that are done with -/

/-- Every method of the list only calls methods behind it. -/
inductive Settled (calls : Calls) : List MethodRef → Prop
  | nil : Settled calls []
  | cons {m : MethodRef} {done : List MethodRef} (new : m ∉ done)
    (known : ∀ k, calls.Calling m k → k ∈ done) (rest : Settled calls done) :
    Settled calls (m :: done)

namespace Settled

lemma mem_of_calling (h : Settled calls done) (hm : m ∈ done) (hcall : calls.Calling m k) :
    k ∈ done := by
  induction h with
  | nil => exact absurd hm List.not_mem_nil
  | cons _ known _ ih =>
    rcases List.mem_cons.1 hm with rfl | hm
    · exact List.mem_cons_of_mem _ (known k hcall)
    · exact List.mem_cons_of_mem _ (ih hm)

lemma mem_of_transGen (h : Settled calls done) (hm : m ∈ done)
    (hway : TransGen calls.Calling m k) : k ∈ done := by
  induction hway with
  | single hcall => exact h.mem_of_calling hm hcall
  | tail _ hcall ih => exact h.mem_of_calling ih hcall

lemma no_return (h : Settled calls done) (hm : m ∈ done) : ¬ TransGen calls.Calling m m := by
  induction h with
  | nil => exact absurd hm List.not_mem_nil
  | cons new known rest ih =>
    rcases List.mem_cons.1 hm with rfl | hm
    · intro hway
      -- The first call leads behind the method, and from there is no way back.
      obtain ⟨k, hcall, hback⟩ := TransGen.head'_iff.1 hway
      rcases reflTransGen_iff_eq_or_transGen.1 hback with rfl | hback
      · exact new (known _ hcall)
      · exact new (rest.mem_of_transGen (known k hcall) hback)
    · exact ih hm

end Settled

/-! ## The search -/

/-- Where the search stands below a path when it comes to a method. -/
structure Searching (calls : Calls) (fuel : Nat) (path done : List MethodRef) (m : MethodRef) :
    Prop where
  settled : Settled calls done
  apart : ∀ p ∈ path, p ∉ done
  chain : (path ++ [m]).IsChain calls.Calling
  nodup : path.Nodup
  known : ∀ p ∈ path ++ [m], p ∈ calls.methods
  deep : calls.methods.length < path.length + fuel

/-- What is known below a path when some methods have been searched and no cycle was found. -/
structure Searched (calls : Calls) (path done ms done' : List MethodRef) : Prop where
  settled : Settled calls done'
  apart : ∀ p ∈ path, p ∉ done'
  kept : ∀ p ∈ done, p ∈ done'
  reached : ∀ m ∈ ms, m ∈ done'

/-- The search finds a cycle, or else something holds of the methods that are done with. -/
def Finds (calls : Calls) (Q : List MethodRef → Prop) :
    Except (List MethodRef) (List MethodRef) → Prop
  | .ok done => Q done
  | .error cycle => calls.IsCycle cycle

lemma Finds.bind {Q R : List MethodRef → Prop} {x : Except (List MethodRef) (List MethodRef)}
    {f : List MethodRef → Except (List MethodRef) (List MethodRef)} (hx : Finds calls Q x)
    (hf : ∀ done, Q done → Finds calls R (f done)) : Finds calls R (x >>= f) := by
  cases x with
  | error cycle => exact hx
  | ok done => exact hf done hx

lemma Finds.imp {Q R : List MethodRef → Prop} {x : Except (List MethodRef) (List MethodRef)}
    (hx : Finds calls Q x) (h : ∀ done, Q done → R done) : Finds calls R x := by
  cases x with
  | error cycle => exact hx
  | ok done => exact h done hx

lemma Searching.fuel_pos (h : Searching calls fuel path done m) : 0 < fuel := by
  have hsub : path ⊆ calls.methods := fun p hp => h.known p (List.mem_append_left _ hp)
  have hlen : path.length ≤ calls.methods.length := (h.nodup.subperm hsub).length_le
  have hdeep := h.deep
  omega

lemma Searching.below (h : Searching calls (fuel + 1) path done m) (hm : m ∉ path)
    (hdone : Settled calls done') (hapart : ∀ p ∈ path ++ [m], p ∉ done')
    (hcall : calls.Calling m k) : Searching calls fuel (path ++ [m]) done' k := by
  refine ⟨hdone, hapart, ?_, ?_, fun p hp => ?_, ?_⟩
  · refine h.chain.append (List.IsChain.singleton k) fun a ha b hb => ?_
    obtain rfl : m = a := by simpa using ha
    obtain rfl : k = b := by simpa using hb
    exact hcall
  · refine List.nodup_append.2 ⟨h.nodup, List.nodup_singleton m, fun p hp q hq heq => ?_⟩
    rw [List.mem_singleton.1 hq] at heq
    exact hm (heq ▸ hp)
  · rcases List.mem_append.1 hp with hp | hp
    · exact h.known p hp
    · rw [List.mem_singleton.1 hp]
      exact hcall.callee_mem
  · have hdeep := h.deep
    rw [List.length_append, List.length_singleton]
    omega

lemma isCycle_of_mem (hchain : (path ++ [m]).IsChain calls.Calling) (hm : m ∈ path) :
    calls.IsCycle (path.dropWhile (· != m)) := by
  obtain ⟨before, behind, rfl, hnew⟩ := List.eq_append_cons_of_mem hm
  have hdrop : (before ++ m :: behind).dropWhile (· != m) = m :: behind := by
    rw [List.dropWhile_append_of_pos, List.dropWhile_cons_of_neg (by simp)]
    intro p hp
    rw [bne_iff_ne]
    rintro rfl
    exact hnew hp
  refine ⟨m, behind, hdrop, ?_⟩
  rw [hdrop]
  rw [List.append_assoc] at hchain
  exact hchain.right_of_append

/-- **Several visits**, by induction on the methods that are still to be visited. -/
lemma visitAll_finds (hvisit : ∀ done m, Searching calls fuel path done m →
      Finds calls (Searched calls path done [m]) (calls.visit fuel path done m))
    {ms : List MethodRef} (hms : ∀ done, Settled calls done → (∀ p ∈ path, p ∉ done) →
      ∀ m ∈ ms, Searching calls fuel path done m)
    (hdone : Settled calls done) (hapart : ∀ p ∈ path, p ∉ done) :
    Finds calls (Searched calls path done ms) (ms.foldlM (calls.visit fuel path) done) := by
  induction ms generalizing done with
  | nil => exact ⟨hdone, hapart, fun _ => id, fun m hm => absurd hm List.not_mem_nil⟩
  | cons m ms ih =>
    rw [List.foldlM_cons]
    refine (hvisit done m (hms done hdone hapart m List.mem_cons_self)).bind fun done₁ h₁ => ?_
    have hrest := ih (fun done hd ha k hk => hms done hd ha k (List.mem_cons_of_mem m hk))
      h₁.settled h₁.apart
    refine hrest.imp fun done₂ h₂ =>
      ⟨h₂.settled, h₂.apart, fun p hp => h₂.kept p (h₁.kept p hp), fun k hk => ?_⟩
    rcases List.mem_cons.1 hk with rfl | hk
    · exact h₂.kept k (h₁.reached k List.mem_cons_self)
    · exact h₂.reached k hk

/-- **One visit.** -/
lemma visit_finds (h : Searching calls fuel path done m) :
    Finds calls (Searched calls path done [m]) (calls.visit fuel path done m) := by
  induction fuel generalizing path done m with
  | zero => exact absurd h.fuel_pos (lt_irrefl 0)
  | succ fuel ih =>
    rw [visit]
    split_ifs with hdone hpath
    · exact ⟨h.settled, h.apart, fun _ => id, by simpa using hdone⟩
    · exact isCycle_of_mem h.chain (List.contains_iff_mem.1 hpath)
    rw [List.contains_iff_mem] at hdone hpath
    have hapart : ∀ p ∈ path ++ [m], p ∉ done := by
      intro p hp
      rcases List.mem_append.1 hp with hp | hp
      · exact h.apart p hp
      · rwa [List.mem_singleton.1 hp]
    refine (visitAll_finds (fun done' k => ih) (fun done' hd ha k hk =>
      h.below hpath hd ha (mem_callees.1 hk)) h.settled hapart).bind fun done' h' => ?_
    -- Everything that the method calls is done with, and the method itself is not.
    refine ⟨.cons (h'.apart m (by simp)) (fun k hk => h'.reached k (mem_callees.2 hk)) h'.settled,
      fun p hp hin => ?_, fun p hp => List.mem_cons_of_mem m (h'.kept p hp), by simp⟩
    rcases List.mem_cons.1 hin with rfl | hin
    · exact hpath hp
    · exact h'.apart p (List.mem_append_left _ hp) hin

lemma search_finds (calls : Calls) : Finds calls (Searched calls [] [] (calls.map Prod.fst))
    (calls.foldlM (fun done c => calls.visit calls.depth [] done c.1) []) := by
  have hfold : calls.foldlM (fun done c => calls.visit calls.depth [] done c.1) [] =
      (calls.map Prod.fst).foldlM (calls.visit calls.depth []) [] := List.foldlM_map.symm
  rw [hfold]
  refine visitAll_finds (fun _ _ => visit_finds) (fun done hd ha m hm => ?_) .nil (by simp)
  obtain ⟨c, hc, rfl⟩ := List.mem_map.1 hm
  refine ⟨hd, ha, List.IsChain.singleton _, List.nodup_nil, fun p hp => ?_, ?_⟩
  · rw [List.nil_append, List.mem_singleton] at hp
    exact hp ▸ Calling.caller_mem (k := c.2) hc
  · rw [length_methods, depth, List.length_nil]
    omega

lemma IsCycle.transGen (h : calls.IsCycle cycle) : ∃ m, TransGen calls.Calling m m := by
  obtain ⟨first, rest, rfl, hchain⟩ := h
  rw [List.cons_append] at hchain
  refine ⟨first, hchain.tail.induction (TransGen calls.Calling first) _
    (fun _ _ hcall hway => hway.tail hcall) (fun hne => ?_) first (by simp)⟩
  exact .single (hchain.rel_head? (List.head_mem_head? hne))

/-- **What is found is a cycle.** -/
lemma isCycle_of_cycle? (h : calls.cycle? = some cycle) : calls.IsCycle cycle := by
  have hfinds := search_finds calls
  unfold cycle? at h
  split at h
  · cases h
  · rename_i found hfold
    rw [hfold] at hfinds
    exact Option.some.inj h ▸ hfinds

/-- **Every cycle is noticed.** -/
lemma cycle?_eq_none_iff : calls.cycle? = none ↔ ∀ m, ¬ TransGen calls.Calling m m := by
  constructor
  · intro h m hway
    have hfinds := search_finds calls
    unfold cycle? at h
    split at h
    · rename_i done hfold
      rw [hfold] at hfinds
      obtain ⟨k, hcall, -⟩ := TransGen.head'_iff.1 hway
      exact hfinds.settled.no_return (hfinds.reached m (List.mem_map_of_mem hcall)) hway
    · cases h
  · intro h
    cases hc : calls.cycle? with
    | none => rfl
    | some cycle =>
      obtain ⟨m, hm⟩ := (isCycle_of_cycle? hc).transGen
      exact absurd hm (h m)

end Calls

lemma Draft.mem_calls_recorded (cs : List (MethodRef × MethodRef)) (d : Draft)
    {c : MethodRef × MethodRef} :
    c ∈ (cs.foldl (fun d c => d.recordCall c.1 c.2) d).calls ↔ c ∈ d.calls ++ cs := by
  induction cs generalizing d with
  | nil => simp
  | cons first cs ih =>
    rw [List.foldl_cons, ih, recordCall, List.mem_append, Calls.mem_record]
    simp [or_assoc]

/-- **The check for call cycles is exact.**  Let calls be recorded in any order into a draft.  The check
succeeds if and only if no method leads back to itself, over however many calls.  If it fails, the
methods it names call each other in turn, and the last one calls the first. -/
theorem Draft.checkCalls_exact (md : Metadata) (d : Draft) (cs : List (MethodRef × MethodRef)) :
    let calling (caller callee : MethodRef) : Prop := (caller, callee) ∈ d.calls ++ cs
    let recorded := cs.foldl (fun d c => d.recordCall c.1 c.2) d
    (recorded.checkCalls md = .ok () ↔ ∀ m, ¬ TransGen calling m m) ∧
      ∀ e, recorded.checkCalls md = .error e → ∃ first rest,
        (first :: rest ++ [first]).IsChain calling ∧
          e = .unsupported (.callCycle ((first :: rest).map md.methodDisplay)) := by
  intro calling recorded
  have hcalling : recorded.calls.Calling = calling := by
    funext caller callee
    exact propext (mem_calls_recorded cs d)
  unfold checkCalls
  cases hc : recorded.calls.cycle? with
  | none =>
    have hnone := Calls.cycle?_eq_none_iff.1 hc
    rw [hcalling] at hnone
    exact ⟨⟨fun _ => hnone, fun _ => rfl⟩, fun e he => by cases he⟩
  | some cycle =>
    have hcycle := Calls.isCycle_of_cycle? hc
    obtain ⟨m, hm⟩ := hcycle.transGen
    obtain ⟨first, rest, rfl, hchain⟩ := hcycle
    rw [hcalling] at hm hchain
    refine ⟨⟨fun h => ?_, fun h => absurd hm (h m)⟩, fun e he => ?_⟩
    · cases h
    · exact ⟨first, rest, hchain, (Except.error.inj he).symm⟩

end FlatHeap
