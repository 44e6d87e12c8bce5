import FlatHeap.Proofs.Conversion.Agreement

/-!
# Code that may fault

A copy is checked when it is executed: contents go into a slot only if they fit its host type.  So
there are two things that the code of an assignment can come to.  It may lead to a store with the
property that is asked for, or to a copy of contents that do not fit, where the machine stops with a
fault.  `Frame.Fares` says that one of the two happens to what was recorded between two frames, and
names a condition without which the second one cannot happen.

Stretches of such code compose (`Frame.Fares.bind`).  On the machine, the first outcome is a run to the
end of the code, and the second a run to an instruction that faults; neither executes an instruction
behind the code (`Frame.Fares.approach`).
-/

namespace FlatHeap

open Host.Machine

/-- Executing pieces comes to a copy of contents that do not fit. -/
def Misfits (host : VarRef → String) (ps : List Piece) (σ : Store) : Prop :=
  ∃ qs x y rs τ, ps = qs ++ .copy x y :: rs ∧ Runs host qs σ τ ∧ fits (τ x) (host y) = false

namespace Misfits

variable {host : VarRef → String} {ps qs : List Piece} {σ τ : Store}

lemma append_right (h : Misfits host ps σ) (qs : List Piece) : Misfits host (ps ++ qs) σ := by
  obtain ⟨before, x, y, behind, τ, rfl, hr, hfit⟩ := h
  exact ⟨before, x, y, behind ++ qs, τ, by simp, hr, hfit⟩

lemma append_left (hr : Runs host ps σ τ) (h : Misfits host qs τ) : Misfits host (ps ++ qs) σ := by
  obtain ⟨before, x, y, behind, ρ, rfl, hr', hfit⟩ := h
  exact ⟨ps ++ before, x, y, behind, ρ, by simp, hr.append hr', hfit⟩

end Misfits

namespace Frame

variable {env : MethodEnv} {K : Variables} {s s' s'' : Frame} {bad bad' : Prop} {σ τ : Store}
  {Q R : Store → Prop} {x y : VarRef}

/-- **How code fares.**  Executing what was recorded between two frames leads to a store with a
property, or it comes to a copy of contents that do not fit, which happens only under a condition. -/
def Fares (env : MethodEnv) (K : Variables) (s s' : Frame) (bad : Prop) (σ : Store)
    (Q : Store → Prop) : Prop :=
  ∃ ps, s.draft.Continues env s'.draft ps ∧
    ((∃ τ, Runs (fun v => env.ident (K.get v).type) ps σ τ ∧ Q τ) ∨
      bad ∧ Misfits (fun v => env.ident (K.get v).type) ps σ)

lemma Leads.fares (h : Leads env K s s' σ τ) (hQ : Q τ) : Fares env K s s' bad σ Q := by
  obtain ⟨ps, hps, hr⟩ := h
  exact ⟨ps, hps, .inl ⟨τ, hr, hQ⟩⟩

namespace Fares

lemma mono (h : Fares env K s s' bad σ Q) (hbad : bad → bad') (hQ : ∀ τ, Q τ → R τ) :
    Fares env K s s' bad' σ R := by
  obtain ⟨ps, hps, ⟨τ, hr, hτ⟩ | ⟨hb, hm⟩⟩ := h
  · exact ⟨ps, hps, .inl ⟨τ, hr, hQ τ hτ⟩⟩
  · exact ⟨ps, hps, .inr ⟨hbad hb, hm⟩⟩

lemma behind (hl : Leads env K s s' σ τ) (h : Fares env K s' s'' bad τ Q) :
    Fares env K s s'' bad σ Q := by
  obtain ⟨qs, hqs, ⟨ρ, hr', hρ⟩ | ⟨hb, hm⟩⟩ := h
  all_goals obtain ⟨ps, hps, hr⟩ := hl
  · exact ⟨ps ++ qs, hps.trans hqs, .inl ⟨ρ, hr.append hr', hρ⟩⟩
  · exact ⟨ps ++ qs, hps.trans hqs, .inr ⟨hb, .append_left hr hm⟩⟩

/-- **Composition.** -/
lemma bind (h : Fares env K s s' bad σ Q) (hc : ∃ qs, s'.draft.Continues env s''.draft qs)
    (h' : ∀ τ, Q τ → Fares env K s' s'' bad τ R) : Fares env K s s'' bad σ R := by
  obtain ⟨ps, hps, ⟨τ, hr, hτ⟩ | ⟨hb, hm⟩⟩ := h
  · exact (h' τ hτ).behind ⟨ps, hps, hr⟩
  · obtain ⟨qs, hqs⟩ := hc
    exact ⟨ps ++ qs, hps.trans hqs, .inr ⟨hb, hm.append_right qs⟩⟩

lemma redraft (h : Fares env K s s' bad σ Q) (hd : s''.draft = s'.draft) :
    Fares env K s s'' bad σ Q := by
  rwa [Fares, hd]

lemma after (hs : s.draft.Continues env s'.draft []) (h : Fares env K s' s'' bad σ Q) :
    Fares env K s s'' bad σ Q :=
  h.behind ⟨[], hs, .nil⟩

end Fares

lemma fares_copy (h : Records env (Lower.copyPieces x y) s s') :
    Fares env K s s' (fits (σ x) (env.ident (K.get y).type) = false) σ fun τ =>
      τ = Function.update σ y (σ x) ∧ (x = y ∨ fits (σ x) (env.ident (K.get y).type) = true) := by
  refine ⟨_, h.code, ?_⟩
  unfold Lower.copyPieces
  split_ifs with heq
  · subst heq
    exact .inl ⟨σ, .nil, by simp, .inl rfl⟩
  cases hfit : fits (σ x) (env.ident (K.get y).type) with
  | true => exact .inl ⟨_, .copy hfit .nil, rfl, .inr rfl⟩
  | false => exact .inr ⟨rfl, [], x, y, [], σ, rfl, .nil, hfit⟩

/-! ## On the machine -/

variable {P : Placed env.toClassEnv} {c : Config} {stack : List VarRef} {k : Nat}

/-- **Running code that may fault.**  No instruction at a position behind the code is executed,
and a variable that is not in the program is not changed. -/
theorem Fares.approach (h : Fares env P.draft.vars s s' bad σ Q) (hP : P.Completes s')
    (hk : s'.position ≤ k) (hc : P.Shows ⟨s.position, σ, stack⟩ c) :
    (∃ τ c', Approaches P.image (UInt32.ofNat (P.address k)) c c' ∧
        P.Shows ⟨s'.position, τ, stack⟩ c' ∧ (∀ z, z ∉ P.order → τ z = σ z) ∧ Q τ) ∨
      bad ∧ ∃ x host name c', Approaches P.image (UInt32.ofNat (P.address k)) c c' ∧
        Fails P.image (.misfit x host name c'.1) c' := by
  obtain ⟨ps, hps, h⟩ := h
  obtain ⟨rest, hops⟩ := hP.code
  rw [hps.ops, List.append_assoc] at hops
  have hend : s'.position = s.position + (ps.flatMap Piece.ops).length := by
    rw [position, hps.ops, List.length_append, position]
  rw [hend] at hk
  rcases h with ⟨τ, hr, hτ⟩ | ⟨hb, before, x, y, behind, τ, rfl, hr, hfit⟩
  · obtain ⟨c', hreach, hshows⟩ :=
      Placed.approach_moves (Placed.does_of_runs hr _ _ k stack hops hk) hc
    rw [List.length_append] at hshows
    refine .inl ⟨τ, c', hreach, hend ▸ hshows, fun z hz => hr.eq_of_not_written fun q hq hw => hz ?_, hτ⟩
    -- whatever is written is pushed before
    have hpush : Op.push z ∈ P.ops := by
      rw [hops]
      exact List.mem_append_right _ (List.mem_append_left _
        (List.mem_flatMap.2 ⟨q, hq, Piece.push_mem_ops hw⟩))
    exact Placed.mem_order hpush rfl
  · rw [List.flatMap_append, List.flatMap_cons, List.append_assoc] at hops
    rw [List.flatMap_append, List.flatMap_cons, List.length_append, List.length_append] at hk
    -- the pieces before the copy are executed, its operands are pushed, and then it faults
    have hpushes : P.ops = (s.draft.ops.toList ++ before.flatMap Piece.ops) ++
        ([x, y].map .push ++ (.copy :: (behind.flatMap Piece.ops ++ rest))) := by
      simp [hops, Piece.ops]
    have hruns := Placed.does_of_runs hr _ _ k stack hops (by grind [position])
    obtain ⟨c', hreach, hshows⟩ := Placed.approach_moves (hruns.trans
      (Placed.movesBefore_pushes [x, y] stack hpushes (by grind [position, Piece.ops]))) hc
    have hop := Placed.op_at (hpushes.trans (List.append_assoc _ _ _).symm)
    obtain ⟨name, hfails⟩ := hshows.misfit hop hfit
    exact .inr ⟨hb, _, _, name, c', hreach, hfails⟩

end Frame

end FlatHeap
