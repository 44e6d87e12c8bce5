import Mathlib.Tactic
import FlatHeap.Lowering.Emission

/-!
# Specifications of lowering steps

A step of a lowering reads what is fixed for the method, changes the frame and may give up.  Its
specifications are all of one form, `Lower.Meets R E m env s Q`: started in the frame `s`, the step
`m` either gives up with an error that `E` admits, or ends in a frame that is related to `s` by `R`
and, together with the result, satisfies `Q`.

The relation `R` is what a whole sequence of steps does to the frame, so it is a preorder, and the
rule for sequencing (`Meets.bind`) composes it without a trace in the proofs that use it.  Three
relations occur: recording code that only computes, recording any code, and no condition at all.

Steps that only look at the frame are opened by `Iff.rfl`: the lemmas of the last section replace such
a step by what it sees, and are used as rewriting rules when a rule of the lowering is walked through.
-/

namespace FlatHeap.Lower

variable {α β : Type} {R R' : Frame → Frame → Prop} {E E' : CompileError → Prop} {m : Lower α}
  {f : α → Lower β} {env : MethodEnv} {s s' : Frame} {Q Q' : α → Frame → Prop}
  {P : β → Frame → Prop} {e : CompileError} {c : Prop}

/-- Started in `s`, the step gives up with an error in `E`, or ends in a frame related to `s` by `R`
and with a result as `Q` says. -/
def Meets (R : Frame → Frame → Prop) (E : CompileError → Prop) (m : Lower α) (env : MethodEnv)
    (s : Frame) (Q : α → Frame → Prop) : Prop :=
  match m env s with
  | .ok a s' => R s s' ∧ Q a s'
  | .error e _ => E e

def failure? (m : Lower α) (env : MethodEnv) (s : Frame) : Option CompileError :=
  match m env s with
  | .ok _ _ => none
  | .error e _ => some e

lemma failure?_eq_some_iff : failure? m env s = some e ↔ ∃ s', m env s = .error e s' := by
  unfold failure?
  cases m env s <;> simp

/-! ## Structural rules -/

lemma meets_of_ok {a : α} {t : Frame} (h : m env s = .ok a t) (hR : R s t) (hQ : Q a t) :
    Meets R E m env s Q := by
  simp only [Meets, h]
  exact ⟨hR, hQ⟩

lemma meets_of_error (h : m env s = .error e s') (hE : E e) : Meets R E m env s Q := by
  simp only [Meets, h]
  exact hE

lemma Meets.ok {a : α} (h : Meets R E m env s Q) (hm : m env s = .ok a s') : R s s' ∧ Q a s' := by
  simpa only [Meets, hm] using h

lemma Meets.error (h : Meets R E m env s Q) (hm : m env s = .error e s') : E e := by
  simpa only [Meets, hm] using h

lemma Meets.succeeds (h : Meets R (fun _ => False) m env s Q) :
    ∃ a s', m env s = .ok a s' ∧ R s s' ∧ Q a s' := by
  cases hm : m env s with
  | ok a s' => exact ⟨a, s', rfl, h.ok hm⟩
  | error e s' => exact (h.error hm).elim

lemma Meets.imp (h : Meets R E m env s Q) (hR : ∀ s', R s s' → R' s s') (hE : ∀ e, E e → E' e)
    (hQ : ∀ a s', R s s' → Q a s' → Q' a s') : Meets R' E' m env s Q' := by
  cases hm : m env s with
  | ok a s' => exact meets_of_ok hm (hR s' (h.ok hm).1) (hQ a s' (h.ok hm).1 (h.ok hm).2)
  | error e s' => exact meets_of_error hm (hE e (h.error hm))

lemma Meets.mono (h : Meets R E m env s Q) (hQ : ∀ a s', R s s' → Q a s' → Q' a s') :
    Meets R E m env s Q' :=
  h.imp (fun _ => id) (fun _ => id) hQ

lemma Meets.absurd (h : Meets R E m env s Q) (hQ : ∀ a s', Q a s' → False) :
    Meets R' E m env s Q' := by
  cases hm : m env s with
  | ok a s' => exact (hQ a s' (h.ok hm).2).elim
  | error e s' => exact meets_of_error hm (h.error hm)

lemma Meets.relate (h : Meets R E m env s Q) (hR : ∀ a s', R s s' → Q a s' → R' s s') :
    Meets R' E m env s Q := by
  cases hm : m env s with
  | ok a s' => exact meets_of_ok hm (hR a s' (h.ok hm).1 (h.ok hm).2) (h.ok hm).2
  | error e s' => exact meets_of_error hm (h.error hm)

lemma Meets.running (h : Meets R E m env s Q) :
    Meets R E m env s fun a s' => m env s = .ok a s' ∧ Q a s' := by
  cases hm : m env s with
  | ok a s' => exact meets_of_ok hm (h.ok hm).1 ⟨rfl, (h.ok hm).2⟩
  | error e s' => exact meets_of_error hm (h.error hm)

lemma meets_pure [Std.Refl R] {a : α} (h : Q a s) : Meets R E (pure a) env s Q :=
  meets_of_ok rfl (refl_of R s) h

lemma meets_throw (h : E e) : Meets R E (throw e : Lower α) env s Q :=
  meets_of_error rfl h

lemma meets_breach {b : Breach} (h : E (.invariant b)) : Meets R E (breach b) env s Q :=
  meets_of_error rfl h

lemma meets_refuse {l : Limitation} (h : E (.unsupported l)) : Meets R E (refuse l) env s Q :=
  meets_of_error rfl h

lemma bind_ok {a : α} (h : m env s = .ok a s') : (m >>= f) env s = f a env s' := by
  show EStateM.bind (m env) (fun a => f a env) s = _
  simp only [EStateM.bind, h]

lemma bind_error (h : m env s = .error e s') : (m >>= f) env s = .error e s' := by
  show EStateM.bind (m env) (fun a => f a env) s = _
  simp only [EStateM.bind, h]

lemma get_bind {f : Frame → Lower β} : (get >>= f) env s = f s env s := rfl

lemma metadata_bind {f : Metadata → Lower β} : (metadata >>= f) env s = f env.md env s := rfl

lemma bind_congr_run {g : α → Lower β} (h : ∀ a s', f a env s' = g a env s') :
    (m >>= f) env s = (m >>= g) env s := by
  cases hm : m env s with
  | ok a s' => rw [bind_ok hm, bind_ok hm, h]
  | error e s' => rw [bind_error hm, bind_error hm]

lemma meets_congr {m' : Lower α} (h : m env s = m' env s) :
    Meets R E m env s Q ↔ Meets R E m' env s Q := by
  simp only [Meets, h]

/-- **Sequencing.**  The relation of the whole is the composition of the relations of the parts. -/
lemma Meets.bind [IsTrans Frame R] (h : Meets R E m env s Q)
    (hf : ∀ a s', R s s' → Q a s' → Meets R E (f a) env s' P) : Meets R E (m >>= f) env s P := by
  cases hm : m env s with
  | error e s' => exact meets_of_error (bind_error hm) (h.error hm)
  | ok a s' =>
    obtain ⟨hR, hQ⟩ := h.ok hm
    have hfa := hf a s' hR hQ
    cases hr : f a env s' with
    | error e s'' => exact meets_of_error ((bind_ok hm).trans hr) (hfa.error hr)
    | ok b s'' =>
      exact meets_of_ok ((bind_ok hm).trans hr) (trans_of R hR (hfa.ok hr).1) (hfa.ok hr).2

lemma Meets.look [IsTrans Frame R] {K : α → Prop} (h : Meets R E m env s fun a s' => s' = s ∧ K a)
    (hf : ∀ a, K a → Meets R E (f a) env s P) : Meets R E (m >>= f) env s P :=
  h.bind fun a s' _ hs => by
    obtain ⟨rfl, ha⟩ := hs
    exact hf a ha

lemma meets_ite [Decidable c] {m' : Lower α} (h : c → Meets R E m env s Q)
    (h' : ¬ c → Meets R E m' env s Q) : Meets R E (if c then m else m') env s Q := by
  split_ifs with hc
  · exact h hc
  · exact h' hc

lemma meets_join [IsTrans Frame R] [Decidable c] {m' : Lower α} (h : c → Meets R E m env s Q)
    (h' : ¬ c → Meets R E m' env s Q) (hf : ∀ a s', R s s' → Q a s' → Meets R E (f a) env s' P) :
    Meets R E (if c then m >>= f else m' >>= f) env s P :=
  meets_ite (fun hc => (h hc).bind hf) fun hc => (h' hc).bind hf

lemma meets_ite_bind [Std.Refl R] [IsTrans Frame R] [Decidable c] {k : Lower β} {K : Frame → Prop}
    (h : c → Meets R E m env s fun _ s' => K s') (h' : ¬ c → K s)
    (hk : ∀ s', R s s' → K s' → Meets R E k env s' P) :
    Meets R E (if c then m >>= fun _ => k else k) env s P :=
  meets_ite (fun hc => (h hc).bind fun _ s' hR hK => hk s' hR hK)
    fun hc => hk s (refl_of R s) (h' hc)

lemma Meets.locating {offset : Option Nat} (h : Meets R E m env s Q)
    (hE : ∀ e, E e → E (e.locate env.name offset)) :
    Meets R E (Lower.locating offset m) env s Q := by
  cases hm : m env s with
  | ok a s' =>
    have hl : Lower.locating offset m env s = .ok a s' := by simp only [Lower.locating, hm]
    exact meets_of_ok hl (h.ok hm).1 (h.ok hm).2
  | error e s' =>
    have hl : Lower.locating offset m env s = .error (e.locate env.name offset) s' := by
      simp only [Lower.locating, hm]
    exact meets_of_error hl (hE e (h.error hm))

/-! ## Steps that only look -/

section Looking

variable {P : β → Frame → Prop} {v : VarRef}

lemma meets_read_bind {f : MethodEnv → Lower β} :
    Meets R E (read >>= f) env s P ↔ Meets R E (f env) env s P := Iff.rfl

lemma meets_get_bind {f : Frame → Lower β} :
    Meets R E (get >>= f) env s P ↔ Meets R E (f s) env s P := Iff.rfl

lemma meets_metadata_bind {f : Metadata → Lower β} :
    Meets R E (metadata >>= f) env s P ↔ Meets R E (f env.md) env s P := Iff.rfl

lemma meets_var_bind {f : Variable → Lower β} :
    Meets R E (var v >>= f) env s P ↔ Meets R E (f (s.draft.vars.get v)) env s P := Iff.rfl

lemma meets_typeOf_bind {f : TypeRef → Lower β} :
    Meets R E (typeOf v >>= f) env s P ↔ Meets R E (f (s.draft.vars.get v).type) env s P := Iff.rfl

lemma meets_constant?_bind {f : Option Value → Lower β} :
    Meets R E (constant? v >>= f) env s P ↔
      Meets R E (f (s.draft.vars.get v).constant?) env s P := Iff.rfl

lemma meets_ident_bind {t : TypeRef} {f : String → Lower β} :
    Meets R E (ident t >>= f) env s P ↔ Meets R E (f (env.ident t)) env s P := Iff.rfl

lemma meets_peek?_bind {f : Option Nat → Lower β} :
    Meets R E (peek? >>= f) env s P ↔ Meets R E (f (env.nextLive? s.cursor)) env s P := Iff.rfl

lemma meets_fusable?_bind {t : TypeRef} {f : Option (VarRef × Nat) → Lower β} :
    Meets R E (fusable? t >>= f) env s P ↔
      ∀ r, fusable? t env s = .ok r s → Meets R E (f r) env s P := by
  constructor
  · intro h r hr
    have := bind_ok (f := f) hr
    simpa only [Meets, this] using h
  · intro h
    exact h _ rfl

end Looking

end FlatHeap.Lower
