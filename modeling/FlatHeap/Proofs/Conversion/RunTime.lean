import FlatHeap.Proofs.Rules.Joins

/-!
# Conversion at run time agrees with conversion at compile time

What the code of a conversion leaves in the slot of its result is what the conversion of a constant
gives.  The code runs as a part of any program that is made from the draft, from any state of the
machine in the middle of a run.
-/

namespace FlatHeap

open Host.Machine

/-- **Conversion at run time agrees with conversion at compile time.**  Let a variable of a scalar type
that is no constant be in hand.  Its conversion to any scalar type succeeds, and in every program that
is made from the resulting draft, from every state of the machine in the middle of a run, the code of
the conversion runs to its end.  It leaves the stack alone and puts into the slot of the result the
value that the conversion of a constant would have given; between integers this is the number
reinterpreted in the target's format. -/
theorem conversion_at_run_time_agrees {env : MethodEnv} (hmd : env.md.Built) {s : Frame}
    {held kept : List VarRef} {v : VarRef} {a : Scalar} (b : Scalar)
    (h : s.Balanced env (v :: held) kept) (hv : Lower.IsOf s v a.type)
    (hc : (s.draft.vars.get v).isConstant = false) :
    ∃ out s', Lower.convert v b.type env s = .ok out s' ∧
      (s'.draft.vars.get out).type = b.type ∧
      ∀ P : Placed env.toClassEnv, P.Completes s' → v ∈ P.order →
      ∀ m : Host.Machine, P.Loaded m → ∀ x i, a.Means x i →
        m.heap[(P.index v).toNat]? = some x →
      ∃ m' y, Reaches P.image (UInt32.ofNat s.draft.codeSize, m)
          (UInt32.ofNat s'.draft.codeSize, m') ∧ m'.stack = m.stack ∧
        out ∈ P.order ∧ m'.heap[(P.index out).toNat]? = some y ∧
        env.md.foldConversion? x a.type b.type = some y ∧
        ∀ j k, a = .int j → b = .int k → y.integer? = some (j.format.reinterpret k.format i) := by
  obtain ⟨out, s', hrun, hworks, -, hof, hturn₀⟩ :=
    (Lower.convert_yields hmd h hv (Scalar.means_ofInt a.holds_zero) (b := b)).succeeds
  have hturn {x : Value} {i : Int} (hx : a.Means x i) :
      Frame.Turns env (fun σ => σ v = x) (s.Keeps held) s s' out (b.ofInt i) :=
    ((Lower.convert_yields hmd h hv hx).ok hrun).2.2.2
  refine ⟨out, s', hrun, hof.type_eq, fun P hP hvP m hm x i hx hheap => ?_⟩
  have hstore : Frame.storeOf P m v = x := by simp [Frame.storeOf, hvP, hheap]
  obtain ⟨ps, hps, -⟩ := hworks.code
  obtain ⟨m', hreach, hstack, hout⟩ := (hturn hx).reaches hps hP hm hstore
  have hmem : out ∈ P.order := by
    by_cases hov : out = v
    · exact hov ▸ hvP
    have hkind : P.draft.vars.kind v ≠ .constant := by
      rw [(hworks.vars.trans hP.vars).kind_eq hv.has]
      intro hk
      simp only [Variables.kind] at hk
      simp [Variable.isConstant, hk] at hc
    have hpush := hturn₀.pushed (hturn (Scalar.means_ofInt a.holds_one)) b.ofInt_zero_ne_one hov hP.vars
      (Frame.storeOf_agrees hm) hkind
    obtain ⟨rest, hops⟩ := hP.code
    have hmem : Op.push out ∈ P.ops := by rw [hops]; exact List.mem_append_left _ hpush
    exact Placed.mem_order hmem rfl
  refine ⟨m', b.ofInt i, hreach, hstack, hmem, hout hmem, Scalar.foldConversion?_eq hmd hx, ?_⟩
  rintro j k rfl rfl
  have hwrap : j.format.wrap i = i := IntFormat.wrap_of_holds j.proper hx.holds
  rw [IntFormat.reinterpret, hwrap, Scalar.ofInt, Value.ofInt, Value.integer?_int,
    IntKind.toInt_ofInt]

lemma local_choosing : ∃ menv s₀, Frame.enter (soloClass choosing) (soloDraft.emit (.mark ⟨0⟩)) ⟨0⟩
    choosingCode.toArray 0 = .ok (menv, s₀) ∧ menv.locals = [⟨3⟩] ∧
      s₀.draft.vars.get ⟨3⟩ = { type := .boolean, kind := .localSlot } := by
  have hrun : ((Frame.enter (soloClass choosing) (soloDraft.emit (.mark ⟨0⟩)) ⟨0⟩
      choosingCode.toArray 0).toOption.any fun r => r.1.locals = [⟨3⟩] ∧
        r.2.draft.vars.get ⟨3⟩ = { type := .boolean, kind := .localSlot }) = true := by decide +kernel
  obtain ⟨⟨menv, s₀⟩, henter, hlocals⟩ := (Option.any_eq_true _ _).1 hrun
  exact ⟨menv, s₀, ok_of_toOption henter, of_decide_eq_true hlocals⟩

/-- The local of `choosing` may be converted to an integer. -/
theorem conversion_at_run_time_agrees_choosing : ∃ menv s₀ out s',
    Frame.enter (soloClass choosing) (soloDraft.emit (.mark ⟨0⟩)) ⟨0⟩ choosingCode.toArray 0 =
        .ok (menv, s₀) ∧
      Lower.convert ⟨3⟩ .int32 menv s₀ = .ok out s' ∧ (s'.draft.vars.get out).type = .int32 := by
  obtain ⟨menv, s₀, henter, hlocals, hvar⟩ := local_choosing
  have hsound := (comesTo_solo choosing).sound.mark (l := ⟨0⟩) Nat.one_pos
  have henters := Frame.enters_of_enter hsound henter
  have hslot : menv.IsSlot s₀.draft.vars ⟨3⟩ := henters.slots ⟨3⟩ (.inr (.inl (by simp [hlocals])))
  have hresting := ((comesTo_solo choosing).resting hasBody_choosing (by decide) Nat.one_pos henter).2
  have hbuilt : menv.md.Built := by
    rw [henters.toClassEnv]
    exact .setBody _ _ (.addMethod _ _ (.arrayOf _ (.addType _ .empty)))
  obtain ⟨out, s', hrun, htype, -⟩ := conversion_at_run_time_agrees hbuilt (a := .boolean)
    (.int .int32) (hresting.balanced.hold hslot.weightless)
    ⟨hslot.1, by rw [hvar]; rfl, by rw [hvar]; rfl⟩ (by rw [hvar]; rfl)
  exact ⟨menv, s₀, out, s', henter, hrun, htype⟩

end FlatHeap
