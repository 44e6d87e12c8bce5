import FlatHeap.Proofs.Rules.Deliveries

/-!
# Results that are stored at once

Results that go straight to a slot are compared with results that go over a temporary.  The two ways
succeed together and leave the same operand stack and cursor.  Their code is laid out in two programs
and run by two machines that hold the same: both come to the end with the same contents in all variables
but temporaries, or both fault.  An operation may read the slot that it writes, since arguments are read
before the result is written.

One difference remains.  A copy checks what it moves, a host operation does not.  So the ways agree only
if the results of the operation may be stored in slots of its type, which is up to the declaration of the
operation: `mislabelled_result_is_stored` has one that is declared wrongly.
-/

namespace FlatHeap

open Lower FlatHeap.Frame Host.Machine Relation
open Bytecode (Instruction)
open Function (update)

/-! ## Two machines -/

/-- A machine in the middle of a run, with a value of its type in every slot. -/
structure Placed.Typed {env : MethodEnv} (P : Placed env.toClassEnv) (m : Host.Machine) : Prop
    extends P.Loaded m where
  typed : ∀ v ∈ P.order, fits (storeOf P m v) (P.hostType v) = true

namespace Frame

variable {env : MethodEnv} {P : Placed env.toClassEnv} {s s' : Frame} {m : Host.Machine} {c : Config}
  {x x' : ExecState} {τ : Store} {stack stack' : List VarRef}

lemma follow_storing (hm : ReflTransGen P.Moves x x') (h : P.Shows x c)
    (hstore : ∀ v, storeOf P c.2 v = x.store v) :
    ∃ c', Reaches P.image c c' ∧ P.Shows x' c' ∧ ∀ v, storeOf P c'.2 v = x'.store v := by
  induction hm with
  | refl => exact ⟨c, .refl, h, hstore⟩
  | tail _ hmove ih =>
    obtain ⟨c₁, hr₁, h₁, hstore₁⟩ := ih
    obtain ⟨c₂, hr₂, h₂⟩ := hmove.follow h₁
    refine ⟨c₂, hr₁.trans hr₂.reaches, h₂, fun v => ?_⟩
    refine Rules.storeOf_of_shows (m := c₁.2) h₂ fun hv => ?_
    exact (hmove.store_eq h₁.stacked hv).trans (hstore₁ v).symm

lemma follow_from (hP : P.Completes s) (hm : P.Loaded m) (hs : ∀ v ∈ stack, v ∈ P.order)
    (hstack : m.stack = stack.map P.index)
    (h : ReflTransGen P.Moves ⟨s.position, storeOf P m, stack⟩ x) :
    ∃ c, Reaches P.image (UInt32.ofNat s.draft.codeSize, m) c ∧ P.Shows x c ∧
      ∀ v, storeOf P c.2 v = x.store v :=
  follow_storing h (shows_behind hP hm hs hstack) fun _ => rfl

lemma reaches_end (hP : P.Completes s) (hP' : P.Completes s') (hm : P.Loaded m)
    (hs : ∀ v ∈ stack, v ∈ P.order) (hstack : m.stack = stack.map P.index)
    (h : ReflTransGen P.Moves ⟨s.position, storeOf P m, stack⟩ ⟨s'.position, τ, stack'⟩) :
    ∃ m', Reaches P.image (UInt32.ofNat s.draft.codeSize, m) (UInt32.ofNat s'.draft.codeSize, m') ∧
      m'.stack = stack'.map P.index ∧ ∀ v, storeOf P m' v = τ v := by
  obtain ⟨⟨pc, m'⟩, hreach, hshows, hstore⟩ := follow_from hP hm hs hstack h
  obtain rfl : pc = UInt32.ofNat s'.draft.codeSize := hP'.pc_eq hshows
  exact ⟨m', hreach, hshows.stack, hstore⟩

/-- Machines that run two programs hold the same: variables of a table have the same contents, and so
have the entries of the stacks. -/
structure Alike (vs : Variables) (P₁ P₂ : Placed env.toClassEnv) (m₁ m₂ : Host.Machine) : Prop where
  contents : ∀ v, vs.Has v → storeOf P₁ m₁ v = storeOf P₂ m₂ v
  stacked : m₁.stack.map (m₁.heap[·.toNat]?) = m₂.stack.map (m₂.heap[·.toNat]?)

/-- All variables of a table but temporaries have the same contents. -/
def LastingAlike (vs : Variables) (P₁ P₂ : Placed env.toClassEnv) (m₁ m₂ : Host.Machine) : Prop :=
  ∀ v, vs.Has v → vs.kind v ≠ .temporary → storeOf P₁ m₁ v = storeOf P₂ m₂ v

/-- **The same effect.**  From the end of a frame's code, two machines that hold the same execute what
was recorded behind it in two ways.  Both come to the end of their code, or both fault; either way all
variables but temporaries have the same contents.  If the inputs of the delivery were put on the stacks,
the same number of entries would be gone from them. -/
inductive SameEffect (d : Delivery) (P₁ P₂ : Placed env.toClassEnv) (s s₁ s₂ : Frame)
    (m₁ m₂ : Host.Machine) : Prop
  | finished {m₁' m₂' : Host.Machine} {n : Nat}
    (reaches₁ : Reaches P₁.image (UInt32.ofNat s.draft.codeSize, m₁)
      (UInt32.ofNat s₁.draft.codeSize, m₁'))
    (reaches₂ : Reaches P₂.image (UInt32.ofNat s.draft.codeSize, m₂)
      (UInt32.ofNat s₂.draft.codeSize, m₂'))
    (stack₁ : m₁'.stack = (d.inputs.reverse.map P₁.index ++ m₁.stack).drop n)
    (stack₂ : m₂'.stack = (d.inputs.reverse.map P₂.index ++ m₂.stack).drop n)
    (same : LastingAlike s.draft.vars P₁ P₂ m₁' m₂')
  | faulted {c₁ c₂ : Config} {e₁ e₂ : Host.Fault}
    (reaches₁ : Reaches P₁.image (UInt32.ofNat s.draft.codeSize, m₁) c₁)
    (reaches₂ : Reaches P₂.image (UInt32.ofNat s.draft.codeSize, m₂) c₂)
    (fails₁ : Fails P₁.image e₁ c₁) (fails₂ : Fails P₂.image e₂ c₂)
    (same : LastingAlike s.draft.vars P₁ P₂ c₁.2 c₂.2)

/-- The same effect in all programs that contain the code, from all machines in the middle of a run
that hold the same and have a value of its type in every slot. -/
def SameOnMachines (env : MethodEnv) (d : Delivery) (s s₁ s₂ : Frame) : Prop :=
  ∀ (P₁ P₂ : Placed env.toClassEnv) (m₁ m₂ : Host.Machine), P₁.Completes s₁ → P₂.Completes s₂ →
    P₁.Typed m₁ → P₂.Typed m₂ → Alike s.draft.vars P₁ P₂ m₁ m₂ → SameEffect d P₁ P₂ s s₁ s₂ m₁ m₂

variable {d : Delivery} {t : TypeRef} {P₁ P₂ : Placed env.toClassEnv} {m₁ m₂ : Host.Machine}
  {s₀ s₁ s₂ : Frame} {v slot : VarRef}

lemma hostType_eq {vs : Variables} (h : vs.Grows P.draft.vars) (hv : vs.Has v)
    (ht : (vs.get v).type = t) : P.hostType v = env.ident t := by
  rw [Placed.hostType, h.type_eq hv, ht]

lemma map_stack (hm : P.Loaded m) (hs : ∀ v ∈ stack, v ∈ P.order)
    (hstack : m.stack = stack.map P.index) :
    m.stack.map (m.heap[·.toNat]?) = (stack.map (storeOf P m)).map some := by
  have hshows := shows_storeOf hm (Nat.zero_le _) hs hstack
  rw [hstack, List.map_map, List.map_map]
  exact List.map_congr_left fun v hv => hshows.heap v (hs v hv)

lemma Alike.reads_eq {vs : Variables} {stack₁ stack₂ : List VarRef} (h : Alike vs P₁ P₂ m₁ m₂)
    (hm₁ : P₁.Loaded m₁) (hm₂ : P₂.Loaded m₂) (hs₁ : ∀ v ∈ stack₁, v ∈ P₁.order)
    (hs₂ : ∀ v ∈ stack₂, v ∈ P₂.order) (hstack₁ : m₁.stack = stack₁.map P₁.index)
    (hstack₂ : m₂.stack = stack₂.map P₂.index) {ins : List VarRef} (hins : ∀ v ∈ ins, vs.Has v) :
    (ins ++ stack₁).map (storeOf P₁ m₁) = (ins ++ stack₂).map (storeOf P₂ m₂) := by
  have hstacked := h.stacked
  rw [map_stack hm₁ hs₁ hstack₁, map_stack hm₂ hs₂ hstack₂] at hstacked
  have hstack : stack₁.map (storeOf P₁ m₁) = stack₂.map (storeOf P₂ m₂) :=
    List.map_injective_iff.2 (Option.some_injective Value) hstacked
  have hinputs : ins.map (storeOf P₁ m₁) = ins.map (storeOf P₂ m₂) :=
    List.map_congr_left fun v hv => h.contents v (hins v hv)
  rw [List.map_append, List.map_append, hstack, hinputs]

lemma placed_of_records (h : d.Records out s s') (hP : P.Completes s') : P.Completes s ∧
    ∃ ops post, P.ops = s.draft.ops.toList ++ (ops ++ post) ∧ d.IsCode P.draft.vars out ops ∧
      s'.draft.ops.toList = s.draft.ops.toList ++ ops := by
  obtain ⟨ops, hops, his⟩ := h.code
  obtain ⟨post, hcode⟩ := hP.code
  rw [hops, List.append_assoc] at hcode
  exact ⟨⟨h.vars.trans hP.vars, _, hcode⟩, ops, post, hcode, his.grows hP.vars, hops⟩

lemma placed_of_detours (h : d.Detours env v out s s') (hP : P.Completes s') : P.Completes s ∧
    ∃ ops offset post, P.ops = s.draft.ops.toList ++
        (ops ++ ((storePieces env offset v out).flatMap Piece.ops ++ post)) ∧
      d.IsCode P.draft.vars v ops ∧ s'.draft.ops.toList = s.draft.ops.toList ++
        (ops ++ (storePieces env offset v out).flatMap Piece.ops) := by
  obtain ⟨ops, offset, his, hops⟩ := h.code
  obtain ⟨post, hcode⟩ := hP.code
  rw [hops, List.append_assoc, List.append_assoc] at hcode
  exact ⟨⟨h.vars.trans hP.vars, _, hcode⟩, ops, offset, post, hcode, his.grows hP.vars, hops⟩

section Runs

variable {y : Value} {n : Nat} {ops post : List Op} (hm : P.Loaded m) (hs : ∀ v ∈ stack, v ∈ P.order)
  (hstack : m.stack = stack.map P.index) (hd : d.ResultFits (env.ident t))
include hm hs hstack hd

lemma reaches_fault (hP : P.Completes s) (hcode : P.ops = s.draft.ops.toList ++ (ops ++ post))
    (his : d.IsCode P.draft.vars out ops) (htype : P.hostType out = env.ident t)
    (hself : d = .returned out → fits (storeOf P m out) (env.ident t) = true)
    (ho : d.outcome? (env.ident t) ((d.inputs.reverse ++ stack).map (storeOf P m)) = none) :
    ∃ c e, Reaches P.image (UInt32.ofNat s.draft.codeSize, m) c ∧ Fails P.image e c ∧
      ∀ w, storeOf P c.2 w = storeOf P m w := by
  obtain ⟨j, stack', hmoves, hstuck⟩ := his.stuck hcode (storeOf_agrees hm) htype hd hself ho
  obtain ⟨c, hreach, hshows, hstore⟩ := follow_from hP hm hs hstack hmoves
  obtain ⟨e, hfails⟩ := hstuck c hshows
  exact ⟨c, e, hreach, hfails, hstore⟩

lemma reaches_of_records (hrec : d.Records out s s') (hP : P.Completes s')
    (htype : P.hostType out = env.ident t)
    (ho : d.outcome? (env.ident t) ((d.inputs.reverse ++ stack).map (storeOf P m)) = some (y, n)) :
    ∃ m', Reaches P.image (UInt32.ofNat s.draft.codeSize, m) (UInt32.ofNat s'.draft.codeSize, m') ∧
      m'.stack = ((d.inputs.reverse ++ stack).drop n).map P.index ∧
      ∀ w, storeOf P m' w = update (storeOf P m) out y w := by
  obtain ⟨hPs, ops, post, hcode, his, hops⟩ := placed_of_records hrec hP
  have hmoves := his.moves hcode (storeOf_agrees hm) htype hd ho
  rw [← hops] at hmoves
  exact reaches_end hPs hP hm hs hstack hmoves

lemma reaches_of_detours (hdet : d.Detours env v out s s') (hP : P.Completes s')
    (hvtype : P.hostType v = env.ident t) (htype : P.hostType out = env.ident t)
    (ho : d.outcome? (env.ident t) ((d.inputs.reverse ++ stack).map (storeOf P m)) = some (y, n)) :
    ∃ m', Reaches P.image (UInt32.ofNat s.draft.codeSize, m) (UInt32.ofNat s'.draft.codeSize, m') ∧
      m'.stack = ((d.inputs.reverse ++ stack).drop n).map P.index ∧
      ∀ w, storeOf P m' w = update (update (storeOf P m) v y) out y w := by
  obtain ⟨hPs, ops, offset, post, hcode, his, hops⟩ := placed_of_detours hdet hP
  have hmoves := his.moves hcode (storeOf_agrees hm) hvtype hd ho
  have hfit : fits (update (storeOf P m) v y v) (P.hostType out) = true := by
    rw [Function.update_self, htype]
    exact Delivery.fits_of_outcome? hd ho
  have hruns : Runs P.hostType (storePieces env offset v out) _ _ := runs_storePieces offset hfit
  rw [Function.update_self] at hruns
  have htail := Placed.moves_of_runs hruns
    (hcode.trans (List.append_assoc s.draft.ops.toList ops _).symm)
    ((d.inputs.reverse ++ stack).drop n)
  rw [List.append_assoc, ← hops] at htail
  exact reaches_end hPs hP hm hs hstack (hmoves.trans htail)

end Runs

/-- **Straight to the slot or over a temporary**: the effect is the same. -/
lemma sameEffect (hrec : d.Records slot s₀ s₁) (hs₀ : s₀.draft = s.draft)
    (hdet : d.Detours env v slot s s₂) (htemp : s₂.draft.vars.IsTemp v)
    (hvtype : (s₂.draft.vars.get v).type = t) (hv : v ∉ d.inputs)
    (hslot : s.draft.vars.Has slot) (htype : (s.draft.vars.get slot).type = t)
    (hins : ∀ w ∈ d.inputs, s.draft.vars.Has w) (hd : d.ResultFits (env.ident t))
    (hP₁ : P₁.Completes s₁) (hP₂ : P₂.Completes s₂) (hm₁ : P₁.Typed m₁) (hm₂ : P₂.Typed m₂)
    (halike : Alike s.draft.vars P₁ P₂ m₁ m₂) : SameEffect d P₁ P₂ s s₁ s₂ m₁ m₂ := by
  obtain ⟨hPs₁, ops₁, post₁, hcode₁, his₁, -⟩ := placed_of_records hrec hP₁
  obtain ⟨hPs₂, ops₂, offset, post₂, hcode₂, his₂, -⟩ := placed_of_detours hdet hP₂
  have htype₁ : P₁.hostType slot = env.ident t := hostType_eq (hs₀ ▸ hPs₁.vars) hslot htype
  have htype₂ : P₂.hostType slot = env.ident t := hostType_eq hPs₂.vars hslot htype
  have hvtype₂ : P₂.hostType v = env.ident t := hostType_eq hP₂.vars htemp.1 hvtype
  obtain ⟨stack₁, hstacked₁, hstack₁⟩ := hm₁.stack
  obtain ⟨stack₂, hstacked₂, hstack₂⟩ := hm₂.stack
  have hins' (w : VarRef) (hw : w ∈ d.inputs.reverse) : s.draft.vars.Has w :=
    hins w (List.mem_reverse.1 hw)
  have hreads := halike.reads_eq hm₁.toLoaded hm₂.toLoaded hstacked₁ hstacked₂ hstack₁ hstack₂ hins'
  cases ho : d.outcome? (env.ident t) ((d.inputs.reverse ++ stack₁).map (storeOf P₁ m₁)) with
  | none =>
    have ho₂ := hreads ▸ ho
    have hself₁ : fits (storeOf P₁ m₁ slot) (env.ident t) = true := by
      have hpush : Op.push slot ∈ P₂.ops := by
        rw [hcode₂]
        simp only [List.mem_append, push_mem_storePieces, or_true, true_or]
      have hmem : slot ∈ P₂.order := Placed.mem_order hpush rfl
      rw [halike.contents slot hslot, ← htype₂]
      exact hm₂.typed slot hmem
    have hself₂ : d = .returned v → fits (storeOf P₂ m₂ v) (env.ident t) = true := by
      rintro rfl
      exact absurd (by simp [Delivery.inputs]) hv
    obtain ⟨c₁, e₁, hr₁, hf₁, hstore₁⟩ := reaches_fault hm₁.toLoaded hstacked₁ hstack₁ hd hPs₁ hcode₁
      his₁ htype₁ (fun _ => hself₁) ho
    obtain ⟨c₂, e₂, hr₂, hf₂, hstore₂⟩ := reaches_fault hm₂.toLoaded hstacked₂ hstack₂ hd hPs₂ hcode₂
      his₂ hvtype₂ hself₂ ho₂
    rw [hs₀] at hr₁
    refine .faulted hr₁ hr₂ hf₁ hf₂ fun w hw _ => ?_
    rw [hstore₁, hstore₂]
    exact halike.contents w hw
  | some r =>
    obtain ⟨y, n⟩ := r
    have ho₂ := hreads ▸ ho
    obtain ⟨m₁', hr₁, hleft₁, hstore₁⟩ := reaches_of_records hm₁.toLoaded hstacked₁ hstack₁ hd hrec hP₁
      htype₁ ho
    obtain ⟨m₂', hr₂, hleft₂, hstore₂⟩ := reaches_of_detours hm₂.toLoaded hstacked₂ hstack₂ hd hdet hP₂
      hvtype₂ htype₂ ho₂
    rw [hs₀] at hr₁
    refine .finished hr₁ hr₂ (n := n) ?_ ?_ fun w hw hk => ?_
    · rw [hleft₁, hstack₁, List.map_drop, List.map_append]
    · rw [hleft₂, hstack₂, List.map_drop, List.map_append]
    · have hne : w ≠ v := by
        rintro rfl
        exact hk ((hdet.vars.kind_eq hw).symm.trans htemp.2)
      rw [hstore₁, hstore₂]
      by_cases heq : w = slot
      · rw [heq, Function.update_self, Function.update_self]
      · rw [Function.update_of_ne heq, Function.update_of_ne heq, Function.update_of_ne hne]
        exact halike.contents w hw

end Frame

/-! ## Fused stores -/

section

variable {env : MethodEnv} {s : Frame} {d : Delivery} {t : TypeRef} {held kept : List VarRef}

/-- **Storing a result at once is storing it.**  Let the next instruction store the result of a delivery,
so that it is left out.  Going straight to the slot and going over a temporary succeed together, leave the
operand stack and the cursor alike, and have the same effect on machines that hold the same. -/
theorem fused_store_agrees (hb : s.Balanced env (d.inputs ++ held) kept)
    (hfuses : ∃ slot k, fusable? t env s = .ok (some (slot, k)) s) (hd : d.ResultFits (env.ident t)) :
    ((∃ s₁, d.direct t env s = .ok () s₁) ↔ ∃ s₂, d.indirect t env s = .ok () s₂) ∧
      ∀ s₁ s₂, d.direct t env s = .ok () s₁ → d.indirect t env s = .ok () s₂ →
        s₁.stack = s₂.stack ∧ s₁.cursor = s₂.cursor ∧ s₁.current = s₂.current ∧
          SameOnMachines env d s s₁ s₂ := by
  obtain ⟨slot, k, hfusable⟩ := hfuses
  obtain ⟨i, hf⟩ := fuses_of_fusable? hfusable
  have hdirect := Delivery.direct_meets hb hfusable
  have hindirect := Delivery.indirect_meets hb hf
  refine ⟨?_, fun s₁ s₂ h₁ h₂ => ?_⟩
  · have hplain (h : ∃ v ∈ d.inputs, (s.draft.vars.get v).isAddress = true) :
        ¬ ∀ v ∈ d.inputs, (s.draft.vars.get v).isAddress = false := by
      obtain ⟨v, hv, ha⟩ := h
      intro hall
      rw [hall v hv] at ha
      cases ha
    rw [ok_iff_of_meets hdirect (fun s' h => h.2) fun _ => hplain,
      ok_iff_of_meets hindirect (fun s' h => h.2.2.2.2) fun _ => hplain]
  · obtain ⟨-, hrec, -⟩ := hdirect.ok h₁
    obtain ⟨-, ⟨v, hdet, htemp, hvtype, hv⟩, hstack, hcursor, hcurrent, -⟩ := hindirect.ok h₂
    have hslot : s.draft.vars.Has slot :=
      (hb.slots slot ((storeSlot?_mem hf.stores).imp_right .inl)).1
    have hins (w : VarRef) (hw : w ∈ d.inputs) : s.draft.vars.Has w :=
      (hb.usable_hand (List.mem_append_left held hw)).1
    rw [hstack, hcursor, hcurrent, hrec.rest]
    refine ⟨rfl, rfl, rfl, fun P₁ P₂ m₁ m₂ hP₁ hP₂ hm₁ hm₂ halike => ?_⟩
    rw [← hrec.rest] at hP₁ ⊢
    exact sameEffect hrec rfl hdet htemp hvtype hv hslot hf.type_eq hins hd hP₁ hP₂ hm₁ hm₂ halike

end

/-! ## A slot that is read and written -/

def doubling : MethodBody := { locals := [.int32], code := [0x06, 0x06, 0x58, 0x0a, 0x2a] }

def doublingCode : List Instruction :=
  [⟨0, .ldloc0, .localIndex 0⟩, ⟨1, .ldloc0, .localIndex 0⟩, ⟨2, .add, .none⟩,
    ⟨3, .stloc0, .localIndex 0⟩, ⟨4, .ret, .none⟩]

def doubled : Delivery :=
  .operation "SystemInt32.__op_Addition__SystemInt32_SystemInt32__SystemInt32" [⟨3⟩, ⟨3⟩]

lemma hasBody_doubling : (soloClass doubling).HasBody ⟨0⟩ doublingCode 0 := by
  apply ClassEnv.HasBody.method
  decide +kernel

lemma resultFits_doubled : doubled.ResultFits "SystemInt32" := by
  obtain ⟨call, hcall, hresult, htype⟩ : ∃ call, Host.Signature.parse?
      "SystemInt32.__op_Addition__SystemInt32_SystemInt32__SystemInt32" = some call ∧
      call.result ≠ "SystemVoid" ∧ Host.resultType call.member call.result = "SystemInt32" :=
    ⟨⟨"op_Addition", 2, "SystemInt32"⟩, by decide +kernel⟩
  rw [← htype]
  exact Host.Signature.resultFits_of_declared hcall hresult

lemma fuses_doubling : ∃ menv s held s₁, menv.ident .int32 = "SystemInt32" ∧
    s.Balanced menv (doubled.inputs ++ held) [] ∧
    fusable? .int32 menv s = .ok (some (⟨3⟩, 3)) s ∧ doubled.direct .int32 menv s = .ok () s₁ := by
  have hrun : ((Frame.enter (soloClass doubling) (soloDraft.emit (.mark ⟨0⟩)) ⟨0⟩
      doublingCode.toArray 0).toOption.any fun r => r.1.ident .int32 = "SystemInt32" ∧
        (advance .standard r.1 2 r.2).any fun s =>
          r.1.nextLive? s.cursor = some 2 ∧ r.1.code[2]? = some ⟨2, .add, .none⟩ ∧
          ((beginInstruction 2).outcome? r.1 (s.taking 2)).any fun s =>
            s.2.stack = doubled.inputs ∧
            ((fusable? .int32).outcome? r.1 { s.2 with stack := [] }).any (fun f =>
              f = (some (⟨3⟩, 3), { s.2 with stack := [] })) ∧
            ((doubled.direct .int32).outcome? r.1 { s.2 with stack := [] }).isSome) = true := by
    decide +kernel
  obtain ⟨⟨menv, s₀⟩, henter, hrun⟩ := (Option.any_eq_true _ _).1 hrun
  obtain ⟨hident, hrun⟩ := of_decide_eq_true hrun
  obtain ⟨t, ht, hrun⟩ := (Option.any_eq_true _ _).1 hrun
  obtain ⟨hnext, hinst, hrun⟩ := of_decide_eq_true hrun
  obtain ⟨⟨_, u⟩, hbegun, hrun⟩ := (Option.any_eq_true _ _).1 hrun
  obtain ⟨hstack, hfusable, hdirect⟩ := of_decide_eq_true hrun
  obtain ⟨f, hf, heq⟩ := (Option.any_eq_true _ _).1 hfusable
  obtain rfl := of_decide_eq_true heq
  obtain ⟨⟨_, s₁⟩, hs₁⟩ := Option.isSome_iff_exists.1 hdirect
  obtain ⟨lost, hcourse⟩ := Course.start.advance ht
  have hup : (soloClass doubling).IsUp .standard menv ⟨2, .add, .none⟩ u :=
    ⟨comesTo_solo doubling, hasBody_doubling, by decide, Nat.one_pos, ok_of_toOption henter, hcourse,
      hnext, hinst, ok_of_outcome? hbegun⟩
  obtain ⟨-, held, hb⟩ := hup.site
  rw [hstack] at hb
  exact ⟨menv, _, held, s₁, hident, balanced_restack hb [], ok_of_outcome? hf, ok_of_outcome? hs₁⟩

/-- The sum in `doubling` is written to the slot whose contents are added. -/
theorem fused_store_agrees_doubling : ∃ menv s s₁ s₂,
    fusable? .int32 menv s = .ok (some (⟨3⟩, 3)) s ∧ doubled.inputs = [⟨3⟩, ⟨3⟩] ∧
      doubled.direct .int32 menv s = .ok () s₁ ∧ doubled.indirect .int32 menv s = .ok () s₂ ∧
      s₁.stack = s₂.stack ∧ s₁.cursor = s₂.cursor ∧ SameOnMachines menv doubled s s₁ s₂ := by
  obtain ⟨menv, s, held, s₁, hident, hb, hfusable, hs₁⟩ := fuses_doubling
  obtain ⟨hiff, hsame⟩ := fused_store_agrees hb ⟨_, _, hfusable⟩ (hident ▸ resultFits_doubled)
  obtain ⟨s₂, hs₂⟩ := hiff.1 ⟨s₁, hs₁⟩
  obtain ⟨hstack, hcursor, -, hmachines⟩ := hsame s₁ s₂ hs₁ hs₂
  exact ⟨menv, s, s₁, s₂, hfusable, rfl, hs₁, hs₂, hstack, hcursor, hmachines⟩

/-! ## A result of another type -/

/-- Calls of static host methods, with results delivered in a given way. -/
def callsBy (deliver : Delivery → TypeRef → Lower Unit) : Rule where
  name := "call"
  build i := do
    let env ← read
    let m ← i.method
    let inputs ← popMany (env.md.method m).params.length
    deliver (.operation (env.md.methodSignature env.options m) inputs) (env.md.method m).result
    return true

/-- The standard rules with another one for calls in front. -/
def callingBy (deliver : Delivery → TypeRef → Lower Unit) : Compiler :=
  ⟨{}, Rulebook.standard.register [.call] 1000 .permanent (callsBy deliver)⟩

/-- A class whose method compares its parameter with itself and stores the answer there.  The comparison
is declared with a number as its result. -/
def mislabelling : Metadata :=
  let md := (Metadata.addType {} (.user "Game.Door" .classType)).2
  let md := (md.addType (.host "Game.Ext" .classType)).2
  let md := (md.addMethod ⟨17⟩
    { name := "op_Equality", result := .int32, isStatic := true
      params := [{ name := "a", type := .int32 }, { name := "b", type := .int32 }] }).2
  let md := (md.addMethod ⟨16⟩
    { name := "M", result := .void, params := [{ name := "x", type := .int32 }]
      flags := { exported := true } }).2
  md.setBody ⟨1⟩ { locals := [], code := [0x03, 0x03, 0x28, 0x01, 0, 0, 0x06, 0x10, 0x01, 0x2a] }

/-- **A result of another type is stored only at once.**  Straight to the slot, which is what the standard
rules do, the truth value ends up in the parameter.  Over a temporary, the copy faults and the parameter
keeps its number. -/
theorem mislabelled_result_is_stored : ∃ p q,
    ((callingBy Delivery.direct).compile mislabelling ⟨16⟩).1 = .ok p ∧
      ((callingBy Delivery.indirect).compile mislabelling ⟨16⟩).1 = .ok q ∧
      (∃ r, ((Compiler.new {}).compile mislabelling ⟨16⟩).1 = .ok r ∧
        (r.heap, r.code) = (p.heap, p.code)) ∧
      p.outcome "M" ["__M_x"] = (true, [some (.bool true)]) ∧
      q.outcome "M" ["__M_x"] = (false, [some (.int .int32 0)]) := by
  have hdirect : ((callingBy Delivery.direct).compile mislabelling ⟨16⟩).1.toOption.map
      (·.outcome "M" ["__M_x"]) = some (true, [some (.bool true)]) := by
    decide +kernel
  have hindirect : ((callingBy Delivery.indirect).compile mislabelling ⟨16⟩).1.toOption.map
      (·.outcome "M" ["__M_x"]) = some (false, [some (.int .int32 0)]) := by
    decide +kernel
  have hsame : ((Compiler.new {}).compile mislabelling ⟨16⟩).1.toOption.map
      (fun r => (r.heap, r.code)) = ((callingBy Delivery.direct).compile mislabelling
        ⟨16⟩).1.toOption.map fun p => (p.heap, p.code) := by
    decide +kernel
  obtain ⟨p, hp, hpends⟩ := Option.map_eq_some_iff.1 hdirect
  obtain ⟨q, hq, hqends⟩ := Option.map_eq_some_iff.1 hindirect
  rw [hp, Option.map_some] at hsame
  obtain ⟨r, hr, hrp⟩ := Option.map_eq_some_iff.1 hsame
  exact ⟨p, q, ok_of_toOption hp, ok_of_toOption hq, ⟨r, ok_of_toOption hr, hrp⟩, hpends, hqends⟩

end FlatHeap
