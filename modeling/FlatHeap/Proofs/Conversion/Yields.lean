import FlatHeap.Proofs.Lowering.Converting
import FlatHeap.Proofs.Lowering.Execution

/-!
# What conversions compute

Accounting says that the code of a conversion disturbs nothing; this module says what it computes.
A step that leaves a variable in hand *yields* a value if executing the code it records, from any
store that has the right inputs, ends with that value in the variable and with everything that is
still needed unchanged (`Lower.Yields`).  Such steps compose (`Lower.Yields.bind`), so a conversion
that is a sequence of host operations is the composition of what they do to the value.

Stores are those of the finished program: the table of variables a step is judged by is any table
that extends the one it leaves, and constants hold their values there.
-/

namespace FlatHeap

open Function

def Store.Agrees (K : Variables) (σ : Store) : Prop :=
  ∀ v, K.Has v → K.kind v = .constant → ∀ x, (K.get v).value = some x → σ v = x

namespace Frame

/-- Executing what was recorded between two frames takes one store to the other. -/
def Leads (env : MethodEnv) (K : Variables) (s s' : Frame) (σ τ : Store) : Prop :=
  ∃ ps, s.draft.Continues env s'.draft ps ∧ Runs (fun v => env.ident (K.get v).type) ps σ τ

/-- The second store agrees with the first one on what is needed, and on everything that is no
temporary. -/
structure Keeping (K : Variables) (N : VarRef → Prop) (σ τ : Store) : Prop where
  needed : ∀ z, N z → τ z = σ z
  lasting : ∀ z, K.kind z ≠ .temporary → τ z = σ z

/-- From any store that meets a condition, the code recorded between two frames puts a value into a
variable and keeps what is needed. -/
def Turns (env : MethodEnv) (P : Store → Prop) (N : VarRef → Prop) (s s' : Frame) (out : VarRef)
    (y : Value) : Prop :=
  ∀ K σ, s'.draft.vars.Grows K → Store.Agrees K σ → P σ →
    ∃ τ, Leads env K s s' σ τ ∧ τ out = y ∧ Keeping K N σ τ

variable {env : MethodEnv} {K : Variables} {s s' s'' : Frame} {N N' : VarRef → Prop}
  {out w : VarRef} {σ τ ρ : Store} {P Q : Store → Prop} {y z : Value}

lemma Leads.refl : Leads env K s s σ σ := ⟨[], .refl env _, .nil⟩

lemma Leads.trans (h : Leads env K s s' σ τ) (h' : Leads env K s' s'' τ ρ) :
    Leads env K s s'' σ ρ := by
  obtain ⟨ps, hps, hr⟩ := h
  obtain ⟨qs, hqs, hr'⟩ := h'
  exact ⟨ps ++ qs, hps.trans hqs, hr.append hr'⟩

lemma Silent.leads (h : Silent s s') : Leads env K s s' σ σ := ⟨[], h.records.code, .nil⟩

lemma Keeping.refl : Keeping K N σ σ := ⟨fun _ _ => rfl, fun _ _ => rfl⟩

lemma Keeping.agrees (h : Keeping K N σ τ) (ha : Store.Agrees K σ) : Store.Agrees K τ := by
  intro v hv hk x hx
  rw [h.lasting v (by simp [hk]), ha v hv hk x hx]

lemma Keeping.trans (h : Keeping K N σ τ) (h' : Keeping K N' τ ρ) (hN : ∀ z, N z → N' z) :
    Keeping K N σ ρ := by
  refine ⟨fun z hz => ?_, fun z hz => ?_⟩
  · rw [h'.needed z (hN z hz), h.needed z hz]
  · rw [h'.lasting z hz, h.lasting z hz]

lemma Turns.trans {N₁ N₂ : VarRef → Prop} {P' : Store → Prop} (h : Turns env P N₁ s s' w y)
    (h' : Turns env Q N₂ s' s'' out z) (g : s'.draft.vars.Grows s''.draft.vars)
    (hN : ∀ z, N z → N₁ z ∧ N₂ z) (hP : ∀ σ, P' σ → P σ)
    (hQ : ∀ σ τ, P' σ → (∀ z, N₁ z → τ z = σ z) → τ w = y → Q τ) : Turns env P' N s s'' out z := by
  intro K σ hK ha hσ
  obtain ⟨τ, hl, hy, hkeep⟩ := h K σ (g.trans hK) ha (hP σ hσ)
  obtain ⟨ρ, hl', hz, hkeep'⟩ := h' K τ hK (hkeep.agrees ha) (hQ σ τ hσ hkeep.needed hy)
  refine ⟨ρ, hl.trans hl', hz, fun z hz => ?_, fun z hz => ?_⟩
  · rw [hkeep'.needed z (hN z hz).2, hkeep.needed z (hN z hz).1]
  · rw [hkeep'.lasting z hz, hkeep.lasting z hz]

lemma Turns.after (hs : Silent s s') (h : Turns env P N s' s'' out y) : Turns env P N s s'' out y := by
  intro K σ hK ha hP
  obtain ⟨τ, hl, hy, hkeep⟩ := h K σ hK ha hP
  exact ⟨τ, hs.leads.trans hl, hy, hkeep⟩

lemma Turns.before (h : Turns env P N s s' out y) (hs : Silent s' s'') : Turns env P N s s'' out y := by
  intro K σ hK ha hP
  obtain ⟨τ, hl, hy, hkeep⟩ := h K σ (hs.vars.trans hK) ha hP
  exact ⟨τ, hl.trans hs.leads, hy, hkeep⟩

lemma Turns.imp (h : Turns env P N s s' out y) (hP : ∀ σ, Q σ → P σ) :
    Turns env Q N s s' out y := fun K σ hK ha hQ => h K σ hK ha (hP σ hQ)

lemma Turns.sparing (h : Turns env P N s s' out y) (hN : ∀ z, N' z → N z) :
    Turns env P N' s s' out y := by
  intro K σ hK ha hP
  obtain ⟨τ, hl, hy, hk⟩ := h K σ hK ha hP
  exact ⟨τ, hl, hy, fun z hz => hk.needed z (hN z hz), hk.lasting⟩

lemma Turns.refl (hP : ∀ σ, P σ → σ out = y) : Turns env P N s s out y :=
  fun _ σ _ _ h => ⟨σ, .refl, hP σ h, .refl⟩

end Frame

lemma Store.Agrees.const {K : Variables} {σ : Store} (h : Store.Agrees K σ) {x : Value} {t : TypeRef}
    {c : VarRef} (hc : Lower.IsConst K x t c) : σ c = x :=
  h c hc.1 hc.2.1 x hc.2.2.2

namespace Lower

open FlatHeap.Frame

variable {env : MethodEnv} {s s' : Frame} {held kept : List VarRef} {v out : VarRef}
  {P Q : Store → Prop} {N : VarRef → Prop} {x y z : Value} {α : Type} {t u : TypeRef}
  {f : VarRef → Lower VarRef}

lemma Meets.and {R R' : Frame → Frame → Prop} {E E' : CompileError → Prop} {m : Lower α}
    {Q Q' : α → Frame → Prop} (h : Meets R E m env s Q) (h' : Meets R' E' m env s Q') :
    Meets R E' m env s fun a s' => Q a s' ∧ Q' a s' := by
  cases hm : m env s with
  | ok a s' => exact meets_of_ok hm (h.ok hm).1 ⟨(h.ok hm).2, (h'.ok hm).2⟩
  | error e s' => exact meets_of_error hm (h'.error hm)

structure IsOf (s : Frame) (v : VarRef) (t : TypeRef) : Prop where
  has : s.draft.vars.Has v
  not_address : (s.draft.vars.get v).isAddress = false
  type_eq : (s.draft.vars.get v).type = t

lemma IsOf.grows (h : IsOf s v t) (g : s.draft.vars.Grows s'.draft.vars) : IsOf s' v t :=
  ⟨g.has h.has, (g.isAddress_eq h.has).trans h.not_address,
    (g.type_eq h.has).trans h.type_eq⟩

lemma Fresh.isOf {hand : List VarRef} (h : Fresh s hand t out s') : IsOf s' out t :=
  ⟨h.isTemp.1, Variable.isAddress_of_temporary h.isTemp.2, h.type_eq⟩

/-- **Yielding a value.**  The step succeeds and leaves a variable of a type in hand, and its code
puts the value there from every store that meets the condition. -/
def Yields (env : MethodEnv) (P : Store → Prop) (m : Lower VarRef) (s : Frame)
    (held kept : List VarRef) (t : TypeRef) (y : Value) : Prop :=
  Meets (Works env held) (fun _ => False) m env s fun out s' =>
    s'.Balanced env (out :: held) kept ∧ IsOf s' out t ∧ Turns env P (s.Keeps held) s s' out y

/-- **Composition.** -/
lemma Yields.bind {m : Lower VarRef} (h : Yields env P m s held kept t y)
    (hf : ∀ w s₁, s₁.Balanced env (w :: held) kept → IsOf s₁ w t →
      Yields env (fun σ => σ w = y) (f w) s₁ held kept u z) :
    Yields env P (m >>= f) s held kept u z := by
  refine Meets.bind h fun w s₁ hw h₁ => ?_
  obtain ⟨hb₁, hof, hturn⟩ := h₁
  refine (hf w s₁ hb₁ hof).mono fun out s₂ hw₂ h₂ => ⟨h₂.1, h₂.2.1, ?_⟩
  exact hturn.trans h₂.2.2 hw₂.vars (fun z hz => ⟨hz, hz.later hw.vars hw.merges_eq⟩) (fun _ => id)
    fun _ _ _ _ => id

lemma Yields.bind_with {m : Lower VarRef} (hb : s.Balanced env (v :: v :: held) kept)
    (h : Yields env (fun σ => σ v = x) m s (v :: held) kept t y)
    (hf : ∀ w s₁, s.draft.vars.Grows s₁.draft.vars → s₁.Balanced env (w :: v :: held) kept →
      IsOf s₁ w t →
      Yields env (fun σ => σ w = y ∧ σ v = x) (f w) s₁ held kept u z) :
    Yields env (fun σ => σ v = x) (m >>= f) s held kept u z := by
  have hkeep : s.Keeps (v :: held) v := keeps_of_mem (hb.usable_hand (v := v) (by simp)).1 (by simp)
  refine Meets.bind (h.sparing (by simp +contextual) fun _ => id) fun w s₁ hw h₁ => ?_
  obtain ⟨hb₁, hof, hturn⟩ := h₁
  refine (hf w s₁ hw.vars hb₁ hof).mono fun out s₂ hw₂ h₂ => ⟨h₂.1, h₂.2.1, ?_⟩
  exact hturn.trans h₂.2.2 hw₂.vars
    (fun z hz => ⟨hz.mono (by simp +contextual), hz.later hw.vars hw.merges_eq⟩) (fun _ => id)
    fun _ _ hσ hkept hy => ⟨hy, (hkept v hkeep).trans hσ⟩

lemma Yields.imp {m : Lower VarRef} (h : Yields env P m s held kept t y) (hP : ∀ σ, Q σ → P σ) :
    Yields env Q m s held kept t y :=
  Meets.mono h fun _ _ _ hs => ⟨hs.1, hs.2.1, hs.2.2.imp hP⟩

lemma yields_congr {m m' : Lower VarRef} (h : m env s = m' env s) :
    Yields env P m s held kept t y ↔ Yields env P m' s held kept t y := meets_congr h

lemma yields_pure (hb : s.Balanced env (v :: held) kept) (hv : IsOf s v t)
    (hP : ∀ σ, P σ → σ v = y) : Yields env P (pure v) s held kept t y :=
  meets_pure ⟨hb, hv, .refl hP⟩

/-- **Giving a value**: whatever else is in hand, the step takes a variable that holds a value to one that
holds another. -/
def Gives (env : MethodEnv) (v : VarRef) (x : Value) (m : Lower VarRef) (t : TypeRef) (y : Value) :
    Prop :=
  ∀ ⦃s held kept⦄, s.Balanced env (v :: held) kept → (s.draft.vars.get v).isAddress = false →
    Yields env (fun σ => σ v = x) m s held kept t y

lemma Gives.bind {m : Lower VarRef} (h : Gives env v x m t y) (hf : ∀ w, Gives env w y (f w) u z) :
    Gives env v x (m >>= f) u z := fun _ _ _ hb hv =>
  (h hb hv).bind fun w _ hb₁ hof => hf w hb₁ hof.not_address

lemma gives_allocate {m : Lower VarRef}
    (hm : ∀ ⦃s held kept⦄, s.Balanced env (v :: v :: held) kept →
      (s.draft.vars.get v).isAddress = false → Yields env (fun σ => σ v = x) m s held kept t y) :
    Gives env v x (do allocate v 1; m) t y := by
  intro s held kept h hv
  refine (allocate_meets h (v := v) (by simp) (Variables.plain_of_not_isAddress hv) 1).quietly.bind
    fun _ s₁ g₁ h₁ => ?_
  have hv₁ := (g₁.vars.isAddress_eq (h.usable_hand (by simp)).1).trans hv
  refine (hm h₁.2 hv₁).mono fun out s₂ _ h₂ => ⟨h₂.1, h₂.2.1, .after h₁.1 (h₂.2.2.sparing ?_)⟩
  exact fun z hz => hz.later g₁.vars g₁.merges_eq

/-! ## Host operations -/

lemma turns_invoke {signature : String} {inputs : List VarRef} {call : Host.Signature.Call}
    (hinv : Invokes env signature inputs (some out) s s') (htemp : s'.draft.vars.IsTemp out)
    (hN : ∀ z, N z → z ≠ out) (hparse : Host.Signature.parse? signature = some call)
    (harity : inputs.length = call.arity) (hvoid : call.result ≠ "SystemVoid")
    (hval : ∀ K σ, s'.draft.vars.Grows K → Store.Agrees K σ → P σ →
      Host.evaluate call.member (inputs.map σ) call.result = .ok y) :
    Turns env P N s s' out y := by
  intro K σ hK ha hP
  obtain ⟨c, hc, hrec⟩ := hinv
  refine ⟨update σ out y, ⟨_, hrec.code, .invoke (ha.const (hc.grows hK)) hparse harity
    (by simp [hvoid]) (hval K σ hK ha hP) .nil⟩, update_self .., fun z hz => ?_, fun z hz => ?_⟩
  · exact update_of_ne (hN z hz) ..
  · refine update_of_ne ?_ ..
    rintro rfl
    exact hz ((hK.kind_eq htemp.1).trans htemp.2)

/-- **Filling a variable.**  The step succeeds, and its code puts the value into a variable that is
in hand already. -/
def Fills (env : MethodEnv) (P : Store → Prop) (m : Lower Unit) (s : Frame)
    (held kept : List VarRef) (out : VarRef) (y : Value) : Prop :=
  Meets (Computes env held (· = out)) (fun _ => False) m env s fun _ s' =>
    s'.Balanced env held kept ∧ Turns env P (fun z => z ≠ out ∧ s.Keeps held z) s s' out y

/-- A step that fills any variable with a value, from a variable in hand that holds another. -/
def GivesInto (env : MethodEnv) (v : VarRef) (x : Value) (low : VarRef → Lower Unit) (y : Value) : Prop :=
  ∀ ⦃s held kept out⦄, s.Balanced env (v :: held) kept → Output s held out →
    (s.draft.vars.get v).isAddress = false → Fills env (fun σ => σ v = x) (low out) s held kept out y

section Built

variable (hmd : env.md.Built) {i : Int}
include hmd

lemma ident_scalar (a : Scalar) : env.ident a.type = a.hostType :=
  Scalar.hostIdent_type hmd a _

lemma hostConvert_yields (a : Scalar) (k : IntKind) (hx : x.integer? = some i)
    (hi : k.format.Holds i) : Gives env v x (hostConvert v a.type k.type) k.type (.ofInt k i) := by
  intro s held kept h hv
  have hname := Scalar.conversionName?_int hmd k
  refine (hostConvert_meets k.type h (by simp [hv]) (by simp [hname])).mono
    fun out s' _ hs => ?_
  obtain ⟨hb, hfresh, -, name, hn, hinv⟩ := hs
  obtain rfl : k.valueName = name := by simpa [hname] using hn
  rw [ident_scalar hmd a, show env.ident k.type = k.hostType from ident_scalar hmd (.int k)] at hinv
  refine ⟨hb, hfresh.isOf,
    turns_invoke hinv hfresh.isTemp (fun z hz => hfresh.ne z (hz.mono (by simp +contextual)))
      (Scalar.parse?_convert a k) rfl (Scalar.hostType_ne_void (.int k)) fun K σ _ _ hσ => ?_⟩
  simp only [List.map_cons, List.map_nil, hσ]
  exact Scalar.evaluate_convert hx hi

lemma hostConvertInto_fills (a : Scalar) (k : IntKind) (hx : x.integer? = some i)
    (hi : k.format.Holds i) : GivesInto env v x (hostConvertInto v a.type k.type) (.ofInt k i) := by
  intro s held kept out h ho hv
  have hname := Scalar.conversionName?_int hmd k
  refine (hostConvertInto_meets k.type h ho (by simp [hv]) (by simp [hname])).mono
    fun _ s' hw hs => ?_
  obtain ⟨hb, -, name, hn, hinv⟩ := hs
  obtain rfl : k.valueName = name := by simpa [hname] using hn
  rw [ident_scalar hmd a, show env.ident k.type = k.hostType from ident_scalar hmd (.int k)] at hinv
  refine ⟨hb, turns_invoke hinv (hw.vars.isTemp ho.isTemp) (fun z hz => hz.1)
    (Scalar.parse?_convert a k) rfl (Scalar.hostType_ne_void (.int k)) fun K σ _ _ hσ => ?_⟩
  simp only [List.map_cons, List.map_nil, hσ]
  exact Scalar.evaluate_convert hx hi

lemma withConstant_yields (k : IntKind) (r : Scalar) {member : String} (c : Int)
    (hm : Host.Signature.solid member.toList = true)
    (hy : Host.evaluate member [x, .ofInt k c] r.hostType = .ok y) :
    Gives env v x (do
      let c ← intConstant k.type c
      invokeTemp (Host.Signature.binary k.hostType member r.hostType) [v, c] r.type) r.type y := by
  intro s held kept h hv
  have hconst : env.md.integerValue? k.type c = some (.ofInt k c) :=
    Scalar.integerValue?_type hmd (.int k) c
  refine (withConstant_meets k.type r.type c h (by simp [hv]) (by simp [hconst])).mono
    fun out s' _ hs => ?_
  obtain ⟨hb, hfresh, -, x', c', hx', hc', hinv⟩ := hs
  obtain rfl : .ofInt k c = x' := by simpa [hconst] using hx'
  refine ⟨hb, hfresh.isOf,
    turns_invoke hinv hfresh.isTemp (fun z hz => hfresh.ne z (hz.mono (by simp +contextual)))
      (Scalar.parse?_binary (.int k) r hm) rfl (Scalar.hostType_ne_void r) fun K σ hK ha hσ => ?_⟩
  simp only [List.map_cons, List.map_nil, hσ, ha.const (hc'.grows hK)]
  exact hy

/-! ### Bits -/

lemma bitwise_yields (k : IntKind) {c : Int} (hx : x.integer? = some i) (hc : k.format.Holds c) :
    Gives env v x (bitwise k.type "op_LogicalAnd" v c) k.type (.ofInt k (Host.bitAnd i c)) := by
  intro s held kept h hv
  rw [yields_congr (bitwise_run k.type "op_LogicalAnd" c),
    show env.ident k.type = k.hostType from ident_scalar hmd (.int k)]
  exact withConstant_yields hmd k (.int k) c (by decide) (Scalar.evaluate_and hx hc) h hv

lemma nonZero_yields (k : IntKind) (hx : x.integer? = some i) :
    Gives env v x (nonZero k.type v) .boolean (.bool (decide (i ≠ 0))) := by
  intro s held kept h hv
  have hzero : k.format.Holds 0 := by cases k <;> decide
  rw [yields_congr (nonZero_run k.type),
    show env.ident k.type = k.hostType from ident_scalar hmd (.int k)]
  exact withConstant_yields hmd k .boolean 0 (by decide)
    (Scalar.evaluate_inequality hx (Scalar.integer?_ofInt hzero)) h hv

lemma bitwiseInto_fills (k : IntKind) {c : Int} (hx : x.integer? = some i) (hc : k.format.Holds c) :
    GivesInto env v x (bitwiseInto k.type "op_LogicalAnd" v c) (.ofInt k (Host.bitAnd i c)) := by
  intro s held kept out h ho hv
  have hconst : env.md.integerValue? k.type c = some (.ofInt k c) :=
    Scalar.integerValue?_type hmd (.int k) c
  refine (bitwiseInto_meets c h ho (by simp [hv]) (by simp [hconst])).mono
    fun _ s' hw hs => ?_
  obtain ⟨hb, -, x', c', hx', hc', hinv⟩ := hs
  obtain rfl : .ofInt k c = x' := by simpa [hconst] using hx'
  rw [show env.ident k.type = k.hostType from ident_scalar hmd (.int k)] at hinv
  refine ⟨hb, turns_invoke hinv (hw.vars.isTemp ho.isTemp) (fun z hz => hz.1)
    (Scalar.parse?_binary (.int k) (.int k) (by decide)) rfl (Scalar.hostType_ne_void (.int k))
    fun K σ hK ha hσ => ?_⟩
  simp only [List.map_cons, List.map_nil, hσ, ha.const (hc'.grows hK)]
  exact Scalar.evaluate_and hx hc

lemma setBitsIf_fills {condition : VarRef} (k : IntKind) {c j : Int} {b : Bool}
    (h : s.Balanced env (condition :: held) kept) (ho : Output s held out)
    (hcond : (s.draft.vars.get condition).isAddress = false) (hj : k.format.Holds j)
    (hc : k.format.Holds c) :
    Fills env (fun σ => σ condition = .bool b ∧ σ out = .ofInt k j)
      (setBitsIf condition k.type out c) s held kept out
      (.ofInt k (if b then Host.bitOr j c else j)) := by
  have hconst : env.md.integerValue? k.type c = some (.ofInt k c) :=
    Scalar.integerValue?_type hmd (.int k) c
  refine (setBitsIf_meets c h ho (by simp [hcond]) (by simp [hconst])).mono fun _ s' hw hs => ?_
  obtain ⟨hb, x', c', signature, hx', hc', hs', hrec⟩ := hs
  obtain rfl : .ofInt k c = x' := by simpa [hconst] using hx'
  rw [show env.ident k.type = k.hostType from ident_scalar hmd (.int k)] at hs'
  refine ⟨hb, fun K σ hK ha hσ => ?_⟩
  have htemp := hw.vars.isTemp ho.isTemp
  have hcode : s.draft.Continues env s'.draft _ := ⟨hrec.vars, hrec.code.ops, hrec.code.legal⟩
  cases b with
  | false => exact ⟨σ, ⟨_, hcode, .skipOne hσ.1 .nil⟩, hσ.2, .refl⟩
  | true =>
    have hval : Host.evaluate "op_LogicalOr" ([out, c'].map σ) k.hostType =
        .ok (.ofInt k (Host.bitOr j c)) := by
      simp only [List.map_cons, List.map_nil, hσ.2, ha.const (hc'.grows hK)]
      exact Scalar.evaluate_or (Scalar.integer?_ofInt hj) hc
    refine ⟨update σ out (.ofInt k (Host.bitOr j c)), ⟨_, hcode, .pass hσ.1 (.invoke
      (ha.const (hs'.grows hK)) (Scalar.parse?_binary (.int k) (.int k) (by decide)) rfl
      (by simpa using Scalar.hostType_ne_void (.int k)) hval (.mark .nil))⟩, update_self ..,
      fun z hz => update_of_ne hz.1 .., fun z hz => update_of_ne ?_ ..⟩
    rintro rfl
    exact hz ((hK.kind_eq htemp.1).trans htemp.2)

/-- **Sign bits.**  The result has the low bits that the first variable in hand gives, and further
bits if the second one has its sign bit set. -/
lemma withSignBits_yields {a b : VarRef} {low : VarRef → Lower Unit} {isSet : Lower VarRef}
    (k : IntKind) {c j : Int} {xa xb : Value} {set : Bool}
    (h : s.Balanced env (a :: b :: held) kept) (hva : (s.draft.vars.get a).isAddress = false)
    (hvb : (s.draft.vars.get b).isAddress = false) (hlow : GivesInto env a xa low (.ofInt k j))
    (hset : Gives env b xb isSet .boolean (.bool set)) (hj : k.format.Holds j)
    (hc : k.format.Holds c) :
    Yields env (fun σ => σ a = xa ∧ σ b = xb) (withSignBits k.type low isSet c) s held kept k.type
      (.ofInt k (if set then Host.bitOr j c else j)) := by
  have hahas : s.draft.vars.Has a := (h.usable_hand (by simp)).1
  have hbhas : s.draft.vars.Has b := (h.usable_hand (by simp)).1
  refine (temp_meets h k.type).quietly.bind fun out s₁ g₁ h₁ => ?_
  obtain ⟨hsil₁, hb₁, htemp, htype, hfresh, hwait, hkept, hzero⟩ := h₁
  have hplain := Variables.plain_of_temporary htemp.2
  have hmerges : s₁.merges = s.merges := g₁.merges_eq
  refine Meets.sparingRest out ?_ htemp (by
    simp only [List.cons_append, Variables.loads_cons] at hzero
    rw [Frame.waiting, hmerges]
    exact (Nat.add_eq_zero_iff.1 (Nat.add_eq_zero_iff.1 hzero).2).2)
  refine (reserve_meets hb₁ (v := out) (by simp) hplain).quietly.bind fun _ s₂ g₂ h₂ => ?_
  obtain ⟨hsil₂, hb₂⟩ := h₂
  have g₀₂ : s.draft.vars.Grows s₂.draft.vars := g₁.vars.trans g₂.vars
  have htemp₂ := g₂.vars.isTemp htemp
  refine ((hlow (hb₂.perm (.swap a out _)) ⟨htemp₂, by simp⟩
    ((g₀₂.isAddress_eq hahas).trans hva)).sparing (by simp +contextual) fun _ => id).bind
    fun _ s₃ g₃ h₃ => ?_
  obtain ⟨hb₃, ht₃⟩ := h₃
  have htemp₃ := g₃.vars.isTemp htemp₂
  refine Meets.bind ((hset (hb₃.perm (.swap b out _))
    (((g₀₂.trans g₃.vars).isAddress_eq hbhas).trans hvb)).sparing (by simp +contextual)
    fun _ => False.elim) fun cnd s₄ g₄ h₄ => ?_
  obtain ⟨hb₄, hof₄, ht₄⟩ := h₄
  have htemp₄ := g₄.vars.isTemp htemp₃
  refine ((setBitsIf_fills hmd k (b := set) hb₄ ⟨htemp₄, by simp⟩ hof₄.not_address hj hc).sparing
    (by simp +contextual) fun _ => id).bind fun _ s₅ g₅ h₅ => ?_
  obtain ⟨hb₅, ht₅⟩ := h₅
  have hwait₅ : out ∉ s₅.waiting := by
    have : s₅.merges = s.merges := by
      rw [g₅.merges_eq, g₄.merges_eq, g₃.merges_eq, g₂.merges_eq, g₁.merges_eq]
    rwa [Frame.waiting, this]
  refine (release_meets hb₅ hwait₅ hkept).quietly.bind fun _ s₆ g₆ h₆ => ?_
  obtain ⟨hsil₆, hb₆⟩ := h₆
  have htemp₆ := (g₅.vars.trans g₆.vars).isTemp htemp₄
  refine meets_pure ⟨hb₆, ⟨htemp₆.1, Variable.isAddress_of_temporary htemp₆.2, ?_⟩, ?_⟩
  · rw [((((g₂.trans g₃).trans g₄).trans g₅).trans g₆).vars.type_eq htemp.1, htype]
  -- the low bits, then the sign bit, then the result
  have hbout : b ≠ out := hfresh b (keeps_of_mem hbhas (by simp))
  have hresult : Turns env (fun τ => τ b = xb ∧ τ out = .ofInt k j)
      (fun z => z ≠ out ∧ s₃.Keeps held z) s₃ s₅ out (.ofInt k (if set then Host.bitOr j c else j)) :=
    ht₄.trans ht₅ g₅.vars
      (fun z hz => ⟨hz.2.mono (by simp +contextual), hz.1,
        (hz.2.later g₄.vars g₄.merges_eq).mono (by simp +contextual)⟩) (fun _ hτ => hτ.1)
      fun _ _ hσ hkept hy => ⟨hy, (hkept out (keeps_of_mem htemp₃.1 (by simp))).trans hσ.2⟩
  refine .after (hsil₁.trans hsil₂) ((ht₃.trans hresult (g₄.vars.trans g₅.vars) (fun z hz => ?_)
    (fun _ hσ => hσ.1) fun σ τ hσ hkept hy => ⟨?_, hy⟩).before hsil₆)
  · have hzout : z ≠ out := hfresh z (hz.mono (by simp +contextual))
    have hz₂ : s₂.Keeps held z := hz.later g₀₂ (g₂.merges_eq.trans g₁.merges_eq)
    exact ⟨⟨hzout, hz₂.mono (by simp +contextual)⟩, hzout, hz₂.later g₃.vars g₃.merges_eq⟩
  · exact (hkept b ⟨hbout, keeps_of_mem (g₀₂.has hbhas) (by simp)⟩).trans hσ.2

end Built

end Lower

end FlatHeap
