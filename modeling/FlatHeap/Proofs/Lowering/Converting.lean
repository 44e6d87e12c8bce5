import FlatHeap.Proofs.Lowering.Recording

/-!
# Conversions keep the books

A conversion takes the variable it converts out of the hand and leaves its result there.  Whatever
way it goes, it records a computation that writes temporaries only.  The proofs follow the ways of
conversion one by one; the only ones that need thought are those that read a variable twice, where
the second read has to be allocated before the first is used up, and the sign bits, where the result
is kept by a reservation while it is written a second time.

Errors that a conversion may raise are *harmless*: they say that the host lacks something or that an
address was used as a value, and never that the pool was misused or that the draft cannot be laid out.
-/

namespace FlatHeap

def Breach.aboutTemporary : Breach → Bool
  | pooledReference _ _ | allocatePooled _ | readPooled _ | reservePooled _ | releaseUnreserved _
  | leak _ _ _ => true
  | _ => false

/-- The breach is about a label placed twice or a variable without a slot. -/
def Breach.aboutPlace : Breach → Bool
  | labelPlacedTwice _ | noHeapSlot _ => true
  | _ => false

namespace CompileError

def aboutTemporary (e : CompileError) : Bool :=
  match e.cause with
  | .invariant b => b.aboutTemporary
  | _ => false

/-- The error is about a label that is not placed once, or about a variable without a slot. -/
def aboutPlace (e : CompileError) : Bool :=
  match e.cause with
  | .invariant b => b.aboutPlace
  | .unresolvedLabel _ => true
  | _ => false

/-- The error is neither about the use of a temporary nor about a label or a slot. -/
structure Harmless (e : CompileError) : Prop where
  temporaries : e.aboutTemporary = false
  places : e.aboutPlace = false

lemma harmless_unsupported (l : Limitation) : (unsupported l).Harmless := ⟨rfl, rfl⟩

lemma harmless_invariant {b : Breach} (h : (b.aboutTemporary || b.aboutPlace) = false) :
    (CompileError.invariant b).Harmless :=
  ⟨(Bool.or_eq_false_iff.1 h).1, (Bool.or_eq_false_iff.1 h).2⟩

lemma aboutTemporary_locate (e : CompileError) (method : String) (offset : Option Nat) :
    (e.locate method offset).aboutTemporary = e.aboutTemporary := by
  unfold locate
  split <;> rfl

lemma aboutPlace_locate (e : CompileError) (method : String) (offset : Option Nat) :
    (e.locate method offset).aboutPlace = e.aboutPlace := by
  unfold locate
  split <;> rfl

lemma Harmless.locate {e : CompileError} (h : e.Harmless) (method : String) (offset : Option Nat) :
    (e.locate method offset).Harmless :=
  ⟨(aboutTemporary_locate e method offset).trans h.temporaries,
    (aboutPlace_locate e method offset).trans h.places⟩

end CompileError

/-- Code was recorded that writes only temporaries that neither `held` nor a merge slot refers to. -/
abbrev Frame.Works (env : MethodEnv) (held : List VarRef) : Frame → Frame → Prop :=
  Frame.Computes env held fun _ => False

namespace Lower

open FlatHeap.Frame CompileError

variable {R : Frame → Frame → Prop} {env : MethodEnv} {s s' : Frame}
  {held kept inputs : List VarRef} {v out : VarRef} {signature : String}

section Sparing

variable {α : Type} {E : CompileError → Prop} {m : Lower α} {Q : α → Frame → Prop}

lemma Meets.sparing {held' : List VarRef} {W W' : VarRef → Prop}
    (h : Meets (Computes env held W) E m env s Q) (hh : ∀ v ∈ held', v ∈ held)
    (hW : ∀ v, W v → W' v) : Meets (Computes env held' W') E m env s Q :=
  h.imp (fun _ g => g.mono hh fun v hv => .inl (hW v hv)) (fun _ => id) fun _ _ _ => id

lemma Meets.sparingRest (out : VarRef) (h : Meets (Computes env held (· = out)) E m env s Q)
    (ht : s.draft.vars.IsTemp out) (hz : s.draft.vars.loads (held ++ s.waiting) out = 0) :
    Meets (Works env held) E m env s Q := by
  have hfree : ¬ s.Keeps held out := by
    rintro ⟨-, hk⟩
    obtain ⟨w, hw, hl⟩ := hk ht.2
    have hle : s.draft.vars.load w out ≤ s.draft.vars.loads (held ++ s.waiting) out :=
      Variables.load_le_loads hw out
    omega
  refine h.imp (fun _ g => g.mono (fun _ => id) ?_) (fun _ => id) fun _ _ _ => id
  rintro _ rfl
  exact .inr ⟨g.vars.isTemp ht, hfree⟩

end Sparing

/-! ## Host operations

Each is specified exactly, and from that it follows that it works. -/

section Exact

variable {E : CompileError → Prop}

structure Output (s : Frame) (held : List VarRef) (out : VarRef) : Prop where
  isTemp : s.draft.vars.IsTemp out
  inHand : out ∈ held

structure Fresh (s : Frame) (held : List VarRef) (t : TypeRef) (out : VarRef) (s' : Frame) :
    Prop where
  isTemp : s'.draft.vars.IsTemp out
  type_eq : (s'.draft.vars.get out).type = t
  ne : ∀ x, s.Keeps held x → x ≠ out

lemma Output.grows (h : Output s held out) (g : s.draft.vars.Grows s'.draft.vars) :
    Output s' held out :=
  ⟨g.isTemp h.isTemp, h.inHand⟩

lemma Invokes.works {hand : List VarRef} {t : TypeRef}
    (h : Invokes env signature inputs (some out) s s') (hfresh : Fresh s hand t out s')
    (hhand : ∀ x ∈ held, x ∈ hand) : Works env held s s' := by
  refine h.computes ?_
  rintro o ⟨⟩
  exact .inl ⟨hfresh.isTemp, fun hk => hfresh.ne _ (hk.mono hhand) rfl⟩

lemma invokeInto_meets (h : s.Balanced env (inputs ++ held) kept) (ho : Output s held out)
    (hE : ∀ v ∈ inputs, (s.draft.vars.get v).isAddress = true →
      E (.invariant (.addressAsValue v))) :
    Meets (Computes env held (· = out)) E (invoke signature inputs (some out)) env s fun _ s' =>
      s'.Balanced env held kept ∧ Invokes env signature inputs (some out) s s' ∧
        ∀ v ∈ inputs, (s.draft.vars.get v).isAddress = false := by
  refine ((invoke_meets (by simp) h ?_ ?_ hE ?_ ?_).relate fun _ s' _ hs => hs.2.1.computes ?_).mono
    fun _ s' _ hs => ⟨hs.1, hs.2.1, hs.2.2.1⟩
  · rintro o ⟨⟩
    exact ho.isTemp.1
  · rintro o ⟨⟩ -
    exact h.not_pooled (List.mem_append_right _ ho.inHand)
      (Variables.plain_of_temporary ho.isTemp.2)
  · rintro o ⟨⟩ ha
    exact absurd ha (by simp [Variable.isAddress_of_temporary ho.isTemp.2])
  · rintro o ⟨⟩ ha
    exact absurd ha (by simp [Variable.isConstant_of_temporary ho.isTemp.2])
  · rintro o ⟨⟩
    exact .inr rfl

lemma hostConvertInto_meets {source : TypeRef} (target : TypeRef)
    (h : s.Balanced env (v :: held) kept) (ho : Output s held out)
    (hE : (s.draft.vars.get v).isAddress = true → E (.invariant (.addressAsValue v)))
    (hn : env.md.conversionName? target = none →
      E (.unsupported (.noHostConversion (env.md.typeName target)))) :
    Meets (Computes env held (· = out)) E (hostConvertInto v source target out) env s fun _ s' =>
      s'.Balanced env held kept ∧ (s.draft.vars.get v).isAddress = false ∧
        ∃ name, env.md.conversionName? target = some name ∧
        Invokes env (Host.Signature.render "SystemConvert" ("To" ++ name) [env.ident source]
          (env.ident target)) [v] (some out) s s' := by
  have h : s.Balanced env ([v] ++ held) kept := h
  rw [hostConvertInto, meets_metadata_bind]
  cases hname : env.md.conversionName? target with
  | none => exact meets_refuse (hn hname)
  | some name =>
    simp only [meets_ident_bind]
    exact (invokeInto_meets h ho (by simpa using hE)).mono
      fun _ s' _ hs => ⟨hs.1, hs.2.2 v (by simp), name, rfl, hs.2.1⟩

lemma Meets.beside {m : Lower VarRef} {t : TypeRef} {D : Value → Prop}
    (hm : Meets Silent E m env s fun c s' =>
      s'.Balanced env (v :: held) kept ∧ ∃ x, D x ∧ IsConst s'.draft.vars x t c)
    (hv : s.draft.vars.Has v)
    (hE : (s.draft.vars.get v).isAddress = true → E (.invariant (.addressAsValue v))) :
    Meets Silent E m env s fun c s' => s'.Balanced env ([v, c] ++ held) kept ∧
      (∀ w ∈ [v, c], (s'.draft.vars.get w).isAddress = true → E (.invariant (.addressAsValue w))) ∧
      ∃ x, D x ∧ IsConst s'.draft.vars x t c := by
  refine hm.mono fun c s' g hs => ?_
  obtain ⟨hb, x, hx, hc⟩ := hs
  refine ⟨(hb.hold hc.weightless).perm (.swap v c held), fun w hw ha => ?_, x, hx, hc⟩
  rcases List.mem_pair.1 hw with rfl | rfl
  · exact hE (by rwa [g.vars.isAddress_eq hv] at ha)
  · simp [hc.not_address] at ha

lemma bitwiseInto_meets {t : TypeRef} {op : String} (k : Int)
    (h : s.Balanced env (v :: held) kept) (ho : Output s held out)
    (hE : (s.draft.vars.get v).isAddress = true → E (.invariant (.addressAsValue v)))
    (hn : env.md.integerValue? t k = none →
      E (.invariant (.noIntegerConstants (env.md.typeName t)))) :
    Meets (Computes env held (· = out)) E (bitwiseInto t op v k out) env s fun _ s' =>
      s'.Balanced env held kept ∧ (s.draft.vars.get v).isAddress = false ∧
        ∃ x c, env.md.integerValue? t k = some x ∧ IsConst s'.draft.vars x t c ∧
        Invokes env (Host.Signature.binary (env.ident t) op (env.ident t)) [v, c] (some out) s s' := by
  have hv := (h.usable_hand (v := v) (by simp)).1
  refine ((intConstant_meets h t k hn).beside hv hE).quietly.bind fun c s₁ _ h₁ => ?_
  obtain ⟨hsil, hb, hE₁, x, hx, hc⟩ := h₁
  rw [meets_ident_bind]
  refine (invokeInto_meets hb (ho.grows hsil.vars) hE₁).mono
    fun _ s' _ hs => ⟨hs.1, ?_, x, c, hx, hc.grows hs.2.1.vars, hs.2.1.after hsil⟩
  rw [← hsil.vars.isAddress_eq hv]
  exact hs.2.2 v (by simp)

lemma hostConvert_meets {source : TypeRef} (target : TypeRef)
    (h : s.Balanced env (v :: held) kept)
    (hE : (s.draft.vars.get v).isAddress = true → E (.invariant (.addressAsValue v)))
    (hn : env.md.conversionName? target = none →
      E (.unsupported (.noHostConversion (env.md.typeName target)))) :
    Meets (Works env held) E (hostConvert v source target) env s fun out s' =>
      s'.Balanced env (out :: held) kept ∧ Fresh s (v :: held) target out s' ∧
        (s.draft.vars.get v).isAddress = false ∧
        ∃ name, env.md.conversionName? target = some name ∧
          Invokes env (Host.Signature.render "SystemConvert" ("To" ++ name) [env.ident source]
            (env.ident target)) [v] (some out) s s' := by
  have hhas := (h.usable_hand (v := v) (by simp)).1
  refine Meets.relate (R := Any) ((temp_meets (R := Silent) h target).keep.bind fun out s₁ _ h₁ => ?_)
    fun _ _ _ ⟨_, hfresh, _, _, _, hinv⟩ => hinv.works hfresh (by simp +contextual)
  obtain ⟨hsil, hb, htemp, htype, hfresh, -⟩ := h₁
  refine (hostConvertInto_meets target (hb.perm (.swap v out held)) ⟨htemp, by simp⟩ ?_
    hn).keep.bind fun _ s₂ _ h₂ => ?_
  · rwa [hsil.vars.isAddress_eq hhas]
  · obtain ⟨-, hb₂, hv, name, hname, hinv⟩ := h₂
    exact meets_pure ⟨hb₂, ⟨hinv.vars.isTemp htemp, (hinv.vars.type_eq htemp.1).trans htype, hfresh⟩,
      (hsil.vars.isAddress_eq hhas).symm.trans hv, name, hname, hinv.after hsil⟩

lemma Meets.invokeBeside {m : Lower VarRef} {t : TypeRef} {D : Value → Prop} (result : TypeRef)
    (hm : Meets Silent E m env s fun c s' =>
      s'.Balanced env (v :: held) kept ∧ ∃ x, D x ∧ IsConst s'.draft.vars x t c)
    (h : s.Balanced env (v :: held) kept)
    (hE : (s.draft.vars.get v).isAddress = true → E (.invariant (.addressAsValue v))) :
    Meets (Works env held) E (do let c ← m; invokeTemp signature [v, c] result) env s fun out s' =>
      s'.Balanced env (out :: held) kept ∧ Fresh s (v :: held) result out s' ∧
        (s.draft.vars.get v).isAddress = false ∧
        ∃ x c, D x ∧ IsConst s'.draft.vars x t c ∧ Invokes env signature [v, c] (some out) s s' := by
  have hv := (h.usable_hand (v := v) (by simp)).1
  refine Meets.relate (R := Any) ((hm.beside hv hE).keep.bind fun c s₁ _ h₁ => ?_)
    fun _ _ _ ⟨_, hfresh, _, _, _, _, _, hinv⟩ => hinv.works hfresh (by simp +contextual)
  obtain ⟨hsil, hb, hE₁, x, hx, hc⟩ := h₁
  refine (invokeTemp_meets result hb hE₁).mono fun out s' _ hs => ?_
  obtain ⟨hb', hinv, hia, htemp, htype, hfresh⟩ := hs
  refine ⟨hb', ⟨htemp, htype, fun y hy => hfresh y ?_⟩, ?_, x, c, hx, hc.grows hinv.vars,
    hinv.after hsil⟩
  · have hme : s₁.merges = s.merges := by rw [hsil.rest]; rfl
    exact (hy.later hsil.vars hme).mono (by simp +contextual)
  · rw [← hsil.vars.isAddress_eq hv]
    exact hia v (by simp)

lemma withConstant_meets (t result : TypeRef) (k : Int)
    (h : s.Balanced env (v :: held) kept)
    (hE : (s.draft.vars.get v).isAddress = true → E (.invariant (.addressAsValue v)))
    (hn : env.md.integerValue? t k = none →
      E (.invariant (.noIntegerConstants (env.md.typeName t)))) :
    Meets (Works env held) E (do let c ← intConstant t k; invokeTemp signature [v, c] result) env s
      fun out s' =>
        s'.Balanced env (out :: held) kept ∧ Fresh s (v :: held) result out s' ∧
          (s.draft.vars.get v).isAddress = false ∧
          ∃ x c, env.md.integerValue? t k = some x ∧ IsConst s'.draft.vars x t c ∧
            Invokes env signature [v, c] (some out) s s' :=
  (intConstant_meets h t k hn).invokeBeside result h hE

lemma nonNull_meets (h : s.Balanced env (v :: held) kept)
    (hE : (s.draft.vars.get v).isAddress = true → E (.invariant (.addressAsValue v))) :
    Meets (Works env held) E (nonNull v) env s fun out s' =>
      s'.Balanced env (out :: held) kept ∧ Fresh s (v :: held) .boolean out s' ∧
        (s.draft.vars.get v).isAddress = false ∧
        ∃ x c, x = .null ∧ IsConst s'.draft.vars x .object c ∧
          Invokes env (Host.Signature.binary "SystemObject" "op_Inequality" "SystemBoolean") [v, c]
            (some out) s s' :=
  ((constant_meets h .null .object).mono fun _ _ _ hs => ⟨hs.1, _, rfl, hs.2⟩).invokeBeside .boolean
    h hE

lemma bitwise_run (t : TypeRef) (op : String) (k : Int) :
    bitwise t op v k env s = (do
      let c ← intConstant t k
      invokeTemp (Host.Signature.binary (env.ident t) op (env.ident t)) [v, c] t : Lower VarRef)
        env s :=
  bind_congr_run fun _ _ => rfl

lemma nonZero_run (t : TypeRef) :
    nonZero t v env s = (do
      let c ← intConstant t 0
      invokeTemp (Host.Signature.binary (env.ident t) "op_Inequality" "SystemBoolean") [v, c]
        .boolean : Lower VarRef) env s :=
  bind_congr_run fun _ _ => rfl

lemma setBitsIf_meets {condition : VarRef} {t : TypeRef} (k : Int)
    (h : s.Balanced env (condition :: held) kept) (ho : Output s held out)
    (hE : (s.draft.vars.get condition).isAddress = true →
      E (.invariant (.addressAsValue condition)))
    (hn : env.md.integerValue? t k = none →
      E (.invariant (.noIntegerConstants (env.md.typeName t)))) :
    Meets (Computes env held (· = out)) E (setBitsIf condition t out k) env s fun _ s' =>
      s'.Balanced env held kept ∧ ∃ x c signature, env.md.integerValue? t k = some x ∧
        IsConst s'.draft.vars x t c ∧
        IsConst s'.draft.vars
          (.text (Host.Signature.binary (env.ident t) "op_LogicalOr" (env.ident t))) .string
          signature ∧
        Records env [.test condition ⟨s.draft.labelCount⟩, .invoke signature [out, c] (some out),
          .mark ⟨s.draft.labelCount⟩] (labelled s) s' := by
  refine Meets.relate (R := Any) ?_ fun _ s' _ hs => ?_
  · refine Meets.bind (meets_of_ok newLabel_run trivial
      (Q := fun l s' => l = ⟨s.draft.labelCount⟩ ∧ s' = labelled s) ⟨rfl, rfl⟩) fun l s₁ _ h₁ => ?_
    obtain ⟨rfl, rfl⟩ := h₁
    refine (jumpIfFalse_meets ⟨s.draft.labelCount⟩ (balanced_labelled h) hE).bind fun _ s₂ _ h₂ => ?_
    obtain ⟨hb₂, hrec₂, -⟩ := h₂
    have ho₂ : Output s₂ held out := ho.grows (s := s) hrec₂.vars
    have hplain := Variables.plain_of_temporary ho₂.isTemp.2
    refine (allocate_meets (R := Silent) hb₂ ho₂.inHand hplain 1).keep.bind
      fun _ s₃ _ h₃ => ?_
    obtain ⟨hsil, hb₃⟩ := h₃
    have ho₃ : Output s₃ held out := ho₂.grows hsil.vars
    have hna : (s₃.draft.vars.get out).isAddress = false :=
      Variable.isAddress_of_temporary ho₃.isTemp.2
    refine (bitwiseInto_meets k hb₃ ho₃ (by simp [hna]) hn).keep.bind
      fun _ s₄ _ h₄ => ?_
    obtain ⟨-, hb₄, -, x, c, hx, hc, signature, hs, hrec⟩ := h₄
    refine meets_of_ok (mark_run _) trivial ⟨balanced_emitting hb₄ _, x, c, signature, hx, hc, hs, ?_⟩
    have hmark : Records env [.mark ⟨s.draft.labelCount⟩] s₄ _ :=
      records_emitting_single ⟨by simp [Piece.vars], trivial⟩
    exact ((hrec₂.trans hsil.records).trans hrec).trans hmark
  · obtain ⟨-, x, c, signature, -, -, -, hrec⟩ := hs
    have hcount : s'.draft.labelCount = s.draft.labelCount + 1 := by rw [hrec.rest]; rfl
    have hlabel : s.Between s' ⟨s.draft.labelCount⟩ := ⟨le_rfl, by simp [hcount]⟩
    refine computes_labelled hrec (by simp [Closed, Piece.targets, Piece.marks])
      (by simp [Piece.marks]) fun q hq => ?_
    simp only [List.mem_cons, List.not_mem_nil, or_false] at hq
    rcases hq with rfl | rfl | rfl
    · exact ⟨trivial, by simp [Piece.writes], by simpa [Piece.targets] using hlabel⟩
    · exact quiet_invoke (by rintro o ⟨⟩; exact .inr rfl)
    · exact ⟨trivial, by simp [Piece.writes], by simp [Piece.targets]⟩

lemma copyInto_meets (h : s.Balanced env (v :: held) kept) (ho : Output s held out)
    (hE : (s.draft.vars.get v).isAddress = true → E (.invariant (.addressAsValue v))) :
    Meets (Computes env held (· = out)) E (copy v out) env s fun _ s' =>
      s'.Balanced env held kept ∧ Records env (copyPieces v out) s s' ∧
        (s.draft.vars.get v).isAddress = false := by
  refine ((copy_meets h ho.isTemp.1 ?_ hE ?_ ?_).relate ?_).mono
    fun _ s' _ hs => ⟨hs.1, hs.2.1, hs.2.2.1⟩
  · exact fun _ => h.not_pooled (by simp [ho.inHand]) (Variables.plain_of_temporary ho.isTemp.2)
  · simp [Variable.isAddress_of_temporary ho.isTemp.2]
  · simp [Variable.isConstant_of_temporary ho.isTemp.2]
  · exact fun _ _ _ hs => computes_copy hs.2.1 (.inr rfl)

/-- A temporary has taken the place of the variable in hand. -/
def Brings (env : MethodEnv) (held kept : List VarRef) (out : VarRef) (s' : Frame) : Prop :=
  s'.Balanced env (out :: held) kept ∧ s'.draft.vars.IsTemp out

/-- A value has been copied into a temporary taken for it. -/
structure Taken (env : MethodEnv) (held kept : List VarRef) (v : VarRef) (t : TypeRef) (s : Frame)
    (out : VarRef) (s' : Frame) : Prop where
  brings : Brings env held kept out s'
  fresh : Fresh s (v :: held) t out s'
  code : ∃ s₁, Silent s s₁ ∧ Records env (copyPieces v out) s₁ s'

lemma freshCopy_meets (t : TypeRef) (h : s.Balanced env (v :: held) kept)
    (hE : (s.draft.vars.get v).isAddress = true → E (.invariant (.addressAsValue v))) :
    Meets (Works env held) E (do
      let out ← temp t
      copy v out
      pure out) env s fun out s' =>
        Taken env held kept v t s out s' ∧ (s.draft.vars.get v).isAddress = false := by
  have hv := (h.usable_hand (v := v) (by simp)).1
  refine (temp_meets h t).quietly.bind fun out s₁ g₁ h₁ => ?_
  obtain ⟨hsil, hb, htemp, htype, hne, -, -, hzero⟩ := h₁
  refine Meets.bind (Meets.sparingRest out ((copyInto_meets (hb.perm (.swap v out held))
    ⟨htemp, by simp⟩ ?_).sparing (by simp +contextual) fun _ => id) htemp ?_) fun _ s₂ g₂ h₂ => ?_
  · rwa [hsil.vars.isAddress_eq hv]
  · simp only [List.cons_append, Variables.loads_cons] at hzero
    rw [Frame.waiting, g₁.merges_eq]
    exact (Nat.add_eq_zero_iff.1 hzero).2
  have htemp₂ := g₂.vars.isTemp htemp
  exact meets_pure ⟨⟨⟨h₂.1, htemp₂⟩, ⟨htemp₂, (g₂.vars.type_eq htemp.1).trans htype, hne⟩, s₁, hsil,
    h₂.2.1⟩, (hsil.vars.isAddress_eq hv).symm.trans h₂.2.2⟩

end Exact

/-! ## Refusals

An operation on an address gives up before anything is recorded. -/

def Refuses {α : Type} (m : Lower α) (env : MethodEnv) (s : Frame) : Prop :=
  Meets (Works env []) Harmless m env s fun _ _ => False

lemma Refuses.bind {α β : Type} {m : Lower α} {f : α → Lower β} (h : Refuses m env s) :
    Refuses (m >>= f) env s :=
  Meets.bind h fun _ _ _ hf => hf.elim

lemma Refuses.meets {α : Type} {m : Lower α} {Q : α → Frame → Prop} (h : Refuses m env s) :
    Meets R Harmless m env s Q :=
  h.absurd fun _ _ => id

lemma checkInputs_address [Admits R]
    (hlive : ∀ v ∈ inputs, (s.draft.vars.get v).isAddress = false →
      (s.draft.vars.get v).pooled = false)
    (ha : ∃ v ∈ inputs, (s.draft.vars.get v).isAddress = true) :
    Meets R Harmless (checkInputs inputs) env s fun _ _ => False := by
  induction inputs with
  | nil => simp at ha
  | cons v rest ih =>
    refine (checkRead_meets (fun _ => harmless_invariant rfl) (hlive v (by simp))).bind
      fun _ s₁ _ h₁ => ?_
    obtain ⟨rfl, hv⟩ := h₁
    refine ih (fun w hw => hlive w (List.mem_cons_of_mem v hw)) ?_
    obtain ⟨w, hw, hwa⟩ := ha
    rcases List.mem_cons.1 hw with rfl | hw
    · simp [hv] at hwa
    · exact ⟨w, hw, hwa⟩

lemma invoke_address [Admits R] (signature : String) (output : Option VarRef)
    (hlive : ∀ v ∈ inputs, (s.draft.vars.get v).isAddress = false →
      (s.draft.vars.get v).pooled = false)
    (ha : ∃ v ∈ inputs, (s.draft.vars.get v).isAddress = true) :
    Meets R Harmless (invoke signature inputs output) env s fun _ _ => False := by
  rw [invoke_eq]
  exact (checkInputs_address hlive ha).bind fun _ _ _ hf => hf.elim

lemma invokeTemp_refuses (signature : String) (t : TypeRef)
    (h : s.Balanced env (inputs ++ held) kept)
    (ha : ∃ v ∈ inputs, (s.draft.vars.get v).isAddress = true) :
    Refuses (invokeTemp signature inputs t) env s := by
  refine (temp_meets h t).bind fun out s₁ g h₁ => ?_
  refine Meets.bind (invoke_address signature (some out) (fun v hv hna => ?_) ?_)
    fun _ _ _ hf => hf.elim
  · exact h₁.1.not_pooled (by simp [hv]) (Variables.plain_of_not_isAddress hna)
  · obtain ⟨v, hv, ha⟩ := ha
    exact ⟨v, hv, by rwa [g.vars.isAddress_eq (h.usable_hand (by simp [hv])).has]⟩

/-! ## The steps work -/

/-- The variable in hand, or a value in its place, which is a temporary unless the variable is a
constant. -/
def Becomes (env : MethodEnv) (v : VarRef) (held kept : List VarRef) (out : VarRef) (s' : Frame) :
    Prop :=
  s'.Balanced env (out :: held) kept ∧ (out = v ∨ s'.draft.vars.IsTemp out ∨
    s'.draft.vars.Has v ∧ s'.draft.vars.kind v = .constant ∧
      (s'.draft.vars.get out).isAddress = false)

lemma Brings.becomes (h : Brings env held kept out s') : Becomes env v held kept out s' :=
  ⟨h.1, .inr (.inl h.2)⟩

lemma Becomes.trans {w : VarRef} (h : Becomes env v held kept w s)
    (h' : Becomes env w held kept out s') (g : s.draft.vars.Grows s'.draft.vars) :
    Becomes env v held kept out s' := by
  have hsooner : w = v ∨ s'.draft.vars.IsTemp w ∨ s'.draft.vars.Has v ∧
      s'.draft.vars.kind v = .constant ∧ (s'.draft.vars.get w).isAddress = false := by
    refine h.2.imp_right (.imp g.isTemp fun ⟨hv, hk, ha⟩ => ⟨g.has hv, (g.kind_eq hv).trans hk, ?_⟩)
    rw [g.isAddress_eq (h.1.usable_hand (by simp)).1, ha]
  refine ⟨h'.1, ?_⟩
  rcases h'.2 with rfl | htemp | ⟨hw, hk, ha⟩
  · exact hsooner
  · exact .inr (.inl htemp)
  · rcases hsooner with rfl | htemp | ⟨hv, hk', -⟩
    · exact .inr (.inr ⟨hw, hk, ha⟩)
    · exact absurd (hk.symm.trans htemp.2) (by simp)
    · exact .inr (.inr ⟨hv, hk', ha⟩)

lemma Becomes.brings (h : Becomes env v held kept out s') (hv : s'.draft.vars.IsTemp v) :
    Brings env held kept out s' := by
  refine ⟨h.1, ?_⟩
  rcases h.2 with rfl | htemp | ⟨-, hk, -⟩
  · exact hv
  · exact htemp
  · exact absurd (hk.symm.trans hv.2) (by simp)

lemma Becomes.isAddress_eq (h : Becomes env v held kept out s')
    (hv : (s'.draft.vars.get v).isAddress = false) : (s'.draft.vars.get out).isAddress = false := by
  rcases h.2 with rfl | htemp | ⟨-, -, ha⟩
  · exact hv
  · exact Variable.isAddress_of_temporary htemp.2
  · exact ha

/-- **Making a temporary**: the step takes a variable out of the hand, whatever else is there, and
brings a temporary in its place.  It refuses an address. -/
def Makes (env : MethodEnv) (v : VarRef) (m : Lower VarRef) : Prop :=
  ∀ ⦃s held kept⦄, s.Balanced env (v :: held) kept →
    Meets (Works env held) Harmless m env s fun out s' =>
      Brings env held kept out s' ∧ (s.draft.vars.get v).isAddress = false

/-- **Converting a variable**: the step leaves the variable in hand or brings a value in its place.  An
address is left alone. -/
def Converts (env : MethodEnv) (v : VarRef) (m : Lower VarRef) : Prop :=
  ∀ ⦃s held kept⦄, s.Balanced env (v :: held) kept →
    Meets (Works env held) Harmless m env s fun out s' =>
      Becomes env v held kept out s' ∧ ((s.draft.vars.get v).isAddress = true → out = v ∧ s' = s)

section Steps

variable {m : Lower VarRef} {f : VarRef → Lower VarRef}

lemma Makes.refuses (h : Makes env v m) (hb : s.Balanced env (v :: held) kept)
    (ha : (s.draft.vars.get v).isAddress = true) : Refuses m env s :=
  (h hb).absurd fun _ _ hs => by simp [ha] at hs

lemma Makes.converts (h : Makes env v m) : Converts env v m := fun _ _ _ hb =>
  (h hb).mono fun _ _ _ hs => ⟨hs.1.becomes, by simp [hs.2]⟩

lemma converts_pure : Converts env v (pure v) := fun _ _ _ hb =>
  meets_pure ⟨⟨hb, .inl rfl⟩, fun _ => ⟨rfl, rfl⟩⟩

lemma Converts.bind (h : Converts env v m) (hf : ∀ w, Converts env w (f w)) :
    Converts env v (m >>= f) := by
  intro s held kept hb
  refine (h hb).bind fun w s₁ _ h₁ => (hf w h₁.1.1).mono fun out s₂ g h₂ => ?_
  refine ⟨h₁.1.trans h₂.1 g.vars, fun ha => ?_⟩
  obtain ⟨rfl, rfl⟩ := h₁.2 ha
  exact h₂.2 ha

lemma Makes.bind (h : Makes env v m) (hf : ∀ w, Converts env w (f w)) : Makes env v (m >>= f) := by
  intro s held kept hb
  refine (h hb).bind fun w s₁ _ h₁ => (hf w h₁.1.1).mono fun out s₂ g h₂ => ?_
  exact ⟨h₂.1.brings (g.vars.isTemp h₁.1.2), h₁.2⟩

lemma Converts.makes (h : Converts env v m) (hf : ∀ w, Makes env w (f w)) : Makes env v (m >>= f) := by
  intro s held kept hb
  refine (h hb).bind fun w s₁ _ h₁ => (hf w h₁.1.1).mono fun out s₂ g h₂ => ⟨h₂.1, ?_⟩
  by_contra ha
  obtain ⟨rfl, rfl⟩ := h₁.2 (by simpa using ha)
  exact ha h₂.2

lemma allocate_works (n : Nat) (h : s.Balanced env (v :: held) kept) :
    Meets (Works env held) Harmless (allocate v n) env s fun _ s' =>
      (s'.draft.vars.get v).isAddress = true ∧ s'.Balanced env (v :: held) kept ∨
        s'.Balanced env (List.replicate n v ++ v :: held) kept := by
  by_cases ha : (s.draft.vars.get v).isAddress = true
  · exact meets_of_ok (allocate_idle (Variables.not_temporary_of_isAddress ha) n)
      (refl_of (Works env held) s) (.inl ⟨ha, h⟩)
  · have hp := Variables.plain_of_not_isAddress (by simpa using ha)
    exact (allocate_meets h (v := v) (by simp) hp n).mono fun _ s' _ hb => .inr hb

lemma Makes.twice
    (hrefuses : ∀ ⦃s held kept⦄, s.Balanced env (v :: held) kept →
      (s.draft.vars.get v).isAddress = true → Refuses m env s)
    (hm : ∀ ⦃s held kept⦄, s.Balanced env (v :: v :: held) kept →
      Meets (Works env held) Harmless m env s (Brings env held kept)) :
    Makes env v (do allocate v 1; m) := by
  intro s held kept h
  refine (allocate_works 1 h).bind fun _ s₁ g h₁ => ?_
  cases ha : (s.draft.vars.get v).isAddress with
  | true =>
    have ha₁ : (s₁.draft.vars.get v).isAddress = true := by
      rw [g.vars.isAddress_eq (h.usable_hand (by simp)).1, ha]
    rcases h₁ with ⟨-, hb⟩ | hb
    · exact (hrefuses hb ha₁).meets
    · have hb : s₁.Balanced env (v :: (v :: held)) kept := hb
      exact (hrefuses hb ha₁).meets
  | false =>
    rcases h₁ with ⟨ha₁, -⟩ | hb
    · rw [g.vars.isAddress_eq (h.usable_hand (by simp)).1, ha] at ha₁
      cases ha₁
    · exact (hm hb).mono fun _ _ _ hs => ⟨hs, rfl⟩

end Steps

lemma invokeTemp_works (t : TypeRef) (h : s.Balanced env (inputs ++ held) kept) :
    Meets (Works env held) Harmless (invokeTemp signature inputs t) env s fun out s' =>
      Brings env held kept out s' ∧ ∀ v ∈ inputs, (s.draft.vars.get v).isAddress = false := by
  refine ((invokeTemp_meets t h fun v _ _ => harmless_invariant rfl).relate ?_).mono
    fun _ s' _ hs => ⟨⟨hs.1, hs.2.2.2.1⟩, hs.2.2.1⟩
  rintro out s' - ⟨-, hinv, -, htemp, htype, hfresh⟩
  exact hinv.works ⟨htemp, htype, hfresh⟩ (by simp +contextual)

lemma copy_works (h : s.Balanced env (v :: held) kept) (ho : Output s held out) :
    Meets (Computes env held (· = out)) Harmless (copy v out) env s fun _ s' =>
      s'.Balanced env held kept ∧ Records env (copyPieces v out) s s' ∧
        (s.draft.vars.get v).isAddress = false :=
  copyInto_meets h ho fun _ => harmless_invariant rfl

lemma makes_freshCopy (t : TypeRef) : Makes env v (do
    let out ← temp t
    copy v out
    pure out) := fun _ _ _ h =>
  (freshCopy_meets t h fun _ => harmless_invariant rfl).mono fun _ _ _ hs => ⟨hs.1.brings, hs.2⟩

lemma hostConvert_works {source : TypeRef} (target : TypeRef) :
    Makes env v (hostConvert v source target) := fun _ _ _ h =>
  (hostConvert_meets target h (fun _ => harmless_invariant rfl)
    fun _ => harmless_unsupported _).mono fun _ _ _ hs => ⟨⟨hs.1, hs.2.1.isTemp⟩, hs.2.2.1⟩

lemma withConstant_works (t result : TypeRef) (k : Int) :
    Makes env v (do let c ← intConstant t k; invokeTemp signature [v, c] result) := fun _ _ _ h =>
  (withConstant_meets t result k h (fun _ => harmless_invariant rfl)
    fun _ => harmless_invariant rfl).mono fun _ _ _ hs => ⟨⟨hs.1, hs.2.1.isTemp⟩, hs.2.2.1⟩

lemma bitwise_works {t : TypeRef} {op : String} (k : Int) : Makes env v (bitwise t op v k) :=
  fun _ _ _ h => (meets_congr (bitwise_run t op k)).2 (withConstant_works t t k h)

lemma nonZero_works {t : TypeRef} : Makes env v (nonZero t v) := fun _ _ _ h =>
  (meets_congr (nonZero_run t)).2 (withConstant_works t .boolean 0 h)

lemma nonNull_works : Makes env v (nonNull v) := fun _ _ _ h =>
  (nonNull_meets h fun _ => harmless_invariant rfl).mono
    fun _ _ _ hs => ⟨⟨hs.1, hs.2.1.isTemp⟩, hs.2.2.1⟩

/-! ## Integers -/

/-- **Sign bits.**  Of the two variables in hand the first is read for the low bits and the second
for the sign; the result is kept by a reservation in between. -/
lemma withSignBits_works {a b : VarRef} {low : VarRef → Lower Unit} {isSet : Lower VarRef}
    {target : TypeRef} (k : Int) (h : s.Balanced env (a :: b :: held) kept)
    (hlow : ∀ s kept out, s.Balanced env (a :: out :: b :: held) kept →
      Output s (out :: b :: held) out → Meets (Computes env (out :: b :: held) (· = out)) Harmless
        (low out) env s fun _ s' => s'.Balanced env (out :: b :: held) kept)
    (hset : Makes env b isSet) :
    Meets (Works env held) Harmless (withSignBits target low isSet k) env s (Brings env held kept) := by
  refine (temp_meets h target).bind fun out s₁ g₁ h₁ => ?_
  obtain ⟨hb₁, htemp, -, -, hwait, hkept, hzero⟩ := h₁
  have hplain := Variables.plain_of_temporary htemp.2
  have hmerges : s₁.merges = s.merges := g₁.merges_eq
  refine Meets.sparingRest out ?_ htemp (by
    simp only [List.cons_append, Variables.loads_cons] at hzero
    rw [Frame.waiting, hmerges]
    exact (Nat.add_eq_zero_iff.1 (Nat.add_eq_zero_iff.1 hzero).2).2)
  refine (reserve_meets hb₁ (v := out) (by simp) hplain).bind fun _ s₂ g₂ hb₂ => ?_
  have htemp₂ := g₂.vars.isTemp htemp
  refine ((hlow s₂ (out :: kept) out (hb₂.perm (.swap a out _)) ⟨htemp₂, by simp⟩).sparing
    (by simp +contextual) fun _ => id).bind fun _ s₃ g₃ hb₃ => ?_
  have htemp₃ := g₃.vars.isTemp htemp₂
  refine ((hset (hb₃.perm (.swap b out _))).sparing
    (by simp +contextual) fun _ => False.elim).bind fun c s₄ g₄ h₄ => ?_
  have htemp₄ := g₄.vars.isTemp htemp₃
  refine ((setBitsIf_meets k h₄.1.1 ⟨htemp₄, by simp⟩ (fun _ => harmless_invariant rfl)
    fun _ => harmless_invariant rfl).sparing (by simp +contextual) fun _ => id).bind
    fun _ s₅ g₅ h₅ => ?_
  have hwait₅ : out ∉ s₅.waiting := by
    have : s₅.merges = s.merges := by
      rw [g₅.merges_eq, g₄.merges_eq, g₃.merges_eq, g₂.merges_eq, g₁.merges_eq]
    rwa [Frame.waiting, this]
  exact (release_meets h₅.1 hwait₅ hkept).bind fun _ s₆ g₆ hb₆ =>
    meets_pure ⟨hb₆, (g₅.vars.trans g₆.vars).isTemp htemp₄⟩

lemma acrossSign_works {work target : TypeRef} {isSet : Lower VarRef} (k : Int)
    (hset : Makes env v isSet) :
    Makes env v (do
      allocate v 1
      let low ← bitwise work "op_LogicalAnd" v (2 ^ 63 - 1)
      withSignBits target (hostConvertInto low work target) isSet k) := by
  have hlow : Makes env v (bitwise work "op_LogicalAnd" v (2 ^ 63 - 1)) := bitwise_works _
  refine .twice (fun s held kept hb ha => (hlow.refuses hb ha).bind) fun s held kept hb => ?_
  refine ((hlow hb).sparing (by simp +contextual) fun _ => id).bind fun low s₂ _ h₂ => ?_
  refine withSignBits_works _ h₂.1.1 (fun s kept out hb ho => ?_) hset
  exact (hostConvertInto_meets _ hb ho (fun _ => harmless_invariant rfl)
    fun _ => harmless_unsupported _).mono fun _ _ _ hs => hs.1

lemma signedToUnsigned64_works {target : TypeRef} : Makes env v (signedToUnsigned64 v target) :=
  acrossSign_works _ (withConstant_works .int64 .boolean 0)

lemma maskedBit_works {work : TypeRef} (k : Int) :
    Makes env v (do nonZero work (← bitwise work "op_LogicalAnd" v k)) :=
  (bitwise_works _).bind fun _ => nonZero_works.converts

lemma unsignedToSigned64_works {target : TypeRef} : Makes env v (unsignedToSigned64 v target) :=
  acrossSign_works _ (maskedBit_works _)

lemma keepBits_works {work : TypeRef} (target : TypeRef) (bits : Nat) :
    Makes env v (keepBits work v bits target) :=
  (bitwise_works _).bind fun _ => (hostConvert_works _).converts

lemma signExtend_works {work : TypeRef} (target : TypeRef) (bits : Nat) :
    Makes env v (signExtend work v bits target) := by
  refine .twice (fun s held kept hb ha => Refuses.bind ?_) fun s held kept hb => ?_
  · -- an address is refused when the low bits are brought into the result
    refine (temp_meets hb work).bind fun out s₂ g₂ h₂ => ?_
    obtain ⟨hb₂, htemp, -⟩ := h₂
    refine (reserve_meets hb₂ (v := out) (by simp) (Variables.plain_of_temporary htemp.2)).bind
      fun _ s₃ g₃ hb₃ => Refuses.bind ?_
    have ha₃ : (s₃.draft.vars.get v).isAddress = true := by
      rwa [(g₂.vars.trans g₃.vars).isAddress_eq (hb.usable_hand (by simp)).1]
    refine (bitwiseInto_meets _ (hb₃.perm (.swap v out held))
      ⟨g₃.vars.isTemp htemp, by simp⟩ (fun _ => harmless_invariant rfl)
      fun _ => harmless_invariant rfl).absurd fun _ _ hs => by simp [ha₃] at hs
  · refine (withSignBits_works _ hb (fun s kept out hb ho => ?_) (maskedBit_works _)).bind
      fun _ s₂ _ h₂ => (hostConvert_works _ h₂.1).mono fun _ _ _ hs => hs.1
    exact (bitwiseInto_meets _ hb ho (fun _ => harmless_invariant rfl)
      fun _ => harmless_invariant rfl).mono fun _ _ _ hs => hs.1

/-- The 64-bit type in which a change of width or signedness is done. -/
def workType (f : IntFormat) : TypeRef := if f.signed || f.bits < 64 then .int64 else .uint64

def fromWork (work : TypeRef) (w : VarRef) (target : TypeRef) (d : IntFormat) : Lower VarRef := do
  if work = .uint64 && d.bits < 64 then
    if !d.signed then keepBits .uint64 w d.bits target
    else
      let masked ← bitwise .uint64 "op_LogicalAnd" w (2 ^ d.bits - 1)
      signExtend .int64 (← hostConvert masked .uint64 .int64) d.bits target
  else if d.bits = 64 then
    if d.signed then unsignedToSigned64 w target else signedToUnsigned64 w target
  else if d.signed then signExtend work w d.bits target
  else keepBits work w d.bits target

lemma reinterpret_eq (v : VarRef) (source : TypeRef) (f : IntFormat) (target : TypeRef)
    (d : IntFormat) : reinterpret v source f target d =
      (if source = workType f then pure v else hostConvert v source (workType f)) >>=
        fun w => fromWork (workType f) w target d :=
  (apply_ite (fun m : Lower VarRef => m >>= fun w => fromWork (workType f) w target d) ..).symm

/-- From a 64-bit floating-point number to an integer type. -/
def fromDouble (x : VarRef) (target : TypeRef) (d : IntFormat) : Lower VarRef := do
  let truncated ← invokeTemp "SystemMath.__Truncate__SystemDouble__SystemDouble" [x] .double
  let wide ← hostConvert truncated .double .int64
  if target = .int64 then return wide
  convertInteger wide .int64 ⟨64, true⟩ target d

lemma floatToInteger_eq (v : VarRef) (source target : TypeRef) (d : IntFormat) :
    floatToInteger v source target d =
      (if source = .double then pure v else hostConvert v source .double) >>=
        fun x => fromDouble x target d :=
  (apply_ite (fun m : Lower VarRef => m >>= fun x => fromDouble x target d) ..).symm

lemma fromWork_works {work target : TypeRef} (d : IntFormat) :
    Makes env v (fromWork work v target d) := by
  unfold fromWork
  split_ifs
  · exact keepBits_works _ _
  · exact (bitwise_works _).bind fun _ => (hostConvert_works _).converts.bind fun _ =>
      (signExtend_works _ _).converts
  · exact unsignedToSigned64_works
  · exact signedToUnsigned64_works
  · exact signExtend_works _ _
  · exact keepBits_works _ _

lemma unlessSame_works (c : Prop) [Decidable c] {source : TypeRef} (target : TypeRef) :
    Converts env v (if c then pure v else hostConvert v source target) := by
  split_ifs
  · exact converts_pure
  · exact (hostConvert_works _).converts

lemma reinterpret_works {source target : TypeRef} (f d : IntFormat) :
    Makes env v (reinterpret v source f target d) := by
  rw [reinterpret_eq]
  exact (unlessSame_works (source = workType f) _).makes fun _ => fromWork_works _

lemma convertInteger_works {source target : TypeRef} (f g : IntFormat) :
    Converts env v (convertInteger v source f target g) := by
  intro s held kept h
  unfold convertInteger
  refine Meets.bind (meets_of_ok (a := _) (t := s) rfl (refl_of (Works env held) s) (Q := fun _ s' => s' = s) rfl)
    fun same s₁ _ h₁ => ?_
  subst h₁
  split_ifs
  · exact converts_pure h
  · exact (hostConvert_works _).converts h
  · exact (reinterpret_works _ _).converts h

lemma invokeOne_works (t : TypeRef) : Makes env v (invokeTemp signature [v] t) :=
  fun s held kept h =>
  have hb : s.Balanced env ([v] ++ held) kept := h
  (invokeTemp_works t hb).mono fun _ _ _ hs => ⟨hs.1, hs.2 v (by simp)⟩

lemma floatToInteger_works {source target : TypeRef} (d : IntFormat) :
    Makes env v (floatToInteger v source target d) := by
  rw [floatToInteger_eq]
  refine (unlessSame_works (source = .double) _).makes fun w => ?_
  refine (invokeOne_works _).bind fun _ => (hostConvert_works _).converts.bind fun _ => ?_
  split_ifs
  · exact converts_pure
  · exact convertInteger_works _ _

/-! ## The chain -/

/-- A conversion that may decline: then the variable is still in hand. -/
def Converted (env : MethodEnv) (v : VarRef) (held kept : List VarRef) (r : Option VarRef)
    (s' : Frame) : Prop :=
  match r with
  | some out => Becomes env v held kept out s'
  | none => s'.Balanced env (v :: held) kept

/-- **Attempting a conversion**: an address is refused or declined at once. -/
def Attempts (env : MethodEnv) (v : VarRef) (m : Lower (Option VarRef)) : Prop :=
  ∀ ⦃s held kept⦄, s.Balanced env (v :: held) kept →
    Meets (Works env held) Harmless m env s fun r s' =>
      Converted env v held kept r s' ∧ ((s.draft.vars.get v).isAddress = true → r = none ∧ s' = s)

lemma attempts_none : Attempts env v (pure none) := fun _ _ _ h =>
  meets_pure ⟨h, fun _ => ⟨rfl, rfl⟩⟩

lemma Makes.attempts {m : Lower VarRef} (h : Makes env v m) : Attempts env v (some <$> m) := by
  intro s held kept hb
  rw [map_eq_pure_bind]
  exact (h hb).bind fun _ s₁ _ h₁ => meets_pure ⟨h₁.1.becomes, by simp [h₁.2]⟩

lemma toBoolean?_works (source : TypeRef) : Attempts env v (toBoolean? v source) := by
  intro s held kept h
  rw [toBoolean?, meets_metadata_bind]
  cases env.md.intFormat? source with
  | some f =>
    dsimp only
    split_ifs
    · rw [← map_bind]
      exact ((hostConvert_works _).bind fun _ => nonZero_works.converts).attempts h
    · exact nonZero_works.attempts h
  | none =>
    dsimp only
    split_ifs
    · exact nonZero_works.attempts h
    · exact nonNull_works.attempts h
    · exact attempts_none h

lemma toInteger?_works (source target : TypeRef) : Attempts env v (toInteger? v source target) := by
  intro s held kept h
  rw [toInteger?, meets_metadata_bind]
  cases env.md.intFormat? target with
  | none => exact attempts_none h
  | some d =>
    dsimp only
    split_ifs
    · exact (floatToInteger_works _).attempts h
    · cases env.md.intFormat? source with
      | none => exact attempts_none h
      | some f =>
        dsimp only
        split_ifs
        · exact attempts_none h
        · exact (reinterpret_works _ _).attempts h

lemma byHost?_works (source target : TypeRef) : Attempts env v (byHost? v source target) := by
  intro s held kept h
  rw [byHost?, meets_metadata_bind]
  dsimp only
  split_ifs
  · exact (invokeOne_works _).attempts h
  · exact (hostConvert_works _).attempts h
  · simpa only [map_eq_pure_bind, bind_assoc, pure_bind] using (makes_freshCopy target).attempts h
  · exact attempts_none h

def orTry (m : Lower (Option VarRef)) (k : Lower VarRef) : Lower VarRef :=
  m >>= fun r => r.elim k pure

lemma Attempts.orElse {m : Lower (Option VarRef)} {f : Option VarRef → Lower VarRef}
    (h : Attempts env v m) (hsome : ∀ out, f (some out) = pure out) (hnone : Converts env v (f none)) :
    Converts env v (m >>= f) := by
  intro s held kept hb
  refine (h hb).bind fun r s₁ _ hr => ?_
  cases r with
  | some out =>
    rw [hsome]
    exact meets_pure ⟨hr.1, fun ha => absurd (hr.2 ha).1 (by simp)⟩
  | none =>
    refine (hnone hr.1).mono fun out s₂ _ h₂ => ⟨h₂.1, fun ha => ?_⟩
    obtain ⟨-, rfl⟩ := hr.2 ha
    exact h₂.2 ha

lemma orTry_works {m : Lower (Option VarRef)} {k : Lower VarRef} (h : Attempts env v m)
    (hk : Converts env v k) : Converts env v (orTry m k) :=
  h.orElse (fun _ => rfl) hk

lemma convertPlain_eq (v : VarRef) (source target : TypeRef) :
    convertPlain v source target = (do
      let md ← metadata
      orTry (if md.kind target = .boolean then toBoolean? v source else pure none)
        (orTry (toInteger? v source target)
          (orTry (byHost? v source target)
            (refuse (.noConversion (md.typeName source) (md.typeName target)))))) := by
  unfold convertPlain
  refine bind_congr fun md => ?_
  split_ifs
  · refine bind_congr fun r => ?_
    rcases r with _ | out
    swap
    · rfl
    refine bind_congr fun r => ?_
    rcases r with _ | out
    swap
    · rfl
    exact bind_congr fun r => by rcases r with _ | out <;> rfl
  · rw [orTry, pure_bind]
    refine bind_congr fun r => ?_
    rcases r with _ | out
    swap
    · rfl
    exact bind_congr fun r => by rcases r with _ | out <;> rfl

lemma convertPlain_works (source target : TypeRef) : Converts env v (convertPlain v source target) := by
  intro s held kept h
  rw [convertPlain_eq, meets_metadata_bind]
  refine orTry_works ?_ (orTry_works (toInteger?_works _ _) (orTry_works (byHost?_works _ _)
    fun _ _ _ _ => meets_refuse (harmless_unsupported _))) h
  split_ifs
  · exact toBoolean?_works _
  · exact attempts_none

lemma enumObject_works {underlying : TypeRef} (target : TypeRef) :
    Makes env v (enumObject v underlying target) := by
  intro s held kept h
  rw [enumObject, meets_metadata_bind]
  refine (constant_meets h _ _).bind fun c s₁ g h₁ => ?_
  have hb : s₁.Balanced env ([c, v] ++ held) kept := h₁.1.hold h₁.2.weightless
  rw [meets_ident_bind]
  refine (invokeTemp_works _ hb).mono fun _ _ _ hs => ⟨hs.1, ?_⟩
  rw [← g.vars.isAddress_eq (h.usable_hand (by simp)).1]
  exact hs.2 v (by simp)

lemma foldConstant?_works (source target : TypeRef) :
    Attempts env v (foldConstant? v source target) := by
  intro s held kept h
  rw [foldConstant?, meets_metadata_bind, meets_constant?_bind]
  cases hc : (s.draft.vars.get v).constant? with
  | none => exact attempts_none h
  | some x =>
    have hk : (s.draft.vars.get v).kind = .constant := by
      by_contra hk
      simp [Variable.constant?, hk] at hc
    rw [Option.bind_some]
    cases env.md.foldConversion? x source target with
    | none => exact attempts_none h
    | some y =>
      have hv := (h.usable_hand (v := v) (by simp)).1
      have h' := h.letGo (MethodEnv.weightless_of_kind hv hk)
      simp only [map_eq_pure_bind]
      refine (constant_meets (R := Works env held) h' y target).bind fun c s₁ g h₁ => meets_pure
        ⟨⟨h₁.1.hold h₁.2.weightless, .inr (.inr ⟨g.vars.has hv, (g.vars.kind_eq hv).trans hk,
          h₁.2.not_address⟩)⟩, by simp [Variable.isAddress, hk]⟩

lemma sameOnHost_run (env : MethodEnv) (s : Frame) (source target : TypeRef) :
    ∃ b, sameOnHost source target env s = .ok b s := ⟨_, rfl⟩

/-- **Conversion** takes the variable in hand to its result, by induction on the types it goes
through.  On an address it succeeds only where nothing has to be done, since the first operation that
reads the address refuses it. -/
lemma convertFrom_works (source target : TypeRef) : Converts env v (convertFrom v source target) := by
  induction hn : source.index + target.index using Nat.strong_induction_on
    generalizing v source target with
  | _ n ih =>
  subst hn
  intro s held kept h
  rw [convertFrom, meets_metadata_bind]
  refine (foldConstant?_works source target).orElse (fun _ => rfl) (fun s held kept h => ?_) h
  obtain ⟨same, hsame⟩ := sameOnHost_run env s source target
  refine (meets_congr (bind_ok hsame)).2 ?_
  cases same with
  | true => exact converts_pure h
  | false =>
    simp only [Bool.false_eq_true, if_false]
    have plain : Converts env v (convertPlain v source target) := convertPlain_works source target
    cases route env.md source target with
    | plain => exact plain h
    | fromEnum u =>
      dsimp only
      split_ifs with hlt huser
      · exact converts_pure.bind (fun _ => ih _ (by omega) u target rfl) h
      · exact ((hostConvert_works u).converts.bind fun _ =>
          ih _ (by omega) u target rfl) h
      · exact plain h
    | toEnum u =>
      dsimp only
      split_ifs with hlt
      · exact (ih _ (by omega) source u rfl).bind (fun _ => converts_pure) h
      · exact (ih _ (by omega) source u rfl).bind (fun _ => (enumObject_works _).converts) h
      · exact plain h
    | fromOptional inner =>
      dsimp only
      split_ifs with hlt
      · have hall := (makes_freshCopy inner).converts.bind (v := v)
          fun _ => ih _ (by omega) inner target rfl
        simpa only [bind_assoc, pure_bind] using hall h
      · exact plain h
    | toOptional inner =>
      dsimp only
      split_ifs with hlt
      · exact (ih _ (by omega) source inner rfl).bind (fun _ => (makes_freshCopy target).converts) h
      · exact plain h

lemma convert_converts (target : TypeRef) : Converts env v (convert v target) := by
  intro s held kept h
  rw [convert, meets_typeOf_bind]
  exact convertFrom_works _ _ h

lemma convert_works (target : TypeRef) (h : s.Balanced env (v :: held) kept) :
    Meets (Works env held) Harmless (convert v target) env s (Becomes env v held kept) :=
  (convert_converts target h).mono fun _ _ _ hs => hs.1

/-- **A conversion that succeeds on an address gives the address itself.** -/
lemma convert_address [Std.Refl R] (target : TypeRef) (h : s.Balanced env (v :: held) kept)
    (ha : (s.draft.vars.get v).isAddress = true) :
    Meets R Harmless (convert v target) env s fun out s' => out = v ∧ s' = s := by
  refine Meets.relate ((convert_converts target h).mono fun _ _ _ hs => hs.2 ha) ?_
  rintro _ _ - ⟨-, rfl⟩
  exact refl_of R _

end Lower

end FlatHeap
