import FlatHeap.Proofs.Rules.Arguments

/-!
# Accounts of rules: members of the class itself

A call of a method of the class takes its arguments off the operand stack and stores each into the
parameter slot of the callee.  The call itself is one piece.  It asks for the lowering of the callee,
which has a name and a body in the class, and enters the call in the table of calls.

`Rules.CallCode` describes what has been recorded for a call: code that passes the arguments, then the
jump to the label of the callee, then the rest.
-/

namespace FlatHeap

open Lower FlatHeap.Frame CompileError

namespace Rules

variable {R : Frame → Frame → Prop} {E : CompileError → Prop} {env : MethodEnv} {s s' : Frame}
  {held kept carried : List VarRef} {v slot : VarRef} {i : Bytecode.Instruction} {m : MethodRef}

/-! ## Fields -/

lemma ownField_clean : ownField.Clean := by
  intro env i s held _ h
  simp only [ownField]
  refine (field_meets i).look fun f _ => ?_
  rw [meets_read_bind]
  refine meets_ite (fun _ => meets_pure rfl) fun _ => ?_
  refine (peekStack_meets _ (harmless_invariant rfl)).look fun receiver htop => ?_
  refine meets_ite (fun _ => meets_pure rfl) fun hself => ?_
  have hself : isSelf receiver = true := by simpa using hself
  refine (fieldVar_meets f h).silently.bind fun slot s₂ _ h₂ => ?_
  obtain ⟨w₂, hb₂, hslot⟩ := h₂
  rw [← w₂.stack_eq] at hb₂ htop
  split
  · -- a store has the value above the receiver
    rename_i hop
    rw [if_pos hop] at htop
    refine (popStack_meets [] hb₂ (harmless_invariant rfl)).bind fun v s₃ _ h₃ => ?_
    obtain ⟨hb₃, hs₃, hrest₃⟩ := h₃
    rw [hs₃, List.getElem?_cons_succ] at htop
    refine (popSelf_meets [v] hb₃ htop hself).bind fun _ s₄ _ h₄ => ?_
    obtain ⟨hb₄, hrest₄⟩ := h₄
    rw [meets_typeOf_bind]
    refine (storeValue_meets _ hb₄ ?_).claimBind
    rw [hrest₄, hrest₃]
    exact hslot
  · rename_i hop
    rw [if_neg (by simp [hop])] at htop
    refine (popSelf_meets [] hb₂ htop hself).bind fun _ s₃ _ h₃ => ?_
    refine (pushAddress_meets h₃.1 ?_).claimBind
    rw [h₃.2]
    exact hslot
  · rename_i hstore _
    rw [if_neg hstore] at htop
    refine (popSelf_meets [] hb₂ htop hself).bind fun _ s₃ _ h₃ => ?_
    refine (pushWeightless_meets h₃.1 ?_).claim
    rw [h₃.2]
    exact hslot.weightless

/-! ## Which method is called -/

lemma isOwnCall_meets [Restacks R] (i : Bytecode.Instruction) (m : MethodRef) :
    Meets R Harmless (isOwnCall i m) env s fun own s' => s' = s ∧ (own = true →
      (env.md.method m).isStatic = false →
        ∃ receiver, s.stack[(env.md.method m).params.length]? = some receiver ∧
          isSelf receiver = true) := by
  rw [isOwnCall, meets_read_bind]
  refine meets_ite (fun _ => meets_pure ⟨rfl, by simp⟩) fun _ => ?_
  refine meets_ite (fun hstatic => meets_pure ⟨rfl, by simp [hstatic]⟩) fun _ => ?_
  refine (peekStack_meets _ (harmless_invariant rfl)).look fun receiver htop => ?_
  exact meets_pure ⟨rfl, fun hself _ => ⟨receiver, htop, hself⟩⟩

lemma named_of_dispatchTarget? {n : Naming} {md : Metadata} {emitted : String}
    (h : n.dispatchTarget? md emitted = some m) :
    (md.method m).body.isSome = true ∧
      ∃ own ∈ n.symbols, own.member = .method m ∧ own.emitted = emitted := by
  have hbody := List.find?_some h
  obtain ⟨own, hown, hm⟩ := List.mem_filterMap.1 (List.mem_of_find?_eq_some h)
  split_ifs at hm with heq
  unfold Symbol.method? at hm
  split at hm
  · rename_i hmember
    obtain rfl := Option.some.inj hm
    exact ⟨hbody, own, List.mem_reverse.1 hown, hmember, by simpa using heq⟩
  · cases hm

lemma callable_of_dispatchTarget? {env : ClassEnv} {emitted : String}
    (h : env.naming.dispatchTarget? env.md emitted = some m) : env.Callable m := by
  obtain ⟨hbody, own, hin, hmember, -⟩ := named_of_dispatchTarget? h
  exact ⟨List.any_eq_true.2 ⟨own, hin, by simp [hmember]⟩, hbody⟩

lemma callTarget_meets [Std.Refl R] [IsTrans Frame R] (i : Bytecode.Instruction) {symbol : Symbol}
    (hin : symbol ∈ env.naming.symbols) (hm : symbol.member = .method m) :
    Meets R Harmless (callTarget i m symbol) env s fun target s' =>
      s' = s ∧ env.Callable target ∧
        ∃ own ∈ env.naming.symbols, own.member = .method target ∧ own.emitted = symbol.emitted := by
  rw [callTarget, meets_metadata_bind]
  refine meets_ite (fun hbody => meets_pure ⟨rfl, ⟨?_, hbody.2⟩, symbol, hin, hm, rfl⟩) fun _ => ?_
  · exact List.any_eq_true.2 ⟨symbol, hin, by simp [hm]⟩
  rw [meets_read_bind]
  split
  · rename_i target htarget
    exact meets_pure ⟨rfl, callable_of_dispatchTarget? htarget, (named_of_dispatchTarget? htarget).2⟩
  · exact meets_refuse (harmless_unsupported _)

/-! ## The call -/

lemma methodLabel_some {d : Draft} {l : Label} (h : d.methodLabels.lookup m = some l) :
    d.methodLabel m = (l, d) := by
  simp [Draft.methodLabel, h]

lemma methodLabel_none {d : Draft} (h : d.methodLabels.lookup m = none) :
    d.methodLabel m = (⟨d.labelCount⟩, { d with
      labelCount := d.labelCount + 1, methodLabels := (m, ⟨d.labelCount⟩) :: d.methodLabels }) := by
  simp [Draft.methodLabel, h, Draft.newLabel]

lemma lookup_methodLabel (d : Draft) (m : MethodRef) :
    (d.methodLabel m).2.methodLabels.lookup m = some (d.methodLabel m).1 := by
  cases h : d.methodLabels.lookup m with
  | some l => rw [methodLabel_some h, h]
  | none => simp [methodLabel_none h]

lemma require_methodLabel (d : Draft) (m : MethodRef) :
    (d.methodLabel m).2.require m = ((d.require m).methodLabel m).2 := by
  have hreq : (d.require m).methodLabels = d.methodLabels := by
    unfold Draft.require
    split_ifs <;> rfl
  cases h : d.methodLabels.lookup m with
  | some l => rw [methodLabel_some h, methodLabel_some (hreq ▸ h)]
  | none =>
    rw [methodLabel_none h, methodLabel_none (hreq ▸ h)]
    unfold Draft.require
    split_ifs <;> rfl

lemma mem_require (d : Draft) (m : MethodRef) : m ∈ (d.require m).requested := by
  unfold Draft.require
  split_ifs with h
  · simpa using h
  · simp

lemma grows_require (hm : env.Callable m) : Grows env s { s with draft := s.draft.require m } := by
  unfold Draft.require
  split_ifs with hin
  · exact .refl env s
  have hin : m ∉ s.draft.requested := by simpa using hin
  refine ⟨⟨.refl _, le_rfl, fun _ => .inl, fun _ => id, fun _ _ => id, fun _ => id, fun _ => .inl,
    List.prefix_append _ _, fun hn => ?_, fun m' hm' => ?_, rfl, rfl, fun _ => id, id⟩,
    fun hs => ⟨hs.of_tables rfl rfl le_rfl hs.placed, fun l hb => ?_, fun _ _ => rfl⟩,
    [], ⟨.refl _, by simp, by simp⟩, by simp⟩
  · exact List.nodup_append.2 ⟨hn, List.nodup_singleton m, by simpa using fun a ha (e : a = m) => hin (e ▸ ha)⟩
  · rcases List.mem_append.1 hm' with h | h
    · exact .inl h
    · exact .inr (List.mem_singleton.1 h ▸ hm)
  · exact absurd hb.2 (Nat.not_lt.2 hb.1)

lemma grows_methodLabel (hm : m ∈ s.draft.requested) :
    Grows env s { s with draft := (s.draft.methodLabel m).2 } := by
  cases h : s.draft.methodLabels.lookup m with
  | some l =>
    rw [methodLabel_some h]
    exact .refl env s
  | none =>
    rw [methodLabel_none h]
    have hkey (e : MethodRef × Label) (he : e ∈ s.draft.methodLabels) : e.1 ≠ m := fun heq =>
      absurd heq.symm (by simpa using List.lookup_eq_none_iff.1 h e he)
    refine ⟨⟨.refl _, Nat.le_succ _, fun _ => .inl, fun _ => id, fun m' l hl => ?_,
      fun _ => List.mem_cons_of_mem _, fun e he => ?_, List.prefix_rfl, id, fun _ => .inl, rfl, rfl,
      fun _ => id, id⟩, fun hs => ?_, [], ⟨.refl _, by simp, by simp⟩, by simp⟩
    · have hne : (m' == m) = false := by
        simpa using hkey _ (mem_of_lookup hl)
      simpa [List.lookup_cons, hne] using hl
    · rcases List.mem_cons.1 he with rfl | he
      · exact .inr ⟨⟨le_rfl, Nat.lt_succ_self _⟩, hm⟩
      · exact .inl he
    refine hs.enter rfl (fun _ => rfl) (fun l => ?_) ⟨hs.offsets, hs.labels⟩
      (nodup_enter hkey (fun e he => hs.ne_new (.inr ⟨e.1, he⟩)) hs.methods hs.methodLabels)
      fun o m' l hl hm' => ?_
    · simp only [Entered, List.mem_cons, Prod.mk.injEq, exists_or, exists_eq_left]
      tauto
    · rcases List.mem_cons.1 hm' with e | hm'
      · exact hs.ne_new (.inl ⟨o, hl⟩) (Prod.mk.inj e).2
      · exact hs.apart o m' l hl hm'

def requesting (s : Frame) (m : MethodRef) : Frame :=
  { s with draft := (s.draft.methodLabel m).2.require m }

lemma grows_requesting (hm : env.Callable m) : Grows env s (requesting s m) := by
  have g := (grows_require (s := s) hm).trans (grows_methodLabel (mem_require s.draft m))
  rwa [← require_methodLabel] at g

lemma vars_requesting (s : Frame) (m : MethodRef) : (requesting s m).draft.vars = s.draft.vars := by
  unfold requesting Draft.require
  cases h : s.draft.methodLabels.lookup m with
  | some l =>
    rw [methodLabel_some h]
    split_ifs <;> rfl
  | none =>
    rw [methodLabel_none h]
    split_ifs <;> rfl

def addressVar (l : Label) : Variable := { type := .uint32, kind := .labelAddress l }

/-- The frame after the variable for the address behind a call has been made. -/
def addressing (s : Frame) : Frame :=
  (labelled s).withVars (s.draft.vars.add (addressVar ⟨s.draft.labelCount⟩)).2 s.scratch

def calling (s : Frame) (callee : Label) : Frame :=
  emitting (addressing s) (Piece.ops (.call
    (s.draft.vars.add (addressVar ⟨s.draft.labelCount⟩)).1 callee ⟨s.draft.labelCount⟩))

lemma enterMethod_run : enterMethod m env s =
    .ok () (calling (requesting s m) (s.draft.methodLabel m).1) := by
  set s₁ := requesting s m with hs₁
  set a := (s₁.draft.vars.add (addressVar ⟨s₁.draft.labelCount⟩)).1 with ha
  have hget : (addressing s₁).draft.vars.get a = addressVar ⟨s₁.draft.labelCount⟩ :=
    Variables.get_add_new s₁.draft.vars _
  have hread : checkRead a env (addressing s₁) = .ok () (addressing s₁) :=
    checkRead_run (by rw [hget]; rfl) (by rw [hget]; rfl)
  have huse : useVar a env (addressing s₁) = .ok () (addressing s₁) := by
    refine useVar_idle ?_
    rw [Variables.kind, hget]
    simp [addressVar]
  have hpush : push a env (addressing s₁) = .ok () (emitting (addressing s₁) [.push a]) := by
    rw [push, bind_ok hread, bind_ok huse, emit_run]
  have hrun : enterMethod m env s = (do
      push a
      jump (s.draft.methodLabel m).1
      mark ⟨s₁.draft.labelCount⟩ : Lower Unit) env (addressing s₁) := rfl
  rw [hrun, bind_ok hpush, bind_ok (jump_run _), mark_run, emitting_emitting, emitting_emitting]
  rfl

lemma balanced_calling {callee : Label} (h : s.Balanced env held kept) :
    (calling s callee).Balanced env held kept := by
  refine balanced_emitting ((balanced_labelled h).addVar ⟨?_, ?_, ?_, ?_⟩ ?_ rfl) _ <;>
    simp [addressVar]

lemma records_calling (env : MethodEnv) (s : Frame) (callee : Label) : Records env
    [.call (s.draft.vars.add (addressVar ⟨s.draft.labelCount⟩)).1 callee ⟨s.draft.labelCount⟩]
    (labelled s) (calling s callee) := by
  have hsilent : Silent (labelled s) (addressing s) :=
    silent_add (by simp [addressVar])
  exact hsilent.records.trans (records_emitting_single ⟨by simp [Piece.vars], trivial⟩)

/-- **A call** records one piece. -/
lemma grows_calling {callee : Label} (hl : s.draft.methodLabels.lookup m = some callee)
    (hc : (env.method, m) ∈ s.draft.calls) : Grows env s (calling s callee) := by
  have hrec := records_calling env s callee
  refine .of_settles (.of_eq ?_ rfl (Nat.le_succ _) rfl id) rfl rfl
    (settles_labelled hrec rfl) ⟨_, ⟨hrec.vars, hrec.code.ops, hrec.code.legal⟩, ?_⟩
  · exact hrec.vars
  · intro q hq
    obtain rfl := List.mem_singleton.1 hq
    refine ⟨trivial, by simp [Piece.writes], by simp [Piece.targets], fun a callee' after e => ?_⟩
    obtain ⟨rfl, rfl, rfl⟩ := Piece.call.inj e
    exact ⟨Variables.has_add_new _ _, congrArg Variable.kind (Variables.get_add_new _ _), m, hl, hc⟩

lemma aside_requesting (env : MethodEnv) (s : Frame) (m : MethodRef) :
    Aside env [] s (requesting s m) := by
  have hops : (requesting s m).draft.ops = s.draft.ops ∧
      s.draft.labelCount ≤ (requesting s m).draft.labelCount := by
    unfold requesting Draft.require
    cases h : s.draft.methodLabels.lookup m with
    | some l =>
      rw [methodLabel_some h]
      split_ifs <;> exact ⟨rfl, le_rfl⟩
    | none =>
      rw [methodLabel_none h]
      split_ifs <;> exact ⟨rfl, Nat.le_succ _⟩
  refine ⟨⟨?_, ?_, by simp⟩, hops.2, rfl, rfl, le_rfl, untouched_of_stock ?_, by simp, by simp⟩
  · rw [vars_requesting]
    exact .refl _
  · rw [hops.1]
    simp
  · rw [stock, vars_requesting]
    rfl

lemma aside_calling (env : MethodEnv) (s : Frame) (callee : Label) : Aside env
    [.call (s.draft.vars.add (addressVar ⟨s.draft.labelCount⟩)).1 callee ⟨s.draft.labelCount⟩]
    s (calling s callee) := by
  have hrec := records_calling env s callee
  refine ⟨⟨hrec.vars, hrec.code.ops, hrec.code.legal⟩, Nat.le_succ _, rfl, rfl, le_rfl,
    hrec.untouched.congr rfl rfl rfl, ?_, ?_⟩ <;>
  simp [Piece.writes, Piece.targets]

/-- The code jumps to the label of a method, and nothing else happens before. -/
def JumpsTo (env : MethodEnv) (target : MethodRef) (s s' : Frame) : Prop :=
  ∃ a callee after rest, s.draft.Continues env s'.draft (.call a callee after :: rest) ∧
    s'.draft.methodLabels.lookup target = some callee

lemma JumpsTo.later (h : JumpsTo env m s s₁) (g : Grows env s₁ s') : JumpsTo env m s s' := by
  obtain ⟨a, callee, after, rest, hcode, hlookup⟩ := h
  obtain ⟨ps, hps, -⟩ := g.code
  exact ⟨a, callee, after, rest ++ ps, hcode.trans hps, g.methodLabel m callee hlookup⟩

lemma enterMethod_meets (hm : env.Callable m) (hc : (env.method, m) ∈ s.draft.calls)
    (h : s.Balanced env (s.stack ++ held) []) :
    Meets (Advances env carried) E (enterMethod m) env s fun _ s' =>
      s'.Balanced env (s'.stack ++ held) [] ∧ JumpsTo env m s s' := by
  have g₁ : Grows env s (requesting s m) := grows_requesting hm
  have hlookup : (requesting s m).draft.methodLabels.lookup m = some (s.draft.methodLabel m).1 := by
    have : ∀ d : Draft, (d.require m).methodLabels = d.methodLabels := fun d => by
      unfold Draft.require
      split_ifs <;> rfl
    rw [requesting, this]
    exact lookup_methodLabel s.draft m
  have ha₁ := aside_requesting env s m
  have ha₂ := aside_calling env (requesting s m) (s.draft.methodLabel m).1
  have g₂ : Grows env (requesting s m) (calling (requesting s m) (s.draft.methodLabel m).1) :=
    grows_calling hlookup (g₁.calls _ hc)
  refine meets_of_ok enterMethod_run (((g₁.proceeds rfl rfl rfl).advances ha₁).trans
    ((g₂.proceeds rfl rfl rfl).advances ha₂)) ⟨?_, ?_⟩
  · exact balanced_calling (h.of_eq (vars_requesting s m) rfl rfl)
  · exact ⟨_, _, _, [], ha₁.continues.trans ha₂.continues, hlookup⟩

lemma recordCall_meets (callee : MethodRef) (h : s.Balanced env held kept) :
    Meets (Advances env carried) E (draft fun d => ((), d.recordCall env.method callee)) env s fun _ s' =>
      s'.Balanced env held kept ∧ (env.method, callee) ∈ s'.draft.calls ∧ s'.stack = s.stack ∧
        s.draft.Continues env s'.draft [] := by
  have hin : (env.method, callee) ∈ s.draft.calls.record env.method callee := by
    unfold Calls.record
    split_ifs with hold
    · simpa using hold
    · simp
  have hkeep (c : MethodRef × MethodRef) (hc : c ∈ s.draft.calls) :
      c ∈ s.draft.calls.record env.method callee := by
    unfold Calls.record
    split_ifs
    · exact hc
    · exact List.mem_append_left _ hc
  have ha : Aside env [] s { s with draft := s.draft.recordCall env.method callee } :=
    ⟨⟨.refl _, by simp [Draft.recordCall], by simp⟩, le_rfl, rfl, rfl, le_rfl,
      untouched_of_stock rfl, by simp, by simp⟩
  refine meets_of_ok (a := ()) (t := { s with draft := s.draft.recordCall env.method callee }) rfl
    (Proceeds.advances (Grows.proceeds ?_ rfl rfl rfl) ha) ⟨h.of_eq rfl rfl rfl, hin, rfl, ha.continues⟩
  refine ⟨⟨.refl _, le_rfl, fun _ => .inl, fun _ => id, fun _ _ => id, fun _ => id, fun _ => .inl,
    List.prefix_rfl, id, fun _ => .inl, rfl, rfl, hkeep, id⟩,
    fun hs => ⟨hs.of_tables rfl rfl le_rfl hs.placed, fun l hb => ?_, fun _ _ => rfl⟩,
    [], ⟨.refl _, by simp [Draft.recordCall], by simp⟩, by simp⟩
  exact absurd hb.2 (Nat.not_lt.2 hb.1)

lemma mem_of_lookup_naming {n : Naming} {md : Metadata} {member : Member} {symbol : Symbol}
    (h : n.lookup md member = .ok symbol) : symbol ∈ n.symbols ∧ symbol.member = member := by
  unfold Naming.lookup at h
  split at h
  · rename_i found hfound
    obtain rfl := Except.ok.inj h
    exact ⟨List.mem_reverse.1 (List.mem_of_find?_eq_some hfound), by simpa using List.find?_some hfound⟩
  · cases h

/-- The arguments of a call on the operand stack, with the parameters that they are for. -/
def bindings (env : MethodEnv) (m : MethodRef) (slots : List VarRef) (s : Frame) : List Binding :=
  (s.stack.take (env.md.method m).params.length).reverse.zip ((env.md.method m).params.zip slots)

/-- **What a call records**: code that passes the arguments, then the jump, then the rest. -/
structure CallCode (env : MethodEnv) (m : MethodRef) (symbol : Symbol) (target : MethodRef)
    (slots : List VarRef) (s t s' : Frame) : Prop where
  own : ∃ own ∈ env.naming.symbols, own.member = .method target ∧ own.emitted = symbol.emitted
  named : List.Forall₂ s'.draft.vars.Named slots symbol.params
  length_eq : symbol.params.length = (env.md.method m).params.length
  length_le : (env.md.method m).params.length ≤ s.stack.length
  code : ∃ ps, s.draft.Continues env t.draft ps
  conveys : (∀ p ∈ (env.md.method m).params, p.byRef = false) → symbol.params.Nodup →
    Conveys env (bindings env m slots s) s t
  jumps : JumpsTo env target t s'

lemma ownCall_meets (hsite : Site env i s) (h : s.Balanced env (s.stack ++ held) []) :
    Meets (Advances env (carriedAt i s)) Harmless (ownCall.build i) env s fun claimed s' =>
      Settled env held s claimed s' ∧ (claimed = true → ∃ m symbol target slots t,
        i.operand = .method m ∧ env.naming.lookup env.md (.method m) = .ok symbol ∧
        callTarget i m symbol env s = .ok target s ∧ CallCode env m symbol target slots s t s') := by
  simp only [ownCall, meets_read_bind]
  refine (method_meets i).look fun m hoperand => ?_
  refine meets_ite (fun _ => meets_refuse (harmless_unsupported _)) fun _ => ?_
  refine (isOwnCall_meets i m).look fun own hown => ?_
  refine meets_ite (fun _ => meets_pure ⟨rfl, by simp⟩) fun hclaim => ?_
  have hreceiver := hown (by simpa using hclaim)
  refine (ofExcept_meets fun e he => harmless_lookup he).look fun symbol hsymbol => ?_
  obtain ⟨hin, hmember⟩ := mem_of_lookup_naming hsymbol
  have hlen := (hsite.fits symbol hin m hmember).2
  refine (callTarget_meets i hin hmember).running.bind fun target s₄ _ h₄ => ?_
  obtain ⟨htarget, rfl, hcallable, hown⟩ := h₄
  refine (recordCall_meets target h).bind fun _ s₅ g₅ h₅ => ?_
  obtain ⟨hb₅, hcall, hstack₅, hc₅⟩ := h₅
  rw [← hstack₅] at hb₅ hreceiver
  refine meets_ite (fun _ => meets_refuse (harmless_unsupported _)) fun _ => ?_
  refine (popMany_meets _ hb₅ (harmless_invariant rfl)).bind fun args s₆ g₆ h₆ => ?_
  obtain ⟨hb₆, hargs, hrest₆, hs₆⟩ := h₆
  -- The receiver is the program itself.
  refine meets_ite_bind (K := fun s' => s'.Balanced env (args ++ (s'.stack ++ held)) [] ∧
    s'.draft = s₆.draft ∧ ∀ x ∈ s'.stack, x ∈ s₆.stack) (fun hs => ?_)
    (fun _ => ⟨hb₆, rfl, fun _ => id⟩) fun s₇ g₇ h₇ => ?_
  · obtain ⟨receiver, htop, hself⟩ := hreceiver (by simpa using hs)
    have htop₆ : s₆.stack[0]? = some receiver := by
      rwa [hs₆, List.getElem?_append_right (by simp [hargs]), List.length_reverse, hargs,
        Nat.sub_self] at htop
    refine (popSelf_meets args hb₆ htop₆ hself).mono fun _ _ _ h₇ => ⟨h₇.1, ?_, fun x hx => ?_⟩
    · rw [h₇.2]
    · rw [h₇.2] at hx
      exact List.mem_of_mem_tail hx
  obtain ⟨hb₇, hd₇, hstack₇⟩ := h₇
  refine passArguments_meets _ symbol.params hb₇ hargs hlen fun passed s₈ g₈ h₈ => ?_
  obtain ⟨slots, hnames, hconveys⟩ := h₈.conveys
  have g := (g₆.trans g₇).trans g₈
  refine (enterMethod_meets hcallable (g.calls _ hcall) h₈.balanced).bind fun _ s₉ g₉ h₉ => ?_
  obtain ⟨hb₉, hjumps⟩ := h₉
  refine Meets.mono (Q := Settled env held s₄) ?_ fun claimed s' g' hs => ⟨hs, fun _ =>
    ⟨m, symbol, target, slots, s₈, hoperand, hsymbol, htarget, hown,
      hnames.imp fun _ _ hn => hn.grows (g₉.vars.trans g'.vars), hlen, ?_, ?_, fun hval hnodup => ?_,
      hjumps.later g'.toGrows⟩⟩
  · refine (copyBack_meets passed hb₉ fun p hp => ?_).bind fun _ s₁₀ _ hb₁₀ => ?_
    · exact ⟨(h₈.isSlot p hp).1.grows g₉.vars, (h₈.isSlot p hp).2.grows g₉.vars⟩
    split
    · rename_i name _
      refine (named_meets name _ .returnValue trivial hb₁₀).silently.bind fun result s₁₁ _ h₁₁ => ?_
      obtain ⟨w₁₁, hb₁₁, hresult⟩ := h₁₁
      rw [← w₁₁.stack_eq] at hb₁₁
      have hcopy : Meets (Advances env (carriedAt i s₄)) _ _ env s₁₁ (Settled env held s₄) :=
        (copyResult_meets (env.md.method m).result (hb₁₁.hold hresult.weightless)).claim
      simpa only [bind_assoc] using hcopy
    · exact meets_pure hb₁₀
  · rw [← hstack₅, hs₆, List.length_append, List.length_reverse, hargs]
    exact Nat.le_add_right _ _
  · obtain ⟨ps, hps, -⟩ := (g₅.trans g).code
    exact ⟨ps, hps⟩
  · have hcode : s₄.draft.Continues env s₇.draft [] := by rwa [hd₇, hrest₆]
    have hpass := hconveys hval hnodup s₄ hcode fun x hx => ?_
    · rwa [bindings, ← hstack₅, hs₆, List.take_left' (by simp [hargs]), List.reverse_reverse]
    · rw [← hstack₅, hs₆]
      rcases List.mem_append.1 hx with hx | hx
      · exact List.mem_append_left _ (List.mem_reverse.2 hx)
      · exact List.mem_append_right _ (hstack₇ x hx)

lemma ownCall_clean : ownCall.Clean := fun _ _ _ _ hsite h =>
  (ownCall_meets hsite h).mono fun _ _ _ hs => hs.1

end Rules

end FlatHeap
