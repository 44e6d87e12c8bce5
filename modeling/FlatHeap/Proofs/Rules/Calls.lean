import FlatHeap.Proofs.Naming.Inheritance
import FlatHeap.Proofs.Rules.Classes

/-!
# Calls between methods of a class

A call of a method of the class stores its arguments one after the other into slots that all calls of
the method share.  The arguments may themselves be such slots, in any order and more than once, and the
code of the stores takes and gives back temporaries in between.  Still the arguments are bound at once:
when the code comes to the jump, every parameter slot has the value that its argument had before the
first store, converted to the type of the parameter.

The code may fault, because a copy is checked.  It does so only if a slot on the operand stack or one of
the converted values does not fit the type of its slot, and then it never comes to the jump.
-/

namespace FlatHeap

open Lower FlatHeap.Frame Host.Machine
open Bytecode (Instruction)

/-- **An instruction is up**: a class is compiled by the standard rules, a method of it is being lowered,
and the frame is the one that the rules are given for the instruction. -/
inductive ClassEnv.IsUp (env : ClassEnv) (rules : Rulebook) (menv : MethodEnv) (i : Instruction)
    (t : Frame) : Prop
  | intro {d : Draft} {m : MethodRef} {code : List Instruction} {start : Nat} {label : Label}
    {s₀ s : Frame} {lost : List VarRef} {k : Nat} (comes : env.ComesTo rules d)
    (body : env.HasBody m code start) (short : ∀ i ∈ code, i.offset < endOfBody)
    (made : label.index < d.labelCount)
    (entered : Frame.enter env (d.emit (.mark label)) m code.toArray start = .ok (menv, s₀))
    (course : Course rules menv s₀ lost s) (next : menv.nextLive? s.cursor = some k)
    (inst : menv.code[k]? = some i)
    (begun : beginInstruction i.offset menv (s.taking k) = .ok () t)

lemma ClassEnv.IsUp.site {env : ClassEnv} {rules : Rulebook} {menv : MethodEnv} {i : Instruction}
    {t : Frame} (h : env.IsUp rules menv i t) :
    Site menv i t ∧ ∃ lost, t.Balanced menv (t.stack ++ lost) [] := by
  obtain ⟨comes, body, short, made, entered, course, next, inst, begun⟩ := h
  obtain ⟨hp, hresting⟩ := comes.resting body short made entered
  have hrest := course.resting comes.isStandard hp hresting
  obtain ⟨-, hsite, hb, -⟩ := (beginning_meets hp hrest next inst).ok begun
  exact ⟨hsite, _, hb⟩

lemma ClassEnv.IsUp.separate {env : ClassEnv} {rules : Rulebook} {menv : MethodEnv} {i : Instruction}
    {t : Frame} (h : env.IsUp rules menv i t) : menv.naming.Separate menv.md := by
  obtain ⟨comes, -, -, made, entered, -⟩ := h
  rw [(enters_of_enter (comes.sound.mark made) entered).toClassEnv]
  exact Naming.ofClass_separate comes.named

namespace Rules

variable {env : MethodEnv} {P : Placed env.toClassEnv} {m m' : Host.Machine} {s t s' : Frame}
  {bindings : List Binding} {y : VarRef → Value} {a v : VarRef} {callee after : Label}
  {rest : List Piece}

lemma storeOf_of_shows {x : ExecState} {c : Config} (h : P.Shows x c)
    (hv : v ∉ P.order → x.store v = storeOf P m v) : storeOf P c.2 v = x.store v := by
  by_cases hmem : v ∈ P.order
  · rw [storeOf, if_pos hmem, h.heap v hmem, Option.getD_some]
  · rw [hv hmem, storeOf, storeOf, if_neg hmem, if_neg hmem]

/-- **Up to the jump.**  On the machine, code that conveys arguments and is followed by a call comes to
the jump with the values in the slots, or it faults before. -/
lemma Conveys.approach (h : Conveys env bindings s t) {ps : List Piece}
    (hcode : s.draft.Continues env t.draft ps)
    (hcall : t.draft.Continues env s'.draft (.call a callee after :: rest)) (hP : P.Completes s')
    (hm : P.Loaded m) (hy : ∀ b ∈ bindings,
      env.ConvertsTo (P.draft.vars.get b.1) b.2.1.type (storeOf P m b.1) (y b.2.2)) :
    let jump := UInt32.ofNat (P.address (t.position + 1))
    (∃ m', Approaches P.image jump (UInt32.ofNat s.draft.codeSize, m) (jump, m') ∧
        ∀ b ∈ bindings, storeOf P m' b.2.2 = y b.2.2) ∨
      (Unfit env P.draft.vars s (storeOf P m) ∨
          ∃ b ∈ bindings, fits (y b.2.2) (P.hostType b.2.2) = false) ∧
        ∃ c, Approaches P.image jump (UInt32.ofNat s.draft.codeSize, m) c ∧
          ∃ x host name, Fails P.image (.misfit x host name c.1) c := by
  intro jump
  have hPt : P.Completes t := hP.sooner hcall
  have hPs : P.Completes s := hPt.sooner hcode
  obtain ⟨stack, hs, hstack⟩ := hm.stack
  have hstart := shows_behind hPs hm hs hstack
  rcases (h P.draft.vars (storeOf P m) y hPt.vars (storeOf_agrees hm) hy).approach hPt
      (Nat.le_succ _) hstart with ⟨τ, c, hreach, hshows, hkept, hτ⟩ | ⟨hbad, x, host, name, c, hc⟩
  · -- what is left is to push the address behind the call
    obtain ⟨behind, hops⟩ := hP.code
    have hpush : P.ops = t.draft.ops.toList ++ ([a].map .push ++
        (.jump callee :: .mark after :: (rest.flatMap Piece.ops ++ behind))) := by
      rw [hops, hcall.ops]
      simp [Piece.ops]
    obtain ⟨⟨pc, m'⟩, hreach', hshows'⟩ := Placed.approach_moves
      (Placed.movesBefore_pushes [a] stack hpush le_rfl) hshows
    have hpc : pc = jump := by
      apply UInt32.toNat_inj.1
      rw [Placed.toNat_address_ofNat, hshows'.pc, List.length_append]
      rfl
    subst hpc
    exact .inl ⟨m', hreach.trans hreach', fun b hb =>
      (storeOf_of_shows hshows' (hkept b.2.2)).trans (hτ b hb)⟩
  · exact .inr ⟨hbad, c, hc.1, x, host, name, hc.2⟩

end Rules

/-- **Arguments are bound at once.**  Let a call of a method of the class be lowered, where no parameter is
passed by reference and the slots of the parameters have different names.  Then there is a jump to the
label of the callee, whose own parameters have the same slots, and in every program that contains the code, from every state of the machine in the
middle of a run, one of two things happens.  Either the code comes to the jump, and there every parameter
slot has the value that its argument had in the beginning, as the code of a conversion to the type of the
parameter converts it.  Or it faults before it comes there, and then a slot on the operand stack or a
converted value did not fit. -/
theorem arguments_are_bound_at_once {env : ClassEnv} {rules : Rulebook} {menv : MethodEnv}
    {i : Instruction} {s s' : Frame} {m : MethodRef} {symbol : Symbol} (h : env.IsUp rules menv i s)
    (hrun : Rules.ownCall.build i menv s = .ok true s') (hoperand : i.operand = .method m)
    (hsymbol : menv.naming.lookup menv.md (.method m) = .ok symbol)
    (hvalue : ∀ p ∈ (menv.md.method m).params, p.byRef = false) (hnames : symbol.params.Nodup) :
    ∃ target callee slots k,
      Rules.callTarget i m symbol menv s = .ok target s ∧
      (∃ own ∈ menv.naming.symbols, own.member = .method target ∧ own.params = symbol.params) ∧
      s'.draft.methodLabels.lookup target = some callee ∧
      s.position ≤ k ∧ s'.draft.ops[k]? = some (.jump callee) ∧
      List.Forall₂ s'.draft.vars.Named slots symbol.params ∧
      slots.length = (menv.md.method m).params.length ∧
      (menv.md.method m).params.length ≤ s.stack.length ∧
      ∀ (P : Placed menv.toClassEnv) (mach : Host.Machine) (y : VarRef → Value),
        P.Completes s' → P.Loaded mach →
        (∀ b ∈ Rules.bindings menv m slots s, menv.ConvertsTo (P.draft.vars.get b.1) b.2.1.type
          (storeOf P mach b.1) (y b.2.2)) →
        let jump := UInt32.ofNat (P.address k)
        (∃ mach', Approaches P.image jump (UInt32.ofNat s.draft.codeSize, mach) (jump, mach') ∧
            ∀ b ∈ Rules.bindings menv m slots s, storeOf P mach' b.2.2 = y b.2.2) ∨
          (Unfit menv P.draft.vars s (storeOf P mach) ∨
              ∃ b ∈ Rules.bindings menv m slots s, fits (y b.2.2) (P.hostType b.2.2) = false) ∧
            ∃ c, Approaches P.image jump (UInt32.ofNat s.draft.codeSize, mach) c ∧
              ∃ x host name, Fails P.image (.misfit x host name c.1) c := by
  obtain ⟨hsite, lost, hb⟩ := h.site
  obtain ⟨-, -, hclaimed⟩ := (Rules.ownCall_meets hsite hb).ok hrun
  obtain ⟨m', symbol', target, slots, t, hm', hsymbol', htarget, hcall⟩ := hclaimed rfl
  obtain rfl : m' = m := Bytecode.Operand.method.inj (hm'.symm.trans hoperand)
  obtain rfl : symbol' = symbol := Except.ok.inj (hsymbol'.symm.trans hsymbol)
  obtain ⟨a, callee, after, rest, hjump, hlookup⟩ := hcall.jumps
  obtain ⟨ps, hcode⟩ := hcall.code
  obtain ⟨own, hin, hmember, hemitted⟩ := hcall.own
  have hparams := (h.separate.names_eq hin (Rules.mem_of_lookup_naming hsymbol).1 hemitted).1
  refine ⟨target, callee, slots, t.position + 1, htarget, ⟨own, hin, hmember, hparams⟩, hlookup, ?_, ?_,
    hcall.named, hcall.named.length_eq.trans hcall.length_eq, hcall.length_le,
    fun P mach y hP hm hy => ?_⟩
  · have hle : s.position ≤ t.position := by
      rw [position, position, hcode.ops, List.length_append]
      exact Nat.le_add_right _ _
    exact hle.trans (Nat.le_succ _)
  · rw [← Array.getElem?_toList, hjump.ops, position]
    simp [Piece.ops]
  · exact (hcall.conveys hvalue hnames).approach hcode hjump hP hm hy

/-! ## Arguments that are exchanged -/

def Lower.outcome? {α : Type} (x : Lower α) (env : MethodEnv) (s : Frame) : Option (α × Frame) :=
  match x env s with
  | .ok a s' => some (a, s')
  | .error _ _ => none

lemma Lower.ok_of_outcome? {α : Type} {x : Lower α} {env : MethodEnv} {s : Frame} {r : α × Frame}
    (h : x.outcome? env s = some r) : x env s = .ok r.1 r.2 := by
  unfold Lower.outcome? at h
  split at h
  · obtain rfl := Option.some.inj h
    assumption
  · cases h

def pairMethod : MethodDecl :=
  { name := "M", result := .void, isVirtual := true
    params := [{ name := "x", type := .int32 }, { name := "y", type := .int32 }] }

/-- A class, and one derived from it that overrides its method and calls it with the arguments
exchanged. -/
def swapping : Metadata :=
  let md := (Metadata.addType {} (Naming.userClass "Game.Base" none [])).2
  let md := (md.addType (Naming.userClass "Game.Door" (some ⟨16⟩) [])).2
  let md := (md.addMethod ⟨17⟩ pairMethod).2
  let md := (md.addMethod ⟨16⟩ pairMethod).2
  (md.setBody ⟨1⟩ { code := [0x2a] }).setBody ⟨0⟩
    { code := [0x02, 0x04, 0x03, 0x28, 0x02, 0, 0, 0x06, 0x2a] }

def pairSymbol : Symbol :=
  { member := .method ⟨1⟩, declaring := ⟨16⟩, name := "M", emitted := "M", flags := { family := true }
    params := ["__M_x", "__M_y"] }

def swappingNames : Naming :=
  { owner := ⟨17⟩, asked := [("M", 1)]
    symbols :=
      [pairSymbol, { pairSymbol with member := .method ⟨0⟩, declaring := ⟨17⟩, overrides := some 0 }] }

def swappingClass : ClassEnv := ⟨swapping, { inlineAccessors := false }, ⟨17⟩, swappingNames⟩

def swappingCode : List Instruction :=
  [⟨0, .ldarg0, .arg 0⟩, ⟨1, .ldarg2, .arg 2⟩, ⟨2, .ldarg1, .arg 1⟩, ⟨3, .call, .method ⟨1⟩⟩,
    ⟨8, .ret, .none⟩]

def swappingDraft : Draft := ((Draft.start ⟨17⟩).methodLabel ⟨0⟩).2

lemma comesTo_swapping : swappingClass.ComesTo .standard swappingDraft := by
  refine ⟨ok_of_toOption ?_, rfl, {}, Draft.start ⟨17⟩, rfl, .single (.label ⟨0⟩)⟩
  decide +kernel

lemma hasBody_swapping : swappingClass.HasBody ⟨0⟩ swappingCode 0 := by
  apply ClassEnv.HasBody.method
  decide +kernel

def swappingCall : Instruction := ⟨3, .call, .method ⟨1⟩⟩

/-- The variables `⟨3⟩` and `⟨4⟩` are the slots of the parameters. -/
abbrev SwappingSlots (vs : Variables) : Prop :=
  (∀ n < vs.entries.size, (vs.get ⟨n⟩).name = some "__M_x" → n = 3) ∧
    (∀ n < vs.entries.size, (vs.get ⟨n⟩).name = some "__M_y" → n = 4) ∧
    ∀ v ∈ [(⟨3⟩ : VarRef), ⟨4⟩], (vs.get v).type = .int32 ∧ (vs.get v).constant? = none

lemma lowered_swapping : ∃ menv s s', swappingClass.IsUp .standard menv swappingCall s ∧
    menv.toClassEnv = swappingClass ∧ s.stack = [⟨3⟩, ⟨4⟩, Draft.self] ∧
    Rules.ownCall.build swappingCall menv s = .ok true s' ∧ SwappingSlots s'.draft.vars := by
  have hrun : ((Frame.enter swappingClass (swappingDraft.emit (.mark ⟨0⟩)) ⟨0⟩
      swappingCode.toArray 0).toOption.any fun r =>
        (advance .standard r.1 3 r.2).any fun s =>
          r.1.nextLive? s.cursor = some 3 ∧ r.1.code[3]? = some swappingCall ∧
          ((beginInstruction 3).outcome? r.1 (s.taking 3)).any fun t =>
            t.2.stack = [⟨3⟩, ⟨4⟩, Draft.self] ∧
            ((Rules.ownCall.build swappingCall).outcome? r.1 t.2).any fun u =>
              u.1 = true ∧ SwappingSlots u.2.draft.vars) = true := by
    decide +kernel
  obtain ⟨⟨menv, s₀⟩, henter, hrun⟩ := (Option.any_eq_true _ _).1 hrun
  obtain ⟨s, hs, hrun⟩ := (Option.any_eq_true _ _).1 hrun
  obtain ⟨hnext, hinst, hrun⟩ := of_decide_eq_true hrun
  obtain ⟨⟨_, t⟩, hbegun, hrun⟩ := (Option.any_eq_true _ _).1 hrun
  obtain ⟨hstack, hrun⟩ := of_decide_eq_true hrun
  obtain ⟨⟨claimed, s'⟩, hbuild, hrun⟩ := (Option.any_eq_true _ _).1 hrun
  obtain ⟨rfl, hslots⟩ := of_decide_eq_true hrun
  obtain ⟨lost, hcourse⟩ := Course.start.advance hs
  have henter := ok_of_toOption henter
  have hsound := comesTo_swapping.sound.mark (l := ⟨0⟩) Nat.one_pos
  exact ⟨menv, t, s', ⟨comesTo_swapping, hasBody_swapping, by decide, Nat.one_pos, henter, hcourse,
    hnext, hinst, ok_of_outcome? hbegun⟩, (enters_of_enter hsound henter).toClassEnv, hstack,
    ok_of_outcome? hbuild, hslots⟩

/-- The slots of `swapping` are exchanged on the way to the jump, if they and the running program hold
values of their types. -/
theorem arguments_are_bound_at_once_swapping : ∃ menv s s' callee k,
    swappingClass.IsUp .standard menv swappingCall s ∧
      Rules.ownCall.build swappingCall menv s = .ok true s' ∧
      s'.draft.methodLabels.lookup ⟨1⟩ = some callee ∧ s'.draft.ops[k]? = some (.jump callee) ∧
      s'.draft.vars.Named ⟨3⟩ "__M_x" ∧ s'.draft.vars.Named ⟨4⟩ "__M_y" ∧
      ∀ (P : Placed menv.toClassEnv) (mach : Host.Machine), P.Completes s' → P.Loaded mach →
        (∀ v ∈ s.stack, fits (storeOf P mach v) (P.hostType v) = true) →
        ∃ mach', Approaches P.image (UInt32.ofNat (P.address k))
            (UInt32.ofNat s.draft.codeSize, mach) (UInt32.ofNat (P.address k), mach') ∧
          storeOf P mach' ⟨3⟩ = storeOf P mach ⟨4⟩ ∧ storeOf P mach' ⟨4⟩ = storeOf P mach ⟨3⟩ := by
  obtain ⟨menv, s, s', hup, hmenv, hstack, hrun, hx, hy, htypes⟩ := lowered_swapping
  have hmethod : menv.md.method ⟨1⟩ =
      { pairMethod with declaring := ⟨16⟩, body := some { code := [0x2a] } } := by
    rw [hmenv]
    decide +kernel
  have hsymbol : menv.naming.lookup menv.md (.method ⟨1⟩) = .ok pairSymbol := by
    rw [hmenv]
    rfl
  have hbuilt : menv.md.Built := by
    rw [hmenv]
    exact .setBody _ _ (.setBody _ _ (.addMethod _ _ (.addMethod _ _ (.addType _ (.addType _ .empty)))))
  obtain ⟨target, callee, slots, k, htarget, -, hlookup, -, hjump, hnamed, -, -, hall⟩ :=
    arguments_are_bound_at_once hup hrun rfl hsymbol (by rw [hmethod]; decide) (by decide)
  obtain ⟨⟨n⟩, _, hnamed₃, hrest, rfl⟩ := List.forall₂_cons_right_iff.1 hnamed
  obtain ⟨⟨n'⟩, _, hnamed₄, hnil, rfl⟩ := List.forall₂_cons_right_iff.1 hrest
  obtain rfl := List.forall₂_nil_right_iff.1 hnil
  obtain rfl := hx n hnamed₃.1 hnamed₃.2
  obtain rfl := hy n' hnamed₄.1 hnamed₄.2
  have hcallee : Rules.callTarget swappingCall ⟨1⟩ pairSymbol menv s = .ok ⟨1⟩ s := by
    rw [Rules.callTarget, metadata_bind, if_pos ⟨by decide, by rw [hmethod]; rfl⟩]
    rfl
  obtain ⟨rfl, -⟩ := EStateM.Result.ok.inj (htarget.symm.trans hcallee)
  have hbindings : Rules.bindings menv ⟨1⟩ [⟨3⟩, ⟨4⟩] s =
      [(⟨4⟩, { name := "x", type := .int32 }, ⟨3⟩), (⟨3⟩, { name := "y", type := .int32 }, ⟨4⟩)] := by
    rw [Rules.bindings, hmethod, hstack]
    rfl
  rw [hbindings] at hall
  refine ⟨menv, s, s', callee, k, hup, hrun, hlookup, hjump, hnamed₃, hnamed₄,
    fun P mach hP hm hstore => ?_⟩
  have hhas (v : VarRef) (hv : v ∈ [(⟨3⟩ : VarRef), ⟨4⟩]) : s'.draft.vars.Has v := by
    rcases List.mem_pair.1 hv with rfl | rfl
    · exact hnamed₃.1
    · exact hnamed₄.1
  have htype (v : VarRef) (hv : v ∈ [(⟨3⟩ : VarRef), ⟨4⟩]) : (P.draft.vars.get v).type = .int32 :=
    (hP.vars.type_eq (hhas v hv)).trans (htypes v hv).1
  have hfits (v : VarRef) (hv : v ∈ [(⟨3⟩ : VarRef), ⟨4⟩]) :
      fits (storeOf P mach v) (menv.ident .int32) = true := by
    rw [← htype v hv]
    exact hstore v (by rw [hstack]; exact List.mem_append_left [Draft.self] hv)
  have hconverts (v : VarRef) (hv : v ∈ [(⟨3⟩ : VarRef), ⟨4⟩]) :
      menv.ConvertsTo (P.draft.vars.get v) .int32 (storeOf P mach v) (storeOf P mach v) :=
    convertsTo_of_converted hbuilt (.shared ((hP.vars.constant?_eq (hhas v hv)).trans (htypes v hv).2)
      (.inl (htype v hv)) (hfits v hv))
  have hexchange := hall P mach
    (fun v => if v = ⟨3⟩ then storeOf P mach ⟨4⟩ else storeOf P mach ⟨3⟩) hP hm
    (by simpa using ⟨hconverts ⟨4⟩ (by simp), hconverts ⟨3⟩ (by simp)⟩)
  rcases hexchange with ⟨mach', hreach, hvalues⟩ | ⟨hbad, -⟩
  · exact ⟨mach', hreach, by simpa using hvalues⟩
  · exfalso
    rcases hbad with ⟨v, hv, -, hmisfit⟩ | ⟨b, hb, hmisfit⟩
    · exact Bool.false_ne_true (hmisfit.symm.trans (hstore v hv))
    · have hhost (v : VarRef) (hv : v ∈ [(⟨3⟩ : VarRef), ⟨4⟩]) : P.hostType v = menv.ident .int32 :=
        congrArg menv.ident (htype v hv)
      rcases List.mem_pair.1 hb with rfl | rfl
      · rw [hhost ⟨3⟩ (by simp)] at hmisfit
        exact Bool.false_ne_true (hmisfit.symm.trans (hfits ⟨4⟩ (by simp)))
      · rw [hhost ⟨4⟩ (by simp)] at hmisfit
        exact Bool.false_ne_true (hmisfit.symm.trans (hfits ⟨3⟩ (by simp)))

end FlatHeap
