import FlatHeap.Proofs.Lowering.Meets
import FlatHeap.Proofs.Padding.Blurring
import FlatHeap.Proofs.Padding.Recoding

/-!
# Lowering the same instructions at other offsets

Two codes of a method may have the same instructions that do something, at different offsets and with
different instructions between them that do nothing.  A `Twin` of a method is another code for it,
together with the pairs of offsets that stand for the same place in the one code and in the other.  It
is enough that such pairs are in the same order, and that branches land at the one exactly if they land
at the other.

The two lowerings then go hand in hand.  Their frames match: the same instructions are ahead, and
everything else is the same up to offsets.  A step that does not look at offsets takes matching frames
to matching frames with the same result, or fails in both with the same error up to offsets.  Such
steps are called blind here.  Most of them are blind because their parts are, and Lean finds that out by
itself (`IsBlind`): there is an instance for each way of putting steps together, and one for each step.
-/

namespace FlatHeap

open Bytecode (Instruction Operand)

/-! ## Instructions that correspond -/

/-- Operands that are the same, or name targets that are related one by one. -/
inductive Bytecode.Operand.Follows (R : Nat → Nat → Prop) : Operand → Operand → Prop
  | target {t t' : Nat} (h : R t t') : Follows R (.target t) (.target t')
  | switch {ts ts' : List Nat} (h : List.Forall₂ R ts ts') : Follows R (.switch ts) (.switch ts')
  | same {o : Operand} (noTarget : ∀ t, o ≠ .target t) (noSwitch : ∀ ts, o ≠ .switch ts) :
    Follows R o o

def Bytecode.Instruction.Decoded (i : Instruction) : Prop := i.opcode.isBranch = false → i.targets = []

/-- Instructions that do the same, where `same` relates offsets and `lands` targets. -/
structure Bytecode.Counterpart (same lands : Nat → Nat → Prop) (i i' : Instruction) : Prop where
  opcode : i'.opcode = i.opcode
  offset : same i.offset i'.offset
  operand : i.operand.Follows lands i'.operand
  decoded : i.Decoded

lemma Bytecode.Counterpart.shapes {same lands : Nat → Nat → Prop} {i i' : Instruction}
    (h : Counterpart same lands i i') :
    ∃ a a' op o o', i = ⟨a, op, o⟩ ∧ i' = ⟨a', op, o'⟩ ∧ o.Follows lands o' := by
  obtain ⟨a, op, o⟩ := i
  obtain ⟨a', op', o'⟩ := i'
  obtain rfl : op' = op := h.opcode
  exact ⟨a, a', op', o, o', rfl, rfl, h.operand⟩

def Bytecode.live (code : List Instruction) : List Instruction := code.filter (·.opcode != .nop)

def MethodEnv.liveFrom (env : MethodEnv) (k : Nat) : List Instruction :=
  Bytecode.live (env.code.toList.drop k)

lemma Bytecode.filter_of_findIdx? (p : Instruction → Bool) (code : List Instruction) :
    code.findIdx? p = none ∧ code.filter p = [] ∨
      ∃ n i, code.findIdx? p = some n ∧ code[n]? = some i ∧
        code.filter p = i :: (code.drop (n + 1)).filter p := by
  induction code with
  | nil => exact .inl ⟨rfl, rfl⟩
  | cons j code ih =>
    rw [List.findIdx?_cons, List.filter_cons]
    cases found : p j with
    | true => exact .inr ⟨0, j, rfl, rfl, rfl⟩
    | false =>
      rcases ih with ⟨none, empty⟩ | ⟨n, i, some, here, cons⟩
      · exact .inl ⟨by simp [none], empty⟩
      · exact .inr ⟨n + 1, i, by simp [some], here, cons⟩

lemma MethodEnv.nextLive?_cases (env : MethodEnv) (c : Nat) :
    env.nextLive? c = none ∧ env.liveFrom c = [] ∨
      ∃ k i, env.nextLive? c = some k ∧ c ≤ k ∧ env.code[k]? = some i ∧
        env.liveFrom c = i :: env.liveFrom (k + 1) := by
  rcases Bytecode.filter_of_findIdx? (·.opcode != .nop) (env.code.toList.drop c) with
    ⟨none, empty⟩ | ⟨n, i, some, here, cons⟩
  · exact .inl ⟨by simp [nextLive?, none], empty⟩
  · refine .inr ⟨c + n, i, by simp [nextLive?, some], Nat.le_add_right c n, ?_, ?_⟩
    · rwa [List.getElem?_drop, Array.getElem?_toList] at here
    · rw [liveFrom, Bytecode.live, cons, List.drop_drop]
      rfl

/-- Another code for a method, and the offsets that stand for the same place. -/
structure Twin (env : MethodEnv) where
  /-- What became of the code of bodies. -/
  recoding : MethodRef → List UInt8 → List UInt8
  /-- The other code. -/
  code : Array Instruction
  /-- Offsets that its branches name, with the offsets where they land. -/
  landings : List (Nat × Nat)
  /-- Offsets in the one code and in the other that stand for the same place. -/
  same : Nat → Nat → Prop
  same_end : same endOfBody endOfBody
  le_iff : ∀ {a a' b b' : Nat}, same a a' → same b b' → (a ≤ b ↔ a' ≤ b')
  isTarget_eq : ∀ {a a' : Nat}, same a a' → env.isTarget a = landings.any (·.2 == a')
  /-- Offsets are not recorded. -/
  quiet : env.options.sourceMap = false

namespace Twin

variable {env : MethodEnv}

def other (T : Twin env) : MethodEnv :=
  { env with md := env.md.recode T.recoding, code := T.code, landings := T.landings }

variable (T : Twin env)

def Lands (t t' : Nat) : Prop := T.same (env.landing t) (T.other.landing t')

structure Image (i i' : Instruction) : Prop extends Bytecode.Counterpart T.same T.Lands i i'

def Entry {α : Type} (e e' : Nat × α) : Prop := T.same e.1 e'.1 ∧ e'.2 = e.2

/-- Frames that agree but for the instruction being lowered. -/
structure Near (s s' : Frame) : Prop where
  draft : s'.draft.blur = s.draft.blur
  ahead : List.Forall₂ T.Image (env.liveFrom s.cursor) (T.other.liveFrom s'.cursor)
  saved : s'.saved = s.saved
  stack : s'.stack = s.stack
  scratch : s'.scratch = s.scratch
  flowEnded : s'.flowEnded = s.flowEnded
  labels : List.Forall₂ T.Entry s.labels s'.labels
  merges : List.Forall₂ T.Entry s.merges s'.merges

def Here (k k' : Option Nat) : Prop :=
  ∃ i i', k.bind (env.code[·]?) = some i ∧ k'.bind (T.code[·]?) = some i' ∧ T.Image i i'

structure Matches (s s' : Frame) : Prop extends T.Near s s' where
  current : T.Here s.current s'.current

/-- How two steps may end that were started in matching frames, the first of them in `s`: both with
results as `V` says in matching frames, or both with an error, the same up to offsets.  The cursor is
not moved back. -/
inductive Agree {α : Type} (V : α → α → Prop) (s : Frame) :
    EStateM.Result CompileError Frame α → EStateM.Result CompileError Frame α → Prop
  | ok {a a' : α} {t t' : Frame} (result : V a a') (frames : T.Matches t t')
    (forward : s.cursor ≤ t.cursor) : Agree V s (.ok a t) (.ok a' t')
  | error {e e' : CompileError} {t t' : Frame} (cause : e'.blur = e.blur) :
    Agree V s (.error e t) (.error e' t')

def Alike {α : Type} (V : α → α → Prop) (m m' : Lower α) : Prop :=
  ∀ s s' : Frame, T.Matches s s' → T.Agree V s (m env s) (m' T.other s')

def Blind {α : Type} (m : Lower α) : Prop := T.Alike Eq m m

/-- Steps that are blind because of the way they are put together. -/
class IsBlind {α : Type} (m : Lower α) : Prop where
  blind : T.Blind m

export IsBlind (blind)

variable {T} {α β : Type} {V : α → α → Prop} {W : β → β → Prop} {m m' : Lower α}
  {f f' : α → Lower β} {s s' : Frame}

/-! ## Offsets -/

lemma same_inj {a a' b b' : Nat} (h : T.same a a') (h' : T.same b b') : a' = b' ↔ a = b := by
  rw [Nat.le_antisymm_iff, Nat.le_antisymm_iff, T.le_iff h h', T.le_iff h' h]

lemma isTarget_eq' {a a' : Nat} (h : T.same a a') : T.other.isTarget a' = env.isTarget a :=
  (T.isTarget_eq h).symm

lemma same_beq {a a' b b' : Nat} (h : T.same a a') (h' : T.same b b') :
    (a' == b') = (a == b) := by
  rw [Bool.beq_eq_decide_eq, Bool.beq_eq_decide_eq, decide_eq_decide, same_inj h h']

lemma lookup_eq {table table' : List (Nat × α)} (h : List.Forall₂ T.Entry table table') {a a' : Nat}
    (place : T.same a a') : table'.lookup a' = table.lookup a := by
  induction h with
  | nil => rfl
  | @cons e e' rest rest' here _ ih =>
    obtain ⟨k, v⟩ := e
    obtain ⟨k', v'⟩ := e'
    obtain ⟨same, rfl : v' = v⟩ := here
    simp only [List.lookup_cons, same_beq place same, ih]

lemma filter_entries {table table' : List (Nat × α)} (h : List.Forall₂ T.Entry table table')
    {a a' : Nat} (place : T.same a a') :
    List.Forall₂ T.Entry (table.filter (·.1 != a)) (table'.filter (·.1 != a')) := by
  induction h with
  | nil => exact .nil
  | @cons e e' rest rest' here _ ih =>
    have decided : (e'.1 != a') = (e.1 != a) := by
      rw [bne, bne, same_beq here.1 place]
    rw [List.filter_cons, List.filter_cons, decided]
    split_ifs
    · exact .cons here ih
    · exact ih

/-! ## Sequencing -/

lemma Agree.outcome {x x' : EStateM.Result CompileError Frame Unit} {V : Unit → Unit → Prop}
    (h : T.Agree V s x x') :
    (∃ t t', x = .ok () t ∧ x' = .ok () t' ∧ t'.draft.blur = t.draft.blur) ∨
      ∃ e e' t t', x = .error e t ∧ x' = .error e' t' ∧ e'.blur = e.blur := by
  cases h with
  | ok _ frames _ => exact .inl ⟨_, _, rfl, rfl, frames.draft⟩
  | error cause => exact .inr ⟨_, _, _, _, rfl, rfl, cause⟩

lemma Agree.since {t : Frame} {x x' : EStateM.Result CompileError Frame α} (h : T.Agree V t x x')
    (forward : s.cursor ≤ t.cursor) : T.Agree V s x x' := by
  cases h with
  | ok result frames further => exact .ok result frames (forward.trans further)
  | error cause => exact .error cause

/-- **Sequencing**, after a step whose end is known. -/
lemma Agree.bind {r r' : Frame} (h : T.Agree V s (m env r) (m' T.other r'))
    (next : ∀ a a' t t', V a a' → T.Matches t t' → s.cursor ≤ t.cursor →
      T.Agree W s (f a env t) (f' a' T.other t')) :
    T.Agree W s ((m >>= f) env r) ((m' >>= f') T.other r') := by
  generalize run : m env r = x, run' : m' T.other r' = x' at h
  cases h with
  | error cause =>
    rw [Lower.bind_error run, Lower.bind_error run']
    exact .error cause
  | ok result frames forward =>
    rw [Lower.bind_ok run, Lower.bind_ok run']
    exact next _ _ _ _ result frames forward

/-- **Sequencing.** -/
lemma Alike.bind (h : T.Alike V m m') (next : ∀ a a', V a a' → T.Alike W (f a) (f' a')) :
    T.Alike W (m >>= f) (m' >>= f') := fun s s' frames =>
  (h s s' frames).bind fun a a' t t' result frames forward =>
    (next a a' result t t' frames).since forward

lemma before [T.IsBlind m] (next : ∀ a, T.Alike W (f a) (f' a)) : T.Alike W (m >>= f) (m >>= f') :=
  Alike.bind (blind (m := m)) fun a a' (e : a = a') => e ▸ next a

lemma IsBlind.bind [T.IsBlind m] (next : ∀ a, T.IsBlind (f a)) : T.IsBlind (m >>= f) :=
  ⟨before fun a => (next a).blind⟩

instance blind_bind [T.IsBlind m] [∀ a, T.IsBlind (f a)] : T.IsBlind (m >>= f) := .bind inferInstance

lemma alike_pure {a a' : α} (h : V a a') : T.Alike V (pure a) (pure a') :=
  fun _ _ frames => .ok h frames le_rfl

instance blind_pure {a : α} : T.IsBlind (pure a) := ⟨alike_pure rfl⟩

lemma alike_throw {e e' : CompileError} (h : e'.blur = e.blur) :
    T.Alike V (throw e) (throw e') := fun _ _ _ => .error h

lemma alike_throw_bind {e e' : CompileError} (h : e'.blur = e.blur) :
    T.Alike W (throw e >>= f) (throw e' >>= f') := fun _ _ _ => .error h

instance blind_breach {b : Breach} : T.IsBlind (Lower.breach b : Lower α) := ⟨alike_throw rfl⟩

instance blind_refuse {l : Limitation} : T.IsBlind (Lower.refuse l : Lower α) := ⟨alike_throw rfl⟩

instance blind_ofExcept (x : Except CompileError α) : T.IsBlind (ofExcept x : Lower α) := by
  cases x with
  | ok a => exact blind_pure
  | error e => exact ⟨alike_throw rfl⟩

lemma alike_ite {c c' : Prop} [Decidable c] [Decidable c'] {k k' : Lower α} (iff : c' ↔ c)
    (h : T.Alike V m m') (h' : T.Alike V k k') :
    T.Alike V (if c then m else k) (if c' then m' else k') := by
  by_cases holds : c
  · rw [if_pos holds, if_pos (iff.2 holds)]
    exact h
  · rw [if_neg holds, if_neg fun holds' => holds (iff.1 holds')]
    exact h'

lemma Alike.ite {c : Prop} [Decidable c] {k k' : Lower α} (h : T.Alike V m m')
    (h' : T.Alike V k k') : T.Alike V (if c then m else k) (if c then m' else k') :=
  alike_ite Iff.rfl h h'

lemma IsBlind.ite {c : Prop} [Decidable c] {k : Lower α} (h : T.IsBlind m) (h' : T.IsBlind k) :
    T.IsBlind (if c then m else k) := ⟨Alike.ite h.blind h'.blind⟩

instance blind_ite {c : Prop} [Decidable c] {k : Lower α} [T.IsBlind m] [T.IsBlind k] :
    T.IsBlind (if c then m else k) := .ite inferInstance inferInstance

lemma IsBlind.join {c : Prop} [Decidable c] {k : Lower α} [T.IsBlind m] [T.IsBlind k]
    (next : ∀ a, T.IsBlind (f a)) : T.IsBlind (if c then m >>= f else k >>= f) :=
  .ite (.bind next) (.bind next)

lemma IsBlind.optional {c : Prop} [Decidable c] {k : Lower β} [T.IsBlind m] (next : T.IsBlind k) :
    T.IsBlind (if c then m >>= fun _ => k else k) := .ite (.bind fun _ => next) next

instance blind_map {g : α → β} [T.IsBlind m] : T.IsBlind (g <$> m) :=
  ⟨before (f := fun a => pure (g a)) fun _ => blind⟩

lemma Alike.locating {offset offset' : Option Nat} (h : T.Alike V m m')
    (place : blurOffset offset' = blurOffset offset) :
    T.Alike V (Lower.locating offset m) (Lower.locating offset' m') := by
  intro s s' frames
  have here := h s s' frames
  simp only [Lower.locating]
  generalize m env s = x, m' T.other s' = x' at here ⊢
  cases here with
  | error cause => exact .error (CompileError.blur_locate_congr cause env.name place)
  | ok result frames forward => exact .ok result frames forward

/-! ## What is fixed -/

lemma alike_read {f f' : MethodEnv → Lower β} (h : T.Alike W (f env) (f' T.other)) :
    T.Alike W (read >>= f) (read >>= f') := fun s s' frames => h s s' frames

lemma IsBlind.read {f : MethodEnv → Lower β} (fixed : f T.other = f env) (h : T.IsBlind (f env)) :
    T.IsBlind (read >>= f) := ⟨alike_read (by rw [fixed]; exact h.blind)⟩

lemma alike_metadata {f f' : Metadata → Lower β}
    (h : T.Alike W (f env.md) (f' (env.md.recode T.recoding))) :
    T.Alike W (Lower.metadata >>= f) (Lower.metadata >>= f') := fun s s' frames => h s s' frames

lemma IsBlind.metadata {f : Metadata → Lower β} (fixed : f (env.md.recode T.recoding) = f env.md)
    (h : T.IsBlind (f env.md)) : T.IsBlind (Lower.metadata >>= f) :=
  .read (f := fun env => f env.md) fixed h

instance blind_ident (t : TypeRef) : T.IsBlind (Lower.ident t) :=
  .read (f := fun env => pure (env.ident t)) (congrArg pure (Metadata.hostIdent_recode _ t))
    inferInstance

instance blind_arg (n : Nat) : T.IsBlind (Lower.arg n) := by
  refine .read rfl ?_
  split <;> infer_instance

instance blind_localSlot (n : Nat) : T.IsBlind (Lower.localSlot n) := by
  refine .read rfl ?_
  split <;> infer_instance

/-! ## The draft -/

open Lower

lemma blind_draft {change : Draft → α × Draft} (h : Draft.Blind change) :
    T.IsBlind (draft change) := by
  refine ⟨fun s s' frames => ?_⟩
  obtain ⟨result, after⟩ := h.congr frames.draft.symm
  exact .ok result { frames with draft := after.symm } le_rfl

lemma blind_tryDraft {change : Draft → Except CompileError (α × Draft)} (h : Draft.TryBlind change) :
    T.IsBlind (tryDraft change) := by
  refine ⟨fun s s' frames => ?_⟩
  have both := CompileError.Matched.of_map_eq
    ((h s'.draft).symm.trans ((congrArg change frames.draft).trans (h s.draft)))
  simp only [tryDraft, get_bind]
  generalize change s.draft = x, change s'.draft = x' at both
  cases both with
  | error cause => exact .error cause
  | ok e =>
    obtain ⟨result, after⟩ := Prod.mk.inj e
    exact .ok result.symm { frames with draft := after } le_rfl

lemma Near.get_eq (h : T.Near s s') (v : VarRef) :
    (s'.draft.vars.get v).blur = (s.draft.vars.get v).blur := by
  have vars : s'.draft.vars.blur = s.draft.vars.blur := congrArg Draft.vars h.draft
  rw [← Variables.get_blur, vars, Variables.get_blur]

lemma alike_var {v : VarRef} {f f' : Variable → Lower β}
    (h : ∀ x x', x'.blur = x.blur → T.Alike W (f x) (f' x')) :
    T.Alike W (var v >>= f) (var v >>= f') :=
  fun s s' frames => h _ _ (frames.get_eq v) s s' frames

lemma IsBlind.var {v : VarRef} {f : Variable → Lower β} (fixed : ∀ x, f x.blur = f x)
    (h : ∀ x, T.IsBlind (f x)) : T.IsBlind (var v >>= f) := by
  refine ⟨alike_var fun x x' e => ?_⟩
  rw [Variable.congr_of_blur_eq fixed e]
  exact (h x).blind

instance blind_typeOf (v : VarRef) : T.IsBlind (typeOf v) := .var (fun _ => rfl) inferInstance

instance blind_constant? (v : VarRef) : T.IsBlind (constant? v) := .var (fun _ => rfl) inferInstance

instance blind_stackType (v : VarRef) : T.IsBlind (stackType v) := by
  refine .bind fun t => .metadata rfl ?_
  split <;> infer_instance

instance blind_emit (op : Op) : T.IsBlind (emit op) := blind_draft (Draft.blind_emit op)

instance blind_newLabel : T.IsBlind newLabel := blind_draft Draft.blind_newLabel

instance blind_constant (value : Value) (t : TypeRef) : T.IsBlind (constant value t) :=
  blind_draft (Draft.blind_constant value t)

instance blind_textConstant (text : String) : T.IsBlind (textConstant text) :=
  blind_constant (.text text) .string

instance blind_intConstant (t : TypeRef) (v : Int) : T.IsBlind (intConstant t v) := by
  refine .metadata ?_ ?_
  · simp only [Metadata.integerValue?_recode]
    rfl
  split <;> infer_instance

instance blind_elementAddress (array index : VarRef) (elem : TypeRef) :
    T.IsBlind (elementAddress array index elem) := blind_draft (Draft.blind_addVar rfl)

instance blind_addressOf (v : VarRef) : T.IsBlind (addressOf v) :=
  .bind fun _ => blind_draft (Draft.blind_addVar rfl)

instance blind_fieldVar (f : FieldRef) : T.IsBlind (fieldVar f) := by
  refine .read ?_ (blind_tryDraft (Draft.tryBlind_fieldVar _ f))
  have slot (d : Draft) : d.fieldVar T.other.toClassEnv f = d.fieldVar env.toClassEnv f := by
    simp only [Draft.fieldVar, other, Metadata.lookup_recode, Metadata.defaultValue_recode]
    rfl
  exact congrArg tryDraft (funext slot)

/-! ## The operand stack -/

lemma alike_modify {change change' : Frame → Frame}
    (h : ∀ s s', T.Matches s s' → T.Matches (change s) (change' s'))
    (forward : ∀ s, s.cursor ≤ (change s).cursor) :
    T.Alike Eq (modify change : Lower Unit) (modify change') :=
  fun s s' frames => .ok rfl (h s s' frames) (forward s)

/-- Steps that replace the operand stack. -/
instance blind_modifyStack (g : List VarRef → List VarRef) :
    T.IsBlind (modify fun s => { s with stack := g s.stack } : Lower Unit) :=
  ⟨alike_modify (fun _ _ frames => { frames with stack := congrArg g frames.stack }) fun _ => le_rfl⟩

instance blind_pushStack (v : VarRef) : T.IsBlind (pushStack v) := blind_modifyStack (v :: ·)

instance blind_setStack (i : Nat) (v : VarRef) : T.IsBlind (setStack i v) :=
  blind_modifyStack fun stack => (stack.reverse.set i v).reverse

instance blind_popStack : T.IsBlind popStack := by
  refine ⟨fun s s' frames => ?_⟩
  simp only [popStack, get_bind, frames.stack]
  cases s.stack with
  | nil => exact .error rfl
  | cons v rest => exact .ok rfl { frames with stack := rfl } le_rfl

instance blind_peekStack (depth : Nat) : T.IsBlind (peekStack depth) := by
  refine ⟨fun s s' frames => ?_⟩
  simp only [peekStack, get_bind, frames.stack]
  cases s.stack[depth]? with
  | none => exact .error rfl
  | some v => exact .ok rfl frames le_rfl

instance blind_popMany (n : Nat) : T.IsBlind (popMany n) := by
  refine ⟨fun s s' frames => ?_⟩
  simp only [popMany, get_bind, frames.stack]
  split_ifs
  · exact .error rfl
  · exact .ok rfl { frames with stack := rfl } le_rfl

/-! ## The scratch pool -/

lemma Here.offsets {k k' : Option Nat} (h : T.Here k k') :
    ∃ a a', k.bind (fun i => (env.code[i]?).map (·.offset)) = some a ∧
      k'.bind (fun i => (T.code[i]?).map (·.offset)) = some a' ∧ T.same a a' := by
  obtain ⟨i, i', here, here', image⟩ := h
  refine ⟨i.offset, i'.offset, ?_, ?_, image.offset⟩
  · cases k with
    | none => cases here
    | some k => exact congrArg (Option.map Instruction.offset) here
  · cases k' with
    | none => cases here'
    | some k' => exact congrArg (Option.map Instruction.offset) here'

/-- The frame after a temporary has been taken for an instruction at an offset. -/
def taken (name : String) (t : TypeRef) (offset : Option Nat) (s : Frame) :
    EStateM.Result CompileError Frame VarRef :=
  let r := s.scratch.take s.draft.vars t (some ⟨name, offset⟩)
  .ok r.1 { s with draft := { s.draft with vars := r.2.1 }, scratch := r.2.2 }

instance blind_temp (t : TypeRef) : T.IsBlind (temp t) := by
  refine ⟨fun s s' frames => ?_⟩
  obtain ⟨a, a', here, here', -⟩ := frames.current.offsets
  have run : temp t env s = taken env.name t (some a) s := by
    rw [← here]
    rfl
  have run' : temp t T.other s' = taken env.name t (some a') s' := by
    rw [← here']
    rfl
  have vars : s'.draft.vars.blur = s.draft.vars.blur := congrArg Draft.vars frames.draft
  -- Both requests are the same request of the blurred variables.
  have both := (s.scratch.take_blur s.draft.vars t (some ⟨env.name, some a⟩)).symm.trans
    ((congrArg (s.scratch.take · t (some ⟨env.name, some 0⟩)) vars.symm).trans
      (s.scratch.take_blur s'.draft.vars t (some ⟨env.name, some a'⟩)))
  obtain ⟨result, both⟩ := Prod.mk.inj both
  obtain ⟨after, pool⟩ := Prod.mk.inj both
  rw [run, run', taken, taken, frames.scratch]
  refine .ok result { frames with draft := ?_, scratch := pool.symm } le_rfl
  exact congrArg₂ (fun d vs => { d with vars := vs }) frames.draft after.symm

lemma blind_pool {op : Scratch → Variables → Except Breach (Variables × Scratch)}
    (h : ∀ s vs, op s vs.blur = (op s vs).map Scratch.blurResult) : T.IsBlind (pool op) := by
  refine ⟨fun s s' frames => ?_⟩
  have vars : s'.draft.vars.blur = s.draft.vars.blur := congrArg Draft.vars frames.draft
  have both := (h s.scratch s'.draft.vars).symm.trans
    ((congrArg (op s.scratch) vars).trans (h s.scratch s.draft.vars))
  simp only [pool, get_bind, frames.scratch]
  generalize op s.scratch s.draft.vars = x, op s.scratch s'.draft.vars = x' at both
  cases x with
  | error b =>
    cases x' with
    | error b' =>
      obtain rfl := Except.error.inj both
      exact .error rfl
    | ok r' => cases both
  | ok r =>
    cases x' with
    | error b' => cases both
    | ok r' =>
      obtain ⟨after, pool⟩ := Prod.mk.inj (Except.ok.inj both)
      refine .ok rfl { frames with draft := ?_, scratch := pool } le_rfl
      exact congrArg₂ (fun d vs => { d with vars := vs }) frames.draft after

instance blind_allocate (v : VarRef) (n : Nat) : T.IsBlind (allocate v n) :=
  blind_pool fun s vs => s.allocate_blur vs v n

instance blind_useVar (v : VarRef) : T.IsBlind (useVar v) := blind_pool fun s vs => s.use_blur vs v

instance blind_reserve (v : VarRef) : T.IsBlind (reserve v) :=
  blind_pool fun s vs => s.reserve_blur vs v

instance blind_release (v : VarRef) : T.IsBlind (release v) :=
  blind_pool fun s vs => s.release_blur vs v

instance blind_discardVar (v : VarRef) : T.IsBlind (discardVar v) := by
  refine .var (fun _ => rfl) fun x => ?_
  split <;> infer_instance

/-! ## The cursor -/

/-- The next instruction that does something, in both codes. -/
structure Next (T : Twin env) (c c' k k' : Nat) (i i' : Instruction) : Prop where
  next : env.nextLive? c = some k
  next' : T.other.nextLive? c' = some k'
  here : env.code[k]? = some i
  here' : T.code[k']? = some i'
  image : T.Image i i'
  forward : c ≤ k
  split : env.liveFrom c = i :: env.liveFrom (k + 1)
  ahead : List.Forall₂ T.Image (env.liveFrom (k + 1)) (T.other.liveFrom (k' + 1))

lemma next_cases {c c' : Nat} (h : List.Forall₂ T.Image (env.liveFrom c) (T.other.liveFrom c')) :
    env.liveFrom c = [] ∧ env.nextLive? c = none ∧ T.other.nextLive? c' = none ∨
      ∃ k k' i i', T.Next c c' k k' i i' := by
  rcases env.nextLive?_cases c with ⟨none, empty⟩ | ⟨k, i, next, forward, here, cons⟩
  · rw [empty, List.forall₂_nil_left_iff] at h
    rcases T.other.nextLive?_cases c' with ⟨none', -⟩ | ⟨k', i', -, -, -, cons'⟩
    · exact .inl ⟨empty, none, none'⟩
    · simp [cons'] at h
  · rw [cons, List.forall₂_cons_left_iff] at h
    obtain ⟨i₁, rest, image, ahead, split⟩ := h
    rcases T.other.nextLive?_cases c' with ⟨-, empty'⟩ | ⟨k', i', next', -, here', cons'⟩
    · simp [empty'] at split
    · obtain ⟨rfl, rfl⟩ := List.cons.inj (cons'.symm.trans split)
      exact .inr ⟨k, k', i, _, ⟨next, next', here, here', image, forward, cons, ahead⟩⟩

lemma Next.matches {k k' : Nat} {i i' : Instruction} (next : T.Next s.cursor s'.cursor k k' i i')
    (h : T.Near s s') : T.Matches { s with cursor := k + 1, current := some k }
      { s' with cursor := k' + 1, current := some k' } :=
  { h with ahead := next.ahead, current := ⟨i, i', next.here, next.here', next.image⟩ }

lemma alike_currentOffset : T.Alike T.same currentOffset currentOffset := by
  intro s s' frames
  obtain ⟨i, i', here, here', image⟩ := frames.current
  have run : currentOffset env s = .ok i.offset s := by
    show EStateM.Result.ok (((s.current.bind (env.code[·]?)).map (·.offset)).getD 0) s = _
    rw [here]
    rfl
  have run' : currentOffset T.other s' = .ok i'.offset s' := by
    show EStateM.Result.ok (((s'.current.bind (T.code[·]?)).map (·.offset)).getD 0) s' = _
    rw [here']
    rfl
  rw [run, run']
  exact .ok image.offset frames le_rfl

lemma alike_peek? : T.Alike (fun k k' => k'.isSome = k.isSome) peek? peek? := by
  intro s s' frames
  have run : peek? env s = .ok (env.nextLive? s.cursor) s := rfl
  have run' : peek? T.other s' = .ok (T.other.nextLive? s'.cursor) s' := rfl
  rw [run, run']
  refine .ok ?_ frames le_rfl
  rcases next_cases frames.ahead with ⟨-, none, none'⟩ | ⟨k, k', i, i', next⟩
  · rw [none, none']
  · rw [next.next, next.next']
    rfl

lemma Image.storeSlot?_eq {i i' : Instruction} (h : T.Image i i') :
    storeSlot? T.other i' = storeSlot? env i := by
  obtain ⟨a, a', op, o, o', rfl, rfl, follows⟩ := h.shapes
  cases follows <;> rfl

lemma fusable?_none (t : TypeRef) (h : env.nextLive? s.cursor = none) :
    fusable? t env s = .ok none s := by
  show EStateM.Result.ok _ s = _
  rw [h]
  rfl

lemma fusable?_some (t : TypeRef) {k : Nat} {i : Instruction} (next : env.nextLive? s.cursor = some k)
    (here : env.code[k]? = some i) :
    fusable? t env s = .ok ((storeSlot? env i).bind fun slot =>
      if (s.draft.vars.get slot).type == t && !env.isTarget i.offset && !s.stack.contains slot &&
        !isSelf slot then some (slot, k) else none) s := by
  show EStateM.Result.ok _ s = _
  rw [next]
  simp only [Option.bind_eq_bind, Option.bind_some, here]
  cases storeSlot? env i with
  | none => rfl
  | some slot =>
    simp only [Option.bind_some, guard]
    split_ifs <;> rfl

instance blind_destination (t : TypeRef) : T.IsBlind (destination t) := by
  have elsewhere : T.Blind (return ⟨← temp t, false⟩ : Lower Destination) := blind
  refine ⟨fun s s' frames => ?_⟩
  rcases next_cases frames.ahead with ⟨-, none, none'⟩ | ⟨k, k', i, i', next⟩
  · rw [destination, bind_ok (fusable?_none t none), bind_ok (fusable?_none t none')]
    exact elsewhere s s' frames
  have type (v : VarRef) : (s'.draft.vars.get v).type = (s.draft.vars.get v).type :=
    Variable.congr_of_blur_eq Variable.type_blur (frames.get_eq v)
  have run := fusable?_some t next.next next.here
  have run' := fusable?_some t next.next' next.here'
  rw [next.image.storeSlot?_eq] at run'
  simp only [type, isTarget_eq' next.image.offset, frames.stack] at run'
  rw [destination, bind_ok run, bind_ok run']
  cases storeSlot? env i with
  | none => exact elsewhere s s' frames
  | some slot =>
    simp only [Option.bind_some]
    split_ifs
    · exact .ok rfl (next.matches frames.toNear) (next.forward.trans (Nat.le_succ k))
    · exact elsewhere s s' frames

end Twin

end FlatHeap
