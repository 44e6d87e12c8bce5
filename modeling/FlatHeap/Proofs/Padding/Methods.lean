import FlatHeap.Proofs.Padding.Rules
import FlatHeap.Proofs.Rules.Bodies

/-!
# Lowering a method from two codes

The loop over the instructions of a method takes the same instructions from both codes, one by one, so
what is said of one instruction in the modules before carries over to whole methods.  What is left is to
make a twin.  A `Pairing` says of two codes as they are decoded what a `Twin` says of a method that is
being lowered: the instructions that do something correspond, offsets of the same place are in the same
order, and branches land at the same places.  Every code is paired with itself.
-/

namespace FlatHeap

open Bytecode (Instruction)

variable {i : Instruction} {d : Draft}

namespace Twin

open Lower

variable {env env : MethodEnv} {T : Twin env} {i i' : Instruction} {rules : Rulebook} {s s' : Frame}
  {fuel : Nat}

/-- **One instruction.** -/
lemma Image.alike_lowerInstruction (h : T.Image i i') (standard : rules.IsStandard) (k k' : Nat) :
    T.Alike Eq (lowerInstruction rules k i) (lowerInstruction rules k' i') := by
  have begun : T.Alike Eq (locating (some i.offset) (beginInstruction i.offset))
      (locating (some i'.offset) (beginInstruction i'.offset)) :=
    (alike_beginInstruction h.offset).locating rfl
  have lowered : T.Alike Eq (locating (some i.offset) (dispatch rules i))
      (locating (some i'.offset) (dispatch rules i')) := (h.alike_dispatch standard).locating rfl
  refine begun.bind fun _ _ _ => lowered.bind fun _ _ _ s s' frames => ?_
  obtain ⟨j, j', here, here', image⟩ := frames.current
  cases at? : s.current with
  | none => simp [at?] at here
  | some c =>
    cases at?' : s'.current with
    | none => simp [at?'] at here'
    | some c' =>
      rw [at?, Option.bind_some] at here
      rw [at?', Option.bind_some] at here'
      rw [read_bind, read_bind, get_bind, get_bind]
      simp only [at?, at?', Option.getD_some, here, other, here', Option.map_some, image.opcode]
      exact .ok rfl { frames with flowEnded := rfl } le_rfl

lemma liveFrom_of_size_le (env : MethodEnv) {c : Nat} (h : env.code.size ≤ c) :
    env.liveFrom c = [] := by
  rw [MethodEnv.liveFrom, List.drop_eq_nil_of_le (by simpa using h), Bytecode.live, List.filter_nil]

lemma length_liveFrom_le (env : MethodEnv) {c k : Nat} (h : c ≤ k) :
    (env.liveFrom k).length ≤ (env.liveFrom c).length :=
  ((List.drop_sublist_drop_left _ h).filter _).length_le

lemma length_liveFrom_le_size (env : MethodEnv) (c : Nat) :
    (env.liveFrom c).length ≤ env.code.size :=
  (List.length_filter_le _ _).trans (by simp)

lemma Near.atEnd (h : T.Near s s') : T.Near (s.atEnd env) (s'.atEnd T.other) := by
  have none : env.liveFrom (s.atEnd env).cursor = [] := liveFrom_of_size_le env (le_max_right _ _)
  have none' : T.other.liveFrom (s'.atEnd T.other).cursor = [] :=
    liveFrom_of_size_le T.other (le_max_right _ _)
  exact { h with ahead := by rw [none, none']; exact .nil }

lemma lowerFrom_end {s : Frame} (none : env.nextLive? s.cursor = none) :
    lowerFrom rules (fuel + 1) env s = .ok () (s.atEnd env) := by
  rw [lowerFrom, bind_ok (next?_none none)]
  rfl

lemma lowerFrom_next {k : Nat} {s : Frame} (next : env.nextLive? s.cursor = some k)
    (here : env.code[k]? = some i) :
    lowerFrom rules (fuel + 1) env s =
      (lowerInstruction rules k i >>= fun _ => lowerFrom rules fuel) env (s.taking k) := by
  rw [lowerFrom, bind_ok (next?_some next)]
  simp only [read_bind, here]

/-- **The loop.**  Both lowerings take the same instructions, so neither runs out of fuel.  The
instructions ahead get fewer with each one taken. -/
lemma agree_lowerFrom (standard : rules.IsStandard) {fuel' : Nat} (near : T.Near s s')
    (begun : env.liveFrom s.cursor ≠ [] ∨ T.Matches s s')
    (enough : (env.liveFrom s.cursor).length < fuel)
    (enough' : (env.liveFrom s.cursor).length < fuel') :
    T.Agree Eq s (lowerFrom rules fuel env s) (lowerFrom rules fuel' T.other s') := by
  induction fuel generalizing s s' fuel' with
  | zero => exact absurd enough (Nat.not_lt_zero _)
  | succ fuel ih =>
    obtain ⟨fuel', rfl⟩ := Nat.exists_eq_add_one.2 ((Nat.zero_le _).trans_lt enough')
    rcases next_cases near.ahead with ⟨empty, none, none'⟩ | ⟨k, k', i, i', next⟩
    · rw [lowerFrom_end none, lowerFrom_end none']
      have frames : T.Matches s s' := begun.resolve_left (not_not.2 empty)
      exact .ok rfl { frames.toNear.atEnd with current := frames.current } (le_max_left _ _)
    rw [lowerFrom_next next.next next.here, lowerFrom_next next.next' next.here']
    have passed : s.cursor ≤ k + 1 := next.forward.trans (Nat.le_succ k)
    have fewer : (env.liveFrom (k + 1)).length < (env.liveFrom s.cursor).length := by
      rw [next.split]
      exact Nat.lt_succ_self _
    have lowered := next.image.alike_lowerInstruction standard k k' _ _ (next.matches near)
    refine Agree.since (lowered.bind fun _ _ t t' _ frames forward => ?_) passed
    have left := (length_liveFrom_le env forward).trans_lt fewer
    exact (ih frames.toNear (.inr frames) (left.trans_le (Nat.le_of_lt_succ enough))
      (left.trans_le (Nat.le_of_lt_succ enough'))).since forward

lemma lowerAll_eq (rules : Rulebook) (env : MethodEnv) (s : Frame) :
    lowerAll rules env s = (lowerFrom rules (env.code.size + rewinds + 1) >>= fun _ => do
      if env.isTarget endOfBody then locating none (arrive endOfBody)
      locating none finish) env s := by
  rw [lowerAll, read_bind]

lemma agree_lowerAll (standard : rules.IsStandard) (near : T.Near s s')
    (some : env.liveFrom s.cursor ≠ []) :
    T.Agree Eq s (lowerAll rules env s) (lowerAll rules T.other s') := by
  have short := length_liveFrom_le_size env s.cursor
  have short' : (env.liveFrom s.cursor).length ≤ T.other.code.size := by
    rw [near.ahead.length_eq]
    exact length_liveFrom_le_size T.other s'.cursor
  rw [lowerAll_eq, lowerAll_eq]
  refine (agree_lowerFrom standard near (.inl some) (by omega) (by omega)).bind
    fun _ _ t t' _ frames forward => ?_
  have finished : T.Alike Eq (locating none finish) (locating none finish) := Alike.locating blind rfl
  have ended : T.Alike Eq (locating none (arrive endOfBody)) (locating none (arrive endOfBody)) :=
    (alike_arrive T.same_end).locating rfl
  exact (alike_ite (by rw [isTarget_eq' T.same_end]) (ended.bind fun _ _ _ => finished) finished t t'
    frames).since forward

lemma lowerAll_idle {start : Nat} (none : env.nextLive? start = none)
    (noTarget : env.isTarget endOfBody = false) :
    lowerAll rules env { draft := d, cursor := start } =
      .ok () (Frame.atEnd env { draft := d, cursor := start }) := by
  rw [lowerAll_eq, bind_ok (lowerFrom_end none), noTarget]
  rfl

end Twin

/-! ## Codes that correspond -/

lemma forall₂_imp_of_mem {α β : Type} {R S : α → β → Prop} {l : List α} {l' : List β}
    (h : List.Forall₂ R l l') (imp : ∀ a ∈ l, ∀ b ∈ l', R a b → S a b) : List.Forall₂ S l l' :=
  List.forall₂_iff_zip.2 ⟨h.length_eq, fun mem =>
    imp _ (List.of_mem_zip mem).1 _ (List.of_mem_zip mem).2 (List.forall₂_zip h mem)⟩

lemma exists_of_forall₂ {α β : Type} {R : α → β → Prop} {l : List α} {l' : List β}
    (h : List.Forall₂ R l l') {a : α} (mem : a ∈ l) : ∃ b ∈ l', R a b := by
  induction h with
  | nil => cases mem
  | cons here _ ih =>
    rcases List.mem_cons.1 mem with rfl | mem
    · exact ⟨_, List.mem_cons_self, here⟩
    · obtain ⟨b, mem, related⟩ := ih mem
      exact ⟨b, List.mem_cons_of_mem _ mem, related⟩

namespace Bytecode

variable {bytes : List UInt8} {code : List Instruction}

lemma Site.targets_of_operand {site : Site} {o : Operand} (offset : Nat)
    (h : site.operand bytes = .ok o) (other : site.opcode.isBranch = false) :
    (⟨offset, site.opcode, o⟩ : Instruction).targets = [] := by
  unfold Opcode.isBranch at other
  unfold Site.operand at h
  split at h
  -- the opcode contains its operand, if it has one
  case h_1 | h_2 | h_3 | h_4 =>
    obtain rfl := Except.ok.inj h
    rfl
  case h_14 kind | h_15 kind | h_16 kind => simp [kind] at other
  all_goals
    obtain ⟨_, -, h⟩ := except_bind_eq_ok_iff.1 h
    obtain rfl := Except.ok.inj h
    rfl

lemma decoded_of_decodeFrom {md : Metadata} {bodySize offset : Nat}
    (h : decodeFrom md bodySize offset bytes = .ok code) : ∀ i ∈ code, i.Decoded := by
  induction offset, bytes using decodeFrom.induct generalizing code with
  | case1 offset =>
    rw [decodeFrom] at h
    obtain rfl := Except.ok.inj h
    exact List.forall_mem_nil _
  | case2 offset b rest ih =>
    rw [decodeFrom] at h
    obtain ⟨i, one, h⟩ := except_bind_eq_ok_iff.1 h
    obtain ⟨others, more, h⟩ := except_bind_eq_ok_iff.1 h
    obtain rfl := Except.ok.inj h
    refine List.forall_mem_cons.2 ⟨?_, ih i more⟩
    unfold decodeOne at one
    split at one
    · cases one
    · obtain ⟨operand, read, one⟩ := except_bind_eq_ok_iff.1 one
      obtain rfl := Except.ok.inj one
      exact Site.targets_of_operand offset read

lemma decoded_of_decode {md : Metadata} (h : decode md bytes = .ok code) :
    ∀ i ∈ code, i.Decoded := by
  obtain ⟨code', read, h⟩ := except_bind_eq_ok_iff.1 h
  split at h
  · cases h
  · obtain rfl := Except.ok.inj h
    exact decoded_of_decodeFrom read

/-- Offsets that branches of code name, with the offsets where they land. -/
def landings (code : List Instruction) : List (Nat × Nat) :=
  (code.flatMap (·.targets)).map fun t => (t, landingOffset code t)

lemma mem_live : i ∈ live code ↔ i ∈ code ∧ i.opcode ≠ .nop := by
  simp [live]

lemma Instruction.Decoded.mem_live {t : Nat} (decoded : i.Decoded) (mem : i ∈ code)
    (target : t ∈ i.targets) : i ∈ live code := by
  refine Bytecode.mem_live.2 ⟨mem, fun nop => ?_⟩
  rw [decoded (by rw [nop]; rfl)] at target
  cases target

lemma lookup_landings {t : Nat} (mem : i ∈ code) (target : t ∈ i.targets) :
    ((landings code).lookup t).getD t = landingOffset code t := by
  have listed : t ∈ code.flatMap (·.targets) := List.mem_flatMap.2 ⟨i, mem, target⟩
  unfold landings
  generalize code.flatMap (·.targets) = ts at listed
  induction ts with
  | nil => cases listed
  | cons u ts ih =>
    rw [List.map_cons, List.lookup_cons]
    cases same : t == u with
    | true => rw [eq_of_beq same, Option.getD_some]
    | false => exact ih ((List.mem_cons.1 listed).resolve_left fun e => by simp [e] at same)

lemma any_landings {a : Nat} :
    (landings code).any (·.2 == a) = true ↔ ∃ i ∈ code, ∃ t ∈ i.targets, landingOffset code t = a := by
  simp [landings]

lemma Operand.Follows.refl {R : Nat → Nat → Prop} (h : ∀ t, R t t) (o : Operand) : o.Follows R o := by
  cases o with
  | target t => exact .target (h t)
  | switch ts => exact .switch (List.forall₂_same.2 fun t _ => h t)
  | _ => exact .same (fun _ e => by cases e) fun _ e => by cases e

lemma Operand.Follows.targets {R : Nat → Nat → Prop} {i' : Instruction}
    (h : i.operand.Follows R i'.operand) : List.Forall₂ R i.targets i'.targets := by
  obtain ⟨offset, opcode, operand⟩ := i
  obtain ⟨offset', opcode', operand'⟩ := i'
  have follows : operand.Follows R operand' := h
  cases follows with
  | target related => exact .cons related .nil
  | switch related => exact related
  | same noTarget noSwitch =>
    cases operand with
    | target t => exact absurd rfl (noTarget t)
    | switch ts => exact absurd rfl (noSwitch ts)
    | _ => exact .nil

namespace Counterpart

variable {same lands R : Nat → Nat → Prop} {i i' : Instruction}

lemma relate (h : Counterpart same lands i i')
    (imp : ∀ t ∈ i.targets, ∀ t' ∈ i'.targets, lands t t' → R t t') : Counterpart same R i i' := by
  obtain ⟨offset, opcode, operand⟩ := i
  obtain ⟨offset', opcode', operand'⟩ := i'
  refine ⟨h.opcode, h.offset, ?_, h.decoded⟩
  have follows : operand.Follows lands operand' := h.operand
  cases follows with
  | target related =>
    exact .target (imp _ (List.mem_singleton_self _) _ (List.mem_singleton_self _) related)
  | switch related => exact .switch (forall₂_imp_of_mem related imp)
  | same noTarget noSwitch => exact .same noTarget noSwitch

end Counterpart

/-- Two codes with the same instructions that do something.  Offsets that stand for the same place are
in the same order, and branches land at the same places. -/
structure Pairing (code code' : List Instruction) where
  /-- Offsets that stand for the same place. -/
  same : Nat → Nat → Prop
  same_end : same endOfBody endOfBody
  le_iff : ∀ {a a' b b' : Nat}, same a a' → same b b' → (a ≤ b ↔ a' ≤ b')
  images : List.Forall₂
    (Counterpart same fun t t' => same (landingOffset code t) (landingOffset code' t'))
    (live code) (live code')
  decoded : ∀ i ∈ code, i.Decoded
  decoded' : ∀ i ∈ code', i.Decoded

namespace Pairing

variable {code code' : List Instruction}

def refl (decoded : ∀ i ∈ code, i.Decoded) : Pairing code code where
  same := Eq
  same_end := rfl
  le_iff h h' := by rw [h, h']
  images := by
    refine List.forall₂_same.2 fun i mem => ⟨rfl, rfl, ?_, decoded i (Bytecode.mem_live.1 mem).1⟩
    refine .refl ?_ i.operand
    exact fun _ => rfl
  decoded := decoded
  decoded' := decoded

lemma same_inj (P : Pairing code code') {a a' b b' : Nat} (h : P.same a a') (h' : P.same b b') :
    a' = b' ↔ a = b := by
  rw [Nat.le_antisymm_iff, Nat.le_antisymm_iff, P.le_iff h h', P.le_iff h' h]

lemma any_landings_eq (P : Pairing code code') {a a' : Nat} (h : P.same a a') :
    (landings code).any (·.2 == a) = (landings code').any (·.2 == a') := by
  rw [Bool.eq_iff_iff, any_landings, any_landings]
  constructor
  · rintro ⟨i, mem, t, target, rfl⟩
    obtain ⟨i', mem', image⟩ := exists_of_forall₂ P.images ((P.decoded i mem).mem_live mem target)
    obtain ⟨t', target', lands⟩ := exists_of_forall₂ image.operand.targets target
    exact ⟨i', (Bytecode.mem_live.1 mem').1, t', target', (P.same_inj lands h).2 rfl⟩
  · rintro ⟨i', mem', t', target', rfl⟩
    obtain ⟨i, mem, image⟩ :=
      exists_of_forall₂ P.images.flip ((P.decoded' i' mem').mem_live mem' target')
    obtain ⟨t, target, lands⟩ := exists_of_forall₂ (List.Forall₂.flip image.operand.targets) target'
    exact ⟨i, (Bytecode.mem_live.1 mem).1, t, target, (P.same_inj lands h).1 rfl⟩

variable {env : MethodEnv} {start start' : Nat} (P : Pairing (code.drop start) (code'.drop start'))
  (g : MethodRef → List UInt8 → List UInt8)
  (lands : env.landings = landings (code.drop start)) (quiet : env.options.sourceMap = false)

/-- The twin of a method that is lowered from a position on. -/
def twin : Twin env where
  recoding := g
  code := code'.toArray
  landings := landings (code'.drop start')
  same := P.same
  same_end := P.same_end
  le_iff := P.le_iff
  isTarget_eq h := by
    rw [MethodEnv.isTarget, lands]
    exact P.any_landings_eq h
  quiet := quiet

lemma ahead_twin (body : env.code = code.toArray) :
    List.Forall₂ (P.twin g lands quiet).Image (env.liveFrom start)
      ((P.twin g lands quiet).other.liveFrom start') := by
  have live_eq : env.liveFrom start = live (code.drop start) := by rw [MethodEnv.liveFrom, body]
  rw [live_eq]
  refine forall₂_imp_of_mem P.images fun i mem i' mem' image => ⟨image.relate ?_⟩
  intro t target t' target' same
  have mem' : i' ∈ live (code'.drop start') := mem'
  show P.same (env.landing t) ((landings (code'.drop start')).lookup t' |>.getD t')
  rw [MethodEnv.landing, lands, lookup_landings (Bytecode.mem_live.1 mem).1 target,
    lookup_landings (Bytecode.mem_live.1 mem').1 target']
  exact same

lemma near_start (body : env.code = code.toArray) {d' : Draft} (h : d'.blur = d.blur) :
    (P.twin g lands quiet).Near { draft := d, cursor := start } { draft := d', cursor := start' } where
  draft := h
  ahead := P.ahead_twin g lands quiet body
  saved := rfl
  stack := rfl
  scratch := rfl
  flowEnded := rfl
  labels := .nil
  merges := .nil

/-- **Lowering the two codes.**  Either both lowerings succeed with drafts that differ only in their
notes on offsets, or both fail for the same cause.  Where no instruction does anything there is nothing
to branch to the end, and both lowerings are over at once. -/
lemma lowerAll_cases {rules : Rulebook} (standard : rules.IsStandard)
    (body : env.code = code.toArray) {d' : Draft} (h : d'.blur = d.blur) :
    (∃ s s', Lower.lowerAll rules env { draft := d, cursor := start } = .ok () s ∧
      Lower.lowerAll rules (P.twin g lands quiet).other { draft := d', cursor := start' } = .ok () s' ∧
      s'.draft.blur = s.draft.blur) ∨
    ∃ e e' s s', Lower.lowerAll rules env { draft := d, cursor := start } = .error e s ∧
      Lower.lowerAll rules (P.twin g lands quiet).other { draft := d', cursor := start' } =
        .error e' s' ∧ e'.blur = e.blur := by
  have near := P.near_start g lands quiet body h
  rcases Twin.next_cases near.ahead with ⟨empty, none, none'⟩ | ⟨k, k', i, i', next⟩
  · have idle : env.isTarget endOfBody = false := by
      rw [MethodEnv.isTarget, lands, ← Bool.not_eq_true, any_landings]
      rintro ⟨i, mem, t, target, -⟩
      have live := (P.decoded i mem).mem_live mem target
      rw [MethodEnv.liveFrom, body] at empty
      exact List.not_mem_nil (empty ▸ live)
    have idle' : (P.twin g lands quiet).other.isTarget endOfBody = false :=
      (Twin.isTarget_eq' (T := P.twin g lands quiet) P.same_end).trans idle
    exact .inl ⟨_, _, Twin.lowerAll_idle none idle, Twin.lowerAll_idle none' idle', h⟩
  have busy : env.liveFrom start ≠ [] := by
    rw [next.split]
    exact List.cons_ne_nil _ _
  exact (Twin.agree_lowerAll standard near busy).outcome

end Pairing

end Bytecode

end FlatHeap
