import FlatHeap.Proofs.Rules.Entries

/-!
# Sources of instructions

While a body is lowered, the operations of each instruction are recorded behind a mark that says where
it comes from.  Marks take no room and instructions do.  So the points of a laid out draft ascend, and
those recorded before an instruction are the ones that are not above its address: looking the address
up finds the last mark before it (`Placed.lookup?_address`).
-/

namespace FlatHeap

namespace Op

variable {a : Nat} {ops ops' : List Op} {p : Host.SourcePoint}

def lastSource? (ops : List Op) : Option (Nat × Nat) := (ops.filterMap source?).getLast?

lemma addressesFrom_append (a : Nat) (ops ops' : List Op) :
    addressesFrom a (ops ++ ops') = addressesFrom a ops ++ addressesFrom (a + totalSize ops) ops' := by
  induction ops generalizing a with
  | nil => rfl
  | cons op ops ih => simp [addressesFrom, ih, Nat.add_assoc]

lemma map_sourcePoints (a : Nat) (ops : List Op) :
    (sourcePoints (addressesFrom a ops)).map (fun p => (p.method, p.offset)) =
      ops.filterMap source? := by
  induction ops generalizing a with
  | nil => rfl
  | cons op ops ih =>
    cases op with
    | source method offset => exact congrArg ((method, offset) :: ·) (ih _)
    | _ => exact ih _

lemma address_of_mem_sourcePoints (h : p ∈ sourcePoints (addressesFrom a ops)) :
    a ≤ p.address ∧ p.address ≤ a + totalSize ops := by
  obtain ⟨⟨b, op⟩, hmem, hp⟩ := List.mem_filterMap.1 h
  obtain ⟨pre, post, rfl, rfl⟩ := mem_addressesFrom_iff.1 hmem
  have haddress : p.address = a + totalSize pre := by
    cases op <;> simp only [Option.some.injEq, reduceCtorEq] at hp
    rw [← hp]
  rw [totalSize_append]
  omega

lemma pairwise_sourcePoints (a : Nat) (ops : List Op) :
    (sourcePoints (addressesFrom a ops)).Pairwise (·.address ≤ ·.address) := by
  induction ops generalizing a with
  | nil => exact .nil
  | cons op ops ih =>
    have hlater : ∀ p ∈ sourcePoints (addressesFrom (a + op.size) ops), a ≤ p.address := by
      intro p hp
      have := (address_of_mem_sourcePoints hp).1
      omega
    cases op with
    | source => exact List.pairwise_cons.2 ⟨hlater, ih _⟩
    | _ => exact ih _

end Op

namespace Placed

lemma exists_op_of_mapM {order : List VarRef} {labels : List (Label × Nat)} {ops : List Op}
    {code : List (Option Host.Instruction)} {before after : List Host.Instruction}
    {i : Host.Instruction} (hcode : ops.mapM (Draft.instruction? order labels) = .ok code)
    (h : code.filterMap id = before ++ i :: after) :
    ∃ pre op post, ops = pre ++ op :: post ∧ Draft.instruction? order labels op = .ok (some i) ∧
      (before.map Host.Instruction.size).sum = Op.totalSize pre := by
  induction ops generalizing code before with
  | nil =>
    rw [List.mapM_nil] at hcode
    obtain rfl := Except.ok.inj hcode
    simp at h
  | cons op ops ih =>
    simp only [List.mapM_cons, except_bind_eq_ok_iff] at hcode
    obtain ⟨x, hx, code', hcode', hcons⟩ := hcode
    obtain rfl := Except.ok.inj hcons
    have hsize := instruction?_size hx
    cases x with
    | none =>
      obtain ⟨pre, op', post, rfl, hi, hsum⟩ := ih hcode' h
      refine ⟨op :: pre, op', post, rfl, hi, ?_⟩
      rw [Op.totalSize_cons, ← hsize, hsum]
      exact (Nat.zero_add _).symm
    | some j =>
      cases before with
      | nil =>
        obtain ⟨rfl, -⟩ := List.cons.inj h
        exact ⟨[], op, ops, rfl, hx, rfl⟩
      | cons b before =>
        obtain ⟨rfl, hrest⟩ := List.cons.inj h
        obtain ⟨pre, op', post, rfl, hi, hsum⟩ := ih hcode' hrest
        refine ⟨op :: pre, op', post, rfl, hi, ?_⟩
        rw [Op.totalSize_cons, ← hsize, ← hsum]
        simp

variable {env : ClassEnv} (P : Placed env)

/-- The source map of a program, before it is sorted. -/
def sources : Host.SourceMap :=
  ⟨P.draft.methodNames, Op.sourcePoints (Op.addressesFrom 0 P.ops)⟩

lemma sourceMap_eq (h : env.options.sourceMap = true) : P.program.sourceMap = some P.sources.sort := by
  obtain ⟨-, -, -, heap, -, code, -, hp⟩ := Draft.layout_eq_ok_iff.1 P.laid
  rw [← hp, if_pos h]
  rfl

/-- **The address of an operation with an instruction** is looked up as the last source before it. -/
lemma lookup?_address {pre post : List Op} {op : Op} (h : P.ops = pre ++ op :: post)
    (hop : 0 < op.size) :
    P.sources.sort.lookup? (Op.totalSize pre) = (Op.lastSource? pre).bind fun e =>
      P.draft.methodNames[e.1]?.map (·, e.2) := by
  have hpoints : P.sources.points = Op.sourcePoints (Op.addressesFrom 0 pre) ++
      Op.sourcePoints (Op.addressesFrom (Op.totalSize pre + op.size) post) := by
    rw [sources, h, Op.addressesFrom_append, Op.sourcePoints, List.filterMap_append, Nat.zero_add]
    cases op with
    | source => cases hop
    | _ => rfl
  have hsorted : P.sources.sort.points = P.sources.points :=
    List.mergeSort_of_pairwise (by simpa [sources] using Op.pairwise_sourcePoints 0 P.ops)
  -- marks up to the instruction are not above it, and those behind it are
  have hbelow : Host.SourceMap.below P.sources.sort.points (Op.totalSize pre) =
      Op.sourcePoints (Op.addressesFrom 0 pre) := by
    rw [hsorted, hpoints, Host.SourceMap.below, List.filter_append, List.filter_eq_self.2,
      List.filter_eq_nil_iff.2, List.append_nil]
    · intro p hp
      have := (Op.address_of_mem_sourcePoints hp).1
      simp only [decide_eq_true_eq]
      omega
    · intro p hp
      have := (Op.address_of_mem_sourcePoints hp).2
      simp only [decide_eq_true_eq]
      omega
  rw [Host.SourceMap.lookup?_sort, hbelow, Op.lastSource?, ← Op.map_sourcePoints 0 pre,
    List.getLast?_map, Option.bind_map]
  rfl

end Placed

/-- Sources by number are those with the names of their methods. -/
def SourceNamed (names : List String) (e : Nat × Nat) (source : String × Nat) : Prop :=
  names[e.1]? = some source.1 ∧ e.2 = source.2

namespace Compilation

variable {o : Options} {md : Metadata} {t : TypeRef} (c : Compilation o md t)

/-- **Faults are traced to the last source.** -/
lemma lookup?_source (hmap : o.sourceMap = true) :
    ∃ m, c.program.sourceMap = some m ∧ ∀ before i after, c.program.code = before ++ i :: after →
      ∃ pre op post, c.draft.ops.toList = pre ++ op :: post ∧
        Draft.instruction? c.placed.order c.placed.labels op = .ok (some i) ∧
        (before.map Host.Instruction.size).sum = Op.totalSize pre ∧
        Option.Rel (SourceNamed c.draft.methodNames) (Op.lastSource? pre)
          (m.lookup? (Op.totalSize pre)) := by
  refine ⟨_, c.placed.sourceMap_eq hmap, fun before i after h => ?_⟩
  obtain ⟨-, -, code, hcode, heq⟩ := c.placed.layout_parts
  obtain ⟨pre, op, post, hops, hi, hsum⟩ := Placed.exists_op_of_mapM hcode (heq.symm.trans h)
  refine ⟨pre, op, post, hops, hi, hsum, ?_⟩
  have hsize : 0 < op.size := by
    rw [← Placed.instruction?_size hi]
    simp [Host.Instruction.size, Host.Opcode.size]
    split <;> decide
  rw [c.placed.lookup?_address hops hsize]
  cases hlast : Op.lastSource? pre with
  | none => exact .none
  | some e =>
    have hmem : e ∈ pre.filterMap Op.source? := List.mem_of_getLast? hlast
    obtain ⟨mark, hmark, hsource⟩ := List.mem_filterMap.1 hmem
    have hrecorded : mark ∈ c.placed.ops := hops ▸ List.mem_append_left _ hmark
    have hlt := (c.finished.linked mark hrecorded).source e hsource
    show Option.Rel _ _ (c.draft.methodNames[e.1]?.map (·, e.2))
    rw [List.getElem?_eq_getElem hlt]
    exact .some ⟨List.getElem?_eq_getElem hlt, rfl⟩

end Compilation

namespace Compiler

/-- **Lookup finds the source.**  When points have been added to a source map and sorted, looking up an
address gives the source of the last point at or below it, the one added last where several have that
address, and nothing if there is none or the map has no name for its method.  In a compiled program with
a source map, looking up the address of an instruction gives the last source that was recorded before
it, with the name of its method, and nothing if none was. -/
theorem lookup_finds_source :
    (∀ methods (added : List Host.SourcePoint) address,
      let m := (added.foldl Host.SourceMap.add ⟨methods, []⟩).sort
      (∀ name offset, m.lookup? address = some (name, offset) ↔ ∃ p,
        Host.SourceMap.Governs added address p ∧ methods[p.method]? = some name ∧ p.offset = offset) ∧
      (m.lookup? address = none ↔ (∀ p ∈ added, address < p.address) ∨ ∃ p,
        Host.SourceMap.Governs added address p ∧ methods.length ≤ p.method)) ∧
    ∀ o md t p, ((Compiler.new o).compile md t).1 = .ok p → o.sourceMap = true →
      ∃ c : Compilation o md t, c.program = p ∧ ∃ m, p.sourceMap = some m ∧
        ∀ before i after, p.code = before ++ i :: after →
          ∃ pre op post, c.draft.ops.toList = pre ++ op :: post ∧
            Draft.instruction? c.placed.order c.placed.labels op = .ok (some i) ∧
            (before.map Host.Instruction.size).sum = Op.totalSize pre ∧
            Option.Rel (SourceNamed c.draft.methodNames) (Op.lastSource? pre)
              (m.lookup? (Op.totalSize pre)) := by
  refine ⟨fun methods added address => ?_, fun o md t p h hmap => ?_⟩
  · rw [Host.SourceMap.foldl_add]
    exact ⟨fun name offset => Host.SourceMap.lookup?_eq_some_iff,
      Host.SourceMap.lookup?_eq_none_iff⟩
  · obtain ⟨c, rfl⟩ := exists_compilation h
    exact ⟨c, rfl, c.lookup?_source hmap⟩

/-- The jump from an entry point has no source, and what it leads to is traced to the method. -/
theorem lookup_finds_source_starting :
    ∃ p, ((Compiler.new { sourceMap := true }).compile (starting true) ⟨17⟩).1 = .ok p ∧
      ∃ c : Compilation { sourceMap := true } (starting true) ⟨17⟩, c.program = p ∧
        ∃ m, p.sourceMap = some m ∧ m.lookup? 8 = none ∧
          m.lookup? 16 = some ("Game.Door::Start()", 0) ∧
          ∀ before i after, p.code = before ++ i :: after →
            ∃ pre op post, c.draft.ops.toList = pre ++ op :: post ∧
              Draft.instruction? c.placed.order c.placed.labels op = .ok (some i) ∧
              (before.map Host.Instruction.size).sum = Op.totalSize pre ∧
              Option.Rel (SourceNamed c.draft.methodNames) (Op.lastSource? pre)
                (m.lookup? (Op.totalSize pre)) := by
  have hlookup : ((Compiler.new { sourceMap := true }).compile (starting true) ⟨17⟩).1.toOption.map
      (fun p => p.sourceMap.map fun m => (m.lookup? 8, m.lookup? 16)) =
        some (some (none, some ("Game.Door::Start()", 0))) := by
    decide +kernel
  obtain ⟨p, hp, hlookup⟩ := Option.map_eq_some_iff.1 hlookup
  have hp := ok_of_toOption hp
  obtain ⟨c, hc, m, hm, hall⟩ := lookup_finds_source.2 _ _ _ p hp rfl
  obtain ⟨h₈, h₁₆⟩ := Prod.mk.inj (Option.some.inj (hm ▸ hlookup))
  exact ⟨p, hp, c, hc, m, hm, h₈, h₁₆, hall⟩

end Compiler

end FlatHeap
