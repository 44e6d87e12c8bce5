import FlatHeap.Proofs.Padding.Methods

/-!
# Compiling a class with other code in its methods

The lowering of a method is not all that reads its code: trivial accessors are recognised by it, and
constructors are executed at compile time.  Accessors are recognised by the instructions that do
something, without their offsets; constructors keep their code here, since their offsets and jumps
decide where the rest of a constructor starts.  The methods are lowered one after another into one
draft, so the drafts on both sides differ only in their notes on offsets all the way, and the program
does not depend on those.
-/

namespace FlatHeap

open Bytecode (Instruction)

/-- Drafts that differ only in their notes on offsets. -/
def Draft.Same (d d' : Draft) : Prop := d'.blur = d.blur

/-- The class with other code in the bodies of methods. -/
def ClassEnv.recode (g : MethodRef → List UInt8 → List UInt8) (env : ClassEnv) : ClassEnv :=
  { env with md := env.md.recode g }

open CompileError (Matched)

variable {d d' : Draft} {env : ClassEnv} {g : MethodRef → List UInt8 → List UInt8} {m : MethodRef}

namespace Draft

lemma Blind.same {α : Type} {change : Draft → α × Draft} (blind : Blind change) (h : d.Same d') :
    (change d').1 = (change d).1 ∧ (change d).2.Same (change d').2 := blind.congr h

lemma Same.map {change : Draft → Draft} (h : d.Same d')
    (blind : ∀ d, change d.blur = (change d).blur) : (change d).Same (change d') :=
  (blind d').symm.trans ((congrArg change h).trans (blind d))

lemma blind_foldl {α β : Type} (step : β → Draft → α × Draft) (blind : ∀ x, Blind (step x))
    (xs : List β) (acc : List α) : Blind fun d =>
      xs.foldl (fun (acc, d) x => let (v, d) := step x d; (acc ++ [v], d)) (acc, d) := by
  induction xs generalizing acc with
  | nil => exact fun _ => rfl
  | cons x xs ih =>
    intro d
    simp only [List.foldl_cons, blind x d]
    exact ih _ _

/-! ## Entering a method -/

lemma parameterVars_recode (d : Draft) :
    d.parameterVars (env.recode g) m = d.parameterVars env m := by
  simp only [parameterVars, ClassEnv.recode, Metadata.method_recode, Metadata.lookup_recode]
  rfl

lemma parameterVars_blur (d : Draft) :
    d.blur.parameterVars env m = (d.parameterVars env m).map fun r => (r.1, r.2.1, r.2.2.blur) := by
  simp only [parameterVars]
  split
  · rfl
  cases env.naming.lookup env.md (.method m) with
  | error e => rfl
  | ok symbol =>
    have params := blind_foldl (fun (e : ParamDecl × String) d => d.named e.2 e.1.type .parameter)
      (fun e => blind_named e.2 e.1.type .parameter) ((env.md.method m).params.zip symbol.params) [] d
    simp only [bind, Except.bind] at params ⊢
    rw [params]
    cases symbol.result with
    | none => rfl
    | some name =>
      generalize List.foldl _ ([], d) _ = r
      have result := blind_named name (env.md.method m).result .returnValue r.2
      dsimp only at result ⊢
      rw [result]
      rfl

lemma matched_parameterVars (h : d.Same d') :
    Matched (fun r r' => r'.1 = r.1 ∧ r'.2.1 = r.2.1 ∧ r.2.2.Same r'.2.2) (d.parameterVars env m)
      (d'.parameterVars (env.recode g) m) := by
  rw [parameterVars_recode]
  refine (Matched.of_map_eq ((parameterVars_blur d').symm.trans
    ((congrArg (parameterVars env · m) h).trans (parameterVars_blur d)))).mono fun r r' e => ?_
  obtain ⟨params, e⟩ := Prod.mk.inj e
  obtain ⟨result, after⟩ := Prod.mk.inj e
  exact ⟨params, result, after⟩

end Draft

/-- Starts of the lowering of two codes of one method. -/
structure Entered (g : MethodRef → List UInt8 → List UInt8) (env : ClassEnv)
    (body body' : List Instruction) (start start' : Nat) (x x' : MethodEnv × Frame) : Prop where
  options : x.1.options = env.options
  code : x.1.code = body.toArray
  landings : x.1.landings = Bytecode.landings (body.drop start)
  other : x'.1 = { x.1 with
    md := x.1.md.recode g, code := body'.toArray, landings := Bytecode.landings (body'.drop start') }
  frame : x.2 = { draft := x.2.draft, cursor := start }
  frame' : x'.2 = { draft := x'.2.draft, cursor := start' }
  same : x.2.draft.Same x'.2.draft

lemma matched_enter (code code' : List Instruction) (start start' : Nat) (h : d.Same d') :
    Matched (Entered g env code code' start start') (Frame.enter env d m code.toArray start)
      (Frame.enter (env.recode g) d' m code'.toArray start') := by
  have display : (env.recode g).md.methodDisplay m = env.md.methodDisplay m :=
    Metadata.methodDisplay_recode m
  have static : ((env.recode g).md.method m).isStatic = (env.md.method m).isStatic := by
    rw [ClassEnv.recode, Metadata.method_recode]
    rfl
  have types : (((env.recode g).md.method m).body.map (·.locals)).getD [] =
      ((env.md.method m).body.map (·.locals)).getD [] := by
    simp only [ClassEnv.recode, Metadata.method_recode, MethodDecl.recode, Option.map_map]
    rfl
  obtain ⟨number, numbered⟩ := (Draft.blind_methodNumber (env.md.methodDisplay m)).same h
  simp only [Frame.enter, display, static, types]
  refine (Draft.matched_parameterVars numbered).bind ?_
  rintro r r' ⟨params, result, after⟩
  obtain ⟨locals, after⟩ := (Draft.blind_foldl
    (fun t d => d.addVar { type := t, kind := .localSlot }) (fun t => Draft.blind_addVar rfl)
    (((env.md.method m).body.map (·.locals)).getD []) []).same after
  obtain ⟨label, after⟩ := Draft.blind_newLabel.same after
  dsimp only at locals label after
  refine .ok ⟨rfl, rfl, rfl, ?_, rfl, rfl, after⟩
  rw [number, params, result, locals, label]
  rfl

lemma Draft.matched_lowerBody {rules : Rulebook} (standard : rules.IsStandard)
    (quiet : env.options.sourceMap = false) {code code' : List Instruction} {start start' : Nat}
    (P : Bytecode.Pairing (code.drop start) (code'.drop start'))
    (short : code'.any (endOfBody ≤ ·.offset) = code.any (endOfBody ≤ ·.offset)) (label : Label)
    (h : d.Same d') :
    Matched Draft.Same (d.lowerBody rules env m code start label)
      (d'.lowerBody rules (env.recode g) m code' start' label) := by
  have display : (env.recode g).md.methodDisplay m = env.md.methodDisplay m :=
    Metadata.methodDisplay_recode m
  rw [lowerBody, lowerBody, display, short]
  -- the loop is only spoken about through `lowerAll_cases`, and must not be unfolded
  generalize run : Lower.lowerAll rules = lower
  split
  · exact .error rfl
  have marked := ((blind_emit (.mark label)).same h).2
  refine ((matched_enter code code' start start' marked).locate _).bind ?_
  rintro ⟨menv, s⟩ ⟨menv', s'⟩ x
  obtain ⟨d₁, rfl⟩ : ∃ d₁, s = { draft := d₁, cursor := start } := ⟨_, x.frame⟩
  obtain ⟨d₁', rfl⟩ : ∃ d₁, s' = { draft := d₁, cursor := start' } := ⟨_, x.frame'⟩
  have lands : menv.landings = Bytecode.landings (code.drop start) := x.landings
  have silent : menv.options.sourceMap = false := x.options ▸ quiet
  have body : menv.code = code.toArray := x.code
  have same : d₁'.blur = d₁.blur := x.same
  obtain rfl : menv' = (P.twin g lands silent).other := x.other
  dsimp only
  rcases P.lowerAll_cases g lands silent standard body same with
    ⟨s, s', ok, ok', drafts⟩ | ⟨e, e', s, s', error, error', cause⟩
  · rw [run] at ok ok'
    rw [ok, ok']
    have returned := ((blind_emit (.mark menv.returnLabel)).same drafts).2
    exact .ok (returned.map fun _ => rfl)
  · rw [run] at error error'
    rw [error, error']
    exact .error cause

/-! ## Codes that do the same -/

/-- Codes that are paired, and neither or both of which are too large for the offsets of a body. -/
structure Bytecode.Interchangeable (code code' : List Instruction) : Prop where
  paired : Nonempty (Pairing code code')
  short : code'.any (endOfBody ≤ ·.offset) = code.any (endOfBody ≤ ·.offset)

/-- Constructors keep their code, and other methods get code that does the same. -/
structure Metadata.Maintains (md : Metadata) (g : MethodRef → List UInt8 → List UInt8) : Prop where
  ctors : ∀ m bytes, (md.method m).isCtor = true → g m bytes = bytes
  bodies : ∀ m body, (md.method m).body = some body → g m body.code = body.code ∨
    ∃ code code', Bytecode.decode md body.code = .ok code ∧
      Bytecode.decode md (g m body.code) = .ok code' ∧ Bytecode.Interchangeable code code'

variable {md : Metadata}

namespace Bytecode.Interchangeable

variable {code code' : List Instruction}

lemma refl (decoded : ∀ i ∈ code, i.Decoded) : Interchangeable code code := ⟨⟨.refl decoded⟩, rfl⟩

lemma blur_live (h : Interchangeable code code') :
    (live code').map Instruction.blur = (live code).map Instruction.blur := by
  obtain ⟨P⟩ := h.paired
  have images := P.images
  generalize live code = l, live code' = l' at images
  induction images with
  | nil => rfl
  | cons image _ ih => rw [List.map_cons, List.map_cons, image.blur_eq, ih]

end Bytecode.Interchangeable

lemma Metadata.Maintains.matched_decode (h : md.Maintains g) {body : MethodBody}
    (has : (md.method m).body = some body) (name : String) :
    Matched Bytecode.Interchangeable
      ((Bytecode.decode md body.code).mapError fun e =>
        (CompileError.malformed e).locate name none)
      ((Bytecode.decode (md.recode g) (g m body.code)).mapError fun e =>
        (CompileError.malformed e).locate name none) := by
  rw [Bytecode.decode_recode]
  rcases h.bodies m body has with kept | ⟨code, code', read, read', same⟩
  · rw [kept]
    cases read : Bytecode.decode md body.code with
    | error e => exact .error rfl
    | ok code => exact .ok (.refl (Bytecode.decoded_of_decode read))
  · rw [read, read']
    exact .ok same

lemma Draft.matched_readBody (h : md.Maintains g) (m : MethodRef) :
    Matched Bytecode.Interchangeable (readBody md m) (readBody (md.recode g) m) := by
  unfold readBody
  rw [Metadata.method_recode, Metadata.methodDisplay_recode, MethodDecl.recode]
  cases has : (md.method m).body with
  | none => exact .error rfl
  | some body => exact h.matched_decode has _

namespace Draft

variable {rules : Rulebook}

/-- **One method.** -/
lemma matched_lowerMethod (kept : env.md.Maintains g) (standard : rules.IsStandard)
    (quiet : env.options.sourceMap = false) (h : d.Same d') :
    Matched Draft.Same (d.lowerMethod rules env m) (d'.lowerMethod rules (env.recode g) m) := by
  refine (matched_readBody kept m).bind fun code code' same => ?_
  obtain ⟨P⟩ : Nonempty (Bytecode.Pairing (code.drop 0) (code'.drop 0)) := same.paired
  obtain ⟨label, named⟩ := (blind_methodLabel m).same h
  simp only [label]
  exact matched_lowerBody standard quiet P same.short _ named

/-- **The methods reached.** -/
lemma matched_lowerRequested (kept : env.md.Maintains g) (standard : rules.IsStandard)
    (quiet : env.options.sourceMap = false) (fuel : Nat) (h : d.Same d') :
    Matched Draft.Same (d.lowerRequested rules env fuel)
      (d'.lowerRequested rules (env.recode g) fuel) := by
  induction fuel generalizing d d' with
  | zero => exact .ok h
  | succ fuel ih =>
    obtain ⟨next, taken⟩ := blind_nextMethod.same h
    rw [lowerRequested, lowerRequested]
    generalize d.nextMethod = r, d'.nextMethod = r' at next taken
    obtain ⟨next?, d₁⟩ := r
    obtain ⟨next?', d₁'⟩ := r'
    obtain rfl : next?' = next? := next
    cases next?' with
    | none => exact .ok taken
    | some m => exact (matched_lowerMethod kept standard quiet taken).bind fun _ _ h => ih h

end Draft

/-! ## Accessors -/

namespace Accessor

lemma loads_blur (i : Instruction) (n : Nat) : loads i.blur n = loads i n := by
  obtain ⟨offset, opcode, operand⟩ := i
  cases operand <;> rfl

lemma ofBody?_blur (code : List Instruction) :
    ofBody? (code.map Instruction.blur) = ofBody? code := by
  have filtered : (code.map Instruction.blur).filter (·.opcode != .nop) =
      (code.filter (·.opcode != .nop)).map Instruction.blur := by
    rw [List.filter_map]
    rfl
  rw [ofBody?, ofBody?, filtered]
  generalize code.filter (·.opcode != .nop) = live
  rcases live with _ | ⟨i, _ | ⟨j, _ | ⟨k, _ | ⟨l, _ | ⟨_, _⟩⟩⟩⟩⟩
  case cons.cons.cons.nil =>
    obtain ⟨offset, opcode, operand⟩ := j
    simp only [List.map_cons, List.map_nil, loads_blur]
    cases operand <;> rfl
  case cons.cons.cons.cons.nil =>
    obtain ⟨offset, opcode, operand⟩ := k
    simp only [List.map_cons, List.map_nil, loads_blur]
    cases operand <;> rfl
  all_goals rfl

lemma ofBody?_eq {code code' : List Instruction} (h : Bytecode.Interchangeable code code') :
    ofBody? code' = ofBody? code := by
  have filtered (c : List Instruction) : ofBody? (Bytecode.live c) = ofBody? c := by
    rw [ofBody?, Bytecode.live, List.filter_filter]
    simp only [Bool.and_self]
    rfl
  rw [← filtered code', ← ofBody?_blur, h.blur_live, ofBody?_blur, filtered]

lemma ofMethod?_recode (h : md.Maintains g) (naming : Naming) (m : MethodRef) :
    ofMethod? (md.recode g) naming m = ofMethod? md naming m := by
  simp only [ofMethod?, Metadata.method_recode, MethodDecl.recode, Metadata.methodDisplay_recode]
  cases has : (md.method m).body with
  | none => rfl
  | some body =>
    simp only [Option.map_some, Bytecode.decode_recode]
    rcases h.bodies m body has with kept | ⟨code, code', read, read', same⟩
    · rw [kept]
      rfl
    · rw [read, read']
      simp only [Except.mapError, bind, Except.bind, ofBody?_eq same]
      rfl

lemma addClassRules_recode (h : md.Maintains g) (rules : Rulebook) (naming : Naming) (o : Options) :
    rules.addClassRules (md.recode g) naming o = rules.addClassRules md naming o := by
  simp only [Rulebook.addClassRules, ofClass, ofMethod?_recode h]

end Accessor

/-! ## Constructors -/

namespace Initializer

lemma plainCtor_recode (t : TypeRef) : plainCtor (md.recode g) t = plainCtor md t := by
  simp only [plainCtor, Metadata.method_recode, Metadata.methodDisplay_recode]
  rfl

lemma statement?_recode (naming : Naming) (base : Option TypeRef) (code : List Instruction) :
    statement? (md.recode g) naming base code = statement? md naming base code := by
  have stores (value store : Instruction) :
      store? (md.recode g) naming value store = store? md naming value store := by
    simp only [store?, Metadata.foldConversion?_recode]
    rfl
  have chains (call : Instruction) : chain? (md.recode g) base call = chain? md base call := by
    simp only [chain?, Metadata.method_recode]
    rfl
  unfold statement?
  simp only [stores, chains]

lemma leading_recode (naming : Naming) (base : Option TypeRef) (code : List Instruction) :
    leading (md.recode g) naming base code = leading md naming base code := by
  have inner : ∀ rest : List Instruction, rest.length < code.length →
      leading (md.recode g) naming base rest = leading md naming base rest :=
    fun rest _ => leading_recode naming base rest
  rw [leading, leading.eq_def md, statement?_recode]
  cases statement? md naming base code with
  | none => rfl
  | some s => simp +contextual only [inner]
termination_by code.length

lemma ofClass_recode (h : md.Maintains g) (naming : Naming) (t : TypeRef) :
    ofClass (md.recode g) naming t = ofClass md naming t := by
  have inner : ∀ u : TypeRef, (md.ancestors u).length < (md.ancestors t).length →
      ofClass (md.recode g) naming u = ofClass md naming u :=
    fun u _ => ofClass_recode h naming u
  rw [ofClass, ofClass.eq_def md, plainCtor_recode]
  cases found : plainCtor md t with
  | error e => rfl
  | ok ctor =>
    cases ctor with
    | none => rfl
    | some ctor =>
      simp only [bind, Except.bind, Metadata.method_recode, MethodDecl.recode]
      cases has : (md.method ctor).body with
      | none => rfl
      | some body =>
        simp only [Option.map_some, h.ctors ctor body.code (isCtor_of_plainCtor found),
          Bytecode.decode_recode, leading_recode, Metadata.methodDisplay_recode,
          Metadata.ancestors_recode]
        simp +contextual only [inner]
        rfl
termination_by (md.ancestors t).length

end Initializer

/-! ## Classes -/

namespace Draft

lemma fieldVar_recode (d : Draft) (f : FieldRef) :
    d.fieldVar (env.recode g) f = d.fieldVar env f := by
  simp only [fieldVar, ClassEnv.recode, Metadata.lookup_recode, Metadata.defaultValue_recode]
  rfl

lemma declareFields_recode (d : Draft) (init : Initializer) :
    d.declareFields (env.recode g) init = d.declareFields env init := by
  simp only [declareFields, declareField, fieldVar_recode]
  rfl

lemma slots_recode (labels : List (Label × Nat)) (vs : List Variable) (n : Nat)
    (names : List String) :
    slots (env.recode g) labels vs n names = slots env labels vs n names := by
  induction vs generalizing n names with
  | nil => rfl
  | cons v vs ih =>
    have ident : (env.recode g).ident v.type = env.ident v.type := Metadata.hostIdent_recode _ _
    have value : slotValue (env.recode g) labels v = slotValue env labels v := by
      simp only [slotValue, ClassEnv.recode, Metadata.defaultValue_recode]
    simp only [slots, ih, ident, value]

lemma layout_recode (d : Draft) : d.layout (env.recode g) = d.layout env := by
  simp only [layout, slots_recode]
  rfl

lemma layout_eq (h : d.Same d') : d'.layout (env.recode g) = d.layout env := by
  rw [layout_recode, ← layout_blur, h, layout_blur]

lemma checkCalls_eq (h : d.Same d') :
    d'.checkCalls (env.recode g).md = d.checkCalls env.md := by
  have calls : d'.calls = d.calls := (congrArg Draft.calls h : d'.blur.calls = d.blur.calls)
  have display : (env.recode g).md.methodDisplay = env.md.methodDisplay :=
    funext fun m => Metadata.methodDisplay_recode m
  rw [checkCalls, checkCalls, calls, display]

lemma addStart_blur (ctor : Label) (d : Draft) :
    d.blur.addStart env ctor = (d.addStart env ctor).blur := by
  have address := blind_labelAddress ⟨d.labelCount⟩
    { d.emitAll [.entry env.options.startEvent, .push halt] with labelCount := d.labelCount + 1 }
  exact congrArg (fun r : VarRef × Draft =>
    (r.2.emitAll [.push r.1, .jump ctor, .mark ⟨d.labelCount⟩]).ret) address

end Draft

namespace ClassEnv

variable {rules : Rulebook}

lemma entries_recode : (env.recode g).entries = env.entries := by
  simp only [entries, recode, Metadata.dispatchTarget?_recode]

lemma matched_draft (kept : env.md.Maintains g) (standard : rules.IsStandard)
    (quiet : env.options.sourceMap = false) :
    Matched Draft.Same (env.draft rules) ((env.recode g).draft rules) := by
  have initializer :
      Initializer.ofClass (env.recode g).md (env.recode g).naming (env.recode g).owner =
        Initializer.ofClass env.md env.naming env.owner := Initializer.ofClass_recode kept _ _
  have methods : (env.recode g).md.methods.size = env.md.methods.size := Array.size_mapIdx
  have options : (env.recode g).options = env.options := rfl
  simp only [draft, initializer, methods, options, entries_recode, Draft.declareFields_recode]
  refine .bind_self fun init made => .bind_self fun d _ => ?_
  cases rest : init.remainder? with
  | none => exact Draft.matched_lowerRequested kept standard quiet _ rfl
  | some r =>
    obtain ⟨-, -, body, -, read⟩ := Initializer.remainder_spec made rest
    have decoded : ∀ i ∈ r.code.drop r.start, i.Decoded :=
      fun i mem => Bytecode.decoded_of_decode read i (List.mem_of_mem_drop mem)
    refine (Draft.matched_lowerRequested kept standard quiet _ rfl).bind fun _ _ same => ?_
    refine (Draft.matched_lowerBody standard quiet (.refl decoded) rfl _ same).bind ?_
    intro _ _ same
    refine (Draft.matched_lowerRequested kept standard quiet _ same).bind fun d d' same => ?_
    refine .ok ?_
    split
    · exact same
    · exact same.map (Draft.addStart_blur _)

/-- **A class whose methods get code that does the same.** -/
lemma matched_compile (kept : env.md.Maintains g) (standard : rules.IsStandard)
    (quiet : env.options.sourceMap = false) :
    Matched Eq (env.compile rules) ((env.recode g).compile rules) := by
  refine (matched_draft kept standard quiet).bind fun d d' same => ?_
  rw [Draft.layout_eq same, Draft.checkCalls_eq same]
  exact .of_eq rfl

end ClassEnv

/-- **Compiling with code that does the same** gives the same program, or fails for the same cause up
to offsets. -/
lemma Compiler.matched_compile (kept : md.Maintains g) {o : Options} (quiet : o.sourceMap = false)
    (t : TypeRef) :
    Matched Eq ((Compiler.new o).compile md t).1 ((Compiler.new o).compile (md.recode g) t).1 := by
  have compiled : compiles (md.recode g) t = compiles md t := rfl
  simp only [compile, compiled, Metadata.ofClass_recode, Accessor.addClassRules_recode kept]
  split
  · exact .error rfl
  cases Naming.ofClass md (Compiler.new o).options t with
  | error e => exact .error rfl
  | ok naming =>
    dsimp only
    cases entered : (Compiler.new o).rules.addClassRules md naming (Compiler.new o).options with
    | error e => exact .error rfl
    | ok rules =>
      let env : ClassEnv := ⟨md, o, t, naming⟩
      have same : Matched Eq (env.compile rules) ((env.recode g).compile rules) :=
        ClassEnv.matched_compile kept (Rulebook.isStandard_of_addClassRules entered) quiet
      exact same

end FlatHeap
