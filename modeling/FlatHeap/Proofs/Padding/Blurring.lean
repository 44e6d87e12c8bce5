import FlatHeap.Compiler
import FlatHeap.Proofs.Failure

/-!
# What is left when source offsets are blurred

Offsets of the source are mentioned in errors, and in drafts as a note on each temporary where it was
handed out.  Blurring replaces all of them by the same offset.  Nothing that is done with a draft
depends on those notes: each operation on drafts commutes with blurring, and the program that a draft
is laid out as is that of the blurred draft.
-/

namespace FlatHeap

/-! ## Errors -/

def blurOffset (offset : Option Nat) : Option Nat := offset.map fun _ => 0

def HandOut.blur (h : HandOut) : HandOut := { h with offset := blurOffset h.offset }

def Limitation.blur : Limitation → Limitation
  | selfMeetsOther _ => selfMeetsOther 0
  | backwardBranch _ depth => backwardBranch 0 depth
  | l => l

def Breach.blur : Breach → Breach
  | pooledReference v handOut => pooledReference v (handOut.map HandOut.blur)
  | depthMismatch depth expected _ => depthMismatch depth expected 0
  | leak v reserved handOut => leak v reserved (handOut.map HandOut.blur)
  | b => b

def Cause.blur : Cause → Cause
  | unsupported l => unsupported l.blur
  | invariant b => invariant b.blur
  | c => c

def CompileError.blur (e : CompileError) : CompileError :=
  ⟨e.cause.blur, { e.location with offset := blurOffset e.location.offset }⟩

lemma CompileError.blur_locate (e : CompileError) (method : String) (offset : Option Nat) :
    (e.locate method offset).blur = e.blur.locate method (blurOffset offset) := by
  obtain ⟨cause, ⟨place, at?⟩⟩ := e
  cases cause with
  | namingConflict => rfl
  | _ => cases at? <;> rfl

lemma CompileError.blur_locate_congr {e e' : CompileError} (h : e.blur = e'.blur) (method : String)
    {offset offset' : Option Nat} (at? : blurOffset offset = blurOffset offset') :
    (e.locate method offset).blur = (e'.locate method offset').blur := by
  rw [blur_locate, blur_locate, h, at?]

/-- Results that are related, or errors that are the same up to offsets. -/
inductive CompileError.Matched {α β : Type} (V : α → β → Prop) :
    Except CompileError α → Except CompileError β → Prop
  | ok {a : α} {b : β} (result : V a b) : Matched V (.ok a) (.ok b)
  | error {e e' : CompileError} (cause : e'.blur = e.blur) : Matched V (.error e) (.error e')

namespace CompileError.Matched

variable {α β γ δ : Type} {V : α → β → Prop} {W : γ → δ → Prop} {x : Except CompileError α}
  {x' : Except CompileError β}

lemma bind {f : α → Except CompileError γ} {f' : β → Except CompileError δ} (h : Matched V x x')
    (next : ∀ a b, V a b → Matched W (f a) (f' b)) : Matched W (x >>= f) (x' >>= f') := by
  cases h with
  | ok result => exact next _ _ result
  | error cause => exact .error cause

lemma bind_self {f f' : α → Except CompileError γ} {W : γ → γ → Prop}
    (next : ∀ a, x = .ok a → Matched W (f a) (f' a)) : Matched W (x >>= f) (x >>= f') := by
  cases x with
  | ok a => exact next a rfl
  | error e => exact .error rfl

lemma locate (h : Matched V x x') (name : String) :
    Matched V (x.mapError (·.locate name none)) (x'.mapError (·.locate name none)) := by
  cases h with
  | ok result => exact .ok result
  | error cause => exact .error (CompileError.blur_locate_congr cause name rfl)

lemma of_map_eq {f : α → γ} {x x' : Except CompileError α} (h : x'.map f = x.map f) :
    Matched (fun a a' => f a' = f a) x x' := by
  cases x with
  | error e =>
    cases x' with
    | error e' => exact .error (congrArg CompileError.blur (Except.error.inj h))
    | ok a' => cases h
  | ok a =>
    cases x' with
    | error e' => cases h
    | ok a' => exact .ok (Except.ok.inj h)

lemma mono {V' : α → β → Prop} (h : Matched V x x') (weaker : ∀ a b, V a b → V' a b) :
    Matched V' x x' := by
  cases h with
  | ok result => exact .ok (weaker _ _ result)
  | error cause => exact .error cause

lemma of_eq {x x' : Except CompileError α} (h : x' = x) : Matched Eq x x' := by
  subst h
  cases x' with
  | ok a => exact .ok rfl
  | error e => exact .error rfl

lemma mapError_blur {x x' : Except CompileError α} (h : Matched Eq x x') :
    x'.mapError CompileError.blur = x.mapError CompileError.blur := by
  cases h with
  | ok result => rw [result]
  | error cause => exact congrArg Except.error cause

end CompileError.Matched

/-! ## Variables -/

/-- The variable with a blurred note on where it was handed out. -/
def Variable.blur (v : Variable) : Variable := { v with handOut := v.handOut.map HandOut.blur }

namespace Variable

variable (v : Variable)

@[simp] lemma type_blur : v.blur.type = v.type := rfl

@[simp] lemma uses_blur : v.blur.uses = v.uses := rfl

@[simp] lemma reserved_blur : v.blur.reserved = v.reserved := rfl

@[simp] lemma pooled_blur : v.blur.pooled = v.pooled := rfl

@[simp] lemma isTemporary_blur : v.blur.isTemporary = v.isTemporary := rfl

@[simp] lemma isAddress_blur : v.blur.isAddress = v.isAddress := rfl

@[simp] lemma isField_blur : v.blur.isField = v.isField := rfl

lemma congr_of_blur_eq {α : Type} {f : Variable → α} (fixed : ∀ x, f x.blur = f x) {x x' : Variable}
    (e : x'.blur = x.blur) : f x' = f x := by
  rw [← fixed, e, fixed]

end Variable

namespace Variables

def blur (vs : Variables) : Variables := ⟨vs.entries.map Variable.blur⟩

variable (vs : Variables)

@[simp] lemma get_blur (v : VarRef) : vs.blur.get v = (vs.get v).blur := by
  simp only [get, blur, Array.getElem?_map]
  cases vs.entries[v.index]? <;> rfl

lemma add_blur (x : Variable) : vs.blur.add x.blur = ((vs.add x).1, (vs.add x).2.blur) := by
  simp [add, blur]

lemma add_blur_of_eq {x : Variable} (plain : x.blur = x) :
    vs.blur.add x = ((vs.add x).1, (vs.add x).2.blur) := by
  rw [← add_blur, plain]

lemma modify_blur {f f' : Variable → Variable} (same : ∀ x, f' x.blur = (f x).blur) (v : VarRef) :
    vs.blur.modify v f' = (vs.modify v f).blur := by
  simp only [modify, blur, Variables.mk.injEq]
  ext i hi hi'
  · simp
  · simp only [Array.getElem_modify, Array.getElem_map]
    split
    · rw [same]
    · rfl

lemma find?_blur (name : String) : vs.blur.find? name = vs.find? name := by
  simp only [find?, blur, Array.toList_map, ← List.map_reverse, List.findIdx?_map, Array.size_map]
  rfl

lemma findConstant?_blur (value : Value) (type : TypeRef) :
    vs.blur.findConstant? value type = vs.findConstant? value type := by
  simp only [findConstant?, blur, Array.findIdx?_map]
  rfl

lemma findField?_blur (f : FieldRef) : vs.blur.findField? f = vs.findField? f := by
  simp only [findField?, blur, Array.findIdx?_map]
  rfl

lemma named_blur (name : String) (type : TypeRef) (kind : VarKind) :
    vs.blur.named name type kind = ((vs.named name type kind).1, (vs.named name type kind).2.blur) := by
  simp only [named, find?_blur]
  split
  · rfl
  · exact vs.add_blur_of_eq rfl

lemma constant_blur (value : Value) (type : TypeRef) :
    vs.blur.constant value type = ((vs.constant value type).1, (vs.constant value type).2.blur) := by
  simp only [constant, findConstant?_blur]
  split
  · rfl
  · exact vs.add_blur_of_eq rfl

end Variables

/-! ## The scratch pool -/

namespace Scratch

def blurResult (r : Variables × Scratch) : Variables × Scratch := (r.1.blur, r.2)

variable (s : Scratch) (vs : Variables) (v : VarRef)

lemma recycle_blur : s.recycle vs.blur v = blurResult (s.recycle vs v) := by
  simp only [recycle, blurResult]
  rw [vs.modify_blur]
  exact fun _ => rfl

lemma take_blur (type : TypeRef) (handOut : Option HandOut) :
    s.take vs.blur type (handOut.map HandOut.blur) =
      ((s.take vs type handOut).1, blurResult (s.take vs type handOut).2) := by
  simp only [take, Variables.get_blur, Variable.type_blur, blurResult]
  split
  · rename_i v _
    rw [vs.modify_blur]
    exact fun _ => rfl
  · have added : vs.blur.add
        { type, kind := .temporary, uses := 1, handOut := handOut.map HandOut.blur } = _ :=
      vs.add_blur { type, kind := .temporary, uses := 1, handOut }
    rw [added]

lemma allocate_blur (n : Nat) : s.allocate vs.blur v n = (s.allocate vs v n).map blurResult := by
  simp only [allocate, Variables.get_blur, Variable.isTemporary_blur, Variable.pooled_blur]
  split_ifs
  · rfl
  · rfl
  · rw [vs.modify_blur]
    · rfl
    · exact fun _ => rfl

lemma use_blur : s.use vs.blur v = (s.use vs v).map blurResult := by
  simp only [use, Variables.get_blur, Variable.isTemporary_blur, Variable.pooled_blur,
    Variable.uses_blur, Variable.reserved_blur]
  have used : vs.blur.modify v (fun x => { x with uses := x.uses - 1 }) =
      (vs.modify v fun x => { x with uses := x.uses - 1 }).blur := by
    rw [vs.modify_blur]
    exact fun _ => rfl
  split_ifs
  · rfl
  · rfl
  · rw [used, recycle_blur]
    rfl
  · rw [used]
    rfl

lemma reserve_blur : s.reserve vs.blur v = (s.reserve vs v).map blurResult := by
  simp only [reserve, Variables.get_blur, Variable.isTemporary_blur, Variable.pooled_blur]
  split_ifs
  · rfl
  · rfl
  · rw [vs.modify_blur]
    · rfl
    · exact fun _ => rfl

lemma release_blur : s.release vs.blur v = (s.release vs v).map blurResult := by
  simp only [release, Variables.get_blur, Variable.isTemporary_blur, Variable.uses_blur,
    Variable.reserved_blur]
  have freed : vs.blur.modify v ({ · with reserved := false }) =
      (vs.modify v ({ · with reserved := false })).blur := by
    rw [vs.modify_blur]
    exact fun _ => rfl
  split_ifs
  · rfl
  · rfl
  · rw [freed, recycle_blur]
    rfl
  · rw [freed]
    rfl

lemma outstanding_blur : s.outstanding vs.blur = s.outstanding vs := by
  simp only [outstanding, Variables.get_blur, Variable.uses_blur, Variable.reserved_blur,
    Variable.pooled_blur]

end Scratch

/-! ## Drafts -/

namespace Draft

def blur (d : Draft) : Draft := { d with vars := d.vars.blur }

/-- A change of drafts that does not look at the notes. -/
def Blind {α : Type} (change : Draft → α × Draft) : Prop :=
  ∀ d, change d.blur = ((change d).1, (change d).2.blur)

lemma Blind.congr {α : Type} {change : Draft → α × Draft} (blind : Blind change) {d d' : Draft}
    (h : d.blur = d'.blur) :
    (change d).1 = (change d').1 ∧ (change d).2.blur = (change d').2.blur := by
  have same := (blind d).symm.trans ((congrArg change h).trans (blind d'))
  exact Prod.mk.inj same

lemma blind_emit (op : Op) : Blind fun d => ((), d.emit op) := fun _ => rfl

lemma blind_newLabel : Blind newLabel := fun _ => rfl

lemma blind_methodNumber (name : String) : Blind (·.methodNumber name) := fun _ => rfl

lemma blind_require (m : MethodRef) : Blind fun d => ((), d.require m) := by
  intro d
  simp only [require, apply_ite blur]
  rfl

lemma blind_recordCall (caller callee : MethodRef) :
    Blind fun d => ((), d.recordCall caller callee) := fun _ => rfl

lemma blind_addVar {v : Variable} (plain : v.blur = v) : Blind (·.addVar v) := by
  intro d
  simp only [addVar, blur, d.vars.add_blur_of_eq plain]

lemma blind_named (name : String) (type : TypeRef) (kind : VarKind) :
    Blind (·.named name type kind) := by
  intro d
  simp only [named, blur, d.vars.named_blur]

lemma blind_constant (value : Value) (type : TypeRef) : Blind (·.constant value type) := by
  intro d
  simp only [constant, blur, d.vars.constant_blur]

lemma blind_labelAddress (l : Label) : Blind (·.labelAddress l) := blind_addVar rfl

lemma blind_methodLabel (m : MethodRef) : Blind (·.methodLabel m) := by
  intro d
  simp only [methodLabel, blur]
  cases d.methodLabels.lookup m <;> rfl

lemma blind_nextMethod : Blind nextMethod := by
  intro d
  simp only [nextMethod, blur]
  cases d.requested[d.served]? <;> rfl

/-- A change of drafts that may fail, and does not look at the notes. -/
def TryBlind {α : Type} (change : Draft → Except CompileError (α × Draft)) : Prop :=
  ∀ d, change d.blur = (change d).map fun r => (r.1, r.2.blur)

lemma tryBlind_fieldVar (env : ClassEnv) (f : FieldRef) : TryBlind (·.fieldVar env f) := by
  intro d
  simp only [fieldVar, blur, d.vars.findField?_blur]
  split
  · rfl
  · cases env.naming.lookup env.md (.field f) with
    | error e => rfl
    | ok symbol => exact congrArg Except.ok (blind_addVar rfl d)

/-! ## Layout -/

lemma toList_blur (d : Draft) :
    d.blur.vars.toList = d.vars.toList.map fun e => (e.1, e.2.blur) := by
  simp only [blur, Variables.blur, Variables.toList, Array.toList_map, List.zipIdx_map,
    List.map_map]
  rfl

lemma heapOrder_blur (env : ClassEnv) (d : Draft) : d.blur.heapOrder env = d.heapOrder env := by
  have fields : d.blur.fieldSlots env = d.fieldSlots env := by
    simp only [fieldSlots, toList_blur, List.filterMap_map]
    rfl
  simp only [heapOrder, fields, toList_blur, List.filter_map, List.map_map]
  rfl

lemma slots_blur (env : ClassEnv) (labels : List (Label × Nat)) (vs : List Variable) (n : Nat)
    (names : List String) :
    slots env labels (vs.map Variable.blur) n names = slots env labels vs n names := by
  induction vs generalizing n names with
  | nil => rfl
  | cons v vs ih =>
    simp only [List.map_cons, slots, ih]
    rfl

/-- **A program does not depend on the notes** in the draft that is laid out. -/
lemma layout_blur (env : ClassEnv) (d : Draft) : d.blur.layout env = d.layout env := by
  have heap (labels : List (Label × Nat)) :
      slots env labels ((d.heapOrder env).map d.blur.vars.get) 0 [] =
        slots env labels ((d.heapOrder env).map d.vars.get) 0 [] := by
    rw [← slots_blur env labels ((d.heapOrder env).map d.vars.get), List.map_map]
    exact congrArg (slots env labels · 0 []) (List.map_congr_left fun v _ => d.vars.get_blur v)
  simp only [layout, heapOrder_blur, heap]
  rfl

end Draft

end FlatHeap
