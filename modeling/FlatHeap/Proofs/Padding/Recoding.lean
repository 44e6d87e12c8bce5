import FlatHeap.Compiler
import FlatHeap.Proofs.Failure

/-!
# Declarations with other code

Most of what a compilation asks its declarations has nothing to do with the code of methods: types,
fields, signatures, names.  `Metadata.recode` replaces the code of bodies and leaves everything else
alone, and the lemmas here say of each question that its answer stays.  Types are asked about by
recursion, so those answers are compared by induction; the others follow by unfolding.

Bodies themselves are decoded in the context of the declarations, of which only the sizes of the
tables and the texts matter, so bytes have the same instructions before and after.
-/

namespace FlatHeap

def MethodDecl.recode (g : List UInt8 → List UInt8) (decl : MethodDecl) : MethodDecl :=
  { decl with body := decl.body.map fun b => { b with code := g b.code } }

namespace Metadata

/-- The declarations with other code in the bodies of methods. -/
def recode (g : MethodRef → List UInt8 → List UInt8) (md : Metadata) : Metadata :=
  { md with methods := md.methods.mapIdx fun k decl => decl.recode (g ⟨k⟩) }

variable {g : MethodRef → List UInt8 → List UInt8} {md : Metadata}

lemma method_recode (m : MethodRef) : (md.recode g).method m = (md.method m).recode (g m) := by
  simp only [method, recode, Array.getD_eq_getD_getElem?, Array.getElem?_mapIdx]
  cases md.methods[m.index]? <;> rfl

lemma isSome_body_recode (m : MethodRef) :
    ((md.recode g).method m).body.isSome = (md.method m).body.isSome := by
  rw [method_recode, MethodDecl.recode, Option.isSome_map]

/-! ## Types -/

lemma type_recode (t : TypeRef) : (md.recode g).type t = md.type t := rfl

lemma hostIdent_recode (behaviour : String) (t : TypeRef) :
    (md.recode g).hostIdent behaviour t = md.hostIdent behaviour t := by
  have inner : ∀ u : TypeRef, u.index < t.index →
      (md.recode g).hostIdent behaviour u = md.hostIdent behaviour u :=
    fun u _ => hostIdent_recode behaviour u
  rw [hostIdent, hostIdent.eq_def md]
  simp +contextual only [type_recode, inner]
  rfl
termination_by t.index

lemma integerValue?_recode (t : TypeRef) (v : Int) :
    (md.recode g).integerValue? t v = md.integerValue? t v := by
  have inner : ∀ u : TypeRef, u.index < t.index →
      (md.recode g).integerValue? u v = md.integerValue? u v :=
    fun u _ => integerValue?_recode u v
  rw [integerValue?, integerValue?.eq_def md]
  simp only [kind, type_recode]
  split <;> simp +contextual only [inner]
termination_by t.index

lemma ancestors_recode (t : TypeRef) : (md.recode g).ancestors t = md.ancestors t := by
  have within (k : Nat) (t : TypeRef) :
      (md.recode g).ancestorsWithin k t = md.ancestorsWithin k t := by
    induction k generalizing t with
    | zero => rfl
    | succ k ih => simp only [ancestorsWithin, type_recode, ih]
  exact within _ t

lemma interfaceExtends_recode (i target : TypeRef) :
    (md.recode g).interfaceExtends i target = md.interfaceExtends i target := by
  have within (k : Nat) : (md.recode g).extendsWithin target k = md.extendsWithin target k := by
    induction k with
    | zero => rfl
    | succ k ih =>
      funext i
      simp only [extendsWithin, type_recode, ih]
  exact congrFun (within _) i

lemma assignable_recode (t target : TypeRef) :
    (md.recode g).assignable t target = md.assignable t target := by
  simp only [assignable, ancestors_recode, type_recode, interfaceExtends_recode]

lemma collectInterfaces_recode (t : TypeRef) (acc : List TypeRef) :
    Naming.collectInterfaces (md.recode g) t acc = Naming.collectInterfaces md t acc := by
  have within (k : Nat) (t : TypeRef) (acc : List TypeRef) :
      Naming.collectWithin (md.recode g) k t acc = Naming.collectWithin md k t acc := by
    induction k generalizing t acc with
    | zero => rfl
    | succ k ih =>
      simp only [Naming.collectWithin, type_recode, isUser, ih]
      rfl
  exact within _ t acc

/-! ## Values -/

lemma defaultValue_recode (t : TypeRef) : (md.recode g).defaultValue t = md.defaultValue t := by
  rw [defaultValue, integerValue?_recode, defaultValue]

lemma literalValue?_recode (t : TypeRef) (l : Literal) :
    (md.recode g).literalValue? t l = md.literalValue? t l := by
  cases l with
  | bool | char | int32 | int64 => exact integerValue?_recode t _
  | null | single | double | text => rfl

lemma foldNumber?_recode (value : Value) (source target : TypeRef) :
    (md.recode g).foldNumber? value source target = md.foldNumber? value source target := by
  have inner : ∀ u : TypeRef, u.index < target.index →
      (md.recode g).foldNumber? value source u = md.foldNumber? value source u :=
    fun u _ => foldNumber?_recode value source u
  rw [foldNumber?, foldNumber?.eq_def md]
  simp +contextual only [kind, type_recode, inner, foldInteger?, foldFloat?, withoutEnum,
    underlying?, intFormat?, isFloat, integerValue?_recode]
  rfl
termination_by target.index

lemma foldConversion?_recode (value : Value) (source target : TypeRef) :
    (md.recode g).foldConversion? value source target = md.foldConversion? value source target := by
  unfold foldConversion?
  by_cases same : source = target
  · rw [if_pos same, if_pos same]
  rw [if_neg same, if_neg same]
  cases value with
  | null | text | type | address | self => rfl
  | _ => exact foldNumber?_recode _ source target

lemma foldBinary?_recode (op : Bytecode.Opcode) (t : TypeRef) (a b : Value) :
    (md.recode g).foldBinary? op t a b = md.foldBinary? op t a b := by
  simp only [foldBinary?, integerValue?_recode, kind, type_recode]

lemma foldUnary?_recode (negate : Bool) (t : TypeRef) (v : Value) :
    (md.recode g).foldUnary? negate t v = md.foldUnary? negate t v := by
  simp only [foldUnary?, integerValue?_recode, intFormat?, kind, type_recode]

/-! ## Names -/

lemma methodDisplay_recode (m : MethodRef) :
    (md.recode g).methodDisplay m = md.methodDisplay m := by
  simp only [methodDisplay, method_recode]
  rfl

lemma methodSignature_recode (o : Options) (m : MethodRef) :
    (md.recode g).methodSignature o m = md.methodSignature o m := by
  have param : (md.recode g).paramIdent o.behaviourType = md.paramIdent o.behaviourType := by
    funext p
    rw [paramIdent, hostIdent_recode, paramIdent]
  simp only [methodSignature, method_recode, hostIdent_recode, param]
  rfl

lemma fieldGetter_recode (o : Options) (f : FieldRef) :
    (md.recode g).fieldGetter o f = md.fieldGetter o f := by
  simp only [fieldGetter, hostIdent_recode]
  rfl

lemma fieldSetter_recode (o : Options) (f : FieldRef) :
    (md.recode g).fieldSetter o f = md.fieldSetter o f := by
  simp only [fieldSetter, hostIdent_recode]
  rfl

lemma display_recode (x : Member) : x.display (md.recode g) = x.display md := by
  cases x with
  | field f => rfl
  | method m => exact methodDisplay_recode m

lemma render_recode (o : Bytecode.Operand) : o.render (md.recode g) = o.render md := by
  cases o with
  | method m => exact methodDisplay_recode m
  | _ => rfl

lemma lookup_recode (n : Naming) (x : Member) : n.lookup (md.recode g) x = n.lookup md x := by
  simp only [Naming.lookup, display_recode]
  rfl

lemma dispatchTarget?_recode (n : Naming) (emitted : String) :
    n.dispatchTarget? (md.recode g) emitted = n.dispatchTarget? md emitted := by
  simp only [Naming.dispatchTarget?, isSome_body_recode]

lemma claim_recode (n : Naming) (x : Member) (name : String) (unique : Bool) :
    n.claim (md.recode g) x name unique = n.claim md x name unique := by
  simp only [Naming.claim, display_recode]

lemma latestOfShape?_recode (n : Naming) (c : List UInt8 → List UInt8) (decl : MethodDecl) :
    n.latestOfShape? (md.recode g) (decl.recode c) = n.latestOfShape? md decl := by
  simp only [Naming.latestOfShape?, method_recode]
  rfl

lemma addField_recode (t : TypeRef) (n : Naming) (f : FieldRef) :
    Naming.addField (md.recode g) t n f = Naming.addField md t n f := by
  simp only [Naming.addField, claim_recode]
  rfl

lemma addMethod_recode (o : Options) (t : TypeRef) (n : Naming) (m : MethodRef) :
    Naming.addMethod (md.recode g) o t n m = Naming.addMethod md o t n m := by
  simp only [Naming.addMethod, method_recode, latestOfShape?_recode, claim_recode]
  rfl

lemma ofClass_recode (o : Options) (t : TypeRef) :
    Naming.ofClass (md.recode g) o t = Naming.ofClass md o t := by
  have chain : Naming.chain (md.recode g) t = Naming.chain md t := by
    simp only [Naming.chain, ancestors_recode, collectInterfaces_recode]
    rfl
  have added : Naming.addType (md.recode g) o = Naming.addType md o := by
    funext n t
    simp only [Naming.addType, funext₂ (addField_recode t), funext₂ (addMethod_recode o t)]
    rfl
  rw [Naming.ofClass, chain, added, Naming.ofClass]

end Metadata

/-! ## Bodies -/

namespace Bytecode

variable {g : MethodRef → List UInt8 → List UInt8} {md : Metadata}

lemma operand_recode (n offset : Nat) (op : Opcode) (bytes : List UInt8) :
    Site.operand ⟨md.recode g, n, offset, op⟩ bytes = Site.operand ⟨md, n, offset, op⟩ bytes := by
  have methods : (md.recode g).resolveMethod? = md.resolveMethod? := by
    funext t
    simp only [Metadata.resolveMethod?, Metadata.recode, Array.size_mapIdx]
  simp only [Site.operand, methods]
  rfl

lemma decodeOne_recode (n offset : Nat) (bytes : List UInt8) :
    decodeOne (md.recode g) n offset bytes = decodeOne md n offset bytes := by
  simp only [decodeOne, operand_recode]

lemma decodeFrom_recode (n offset : Nat) (bytes : List UInt8) :
    decodeFrom (md.recode g) n offset bytes = decodeFrom md n offset bytes := by
  induction offset, bytes using decodeFrom.induct with
  | case1 offset => rw [decodeFrom, decodeFrom]
  | case2 offset b rest ih =>
    rw [decodeFrom, decodeFrom.eq_def md, decodeOne_recode]
    simp only [ih]

lemma decode_recode (bytes : List UInt8) : decode (md.recode g) bytes = decode md bytes := by
  rw [decode, decodeFrom_recode, decode]

end Bytecode

end FlatHeap
