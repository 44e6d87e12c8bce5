import FlatHeap.Proofs.Naming.Storage

/-!
# Methods of a class

What a naming says about the methods it lists: none is a constructor, and each has a slot name for
every parameter, also where the names are those of an earlier member of its family.  A naming fails
only over names.
-/

namespace FlatHeap

/-- The symbol is that of a field, or of a method with a slot name for each parameter. -/
def Symbol.Fits (md : Metadata) (s : Symbol) : Prop :=
  ∀ m, s.member = .method m →
    (md.method m).isCtor = false ∧ s.params.length = (md.method m).params.length

namespace Naming

variable {md : Metadata} {o : Options} {n n' : Naming} {s : Symbol} {t : TypeRef} {e : CompileError}

/-- No method is a constructor, and each has a slot name for every parameter. -/
def Fits (md : Metadata) (n : Naming) : Prop := ∀ s ∈ n.symbols, s.Fits md

lemma Fits.push (h : n.Fits md) (hs : s.Fits md) : (n.push s).Fits md := by
  intro r hr
  rcases List.mem_append.1 hr with hr | hr
  · exact h r hr
  · exact List.mem_singleton.1 hr ▸ hs

lemma length_of_latestOfShape? {decl : MethodDecl} {i : Nat} (h : n.Fits md)
    (hs : n.latestOfShape? md decl = some (i, s)) : s.params.length = decl.params.length := by
  obtain ⟨hat, m, hmember, hshape⟩ := latestOfShape?_spec hs
  rw [(h s (List.mem_of_getElem? hat) m hmember).2]
  simp only [sameShape, Bool.and_eq_true, beq_iff_eq] at hshape
  simpa using congrArg List.length hshape.2

lemma Fits.adds {x : Member} (h : n.Fits md) (hadd : Adds md o t n x n') : n'.Fits md := by
  have hctor {m : MethodRef} (hm : isNamed md m = true) : (md.method m).isCtor = false := by
    simp only [isNamed, Bool.not_eq_true', Bool.or_eq_false_iff] at hm
    exact hm.1
  cases hadd with
  | unnamed => exact h
  | @begins x n₁ s named entry symbols _ first =>
    have hn₁ : n₁.Fits md := by
      rw [Fits, symbols]
      exact h
    obtain ⟨-, rfl⟩ := Prod.mk.inj entry
    refine hn₁.push fun m hm => ⟨hctor (by rwa [hm] at named), ?_⟩
    simp [first.params, Symbol.paramNames, Symbol.method?, hm]
  | @joins m i base named latest =>
    refine h.push fun m' hm' => ?_
    obtain rfl : m = m' := Member.method.inj hm'
    have hlen : base.params.length = _ := length_of_latestOfShape? h latest
    exact ⟨hctor named, hlen⟩

/-- **Methods of a class** are not constructors and have a slot name for every parameter. -/
theorem ofClass_fits (h : ofClass md o t = .ok n) : n.Fits md :=
  ofClass_induction (by simp [Fits]) Fits.adds h

/-! ## Failure -/

def AboutNames (e : CompileError) : Prop :=
  ∃ name first second, e.cause = .namingConflict name first second

lemma claim_error {member : Member} {name : String} {unique : Bool}
    (h : n.claim md member name unique = .error e) : AboutNames e := by
  unfold claim at h
  split at h
  · split at h
    · obtain rfl := Except.error.inj h
      exact ⟨_, _, _, rfl⟩
    · cases h
  · cases h

lemma addField_error {f : FieldRef} (h : addField md t n f = .error e) : AboutNames e := by
  simp only [addField] at h
  split at h
  · cases h
  · rcases except_bind_eq_error_iff.1 h with h | ⟨a, -, h⟩
    · exact claim_error h
    · cases h

lemma addMethod_error {m : MethodRef} (h : addMethod md o t n m = .error e) : AboutNames e := by
  simp only [addMethod] at h
  split at h
  · cases h
  split at h
  · cases h
  · rcases except_bind_eq_error_iff.1 h with h | ⟨a, -, h⟩
    · exact claim_error h
    · cases h

theorem ofClass_error (h : ofClass md o t = .error e) : AboutNames e := by
  refine foldlM_error (fun n t e hadd => ?_) h
  rcases except_bind_eq_error_iff.1 hadd with h₁ | ⟨n₁, -, h₂⟩
  · exact foldlM_error (fun _ _ _ => addField_error) h₁
  · exact foldlM_error (fun _ _ _ => addMethod_error) h₂

end Naming

end FlatHeap
