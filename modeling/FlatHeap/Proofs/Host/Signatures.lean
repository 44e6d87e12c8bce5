import Mathlib.Data.List.Basic
import FlatHeap.Host.Signature

/-!
# Reading signatures

The machine reads a signature back from its text.  That this gives the member, the number of
parameters and the result that went into the text is not a matter of course, because the parts are
only kept apart by underscores: members may have underscores inside, but no two in a row and none at
the end, and parameters may have none at all.  The owner ends at the first dot; behind it, the text
splits at double underscores into the member, the group of parameters, if there are any, and the result
(`Signature.exists_pieces_render`).  Both reading a signature back and telling two signatures apart go
by these pieces.
-/

namespace FlatHeap.Host.Signature

variable {cs : List Char} {owner member result : String} {params : List String}

/-! ## Splitting at double underscores -/

/-- No two underscores in a row, and none at the end. -/
def solid : List Char → Bool
  | [] => true
  | ['_'] => false
  | '_' :: '_' :: _ => false
  | _ :: rest => solid rest

lemma solid_of_not_mem (h : '_' ∉ cs) : solid cs = true := by
  fun_induction solid cs with
  | case1 => rfl
  | case2 => simp at h
  | case3 => simp at h
  | case4 c rest _ _ ih => exact ih fun hm => h (List.mem_cons_of_mem c hm)

lemma pieces_append {rest : List Char} (h : solid cs = true) :
    pieces (cs ++ '_' :: '_' :: rest) = cs :: pieces rest := by
  fun_induction solid cs with
  | case1 => simp [pieces]
  | case2 => simp at h
  | case3 => simp at h
  | case4 c cs h₁ h₂ ih =>
    have hskip : ∀ r, c :: (cs ++ '_' :: '_' :: rest) = '_' :: '_' :: r → False := by
      intro r heq
      cases cs with
      | nil => exact h₁ (by simp_all) rfl
      | cons d ds => exact h₂ ds (by simp_all) (by simp_all)
    rw [List.cons_append, pieces, ih h, consPiece]
    simpa using hskip

lemma pieces_solid (h : solid cs = true) : pieces cs = [cs] := by
  fun_induction solid cs with
  | case1 => rfl
  | case2 => simp at h
  | case3 => simp at h
  | case4 c cs h₁ h₂ ih =>
    rw [pieces, ih h, consPiece]
    rintro r rfl hcs
    exact h₂ r rfl hcs

lemma solid_append {ds : List Char} (hc : '_' ∉ cs) (hd : solid ds = true) (hne : ds ≠ [])
    (hhead : ds.head? ≠ some '_') : solid (cs ++ '_' :: ds) = true := by
  induction cs with
  | nil =>
    cases ds with
    | nil => exact absurd rfl hne
    | cons d ds =>
      have hd' : d ≠ '_' := by simpa using hhead
      rw [List.nil_append, solid]
      · exact hd
      · simp
      · simp_all
  | cons c cs ih =>
    have hc' : c ≠ '_' := fun heq => hc (by simp [heq])
    rw [List.cons_append, solid]
    · exact ih fun hm => hc (List.mem_cons_of_mem c hm)
    · exact fun heq => absurd heq hc'
    · exact fun _ heq => absurd heq hc'

def Word (cs : List Char) : Prop := cs ≠ [] ∧ '_' ∉ cs

instance (cs : List Char) : Decidable (Word cs) := inferInstanceAs (Decidable (_ ∧ _))

/-- The parameters of a signature, as they are written. -/
def group (params : List String) : List Char := ['_'].intercalate (params.map String.toList)

lemma group_singleton (p : String) : group [p] = p.toList := by simp [group]

lemma group_cons_cons (p q : String) (qs : List String) :
    group (p :: q :: qs) = p.toList ++ '_' :: group (q :: qs) := by
  simp [group, List.intercalate]

lemma group_spec (hne : params ≠ []) (h : ∀ p ∈ params, Word p.toList) :
    solid (group params) = true ∧ groupSize (group params) = params.length ∧ group params ≠ [] ∧
      (group params).head? ≠ some '_' := by
  induction params with
  | nil => exact absurd rfl hne
  | cons p ps ih =>
    obtain ⟨hpne, hp⟩ := h p (by simp)
    have hhead : p.toList.head? ≠ some '_' := fun heq => hp (List.mem_of_mem_head? heq)
    cases ps with
    | nil =>
      rw [group_singleton]
      exact ⟨solid_of_not_mem hp, by simp [groupSize, List.count_eq_zero.2 hp], hpne, hhead⟩
    | cons q qs =>
      obtain ⟨hs, hg, hne', hh⟩ := ih (by simp) fun x hx => h x (List.mem_cons_of_mem p hx)
      rw [group_cons_cons]
      refine ⟨solid_append hp hs hne' hh, ?_, by simp, ?_⟩
      · simp only [groupSize, List.count_append, List.count_cons_self, List.count_eq_zero.2 hp,
          List.length_cons] at hg ⊢
        omega
      · rwa [List.head?_append_of_ne_nil _ hpne]

lemma afterOwner?_append {owner rest : List Char} (h : '.' ∉ owner) :
    afterOwner? (owner ++ '.' :: '_' :: '_' :: rest) = some rest := by
  induction owner with
  | nil => simp [afterOwner?]
  | cons c owner ih =>
    have hc : c ≠ '.' := fun heq => h (by simp [heq])
    rw [List.cons_append, afterOwner?]
    · exact ih fun hm => h (List.mem_cons_of_mem c hm)
    · intro rest' heq
      simp_all

/-! ## Texts of signatures -/

/-- The parts of a signature can be told from its text. -/
structure Legible (owner member : String) (params : List String) (result : String) : Prop where
  owner : '.' ∉ owner.toList
  member : solid member.toList = true
  params : ∀ p ∈ params, Word p.toList
  result : solid result.toList = true

/-- **The text of a signature** has the owner before the first dot, and splits behind it. -/
lemma exists_pieces_render (h : Legible owner member params result) :
    ∃ rest, (render owner member params result).toList = owner.toList ++ '.' :: '_' :: '_' :: rest ∧
      pieces rest = if params = [] then [member.toList, result.toList]
        else [member.toList, group params, result.toList] := by
  have hscore : ("__" : String).toList = ['_', '_'] := by decide
  have hdot : (".__" : String).toList = ['.', '_', '_'] := by decide
  have hone : ("_" : String).toList = ['_'] := by decide
  by_cases hnil : params = []
  · refine ⟨member.toList ++ '_' :: '_' :: result.toList, ?_, ?_⟩
    · simp [render, hnil, hscore, hdot]
    · rw [if_pos hnil, pieces_append h.member, pieces_solid h.result]
  · have hg : solid (group params) = true := (group_spec hnil h.params).1
    refine ⟨member.toList ++ '_' :: '_' :: (group params ++ '_' :: '_' :: result.toList), ?_, ?_⟩
    · simp [render, group, hnil, hscore, hdot, hone, String.toList_intercalate]
    · rw [if_neg hnil, pieces_append h.member, pieces_append hg, pieces_solid h.result]

/-- **Reading back a signature.** -/
theorem parse?_render (ho : '.' ∉ owner.toList) (hm : solid member.toList = true)
    (hp : ∀ p ∈ params, Word p.toList) (hr : solid result.toList = true) :
    parse? (render owner member params result) = some ⟨member, params.length, result⟩ := by
  obtain ⟨rest, htext, hpieces⟩ := exists_pieces_render ⟨ho, hm, hp, hr⟩
  rw [parse?, htext, afterOwner?_append ho]
  by_cases hnil : params = []
  · simp [hpieces, hnil]
  · simp [hpieces, hnil, (group_spec hnil hp).2.1]

/-! ## Telling signatures apart -/

lemma append_dot_inj {owner' rest rest' : List Char} (h : '.' ∉ cs) (h' : '.' ∉ owner')
    (heq : cs ++ '.' :: rest = owner' ++ '.' :: rest') : cs = owner' ∧ rest = rest' := by
  have hbefore {o r : List Char} (ho : '.' ∉ o) : (o ++ '.' :: r).takeWhile (· ≠ '.') = o := by
    rw [List.takeWhile_append_of_pos]
    · simp
    · intro c hc
      simpa using fun e : c = '.' => ho (e ▸ hc)
  obtain rfl : cs = owner' := by rw [← hbefore h, heq, hbefore h']
  exact ⟨rfl, by simpa using heq⟩

lemma group_injective {params' : List String} (hp : ∀ p ∈ params, Word p.toList)
    (hp' : ∀ p ∈ params', Word p.toList) (hne : params ≠ []) (hne' : params' ≠ [])
    (heq : group params = group params') : params = params' := by
  have hsplit {ps : List String} (h : ∀ p ∈ ps, Word p.toList) (hne : ps ≠ []) :
      (group ps).splitOn '_' = ps.map String.toList :=
    List.splitOn_intercalate '_' (by simpa using fun p hp => (h p hp).2) (by simpa using hne)
  refine List.map_injective_iff.2 (fun _ _ => String.toList_inj.1) ?_
  rw [← hsplit hp hne, heq, hsplit hp' hne']

/-- **Equal signatures have equal parts.** -/
lemma render_injective {owner' member' result' : String} {params' : List String}
    (h : Legible owner member params result) (h' : Legible owner' member' params' result')
    (heq : render owner member params result = render owner' member' params' result') :
    owner = owner' ∧ member = member' ∧ params = params' ∧ result = result' := by
  obtain ⟨rest, htext, hpieces⟩ := exists_pieces_render h
  obtain ⟨rest', htext', hpieces'⟩ := exists_pieces_render h'
  rw [← heq, htext] at htext'
  obtain ⟨howner, hrest⟩ := append_dot_inj h.owner h'.owner htext'
  obtain rfl : rest = rest' := by simpa using hrest
  rw [hpieces] at hpieces'
  refine ⟨String.toList_inj.1 howner, ?_⟩
  -- with no parameters there are two pieces, and otherwise three
  split_ifs at hpieces' with hnil hnil' hnil'
  · simp_all [String.toList_inj]
  · simp at hpieces'
  · simp at hpieces'
  · simp only [List.cons.injEq, and_true, String.toList_inj] at hpieces'
    obtain ⟨hmember, hgroup, hresult⟩ := hpieces'
    exact ⟨hmember, group_injective h.params h'.params hnil hnil' hgroup, hresult⟩

/-! ## Names that may be used -/

/-- A name of a type: it has neither of the characters that keep the parts of a signature apart. -/
structure IsIdent (name : String) : Prop where
  ne_empty : name ≠ ""
  score : '_' ∉ name.toList
  dot : '.' ∉ name.toList

/-- A name of a member, which may have single underscores inside. -/
structure IsMember (name : String) : Prop where
  ne_empty : name ≠ ""
  dot : '.' ∉ name.toList
  scores : ¬ ['_', '_'] <:+: name.toList
  first : name.toList.head? ≠ some '_'
  last : name.toList.getLast? ≠ some '_'

structure Proper (owner member : String) (params : List String) (result : String) : Prop where
  owner : IsIdent owner
  member : IsMember member
  params : ∀ p ∈ params, IsIdent p
  result : IsIdent result

lemma solid_iff : solid cs = true ↔ ¬ ['_', '_'] <:+: cs ∧ cs.getLast? ≠ some '_' := by
  fun_induction solid cs with
  | case1 => simp
  | case2 => simp
  | case3 rest => simp [List.infix_cons_iff]
  | case4 c rest h₁ h₂ ih =>
    have hfirst : ¬ ['_', '_'] <+: c :: rest := by
      rintro ⟨r, hr⟩
      obtain ⟨rfl, rfl⟩ := List.cons.inj hr
      exact h₂ r rfl rfl
    rw [ih, List.infix_cons_iff]
    cases rest with
    | nil => simpa using h₁
    | cons d ds => simp [hfirst, List.getLast?_cons]

lemma Proper.legible (h : Proper owner member params result) :
    Legible owner member params result where
  owner := h.owner.dot
  member := solid_iff.2 ⟨h.member.scores, h.member.last⟩
  params p hp := ⟨by simpa using (h.params p hp).ne_empty, (h.params p hp).score⟩
  result := solid_of_not_mem h.result.score

/-- **Signatures decode uniquely**: the machine reads back the member, the number of parameters and
the result, and equal signatures have equal parts. -/
theorem render_decodes_uniquely (h : Proper owner member params result) :
    parse? (render owner member params result) = some ⟨member, params.length, result⟩ ∧
      ∀ owner' member' params' result', Proper owner' member' params' result' →
        render owner member params result = render owner' member' params' result' →
        owner = owner' ∧ member = member' ∧ params = params' ∧ result = result' := by
  obtain ⟨ho, hm, hp, hr⟩ := h.legible
  exact ⟨parse?_render ho hm hp hr, fun _ _ _ _ h' => render_injective h.legible h'.legible⟩

/-- An operator, whose name has an underscore inside. -/
theorem render_decodes_uniquely_operator :
    Proper "SystemInt32" "op_Addition" ["SystemInt32", "SystemInt32"] "SystemInt32" ∧
      parse? (binary "SystemInt32" "op_Addition" "SystemInt32") =
        some ⟨"op_Addition", 2, "SystemInt32"⟩ := by
  have hident : IsIdent "SystemInt32" := ⟨by decide, by decide, by decide⟩
  have hmember : IsMember "op_Addition" :=
    ⟨by decide, by decide, by simp [List.infix_cons_iff], by decide, by decide⟩
  have h : Proper "SystemInt32" "op_Addition" ["SystemInt32", "SystemInt32"] "SystemInt32" :=
    ⟨hident, hmember, by simpa using hident, hident⟩
  exact ⟨h, (render_decodes_uniquely h).1⟩

-- Names with an underscore in a parameter, or at the end of a member, are confused.
example : render "Host" "f" ["A_B"] "R" = render "Host" "f" ["A", "B"] "R" ∧
    render "Host" "f_" ["A"] "R" = render "Host" "f" ["_A"] "R" := by
  constructor <;> cbv

end FlatHeap.Host.Signature
