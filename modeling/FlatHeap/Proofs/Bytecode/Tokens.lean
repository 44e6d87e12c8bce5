import FlatHeap.Proofs.Scalars

/-!
# Tokens

A token names a declaration by its table and its position there.  Which token resolves to a
declaration is decided by its position alone; a text is found by its first position, so there the
table must not list it twice.  Construction keeps it that way (`Built.strings_nodup`).
-/

namespace FlatHeap.Metadata

variable {md : Metadata}

lemma Built.strings_nodup (built : md.Built) : md.strings.Nodup := by
  induction built with
  | empty => exact List.nodup_nil
  | addType _ _ ih | addField _ _ _ ih | addMethod _ _ _ ih | setBody _ _ _ ih => exact ih
  | arrayOf _ _ ih =>
    unfold Metadata.arrayOf
    split <;> exact ih
  | nullableOf _ _ ih =>
    unfold Metadata.nullableOf
    split <;> exact ih
  | byRefOf _ _ ih =>
    simp only [Metadata.byRefOf]
    split <;> exact ih
  | @stringToken md s _ ih =>
    unfold Metadata.stringToken
    split
    · exact ih
    · rename_i missing
      have new : s ∉ md.strings := by simpa using missing
      simpa using ih.concat new

lemma toNat_token (table : Table) (index : Nat) :
    (token table index).toNat = table.number * 2 ^ 24 + (index + 1) % 2 ^ 24 := by
  have small : table.number < 256 := by cases table <;> decide
  have := Nat.mod_lt (index + 1) (show 0 < 2 ^ 24 by decide)
  rw [token, UInt32.toNat_ofNat_of_lt']
  simp only [UInt32.size]
  omega

lemma resolveIn?_eq_some_iff {table : Table} {size index : Nat} {t : UInt32} :
    resolveIn? table size t = some index ↔
      t = token table index ∧ index < size ∧ index + 1 < 2 ^ 24 := by
  rw [← UInt32.toNat_inj, toNat_token]
  simp only [resolveIn?, Option.ite_none_right_eq_some, Option.some.injEq]
  have bound := t.toNat_lt
  have := Nat.mod_lt t.toNat (show 0 < 2 ^ 24 by decide)
  omega

lemma eq_token_of_resolve {α : Type} {make : Nat → α} (index : α → Nat)
    (back : ∀ n, index (make n) = n) {table : Table} {size : Nat} {t : UInt32} {a : α}
    (h : (resolveIn? table size t).map make = some a) : t = token table (index a) := by
  obtain ⟨n, found, rfl⟩ := Option.map_eq_some_iff.1 h
  rw [back]
  exact (resolveIn?_eq_some_iff.1 found).1

lemma eq_token_of_resolveString (nodup : md.strings.Nodup) {s : String} {t : UInt32}
    (h : md.resolveString? t = some s) : t = token .string (md.strings.idxOf s) := by
  obtain ⟨index, found, here⟩ := Option.bind_eq_some_iff.1 h
  obtain ⟨inside, rfl⟩ := List.getElem?_eq_some_iff.1 here
  rw [List.Nodup.idxOf_getElem nodup]
  exact (resolveIn?_eq_some_iff.1 found).1

end FlatHeap.Metadata
