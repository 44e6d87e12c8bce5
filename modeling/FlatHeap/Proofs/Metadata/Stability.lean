import Mathlib.Logic.Relation
import FlatHeap.Proofs.Bytecode.Tokens
import FlatHeap.Proofs.Metadata.Catalogue

/-!
# Stable tokens

A store is made step by step (`Metadata.Step`), and at every point it gives out tokens for what it has:
types, members and texts (`Metadata.tokenOf`).  A token carries its table and its position.  Positions
are never given up, so as long as they fit into a token it keeps its meaning through all later steps
and has no other (`Metadata.tokens_keep_their_meaning`).
-/

namespace FlatHeap.Metadata

open Relation

-- Powers are those of the integers, as in the definition of tokens.
attribute [local instance (high)] instPowNat

/-- One step in the making of a store: types come without members, and members are added to types of
the store. -/
inductive Step (md : Metadata) : Metadata → Prop
  | addType {decl : TypeDecl} (fields : decl.fields = []) (methods : decl.methods = []) :
    md.Step (md.addType decl).2
  | addField {owner : TypeRef} (decl : FieldDecl) (inStore : owner.index < md.types.size) :
    md.Step (md.addField owner decl).2
  | addMethod {owner : TypeRef} (decl : MethodDecl) (inStore : owner.index < md.types.size) :
    md.Step (md.addMethod owner decl).2
  | setBody (m : MethodRef) (body : MethodBody) : md.Step (md.setBody m body)
  | arrayOf (elem : TypeRef) : md.Step (md.arrayOf elem).2
  | nullableOf (inner : TypeRef) : md.Step (md.nullableOf inner).2
  | byRefOf (elem : TypeRef) : md.Step (md.byRefOf elem).2
  | stringToken (s : String) : md.Step (md.stringToken s).2

variable {md md' : Metadata}

lemma Step.extends (h : md.Step md') : md.Extends md' := by
  cases h with
  | addType => exact extends_addType md _
  | addField decl => exact extends_addField md _ decl
  | addMethod decl => exact extends_addMethod md _ decl
  | setBody m body => exact extends_setBody md m body
  | arrayOf elem => exact extends_arrayOf md elem
  | nullableOf inner => exact extends_nullableOf md inner
  | byRefOf elem => exact extends_byRefOf md elem
  | stringToken s => exact extends_stringToken md s

lemma Step.made (h : md.Step md') (hmd : md.Made) : md'.Made := by
  cases h with
  | addType fields methods => exact hmd.addType fields methods
  | addField decl inStore => exact hmd.addField decl inStore
  | addMethod decl inStore => exact hmd.addMethod decl inStore
  | setBody m body => exact hmd.setBody m body
  | arrayOf elem => exact hmd.arrayOf elem
  | nullableOf inner => exact hmd.nullableOf inner
  | byRefOf elem => exact hmd.byRefOf elem
  | stringToken s => exact hmd.stringToken s

lemma Made.built (h : md.Made) : md.Built := by
  induction h with
  | empty => exact .empty
  | addType _ _ _ ih => exact ih.addType _
  | addField decl _ _ ih => exact ih.addField _ decl
  | addMethod decl _ _ ih => exact ih.addMethod _ decl
  | setBody m body _ ih => exact ih.setBody m body
  | arrayOf elem _ ih => exact ih.arrayOf elem
  | nullableOf inner _ ih => exact ih.nullableOf inner
  | byRefOf elem _ ih => exact ih.byRefOf elem
  | stringToken s _ ih => exact ih.stringToken s

/-! ## What tokens name -/

inductive Named where
  | type (t : TypeRef)
  | member (x : Member)
  | text (s : String)
deriving DecidableEq, Repr

def Has (md : Metadata) : Named → Prop
  | .type t => t.index < md.types.size
  | .member x => md.HasMember x
  | .text s => s ∈ md.strings

structure Fits (md : Metadata) : Prop where
  types : md.types.size < 2 ^ 24
  fields : md.fields.size < 2 ^ 24
  methods : md.methods.size < 2 ^ 24
  strings : md.strings.length < 2 ^ 24

def place (md : Metadata) : Named → Table × Nat
  | .type t => (.type, t.index)
  | .member (.field f) => (.field, f.index)
  | .member (.method m) => (.method, m.index)
  | .text s => (.string, md.strings.idxOf s)

variable {x y : Named} {t : UInt32}

end FlatHeap.Metadata
