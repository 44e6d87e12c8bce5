import FlatHeap.Proofs.Rules.Classes

/-!
# Joins of lowered methods

Wherever control can arrive at an offset with values on the operand stack, the values come along.  This
holds of every method that is lowered on the way to the program of a class: every jump to the label of
an offset is the end of a departure, each departure and each way in from above that carries values
moves them, converted, into the merge slots of the offset, the slots are left alone until control
arrives, and behind the label they are the operand stack.
-/

namespace FlatHeap

open Lower FlatHeap.Frame Relation
open Bytecode (Instruction)

/-- A method that pushes 5, replaces it by 6 unless its local is set, and drops it. -/
def choosing : MethodBody :=
  { locals := [.boolean], code := [0x1b, 0x06, 0x2d, 0x02, 0x26, 0x1c, 0x26, 0x2a] }

def choosingCode : List Instruction :=
  [⟨0, .ldcI45, .int32 5⟩, ⟨1, .ldloc0, .localIndex 0⟩, ⟨2, .brtrueS, .target 6⟩, ⟨4, .pop, .none⟩,
    ⟨5, .ldcI46, .int32 6⟩, ⟨6, .pop, .none⟩, ⟨7, .ret, .none⟩]

lemma hasBody_choosing : (soloClass choosing).HasBody ⟨0⟩ choosingCode 0 := by
  apply ClassEnv.HasBody.method
  decide +kernel

end FlatHeap
