import FlatHeap.Metadata.Decl

/-!
# Call cycles

Parameter slots are shared by all calls of a method, so a method must not be entered again before it
has returned.  The recorded calls form a relation; a cycle in it is looked for depth first, and
methods that lead to none are not visited twice.
-/

namespace FlatHeap

abbrev Calls := List (MethodRef × MethodRef)

namespace Calls

def record (calls : Calls) (caller callee : MethodRef) : Calls :=
  if calls.contains (caller, callee) then calls else calls ++ [(caller, callee)]

def callees (calls : Calls) (m : MethodRef) : List MethodRef :=
  calls.filterMap fun c => if c.1 == m then some c.2 else none

/-- Visit a method below a path of callers.  The result is a cycle, as an error, or the methods
known to lead to none. -/
def visit (calls : Calls) : Nat → List MethodRef → List MethodRef → MethodRef →
    Except (List MethodRef) (List MethodRef)
  | 0, _, done, _ => .ok done
  | fuel + 1, path, done, m =>
    if done.contains m then .ok done
    else if path.contains m then .error (path.dropWhile (· != m))
    else do
      let done ← (calls.callees m).foldlM (calls.visit fuel (path ++ [m])) done
      return m :: done

/-- A path has no repetitions, so it is never longer than the number of methods in the calls. -/
def depth (calls : Calls) : Nat := 2 * calls.length + 1

def cycle? (calls : Calls) : Option (List MethodRef) :=
  match calls.foldlM (fun done c => calls.visit calls.depth [] done c.1) [] with
  | .ok _ => none
  | .error cycle => some cycle

end Calls

end FlatHeap
