import FlatHeap.Lowering.Conversion

/-!
# Arrays and addresses

An array element is read and written by operations of the host.  An address on the operand stack is
either that of a variable or that of an array element; loading and storing through it takes the one
way or the other.
-/

namespace FlatHeap.Lower

def arrayElem (array : VarRef) : Lower TypeRef := do
  let md ← metadata
  let t ← typeOf array
  match md.arrayElem? t with
  | some elem => return elem
  | none => refuse (.notArray (md.typeName t))

/-- Signature of the operation that reads an element, and the type of the element. -/
def arrayGetter (array : VarRef) : Lower (String × TypeRef) := do
  let elem ← arrayElem array
  let owner ← ident (← typeOf array)
  return (Host.Signature.render owner "Get" ["SystemInt32"] (← ident elem), elem)

def arrayGet (array index : VarRef) : Lower VarRef := do
  let (signature, elem) ← arrayGetter array
  invokeTemp signature [array, index] elem

def arraySet (array index value : VarRef) : Lower Unit := do
  let elem ← arrayElem array
  let value ← convert value elem
  let owner ← ident (← typeOf array)
  invoke (Host.Signature.render owner "Set" ["SystemInt32", ← ident elem] "SystemVoid")
    [array, index, value] none

/-- Value behind an address; other values stand for themselves. -/
def loadIndirect (v : VarRef) : Lower VarRef := do
  match (← var v).kind with
  | .address target => return target
  | .element array index => arrayGet array index
  | _ => return v

def storeIndirect (address value : VarRef) : Lower Unit := do
  match (← var address).kind with
  | .address target =>
    let value ← convert value (← typeOf target)
    store target value
  | .element array index => arraySet array index value
  | _ => refuse .storeThroughValue

end FlatHeap.Lower
