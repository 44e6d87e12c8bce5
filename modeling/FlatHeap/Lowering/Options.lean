import FlatHeap.Host.Signature

/-!
# Compiler options
-/

namespace FlatHeap

/-- Signatures of the operations by which one program reaches another. -/
structure RemoteOperations where
  /-- Receiver, variable name and value; no result. -/
  setVariable : String
  /-- Receiver and variable name; an object. -/
  getVariable : String
  /-- Receiver and event name; no result. -/
  sendEvent : String
deriving DecidableEq, Repr

def RemoteOperations.receiver : String := "VRCUdonCommonInterfacesIUdonEventReceiver"

def RemoteOperations.standard : RemoteOperations where
  setVariable :=
    Host.Signature.render receiver "SetProgramVariable" ["SystemString", "SystemObject"]
      "SystemVoid"
  getVariable :=
    Host.Signature.render receiver "GetProgramVariable" ["SystemString"] "SystemObject"
  sendEvent := Host.Signature.render receiver "SendCustomEvent" ["SystemString"] "SystemVoid"

structure Options where
  behaviourType : String := "VRCUdonUdonBehaviour"
  /-- How other programs are reached. -/
  remote : RemoteOperations := .standard
  /-- Event names of exported methods. -/
  events : List (String × String) :=
    [("Start", "_start"), ("Update", "_update"), ("LateUpdate", "_lateUpdate"),
      ("FixedUpdate", "_fixedUpdate"), ("Interact", "_interact"), ("OnEnable", "_onEnable"),
      ("OnDisable", "_onDisable")]
  /-- Event that runs what is left of the constructor before its own body. -/
  startEvent : String := "_start"
  sourceMap : Bool := true
  /-- Replace calls of trivial accessors by direct access to the field. -/
  inlineAccessors : Bool := true
deriving DecidableEq, Repr

namespace Options

/-- Map a method name to an event, replacing an earlier choice. -/
def withEvent (o : Options) (method event : String) : Options :=
  { o with events := o.events.filter (·.1 != method) ++ [(method, event)] }

def eventName? (o : Options) (method : String) : Option String := o.events.lookup method

end Options

end FlatHeap
