import TopicBus.Bus
import TopicBus.Outcome
/-!
# Operations and answers

Everything that the users of a bus can ask for, as one type of operations, and what they are told, as one type of
answers.  Operations name bindings, transports and suspended reads by the names their users gave them.
-/
namespace TopicBus

/-- What can be asked of a binding. -/
inductive BindingOp
  | read (wanted : Nat)
  | readAll (wanted : Nat)
  | tryRead (wanted : Nat)
  | readTagged (wanted : Nat)
  | write (data : Bytes)
  | writeTagged (data : Bytes)
  | flush
  | close
  | isOpen
  | info
  | traffic
  | readCapacity
  | writeCapacity
deriving DecidableEq

/-- What can be asked of a transport.  The last four are its byte-stream face. -/
inductive TransportOp
  | openBinding
  | closeBinding
  | isOpen
  | options
  | read (wanted : Nat)
  | readAll (wanted : Nat)
  | write (data : Bytes)
  | flush
  | ioRead (size : Nat)
  | ioReadExact (size : Nat)
  | ioWrite (data : Bytes)
  | ioFlush
deriving DecidableEq

inductive Op
  | create (what : NewObject)
  | createTagged (what : NewObject)
  | destroy (object : Object)
  | destroyTagged (object : Object)
  | has (object : Object)
  | kindOf (user : User)
  | live
  | topicStats (topic : Topic)
  | config
  | shutdown
  | isShutDown
  /-- Opens a binding and names it. -/
  | openBinding (name : String) (options : Options)
  | onBinding (name : String) (op : BindingOp)
  /-- Gives a binding another name. -/
  | share (name other : String)
  | drop (name : String)
  /-- Begins a call on the binding `name`. -/
  | beginCall (name : String)
  /-- Carries out the latest call, which asks `op` of its binding. -/
  | endCall (op : BindingOp)
  /-- Begins the read `read` of the binding `name`. -/
  | start (name read : String) (wanted : Nat)
  | startAll (name read : String) (wanted : Nat)
  /-- Goes on with a suspended read: a future is polled, or the thread of a call that waits gets on. -/
  | poll (read : ReadName)
  | cancel (read : String)
  | newTransport (transport : String) (options : Options)
  | connect (transport : String) (options : Options)
  | onTransport (transport : String) (op : TransportOp)
  | dropTransport (transport : String)
  /-- Names the binding in the slot of a transport, if it is open. -/
  | shareTransport (transport name : String)
deriving DecidableEq

inductive Answer
  | done
  | count (n : Nat)
  | flag (holds : Bool)
  | object (object : Object)
  | bytes (data : Bytes)
  /-- What an immediate read got, if anything. -/
  | perhaps (data : Option Bytes)
  | created (outcome : Creation Object)
  | destroyed (outcome : Destruction)
  | transfer (outcome : Transfer)
  | taggedRead (outcome : Transfer) (data : Bytes)
  | topicStats (stats : Option TopicStats)
  | config (config : Config)
  | options (options : Options)
  | opened (terms : Terms) (readCapacity writeCapacity : Nat)
  | info (terms : Terms) (isOpen : Bool)
  | noBinding
  | traffic (traffic : Traffic)
  /-- The bytes read and the whole buffer they were read into. -/
  | filled (count : Nat) (buffer : Bytes)
  /-- The suspended read finished. -/
  | ready (result : Except Fault Bytes)
  | pending
  | failed (fault : Fault)
  | registryFailed (fault : RegistryFault)
  | ioFailed (fault : Fault)
  | noSuchObject
  /-- The call has to wait; what its read comes to is told when that is ready. -/
  | blocked

namespace Answer

def ofExcept {α : Type} (answer : α → Answer) : Except Fault α → Answer
  | .ok a => answer a
  | .error fault => .failed fault

def ofIo {α : Type} (answer : α → Answer) : Except Fault α → Answer
  | .ok a => answer a
  | .error fault => .ioFailed fault

def ofProgress : Progress → Answer
  | .ready result => .ready result
  | .pending _ => .pending

/-- What is told about a binding. -/
def about (tell : Binding → Answer) : Option Binding → Answer
  | some b => tell b
  | none => .noSuchObject

end Answer

end TopicBus
