import TopicBus.Handle
import TopicBus.Fault
import TopicBus.Table
/-!
# The registry

Who is known: the live kinds, users and topics, and how many live objects refer to each.  A kind is referred to by its
users; a user and a topic by the open bindings that name them.  Nothing is destroyed while it is referred to, so a
handle in use never dangles.

The registry counts the referring objects and does not list them.  `create` and `destroy` keep the counts of kinds;
`acquire` and `release`, called when a binding opens and closes, keep those of users and topics.  A call that is refused
changes nothing and issues no key.
-/
namespace TopicBus

structure UserEntry where
  kind : Kind
  bindings : Nat
deriving DecidableEq

structure Registry where
  nextKey : Nat
  /-- The live kinds, with their numbers of users. -/
  kinds : Table Kind Nat
  users : Table User UserEntry
  /-- The live topics, with their numbers of open bindings. -/
  topics : Table Topic Nat
  openBindings : Nat
deriving DecidableEq

/-- How many objects of each sort are live. -/
structure LiveCounts where
  kinds : Nat
  users : Nat
  topics : Nat
  bindings : Nat
deriving DecidableEq

def LiveCounts.total (c : LiveCounts) : Nat := c.kinds + c.users + c.topics + c.bindings

namespace Registry

def empty : Registry := ⟨1, .empty, .empty, .empty, 0⟩

/-! ## Creating -/

def createKind (r : Registry) : Registry × Kind :=
  ({ r with nextKey := r.nextKey + 1, kinds := r.kinds.insert ⟨r.nextKey⟩ 0 }, ⟨r.nextKey⟩)

def createUser (r : Registry) (kind : Kind) : Registry × Except RegistryFault User :=
  if r.kinds.contains kind then
    ({ r with
        nextKey := r.nextKey + 1
        users := r.users.insert ⟨r.nextKey⟩ ⟨kind, 0⟩
        kinds := r.kinds.adjust kind (· + 1) }, .ok ⟨r.nextKey⟩)
  else (r, .error (.stale kind.key))

def createTopic (r : Registry) : Registry × Topic :=
  ({ r with nextKey := r.nextKey + 1, topics := r.topics.insert ⟨r.nextKey⟩ 0 }, ⟨r.nextKey⟩)

/-! ## Destroying -/

/-- What stands in the way of destroying the object `key`, given the number of objects that refer to it. -/
def obstacle (key : Nat) : Option Nat → Except RegistryFault Unit
  | none => .error (.stale key)
  | some 0 => .ok ()
  | some dependents => .error (.referenced key dependents)

def destroyKind (r : Registry) (kind : Kind) : Registry × Except RegistryFault Unit :=
  match obstacle kind.key (r.kinds.get? kind) with
  | .error fault => (r, .error fault)
  | .ok () => ({ r with kinds := r.kinds.erase kind }, .ok ())

def destroyUser (r : Registry) (user : User) : Registry × Except RegistryFault Unit :=
  match r.users.get? user with
  | none => (r, .error (.stale user.key))
  | some entry =>
    match obstacle user.key (some entry.bindings) with
    | .error fault => (r, .error fault)
    | .ok () =>
      ({ r with users := r.users.erase user, kinds := r.kinds.adjust entry.kind (· - 1) }, .ok ())

def destroyTopic (r : Registry) (topic : Topic) : Registry × Except RegistryFault Unit :=
  match obstacle topic.key (r.topics.get? topic) with
  | .error fault => (r, .error fault)
  | .ok () => ({ r with topics := r.topics.erase topic }, .ok ())

/-! ## Looking up -/

def kindOf (r : Registry) (user : User) : Except RegistryFault Kind :=
  match r.users.get? user with
  | none => .error (.stale user.key)
  | some entry => .ok entry.kind

def live (r : Registry) : LiveCounts := ⟨r.kinds.size, r.users.size, r.topics.size, r.openBindings⟩

/-! ## References held by open bindings -/

/-- Counts a new binding of `user` on `topic` that writes to `target`, and gives its id and the kind of its user. -/
def acquire (r : Registry) (user : User) (topic : Topic) (target : Kind) :
    Except RegistryFault (Registry × BindingId × Kind) :=
  match r.users.get? user with
  | none => .error (.stale user.key)
  | some entry =>
    if !r.topics.contains topic then .error (.stale topic.key)
    else if !r.kinds.contains target then .error (.stale target.key)
    else .ok ({ r with
      nextKey := r.nextKey + 1
      users := r.users.adjust user (fun e => { e with bindings := e.bindings + 1 })
      topics := r.topics.adjust topic (· + 1)
      openBindings := r.openBindings + 1 }, ⟨r.nextKey⟩, entry.kind)

/-- Gives up what `acquire` counted. -/
def release (r : Registry) (user : User) (topic : Topic) : Registry :=
  { r with
    users := r.users.adjust user (fun e => { e with bindings := e.bindings - 1 })
    topics := r.topics.adjust topic (· - 1)
    openBindings := r.openBindings - 1 }

end Registry

/-! ## Any object

The same calls for whichever sort of object; a program that serves requests has no other way to name one. -/

/-- An object that the registry keeps. -/
inductive Object
  | kind (handle : Kind)
  | user (handle : User)
  | topic (handle : Topic)
deriving DecidableEq

namespace Object

def key : Object → Nat
  | .kind handle => handle.key
  | .user handle => handle.key
  | .topic handle => handle.key

def text : Object → String
  | .kind handle => handle.text
  | .user handle => handle.text
  | .topic handle => handle.text

end Object

/-- What to create. -/
inductive NewObject
  | kind
  | user (kind : Kind)
  | topic
deriving DecidableEq

namespace Registry

def create (r : Registry) : NewObject → Registry × Except RegistryFault Object
  | .kind => (r.createKind.1, .ok (.kind r.createKind.2))
  | .user kind => ((r.createUser kind).1, (r.createUser kind).2.map .user)
  | .topic => (r.createTopic.1, .ok (.topic r.createTopic.2))

def destroy (r : Registry) : Object → Registry × Except RegistryFault Unit
  | .kind handle => r.destroyKind handle
  | .user handle => r.destroyUser handle
  | .topic handle => r.destroyTopic handle

def contains (r : Registry) : Object → Bool
  | .kind handle => r.kinds.contains handle
  | .user handle => r.users.contains handle
  | .topic handle => r.topics.contains handle

end Registry

end TopicBus
