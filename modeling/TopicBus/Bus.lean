import TopicBus.Registry
import TopicBus.Route
import TopicBus.Binding.Suspended
/-!
# The bus

The registry, the routes and the bindings together.  A binding is opened on the bus, sends chunks to the inboxes of
others, and is closed; the three views are kept in step by `openBinding` and `close`, the only operations that change
who is connected.

A binding that is closed stays in the table with its final traffic; the handles to it may outlive it.  A binding id that
was never issued is treated like that of a closed binding.

After `shutdown` no chunk moves any more.  The bindings stay open, with their inboxes disconnected: what had arrived can
still be read, and each gives up its references when it is closed.
-/
namespace TopicBus

structure Bus where
  config : Config
  registry : Registry
  routes : Routes
  /-- Every binding opened so far. -/
  bindings : Table BindingId Binding
  isShutDown : Bool
deriving DecidableEq

namespace Bus

def new (config : Config) : Bus := ⟨config, .empty, .empty, .empty, false⟩

/-- The bus with `b` as the binding `id`. -/
def put (bus : Bus) (id : BindingId) (b : Binding) : Bus := { bus with bindings := bus.bindings.insert id b }

/-- The binding `id` replaced by what `f` makes of it, with the answer of `f`. -/
def onBinding {α : Type} (bus : Bus) (id : BindingId) (absent : α) (f : Binding → Binding × α) : Bus × α :=
  match bus.bindings.get? id with
  | none => (bus, absent)
  | some b => (bus.put id (f b).1, (f b).2)

/-- Whether `id` names a binding that is open. -/
def isOpen (bus : Bus) (id : BindingId) : Bool := (bus.bindings.get? id).any (·.isOpen)

/-! ## Known objects -/

def create (bus : Bus) (what : NewObject) : Bus × Except Fault Object :=
  ({ bus with registry := (bus.registry.create what).1 }, (bus.registry.create what).2.mapError .registry)

def destroy (bus : Bus) (object : Object) : Bus × Except Fault Unit :=
  ({ bus with registry := (bus.registry.destroy object).1 }, (bus.registry.destroy object).2.mapError .registry)

/-! ## Opening and closing -/

/-- The buffers of a binding that is about to be opened. -/
def buffers (bus : Bus) (o : Options) : Except OverLimit (Buffer × Buffer) :=
  match Buffer.withCapacity o.readCapacity bus.config.chunkLimit with
  | .error cause => .error cause
  | .ok readBuffer =>
    match Buffer.withCapacity o.writeCapacity bus.config.chunkLimit with
    | .error cause => .error cause
    | .ok writeBuffer => .ok (readBuffer, writeBuffer)

/-- Opens a binding, or changes nothing. -/
def openBinding (bus : Bus) (o : Options) : Bus × Except Fault BindingId :=
  if bus.isShutDown then (bus, .error .closed)
  else match bus.buffers o with
  | .error cause => (bus, .error (.buffer cause))
  | .ok (readBuffer, writeBuffer) =>
    match bus.registry.acquire o.user o.topic o.target with
    | .error cause => (bus, .error (.registry cause))
    | .ok (registry, id, kind) =>
      ({ bus with
          registry
          routes := bus.routes.join o.topic id kind
          bindings := bus.bindings.insert id
            (.fresh ⟨id, o.user, kind, o.topic, o.target, o.delivery⟩ readBuffer writeBuffer) }, .ok id)

/-- Closes a binding: it leaves its route and gives up its references. -/
def close (bus : Bus) (id : BindingId) : Bus × Except Fault Unit :=
  match bus.bindings.get? id with
  | none => (bus, .error .alreadyClosed)
  | some b =>
    if b.isOpen then
      ({ bus with
          registry := bus.registry.release b.user b.topic
          routes := Routes.leave bus.routes b.topic id
          bindings := bus.bindings.insert id b.shut }, .ok ())
    else (bus, .error .alreadyClosed)

/-- Ends all routes; no chunk moves from now on. -/
def shutdown (bus : Bus) : Bus :=
  { bus with
    routes := .empty
    bindings := bus.bindings.mapValues (fun _ b => b.disconnect)
    isShutDown := true }

def topicStats (bus : Bus) (topic : Topic) : Option TopicStats := (bus.routes.get? topic).map (·.stats)

/-! ## Writing -/

/-- Puts a chunk into the inboxes of `targets` and counts those that take it. -/
def deliver (bus : Bus) (targets : List BindingId) (chunk : Bytes) : Bus × Nat :=
  ({ bus with bindings := bus.bindings.mapValues (fun id b => if id ∈ targets then b.enqueue chunk else b) },
    (targets.filter (fun id => (bus.bindings.get? id).any (·.readSide.isSome))).length)

/-- Sends a chunk to `targets` along the route of a topic. -/
def send (bus : Bus) (topic : Topic) (route : Route) (targets : List BindingId) (chunk : Bytes) : Bus × Nat :=
  ({ (bus.deliver targets chunk).1 with
      routes := bus.routes.insert topic (route.count (bus.deliver targets chunk).2) },
    (bus.deliver targets chunk).2)

/-- Publishes a chunk under the terms of its sender; the answer is how many inboxes took it. -/
def publish (bus : Bus) (sender : Terms) (chunk : Bytes) : Bus × Except Fault Nat :=
  if bus.isShutDown then (bus, .error .closed)
  else match bus.routes.get? sender.topic with
  | none =>
    match sender.delivery with
    | .multicast => (bus, .ok 0)
    | .monocast => (bus, .error (.binding (.recipients 0)))
  | some route =>
    if sender.delivery = .monocast ∧ (route.targets sender.id sender.target).length ≠ 1 then
      (bus, .error (.binding (.recipients (route.targets sender.id sender.target).length)))
    else (bus.send sender.topic route (route.targets sender.id sender.target) chunk).map id .ok

/-- Sends bytes from a binding; the answer is how many were sent. -/
def write (bus : Bus) (id : BindingId) (data : Bytes) : Bus × Except Fault Nat :=
  match bus.bindings.get? id with
  | none => (bus, .error .closed)
  | some b =>
    match b.stage data with
    | (_, .error fault) => (bus, .error fault)
    | (_, .ok none) => (bus, .ok 0)
    | (staged, .ok (some chunk)) =>
      match (bus.put id staged).publish b.toTerms chunk with
      | (bus, .error fault) => (bus, .error fault)
      | (bus, .ok _) =>
        ({ bus with bindings := bus.bindings.adjust id (·.countWrite data.length) }, .ok data.length)

/-! ## Reading -/

def read (bus : Bus) (id : BindingId) (wanted : Nat) : Bus × Except Halt Bytes :=
  bus.onBinding id (.error (.failed .closed)) (·.read bus.config.chunkLimit wanted)

def tryRead (bus : Bus) (id : BindingId) (wanted : Nat) : Bus × Except Fault (Option Bytes) :=
  bus.onBinding id (.error .closed) (·.tryRead bus.config.chunkLimit wanted)

def readAll (bus : Bus) (id : BindingId) (wanted : Nat) : Bus × Except Halt Bytes :=
  bus.onBinding id (.error (.failed .closed)) (fun b =>
    (b.readAll bus.config.chunkLimit wanted).result (.failed .endOfStream))

def flush (bus : Bus) (id : BindingId) : Except Fault Unit :=
  match bus.bindings.get? id with
  | none => .error .closed
  | some b => b.flush

end Bus

end TopicBus
