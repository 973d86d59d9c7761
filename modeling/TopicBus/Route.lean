import TopicBus.Handle
import TopicBus.Table
/-!
# Routes

The bus's view of one topic: who is connected to it, each with the kind of its user, and how much has passed since the
route began.  A route begins when the first binding on a topic is opened and ends when the last one is closed, so its
figures are about the bindings of one such span.  A table of routes never keeps an empty one.
-/
namespace TopicBus

structure Route where
  subscribers : Table BindingId Kind
  /-- Chunks published. -/
  published : Nat
  /-- Chunks put into inboxes, one for each recipient. -/
  deliveries : Nat
deriving DecidableEq

structure TopicStats where
  bindings : Nat
  /-- Distinct kinds among the users of the bindings. -/
  kinds : Nat
  published : Nat
  deliveries : Nat
deriving DecidableEq

namespace Route

def empty : Route := ⟨.empty, 0, 0⟩

/-- Those that a write from `sender` to the kind `target` is for. -/
def targets (r : Route) (sender : BindingId) (target : Kind) : List BindingId :=
  (r.subscribers.filter (fun id kind => id ≠ sender && kind = target)).keys

def add (r : Route) (id : BindingId) (kind : Kind) : Route := { r with subscribers := r.subscribers.insert id kind }

def remove (r : Route) (id : BindingId) : Route := { r with subscribers := r.subscribers.erase id }

/-- Counts a chunk that went to `delivered` inboxes. -/
def count (r : Route) (delivered : Nat) : Route :=
  { r with published := r.published + 1, deliveries := r.deliveries + delivered }

def stats (r : Route) : TopicStats :=
  ⟨r.subscribers.size, r.subscribers.values.eraseDups.length, r.published, r.deliveries⟩

end Route

abbrev Routes := Table Topic Route

namespace Routes

/-- Adds a binding to the route of its topic, which begins with it if there is none. -/
def join (routes : Routes) (topic : Topic) (id : BindingId) (kind : Kind) : Routes :=
  routes.insert topic (((routes.get? topic).getD .empty).add id kind)

/-- Removes a binding from the route of its topic, which ends with its last binding. -/
def leave (routes : Routes) (topic : Topic) (id : BindingId) : Routes :=
  match routes.get? topic with
  | none => routes
  | some route =>
    if (route.remove id).subscribers.size = 0 then routes.erase topic
    else routes.insert topic (route.remove id)

end Routes

end TopicBus
