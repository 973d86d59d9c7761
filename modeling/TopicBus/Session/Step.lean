import TopicBus.Session
import TopicBus.Session.Op
/-!
# Steps and runs

The step that an operation makes, and runs: lists of operations carried out in order from a new session
(`Session.run`), so that a statement about every run is a statement about every list.

An operation on a name that is not in use is answered `noSuchObject` and changes nothing, and so is a call that nobody
began.  A read that has to wait for another operation is answered `blocked`.  It has a place in the line from then on,
and whoever made it waits for it there: the operations that follow are those of others.  Its thread gets on with `poll`,
which tells the plain result, whatever form the call gives to a result.
-/
namespace TopicBus

/-- The contents of a buffer of `size` zeros after `data` was read into its front. -/
def overwrite (size : Nat) (data : Bytes) : Bytes := data ++ List.replicate (size - data.length) 0

namespace Session

/-- Begins or goes on with a suspended read. -/
def advance (s : Session) (read : ReadName) (id : BindingId) (poll : Binding → Polled) : Session × Answer :=
  match s.bus.bindings.get? id with
  | none => (s, .noSuchObject)
  | some b => (s.keep read id (poll b), .ofProgress (poll b).progress)

/-- The session after a read of a call, with the answer.  A read that cannot finish takes its place in the line with
`begin`, under a name of its own. -/
def afterRead (s : Session) (id : BindingId) (begin : Binding → Option Nat → ReadName → Polled)
    (answer : Except Fault Bytes → Answer) : Bus × Except Halt Bytes → Session × Answer
  | (bus, .ok data) => ({ s with bus }, answer (.ok data))
  | (bus, .error (.failed fault)) => ({ s with bus }, answer (.error fault))
  | (_, .error (.waits _)) => ((s.advance s.nextCall id (begin · s.bus.config.chunkLimit s.nextCall)).1, .blocked)

/-- A read of up to `wanted` bytes by a call that is told of it as `answer` says. -/
def read (s : Session) (id : BindingId) (wanted : Nat) (answer : Except Fault Bytes → Answer) : Session × Answer :=
  s.afterRead id (·.startUpTo · · wanted) answer (s.bus.read id wanted)

/-- A read of exactly `wanted` bytes. -/
def readAll (s : Session) (id : BindingId) (wanted : Nat) (answer : Except Fault Bytes → Answer) : Session × Answer :=
  s.afterRead id (·.startExact · · wanted) answer (s.bus.readAll id wanted)

def taggedRead (wanted : Nat) : Except Fault Bytes → Answer
  | .ok data => .taggedRead (.of data.length wanted) data
  | .error fault => .taggedRead (.failed fault) []

/-! ## Steps -/

def stepBinding (s : Session) (id : BindingId) : BindingOp → Session × Answer
  | .read wanted => s.read id wanted (.ofExcept .bytes)
  | .readAll wanted => s.readAll id wanted (.ofExcept .bytes)
  | .tryRead wanted => ({ s with bus := (s.bus.tryRead id wanted).1 }, .ofExcept .perhaps (s.bus.tryRead id wanted).2)
  | .readTagged wanted => s.read id wanted (taggedRead wanted)
  | .write data => ({ s with bus := (s.bus.write id data).1 }, .ofExcept .count (s.bus.write id data).2)
  | .writeTagged data =>
    ({ s with bus := (s.bus.write id data).1 }, .transfer (.ofExcept (s.bus.write id data).2 data.length))
  | .flush => (s, .ofExcept (fun _ => .done) (s.bus.flush id))
  | .close => ({ s with bus := (s.bus.close id).1 }, .ofExcept (fun _ => .done) (s.bus.close id).2)
  | .isOpen => (s, .flag (s.bus.isOpen id))
  | .info => (s, .about (fun b => .info b.toTerms b.isOpen) (s.bus.bindings.get? id))
  | .traffic => (s, .about (fun b => .traffic b.traffic) (s.bus.bindings.get? id))
  | .readCapacity => (s, .about (fun b => .count b.readCapacity) (s.bus.bindings.get? id))
  | .writeCapacity => (s, .about (fun b => .count b.writeCapacity) (s.bus.bindings.get? id))

/-- An operation that the binding in the slot answers, if it is open. -/
def onLive (s : Session) (t : Transport) (closed : Answer) (f : BindingId → Session × Answer) : Session × Answer :=
  match s.live? t with
  | none => (s, closed)
  | some id => f id

def stepTransport (s : Session) (name : String) (t : Transport) : TransportOp → Session × Answer
  | .openBinding => ((s.openTransport name t).1, .ofExcept (fun _ => .done) (s.openTransport name t).2)
  | .closeBinding => ((s.closeTransport name t).1, .ofExcept (fun _ => .done) (s.closeTransport name t).2)
  | .isOpen => (s, .flag (s.live? t).isSome)
  | .options => (s, .options t.options)
  | .read wanted => s.onLive t (.failed .closed) (s.stepBinding · (.read wanted))
  | .readAll wanted => s.onLive t (.failed .closed) (s.stepBinding · (.readAll wanted))
  | .write data => s.onLive t (.failed .closed) (s.stepBinding · (.write data))
  | .flush => s.onLive t (.failed .closed) (s.stepBinding · .flush)
  | .ioRead size =>
    if size = 0 then (s, .filled 0 [])
    else s.onLive t (.ioFailed .closed)
      (s.read · size (.ofIo (fun data => .filled data.length (overwrite size data))))
  | .ioReadExact size =>
    if size = 0 then (s, .bytes [])
    else s.onLive t (.ioFailed .closed) (s.readAll · size (.ofIo .bytes))
  | .ioWrite data =>
    s.onLive t (.ioFailed .closed) (fun id =>
      ({ s with bus := (s.bus.write id data).1 }, .ofIo .count (s.bus.write id data).2))
  | .ioFlush => s.onLive t (.ioFailed .closed) (fun id => (s, .ofIo (fun _ => .done) (s.bus.flush id)))

/-- Carries out the latest call, on the binding `id`, and lets go of the binding; a read that waits for it holds it. -/
def endCall (s : Session) (id : BindingId) (earlier : List BindingId) (op : BindingOp) : Session × Answer :=
  ({ (s.stepBinding id op).1 with calls := earlier }.settle id, (s.stepBinding id op).2)

/-- Applies `f` to what a name stands for, if it stands for anything. -/
def named {κ α : Type} [DecidableEq κ] (s : Session) (table : Table κ α) (name : κ) (f : α → Session × Answer) :
    Session × Answer :=
  match table.get? name with
  | none => (s, .noSuchObject)
  | some a => f a

def step (s : Session) : Op → Session × Answer
  | .create what => ({ s with bus := (s.bus.create what).1 }, .ofExcept .object (s.bus.create what).2)
  | .createTagged what => ({ s with bus := (s.bus.create what).1 }, .created (.ofExcept (s.bus.create what).2))
  | .destroy object => ({ s with bus := (s.bus.destroy object).1 }, .ofExcept (fun _ => .done) (s.bus.destroy object).2)
  | .destroyTagged object =>
    ({ s with bus := (s.bus.destroy object).1 }, .destroyed (.ofExcept (s.bus.destroy object).2))
  | .has object => (s, .flag (s.bus.registry.contains object))
  | .kindOf user =>
    (s, match s.bus.registry.kindOf user with
      | .ok kind => .object (.kind kind)
      | .error fault => .registryFailed fault)
  | .live => (s, .count s.bus.registry.live.total)
  | .topicStats topic => (s, .topicStats (s.bus.topicStats topic))
  | .config => (s, .config s.bus.config)
  | .shutdown => ({ s with bus := s.bus.shutdown }, .done)
  | .isShutDown => (s, .flag s.bus.isShutDown)
  | .openBinding name options =>
    match s.bus.openBinding options with
    | (bus, .error fault) => ({ s with bus }, .failed fault)
    | (bus, .ok id) => ({ s with bus }.hold name id,
        .about (fun b => .opened b.toTerms b.readCapacity b.writeCapacity) (bus.bindings.get? id))
  | .onBinding name op => s.named s.names name (s.stepBinding · op)
  | .share name other => s.named s.names name (fun id => (s.hold other id, .done))
  | .drop name => s.named s.names name (fun _ => (s.drop name, .done))
  | .beginCall name => s.named s.names name (fun id => ({ s with calls := id :: s.calls }, .done))
  | .endCall op =>
    match s.calls with
    | [] => (s, .noSuchObject)
    | id :: earlier => s.endCall id earlier op
  | .start name read wanted =>
    s.named s.names name (fun id =>
      (s.cancel read).advance read id (·.startUpTo s.bus.config.chunkLimit read wanted))
  | .startAll name read wanted =>
    s.named s.names name (fun id =>
      (s.cancel read).advance read id (·.startExact s.bus.config.chunkLimit read wanted))
  | .poll read =>
    s.named s.reads read (fun r => s.advance read r.binding (·.poll s.bus.config.chunkLimit read r.read))
  | .cancel read => s.named s.reads (read : ReadName) (fun _ => (s.cancel read, .done))
  | .newTransport transport options => (s.install transport ⟨options, none⟩, .options options)
  | .connect transport options =>
    ((s.connect transport options).1, .ofExcept (fun _ => .options options) (s.connect transport options).2)
  | .onTransport transport op => s.named s.transports transport (s.stepTransport transport · op)
  | .dropTransport transport => s.named s.transports transport (fun _ => (s.dropTransport transport, .done))
  | .shareTransport transport name =>
    s.named s.transports transport (fun t =>
      s.onLive t .noBinding (fun id =>
        (s.hold name id, .about (fun b => .info b.toTerms b.isOpen) (s.bus.bindings.get? id))))

/-! ## Runs -/

/-- The session after operations in order. -/
def run (s : Session) (ops : List Op) : Session := ops.foldl (fun s op => (s.step op).1) s

/-- The answers to operations in order. -/
def answers (s : Session) : List Op → List Answer
  | [] => []
  | op :: rest => (s.step op).2 :: (s.step op).1.answers rest

end Session

end TopicBus
