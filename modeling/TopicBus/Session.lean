import TopicBus.Bus
/-!
# Sessions

The side of the bus's users: under which names they keep bindings, transports and suspended reads.  Any number of names
may hold one binding; so does each suspended read of it, each transport that has it in its slot, and each call that was
begun on it.  When the last holder is gone the binding is closed (`Session.settle`).

A **transport** is a slot for a binding, with the options to open it from.  The slot may hold a binding that was closed
through another holder; the transport is open while the binding in its slot is.

A **call that was begun** is one that another thread has made and that has done nothing yet.  It holds its binding
whatever becomes of the name that it was made by.  Calls nest: one that begins during another is carried out before it.

A **call that waits** is a read of a thread that could not finish.  Its read stands in the line like that of a future,
under a number (`Session.nextCall`), and the thread gets on when the read is polled.  It cannot be dropped.
-/
namespace TopicBus

structure Transport where
  options : Options
  slot : Option BindingId
deriving DecidableEq

/-- A suspended read and the binding that it reads from. -/
structure Reader where
  binding : BindingId
  read : SuspendedRead
deriving DecidableEq

/-- A number above that of the call, if a call has the name. -/
def ReadName.bound : ReadName → Nat
  | .given _ => 0
  | .call number => number + 1

structure Session where
  bus : Bus
  /-- The bindings held by name. -/
  names : Table String BindingId
  reads : Table ReadName Reader
  transports : Table String Transport
  /-- The bindings of the calls that were begun, the latest first. -/
  calls : List BindingId
deriving DecidableEq

namespace Session

def new (config : Config) : Session := ⟨.new config, .empty, .empty, .empty, []⟩

/-- Whether anybody can still use the binding. -/
def isHeld (s : Session) (id : BindingId) : Bool :=
  s.names.values.any (· = id) || s.reads.values.any (·.binding = id) ||
    s.transports.values.any (·.slot = some id) || s.calls.any (· = id)

/-- After a holder of `id` is gone: closes the binding if it was the last one. -/
def settle (s : Session) (id : BindingId) : Session :=
  if s.isHeld id then s else { s with bus := (s.bus.close id).1 }

/-- The same for a holder that may have held nothing. -/
def settle? (s : Session) : Option BindingId → Session
  | none => s
  | some id => s.settle id

/-! ## Names -/

/-- Gives the binding `id` a name, and lets go of what had the name before. -/
def hold (s : Session) (name : String) (id : BindingId) : Session :=
  { s with names := s.names.insert name id }.settle? (s.names.get? name)

def drop (s : Session) (name : String) : Session :=
  { s with names := s.names.erase name }.settle? (s.names.get? name)

/-! ## Suspended reads -/

/-- A name that no suspended read has, for a call that has to wait. -/
def nextCall (s : Session) : ReadName := .call ((s.reads.keys.map ReadName.bound).foldr max 0)

/-- Drops a suspended read, if there is one of the name. -/
def cancel (s : Session) (name : ReadName) : Session :=
  match s.reads.get? name with
  | none => s
  | some reader =>
    { s with
      bus := (s.bus.onBinding reader.binding () (fun b => (b.cancel name, ()))).1
      reads := s.reads.erase name }.settle reader.binding

/-- Keeps what a poll left of a read of the binding `id`. -/
def keep (s : Session) (name : ReadName) (id : BindingId) (polled : Polled) : Session :=
  match polled.progress with
  | .ready _ => { s with bus := s.bus.put id polled.binding, reads := s.reads.erase name }.settle id
  | .pending read => { s with bus := s.bus.put id polled.binding, reads := s.reads.insert name ⟨id, read⟩ }

/-! ## Transports -/

/-- The binding in the slot, if it is open. -/
def live? (s : Session) (t : Transport) : Option BindingId := t.slot.filter (s.bus.isOpen ·)

/-- Puts a transport under a name, and lets go of what had the name before. -/
def install (s : Session) (name : String) (t : Transport) : Session :=
  { s with transports := s.transports.insert name t }.settle? ((s.transports.get? name).bind (·.slot))

/-- Fills the slot of a transport that is not open. -/
def openTransport (s : Session) (name : String) (t : Transport) : Session × Except Fault Unit :=
  if (s.live? t).isSome then (s, .error .alreadyOpen)
  else match s.bus.openBinding t.options with
  | (bus, .error fault) => ({ s with bus }, .error fault)
  | (bus, .ok id) =>
    ({ s with bus, transports := s.transports.insert name { t with slot := some id } }, .ok ())

/-- Closes the binding in the slot and empties the slot. -/
def closeTransport (s : Session) (name : String) (t : Transport) : Session × Except Fault Unit :=
  match t.slot with
  | none => (s, .error .alreadyClosed)
  | some id =>
    ({ s with
        bus := (s.bus.close id).1
        transports := s.transports.insert name { t with slot := none } }, (s.bus.close id).2)

/-- Makes a transport that is open from the start, or none. -/
def connect (s : Session) (name : String) (o : Options) : Session × Except Fault Unit :=
  match s.bus.openBinding o with
  | (bus, .error fault) => ({ s with bus }, .error fault)
  | (bus, .ok id) => ({ s with bus }.install name ⟨o, some id⟩, .ok ())

def dropTransport (s : Session) (name : String) : Session :=
  { s with transports := s.transports.erase name }.settle? ((s.transports.get? name).bind (·.slot))

end Session

end TopicBus
