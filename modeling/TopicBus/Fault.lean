import TopicBus.Handle
/-!
# Faults

Why an operation is refused.  A fault is a cause with its figures, in three groups by the part of the bus that
refuses: the registry, a binding (or a transport over one), a buffer.  `Fault.message` is the only place that words
them; `Fault.kind` forgets the figures, and `Fault.ioKind` is the class under which byte-stream input and output
reports them.
-/
namespace TopicBus

/-- Why the registry refuses. -/
inductive RegistryFault
  /-- The handle was never issued, or its object is gone. -/
  | stale (key : Nat)
  /-- Live objects still refer to the object. -/
  | referenced (key dependents : Nat)
deriving DecidableEq

/-- Why a binding or a transport refuses. -/
inductive BindingFault
  | alreadyOpen
  | alreadyClosed
  | closed
  /-- A read that had to fill its buffer got nothing. -/
  | endOfStream
  /-- A write to a single recipient matched `found` of them. -/
  | recipients (found : Nat)
deriving DecidableEq

/-- A buffer was asked for more than its limit. -/
structure OverLimit where
  requested : Nat
  limit : Nat
deriving DecidableEq

inductive Fault
  | registry (cause : RegistryFault)
  | binding (cause : BindingFault)
  | buffer (cause : OverLimit)
deriving DecidableEq

/-- A fault without its figures. -/
inductive FaultKind
  | staleHandle
  | referencedByLiveObject
  | alreadyOpen
  | alreadyClosed
  | capacityExceeded
  | closed
  | endOfStream
  | recipientMismatch
deriving DecidableEq

/-- The classes that byte-stream input and output sorts faults into. -/
inductive IoKind
  | unexpectedEof
  | notConnected
  | alreadyExists
  | invalidInput
  | notFound
  | other
deriving DecidableEq

namespace RegistryFault

/-- The key that the fault is about. -/
def key : RegistryFault → Nat
  | .stale key => key
  | .referenced key _ => key

def message : RegistryFault → String
  | .stale key => "Stale handle: " ++ keyText key
  | .referenced key dependents =>
    keyText key ++ " is referenced by " ++ dependents.repr ++ " live object(s)"

end RegistryFault

def BindingFault.message : BindingFault → String
  | .alreadyOpen => "Already open"
  | .alreadyClosed => "Already closed"
  | .closed => "Binding is closed"
  | .endOfStream => "Unexpected end of stream"
  | .recipients found => "Monocast write matched " ++ found.repr ++ " subscribers, expected 1"

def OverLimit.message (cause : OverLimit) : String :=
  "Capacity " ++ cause.requested.repr ++ " exceeds limit " ++ cause.limit.repr

namespace Fault

@[match_pattern] abbrev alreadyOpen : Fault := .binding .alreadyOpen

@[match_pattern] abbrev alreadyClosed : Fault := .binding .alreadyClosed

@[match_pattern] abbrev closed : Fault := .binding .closed

@[match_pattern] abbrev endOfStream : Fault := .binding .endOfStream

/-- The text of the cause alone, without the group it belongs to. -/
def causeMessage : Fault → String
  | .registry cause => cause.message
  | .binding cause => cause.message
  | .buffer cause => cause.message

def message : Fault → String
  | .registry cause => "Registry error: " ++ cause.message
  | .binding cause => "Binding error: " ++ cause.message
  | .buffer cause => "Chunk error: " ++ cause.message

def kind : Fault → FaultKind
  | .registry (.stale _) => .staleHandle
  | .registry (.referenced _ _) => .referencedByLiveObject
  | .binding .alreadyOpen => .alreadyOpen
  | .binding .alreadyClosed => .alreadyClosed
  | .binding .closed => .closed
  | .binding .endOfStream => .endOfStream
  | .binding (.recipients _) => .recipientMismatch
  | .buffer _ => .capacityExceeded

/-- The key of the object that the registry refused over, if the registry did. -/
def registryKey? : Fault → Option Nat
  | .registry cause => some cause.key
  | _ => none

end Fault

def FaultKind.ioKind : FaultKind → IoKind
  | .endOfStream => .unexpectedEof
  | .closed => .notConnected
  | .alreadyClosed => .notConnected
  | .alreadyOpen => .alreadyExists
  | .capacityExceeded => .invalidInput
  | .staleHandle => .notFound
  | .referencedByLiveObject => .other
  | .recipientMismatch => .other

def Fault.ioKind (f : Fault) : IoKind := f.kind.ioKind

end TopicBus
