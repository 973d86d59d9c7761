import TopicBus.Fault
/-!
# Tagged outcomes

For callers at a boundary that has to report what became of an operation: an object was created or not, it was
destroyed or not, a transfer moved all of its bytes, some of them, or failed.  Each form is made from a result and
gives the result back (`Creation.toExcept_ofExcept`, `Destruction.toExcept_ofExcept`, `Transfer.toExcept_ofExcept`),
so a caller loses nothing by asking for the tag.
-/
namespace TopicBus

inductive Creation (α : Type)
  | created (value : α)
  | failed (fault : Fault)
deriving DecidableEq

namespace Creation

variable {α : Type}

def ofExcept : Except Fault α → Creation α
  | .ok value => .created value
  | .error fault => .failed fault

def toExcept : Creation α → Except Fault α
  | .created value => .ok value
  | .failed fault => .error fault

def value? : Creation α → Option α
  | .created value => some value
  | .failed _ => none

def isCreated (c : Creation α) : Bool := c.value?.isSome

@[simp] theorem toExcept_ofExcept (r : Except Fault α) : (ofExcept r).toExcept = r := by
  cases r <;> rfl

end Creation

inductive Destruction
  | succeeded
  | failed (fault : Fault)
deriving DecidableEq

namespace Destruction

def ofExcept : Except Fault Unit → Destruction
  | .ok () => .succeeded
  | .error fault => .failed fault

def toExcept : Destruction → Except Fault Unit
  | .succeeded => .ok ()
  | .failed fault => .error fault

def isSucceeded : Destruction → Bool
  | .succeeded => true
  | .failed _ => false

@[simp] theorem toExcept_ofExcept (r : Except Fault Unit) : (ofExcept r).toExcept = r := by
  cases r <;> rfl

end Destruction

inductive Transfer
  /-- All bytes were moved. -/
  | complete (transferred : Nat)
  /-- Fewer bytes were moved than asked for. -/
  | short (transferred requested : Nat)
  | failed (fault : Fault)
deriving DecidableEq

namespace Transfer

def of (transferred requested : Nat) : Transfer :=
  if requested ≤ transferred then .complete transferred else .short transferred requested

def ofExcept (r : Except Fault Nat) (requested : Nat) : Transfer :=
  match r with
  | .ok transferred => of transferred requested
  | .error fault => .failed fault

def toExcept : Transfer → Except Fault Nat
  | .complete transferred => .ok transferred
  | .short transferred _ => .ok transferred
  | .failed fault => .error fault

/-- The bytes moved; a transfer that failed moved none. -/
def transferred : Transfer → Nat
  | .complete n => n
  | .short n _ => n
  | .failed _ => 0

def isFailed : Transfer → Bool
  | .failed _ => true
  | _ => false

@[simp] theorem toExcept_of (transferred requested : Nat) :
    (of transferred requested).toExcept = .ok transferred := by
  unfold of; split <;> rfl

@[simp] theorem toExcept_ofExcept (r : Except Fault Nat) (requested : Nat) :
    (ofExcept r requested).toExcept = r := by
  cases r with
  | ok n => exact toExcept_of n requested
  | error f => rfl

end Transfer

end TopicBus
