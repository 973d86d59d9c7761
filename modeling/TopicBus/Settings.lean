import TopicBus.Handle
/-!
# Settings

What a bus is set up with, and what a binding is opened with.
-/
namespace TopicBus

/-- The room of a buffer when nothing else is asked for. -/
def defaultCapacity : Nat := 4096

structure Config where
  /-- The most that any buffer can be asked to hold. -/
  chunkLimit : Option Nat := none
  readCapacity : Nat := defaultCapacity
  writeCapacity : Nat := defaultCapacity
deriving DecidableEq

namespace Config

def withLimit (c : Config) (most : Nat) : Config := { c with chunkLimit := some most }

def unbounded (c : Config) : Config := { c with chunkLimit := none }

def withCapacities (c : Config) (read write : Nat) : Config :=
  { c with readCapacity := read, writeCapacity := write }

end Config

/-- What a read that asks for `wanted` bytes may fetch at once: no more than the limit, and at least one byte. -/
def clampRead (limit : Option Nat) (wanted : Nat) : Nat :=
  match limit with
  | none => wanted
  | some most => min wanted (max most 1)

/-- How many recipients a write must reach. -/
inductive Delivery
  /-- Any number; with none, the chunk is dropped. -/
  | multicast
  /-- Exactly one. -/
  | monocast
deriving DecidableEq

/-- What a binding is opened with: who reads and writes, on which topic, and to whom. -/
structure Options where
  user : User
  topic : Topic
  target : Kind
  readCapacity : Nat := defaultCapacity
  writeCapacity : Nat := defaultCapacity
  delivery : Delivery := .multicast
deriving DecidableEq

namespace Options

def withReadCapacity (o : Options) (capacity : Nat) : Options := { o with readCapacity := capacity }

def withWriteCapacity (o : Options) (capacity : Nat) : Options := { o with writeCapacity := capacity }

def withCapacities (o : Options) (read write : Nat) : Options :=
  (o.withReadCapacity read).withWriteCapacity write

def withDelivery (o : Options) (delivery : Delivery) : Options := { o with delivery }

/-- Every write must have exactly one recipient. -/
def monocast (o : Options) : Options := o.withDelivery .monocast

end Options

/-- Options with the capacities that the bus was set up with. -/
def Config.options (c : Config) (user : User) (topic : Topic) (target : Kind) : Options :=
  { user, topic, target, readCapacity := c.readCapacity, writeCapacity := c.writeCapacity }

end TopicBus
