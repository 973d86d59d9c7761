import TopicBus.ReadSide
import TopicBus.ExactRead
import TopicBus.Settings
/-!
# Bindings

A binding is a user's connection to a topic: a read side for the chunks sent to it, a buffer for the chunks it sends,
and counters of its traffic.  This module has the record and everything that a read does to it; the bus moves chunks
between bindings.

**One reader at a time.**  A read needs the read side to itself.  Reads that cannot finish stay suspended, whether a
future is polled or the thread of a call waits, and stand in a line in the order in which they came; the first in the
line holds the read side.  A read that finds the line empty needs no place in it unless it has to wait.

**Two halves of a read.**  `prepare` sizes the buffer and tells whether there are bytes to go on with; if there are
none, the reader turns to the inbox (`await`).  `collect` gathers the bytes.  The binding may be closed between the
halves, so both look.

**Closing.**  A closed binding gives its read side up as soon as no read holds it: at once if the line is empty, and
otherwise when a reader leaves and finds the line empty (`releaseIfClosed`).
-/
namespace TopicBus

/-- What a binding was opened as; it never changes. -/
structure Terms where
  id : BindingId
  user : User
  /-- The kind of the user, at which writes are aimed. -/
  kind : Kind
  topic : Topic
  /-- The kind that this binding writes to. -/
  target : Kind
  delivery : Delivery
deriving DecidableEq

structure Traffic where
  bytesRead : Nat := 0
  bytesWritten : Nat := 0
  chunksRead : Nat := 0
  chunksWritten : Nat := 0
deriving DecidableEq

namespace Traffic

def onRead (t : Traffic) (bytes chunks : Nat) : Traffic :=
  { t with bytesRead := t.bytesRead + bytes, chunksRead := t.chunksRead + chunks }

def onWrite (t : Traffic) (bytes : Nat) : Traffic :=
  { t with bytesWritten := t.bytesWritten + bytes, chunksWritten := t.chunksWritten + 1 }

end Traffic

/-- The name of a suspended read: the one that its user gave it, or the number of a call that waits. -/
inductive ReadName
  | given (name : String)
  | call (number : Nat)
deriving DecidableEq

instance : Coe String ReadName := ⟨.given⟩

structure Binding extends Terms where
  isOpen : Bool
  readSide : Option ReadSide
  writeSide : Option Buffer
  /-- The room of the read buffer as others see it; nothing once the read side is given up. -/
  readCapacity : Nat
  writeCapacity : Nat
  traffic : Traffic
  /-- The names of the suspended reads; the first holds the read side. -/
  line : List ReadName
deriving DecidableEq

/-- Where a read that cannot finish stands. -/
inductive Phase
  /-- In the line, without having looked at the read side. -/
  | inLine
  /-- Holding the read side, with the buffer ready, until a chunk comes. -/
  | atInbox
deriving DecidableEq

/-- Why a read has no bytes to give. -/
inductive Halt
  | failed (fault : Fault)
  | waits (phase : Phase)
deriving DecidableEq

namespace Binding

/-- A binding that has just been opened. -/
def fresh (terms : Terms) (readBuffer writeBuffer : Buffer) : Binding :=
  { terms with
    isOpen := true
    readSide := some ⟨readBuffer, [], [], true⟩
    writeSide := some writeBuffer
    readCapacity := readBuffer.capacity
    writeCapacity := writeBuffer.capacity
    traffic := {}
    line := [] }

/-- The bytes still to be read. -/
def stream (b : Binding) : Bytes :=
  match b.readSide with
  | none => []
  | some side => side.stream

def enqueue (b : Binding) (chunk : Bytes) : Binding :=
  { b with readSide := b.readSide.map (·.enqueue chunk) }

def disconnect (b : Binding) : Binding :=
  { b with readSide := b.readSide.map (·.disconnect) }

/-! ## Giving up the sides -/

def releaseReadSide (b : Binding) : Binding :=
  match b.readSide with
  | none => b
  | some _ => { b with readSide := none, readCapacity := 0 }

def releaseWriteSide (b : Binding) : Binding :=
  match b.writeSide with
  | none => b
  | some _ => { b with writeSide := none, writeCapacity := 0 }

/-- The last thing every reader does. -/
def releaseIfClosed (b : Binding) : Binding :=
  if !b.isOpen && b.line.isEmpty then b.releaseReadSide else b

/-- What closing does to the binding itself. -/
def shut (b : Binding) : Binding :=
  { b with isOpen := false }.disconnect.releaseWriteSide.releaseIfClosed

/-! ## The two halves of a read -/

/-- Sizes and empties the buffer; the answer is whether there is nothing pending, so that the reader needs a chunk. -/
def prepare (b : Binding) (wanted : Nat) : Binding × Except Fault Bool :=
  if !b.isOpen then (b.releaseReadSide, .error .closed)
  else match b.readSide with
  | none => (b, .error .closed)
  | some side =>
    match side.buffer.ensure wanted with
    | .error cause => (b, .error (.buffer cause))
    | .ok buffer =>
      ({ b with
          readSide := some { side with buffer := buffer.clear }
          readCapacity := buffer.capacity }, .ok side.pending.isEmpty)

/-- Takes a chunk from the inbox. -/
def receive (b : Binding) : Binding × Arrival :=
  match b.readSide with
  | none => (b, .disconnected)
  | some side => ({ b with readSide := some side.receive.1 }, side.receive.2)

/-- Gathers and takes the bytes, `received` chunks having been taken from the inbox already. -/
def collect (b : Binding) (wanted received : Nat) : Binding × Except Fault Bytes :=
  if !b.isOpen then (b.releaseReadSide, .error .closed)
  else match b.readSide with
  | none => (b, .error .closed)
  | some side =>
    match side.gather wanted with
    | (side, .error cause) => ({ b with readSide := some side }, .error (.buffer cause))
    | (side, .ok chunks) =>
      ({ b with
          readSide := some { side with buffer := side.buffer.take.2 }
          traffic := b.traffic.onRead side.buffer.take.1.length (received + chunks) }, .ok side.buffer.take.1)

/-- Makes a chunk from the inbox the pending one. -/
def hold (b : Binding) (chunk : Bytes) : Binding :=
  { b with readSide := b.readSide.map (fun side => { side with pending := chunk }) }

/-- Goes on with what the inbox has. -/
def await (b : Binding) (wanted : Nat) : Binding × Except Halt Bytes :=
  match b.receive with
  | (b, .chunk data) => ((b.hold data).collect wanted 1).map id (·.mapError .failed)
  | (b, .nothingYet) => (b, .error (.waits .atInbox))
  | (b, .disconnected) => (b.releaseReadSide, .error (.failed .closed))

/-- What a read of `wanted` bytes does once it has the read side to itself. -/
def fetch (b : Binding) (wanted : Nat) : Binding × Except Halt Bytes :=
  match b.prepare wanted with
  | (b, .error fault) => (b, .error (.failed fault))
  | (b, .ok true) => b.await wanted
  | (b, .ok false) => (b.collect wanted 0).map id (·.mapError .failed)

/-! ## Reads that do not stay suspended -/

/-- A read that waits for bytes, up to the point where the reader leaves. -/
def readOnce (b : Binding) (limit : Option Nat) (wanted : Nat) : Binding × Except Halt Bytes :=
  if !b.isOpen then (b, .error (.failed .closed))
  else if wanted = 0 then (b, .ok [])
  else if !b.line.isEmpty then (b, .error (.waits .inLine))
  else b.fetch (clampRead limit wanted)

/-- A read that waits for bytes.  Halting with `waits` means that it cannot finish in this state. -/
def read (b : Binding) (limit : Option Nat) (wanted : Nat) : Binding × Except Halt Bytes :=
  ((b.readOnce limit wanted).1.releaseIfClosed, (b.readOnce limit wanted).2)

/-- An immediate read: some bytes, or none if nothing has come or another read holds the read side. -/
def tryRead (b : Binding) (limit : Option Nat) (wanted : Nat) : Binding × Except Fault (Option Bytes) :=
  match b.read limit wanted with
  | (b, .ok data) => (b, .ok (some data))
  | (b, .error (.waits _)) => (b, .ok none)
  | (b, .error (.failed fault)) => (b, .error fault)

/-- Reads exactly `wanted` bytes. -/
def readAll (b : Binding) (limit : Option Nat) (wanted : Nat) : ExactRead.Outcome Binding Halt :=
  ExactRead.run (fun b wanted => b.read limit wanted) b wanted

/-! ## Writing -/

/-- Passes the bytes of a write through the write buffer: the chunk to be published, or none for an empty write. -/
def stage (b : Binding) (data : Bytes) : Binding × Except Fault (Option Bytes) :=
  if !b.isOpen then (b, .error .closed)
  else if data.isEmpty then (b, .ok none)
  else match b.writeSide with
  | none => (b, .error .closed)
  | some buffer =>
    match buffer.fill data with
    | .error cause => (b, .error (.buffer cause))
    | .ok buffer =>
      ({ b with writeSide := some buffer.split.2, writeCapacity := buffer.capacity }, .ok (some buffer.split.1))

/-- Counts a chunk that was published. -/
def countWrite (b : Binding) (bytes : Nat) : Binding := { b with traffic := b.traffic.onWrite bytes }

def flush (b : Binding) : Except Fault Unit := if b.isOpen then .ok () else .error .closed

end Binding

end TopicBus
