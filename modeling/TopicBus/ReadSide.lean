import TopicBus.Buffer
/-!
# The read side of a binding

Chunks sent to a binding wait in its inbox, oldest first.  A read moves bytes into a buffer: first the rest of a chunk
that an earlier read did not finish (`pending`), then chunk after chunk, until the buffer holds as many bytes as were
asked for or nothing is left.  So the bytes still to be read are `pending` followed by the queued chunks
(`ReadSide.stream`), and no read changes their order.

An inbox stays connected while the bus may still put chunks into it.  The queue of an inbox that was disconnected is
still read to its end; only then does the reader learn of it.
-/
namespace TopicBus

structure ReadSide where
  buffer : Buffer
  /-- What is left of the chunk that was read last. -/
  pending : Bytes
  /-- The chunks that wait, oldest first. -/
  queue : List Bytes
  /-- Whether chunks may still come. -/
  connected : Bool
deriving DecidableEq

/-- What the inbox has for a reader that needs a chunk. -/
inductive Arrival
  | chunk (data : Bytes)
  | nothingYet
  | disconnected
deriving DecidableEq

namespace ReadSide

/-- The bytes still to be read. -/
def stream (s : ReadSide) : Bytes := s.pending ++ s.queue.flatten

/-- Takes the oldest chunk out of the inbox. -/
def receive (s : ReadSide) : ReadSide × Arrival :=
  match s.queue with
  | chunk :: rest => ({ s with queue := rest }, .chunk chunk)
  | [] => (s, if s.connected then .nothingYet else .disconnected)

/-- Puts a chunk into the inbox. -/
def enqueue (s : ReadSide) (chunk : Bytes) : ReadSide := { s with queue := s.queue ++ [chunk] }

def disconnect (s : ReadSide) : ReadSide := { s with connected := false }

@[simp] theorem stream_enqueue (s : ReadSide) (chunk : Bytes) : (s.enqueue chunk).stream = s.stream ++ chunk := by
  simp [stream, enqueue]

@[simp] theorem stream_disconnect (s : ReadSide) : s.disconnect.stream = s.stream := rfl

/-! ## Gathering

Moving bytes can fail only in the buffer, when it would have to grow past its limit.  Then the bytes that were on their
way are gone; a reader that asks for no more than the limit never sees it. -/

/-- Moves the first `count` pending bytes into the buffer. -/
def move (s : ReadSide) (count : Nat) : ReadSide × Except OverLimit Unit :=
  match s.buffer.extend (s.pending.take count) with
  | .ok buffer => ({ s with buffer, pending := s.pending.drop count }, .ok ())
  | .error cause => ({ s with pending := s.pending.drop count }, .error cause)

/-- Moves pending bytes into the buffer, until it holds `wanted` bytes or none are pending. -/
def draw (s : ReadSide) (wanted : Nat) : ReadSide × Except OverLimit Unit :=
  if wanted ≤ s.buffer.size ∨ s.pending = [] then (s, .ok ()) else s.move (wanted - s.buffer.size)

/-- Gathers from the pending bytes and then from the chunks of `queue`, which becomes the queue. -/
def gatherFrom (wanted : Nat) (s : ReadSide) : List Bytes → ReadSide × Except OverLimit Nat
  | [] =>
    match s.draw wanted with
    | (s, .ok ()) => ({ s with queue := [] }, .ok 0)
    | (s, .error cause) => ({ s with queue := [] }, .error cause)
  | chunk :: rest =>
    match s.draw wanted with
    | (s, .error cause) => ({ s with queue := chunk :: rest }, .error cause)
    | (s, .ok ()) =>
      if wanted ≤ s.buffer.size then ({ s with queue := chunk :: rest }, .ok 0)
      else (gatherFrom wanted { s with pending := chunk } rest).map id (·.map (· + 1))

/-- Moves bytes into the buffer until it holds `wanted` of them or nothing is left, and counts the chunks that were
taken out of the inbox for it. -/
def gather (s : ReadSide) (wanted : Nat) : ReadSide × Except OverLimit Nat := gatherFrom wanted s s.queue

end ReadSide

end TopicBus
