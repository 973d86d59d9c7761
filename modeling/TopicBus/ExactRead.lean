import TopicBus.Buffer
/-!
# Reading an exact number of bytes

A reader serves bytes in parts of its own choosing.  To get exactly `wanted` bytes from it, ask for what is still
missing until nothing is, or until the reader gives nothing or fails.  The reader is any function on a state of its own;
the loop ends because every part that it goes on after is non-empty.

`run` gives the parts in the order they came, so that a caller sees also what was taken before a failure.
-/
namespace TopicBus

namespace ExactRead

/-- How an exact read ended. -/
inductive Ending (ε : Type)
  /-- All bytes are there. -/
  | filled
  /-- The reader gave no bytes while some were missing. -/
  | noProgress
  /-- The reader stopped. -/
  | stopped (cause : ε)
deriving DecidableEq

structure Outcome (σ ε : Type) where
  reader : σ
  parts : List Bytes
  ending : Ending ε

variable {σ ε : Type}

namespace Outcome

def bytes (o : Outcome σ ε) : Bytes := o.parts.flatten

/-- The outcome when one more part came before all others. -/
def cons (part : Bytes) (o : Outcome σ ε) : Outcome σ ε := { o with parts := part :: o.parts }

/-- What the caller gets: all the bytes, or why not; `atEnd` is the cause when the reader gave nothing. -/
def toExcept (atEnd : ε) (o : Outcome σ ε) : Except ε Bytes :=
  match o.ending with
  | .filled => .ok o.bytes
  | .noProgress => .error atEnd
  | .stopped cause => .error cause

/-- The reader afterwards, and what the caller gets. -/
def result (atEnd : ε) (o : Outcome σ ε) : σ × Except ε Bytes := (o.reader, o.toExcept atEnd)

end Outcome

def run (read : σ → Nat → σ × Except ε Bytes) (reader : σ) (wanted : Nat) : Outcome σ ε :=
  if wanted = 0 then ⟨reader, [], .filled⟩
  else match read reader wanted with
    | (reader, .error cause) => ⟨reader, [], .stopped cause⟩
    | (reader, .ok []) => ⟨reader, [], .noProgress⟩
    | (reader, .ok (x :: xs)) => (run read reader (wanted - (xs.length + 1))).cons (x :: xs)
termination_by wanted

/-- Goes on with an exact read of `wanted` bytes whose first answer has come. -/
def resume (read : σ → Nat → σ × Except ε Bytes) (wanted : Nat) : σ × Except ε Bytes → Outcome σ ε
  | (reader, .error cause) => ⟨reader, [], .stopped cause⟩
  | (reader, .ok []) => ⟨reader, [], .noProgress⟩
  | (reader, .ok (x :: xs)) => (run read reader (wanted - (xs.length + 1))).cons (x :: xs)

@[simp] theorem run_zero (read : σ → Nat → σ × Except ε Bytes) (reader : σ) :
    run read reader 0 = ⟨reader, [], .filled⟩ := by
  rw [run]; simp

theorem run_of_pos (read : σ → Nat → σ × Except ε Bytes) (reader : σ) {wanted : Nat} (h : wanted ≠ 0) :
    run read reader wanted = resume read wanted (read reader wanted) := by
  rw [run, if_neg h]
  unfold resume
  split <;> simp_all

end ExactRead

end TopicBus
