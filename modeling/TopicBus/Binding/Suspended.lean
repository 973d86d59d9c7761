import TopicBus.Binding
/-!
# Suspended reads

A read that is polled: each poll goes on as far as the state of the binding allows, and the read is kept between polls
if it could not finish.  Nothing runs between polls.  A future is polled when its owner likes, and the read of a call
that waits whenever its thread gets on.

Each read has a name, under which it stands in the line of its binding.  It looks at the read side only when it is first
in the line.  When it finishes or is cancelled it leaves, and whoever stands behind it holds the read side from then on,
polled or not (`Binding.leave`).

An exact read is a sequence of such reads, each of which takes a place in the line anew, behind all that wait.
-/
namespace TopicBus

/-- What a suspended read is for. -/
inductive Goal
  /-- Any bytes, up to the number asked for. -/
  | upTo
  /-- That number exactly; `gathered` came already. -/
  | exactly (gathered : Bytes)
deriving DecidableEq

structure SuspendedRead where
  goal : Goal
  /-- The bytes still missing. -/
  wanted : Nat
  phase : Phase
deriving DecidableEq

/-- How far a poll got. -/
inductive Progress
  | ready (result : Except Fault Bytes)
  | pending (read : SuspendedRead)

structure Polled where
  binding : Binding
  /-- What was taken out of the stream, one part for each read that gave bytes. -/
  parts : List Bytes
  progress : Progress

namespace Binding

/-- Leaves the line; the next in it holds the read side. -/
def cancel (b : Binding) (name : ReadName) : Binding := { b with line := b.line.erase name }

/-- Leaves the line at the end of a read. -/
def leave (b : Binding) (name : ReadName) : Binding := (b.cancel name).releaseIfClosed

/-- A reader that has its answer leaves; one that has to wait stays. -/
def leaveUnlessWaiting (name : ReadName) : Binding × Except Halt Bytes → Binding × Except Halt Bytes
  | (b, .error (.waits phase)) => (b, .error (.waits phase))
  | (b, answer) => (b.leave name, answer)

/-! ## One read -/

/-- The first poll of a read. -/
def beginRead (limit : Option Nat) (name : ReadName) (b : Binding) (wanted : Nat) : Binding × Except Halt Bytes :=
  if !b.isOpen then (b.releaseIfClosed, .error (.failed .closed))
  else if wanted = 0 then (b, .ok [])
  else if b.line.isEmpty then
    leaveUnlessWaiting name ({ b with line := [name] }.fetch (clampRead limit wanted))
  else ({ b with line := b.line ++ [name] }, .error (.waits .inLine))

/-- A later poll. -/
def resumeRead (limit : Option Nat) (name : ReadName) (phase : Phase) (b : Binding) (wanted : Nat) :
    Binding × Except Halt Bytes :=
  match phase with
  | .inLine =>
    if b.line.head? = some name then leaveUnlessWaiting name (b.fetch (clampRead limit wanted))
    else (b, .error (.waits .inLine))
  | .atInbox => leaveUnlessWaiting name (b.await (clampRead limit wanted))

/-! ## Reads with a goal -/

/-- How a read of up to `wanted` bytes stands after a poll. -/
def settleUpTo (wanted : Nat) : Binding × Except Halt Bytes → Polled
  | (b, .ok data) => ⟨b, [data], .ready (.ok data)⟩
  | (b, .error (.failed fault)) => ⟨b, [], .ready (.error fault)⟩
  | (b, .error (.waits phase)) => ⟨b, [], .pending ⟨.upTo, wanted, phase⟩⟩

/-- How an exact read stands after a poll, `wanted` bytes having been missing before it. -/
def settleExact (gathered : Bytes) (wanted : Nat) (out : ExactRead.Outcome Binding Halt) : Polled :=
  ⟨out.reader, out.parts,
    match out.ending with
    | .filled => .ready (.ok (gathered ++ out.bytes))
    | .noProgress => .ready (.error .endOfStream)
    | .stopped (.failed fault) => .ready (.error fault)
    | .stopped (.waits phase) =>
      .pending ⟨.exactly (gathered ++ out.bytes), wanted - out.bytes.length, phase⟩⟩

/-- Begins a read of up to `wanted` bytes. -/
def startUpTo (b : Binding) (limit : Option Nat) (name : ReadName) (wanted : Nat) : Polled :=
  settleUpTo wanted (b.beginRead limit name wanted)

/-- Begins a read of exactly `wanted` bytes. -/
def startExact (b : Binding) (limit : Option Nat) (name : ReadName) (wanted : Nat) : Polled :=
  settleExact [] wanted (ExactRead.run (beginRead limit name) b wanted)

/-- Goes on with a suspended read. -/
def poll (b : Binding) (limit : Option Nat) (name : ReadName) (read : SuspendedRead) : Polled :=
  match read.goal with
  | .upTo => settleUpTo read.wanted (b.resumeRead limit name read.phase read.wanted)
  | .exactly gathered =>
    settleExact gathered read.wanted
      (ExactRead.resume (beginRead limit name) read.wanted (b.resumeRead limit name read.phase read.wanted))

end Binding

end TopicBus
