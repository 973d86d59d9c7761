import TopicBus.ExactRead
/-!
# Scripted readers

A reader that serves a list of items, each some bytes or a fault.  A patient reader keeps what was not asked for and
serves it next; a greedy one serves every item whole, more than asked for if need be.  At the end of the list it serves
nothing.  It remembers the sizes it was asked for.
-/
namespace TopicBus

structure Script where
  greedy : Bool
  items : List (Except Fault Bytes)
  asked : List Nat := []

namespace Script

/-- Serves at most `wanted` bytes, or the whole first item if greedy. -/
def serve (s : Script) (wanted : Nat) : Script × Except Fault Bytes :=
  match s.items with
  | [] => (s, .ok [])
  | .error fault :: rest => ({ s with items := rest }, .error fault)
  | .ok data :: rest =>
    if s.greedy || data.length ≤ wanted then ({ s with items := rest }, .ok data)
    else ({ s with items := .ok (data.drop wanted) :: rest }, .ok (data.take wanted))

def read (s : Script) (wanted : Nat) : Script × Except Fault Bytes :=
  { s with asked := s.asked ++ [wanted] }.serve wanted

/-- Reads exactly `wanted` bytes; `asked` is then what this one call asked for. -/
def readAll (s : Script) (wanted : Nat) : Script × Except Fault Bytes :=
  (ExactRead.run read { s with asked := [] } wanted).result .endOfStream

end Script

end TopicBus
