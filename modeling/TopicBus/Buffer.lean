import TopicBus.Fault
/-!
# Buffers

A buffer holds bytes, knows how many it has room for, and may have a limit on the room it can be asked for.  Room grows
on demand and never shrinks: at least it doubles, so that a buffer which is asked for a little more again and again
seldom moves (`grown`).  The limit is on what is asked for; the doubling may pass it.
-/
namespace TopicBus

abbrev Bytes := List UInt8

/-- The room after `wanted` bytes were asked of a room of `capacity`. -/
def grown (capacity wanted : Nat) : Nat :=
  if capacity < wanted then max (2 * capacity) (max wanted 8) else capacity

theorem le_grown (capacity wanted : Nat) : capacity ≤ grown capacity wanted := by
  unfold grown; split <;> omega

theorem wanted_le_grown (capacity wanted : Nat) : wanted ≤ grown capacity wanted := by
  unfold grown; split <;> omega

/-- Refuses a size beyond the limit, if there is a limit. -/
def checkLimit (limit : Option Nat) (wanted : Nat) : Except OverLimit Unit :=
  match limit with
  | none => .ok ()
  | some most => if wanted ≤ most then .ok () else .error ⟨wanted, most⟩

/-- A size that a limit allows. -/
def Within (limit : Option Nat) (wanted : Nat) : Prop := ∀ most, limit = some most → wanted ≤ most

theorem Within.mono {limit : Option Nat} {m n : Nat} (h : Within limit n) (hmn : m ≤ n) : Within limit m :=
  fun most hl => Nat.le_trans hmn (h most hl)

theorem checkLimit_eq_ok_iff {limit : Option Nat} {wanted : Nat} :
    checkLimit limit wanted = .ok () ↔ Within limit wanted := by
  cases limit with
  | none => exact ⟨fun _ _ h => (nomatch h), fun _ => rfl⟩
  | some most =>
    simp only [checkLimit, Within, Option.some.injEq, forall_eq']
    split
    · rename_i h
      exact ⟨fun _ => h, fun _ => rfl⟩
    · rename_i h
      exact ⟨fun e => (nomatch e), fun e => absurd e h⟩

structure Buffer where
  data : Bytes
  capacity : Nat
  limit : Option Nat
deriving DecidableEq

namespace Buffer

/-- An empty buffer; its room is within the limit from the start. -/
def withCapacity (capacity : Nat) (limit : Option Nat) : Except OverLimit Buffer :=
  match checkLimit limit capacity with
  | .ok () => .ok ⟨[], capacity, limit⟩
  | .error cause => .error cause

def size (b : Buffer) : Nat := b.data.length

/-- Makes room for `wanted` bytes in all. -/
def ensure (b : Buffer) (wanted : Nat) : Except OverLimit Buffer :=
  match checkLimit b.limit wanted with
  | .ok () => .ok { b with capacity := grown b.capacity wanted }
  | .error cause => .error cause

/-- Replaces the contents. -/
def fill (b : Buffer) (src : Bytes) : Except OverLimit Buffer :=
  match b.ensure src.length with
  | .ok b => .ok { b with data := src }
  | .error cause => .error cause

/-- Appends to the contents. -/
def extend (b : Buffer) (src : Bytes) : Except OverLimit Buffer :=
  match b.ensure (b.size + src.length) with
  | .ok b => .ok { b with data := b.data ++ src }
  | .error cause => .error cause

def clear (b : Buffer) : Buffer := { b with data := [] }

/-- The contents, and the buffer without them; the room stays. -/
def take (b : Buffer) : Bytes × Buffer := (b.data, b.clear)

/-- The contents, and the buffer without them; the room they stood in goes with them. -/
def split (b : Buffer) : Bytes × Buffer := (b.data, ⟨[], b.capacity - b.size, b.limit⟩)

theorem withCapacity_eq_ok_iff {capacity : Nat} {limit : Option Nat} {b : Buffer} :
    withCapacity capacity limit = .ok b ↔ Within limit capacity ∧ b = ⟨[], capacity, limit⟩ := by
  rw [withCapacity, ← checkLimit_eq_ok_iff]
  cases checkLimit limit capacity with
  | ok _ => exact ⟨fun h => ⟨rfl, (Except.ok.inj h).symm⟩, fun h => congrArg Except.ok h.2.symm⟩
  | error cause => exact ⟨fun h => (nomatch h), fun h => (nomatch h.1)⟩

theorem ensure_of_within {b : Buffer} {wanted : Nat} (h : Within b.limit wanted) :
    b.ensure wanted = .ok { b with capacity := grown b.capacity wanted } := by
  rw [ensure, checkLimit_eq_ok_iff.2 h]

theorem extend_of_within {b : Buffer} {src : Bytes} (h : Within b.limit (b.size + src.length)) :
    b.extend src = .ok ⟨b.data ++ src, grown b.capacity (b.size + src.length), b.limit⟩ := by
  rw [extend, ensure_of_within h]

end Buffer

/-! ## Uses of a buffer -/

inductive BufferOp
  | ensure (wanted : Nat)
  | fill (src : Bytes)
  | extend (src : Bytes)
  | take
  | split
  | copy
  | clear
deriving DecidableEq

namespace Buffer

/-- The buffer that a change leaves; a change that is refused leaves the buffer as it was. -/
def attempt (b : Buffer) : Except OverLimit Buffer → Buffer × Except OverLimit Bytes
  | .ok changed => (changed, .ok [])
  | .error cause => (b, .error cause)

/-- One use: the buffer after it, and the bytes it handed out. -/
def step (b : Buffer) : BufferOp → Buffer × Except OverLimit Bytes
  | .ensure wanted => b.attempt (b.ensure wanted)
  | .fill src => b.attempt (b.fill src)
  | .extend src => b.attempt (b.extend src)
  | .take => (b.take.2, .ok b.take.1)
  | .split => (b.split.2, .ok b.split.1)
  | .copy => (b, .ok b.data)
  | .clear => (b.clear, .ok [])

end Buffer

end TopicBus
