import TopicBus.Proofs.Sides
/-!
# What reads can tell

A binding reads and writes, and the two have nothing to do with each other.  `Binding.reader` is the binding without what
belongs to its writes; a read gives the same answer whatever that is (`ofReader_tryRead`), and so does closing as far as
the read side goes.
-/
namespace TopicBus
namespace Binding

/-- The binding as its reads find it: without its write side and the counts of its writes. -/
def reader (b : Binding) : Binding :=
  { b with
    writeSide := none
    writeCapacity := 0
    traffic := { b.traffic with bytesWritten := 0, chunksWritten := 0 } }

/-- `f` depends on the reader alone, and changes nothing else. -/
def OfReader {α : Type} (f : Binding → Binding × α) : Prop := ∀ b, f b.reader = ((f b).1.reader, (f b).2)

variable {α : Type} {b b' : Binding}

theorem OfReader.congr {f : Binding → Binding × α} (hf : OfReader f) (h : b'.reader = b.reader) :
    (f b').1.reader = (f b).1.reader ∧ (f b').2 = (f b).2 :=
  Prod.mk.inj ((hf b').symm.trans ((congrArg f h).trans (hf b)))

/-! ## Giving up the read side -/

theorem releaseReadSide_reader (b : Binding) : b.reader.releaseReadSide = b.releaseReadSide.reader := by
  rw [releaseReadSide_eq, releaseReadSide_eq]
  rfl

theorem releaseIfClosed_reader (b : Binding) : b.reader.releaseIfClosed = b.releaseIfClosed.reader := by
  unfold releaseIfClosed
  cases hc : !b.isOpen && b.line.isEmpty with
  | true =>
    rw [if_pos rfl, if_pos (by exact hc)]
    exact releaseReadSide_reader b
  | false => rw [if_neg Bool.false_ne_true, if_neg (by exact Bool.eq_false_iff.1 hc)]

theorem shut_reader (b : Binding) : b.reader.shut.reader = b.shut.reader := by
  rw [shut_eq, shut_eq, ← releaseIfClosed_reader, ← releaseIfClosed_reader]
  rfl

/-! ## Reading -/

theorem ofReader_prepare (wanted : Nat) : OfReader (·.prepare wanted) := by
  intro b
  simp only [prepare, show b.reader.isOpen = b.isOpen from rfl, show b.reader.readSide = b.readSide from rfl]
  split
  · rw [releaseReadSide_reader]
  · split
    · rfl
    · split <;> rfl

theorem ofReader_receive : OfReader receive := by
  intro b
  simp only [receive, show b.reader.readSide = b.readSide from rfl]
  split <;> rfl

theorem ofReader_collect (wanted received : Nat) : OfReader (·.collect wanted received) := by
  intro b
  simp only [collect, show b.reader.isOpen = b.isOpen from rfl, show b.reader.readSide = b.readSide from rfl]
  split
  · rw [releaseReadSide_reader]
  · split
    · rfl
    · split <;> rfl

theorem ofReader_await (wanted : Nat) : OfReader (·.await wanted) := by
  intro b
  simp only [await, ofReader_receive b]
  rcases hr : b.receive with ⟨b₁, arrival⟩
  cases arrival with
  | chunk data =>
    have hcollect := ofReader_collect wanted 1 (b₁.hold data)
    simp only [show b₁.reader.hold data = (b₁.hold data).reader from rfl, hcollect]
    rfl
  | nothingYet => rfl
  | disconnected => simp only [releaseReadSide_reader]

theorem ofReader_fetch (wanted : Nat) : OfReader (·.fetch wanted) := by
  intro b
  simp only [fetch, ofReader_prepare wanted b]
  rcases hp : b.prepare wanted with ⟨b₁, fault | dry⟩
  · rfl
  · cases dry with
    | true => exact ofReader_await wanted b₁
    | false =>
      simp only [ofReader_collect wanted 0 b₁]
      rfl

theorem ofReader_readOnce (limit : Option Nat) (wanted : Nat) : OfReader (·.readOnce limit wanted) := by
  intro b
  simp only [readOnce, show b.reader.isOpen = b.isOpen from rfl, show b.reader.line = b.line from rfl]
  split
  · rfl
  · split
    · rfl
    · split
      · rfl
      · exact ofReader_fetch _ b

theorem ofReader_read (limit : Option Nat) (wanted : Nat) : OfReader (·.read limit wanted) := by
  intro b
  simp only [read, ofReader_readOnce limit wanted b, releaseIfClosed_reader]

/-- **An immediate read does not depend on what its binding writes.** -/
theorem ofReader_tryRead (limit : Option Nat) (wanted : Nat) : OfReader (·.tryRead limit wanted) := by
  intro b
  simp only [tryRead, ofReader_read limit wanted b]
  rcases b.read limit wanted with ⟨b₁, (fault | phase) | data⟩ <;> rfl

end Binding
end TopicBus
