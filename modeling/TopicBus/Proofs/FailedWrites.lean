import TopicBus.Proofs.Closed
import TopicBus.Proofs.Shutdown
/-!
# Writes that come to nothing

A write may be refused before its bytes are looked at, by the limit, or after they have passed the write buffer: the bus
is shut down, or the audience is not the one recipient that there has to be.  In all these cases, and when there is
nothing to send, the bus is left as it was but for the room of the writer's buffer (`Bus.write_unsent`), and the room
moves only if the bytes got that far (`Bus.write_untouched`).  The buffer is empty whenever nobody is in the middle of a
call, so nothing of such a write is left for the next one to send (`Bus.Agrees.write_sends`).
-/
namespace TopicBus

/-! ## The write buffer -/

namespace Binding

variable {limit : Option Nat} {down : Bool} {b staged : Binding} {data : Bytes}

/-- The binding with other room in its write buffer, which others see as `seen`. -/
def regrown (b : Binding) (room seen : Nat) : Binding :=
  { b with
    writeSide := b.writeSide.map (fun buffer => { buffer with capacity := room })
    writeCapacity := seen }

theorem exists_regrown_self (b : Binding) : ∃ room seen, b = b.regrown room seen := by
  obtain ⟨terms, isOpen, readSide, writeSide, readCapacity, writeCapacity, traffic, line⟩ := b
  cases writeSide with
  | none => exact ⟨0, writeCapacity, rfl⟩
  | some buffer => exact ⟨buffer.capacity, writeCapacity, rfl⟩

/-- Nothing is in the write buffer between calls. -/
theorem Sound.data_writeSide (hs : b.Sound limit down) {buffer : Buffer} (hb : b.writeSide = some buffer) :
    buffer.data = [] := by
  cases ho : b.isOpen with
  | true =>
    obtain ⟨buffer', hb', -, hdata⟩ := hs.writes ho
    obtain rfl := Option.some.inj (hb.symm.trans hb')
    exact hdata
  | false => exact absurd ((hs.closed ho).1.symm.trans hb) (Option.some_ne_none _).symm

/-- Bytes that pass the write buffer leave it empty, with other room. -/
theorem Staged.exists_regrown (h : b.Staged data staged) (hs : b.Sound limit down) :
    ∃ room seen, staged = b.regrown room seen := by
  obtain ⟨-, -, buffer, hb, -, rfl⟩ := h
  obtain ⟨bytes, capacity, most⟩ := buffer
  obtain rfl : bytes = [] := hs.data_writeSide hb
  refine ⟨grown capacity data.length - data.length, grown capacity data.length, ?_⟩
  simp only [regrown, hb, Option.map_some]

end Binding

/-! ## What is left of a write that sends nothing -/

namespace Bus

variable {bus : Bus} {id : BindingId} {w : Binding} {data : Bytes}

/-- **A write that is refused or empty** moves the room of the writer's buffer at most. -/
theorem write_unsent {limit : Option Nat} {down : Bool} (hs : w.Sound limit down)
    (hw : bus.bindings.get? id = some w) (hun : data = [] ∨ ∃ fault, (bus.write id data).2 = .error fault) :
    ∃ room seen, (bus.write id data).1 = bus.put id (w.regrown room seen) := by
  have hself : ∃ room seen, bus = bus.put id (w.regrown room seen) := by
    obtain ⟨room, seen, hsame⟩ := w.exists_regrown_self
    exact ⟨room, seen, by rw [← hsame, put_self hw]⟩
  -- The two outcomes that send the chunk are not among those that are meant.
  have hsent : ∀ {staged n}, w.Staged data staged → (bus.write id data).2 = .ok n → False := fun hst hok => by
    rcases hun with hnil | ⟨fault, hfault⟩
    · exact hst.ne_nil hnil
    · cases hfault.symm.trans hok
  have hout := written bus id data
  generalize bus.write id data = result at hout hsent ⊢
  cases hout with
  | refused _ | empty _ => exact hself
  | failed fault hw' hst =>
    obtain rfl := Option.some.inj (hw.symm.trans hw')
    obtain ⟨room, seen, rfl⟩ := hst.exists_regrown hs
    exact ⟨room, seen, rfl⟩
  | unrouted hw' hst _ _ | delivered hw' hst _ _ =>
    obtain rfl := Option.some.inj (hw.symm.trans hw')
    exact (hsent hst rfl).elim

/-- **Bytes that do not get as far as the write buffer** leave the whole bus as it is. -/
theorem write_untouched {limit : Option Nat} {down : Bool} (hs : w.Sound limit down)
    (hw : bus.bindings.get? id = some w)
    (hun : ¬(w.isOpen = true ∧ data ≠ [] ∧ Within limit data.length)) : (bus.write id data).1 = bus := by
  cases ho : w.isOpen with
  | false => rw [write_of_closed hw ho]
  | true =>
    by_cases hne : data = []
    · rw [hne, write_of_nil hw ho]
    cases hl : checkLimit limit data.length with
    | ok _ => exact absurd ⟨ho, hne, checkLimit_eq_ok_iff.1 hl⟩ hun
    | error cause => rw [write_of_beyond hs hw ho hne hl]

/-! ## The next write -/

/-- A chunk that goes out is for the audience of its writer. -/
theorem mem_recipients_of_ok {i : BindingId} {n : Nat} (hw : bus.bindings.get? id = some w) (hne : data ≠ [])
    (hok : (bus.write id data).2 = .ok n) : i ∈ bus.recipients id data ↔ i ∈ bus.audience w.toTerms := by
  simp [mem_recipients, hne, hok, hw]

/-- **A write that goes out** puts its own bytes, as one chunk, into each inbox of its audience and nothing anywhere
else. -/
theorem Agrees.write_sends (h : bus.Agrees) {n : Nat} (hne : data ≠ []) (hok : (bus.write id data).2 = .ok n) :
    n = data.length ∧ ∃ w, bus.bindings.get? id = some w ∧ ∀ i b, bus.bindings.get? i = some b →
      ∃ b', (bus.write id data).1.bindings.get? i = some b' ∧
        b'.readSide = if i ∈ bus.audience w.toTerms then b.readSide.map (·.enqueue data) else b.readSide := by
  cases hw : bus.bindings.get? id with
  | none =>
    rw [write, hw] at hok
    cases hok
  | some w =>
    refine ⟨eq_length_of_write_ok hok, w, rfl, fun i b hb => ?_⟩
    obtain ⟨b', hb', -, -, hreader⟩ := h.reader_write id data hb
    have hmem := mem_recipients_of_ok (i := i) hw hne hok
    refine ⟨b', hb', ?_⟩
    have hside := congrArg Binding.readSide hreader
    by_cases hm : i ∈ bus.audience w.toTerms
    · rw [if_pos hm]
      rw [if_pos (hmem.2 hm)] at hside
      exact hside
    · rw [if_neg hm]
      rw [if_neg (fun hr => hm (hmem.1 hr))] at hside
      exact hside

end Bus

namespace Session

/-- **Writes that fail leave no trace.**  The answer to a write is the first of its obstacles.  If it is refused or
empty, the bus afterwards is the bus before it but for the room of the writer's buffer, and it is the very same bus
unless the writer is open and the bytes are within the limit.  After the write, whatever its answer, and after any
operations that follow, all write buffers are empty, and a write that goes out then puts exactly its own bytes into the
inboxes of its audience. -/
theorem failed_writes_leave_no_trace (config : Config) (ops : List Op) {id : BindingId} {w : Binding}
    (hw : ((new config).run ops).bus.bindings.get? id = some w) (data : Bytes) :
    let s := (new config).run ops
    let after := (s.bus.write id data).1
    (s.bus.write id data).2 = s.bus.answerTo w data ∧
    (∀ most, s.bus.config.chunkLimit = some most → w.isOpen = true → most < data.length →
      (s.bus.write id data).2 = .error (.buffer ⟨data.length, most⟩)) ∧
    ((data = [] ∨ ∃ fault, (s.bus.write id data).2 = .error fault) →
      ∃ room seen, after = s.bus.put id (w.regrown room seen)) ∧
    (¬(w.isOpen = true ∧ data ≠ [] ∧ Within s.bus.config.chunkLimit data.length) → after = s.bus) ∧
    ∀ more,
      let later := ({ s with bus := after }.run more).bus
      (∀ i b buffer, later.bindings.get? i = some b → b.writeSide = some buffer → buffer.data = []) ∧
      ∀ i next n, next ≠ [] → (later.write i next).2 = .ok n → n = next.length ∧
        ∃ w', later.bindings.get? i = some w' ∧ ∀ j b, later.bindings.get? j = some b →
          ∃ b', (later.write i next).1.bindings.get? j = some b' ∧
            b'.readSide = if j ∈ later.audience w'.toTerms then b.readSide.map (·.enqueue next) else b.readSide := by
  intro s after
  have hgood := good_run config ops
  have hs : w.Sound s.bus.config.chunkLimit s.bus.isShutDown := hgood.sound id w hw
  have hanswer := hgood.agrees.write_answer hs hw data
  refine ⟨hanswer, fun most hmost ho hlt => ?_, Bus.write_unsent hs hw, Bus.write_untouched hs hw, fun more => ?_⟩
  · have hl : checkLimit s.bus.config.chunkLimit data.length = .error ⟨data.length, most⟩ := by
      rw [hmost, checkLimit_of_lt hlt]
    have hne : data ≠ [] := fun hnil => by simp [hnil] at hlt
    rw [Bus.write_of_beyond hs hw ho hne hl]
  · intro later
    have hlater : ({ s with bus := after }.run more).desk.Good := by
      rw [desk_run]
      exact Desk.good_after (Desk.good_write hgood id data) _
    exact ⟨fun i b buffer hb hbuffer => (hlater.sound i b hb).data_writeSide hbuffer,
      fun i next n hne hok => hlater.agrees.write_sends hne hok⟩

/-- On a bus that is shut down a write of one of two peers is refused after its bytes have passed the write buffer. -/
theorem failed_writes_leave_no_trace_two :
    let ops := twoPeers ++ [.shutdown]
    let bus := ((new {}).run ops).bus
    ∃ w room seen, bus.bindings.get? ⟨5⟩ = some w ∧ (bus.write ⟨5⟩ [1, 2, 3]).2 = .error .closed ∧
      (bus.write ⟨5⟩ [1, 2, 3]).1 = bus.put ⟨5⟩ (w.regrown room seen) := by
  intro ops bus
  obtain ⟨w, hw⟩ := Option.isSome_iff_exists.1
    (show (((new {}).run ops).bus.bindings.get? ⟨5⟩).isSome = true by decide +kernel)
  have hclosed : (bus.write ⟨5⟩ [1, 2, 3]).2 = .error .closed := by decide +kernel
  obtain ⟨-, -, hunsent, -⟩ := failed_writes_leave_no_trace {} ops hw [1, 2, 3]
  obtain ⟨room, seen, hafter⟩ := hunsent (.inr ⟨_, hclosed⟩)
  exact ⟨w, room, seen, hw, hclosed, hafter⟩

end Session
end TopicBus
