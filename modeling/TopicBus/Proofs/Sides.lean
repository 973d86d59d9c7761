import TopicBus.Binding.Suspended
/-!
# Giving up the sides of a binding

Each way in which a binding gives up a side, as an equation between records: what it leaves untouched is read off the
equation.  `Binding.Sound` is what the sides of a binding look like whenever nobody is in the middle of a call: buffers
empty and limited as the bus says, no empty chunk in the inbox, an inbox that is connected exactly while chunks may
come, and sides that an open binding has.
-/
namespace TopicBus
namespace Binding

theorem releaseReadSide_eq (b : Binding) : b.releaseReadSide =
    { b with readSide := none, readCapacity := if b.readSide.isSome then 0 else b.readCapacity } := by
  obtain ⟨terms, isOpen, readSide, writeSide, readCapacity, writeCapacity, traffic, line⟩ := b
  cases readSide <;> rfl

theorem releaseWriteSide_eq (b : Binding) : b.releaseWriteSide =
    { b with writeSide := none, writeCapacity := if b.writeSide.isSome then 0 else b.writeCapacity } := by
  obtain ⟨terms, isOpen, readSide, writeSide, readCapacity, writeCapacity, traffic, line⟩ := b
  cases writeSide <;> rfl

theorem releaseIfClosed_of_isOpen {b : Binding} (h : b.isOpen = true) : b.releaseIfClosed = b := by
  simp [releaseIfClosed, h]

theorem releaseIfClosed_of_line {b : Binding} (h : b.line ≠ []) : b.releaseIfClosed = b := by
  simp [releaseIfClosed, h]

theorem releaseIfClosed_of_closed {b : Binding} (h : b.isOpen = false) (hl : b.line = []) :
    b.releaseIfClosed = b.releaseReadSide := by
  simp [releaseIfClosed, h, hl]

/-- A reader that leaves gives the read side up or leaves everything as it was. -/
theorem releaseIfClosed_cases (b : Binding) :
    b.releaseIfClosed = b ∨ b.isOpen = false ∧ b.line = [] ∧ b.releaseIfClosed = b.releaseReadSide := by
  by_cases ho : b.isOpen = true
  · exact Or.inl (releaseIfClosed_of_isOpen ho)
  · rw [Bool.not_eq_true] at ho
    by_cases hl : b.line = []
    · exact Or.inr ⟨ho, hl, releaseIfClosed_of_closed ho hl⟩
    · exact Or.inl (releaseIfClosed_of_line hl)

@[simp] theorem releaseIfClosed_toTerms (b : Binding) : b.releaseIfClosed.toTerms = b.toTerms := by
  rcases b.releaseIfClosed_cases with h | ⟨-, -, h⟩
  · rw [h]
  · rw [h, releaseReadSide_eq]

@[simp] theorem releaseIfClosed_isOpen (b : Binding) : b.releaseIfClosed.isOpen = b.isOpen := by
  rcases b.releaseIfClosed_cases with h | ⟨-, -, h⟩
  · rw [h]
  · rw [h, releaseReadSide_eq]

@[simp] theorem releaseIfClosed_line (b : Binding) : b.releaseIfClosed.line = b.line := by
  rcases b.releaseIfClosed_cases with h | ⟨-, -, h⟩
  · rw [h]
  · rw [h, releaseReadSide_eq]

/-- The binding that closing hands to the last reader. -/
theorem shut_eq (b : Binding) : b.shut =
    { b with
      isOpen := false
      readSide := b.readSide.map ReadSide.disconnect
      writeSide := none
      writeCapacity := if b.writeSide.isSome then 0 else b.writeCapacity }.releaseIfClosed := by
  rw [shut, releaseWriteSide_eq]
  rfl

@[simp] theorem shut_toTerms (b : Binding) : b.shut.toTerms = b.toTerms := by rw [shut_eq]; simp

@[simp] theorem shut_isOpen (b : Binding) : b.shut.isOpen = false := by rw [shut_eq]; simp

@[simp] theorem shut_line (b : Binding) : b.shut.line = b.line := by rw [shut_eq]; simp

end Binding

/-! ## At rest -/

/-- A read side that no read is in the middle of. -/
structure ReadSide.Idle (limit : Option Nat) (s : ReadSide) : Prop where
  limit : s.buffer.limit = limit
  data : s.buffer.data = []
  chunks : ∀ c ∈ s.queue, c ≠ []

/-- With no empty chunk in the inbox, nothing is left to read exactly when nothing is pending and nothing waits. -/
theorem ReadSide.Idle.stream_eq_nil_iff {limit : Option Nat} {s : ReadSide} (h : s.Idle limit) :
    s.stream = [] ↔ s.pending = [] ∧ s.queue = [] := by
  rw [stream, List.append_eq_nil_iff, List.flatten_eq_nil_iff]
  refine and_congr_right (fun _ => ⟨fun hq => ?_, fun hq => by simp [hq]⟩)
  exact List.eq_nil_iff_forall_not_mem.2 (fun c hc => h.chunks c hc (hq c hc))

namespace Binding

/-- The sides of a binding between calls, on a bus with the given limit that is or is not shut down. -/
structure Sound (limit : Option Nat) (down : Bool) (b : Binding) : Prop where
  idle : ∀ s, b.readSide = some s → s.Idle limit
  connected : ∀ s, b.readSide = some s → s.connected = (b.isOpen && !down)
  capacity : b.readCapacity = ((b.readSide.map (·.buffer.capacity)).getD 0)
  receives : b.isOpen = true → down = false → ∃ s, b.readSide = some s
  writes : b.isOpen = true → ∃ w, b.writeSide = some w ∧ w.limit = limit ∧ w.data = []
  closed : b.isOpen = false → b.writeSide = none ∧ b.writeCapacity = 0

variable {limit : Option Nat} {down : Bool} {b : Binding}

theorem sound_releaseReadSide (h : b.Sound limit down) (hc : b.isOpen = true → down = true) :
    b.releaseReadSide.Sound limit down := by
  rw [releaseReadSide_eq]
  refine ⟨fun s hs => (nomatch hs), fun s hs => (nomatch hs), ?_, fun ho hd => ?_, h.writes, h.closed⟩
  · have := h.capacity
    cases hr : b.readSide <;> simp_all
  · rw [hc ho] at hd
    cases hd

theorem sound_releaseIfClosed (h : b.Sound limit down) : b.releaseIfClosed.Sound limit down := by
  rcases b.releaseIfClosed_cases with he | ⟨ho, -, he⟩
  · rwa [he]
  · rw [he]
    exact sound_releaseReadSide h (fun ho' => by rw [ho] at ho'; cases ho')

/-- The line of waiting reads has no part in it. -/
theorem sound_line (h : b.Sound limit down) (line : List ReadName) : { b with line }.Sound limit down :=
  ⟨h.idle, h.connected, h.capacity, h.receives, h.writes, h.closed⟩

theorem sound_fresh (terms : Terms) {readBuffer writeBuffer : Buffer} (hrl : readBuffer.limit = limit)
    (hrd : readBuffer.data = []) (hwl : writeBuffer.limit = limit) (hwd : writeBuffer.data = []) :
    (fresh terms readBuffer writeBuffer).Sound limit false where
  idle s hs := by
    obtain rfl := Option.some.inj hs
    exact ⟨hrl, hrd, fun c hc => by cases hc⟩
  connected s hs := by
    obtain rfl := Option.some.inj hs
    rfl
  capacity := rfl
  receives _ _ := ⟨_, rfl⟩
  writes _ := ⟨writeBuffer, rfl, hwl, hwd⟩
  closed h := by cases h

theorem sound_enqueue (h : b.Sound limit down) {chunk : Bytes} (hc : chunk ≠ []) :
    (b.enqueue chunk).Sound limit down := by
  refine ⟨fun s hs => ?_, fun s hs => ?_, ?_, fun ho hd => ?_, h.writes, h.closed⟩
  · obtain ⟨s', hs', rfl⟩ := Option.map_eq_some_iff.1 hs
    refine ⟨(h.idle s' hs').limit, (h.idle s' hs').data, fun c hm => ?_⟩
    rcases List.mem_append.1 hm with hm | hm
    · exact (h.idle s' hs').chunks c hm
    · rw [List.mem_singleton.1 hm]
      exact hc
  · obtain ⟨s', hs', rfl⟩ := Option.map_eq_some_iff.1 hs
    exact h.connected s' hs'
  · have := h.capacity
    simp only [enqueue, Option.map_map]
    exact this
  · obtain ⟨s, hs⟩ := h.receives ho hd
    exact ⟨s.enqueue chunk, by simp [enqueue, hs]⟩

theorem sound_disconnect (h : b.Sound limit down) : b.disconnect.Sound limit true := by
  refine ⟨fun s hs => ?_, fun s hs => ?_, ?_, fun _ hd => (nomatch hd), h.writes, h.closed⟩
  · obtain ⟨s', hs', rfl⟩ := Option.map_eq_some_iff.1 hs
    exact ⟨(h.idle s' hs').limit, (h.idle s' hs').data, (h.idle s' hs').chunks⟩
  · obtain ⟨s', hs', rfl⟩ := Option.map_eq_some_iff.1 hs
    simp [ReadSide.disconnect]
  · have := h.capacity
    simp only [disconnect, Option.map_map]
    exact this

theorem sound_shut (h : b.Sound limit down) : b.shut.Sound limit down := by
  rw [shut_eq]
  refine sound_releaseIfClosed ⟨fun s hs => ?_, fun s hs => ?_, ?_, fun ho => (nomatch ho), fun ho => (nomatch ho),
    fun _ => ⟨rfl, ?_⟩⟩
  · obtain ⟨s', hs', rfl⟩ := Option.map_eq_some_iff.1 hs
    exact ⟨(h.idle s' hs').limit, (h.idle s' hs').data, (h.idle s' hs').chunks⟩
  · obtain ⟨s', hs', rfl⟩ := Option.map_eq_some_iff.1 hs
    rfl
  · have := h.capacity
    simp only [Option.map_map]
    exact this
  · cases ho : b.isOpen with
    | true =>
      obtain ⟨w, hw, -⟩ := h.writes ho
      simp [hw]
    | false => simp [h.closed ho]

/-! ## The write side -/

/-- The binding after the bytes of a write went through its write buffer. -/
structure Staged (b : Binding) (data : Bytes) (staged : Binding) : Prop where
  isOpen : b.isOpen = true
  ne_nil : data ≠ []
  staged : ∃ buffer, b.writeSide = some buffer ∧ Within buffer.limit data.length ∧
    staged = { b with
      writeSide := some ⟨[], grown buffer.capacity data.length - data.length, buffer.limit⟩
      writeCapacity := grown buffer.capacity data.length }

theorem stage_cases (b : Binding) (data : Bytes) :
    (∃ fault, b.stage data = (b, .error fault)) ∨ (data = [] ∧ b.stage data = (b, .ok none)) ∨
      ∃ staged, b.Staged data staged ∧ b.stage data = (staged, .ok (some data)) := by
  unfold stage
  split
  · exact Or.inl ⟨_, rfl⟩
  rename_i hopen
  split
  · rename_i hdata
    exact Or.inr (Or.inl ⟨by simpa using hdata, rfl⟩)
  rename_i hdata
  split
  · exact Or.inl ⟨_, rfl⟩
  rename_i buffer hb
  by_cases hw : Within buffer.limit data.length
  · refine Or.inr (Or.inr ⟨_, ⟨by simpa using hopen, by simpa using hdata, buffer, hb, hw, rfl⟩, ?_⟩)
    rw [Buffer.fill, Buffer.ensure_of_within hw]
    rfl
  · refine Or.inl ?_
    cases hf : buffer.fill data with
    | error cause => exact ⟨_, rfl⟩
    | ok buffer' =>
      refine absurd ?_ hw
      unfold Buffer.fill Buffer.ensure at hf
      cases hc : checkLimit buffer.limit data.length with
      | ok _ => exact checkLimit_eq_ok_iff.1 hc
      | error cause => simp [hc] at hf

theorem Staged.toTerms_eq {data : Bytes} {staged : Binding} (h : b.Staged data staged) :
    staged.toTerms = b.toTerms := by
  obtain ⟨-, -, buffer, -, -, rfl⟩ := h
  rfl

theorem Staged.isOpen_eq {data : Bytes} {staged : Binding} (h : b.Staged data staged) :
    staged.isOpen = b.isOpen := by
  obtain ⟨-, -, buffer, -, -, rfl⟩ := h
  rfl

theorem Staged.readSide_eq {data : Bytes} {staged : Binding} (h : b.Staged data staged) :
    staged.readSide = b.readSide := by
  obtain ⟨-, -, buffer, -, -, rfl⟩ := h
  rfl

theorem Staged.line_eq {data : Bytes} {staged : Binding} (h : b.Staged data staged) : staged.line = b.line := by
  obtain ⟨-, -, buffer, -, -, rfl⟩ := h
  rfl

theorem Staged.sound {data : Bytes} {staged : Binding} (h : b.Staged data staged) (hs : b.Sound limit down) :
    staged.Sound limit down := by
  obtain ⟨ho, -, buffer, hb, -, rfl⟩ := h
  refine ⟨hs.idle, hs.connected, hs.capacity, hs.receives, fun _ => ⟨_, rfl, ?_, rfl⟩, fun ho' => ?_⟩
  · obtain ⟨w, hw, hl, -⟩ := hs.writes ho
    rw [hb] at hw
    obtain rfl := Option.some.inj hw
    exact hl
  · rw [ho] at ho'
    cases ho'

theorem sound_countWrite (h : b.Sound limit down) (bytes : Nat) : (b.countWrite bytes).Sound limit down :=
  ⟨h.idle, h.connected, h.capacity, h.receives, h.writes, h.closed⟩

end Binding
end TopicBus
