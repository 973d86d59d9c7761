import TopicBus.ReadSide
/-!
# What gathering does to the stream

As long as the limit of the buffer allows the size asked for, gathering never fails (`exists_gather`): it moves bytes
from the front of the stream to the end of the buffer, as many as are asked for or as there are, and takes no more
chunks out of the inbox than it needs for that.  A buffer that has the room already does not grow.
-/
namespace TopicBus
namespace ReadSide

/-- `after` has moved bytes of `before` from the pending ones to the buffer, up to `wanted` in the buffer. -/
structure Drawn (before after : ReadSide) (wanted : Nat) : Prop where
  bytes : after.buffer.data ++ after.pending = before.buffer.data ++ before.pending
  limit : after.buffer.limit = before.buffer.limit
  full : wanted ≤ after.buffer.size ∨ after.pending = []
  size : after.buffer.size = max before.buffer.size (min wanted (before.buffer.size + before.pending.length))
  connected : after.connected = before.connected
  room : wanted ≤ before.buffer.capacity → after.buffer.capacity = before.buffer.capacity

theorem exists_draw {s : ReadSide} {wanted : Nat} (h : Within s.buffer.limit wanted) :
    ∃ after, s.draw wanted = (after, .ok ()) ∧ Drawn s after wanted := by
  unfold draw
  split
  · rename_i hc
    refine ⟨s, rfl, rfl, rfl, hc, ?_, rfl, fun _ => rfl⟩
    rcases hc with hc | hc
    · omega
    · rw [hc, List.length_nil]
      omega
  · rename_i hc
    simp only [not_or] at hc
    have hin : Within s.buffer.limit (s.buffer.size + (s.pending.take (wanted - s.buffer.size)).length) :=
      h.mono (by simp only [List.length_take]; omega)
    rw [move, Buffer.extend_of_within hin]
    have hlt : s.buffer.size < wanted := Nat.lt_of_not_le hc.1
    refine ⟨_, rfl, by simp, rfl, ?_, ?_, rfl, fun hroom => ?_⟩
    · simp only [Buffer.size, List.length_append, List.length_take, List.drop_eq_nil_iff] at hlt ⊢
      omega
    · simp only [Buffer.size, List.length_append, List.length_take] at hlt ⊢
      omega
    · refine if_neg ?_
      simp only [List.length_take]
      omega

/-- `after` has gathered from the pending bytes of `before` and from `queue`, of which `taken` chunks are gone. -/
structure Gathered (before after : ReadSide) (queue : List Bytes) (wanted taken : Nat) : Prop where
  bytes : after.buffer.data ++ after.stream = before.buffer.data ++ (before.pending ++ queue.flatten)
  rest : after.queue = queue.drop taken
  le : taken ≤ queue.length
  dry : after.buffer.size < wanted → after.stream = []
  size : after.buffer.size =
    max before.buffer.size (min wanted (before.buffer.size + before.pending.length + queue.flatten.length))
  needed : ∀ j < taken, before.buffer.size + before.pending.length + (queue.take j).flatten.length < wanted
  limit : after.buffer.limit = before.buffer.limit
  connected : after.connected = before.connected
  room : wanted ≤ before.buffer.capacity → after.buffer.capacity = before.buffer.capacity

theorem exists_gatherFrom {wanted : Nat} (queue : List Bytes) {s : ReadSide} (h : Within s.buffer.limit wanted) :
    ∃ after taken, gatherFrom wanted s queue = (after, .ok taken) ∧ Gathered s after queue wanted taken := by
  induction queue generalizing s with
  | nil =>
    obtain ⟨after, hd, hs⟩ := exists_draw h
    refine ⟨{ after with queue := [] }, 0, by simp [gatherFrom, hd], ?_, rfl, Nat.le_refl 0, ?_, ?_,
      fun _ hj => absurd hj (Nat.not_lt_zero _), hs.limit, hs.connected, hs.room⟩
    · simpa [stream] using hs.bytes
    · intro hw
      rcases hs.full with hf | hf
      · exact absurd hw (Nat.not_lt.2 hf)
      · simp [stream, hf]
    · simpa using hs.size
  | cons chunk rest ih =>
    obtain ⟨after, hd, hs⟩ := exists_draw h
    by_cases hw : wanted ≤ after.buffer.size
    · refine ⟨{ after with queue := chunk :: rest }, 0, by simp [gatherFrom, hd, hw], ?_, rfl,
        Nat.zero_le _, ?_, ?_, fun _ hj => absurd hj (Nat.not_lt_zero _), hs.limit, hs.connected, hs.room⟩
      · rw [← List.append_assoc, ← hs.bytes, List.append_assoc]; rfl
      · exact fun hlt => absurd hlt (Nat.not_lt.2 hw)
      · have := hs.size
        simp only [List.flatten_cons, List.length_append]
        omega
    · have hp : after.pending = [] := hs.full.resolve_left hw
      obtain ⟨last, taken, hg, hl⟩ := @ih { after with pending := chunk } (hs.limit ▸ h)
      have hb : after.buffer.data = s.buffer.data ++ s.pending := by simpa [hp] using hs.bytes
      have hn := congrArg List.length hb
      simp only [List.length_append] at hn
      refine ⟨last, taken + 1, by simp [gatherFrom, hd, hw, hg, Except.map], ?_, hl.rest, ?_, hl.dry, ?_, ?_,
        hl.limit.trans hs.limit, hl.connected.trans hs.connected, fun hroom => ?_⟩
      · rw [hl.bytes, hb]; simp
      · simpa using hl.le
      · rw [hl.size]
        simp only [Buffer.size, List.length_append, List.flatten_cons]
        have := hs.size
        simp only [Buffer.size] at this hw
        omega
      · intro j hj
        simp only [Buffer.size] at hw ⊢
        cases j with
        | zero =>
          simp only [List.take_zero, List.flatten_nil, List.length_nil]
          omega
        | succ i =>
          have := hl.needed i (Nat.lt_of_succ_lt_succ hj)
          simp only [Buffer.size, List.take_succ_cons, List.flatten_cons, List.length_append] at this ⊢
          omega
      · exact (hl.room ((hs.room hroom).symm ▸ hroom)).trans (hs.room hroom)

/-- **Gathering within the limit never fails**, and what it gathers is the front of the stream. -/
theorem exists_gather {s : ReadSide} {wanted : Nat} (h : Within s.buffer.limit wanted) :
    ∃ after taken, s.gather wanted = (after, .ok taken) ∧ Gathered s after s.queue wanted taken :=
  exists_gatherFrom s.queue h

end ReadSide
end TopicBus
