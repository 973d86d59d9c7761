import TopicBus.ReadSide.Gather
import TopicBus.Proofs.Contents
/-!
# Gathering, round by round

`ReadSide.gather` goes through the inbox chunk by chunk.  A reader who looks no further than the pending bytes gathers
in rounds: while its buffer holds too little, it takes the oldest chunk out of the inbox if no bytes are pending, and
moves as many pending bytes as are missing (`Gatherer.round`).  A round may find an empty chunk and move nothing, or
leave most of a chunk pending.

Both come to the same, also where the buffer refuses (`gather_of_rounds`): what is still to come of a gathering
(`Gatherer.rest`) is the same after a round as before it.  The rounds end, as each but the first takes a chunk
(`rounds_add_roundsLeft`), and within the limit they end with the buffer as full as can be (`gathers_in_rounds`).
-/
namespace TopicBus

/-! ## Rounds -/

/-- A reader at work: its read side, and how many chunks it took out of the inbox so far. -/
structure Gatherer where
  side : ReadSide
  taken : Nat

/-- What comes of a round: the reader goes on from there, or it was done before, or the buffer refused the bytes. -/
inductive Round
  | more (next : Gatherer)
  | ended
  | refused (side : ReadSide) (cause : OverLimit)

namespace Gatherer

/-- The reader with bytes to move.  If none are pending it takes the oldest chunk; there may be none. -/
def refill (g : Gatherer) : Option Gatherer :=
  if g.side.pending = [] then
    match g.side.receive with
    | (side, .chunk data) => some ⟨{ side with pending := data }, g.taken + 1⟩
    | (_, .nothingYet) | (_, .disconnected) => none
  else some g

/-- One round of gathering until the buffer holds `wanted` bytes. -/
def round (wanted : Nat) (g : Gatherer) : Round :=
  if wanted ≤ g.side.buffer.size then .ended
  else
    match g.refill with
    | none => .ended
    | some ready =>
      match ready.side.move (wanted - g.side.buffer.size) with
      | (side, .ok ()) => .more ⟨side, ready.taken⟩
      | (side, .error cause) => .refused side cause

/-- So many rounds lead from one state of the reader to another. -/
inductive Rounds (wanted : Nat) : Nat → Gatherer → Gatherer → Prop
  | none (g : Gatherer) : Rounds wanted 0 g g
  | more {g next last : Gatherer} {n : Nat} : g.round wanted = .more next → Rounds wanted n next last →
      Rounds wanted (n + 1) g last

/-- What gathering comes to from here on. -/
def rest (wanted : Nat) (g : Gatherer) : ReadSide × Except OverLimit Nat :=
  ((g.side.gather wanted).1, (g.side.gather wanted).2.map (g.taken + ·))

/-- The most rounds that can follow: one for each chunk, and one for bytes that are pending and wanted. -/
def roundsLeft (wanted : Nat) (g : Gatherer) : Nat :=
  g.side.queue.length + if g.side.pending = [] ∨ wanted ≤ g.side.buffer.size then 0 else 1

end Gatherer

/-! ## Moving bytes -/

theorem Buffer.extend_eq_ok_iff {b after : Buffer} {src : Bytes} : b.extend src = .ok after ↔
    Within b.limit (b.size + src.length) ∧
      after = ⟨b.data ++ src, grown b.capacity (b.size + src.length), b.limit⟩ := by
  constructor
  · intro h
    cases hc : checkLimit b.limit (b.size + src.length) with
    | ok _ =>
      have hwithin := checkLimit_eq_ok_iff.1 hc
      rw [extend_of_within hwithin] at h
      exact ⟨hwithin, (Except.ok.inj h).symm⟩
    | error cause =>
      rw [extend, ensure, hc] at h
      cases h
  · rintro ⟨hwithin, rfl⟩
    exact extend_of_within hwithin

theorem Buffer.data_of_extend {b after : Buffer} {src : Bytes} (h : b.extend src = .ok after) :
    after.data = b.data ++ src := by
  rw [(Buffer.extend_eq_ok_iff.1 h).2]

theorem Buffer.limit_of_extend {b after : Buffer} {src : Bytes} (h : b.extend src = .ok after) :
    after.limit = b.limit := by
  rw [(Buffer.extend_eq_ok_iff.1 h).2]

/-- To a buffer with room for its contents, extending by nothing does nothing. -/
theorem Buffer.Fits.extend_nil {b : Buffer} {limit : Option Nat} (hb : b.Fits limit) : b.extend [] = .ok b := by
  obtain ⟨rfl, hroom, hwithin⟩ := hb
  rw [Buffer.extend_of_within (by simpa using hwithin)]
  simp [grown, Nat.not_lt.2 hroom]

theorem Buffer.Fits.extend {b after : Buffer} {src : Bytes} {limit : Option Nat} (hb : b.Fits limit)
    (h : b.extend src = .ok after) : after.Fits limit := by
  have hfits := (mirrors_use hb (u := ⟨.doubling, .extend src⟩) Reserve.provides_doubling).fits
  rw [← step_eq_use hb.room, step, h] at hfits
  exact hfits

namespace ReadSide

variable {s after : ReadSide} {wanted count : Nat}

theorem of_move_ok (h : s.move count = (after, .ok ())) :
    s.buffer.extend (s.pending.take count) = .ok after.buffer ∧ after.pending = s.pending.drop count ∧
      after.queue = s.queue := by
  unfold move at h
  split at h
  · rename_i buffer hbuffer
    obtain ⟨rfl, -⟩ := Prod.mk.inj h
    exact ⟨hbuffer, rfl, rfl⟩
  · cases h

/-- Moving as many bytes as are missing leaves none pending, or none missing. -/
theorem settled_of_move (h : s.move (wanted - s.buffer.size) = (after, .ok ())) (hw : s.buffer.size ≤ wanted) :
    after.pending = [] ∨ after.buffer.size = wanted := by
  obtain ⟨hbuffer, hpending, -⟩ := of_move_ok h
  have hsize : after.buffer.size = s.buffer.size + min (wanted - s.buffer.size) s.pending.length := by
    rw [Buffer.size, Buffer.data_of_extend hbuffer, List.length_append, List.length_take]
    rfl
  rw [hpending, List.drop_eq_nil_iff]
  omega

theorem bytes_of_move (h : s.move count = (after, .ok ())) :
    after.buffer.data ++ after.stream = s.buffer.data ++ s.stream := by
  obtain ⟨hbuffer, hpending, hqueue⟩ := of_move_ok h
  rw [stream, stream, hpending, hqueue, Buffer.data_of_extend hbuffer, List.append_assoc,
    ← List.append_assoc (s.pending.take count), List.take_append_drop]

theorem queue_move (s : ReadSide) (count : Nat) : (s.move count).1.queue = s.queue := by
  unfold move
  split <;> rfl

/-- While something is missing, drawing is moving: if nothing is pending both leave the read side as it is. -/
theorem draw_eq_move {limit : Option Nat} (hb : s.buffer.Fits limit) (hw : s.buffer.size < wanted) :
    s.draw wanted = s.move (wanted - s.buffer.size) := by
  unfold draw
  by_cases hp : s.pending = []
  · rw [if_pos (.inr hp), move, hp, List.take_nil, hb.extend_nil, List.drop_nil, ← hp]
  · rw [if_neg (by simp [hp, hw])]

/-- After a draw there is nothing more to draw. -/
theorem draw_draw (h : s.draw wanted = (after, .ok ())) : after.draw wanted = (after, .ok ()) := by
  unfold draw at h
  split at h
  · rename_i hdone
    obtain ⟨rfl, -⟩ := Prod.mk.inj h
    exact if_pos hdone
  · rename_i hlack
    have hw : s.buffer.size ≤ wanted := Nat.le_of_not_le fun hfull => hlack (.inl hfull)
    exact if_pos ((settled_of_move h hw).symm.imp_left fun hfull => Nat.le_of_eq hfull.symm)

theorem gatherFrom_congr {t : ReadSide} (h : s.draw wanted = t.draw wanted) (queue : List Bytes) :
    gatherFrom wanted s queue = gatherFrom wanted t queue := by
  cases queue <;> simp only [gatherFrom, h]

/-- What the inbox holds plays no part in a draw. -/
theorem draw_queue (s : ReadSide) (wanted : Nat) (queue : List Bytes) :
    { s with queue }.draw wanted = ({ (s.draw wanted).1 with queue }, (s.draw wanted).2) := by
  unfold draw move
  split
  · rfl
  · dsimp only
    split <;> rfl

theorem gatherFrom_queue (s : ReadSide) (wanted : Nat) (held queue : List Bytes) :
    gatherFrom wanted { s with queue := held } queue = gatherFrom wanted s queue := by
  induction queue generalizing s with
  | nil =>
    simp only [gatherFrom, draw_queue]
    obtain ⟨t, cause | _⟩ := s.draw wanted <;> rfl
  | cons chunk rest ih =>
    simp only [gatherFrom, draw_queue]
    obtain ⟨t, cause | _⟩ := s.draw wanted
    · rfl
    · simp only
      rw [← ih { t with pending := chunk }]

/-- Gathering out of an inbox with a chunk, where no bytes are pending, is gathering with that chunk pending. -/
theorem gather_of_chunk {chunk : Bytes} {rest : List Bytes} (hw : s.buffer.size < wanted) (hp : s.pending = [])
    (hq : s.queue = chunk :: rest) : s.gather wanted =
      let out := { s with pending := chunk, queue := rest }.gather wanted
      (out.1, out.2.map (· + 1)) := by
  have hdraw : s.draw wanted = (s, .ok ()) := if_pos (.inr hp)
  have hrest : gatherFrom wanted { s with pending := chunk, queue := rest } rest =
      gatherFrom wanted { s with pending := chunk } rest := gatherFrom_queue { s with pending := chunk } wanted rest rest
  rw [gather, hq, gatherFrom, hdraw, gather, hrest]
  exact if_neg (Nat.not_le.2 hw)

/-- A gathering that ends short has emptied the inbox. -/
theorem queue_eq_nil_of_gatherFrom {queue : List Bytes} {taken : Nat}
    (h : gatherFrom wanted s queue = (after, .ok taken)) (hw : after.buffer.size < wanted) : after.queue = [] := by
  induction queue generalizing s taken with
  | nil =>
    rw [gatherFrom] at h
    split at h
    · rw [← (Prod.mk.inj h).1]
    · cases h
  | cons chunk rest ih =>
    rw [gatherFrom] at h
    split at h
    · cases h
    · split at h
      · rename_i hfull
        obtain ⟨rfl, -⟩ := Prod.mk.inj h
        exact absurd hw (Nat.not_lt.2 hfull)
      · rename_i t _ _
        rcases hg : gatherFrom wanted { t with pending := chunk } rest with ⟨last, cause | n⟩
        · rw [hg] at h
          cases h
        · rw [hg] at h
          cases h
          exact ih hg

end ReadSide

namespace Gatherer

variable {g next ready : Gatherer} {wanted n : Nat} {limit : Option Nat}

/-- The two ways to have bytes to move. -/
inductive Refilled : Gatherer → Gatherer → Prop
  | pending {g : Gatherer} : g.side.pending ≠ [] → Refilled g g
  | chunk {side : ReadSide} {taken : Nat} {data : Bytes} {queue : List Bytes} : side.pending = [] →
      side.queue = data :: queue → Refilled ⟨side, taken⟩ ⟨{ side with pending := data, queue }, taken + 1⟩

theorem Refilled.buffer (h : Refilled g ready) : ready.side.buffer = g.side.buffer := by
  cases h <;> rfl

theorem Refilled.stream (h : Refilled g ready) : ready.side.stream = g.side.stream := by
  cases h with
  | pending => rfl
  | chunk hp hq => simp only [ReadSide.stream, hp, hq, List.nil_append, List.flatten_cons]

/-- A chunk is taken only where no bytes are pending, and then just the oldest one. -/
theorem Refilled.chunks (h : Refilled g ready) :
    (g.side.pending ≠ [] ∧ ready.side.queue = g.side.queue ∧ ready.taken = g.taken) ∨
    (g.side.pending = [] ∧ (∃ chunk, g.side.queue = chunk :: ready.side.queue) ∧ ready.taken = g.taken + 1) := by
  cases h with
  | pending hp => exact .inl ⟨hp, rfl, rfl⟩
  | chunk hp hq => exact .inr ⟨hp, ⟨_, hq⟩, rfl⟩

theorem refilled_of_some (h : g.refill = some ready) : Refilled g ready := by
  obtain ⟨⟨buffer, pending, queue, connected⟩, taken⟩ := g
  unfold refill at h
  split at h
  · rename_i hp
    rcases queue with _ | ⟨data, queue⟩
    · cases connected <;> cases h
    · cases h
      exact .chunk hp rfl
  · rename_i hp
    cases h
    exact .pending hp

theorem empty_of_refill_none (h : g.refill = none) : g.side.pending = [] ∧ g.side.queue = [] := by
  obtain ⟨⟨buffer, pending, queue, connected⟩, taken⟩ := g
  unfold refill at h
  split at h
  · rename_i hp
    rcases queue with _ | ⟨data, queue⟩
    · exact ⟨hp, rfl⟩
    · cases h
  · cases h

/-- The ways in which a round can go. -/
inductive Goes (wanted : Nat) (g : Gatherer) : Round → Prop
  | full : wanted ≤ g.side.buffer.size → Goes wanted g .ended
  | dry : g.side.buffer.size < wanted → g.side.pending = [] → g.side.queue = [] → Goes wanted g .ended
  | moved {ready : Gatherer} {side : ReadSide} : g.side.buffer.size < wanted → Refilled g ready →
      ready.side.move (wanted - ready.side.buffer.size) = (side, .ok ()) → Goes wanted g (.more ⟨side, ready.taken⟩)
  | refused {ready : Gatherer} {side : ReadSide} {cause : OverLimit} : g.side.buffer.size < wanted →
      Refilled g ready → ready.side.move (wanted - ready.side.buffer.size) = (side, .error cause) →
      Goes wanted g (.refused side cause)

theorem goes_round (wanted : Nat) (g : Gatherer) : Goes wanted g (g.round wanted) := by
  unfold round
  split
  · rename_i hfull
    exact .full hfull
  · rename_i hlack
    have hw := Nat.lt_of_not_le hlack
    cases hr : g.refill with
    | none =>
      obtain ⟨hp, hq⟩ := empty_of_refill_none hr
      exact .dry hw hp hq
    | some ready =>
      have hready := refilled_of_some hr
      simp only [← hready.buffer]
      rcases hm : ready.side.move (wanted - ready.side.buffer.size) with ⟨side, cause | _⟩
      · exact .refused hw hready hm
      · exact .moved hw hready hm

theorem goes_of_round {out : Round} (h : g.round wanted = out) : Goes wanted g out := h ▸ goes_round wanted g

/-! ## A round changes nothing in what is to come -/

theorem Refilled.rest (h : Refilled g ready) (hw : g.side.buffer.size < wanted) : ready.rest wanted = g.rest wanted := by
  cases h with
  | pending => rfl
  | @chunk side taken data queue hp hq =>
    simp only [Gatherer.rest, ReadSide.gather_of_chunk hw hp hq]
    cases ({ side with pending := data, queue }.gather wanted).2 with
    | error cause => rfl
    | ok n =>
      simp only [Except.map]
      rw [Nat.add_assoc, Nat.add_comm 1 n]

/-- Gathering begins with the move that a round makes. -/
theorem rest_of_move {side : ReadSide} {result : Except OverLimit Unit} (hb : g.side.buffer.Fits limit)
    (hw : g.side.buffer.size < wanted) (hm : g.side.move (wanted - g.side.buffer.size) = (side, result)) :
    g.rest wanted = match result with
      | .ok () => rest wanted ⟨side, g.taken⟩
      | .error cause => (side, .error cause) := by
  have hdraw : g.side.draw wanted = (side, result) := (ReadSide.draw_eq_move hb hw).trans hm
  have hqueue : side.queue = g.side.queue := by
    rw [← ReadSide.queue_move g.side (wanted - g.side.buffer.size), hm]
  cases result with
  | ok =>
    have hgather : side.gather wanted = g.side.gather wanted := by
      rw [ReadSide.gather, hqueue]
      exact ReadSide.gatherFrom_congr ((ReadSide.draw_draw hdraw).trans hdraw.symm) _
    simp only [rest, hgather]
  | error cause =>
    have hgather : g.side.gather wanted = (side, .error cause) := by
      rw [ReadSide.gather, ← hqueue]
      cases hq : side.queue <;> simp only [ReadSide.gatherFrom, hdraw, ← hq]
    rw [rest, hgather]
    rfl

theorem rest_of_ended (h : g.round wanted = .ended) : g.rest wanted = (g.side, .ok g.taken) := by
  have hgather : g.side.gather wanted = (g.side, .ok 0) := by
    rw [ReadSide.gather]
    cases goes_of_round h with
    | full hfull =>
      have hdraw : g.side.draw wanted = (g.side, .ok ()) := if_pos (.inl hfull)
      cases hq : g.side.queue with
      | nil => simp only [ReadSide.gatherFrom, hdraw, ← hq]
      | cons => simp only [ReadSide.gatherFrom, hdraw, if_pos hfull, ← hq]
    | dry hw hp hq =>
      have hdraw : g.side.draw wanted = (g.side, .ok ()) := if_pos (.inr hp)
      rw [hq, ReadSide.gatherFrom, hdraw]
      simp only [← hq]
  rw [rest, hgather]
  rfl

theorem rest_of_more (hb : g.side.buffer.Fits limit) (h : g.round wanted = .more next) :
    next.rest wanted = g.rest wanted := by
  cases goes_of_round h with
  | @moved ready side hw hready hm =>
    rw [← hready.rest hw]
    rw [← hready.buffer] at hb hw
    exact (rest_of_move hb hw hm).symm

theorem rest_of_refused {side : ReadSide} {cause : OverLimit} (hb : g.side.buffer.Fits limit)
    (h : g.round wanted = .refused side cause) : g.rest wanted = (side, .error cause) := by
  cases goes_of_round h with
  | @refused ready _ _ hw hready hm =>
    rw [← hready.rest hw]
    rw [← hready.buffer] at hb hw
    exact rest_of_move hb hw hm

/-! ## What a round does -/

/-- What a round does after which the reader goes on. -/
structure Forward (wanted : Nat) (g next : Gatherer) : Prop where
  /-- The buffer held too little. -/
  lacking : g.side.buffer.size < wanted
  /-- A chunk is taken only where no bytes are pending, then just the oldest one, and it is counted. -/
  chunks : (g.side.pending ≠ [] ∧ next.side.queue = g.side.queue ∧ next.taken = g.taken) ∨
    (g.side.pending = [] ∧ (∃ chunk, g.side.queue = chunk :: next.side.queue) ∧ next.taken = g.taken + 1)
  /-- Bytes keep their order. -/
  bytes : next.side.buffer.data ++ next.side.stream = g.side.buffer.data ++ g.side.stream
  /-- They move to the end of the buffer. -/
  moved : g.side.buffer.data <+: next.side.buffer.data
  /-- All that were pending do, or as many as were missing. -/
  settled : next.side.pending = [] ∨ next.side.buffer.size = wanted
  limit : next.side.buffer.limit = g.side.buffer.limit

theorem forward_of_more (h : g.round wanted = .more next) : Forward wanted g next := by
  cases goes_of_round h with
  | @moved ready side hw hready hm =>
    obtain ⟨hbuffer, -, hqueue⟩ := ReadSide.of_move_ok hm
    have hdata : side.buffer.data = ready.side.buffer.data ++ _ := Buffer.data_of_extend hbuffer
    have hlimit : side.buffer.limit = ready.side.buffer.limit := Buffer.limit_of_extend hbuffer
    have hbytes := ReadSide.bytes_of_move hm
    have hsettled := ReadSide.settled_of_move hm (hready.buffer.symm ▸ Nat.le_of_lt hw)
    rw [hready.buffer] at hdata hlimit hbytes
    rw [hready.stream] at hbytes
    exact ⟨hw, hqueue ▸ hready.chunks, hbytes, ⟨_, hdata.symm⟩, hsettled, hlimit⟩

theorem fits_of_more (hb : g.side.buffer.Fits limit) (h : g.round wanted = .more next) :
    next.side.buffer.Fits limit := by
  cases goes_of_round h with
  | moved hw hready hm =>
    rw [← hready.buffer] at hb
    exact hb.extend (ReadSide.of_move_ok hm).1

/-- Within the limit no round is refused. -/
theorem round_ne_refused (hl : Within g.side.buffer.limit wanted) (side : ReadSide) (cause : OverLimit) :
    g.round wanted ≠ .refused side cause := by
  intro h
  cases goes_of_round h with
  | @refused ready _ _ hw hready hm =>
    rw [← hready.buffer] at hw hl
    have hwithin : Within ready.side.buffer.limit (ready.side.buffer.size +
        (ready.side.pending.take (wanted - ready.side.buffer.size)).length) :=
      hl.mono (by rw [List.length_take]; omega)
    rw [ReadSide.move, Buffer.extend_of_within hwithin] at hm
    cases hm

/-- **Each round uses up one** of the rounds that were left. -/
theorem Forward.roundsLeft (h : Forward wanted g next) : next.roundsLeft wanted + 1 = g.roundsLeft wanted := by
  have hnext : next.roundsLeft wanted = next.side.queue.length := by
    rw [Gatherer.roundsLeft, if_pos (h.settled.imp_right fun hfull => Nat.le_of_eq hfull.symm), Nat.add_zero]
  have hlack : ¬ wanted ≤ g.side.buffer.size := Nat.not_le.2 h.lacking
  rw [hnext, Gatherer.roundsLeft]
  rcases h.chunks with ⟨hp, hq, -⟩ | ⟨hp, ⟨chunk, hq⟩, -⟩
  · rw [if_neg (by simp [hp, hlack]), hq]
  · rw [if_pos (.inl hp), hq, List.length_cons, Nat.add_zero]

/-! ## All rounds -/

theorem rounds_add_roundsLeft {last : Gatherer} (h : Rounds wanted n g last) :
    n + last.roundsLeft wanted = g.roundsLeft wanted := by
  induction h with
  | none => exact Nat.zero_add _
  | @more g next last n hround _ ih =>
    have hone := (forward_of_more hround).roundsLeft
    omega

/-- **Within the limit the rounds come to their end.** -/
theorem exists_ended (hl : Within g.side.buffer.limit wanted) :
    ∃ n last, Rounds wanted n g last ∧ last.round wanted = .ended := by
  -- by induction on the rounds left
  induction hk : g.roundsLeft wanted using Nat.strongRecOn generalizing g with
  | ind k ih =>
    cases hround : g.round wanted with
    | ended => exact ⟨0, g, .none g, hround⟩
    | refused side cause => exact absurd hround (round_ne_refused hl side cause)
    | more next =>
      have hforward := forward_of_more hround
      obtain ⟨n, last, hrounds, hended⟩ := ih _ (by have := hforward.roundsLeft; omega) (hforward.limit ▸ hl) rfl
      exact ⟨n + 1, last, .more hround hrounds, hended⟩

theorem limit_of_rounds {last : Gatherer} (h : Rounds wanted n g last) :
    last.side.buffer.limit = g.side.buffer.limit := by
  induction h with
  | none => rfl
  | more hround _ ih => exact ih.trans (forward_of_more hround).limit

theorem rest_of_rounds {last : Gatherer} (hb : g.side.buffer.Fits limit) (h : Rounds wanted n g last) :
    last.side.buffer.Fits limit ∧ last.rest wanted = g.rest wanted := by
  induction h with
  | none => exact ⟨hb, rfl⟩
  | more hround _ ih =>
    obtain ⟨hlast, hrest⟩ := ih (fits_of_more hb hround)
    exact ⟨hlast, hrest.trans (rest_of_more hb hround)⟩

end Gatherer

namespace ReadSide

open Gatherer

variable {s after : ReadSide} {wanted n taken : Nat}

theorem rest_begun (s : ReadSide) (wanted : Nat) : rest wanted ⟨s, 0⟩ = s.gather wanted := by
  unfold rest
  rcases s.gather wanted with ⟨after, cause | taken⟩
  · rfl
  · simp only [Except.map, Nat.zero_add]

/-- **Gathering is what the rounds come to**: where they end it ends, with the chunks counted that they took, and where
one of them is refused it fails. -/
theorem gather_of_rounds {last : Gatherer} {limit : Option Nat} (hb : s.buffer.Fits limit)
    (h : Rounds wanted n ⟨s, 0⟩ last) :
    (last.round wanted = .ended → s.gather wanted = (last.side, .ok last.taken)) ∧
    ∀ side cause, last.round wanted = .refused side cause → s.gather wanted = (side, .error cause) := by
  obtain ⟨hlast, hrest⟩ := rest_of_rounds hb h
  rw [← rest_begun s wanted, ← hrest]
  exact ⟨rest_of_ended, fun side cause => rest_of_refused hlast⟩

/-! ## Within the limit -/

/-- What a gathering of `wanted` bytes comes to that took `taken` chunks out of the inbox. -/
structure Collected (wanted : Nat) (before after : ReadSide) (taken : Nat) : Prop where
  /-- No byte is lost, and they keep their order. -/
  bytes : after.buffer.data ++ after.pending ++ after.queue.flatten =
    before.buffer.data ++ before.pending ++ before.queue.flatten
  /-- The buffer gets what it lacks, from the front of the stream. -/
  moved : after.buffer.data = before.buffer.data ++ before.stream.take (wanted - before.buffer.size)
  size : after.buffer.size = max before.buffer.size
    (min wanted (before.buffer.size + before.pending.length + before.queue.flatten.length))
  /-- The chunks counted are the oldest ones, and the rest of the inbox is as it was. -/
  taken_le : taken ≤ before.queue.length
  queue : after.queue = before.queue.drop taken
  /-- Each of them was needed: with all the bytes before it the buffer would still have lacked some. -/
  needed : ∀ j < taken, before.buffer.size + before.pending.length + (before.queue.take j).flatten.length < wanted
  /-- Where the buffer still lacks some, nothing is left. -/
  short : after.buffer.size < wanted → after.pending = [] ∧ after.queue = []

theorem exists_collected (h : Within s.buffer.limit wanted) :
    ∃ after taken, s.gather wanted = (after, .ok taken) ∧ Collected wanted s after taken := by
  obtain ⟨after, taken, hg, hgathered⟩ := exists_gather h
  have hbytes : after.buffer.data ++ after.stream = s.buffer.data ++ s.stream := hgathered.bytes
  have hsize : after.buffer.data.length = max s.buffer.size (min wanted (s.buffer.size + s.stream.length)) := by
    rw [stream, List.length_append, ← Nat.add_assoc]
    exact hgathered.size
  refine ⟨after, taken, hg, ?bytes, ?moved, hgathered.size, hgathered.le, hgathered.rest, hgathered.needed, ?short⟩
  case bytes => simpa [stream] using hbytes
  case moved =>
    have hfront := congrArg (List.take after.buffer.data.length) hbytes
    have hheld : s.buffer.data.length ≤ after.buffer.data.length := by
      unfold Buffer.size at hsize
      omega
    rw [List.take_left, List.take_append, List.take_of_length_le hheld] at hfront
    rw [hfront]
    refine congrArg _ (List.take_eq_take_iff.2 ?_)
    unfold Buffer.size at hsize ⊢
    omega
  case short =>
    intro hw
    exact ⟨(List.append_eq_nil_iff.1 (hgathered.dry hw)).1, queue_eq_nil_of_gatherFrom hg hw⟩

theorem gather_of_ended {last : Gatherer} (hl : Within s.buffer.limit wanted) (hroom : s.buffer.size ≤ s.buffer.capacity)
    (h : Rounds wanted n ⟨s, 0⟩ last) (hended : last.round wanted = .ended) :
    s.gather wanted = (last.side, .ok last.taken) := by
  cases h with
  | none => exact (rest_begun s wanted).symm.trans (rest_of_ended hended)
  | more hround hrounds =>
    -- contents beyond the limit would lack nothing, so a buffer that has a round before it fits
    have hlacking : s.buffer.size < wanted := (forward_of_more hround).lacking
    have hfits : s.buffer.Fits s.buffer.limit := ⟨rfl, hroom, hl.mono (Nat.le_of_lt hlacking)⟩
    exact (gather_of_rounds hfits (.more hround hrounds)).1 hended

/-- **Gathering, round by round.**  Within the limit gathering does not fail, and it leaves the buffer as full as can be
(`Collected`).  The rounds come to the same end, if the buffer has room for its contents as any buffer has.  They are at
most one for each chunk and one more; none of them is refused, and each one keeps all bytes in their order and takes a
chunk only where no bytes are pending and the buffer lacks some (`Forward`). -/
theorem gathers_in_rounds (h : Within s.buffer.limit wanted) :
    ∃ after taken, s.gather wanted = (after, .ok taken) ∧ Collected wanted s after taken ∧
      (∃ n last, Rounds wanted n ⟨s, 0⟩ last ∧ last.round wanted = .ended ∧
        (s.buffer.size ≤ s.buffer.capacity → last = ⟨after, taken⟩)) ∧
      ∀ n g, Rounds wanted n ⟨s, 0⟩ g → n ≤ s.queue.length + 1 ∧
        (∀ side cause, g.round wanted ≠ .refused side cause) ∧
        ∀ next, g.round wanted = .more next → Forward wanted g next := by
  obtain ⟨after, taken, hg, hcollected⟩ := exists_collected h
  obtain ⟨rounds, last, hrounds, hended⟩ := exists_ended (g := ⟨s, 0⟩) h
  refine ⟨after, taken, hg, hcollected, ⟨rounds, last, hrounds, hended, ?same⟩, fun n g hn => ⟨?few, ?granted, ?forward⟩⟩
  case same =>
    intro hroom
    have hboth := (gather_of_ended h hroom hrounds hended).symm.trans hg
    obtain ⟨hside, htaken⟩ := Prod.mk.inj hboth
    rw [← hside, ← Except.ok.inj htaken]
  case few =>
    have hleft := rounds_add_roundsLeft hn
    have hmost : roundsLeft wanted ⟨s, 0⟩ ≤ s.queue.length + 1 := Nat.add_le_add_left (by split <;> omega) _
    omega
  case granted => exact round_ne_refused ((limit_of_rounds hn).symm ▸ h)
  case forward => exact fun next hnext => forward_of_more hnext

/-- Five bytes are asked for: two are pending, an empty chunk is in the way and one is left unfinished. -/
theorem gathers_in_rounds_past_empty :
    let s : ReadSide := ⟨⟨[9], 4, some 5⟩, [1, 2], [[], [3, 4, 5], [], [6]], true⟩
    let after : ReadSide := ⟨⟨[9, 1, 2, 3, 4], 8, some 5⟩, [5], [[], [6]], true⟩
    Within s.buffer.limit 5 ∧ s.gather 5 = (after, .ok 2) ∧ Collected 5 s after 2 ∧
      ∃ n, n ≤ 5 ∧ Rounds 5 n ⟨s, 0⟩ ⟨after, 2⟩ := by
  intro s after
  have hwithin : Within s.buffer.limit 5 := checkLimit_eq_ok_iff.1 rfl
  have hafter : s.gather 5 = (after, .ok 2) := rfl
  obtain ⟨side, taken, hg, hcollected, ⟨n, last, hrounds, -, hsame⟩, hmost⟩ := gathers_in_rounds hwithin
  obtain ⟨rfl, htaken⟩ := Prod.mk.inj (hg.symm.trans hafter)
  obtain rfl := Except.ok.inj htaken
  rw [hsame (by decide)] at hrounds
  exact ⟨hwithin, hg, hcollected, n, (hmost n _ hrounds).1, hrounds⟩

end ReadSide
end TopicBus
