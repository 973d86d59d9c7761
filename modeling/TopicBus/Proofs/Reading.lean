import TopicBus.ReadSide.Gather
import TopicBus.Proofs.Sides
/-!
# What a read does

A read that has the read side to itself ends in one of six ways (`Fetched`), whether it begins (`fetched_fetch`) or goes
on after it waited at the inbox (`fetched_await`).  When there are bytes it gets the front of the stream, in as few
chunks as that takes (`ReadSide.Takes`), and what it leaves behind is known in full (`Binding.served`).
-/
namespace TopicBus

theorem grown_of_le {capacity wanted : Nat} (h : wanted ≤ capacity) : grown capacity wanted = capacity :=
  if_neg (Nat.not_lt.2 h)

theorem grown_grown (capacity wanted : Nat) : grown (grown capacity wanted) wanted = grown capacity wanted :=
  grown_of_le (wanted_le_grown capacity wanted)

/-- A read never asks for more than the limit allows, unless that is nothing at all. -/
theorem within_clampRead {limit : Option Nat} (h : limit ≠ some 0) (wanted : Nat) :
    Within limit (clampRead limit wanted) := by
  rintro most rfl
  simp only [ne_eq, Option.some.injEq] at h
  simp only [clampRead]
  omega

theorem clampRead_pos (limit : Option Nat) {wanted : Nat} (h : 0 < wanted) : 0 < clampRead limit wanted := by
  unfold clampRead
  split <;> omega

namespace ReadSide

/-! ## The stream and its chunks -/

/-- `taken` is the least number of chunks out of the inbox with which a read gets all it wants, or all there is. -/
structure Takes (s : ReadSide) (wanted taken : Nat) : Prop where
  le : taken ≤ s.queue.length
  enough : min wanted s.stream.length ≤ (s.pending ++ (s.queue.take taken).flatten).length
  least : ∀ j < taken, (s.pending ++ (s.queue.take j).flatten).length < min wanted s.stream.length

/-- The read side when a read has sized its buffer. -/
def sized (s : ReadSide) (wanted : Nat) : ReadSide :=
  { s with buffer := ⟨[], grown s.buffer.capacity wanted, s.buffer.limit⟩ }

/-- The read side after a read of `wanted` bytes for which `taken` chunks left the inbox. -/
def served (s : ReadSide) (wanted taken : Nat) : ReadSide :=
  { s.sized wanted with
    pending := (s.pending ++ (s.queue.take taken).flatten).drop wanted
    queue := s.queue.drop taken }

theorem stream_eq_split (s : ReadSide) (taken : Nat) :
    s.stream = (s.pending ++ (s.queue.take taken).flatten) ++ (s.queue.drop taken).flatten := by
  rw [List.append_assoc, ← List.flatten_append, List.take_append_drop, stream]

/-- **A read takes the front of the stream and leaves the rest.** -/
theorem Takes.stream_served {s : ReadSide} {wanted taken : Nat} (h : s.Takes wanted taken) :
    (s.served wanted taken).stream = s.stream.drop wanted := by
  have hs := s.stream_eq_split taken
  have hn := congrArg List.length hs
  have he := h.enough
  simp only [List.length_append] at hn he
  rw [hs, List.drop_append]
  by_cases hw : wanted ≤ (s.pending ++ (s.queue.take taken).flatten).length
  · rw [Nat.sub_eq_zero_of_le hw, List.drop_zero]
    rfl
  · have hr : (s.queue.drop taken).flatten = [] := by
      apply List.eq_nil_of_length_eq_zero
      simp only [List.length_append] at hw
      omega
    simp only [served, stream, hr, List.append_nil, List.drop_nil]

/-- Chunks are not empty, so some of them are shorter than all. -/
theorem length_flatten_take_lt {queue : List Bytes} (h : ∀ c ∈ queue, c ≠ []) {j : Nat} (hj : j < queue.length) :
    (queue.take j).flatten.length < queue.flatten.length := by
  have hd : queue.drop j = queue[j] :: queue.drop (j + 1) := List.drop_eq_getElem_cons hj
  have hc : 0 < queue[j].length := List.length_pos_iff.2 (h _ (List.getElem_mem hj))
  have hn := congrArg (fun l : List Bytes => l.flatten.length) (List.take_append_drop j queue)
  simp only [hd, List.flatten_append, List.flatten_cons, List.length_append] at hn
  omega

/-- **Gathering serves a read in full**, out of a sized buffer. -/
theorem gather_eq {s : ReadSide} {wanted : Nat} (hd : s.buffer.data = []) (hq : ∀ c ∈ s.queue, c ≠ [])
    (hl : Within s.buffer.limit wanted) (hr : wanted ≤ s.buffer.capacity) :
    ∃ taken, s.Takes wanted taken ∧ s.gather wanted =
      ({ s.served wanted taken with
          buffer := ⟨s.stream.take wanted, s.buffer.capacity, s.buffer.limit⟩ }, .ok taken) := by
  obtain ⟨after, taken, hg, h⟩ := exists_gather hl
  have hbytes : after.buffer.data ++ after.stream = s.stream := by simpa [hd, stream] using h.bytes
  have hsize : after.buffer.data.length = min wanted s.stream.length := by
    have := h.size
    simp only [Buffer.size, hd, List.length_nil] at this
    rw [this, stream, List.length_append]
    omega
  have hfront : after.buffer.data ++ after.pending = s.pending ++ (s.queue.take taken).flatten := by
    refine (List.append_left_inj (s.queue.drop taken).flatten).1 ?_
    rw [← stream_eq_split, ← hbytes, List.append_assoc, ← h.rest]
    rfl
  have hdata : s.stream.take wanted = after.buffer.data ∧
      (after.buffer.data ++ after.pending).drop wanted = after.pending := by
    by_cases hw : wanted ≤ s.stream.length
    · have hlen : after.buffer.data.length = wanted := by omega
      rw [← hbytes]
      exact ⟨List.take_left' hlen, List.drop_left' hlen⟩
    · have hdry : after.stream = [] := h.dry (by simp only [Buffer.size]; omega)
      have hp : after.pending = [] := (List.append_eq_nil_iff.1 hdry).1
      rw [hdry, List.append_nil] at hbytes
      rw [hp, List.append_nil, hbytes]
      exact ⟨List.take_of_length_le (by omega), List.drop_eq_nil_of_le (by omega)⟩
  refine ⟨taken, ⟨h.le, ?_, fun j hj => ?_⟩, ?_⟩
  · rw [← hfront, List.length_append]
    omega
  · have hlt := length_flatten_take_lt hq (Nat.lt_of_lt_of_le hj h.le)
    have hneed := h.needed j hj
    simp only [Buffer.size, hd, List.length_nil, stream, List.length_append] at hneed ⊢
    omega
  · obtain ⟨⟨data, capacity, limit⟩, pending, queue, connected⟩ := after
    rw [hg]
    have hcap : capacity = s.buffer.capacity := h.room hr
    have hlim : limit = s.buffer.limit := h.limit
    have hcon : connected = s.connected := h.connected
    have hque : queue = s.queue.drop taken := h.rest
    simp only [served, sized, ← hfront, hdata.2, hdata.1, hcap, hlim, hcon, hque]

theorem Idle.served {limit : Option Nat} {s : ReadSide} (h : s.Idle limit) (wanted taken : Nat) :
    (s.served wanted taken).Idle limit :=
  ⟨h.limit, rfl, fun c hc => h.chunks c (List.mem_of_mem_drop hc)⟩

theorem Idle.sized {limit : Option Nat} {s : ReadSide} (h : s.Idle limit) (wanted : Nat) :
    (s.sized wanted).Idle limit :=
  ⟨h.limit, rfl, h.chunks⟩

/-- A reader that took the first chunk out of the inbox has one chunk more than gathering takes then. -/
theorem Takes.cons {s : ReadSide} {chunk : Bytes} {rest : List Bytes} {wanted taken : Nat} (hp : s.pending = [])
    (hq : s.queue = chunk :: rest) (hc : chunk ≠ []) (hw : 0 < wanted)
    (h : { s with pending := chunk, queue := rest }.Takes wanted taken) : s.Takes wanted (taken + 1) := by
  have hs : { s with pending := chunk, queue := rest }.stream = s.stream := by simp [stream, hp, hq]
  obtain ⟨hle, henough, hleast⟩ := h
  simp only [hs] at hle henough hleast
  refine ⟨by simpa [hq] using hle, by simpa [hp, hq] using henough, fun j hj => ?_⟩
  cases j with
  | zero =>
    have : 0 < chunk.length := List.length_pos_iff.2 hc
    simp only [hp, List.take_zero, List.flatten_nil, List.nil_append, List.length_nil, stream, hq, List.flatten_cons,
      List.length_append]
    omega
  | succ i => simpa [hp, hq] using hleast i (Nat.lt_of_succ_lt_succ hj)

end ReadSide

namespace Binding

/-! ## The outcome of a read that has the read side -/

/-- The binding when a read has sized the buffer of its read side `s`. -/
def sized (b : Binding) (s : ReadSide) (wanted : Nat) : Binding :=
  { b with
    readSide := some (s.sized wanted)
    readCapacity := grown s.buffer.capacity wanted }

/-- The binding after a read of up to `wanted` bytes was served from its read side `s` with `taken` chunks. -/
def served (b : Binding) (s : ReadSide) (wanted taken : Nat) : Binding :=
  { b.sized s wanted with
    readSide := some (s.served wanted taken)
    traffic := b.traffic.onRead (s.stream.take wanted).length taken }

/-- Every outcome of a read of up to `wanted` bytes that has the read side to itself. -/
inductive Fetched (limit : Option Nat) (wanted : Nat) (b : Binding) : Binding × Except Halt Bytes → Prop
  | closed : b.isOpen = false → Fetched limit wanted b (b.releaseReadSide, .error (.failed .closed))
  | released : b.isOpen = true → b.readSide = none → Fetched limit wanted b (b, .error (.failed .closed))
  | refused {cause : OverLimit} : b.isOpen = true → ¬ Within limit wanted →
      Fetched limit wanted b (b, .error (.failed (.buffer cause)))
  | served {s : ReadSide} {taken : Nat} : b.isOpen = true → b.readSide = some s → s.stream ≠ [] →
      s.Takes wanted taken → Fetched limit wanted b (b.served s wanted taken, .ok (s.stream.take wanted))
  | waits {s : ReadSide} : b.isOpen = true → b.readSide = some s → s.stream = [] → s.connected = true →
      Within limit wanted → Fetched limit wanted b (b.sized s wanted, .error (.waits .atInbox))
  | drained {s : ReadSide} : b.isOpen = true → b.readSide = some s → s.stream = [] → s.connected = false →
      Fetched limit wanted b (b.releaseReadSide, .error (.failed .closed))

/-- The reader whose turn it is has sized the buffer and found nothing pending. -/
def Ready (limit : Option Nat) (wanted : Nat) (b : Binding) : Prop :=
  ∀ s, b.readSide = some s → s.pending = [] ∧ Within limit wanted ∧ wanted ≤ s.buffer.capacity

variable {limit : Option Nat} {down : Bool} {b : Binding} {wanted : Nat}

theorem collect_eq {s : ReadSide} (hi : s.Idle limit) (ho : b.isOpen = true) (hs : b.readSide = some s)
    (hl : Within limit wanted) (hr : wanted ≤ s.buffer.capacity) (received : Nat) :
    ∃ taken, s.Takes wanted taken ∧ b.collect wanted received =
      ({ b with
          readSide := some (s.served wanted taken)
          traffic := b.traffic.onRead (s.stream.take wanted).length (received + taken) },
        .ok (s.stream.take wanted)) := by
  obtain ⟨taken, ht, hg⟩ := ReadSide.gather_eq hi.data hi.chunks (hi.limit ▸ hl) hr
  refine ⟨taken, ht, ?_⟩
  simp only [collect, ho, hs, hg, Bool.not_true, Bool.false_eq_true, if_false, Buffer.take, Buffer.clear]
  simp only [ReadSide.served, ReadSide.sized, grown_of_le hr]

theorem releaseReadSide_of_none (h : b.readSide = none) : b.releaseReadSide = b := by
  rw [releaseReadSide, h]

/-- Giving up the read side forgets what happened to it. -/
theorem releaseReadSide_some {s : ReadSide} (h : b.readSide = some s) (s' : ReadSide) (n : Nat) :
    { b with readSide := some s', readCapacity := n }.releaseReadSide = b.releaseReadSide := by
  rw [releaseReadSide, releaseReadSide, h]

theorem receive_of_nil {s : ReadSide} (h : b.readSide = some s) (hq : s.queue = []) :
    b.receive = (b, if s.connected then .nothingYet else .disconnected) := by
  obtain ⟨terms, isOpen, readSide, writeSide, readCapacity, writeCapacity, traffic, line⟩ := b
  obtain rfl := h
  simp only [receive, ReadSide.receive, hq]

theorem receive_of_cons {s : ReadSide} {chunk : Bytes} {rest : List Bytes} (h : b.readSide = some s)
    (hq : s.queue = chunk :: rest) :
    b.receive = ({ b with readSide := some { s with queue := rest } }, .chunk chunk) := by
  simp only [receive, h, ReadSide.receive, hq]

theorem sized_of_ready (hs : b.Sound limit down) {s : ReadSide} (hr : b.readSide = some s)
    (hcap : wanted ≤ s.buffer.capacity) : b.sized s wanted = b := by
  have hd := (hs.idle s hr).data
  have hc := hs.capacity
  obtain ⟨terms, isOpen, readSide, writeSide, readCapacity, writeCapacity, traffic, line⟩ := b
  obtain rfl := hr
  obtain ⟨⟨data, capacity, lim⟩, pending, queue, connected⟩ := s
  simp only [Option.map_some, Option.getD_some] at hc hd hcap
  simp only [sized, ReadSide.sized, grown_of_le hcap, hd, hc]

/-- A chunk has come for a read that waited. -/
theorem fetched_await_of_cons (hs : b.Sound limit down) (hw : 0 < wanted) (hready : b.Ready limit wanted)
    {s : ReadSide} (hr : b.readSide = some s) {chunk : Bytes} {rest : List Bytes} (hq : s.queue = chunk :: rest) :
    Fetched limit wanted b (b.await wanted) := by
  obtain ⟨hp, hl, hcap⟩ := hready s hr
  have hi := hs.idle s hr
  have hchunk : chunk ≠ [] := hi.chunks chunk (by rw [hq]; exact List.mem_cons_self)
  let s' : ReadSide := { s with pending := chunk, queue := rest }
  have he : b.await wanted = ({ b with readSide := some s' }.collect wanted 1).map id (Except.mapError .failed) := by
    simp only [await, receive_of_cons hr hq, hold, Option.map_some, s']
  rw [he]
  by_cases ho : b.isOpen = true
  · have hi' : s'.Idle limit :=
      ⟨hi.limit, hi.data, fun c hc => hi.chunks c (by rw [hq]; exact List.mem_cons_of_mem _ hc)⟩
    obtain ⟨taken, ht, hc⟩ := collect_eq (b := { b with readSide := some s' }) hi' ho rfl hl hcap 1
    have hstream : s'.stream = s.stream := by simp [s', ReadSide.stream, hp, hq]
    have hserved : s'.served wanted taken = s.served wanted (taken + 1) := by
      simp [s', ReadSide.served, ReadSide.sized, hp, hq]
    have hcapacity : grown s.buffer.capacity wanted = b.readCapacity := by
      rw [hs.capacity, hr, grown_of_le hcap]
      rfl
    have hne : s.stream ≠ [] := by simp [ReadSide.stream, hq, hchunk]
    have hout : Fetched limit wanted b (b.served s wanted (taken + 1), .ok (s.stream.take wanted)) :=
      .served ho hr hne (ReadSide.Takes.cons hp hq hchunk hw ht)
    simp only [served, sized, hcapacity] at hout
    rw [hc, hstream, hserved, Nat.add_comm 1 taken]
    exact hout
  · have hc : { b with readSide := some s' }.collect wanted 1 = (b.releaseReadSide, .error .closed) := by
      rw [collect, ← releaseReadSide_some hr s' b.readCapacity]
      simp [ho]
    rw [hc]
    exact .closed (Bool.not_eq_true _ ▸ ho)

/-- **A read that waited at the inbox** and goes on. -/
theorem fetched_await (hs : b.Sound limit down) (hw : 0 < wanted) (hready : b.Ready limit wanted) :
    Fetched limit wanted b (b.await wanted) := by
  cases hr : b.readSide with
  | none =>
    have he : b.await wanted = (b.releaseReadSide, .error (.failed .closed)) := by simp [await, receive, hr]
    rw [he]
    cases ho : b.isOpen with
    | false => exact .closed ho
    | true =>
      rw [releaseReadSide_of_none hr]
      exact .released ho hr
  | some s =>
    obtain ⟨hp, hl, hcap⟩ := hready s hr
    cases hq : s.queue with
    | nil =>
      have hstream : s.stream = [] := by simp [ReadSide.stream, hp, hq]
      cases hc : s.connected with
      | true =>
        have ho : b.isOpen = true := by
          have := hs.connected s hr
          rw [hc] at this
          exact (Bool.and_eq_true_iff.1 this.symm).1
        have he : b.await wanted = (b.sized s wanted, .error (.waits .atInbox)) := by
          rw [sized_of_ready hs hr hcap]
          simp [await, receive_of_nil hr hq, hc]
        rw [he]
        exact .waits ho hr hstream hc hl
      | false =>
        have he : b.await wanted = (b.releaseReadSide, .error (.failed .closed)) := by
          simp [await, receive_of_nil hr hq, hc]
        rw [he]
        cases ho : b.isOpen with
        | false => exact .closed ho
        | true => exact .drained ho hr hstream hc
    | cons chunk rest => exact fetched_await_of_cons hs hw hready hr hq

theorem sound_sized (hs : b.Sound limit down) {s : ReadSide} (hr : b.readSide = some s) :
    (b.sized s wanted).Sound limit down := by
  refine ⟨fun s' hs' => ?_, fun s' hs' => ?_, rfl, fun _ _ => ⟨_, rfl⟩, hs.writes, hs.closed⟩
  · obtain rfl := Option.some.inj hs'
    exact (hs.idle s hr).sized wanted
  · obtain rfl := Option.some.inj hs'
    exact hs.connected s hr

theorem served_sized (s : ReadSide) (taken : Nat) :
    (b.sized s wanted).served (s.sized wanted) wanted taken = b.served s wanted taken := by
  simp only [served, sized, ReadSide.served, ReadSide.sized, grown_grown]
  rfl

/-- A read that sized its buffer first comes to the same. -/
theorem Fetched.of_sized {s : ReadSide} (hr : b.readSide = some s) {out : Binding × Except Halt Bytes}
    (h : Fetched limit wanted (b.sized s wanted) out) (hl : Within limit wanted) : Fetched limit wanted b out := by
  cases h with
  | closed ho =>
    rw [sized, releaseReadSide_some hr]
    exact .closed ho
  | released ho hn => cases hn
  | refused ho hn => exact absurd hl hn
  | served ho hs hne ht =>
    obtain rfl := Option.some.inj hs
    rw [served_sized]
    exact .served ho hr hne ⟨ht.le, ht.enough, ht.least⟩
  | waits ho hs he hc hl =>
    obtain rfl := Option.some.inj hs
    have hsized : (b.sized s wanted).sized (s.sized wanted) wanted = b.sized s wanted := by
      simp only [sized, ReadSide.sized, grown_grown]
    rw [hsized]
    exact .waits ho hr he hc hl
  | drained ho hs he hc =>
    obtain rfl := Option.some.inj hs
    rw [sized, releaseReadSide_some hr]
    exact .drained ho hr he hc

theorem prepare_of_within {s : ReadSide} (ho : b.isOpen = true) (hr : b.readSide = some s)
    (hl : Within s.buffer.limit wanted) : b.prepare wanted = (b.sized s wanted, .ok s.pending.isEmpty) := by
  simp only [prepare, ho, hr, Buffer.ensure_of_within hl, Bool.not_true, Bool.false_eq_true, if_false, sized]
  rfl

/-- **A read that begins** with the read side to itself. -/
theorem fetched_fetch (hs : b.Sound limit down) (hw : 0 < wanted) : Fetched limit wanted b (b.fetch wanted) := by
  cases ho : b.isOpen with
  | false =>
    have he : b.fetch wanted = (b.releaseReadSide, .error (.failed .closed)) := by simp [fetch, prepare, ho]
    rw [he]
    exact .closed ho
  | true =>
    cases hr : b.readSide with
    | none =>
      have he : b.fetch wanted = (b, .error (.failed .closed)) := by simp [fetch, prepare, ho, hr]
      rw [he]
      exact .released ho hr
    | some s =>
      have hi := hs.idle s hr
      by_cases hl : Within limit wanted
      · have hp := prepare_of_within ho hr (hi.limit.symm ▸ hl)
        refine Fetched.of_sized hr ?_ hl
        cases hpend : s.pending with
        | nil =>
          have he : b.fetch wanted = (b.sized s wanted).await wanted := by simp [fetch, hp, hpend]
          rw [he]
          refine fetched_await (sound_sized hs hr) hw (fun s' hs' => ?_)
          obtain rfl := Option.some.inj hs'
          exact ⟨hpend, hl, wanted_le_grown _ _⟩
        | cons x xs =>
          have hne : (s.sized wanted).stream ≠ [] := by simp [ReadSide.stream, ReadSide.sized, hpend]
          obtain ⟨taken, ht, hc⟩ := collect_eq (b := b.sized s wanted) (hi.sized wanted) ho rfl hl
            (wanted_le_grown _ _) 0
          have he : b.fetch wanted =
              ((b.sized s wanted).served (s.sized wanted) wanted taken, .ok ((s.sized wanted).stream.take wanted)) := by
            simp only [fetch, hp, hpend, List.isEmpty_cons, hc, Nat.zero_add]
            simp only [served, sized, ReadSide.sized, grown_grown]
            rfl
          rw [he]
          exact .served ho rfl hne ht
      · have he : ∃ cause, b.fetch wanted = (b, .error (.failed (.buffer cause))) := by
          cases hens : s.buffer.ensure wanted with
          | error cause => exact ⟨cause, by simp [fetch, prepare, ho, hr, hens]⟩
          | ok buffer =>
            refine absurd ?_ hl
            unfold Buffer.ensure at hens
            cases hc : checkLimit s.buffer.limit wanted with
            | ok _ => exact hi.limit ▸ checkLimit_eq_ok_iff.1 hc
            | error cause => simp [hc] at hens
        obtain ⟨cause, he⟩ := he
        rw [he]
        exact .refused ho hl

end Binding
end TopicBus
