import TopicBus.Proofs.Invariant
import TopicBus.Proofs.Waiting
/-!
# The forms of read agree

A read that waits, an immediate read and the first poll of a suspended read go their own ways through the read side.
When none of them has to queue behind another read they do the same: they are served the front of the stream, or find
it empty, or find it at its end.  They differ only in what they make of an empty stream, for which one waits, one turns
back and one stays in the line.
-/
namespace TopicBus

/-- What a read may fetch at once, under a limit that allows at least one byte. -/
theorem clampRead_eq {limit : Option Nat} (h : limit ≠ some 0) (n : Nat) : clampRead limit n = limit.elim n (min n) := by
  cases limit with
  | none => rfl
  | some most =>
    have hpos : most ≠ 0 := fun he => h (congrArg some he)
    simp only [clampRead, Option.elim_some]
    omega

namespace ReadSide

variable {s : ReadSide} {wanted taken taken' : Nat}

/-- The least number of chunks is one number. -/
theorem Takes.unique (h : s.Takes wanted taken) (h' : s.Takes wanted taken') : taken = taken' := by
  rcases Nat.lt_trichotomy taken taken' with hlt | he | hlt
  · exact absurd (h'.least taken hlt) (Nat.not_lt.2 h.enough)
  · exact he
  · exact absurd (h.least taken' hlt) (Nat.not_lt.2 h'.enough)

/-- What stays pending is the rest of the chunk that was taken last. -/
theorem Takes.pending_suffix {i : Nat} (h : s.Takes wanted (i + 1)) {chunk : Bytes} (hc : s.queue[i]? = some chunk) :
    (s.served wanted (i + 1)).pending <:+ chunk := by
  have hleast := h.least i (Nat.lt_succ_self i)
  have hfront : s.pending ++ (s.queue.take (i + 1)).flatten = s.pending ++ (s.queue.take i).flatten ++ chunk := by
    rw [List.take_add_one, hc, Option.toList_some, List.flatten_append, List.append_assoc, List.flatten_cons,
      List.flatten_nil, List.append_nil]
  change (s.pending ++ (s.queue.take (i + 1)).flatten).drop wanted <:+ chunk
  rw [hfront, List.drop_append, List.drop_eq_nil_of_le (by omega), List.nil_append]
  exact List.drop_suffix _ _

end ReadSide

namespace Binding

variable {limit : Option Nat} {down : Bool} {b : Binding} {s : ReadSide} {wanted n : Nat} {name : ReadName}

/-- What a read finds that has the read side of an open binding to itself. -/
theorem fetch_cases (hs : b.Sound limit down) (ho : b.isOpen = true) (hr : b.readSide = some s) (hw : 0 < wanted)
    (hl : Within limit wanted) :
    (s.stream ≠ [] ∧ ∃ taken, s.Takes wanted taken ∧
        b.fetch wanted = (b.served s wanted taken, .ok (s.stream.take wanted))) ∨
      (s.stream = [] ∧ down = false ∧ b.fetch wanted = (b.sized s wanted, .error (.waits .atInbox))) ∨
      (s.stream = [] ∧ down = true ∧ b.fetch wanted = (b.releaseReadSide, .error (.failed .closed))) := by
  have hcon : s.connected = !down := by rw [hs.connected s hr, ho, Bool.true_and]
  have hf := fetched_fetch hs hw
  generalize b.fetch wanted = out at hf ⊢
  cases hf with
  | closed hc =>
    rw [ho] at hc
    cases hc
  | released _ hn =>
    rw [hr] at hn
    cases hn
  | refused _ hn => exact absurd hl hn
  | served _ hr' hne ht =>
    obtain rfl := Option.some.inj (hr.symm.trans hr')
    exact Or.inl ⟨hne, _, ht, rfl⟩
  | waits _ hr' he hc _ =>
    obtain rfl := Option.some.inj (hr.symm.trans hr')
    rw [hc] at hcon
    exact Or.inr (Or.inl ⟨he, by simpa using hcon, rfl⟩)
  | drained _ hr' he hc =>
    obtain rfl := Option.some.inj (hr.symm.trans hr')
    rw [hc] at hcon
    exact Or.inr (Or.inr ⟨he, by simpa using hcon, rfl⟩)

/-! ## Each form comes down to a fetch -/

theorem read_eq_fetch (ho : b.isOpen = true) (hline : b.line = []) (hn : 0 < n) :
    b.read limit n =
      ((b.fetch (clampRead limit n)).1.releaseIfClosed, (b.fetch (clampRead limit n)).2) := by
  have hn' : n ≠ 0 := Nat.pos_iff_ne_zero.1 hn
  simp only [read, readOnce, ho, hline, if_neg hn', Bool.not_true, Bool.false_eq_true, if_false, List.isEmpty_nil]

theorem beginRead_eq_fetch (ho : b.isOpen = true) (hline : b.line = []) (hn : 0 < n) :
    b.beginRead limit name n =
      leaveUnlessWaiting name ({ b with line := [name] }.fetch (clampRead limit n)) := by
  have hn' : n ≠ 0 := Nat.pos_iff_ne_zero.1 hn
  simp only [beginRead, ho, hline, if_neg hn', Bool.not_true, Bool.false_eq_true, if_false, List.isEmpty_nil, if_true]

theorem startUpTo_eq_fetch (ho : b.isOpen = true) (hline : b.line = []) (hn : 0 < n) :
    b.startUpTo limit name n =
      settleUpTo n (leaveUnlessWaiting name ({ b with line := [name] }.fetch (clampRead limit n))) :=
  congrArg (settleUpTo n) (beginRead_eq_fetch ho hline hn)

/-! ## What each form makes of what it finds -/

section

variable (hs : b.Sound limit down) (ho : b.isOpen = true) (hr : b.readSide = some s) (hline : b.line = []) (hn : 0 < n)
  (hl : limit ≠ some 0)

include hs ho hr hline hn hl

/-- **Bytes to read** are read by every form alike. -/
theorem reads_served (hne : s.stream ≠ []) (name : ReadName) : ∃ taken, s.Takes (clampRead limit n) taken ∧
    b.read limit n = (b.served s (clampRead limit n) taken, .ok (s.stream.take (clampRead limit n))) ∧
      b.startUpTo limit name n = ⟨b.served s (clampRead limit n) taken, [s.stream.take (clampRead limit n)],
        .ready (.ok (s.stream.take (clampRead limit n)))⟩ := by
  have hw := clampRead_pos limit hn
  have hwithin := within_clampRead hl n
  rcases fetch_cases hs ho hr hw hwithin with ⟨-, taken, ht, he⟩ | ⟨he, -⟩ | ⟨he, -⟩
  · refine ⟨taken, ht, ?_, ?_⟩
    · rw [read_eq_fetch ho hline hn, he]
      exact Prod.ext (releaseIfClosed_of_isOpen ho) rfl
    · have hleave := (leave_alone (b := b.served s (clampRead limit n) taken) name hline).trans
        (releaseIfClosed_of_isOpen ho)
      rw [startUpTo_eq_fetch ho hline hn, fetch_withLine, he]
      exact congrArg (Polled.mk · _ _) hleave
  · exact absurd he hne
  · exact absurd he hne

/-- **Nothing to read yet**: only the buffer was sized. -/
theorem reads_waiting (he : s.stream = []) (hd : down = false) (name : ReadName) :
    b.read limit n = (b.sized s (clampRead limit n), .error (.waits .atInbox)) ∧
      b.startUpTo limit name n = ⟨{ b.sized s (clampRead limit n) with line := [name] }, [],
        .pending ⟨.upTo, n, .atInbox⟩⟩ := by
  have hw := clampRead_pos limit hn
  have hwithin := within_clampRead hl n
  rcases fetch_cases hs ho hr hw hwithin with ⟨hne, -⟩ | ⟨-, -, hf⟩ | ⟨-, hd', -⟩
  · exact absurd he hne
  · constructor
    · rw [read_eq_fetch ho hline hn, hf]
      exact Prod.ext (releaseIfClosed_of_isOpen ho) rfl
    · rw [startUpTo_eq_fetch ho hline hn, fetch_withLine, hf]
      rfl
  · exact absurd (hd.symm.trans hd') Bool.false_ne_true

/-- **Nothing to read any more**: the read side is given up. -/
theorem reads_drained (he : s.stream = []) (hd : down = true) (name : ReadName) :
    b.read limit n = (b.releaseReadSide, .error (.failed .closed)) ∧
      b.startUpTo limit name n = ⟨b.releaseReadSide, [], .ready (.error .closed)⟩ := by
  have hw := clampRead_pos limit hn
  have hwithin := within_clampRead hl n
  have ho' : b.releaseReadSide.isOpen = true := by rw [releaseReadSide_eq]; exact ho
  rcases fetch_cases hs ho hr hw hwithin with ⟨hne, -⟩ | ⟨-, hd', -⟩ | ⟨-, -, hf⟩
  · exact absurd he hne
  · exact absurd (hd'.symm.trans hd) Bool.false_ne_true
  · constructor
    · rw [read_eq_fetch ho hline hn, hf]
      exact Prod.ext (releaseIfClosed_of_isOpen ho') rfl
    · have hline' : b.releaseReadSide.line = [] := by rw [releaseReadSide_eq]; exact hline
      have hleave := (leave_alone name hline').trans (releaseIfClosed_of_isOpen ho')
      rw [startUpTo_eq_fetch ho hline hn, fetch_withLine, hf]
      exact congrArg (Polled.mk · _ _) hleave

end

end Binding

namespace Session

/-- **The forms of read agree.**  Say that a binding is open, has its read side and no read in its line, and that the
limit allows at least one byte; a read asks for `n` bytes, at least one, and may fetch `m`.  If there are bytes to read,
a waiting read, an immediate read and a suspended one all get the first `m` of them at once and leave the same binding:
as few chunks as possible are gone from the inbox, and what is pending is the rest of the last of them.  If there are
none, then before the bus is shut down the immediate read gets nothing, the suspended one holds the read side and a
waiting one waits, and only the room of the buffer has changed; and afterwards all are told that the binding is closed,
and the read side is given up. -/
theorem reads_agree (config : Config) (ops : List Op) {id : BindingId} {b : Binding} {s : ReadSide} {n : Nat}
    (hb : ((new config).run ops).bus.bindings.get? id = some b) (ho : b.isOpen = true) (hr : b.readSide = some s)
    (hline : b.line = []) (hn : 0 < n) (hl : ((new config).run ops).bus.config.chunkLimit ≠ some 0) (name : ReadName) :
    let bus := ((new config).run ops).bus
    let limit := bus.config.chunkLimit
    let m := limit.elim n (min n)
    (s.stream ≠ [] → ∃ taken, s.Takes m taken ∧
      bus.read id n = (bus.put id (b.served s m taken), .ok (s.stream.take m)) ∧
      bus.tryRead id n = (bus.put id (b.served s m taken), .ok (some (s.stream.take m))) ∧
      b.startUpTo limit name n = ⟨b.served s m taken, [s.stream.take m], .ready (.ok (s.stream.take m))⟩ ∧
      (s.served m taken).stream = s.stream.drop m ∧ (s.served m taken).queue = s.queue.drop taken ∧
      (∀ i chunk, taken = i + 1 → s.queue[i]? = some chunk → (s.served m taken).pending <:+ chunk) ∧
      (b.served s m taken).traffic = b.traffic.onRead (min m s.stream.length) taken ∧
      (b.served s m taken).line = []) ∧
    (s.stream = [] → bus.isShutDown = false → ∃ room,
      let sized := { b with readSide := some { s with buffer := { s.buffer with capacity := room } }, readCapacity := room }
      bus.read id n = (bus.put id sized, .error (.waits .atInbox)) ∧
      bus.tryRead id n = (bus.put id sized, .ok none) ∧
      b.startUpTo limit name n = ⟨{ sized with line := [name] }, [], .pending ⟨.upTo, n, .atInbox⟩⟩) ∧
    (s.stream = [] → bus.isShutDown = true →
      let released := { b with readSide := none, readCapacity := 0 }
      bus.read id n = (bus.put id released, .error (.failed .closed)) ∧
      bus.tryRead id n = (bus.put id released, .error .closed) ∧
      b.startUpTo limit name n = ⟨released, [], .ready (.error .closed)⟩) := by
  intro bus limit m
  have hs : b.Sound limit bus.isShutDown := (good_run config ops).sound id b hb
  have hm : clampRead limit n = m := clampRead_eq hl n
  have hread : bus.read id n = (bus.put id (b.read limit n).1, (b.read limit n).2) := by
    simp only [Bus.read, Bus.onBinding, bus, hb]
    rfl
  have htry : bus.tryRead id n = (bus.put id (b.tryRead limit n).1, (b.tryRead limit n).2) := by
    simp only [Bus.tryRead, Bus.onBinding, bus, hb]
    rfl
  refine ⟨fun hne => ?_, fun he hd => ?_, fun he hd => ?_⟩
  · obtain ⟨taken, ht, hone, hstart⟩ := Binding.reads_served hs ho hr hline hn hl hne name
    rw [hm] at ht hone hstart
    refine ⟨taken, ht, by rw [hread, hone], by rw [htry, Binding.tryRead, hone], hstart, ht.stream_served, rfl, ?_, ?_,
      hline⟩
    · rintro i chunk rfl hc
      exact ht.pending_suffix hc
    · rw [← List.length_take]
      rfl
  · obtain ⟨hone, hstart⟩ := Binding.reads_waiting hs ho hr hline hn hl he hd name
    have hsized : b.sized s (clampRead limit n) = { b with
        readSide := some { s with buffer := { s.buffer with capacity := grown s.buffer.capacity m } }
        readCapacity := grown s.buffer.capacity m } := by
      rw [hm, Binding.sized, ReadSide.sized, ← (hs.idle s hr).data]
    rw [hsized] at hone hstart
    exact ⟨_, by rw [hread, hone], by rw [htry, Binding.tryRead, hone], hstart⟩
  · obtain ⟨hone, hstart⟩ := Binding.reads_drained hs ho hr hline hn hl he hd name
    have hreleased : b.releaseReadSide = { b with readSide := none, readCapacity := 0 } := by
      rw [Binding.releaseReadSide_eq, hr]
      rfl
    rw [hreleased] at hone hstart
    exact ⟨by rw [hread, hone], by rw [htry, Binding.tryRead, hone], hstart⟩

/-- Two of the three bytes that a peer has sent. -/
theorem reads_agree_on_chunk :
    let ops := twoPeers ++ [.onBinding "a" (.write [1, 2, 3])]
    ∃ b s, ((new {}).run ops).bus.bindings.get? ⟨6⟩ = some b ∧ b.readSide = some s ∧ s.stream = [1, 2, 3] ∧
      ∃ taken, s.Takes 2 taken ∧
        ((new {}).run ops).bus.read ⟨6⟩ 2 =
          (((new {}).run ops).bus.put ⟨6⟩ (b.served s 2 taken), .ok (s.stream.take 2)) := by
  intro ops
  have hb : ((new {}).run ops).bus.bindings.get? ⟨6⟩ = some _ := rfl
  obtain ⟨hserved, -⟩ := reads_agree {} ops hb rfl rfl rfl Nat.two_pos nofun "read"
  obtain ⟨taken, ht, hone, -⟩ := hserved nofun
  exact ⟨_, _, hb, rfl, rfl, taken, ht, hone⟩

end Session
end TopicBus
