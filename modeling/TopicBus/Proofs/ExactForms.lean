import TopicBus.Proofs.Closed
import TopicBus.Proofs.Conservation
import TopicBus.Proofs.Draining
import TopicBus.Proofs.Holders
import TopicBus.Proofs.Opening
import TopicBus.Proofs.Shutdown
/-!
# The forms of exact read agree

An exact read that waits and one that may stay suspended are two loops over two kinds of read.  When neither has to
queue behind another they take the same parts out of the stream, up to the number of bytes asked for or to the end of
the stream (`Binding.exists_exactly`), and differ only when more has to come: then the one waits and the other holds the
read side with what it has.

A poll of a suspended exact read that is alone in the line goes on as a read begun anew for the bytes still missing
(`Binding.poll_alone`).  So whatever comes in between, what it has gathered and what is still to be read are always what
was there when it began and what has been sent since (`Desk.Gathering`).
-/
namespace TopicBus

namespace ExactRead

variable {σ ε : Type} {read : σ → Nat → σ × Except ε Bytes} {reader reader' : σ} {wanted : Nat}

theorem run_of_ok (h : wanted ≠ 0) {data : Bytes} (hr : read reader wanted = (reader', .ok data)) (hd : data ≠ []) :
    run read reader wanted = (run read reader' (wanted - data.length)).cons data := by
  obtain ⟨x, xs, rfl⟩ := List.exists_cons_of_ne_nil hd
  rw [run_of_pos read reader h, hr]
  rfl

theorem run_of_error (h : wanted ≠ 0) {cause : ε} (hr : read reader wanted = (reader', .error cause)) :
    run read reader wanted = ⟨reader', [], .stopped cause⟩ := by
  rw [run_of_pos read reader h, hr]
  rfl

end ExactRead

namespace Binding

variable {limit : Option Nat} {down : Bool} {b b' after : Binding} {parts : List Bytes} {name : ReadName}
  {n m wanted : Nat}

/-! ## One read that finds the line empty -/

/-- `after` is `b` but for what reads change: the read side and the counts of what was read. -/
structure Reread (b after : Binding) : Prop where
  terms : after.toTerms = b.toTerms
  isOpen : after.isOpen = b.isOpen
  writeSide : after.writeSide = b.writeSide
  writeCapacity : after.writeCapacity = b.writeCapacity
  line : after.line = b.line

theorem Reread.refl (b : Binding) : b.Reread b := ⟨rfl, rfl, rfl, rfl, rfl⟩

theorem Reread.trans (h : b.Reread b') (h' : b'.Reread after) : b.Reread after :=
  ⟨h'.terms.trans h.terms, h'.isOpen.trans h.isOpen, h'.writeSide.trans h.writeSide,
    h'.writeCapacity.trans h.writeCapacity, h'.line.trans h.line⟩

/-- What a read of up to `m` bytes comes to that has the read side of an open binding. -/
inductive Finds (down : Bool) (m : Nat) (b after : Binding) : Except Halt Bytes → Prop
  | served : b.stream ≠ [] → after.stream = b.stream.drop m → Finds down m b after (.ok (b.stream.take m))
  | waits : b.stream = [] → down = false → after.stream = [] → Finds down m b after (.error (.waits .atInbox))
  | ended : b.stream = [] → down = true → after.readSide = none → after.readCapacity = 0 →
      Finds down m b after (.error (.failed .closed))

theorem Fetched.reread {out : Binding × Except Halt Bytes} (h : Fetched limit m b out) : b.Reread out.1 := by
  cases h with
  | released | refused => exact .refl b
  | served | waits => exact ⟨rfl, rfl, rfl, rfl, rfl⟩
  | closed | drained =>
    rw [releaseReadSide_eq]
    exact ⟨rfl, rfl, rfl, rfl, rfl⟩

theorem Fetched.finds (hs : b.Sound limit down) (ho : b.isOpen = true) (hl : Within limit m)
    {out : Binding × Except Halt Bytes} (h : Fetched limit m b out) : Finds down m b out.1 out.2 := by
  have hconnected : ∀ s, b.readSide = some s → s.connected = !down := fun s hr => by
    rw [hs.connected s hr, ho, Bool.true_and]
  cases h with
  | closed hc => exact absurd (hc.symm.trans ho) Bool.false_ne_true
  | refused _ hn => exact absurd hl hn
  | released _ hr =>
    have hd : down = true := Bool.of_not_eq_false (fun hd => by
      obtain ⟨s, hr'⟩ := hs.receives ho hd
      exact Option.some_ne_none s (hr'.symm.trans hr))
    refine .ended (stream_of_none hr) hd hr ?_
    rw [hs.capacity, hr]
    rfl
  | @served s taken _ hr hne ht =>
    have hstream := stream_of_some hr
    rw [← hstream] at hne ⊢
    exact .served hne (hstream ▸ ht.stream_served)
  | @waits s _ hr he hc =>
    have hd := hconnected s hr
    rw [hc] at hd
    exact .waits ((stream_of_some hr).trans he) (by simpa using hd) he
  | @drained s _ hr he hc =>
    have hd := hconnected s hr
    rw [hc] at hd
    refine .ended ((stream_of_some hr).trans he) (by simpa using hd) ?_ ?_ <;> rw [releaseReadSide_eq]
    rw [hr]
    rfl

/-- The binding when the read `name` has come to `result`, having found the line empty. -/
def left (name : ReadName) (after : Binding) : Except Halt Bytes → Binding
  | .error (.waits _) => { after with line := [name] }
  | _ => after

section

variable (hs : b.Sound limit down) (ho : b.isOpen = true) (hline : b.line = []) (hl : limit ≠ some 0)
include hs ho hline hl

/-- **Both kinds of read find the same**; they differ in that the one that has to wait may stay in the line. -/
theorem exists_finds (hn : n ≠ 0) : ∃ after result, Finds down (clampRead limit n) b after result ∧ b.Reread after ∧
    after.Sound limit down ∧ b.read limit n = (after, result) ∧
      ∀ name, b.beginRead limit name n = (after.left name result, result) := by
  have hpos := Nat.pos_of_ne_zero hn
  have hw := clampRead_pos limit hpos
  have hwithin := within_clampRead hl n
  have hf := fetched_fetch hs hw
  have hreread := hf.reread
  have hopen : (b.fetch (clampRead limit n)).1.isOpen = true := hreread.isOpen.trans ho
  refine ⟨_, _, hf.finds hs ho hwithin, hreread, (hf.advance hs).sound, ?_, fun name => ?_⟩
  · rw [read_eq_fetch ho hline hpos, releaseIfClosed_of_isOpen hopen]
  · have hleave := (leave_alone name (hreread.line.trans hline)).trans (releaseIfClosed_of_isOpen hopen)
    rw [beginRead_eq_fetch ho hline hpos, fetch_withLine]
    rcases (b.fetch (clampRead limit n)).2 with (fault | phase) | data
    · exact congrArg (Prod.mk · _) hleave
    · rfl
    · exact congrArg (Prod.mk · _) hleave

end

/-! ## An exact read that finds the line empty -/

/-- What an exact read of `n` bytes comes to that finds the line of an open binding empty, in both of its forms. -/
structure Exactly (limit : Option Nat) (down : Bool) (n : Nat) (b after : Binding) (parts : List Bytes) : Prop where
  bytes : parts.flatten = b.stream.take n
  stream : after.stream = b.stream.drop n
  reread : b.Reread after
  sound : after.Sound limit down
  enough : n ≤ b.stream.length → b.readAll limit n = ⟨after, parts, .filled⟩ ∧
    ∀ name, ExactRead.run (beginRead limit name) b n = ⟨after, parts, .filled⟩
  ended : b.stream.length < n → down = true → after.readSide = none ∧ after.readCapacity = 0 ∧
    b.readAll limit n = ⟨after, parts, .stopped (.failed .closed)⟩ ∧
    ∀ name, ExactRead.run (beginRead limit name) b n = ⟨after, parts, .stopped (.failed .closed)⟩
  waits : b.stream.length < n → down = false → b.readAll limit n = ⟨after, parts, .stopped (.waits .atInbox)⟩ ∧
    ∀ name, ExactRead.run (beginRead limit name) b n =
      ⟨{ after with line := [name] }, parts, .stopped (.waits .atInbox)⟩

theorem exactly_zero (hs : b.Sound limit down) : Exactly limit down 0 b b [] where
  bytes := rfl
  stream := rfl
  reread := .refl b
  sound := hs
  enough _ := ⟨ExactRead.run_zero _ b, fun _ => ExactRead.run_zero _ b⟩
  ended h := absurd h (Nat.not_lt_zero _)
  waits h := absurd h (Nat.not_lt_zero _)

/-- A read that was served comes before what is read of the rest. -/
theorem Exactly.cons (hread : b.read limit n = (b', .ok (b.stream.take m)))
    (hbegin : ∀ name, b.beginRead limit name n = (b', .ok (b.stream.take m))) (hne : b.stream.take m ≠ []) (hm : m ≤ n)
    (hstream : b'.stream = b.stream.drop m) (hreread : b.Reread b')
    (h : Exactly limit down (n - (b.stream.take m).length) b' after parts) :
    Exactly limit down n b after (b.stream.take m :: parts) := by
  have hlength : (b.stream.take m).length = min m b.stream.length := List.length_take
  have hpos := List.length_pos_iff.2 hne
  have hn : n ≠ 0 := by omega
  have hrest : b'.stream.length = b.stream.length - m := by rw [hstream, List.length_drop]
  have hrun : b.readAll limit n = (b'.readAll limit (n - (b.stream.take m).length)).cons (b.stream.take m) :=
    ExactRead.run_of_ok hn hread hne
  have hrun' : ∀ name, ExactRead.run (beginRead limit name) b n =
      (ExactRead.run (beginRead limit name) b' (n - (b.stream.take m).length)).cons (b.stream.take m) := fun name =>
    ExactRead.run_of_ok hn (hbegin name) hne
  refine ⟨?_, ?_, hreread.trans h.reread, h.sound, fun henough => ?_, fun hshort hd => ?_, fun hshort hd => ?_⟩
  · rw [List.flatten_cons, h.bytes, hstream, ← List.take_add, List.take_eq_take_iff]
    omega
  · rw [h.stream, hstream, List.drop_drop, List.drop_eq_drop_iff]
    omega
  · obtain ⟨hall, hall'⟩ := h.enough (by omega)
    exact ⟨by rw [hrun, hall]; rfl, fun name => by rw [hrun', hall']; rfl⟩
  · obtain ⟨hside, hroom, hall, hall'⟩ := h.ended (by omega) hd
    exact ⟨hside, hroom, by rw [hrun, hall]; rfl, fun name => by rw [hrun', hall']; rfl⟩
  · obtain ⟨hall, hall'⟩ := h.waits (by omega) hd
    exact ⟨by rw [hrun, hall]; rfl, fun name => by rw [hrun', hall']; rfl⟩

/-- **An exact read that finds the line empty** takes what it was asked for, or all there is. -/
theorem exists_exactly (hs : b.Sound limit down) (ho : b.isOpen = true) (hline : b.line = []) (hl : limit ≠ some 0)
    (n : Nat) : ∃ after parts, Exactly limit down n b after parts := by
  -- on the bytes still missing: a read that gives any leaves fewer, and a read that gives none ends the matter
  induction n using Nat.strongRecOn generalizing b with
  | ind n ih =>
    by_cases hn : n = 0
    · exact ⟨b, [], hn ▸ exactly_zero hs⟩
    obtain ⟨b₁, result, hfinds, hreread, hs₁, hread, hbegin⟩ := exists_finds hs ho hline hl hn
    cases hfinds with
    | served hne hstream =>
      have hpos := clampRead_pos limit (Nat.pos_of_ne_zero hn)
      have hne' : b.stream.take (clampRead limit n) ≠ [] := by
        rw [Ne, List.take_eq_nil_iff]
        exact fun h => h.elim (Nat.pos_iff_ne_zero.1 hpos) hne
      have hlt : n - (b.stream.take (clampRead limit n)).length < n :=
        Nat.sub_lt (Nat.pos_of_ne_zero hn) (List.length_pos_iff.2 hne')
      obtain ⟨after, parts, h⟩ := ih _ hlt hs₁ (hreread.isOpen.trans ho) (hreread.line.trans hline)
      exact ⟨after, _, h.cons hread hbegin hne' (clampRead_le limit n) hstream hreread⟩
    | waits he hd he₁ =>
      refine ⟨b₁, [], by rw [he, List.take_nil, List.flatten_nil], by rw [he, he₁, List.drop_nil], hreread, hs₁,
        fun h => ?_, fun _ hd' => ?_, fun _ _ => ⟨ExactRead.run_of_error hn hread, fun name => ?_⟩⟩
      · rw [he] at h
        exact absurd (Nat.le_zero.1 h) hn
      · exact absurd (hd.symm.trans hd') Bool.false_ne_true
      · exact ExactRead.run_of_error hn (hbegin name)
    | ended he hd hside hroom =>
      refine ⟨b₁, [], by rw [he, List.take_nil, List.flatten_nil], by rw [he, stream_of_none hside, List.drop_nil],
        hreread, hs₁, fun h => ?_, fun _ _ => ⟨hside, hroom, ExactRead.run_of_error hn hread, fun name => ?_⟩,
        fun _ hd' => ?_⟩
      · rw [he] at h
        exact absurd (Nat.le_zero.1 h) hn
      · exact ExactRead.run_of_error hn (hbegin name)
      · exact absurd (hd'.symm.trans hd) Bool.false_ne_true

/-! ## A suspended exact read that is alone in the line -/

/-- A reader that waits at the inbox finds what one that begins there would find. -/
theorem await_eq_fetch (hs : b.Sound limit down) (ho : b.isOpen = true) (hready : b.Ready limit m) :
    b.await m = b.fetch m := by
  cases hr : b.readSide with
  | none =>
    simp only [await, fetch, receive, prepare, ho, hr, Bool.not_true, Bool.false_eq_true, if_false,
      releaseReadSide_of_none hr]
  | some s =>
    obtain ⟨hpending, hwithin, hroom⟩ := hready s hr
    have hprepare : b.prepare m = (b, .ok true) := by
      rw [prepare_of_within ho hr ((hs.idle s hr).limit.symm ▸ hwithin), sized_of_ready hs hr hroom, hpending]
      rfl
    rw [fetch, hprepare]

/-- **A poll of an exact read that is alone in the line** goes on as a read begun anew for the bytes still missing. -/
theorem poll_alone (hs : b.Sound limit down) (ho : b.isOpen = true) (hline : b.line = [name]) (hw : 0 < wanted)
    (hready : b.Ready limit (clampRead limit wanted)) (gathered : Bytes) :
    b.poll limit name ⟨.exactly gathered, wanted, .atInbox⟩ =
      settleExact gathered wanted (ExactRead.run (beginRead limit name) { b with line := [] } wanted) := by
  have hbegin : beginRead limit name { b with line := [] } wanted =
      leaveUnlessWaiting name ({ b with line := [name] }.fetch (clampRead limit wanted)) :=
    beginRead_eq_fetch (show { b with line := [] }.isOpen = true from ho) rfl hw
  have hresume : beginRead limit name { b with line := [] } wanted = b.resumeRead limit name .atInbox wanted := by
    rw [hbegin, withLine_self hline, ← await_eq_fetch hs ho hready]
    rfl
  rw [ExactRead.run_of_pos _ _ (Nat.pos_iff_ne_zero.1 hw), hresume]
  rfl

/-- What such a poll comes to while chunks may still come. -/
theorem exists_poll_alone (hs : b.Sound limit false) (ho : b.isOpen = true) (hl : limit ≠ some 0)
    (hline : b.line = [name]) (hw : 0 < wanted) (hready : b.Ready limit (clampRead limit wanted)) (gathered : Bytes) :
    ∃ after parts, b.Reread { after with line := [name] } ∧ after.stream = b.stream.drop wanted ∧
      (wanted ≤ b.stream.length → b.poll limit name ⟨.exactly gathered, wanted, .atInbox⟩ =
        ⟨after, parts, .ready (.ok (gathered ++ b.stream.take wanted))⟩) ∧
      (b.stream.length < wanted → b.poll limit name ⟨.exactly gathered, wanted, .atInbox⟩ =
        ⟨{ after with line := [name] }, parts,
          .pending ⟨.exactly (gathered ++ b.stream), wanted - b.stream.length, .atInbox⟩⟩) := by
  have hstream : { b with line := [] }.stream = b.stream := rfl
  obtain ⟨after, parts, h⟩ := exists_exactly (sound_line hs []) ho rfl hl wanted
  have hreread : b.Reread { after with line := [name] } :=
    ⟨h.reread.terms, h.reread.isOpen, h.reread.writeSide, h.reread.writeCapacity, hline.symm⟩
  refine ⟨after, parts, hreread, hstream ▸ h.stream, fun henough => ?_, fun hshort => ?_⟩
  · rw [poll_alone hs ho hline hw hready, (h.enough henough).2 name, settleExact, ExactRead.Outcome.bytes, h.bytes]
    rfl
  · rw [poll_alone hs ho hline hw hready, (h.waits hshort rfl).2 name, settleExact, ExactRead.Outcome.bytes, h.bytes,
      hstream, List.take_of_length_le (Nat.le_of_lt hshort)]

/-- How a suspended exact read begins, in each of the cases. -/
theorem Exactly.startExact (h : Exactly limit down n b after parts) (name : ReadName) :
    (n ≤ b.stream.length → b.startExact limit name n = ⟨after, parts, .ready (.ok (b.stream.take n))⟩) ∧
    (b.stream.length < n → down = true → b.startExact limit name n = ⟨after, parts, .ready (.error .closed)⟩) ∧
    (b.stream.length < n → down = false → b.startExact limit name n = ⟨{ after with line := [name] }, parts,
      .pending ⟨.exactly b.stream, n - b.stream.length, .atInbox⟩⟩) := by
  refine ⟨fun henough => ?_, fun hshort hd => ?_, fun hshort hd => ?_⟩
  · rw [Binding.startExact, (h.enough henough).2 name, settleExact, ExactRead.Outcome.bytes, h.bytes, List.nil_append]
  · rw [Binding.startExact, (h.ended hshort hd).2.2.2 name, settleExact]
  · rw [Binding.startExact, (h.waits hshort hd).2 name, settleExact, ExactRead.Outcome.bytes, h.bytes, List.nil_append,
      List.take_of_length_le (Nat.le_of_lt hshort)]

end Binding

/-! ## While an exact read gathers -/

namespace Desk

variable {d : Desk} {id : BindingId} {terms : Terms} {b : Binding} {act : Act} {name : ReadName} {all : Bytes} {n : Nat}

/-- The read `name` of exactly `n` bytes is alone in the line of the binding `id`; what it has gathered and what is still
to be read make up `all`. -/
def Gathering (d : Desk) (id : BindingId) (terms : Terms) (name : ReadName) (n : Nat) (all : Bytes) : Prop :=
  ∃ b gathered wanted, d.bus.bindings.get? id = some b ∧ b.toTerms = terms ∧ b.line = [name] ∧
    d.reads.get? name = some ⟨id, ⟨.exactly gathered, wanted, .atInbox⟩⟩ ∧
    gathered ++ b.stream = all ∧ gathered.length + wanted = n

theorem Gathering.exists_binding (hg : d.Gathering id terms name n all) : ∃ b, d.bus.bindings.get? id = some b := by
  obtain ⟨b, -, -, hb, -⟩ := hg
  exact ⟨b, hb⟩

/-- Where a read stands alone in the line the acts about others leave the line as it is, if none begins a read there. -/
theorem Shift.line_alone (h : d.Good) {b' : Binding} (hshift : Shift d id b act b')
    (hb : d.bus.bindings.get? id = some b) (hline : b.line = [name]) (hr : act.read? ≠ some name)
    (hbegins : ∀ other m, act ≠ .start other id m ∧ act ≠ .startAll other id m) : b'.line = [name] := by
  cases hshift with
  | apart hl => rw [hl, hline]
  | @polled _ other p hp =>
    cases act with
    | start read i m =>
      simp only [polled?, Option.ite_none_left_eq_some, Option.map_eq_some_iff, Prod.mk.injEq] at hp
      obtain ⟨-, -, -, -, rfl, -⟩ := hp
      exact absurd rfl (hbegins read m).1
    | startAll read i m =>
      simp only [polled?, Option.ite_none_left_eq_some, Option.map_eq_some_iff, Prod.mk.injEq] at hp
      obtain ⟨-, -, -, -, rfl, -⟩ := hp
      exact absurd rfl (hbegins read m).2
    | poll read =>
      -- whoever is polled on this binding stands in its line
      simp only [polled?, Option.bind_eq_some_iff, Option.map_eq_some_iff, Prod.mk.injEq] at hp
      obtain ⟨r, hread, -, -, rfl, rfl, -⟩ := hp
      have hmem := (h.line _ b hb read).2 ⟨r, hread, rfl⟩
      rw [hline, List.mem_singleton] at hmem
      exact absurd (congrArg some hmem) hr
    | _ => cases hp
  | @cancelled other =>
    have hne : other ≠ name := fun he => hr (congrArg some he)
    change b.line.erase other = [name]
    rw [hline, List.erase_of_not_mem (by simpa using hne)]

/-- Reads by others take nothing from under the read that holds the read side. -/
theorem stream_of_held (h : d.Good) (hb : d.bus.bindings.get? id = some b) (hhead : b.line.head? = some name)
    (hr : act.read? ≠ some name) (hreads : act.reads = true) :
    ∃ b', (d.apply act).bus.bindings.get? id = some b' ∧ b'.stream = b.stream := by
  obtain ⟨b', hb', hshift⟩ := shift_apply h hb act
  obtain ⟨parts, b'', hb'', hmoves, -⟩ := moves_apply h hb hreads
  obtain rfl := Option.some.inj (hb'.symm.trans hb'')
  obtain ⟨-, hunread⟩ := hshift.holder (h.nodup id b hb) hhead hr
  refine ⟨b', hb', ?_⟩
  cases hside : b.readSide with
  | none =>
    rw [Binding.stream_of_none hside, Binding.stream_of_none]
    refine Option.eq_none_iff_forall_ne_some.2 (fun s' hs' => ?_)
    obtain ⟨s, hs, -⟩ := hmoves.dwindles s' hs'
    exact Option.some_ne_none s (hs.symm.trans hside)
  | some s =>
    obtain ⟨s', hs', hsame⟩ := hunread s hside
    obtain ⟨s₁, hs₁, hsuffix⟩ := hmoves.dwindles s' hs'
    obtain rfl := Option.some.inj (hside.symm.trans hs₁)
    have hqueue : s.queue = s'.queue := hsame.queue.eq_of_length_le hsuffix.length_le
    rw [Binding.stream_of_some hside, Binding.stream_of_some hs', ReadSide.stream, ReadSide.stream, hsame.pending,
      hqueue]

/-- **One act about others**: the read goes on gathering, and what was sent comes after what there was. -/
theorem gathering_apply (h : d.Good) (hg : d.Gathering id terms name n all) (hr : act.read? ≠ some name)
    (hbegins : ∀ other m, act ≠ .start other id m ∧ act ≠ .startAll other id m)
    (ho : (d.apply act).bus.isOpen id = true) :
    (d.apply act).Gathering id terms name n (all ++ sentTo id terms.topic terms.kind (d.events act)) := by
  obtain ⟨b, gathered, wanted, hb, rfl, hline, hread, rfl, hn⟩ := hg
  have hhead : b.line.head? = some name := by rw [hline, List.head?_cons]
  obtain ⟨b', hb', hmet⟩ := (deed_apply h act).met hb
  obtain ⟨b'', hb'', hshift⟩ := shift_apply h hb act
  obtain rfl := Option.some.inj (hb'.symm.trans hb'')
  have ho' : b'.isOpen = true := (Bus.isOpen_of_get? hb').symm.trans ho
  have hstream : b'.stream = b.stream ++ sentTo id b.topic b.kind (d.events act) := by
    cases hreads : act.reads with
    | false =>
      have hbytes := hmet.bytes ho'
      rwa [takenFrom_of_not_reads hreads, List.nil_append] at hbytes
    | true =>
      obtain ⟨b₁, hb₁, hsame⟩ := stream_of_held h hb hhead hr hreads
      obtain rfl := Option.some.inj (hb'.symm.trans hb₁)
      rw [hsame, sentTo_of_reads hreads, List.append_nil]
  exact ⟨b', gathered, wanted, hb', hmet.terms, hshift.line_alone h hb hline hr hbegins,
    (get?_reads_apply hr).trans hread, by rw [hstream, List.append_assoc], hn⟩

/-- A binding that is open in the end was open all the time. -/
theorem isOpen_of_after (h : d.Good) (hb : d.bus.bindings.get? id = some b) {acts : List Act}
    (ho : (d.after acts).bus.isOpen id = true) : b.isOpen = true := by
  obtain ⟨b', hb', hmet⟩ := met_after h hb acts
  exact hmet.wasOpen ((Bus.isOpen_of_get? hb').symm.trans ho)

/-- **Acts about others**, in order. -/
theorem gathering_after (h : d.Good) (hg : d.Gathering id terms name n all) {acts : List Act}
    (hr : ∀ act ∈ acts, act.read? ≠ some name)
    (hbegins : ∀ act ∈ acts, ∀ other m, act ≠ .start other id m ∧ act ≠ .startAll other id m)
    (ho : (d.after acts).bus.isOpen id = true) :
    (d.after acts).Gathering id terms name n (all ++ sentTo id terms.topic terms.kind (d.history acts)) := by
  induction acts generalizing d all with
  | nil =>
    rw [history, sentTo, List.flatMap_nil, List.append_nil]
    exact hg
  | cons act acts ih =>
    have hgood := good_apply h act
    obtain ⟨b, hb⟩ := hg.exists_binding
    obtain ⟨b', hb', -⟩ := (deed_apply h act).met hb
    have hopen : (d.apply act).bus.isOpen id = true := Bus.isOpen_iff.2 ⟨b', hb', isOpen_of_after hgood hb' ho⟩
    have hfirst := gathering_apply h hg (hr act List.mem_cons_self) (hbegins act List.mem_cons_self) hopen
    have hrest := ih hgood hfirst (fun a ha => hr a (List.mem_cons_of_mem act ha))
      (fun a ha => hbegins a (List.mem_cons_of_mem act ha)) ho
    rwa [history, sentTo_append, ← List.append_assoc]

end Desk

namespace Session

variable {s : Session} {id : BindingId} {terms : Terms} {b : Binding} {name : ReadName} {op : Op} {all : Bytes} {n : Nat}

/-- What is sent to a binding on the given terms in the course of operations. -/
def sentIn (s : Session) (id : BindingId) (terms : Terms) (ops : List Op) : Bytes :=
  sentTo id terms.topic terms.kind (s.desk.history (s.trail ops))

/-- Whether an operation begins a read of the binding `id` that may stand in the line: that of a future, or of a call
that has to wait. -/
def BeginsOn (s : Session) (id : BindingId) (op : Op) : Prop :=
  (∃ holder read m, (op = .start holder read m ∨ op = .startAll holder read m) ∧ s.names.get? holder = some id) ∨
    s.asks? op = some id ∧ (s.step op).2 = .blocked

section

variable {act : Act} {read : ReadName} {m : Nat} {i : BindingId}

theorem blocked_of_afterRead {once begin : Act} {poll : Binding → Option Nat → ReadName → Polled}
    {answer : Except Fault Bytes → Answer} {out : Bus × Except Halt Bytes} (h : act = unlessWaiting out.2 once begin)
    (hne : act ≠ once) : act = begin ∧ (s.afterRead i poll answer out).2 = .blocked := by
  obtain ⟨bus, (fault | phase) | data⟩ := out
  · exact absurd h hne
  · exact ⟨h, rfl⟩
  · exact absurd h hne

theorem blocked_of_read {wanted : Nat} {answer : Except Fault Bytes → Answer}
    (h : act = unlessWaiting (s.bus.read i wanted).2 (.read i wanted) (.start s.nextCall i wanted))
    (hact : act = .start read id m ∨ act = .startAll read id m) : i = id ∧ (s.read i wanted answer).2 = .blocked := by
  have hwaits : act = .start s.nextCall i wanted ∧ (s.read i wanted answer).2 = .blocked :=
    blocked_of_afterRead h (by rintro rfl; rcases hact with hact | hact <;> cases hact)
  obtain ⟨rfl, hblocked⟩ := hwaits
  rcases hact with hact | hact <;> cases hact
  exact ⟨rfl, hblocked⟩

theorem blocked_of_readAll {wanted : Nat} {answer : Except Fault Bytes → Answer}
    (h : act = unlessWaiting (s.bus.readAll i wanted).2 (.readAll i wanted) (.startAll s.nextCall i wanted))
    (hact : act = .start read id m ∨ act = .startAll read id m) :
    i = id ∧ (s.readAll i wanted answer).2 = .blocked := by
  have hwaits : act = .startAll s.nextCall i wanted ∧ (s.readAll i wanted answer).2 = .blocked :=
    blocked_of_afterRead h (by rintro rfl; rcases hact with hact | hact <;> cases hact)
  obtain ⟨rfl, hblocked⟩ := hwaits
  rcases hact with hact | hact <;> cases hact
  exact ⟨rfl, hblocked⟩

/-- A read is begun for a call only if the call has to wait. -/
theorem blocked_of_mem_bindingActs {op : BindingOp} (h : act ∈ s.bindingActs i op)
    (hact : act = .start read id m ∨ act = .startAll read id m) : i = id ∧ (s.stepBinding i op).2 = .blocked := by
  cases op with
  | read _ | readTagged _ => exact blocked_of_read (List.mem_singleton.1 h) hact
  | readAll _ => exact blocked_of_readAll (List.mem_singleton.1 h) hact
  | tryRead _ | write _ | writeTagged _ | close =>
    rw [List.mem_singleton.1 h] at hact
    rcases hact with hact | hact <;> cases hact
  | flush | isOpen | info | traffic | readCapacity | writeCapacity => cases h

theorem blocked_of_mem_liveActs {t : Transport} {op : BindingOp} {closed : Answer} {f : BindingId → Session × Answer}
    (h : act ∈ s.liveActs t op) (hf : ∀ i, act ∈ s.bindingActs i op → i = id ∧ (f i).2 = .blocked) :
    s.live? t = some id ∧ (s.onLive t closed f).2 = .blocked := by
  unfold liveActs at h
  cases hlive : s.live? t with
  | none =>
    rw [hlive] at h
    cases h
  | some i =>
    rw [hlive] at h
    obtain ⟨rfl, hblocked⟩ := hf i h
    exact ⟨rfl, by simp only [onLive, hlive, hblocked]⟩

theorem blocked_of_mem_transportActs (transport : String) {t : Transport} {op : TransportOp}
    (h : act ∈ s.transportActs t op) (hact : act = .start read id m ∨ act = .startAll read id m) :
    s.live? t = some id ∧ (s.stepTransport transport t op).2 = .blocked := by
  cases op with
  | read _ | readAll _ | write _ => exact blocked_of_mem_liveActs h (fun i hi => blocked_of_mem_bindingActs hi hact)
  | ioRead size =>
    simp only [transportActs, stepTransport] at h ⊢
    by_cases hsize : size = 0
    · rw [if_pos hsize] at h
      cases h
    · rw [if_neg hsize] at h ⊢
      exact blocked_of_mem_liveActs h (fun i hi => blocked_of_read (List.mem_singleton.1 hi) hact)
  | ioReadExact size =>
    simp only [transportActs, stepTransport] at h ⊢
    by_cases hsize : size = 0
    · rw [if_pos hsize] at h
      cases h
    · rw [if_neg hsize] at h ⊢
      exact blocked_of_mem_liveActs h (fun i hi => blocked_of_readAll (List.mem_singleton.1 hi) hact)
  | ioWrite data =>
    exact blocked_of_mem_liveActs h (fun i hi => by
      rw [List.mem_singleton.1 hi] at hact
      rcases hact with hact | hact <;> cases hact)
  | openBinding | closeBinding =>
    simp only [transportActs] at h
    split at h
    · cases h
    · rw [List.mem_singleton.1 h] at hact
      rcases hact with hact | hact <;> cases hact
  | isOpen | options | flush | ioFlush => cases h

/-- An act that begins a read is there for an operation that does. -/
theorem beginsOn_of_mem_acts (h : act ∈ s.acts op) (hact : act = .start read id m ∨ act = .startAll read id m) :
    s.BeginsOn id op := by
  have hread : act.read? = some read := by rcases hact with rfl | rfl <;> rfl
  have hclose : ∀ i, act ≠ .close i := by rintro i rfl; cases hread
  -- a read that is begun under a name that is in use is begun after the old one is cancelled
  have hbegun : ∀ {read : ReadName} {i : BindingId} {poll? : Act} {poll : Binding → Polled},
      act ∈ s.cancelling read ++ (s.cancel read).advancing read i poll? poll → act = poll? := fun hmem => by
    rcases List.mem_append.1 hmem with hmem | hmem
    · rcases of_mem_cancelling hmem with rfl | ⟨i, hi⟩
      · rcases hact with hact | hact <;> cases hact
      · exact absurd hi (hclose i)
    · exact (of_mem_advancing hmem).resolve_right (fun ⟨i, hi⟩ => hclose i hi)
  cases op with
  | start holder read' wanted =>
    simp only [acts] at h
    split at h
    · cases h
    · rename_i i hholder
      have he := hbegun h
      rcases hact with hact | hact <;> cases hact.symm.trans he
      exact .inl ⟨holder, read', m, .inl rfl, hholder⟩
  | startAll holder read' wanted =>
    simp only [acts] at h
    split at h
    · cases h
    · rename_i i hholder
      have he := hbegun h
      rcases hact with hact | hact <;> cases hact.symm.trans he
      exact .inl ⟨holder, read', m, .inr rfl, hholder⟩
  | onBinding name op =>
    simp only [acts] at h
    split at h
    · cases h
    · rename_i i hn
      obtain ⟨rfl, hblocked⟩ := blocked_of_mem_bindingActs h hact
      exact .inr ⟨hn, by simp only [step, named, hn, hblocked]⟩
  | endCall op =>
    simp only [acts] at h
    split at h
    · cases h
    · rename_i i earlier hc
      rcases List.mem_append.1 h with h | h
      · obtain ⟨rfl, hblocked⟩ := blocked_of_mem_bindingActs h hact
        exact .inr ⟨by simp only [asks?, hc, List.head?_cons], by simp only [step, hc, endCall, hblocked]⟩
      · exact absurd (of_mem_settling h) (hclose i)
  | onTransport transport op =>
    simp only [acts] at h
    split at h
    · cases h
    · rename_i t ht
      obtain ⟨hlive, hblocked⟩ := blocked_of_mem_transportActs transport h hact
      exact .inr ⟨Option.bind_eq_some_iff.2 ⟨t, ht, hlive⟩, by simp only [step, named, ht, hblocked]⟩
  | _ =>
    rcases of_mem_acts h with ⟨i, hi⟩ | hop
    · exact absurd hi (hclose i)
    · cases hop <;> rcases hact with hact | hact <;> cases hact

end

/-- **A poll of a read that gathers** is answered by what there is. -/
theorem poll_gathering (h : s.desk.Good) (hl : s.bus.config.chunkLimit ≠ some 0)
    (hg : s.desk.Gathering id terms name n all) (ho : s.bus.isOpen id = true) (hd : s.bus.isShutDown = false) :
    (n ≤ all.length → (s.step (.poll name)).2 = .ready (.ok (all.take n))) ∧
    (all.length < n → (s.step (.poll name)).2 = .pending ∧
      (s.step (.poll name)).1.desk.Gathering id terms name n all) := by
  obtain ⟨b, gathered, wanted, hb, rfl, hline, hread, rfl, rfl⟩ := hg
  have hread' : s.reads.get? name = some ⟨id, ⟨.exactly gathered, wanted, .atInbox⟩⟩ := hread
  have hb' : s.bus.bindings.get? id = some b := hb
  have hopen : b.isOpen = true := (Bus.isOpen_of_get? hb').symm.trans ho
  obtain ⟨hw, b₁, hb₁, hready⟩ := h.reads name _ hread
  obtain rfl := Option.some.inj (hb.symm.trans hb₁)
  have hw : 0 < wanted := hw
  have hs : b.Sound s.bus.config.chunkLimit false := hd ▸ h.sound id b hb
  obtain ⟨after, parts, hreread, hstream, henough, hshort⟩ :=
    Binding.exists_poll_alone hs hopen hl hline hw (hready rfl).2 gathered
  have hstep := step_poll hread' hb'
  rw [List.length_append]
  refine ⟨fun hn => ?_, fun hn => ?_⟩
  · rw [hstep, henough (by omega), List.take_append, List.take_of_length_le (Nat.le_add_right _ _),
      Nat.add_sub_cancel_left]
    rfl
  · have hpoll := hshort (by omega)
    rw [hstep, hpoll]
    refine ⟨rfl, { after with line := [name] }, gathered ++ b.stream, wanted - b.stream.length, ?_, hreread.terms, rfl,
      ?_, ?_, ?_⟩
    · exact Bus.get?_put_self _ _ _
    · exact Table.get?_insert_self _ _ _
    · have hnil : after.stream = [] := by rw [hstream, List.drop_of_length_le (by omega)]
      exact (congrArg _ hnil).trans (List.append_nil _)
    · rw [List.length_append]
      omega

/-- A poll sends nothing. -/
theorem sentTo_of_poll (s : Session) (name : ReadName) (id : BindingId) (topic : Topic) (kind : Kind) :
    sentTo id topic kind (s.desk.history (s.acts (.poll name))) = [] := by
  refine sentTo_of_binding (fun e he hnone => ?_)
  obtain ⟨act, hact, d, hevent⟩ := Desk.exists_act_of_mem_history he
  cases Desk.leaves_of_mem_events hevent with
  | wrote =>
    rcases of_mem_acts hact with ⟨_, he⟩ | hop
    · cases he
    · cases hop
  | opened | closed | took => cases hnone

theorem sentIn_cons (s : Session) (id : BindingId) (terms : Terms) (op : Op) (rest : List Op) :
    s.sentIn id terms (op :: rest) =
      sentTo id terms.topic terms.kind (s.desk.history (s.acts op)) ++ (s.step op).1.sentIn id terms rest := by
  rw [sentIn, trail, Desk.history_append, sentTo_append, ← desk_step]
  rfl

/-- What is open in the end was open all the time. -/
theorem isOpen_of_run (h : s.desk.Good) (hb : s.bus.bindings.get? id = some b) {ops : List Op}
    (ho : (s.run ops).bus.isOpen id = true) : s.bus.isOpen id = true := by
  have hafter : (s.desk.after (s.trail ops)).bus.isOpen id = true := by
    rw [← desk_run]
    exact ho
  exact Bus.isOpen_iff.2 ⟨b, hb, Desk.isOpen_of_after h hb hafter⟩

/-- A bus that is not shut down in the end never was. -/
theorem up_of_run {ops : List Op} (hd : (s.run ops).bus.isShutDown = false) : s.bus.isShutDown = false := by
  refine Bool.eq_false_iff.2 (fun hdown => ?_)
  have hlater := (Desk.frame_after s.desk (s.trail ops)).2 hdown
  rw [← desk_run] at hlater
  exact Bool.false_ne_true (hd.symm.trans hlater)

/-- **One operation** that leaves the read alone, or polls it too early. -/
theorem gathering_step (h : s.desk.Good) (hl : s.bus.config.chunkLimit ≠ some 0)
    (hg : s.desk.Gathering id terms name n all) (hpolls : op.read? = some name → op = .poll name)
    (hbegins : ¬ s.BeginsOn id op) (hearly : op = .poll name → all.length < n)
    (ho : (s.step op).1.bus.isOpen id = true) (hd : (s.step op).1.bus.isShutDown = false) :
    (s.step op).1.desk.Gathering id terms name n
      (all ++ sentTo id terms.topic terms.kind (s.desk.history (s.acts op))) := by
  have hdesk := desk_step s op
  by_cases hop : op = .poll name
  · obtain rfl := hop
    obtain ⟨b, hb⟩ := hg.exists_binding
    have ho' : s.bus.isOpen id = true := isOpen_of_run h hb (show (s.run [.poll name]).bus.isOpen id = true from ho)
    have hd' : s.bus.isShutDown = false := up_of_run (show (s.run [.poll name]).bus.isShutDown = false from hd)
    rw [sentTo_of_poll, List.append_nil]
    exact ((poll_gathering h hl hg ho' hd').2 (hearly rfl)).2
  · have hop' : op.read? ≠ some name := fun he => hop (hpolls he)
    rw [hdesk]
    have ⟨_, _, _, _, _, _, hread, _⟩ := hg
    refine Desk.gathering_after h hg (fun act hact => read?_ne_of_mem_acts hact hop' hread) (fun act hact other m => ?_)
      (hdesk ▸ ho)
    exact ⟨fun he => hbegins (beginsOn_of_mem_acts hact (.inl he)), fun he =>
      hbegins (beginsOn_of_mem_acts hact (.inr he))⟩

/-- The operations have to do with the read `name` only to poll it, and begin no other read of the binding `id`. -/
structure LetsBe (s : Session) (id : BindingId) (name : ReadName) (ops : List Op) : Prop where
  polls : ∀ op ∈ ops, op.read? = some name → op = .poll name
  begins : ∀ pre op post, ops = pre ++ op :: post → ¬ (s.run pre).BeginsOn id op

/-- **Operations that leave the read alone**, or poll it too early. -/
theorem gathering_run (h : s.desk.Good) (hl : s.bus.config.chunkLimit ≠ some 0)
    (hg : s.desk.Gathering id terms name n all) {ops : List Op} (hops : s.LetsBe id name ops)
    (hearly : ∀ pre post, ops = pre ++ .poll name :: post → (all ++ s.sentIn id terms pre).length < n)
    (ho : (s.run ops).bus.isOpen id = true) (hd : (s.run ops).bus.isShutDown = false) :
    (s.run ops).desk.Gathering id terms name n (all ++ s.sentIn id terms ops) := by
  induction ops generalizing s all with
  | nil =>
    rw [sentIn, trail, Desk.history, sentTo, List.flatMap_nil, List.append_nil]
    exact hg
  | cons op rest ih =>
    have hgood := good_step h op
    have hconfig : (s.step op).1.bus.config = s.bus.config := by
      have hframe := (Desk.frame_after s.desk (s.acts op)).1
      rwa [← desk_step] at hframe
    obtain ⟨b, hb⟩ := hg.exists_binding
    obtain ⟨b', hb', -⟩ := Desk.met_after h hb (s.acts op)
    rw [← desk_step] at hb'
    have hfirst := gathering_step h hl hg (hops.polls op List.mem_cons_self) (hops.begins [] op rest rfl)
      (fun he => by simpa [sentIn, trail, Desk.history, sentTo] using hearly [] rest (by rw [he]; rfl))
      (isOpen_of_run hgood hb' ho) (up_of_run hd)
    rw [sentIn_cons, ← List.append_assoc]
    refine ih hgood (hconfig ▸ hl) hfirst
      ⟨fun o ho => hops.polls o (List.mem_cons_of_mem op ho), fun pre o post he => ?_⟩ (fun pre post he => ?_) ho hd
    · exact hops.begins (op :: pre) o post (by rw [he]; rfl)
    · have hlt := hearly (op :: pre) post (by rw [he]; rfl)
      rwa [sentIn_cons, ← List.append_assoc] at hlt

/-! ## Both forms side by side -/

/-- An exact read of `n` bytes of the binding `id`, in either form, comes to `result` at once and leaves `after`. -/
structure Alike (s : Session) (id : BindingId) (b : Binding) (n : Nat) (result : Except Fault Bytes) (after : Binding)
    (parts : List Bytes) : Prop where
  waiting : s.bus.readAll id n = (s.bus.put id after, result.mapError .failed)
  suspended : ∀ name, b.startExact s.bus.config.chunkLimit name n = ⟨after, parts, .ready result⟩
  /-- The session is the same afterwards, and the name of the read is free. -/
  told : ∀ holder, s.names.get? holder = some id →
    s.step (.onBinding holder (.readAll n)) = ({ s with bus := s.bus.put id after }, .ofExcept .bytes result) ∧
    ∀ name : String, s.reads.get? name = none →
      s.step (.startAll holder name n) = ({ s with bus := s.bus.put id after }, .ready result)

/-- The session in which an exact read of `n` bytes of the binding `id`, under the given name, has taken what there was,
which has left `after`, and holds the read side. -/
def gathers (s : Session) (id : BindingId) (b : Binding) (n : Nat) (after : Binding) (name : ReadName) : Session :=
  { s with
    bus := s.bus.put id { after with line := [name] }
    reads := s.reads.insert name ⟨id, ⟨.exactly b.stream, n - b.stream.length, .atInbox⟩⟩ }

/-- More has to come for an exact read of `n` bytes of the binding `id`.  In either form it takes what there is, which
leaves `after`, and holds the read side; in the one it is a call that waits so. -/
structure Lacking (s : Session) (id : BindingId) (b : Binding) (n : Nat) (after : Binding) (parts : List Bytes) :
    Prop where
  waiting : (s.bus.readAll id n).2 = .error (.waits .atInbox) ∧
    ∀ holder, s.names.get? holder = some id →
      s.step (.onBinding holder (.readAll n)) = (s.gathers id b n after s.nextCall, .blocked)
  suspended : ∀ name, b.startExact s.bus.config.chunkLimit name n = ⟨{ after with line := [name] }, parts,
    .pending ⟨.exactly b.stream, n - b.stream.length, .atInbox⟩⟩
  begun : ∀ (holder name : String), s.names.get? holder = some id → s.reads.get? name = none →
    s.step (.startAll holder name n) = (s.gathers id b n after name, .pending)
  /-- The first poll that comes when there is enough is answered with the bytes. -/
  later : ∀ name, s.reads.get? name = none →
    let t := s.gathers id b n after name
    ∀ more, t.LetsBe id name more → (t.run more).bus.isOpen id = true → (t.run more).bus.isShutDown = false →
      (∀ pre post, more = pre ++ .poll name :: post → (b.stream ++ t.sentIn id b.toTerms pre).length < n) →
      ((t.run more).step (.poll name)).2 =
        if n ≤ (b.stream ++ t.sentIn id b.toTerms more).length then
          .ready (.ok ((b.stream ++ t.sentIn id b.toTerms more).take n))
        else .pending

section

variable {after : Binding} {parts : List Bytes} {result : Except Fault Bytes} {holder : String}

theorem bus_readAll (hb : s.bus.bindings.get? id = some b) {answer : Except Halt Bytes}
    (hread : (b.readAll s.bus.config.chunkLimit n).result (.failed .endOfStream) = (after, answer)) :
    s.bus.readAll id n = (s.bus.put id after, answer) := by
  simp only [Bus.readAll, Bus.onBinding, hb, hread]

/-- Beginning an exact read under a name that is not in use. -/
theorem step_startAll {f : String} (hholder : s.names.get? holder = some id) (hfree : s.reads.get? f = none)
    (hb : s.bus.bindings.get? id = some b) : s.step (.startAll holder f n) =
      (s.keep f id (b.startExact s.bus.config.chunkLimit f n),
        .ofProgress (b.startExact s.bus.config.chunkLimit f n).progress) := by
  have hcancel : s.cancel f = s := by simp only [cancel, hfree]
  simp only [step, named, hholder, hcancel, advance, hb]

/-- A read that finished at once has left nothing behind but the binding. -/
theorem keep_ready (hholder : s.names.get? holder = some id) (hfree : s.reads.get? name = none) :
    s.keep name id ⟨after, parts, .ready result⟩ = { s with bus := s.bus.put id after } := by
  have hheld : { s with bus := s.bus.put id after }.isHeld id = true := isHeld_iff.2 (.name hholder)
  simp only [keep, Table.erase_of_none hfree, settle, hheld, if_true]

theorem alike_of_ends (hb : s.bus.bindings.get? id = some b)
    (hread : (b.readAll s.bus.config.chunkLimit n).result (.failed .endOfStream) = (after, result.mapError .failed))
    (hstart : ∀ name, b.startExact s.bus.config.chunkLimit name n = ⟨after, parts, .ready result⟩) :
    s.Alike id b n result after parts := by
  have hwaiting := bus_readAll hb hread
  refine ⟨hwaiting, hstart, fun holder hholder => ⟨?_, fun name hfree => ?_⟩⟩
  · simp only [step, named, hholder, stepBinding, readAll, hwaiting]
    cases result <;> rfl
  · rw [step_startAll hholder hfree hb, hstart, keep_ready hholder hfree]
    rfl

/-- **What a read that gathers comes to** after operations that leave it alone or poll it too early. -/
theorem poll_later (h : s.desk.Good) (hl : s.bus.config.chunkLimit ≠ some 0)
    (hg : s.desk.Gathering id terms name n all) {more : List Op} (hmore : s.LetsBe id name more)
    (ho : (s.run more).bus.isOpen id = true) (hd : (s.run more).bus.isShutDown = false)
    (hearly : ∀ pre post, more = pre ++ .poll name :: post → (all ++ s.sentIn id terms pre).length < n) :
    ((s.run more).step (.poll name)).2 =
      if n ≤ (all ++ s.sentIn id terms more).length then .ready (.ok ((all ++ s.sentIn id terms more).take n))
      else .pending := by
  have hconfig : (s.run more).bus.config = s.bus.config := by
    have hframe := (Desk.frame_after s.desk (s.trail more)).1
    rwa [← desk_run] at hframe
  obtain ⟨henough, hpending⟩ := poll_gathering (good_later h more) (hconfig ▸ hl)
    (gathering_run h hl hg hmore hearly ho hd) ho hd
  split
  · exact henough ‹_›
  · exact (hpending (Nat.lt_of_not_le ‹_›)).1

theorem lacking_of_exactly (h : s.desk.Good) (hl : s.bus.config.chunkLimit ≠ some 0)
    (hb : s.bus.bindings.get? id = some b) (hd : s.bus.isShutDown = false) (hshort : b.stream.length < n)
    (he : Binding.Exactly s.bus.config.chunkLimit s.bus.isShutDown n b after parts) : s.Lacking id b n after parts := by
  have hstart : ∀ name, b.startExact s.bus.config.chunkLimit name n = ⟨{ after with line := [name] }, parts,
      .pending ⟨.exactly b.stream, n - b.stream.length, .atInbox⟩⟩ := fun name => (he.startExact name).2.2 hshort hd
  have hread : s.bus.readAll id n = (s.bus.put id after, .error (.waits .atInbox)) :=
    bus_readAll hb (by rw [(he.waits hshort hd).1]; rfl)
  refine ⟨⟨congrArg Prod.snd hread, fun holder hholder => ?_⟩, hstart, fun holder name hholder hfree => ?_, ?_⟩
  · simp only [step, named, hholder, stepBinding, readAll, hread, afterRead, advance, hb, hstart]
    rfl
  · rw [step_startAll hholder hfree hb, hstart]
    rfl
  · intro name hfree t more hmore ho hd' hearly
    have hpolled : s.desk.polled? (.startAll name id n) =
        some (name, id, b.startExact s.bus.config.chunkLimit name n) := by
      simp only [Desk.polled?, desk, hfree, hb]
      rfl
    have hgood : t.desk.Good := by
      have happly := Desk.good_apply h (.startAll name id n)
      rwa [Desk.apply_of_polled? hpolled, hstart] at happly
    have hnil : after.stream = [] := by rw [he.stream, List.drop_of_length_le (Nat.le_of_lt hshort)]
    have hgathering : t.desk.Gathering id b.toTerms name n b.stream :=
      ⟨{ after with line := [name] }, b.stream, n - b.stream.length, Bus.get?_put_self _ _ _, he.reread.terms,
        rfl, Table.get?_insert_self _ _ _, (congrArg _ hnil).trans (List.append_nil _), by omega⟩
    exact poll_later hgood hl hgathering hmore ho hd' hearly

end

/-- **The forms of exact read agree.**  Say that a binding is open with no read in its line, and that the limit allows at
least one byte; an exact read asks for `n` bytes.  In either form it takes the same parts out of the stream: the first
`n` bytes, or all there are.  If there are `n`, both forms give them at once and leave the same session.  If there are
fewer and the bus is shut down, both are told that the binding is closed, and the read side is given up.  If there are
fewer before that, a waiting read waits, and a suspended one holds the read side with what it took.  From then on, as
long as the binding stays open and the bus is not shut down, whatever else is done, if no other read of the binding is
begun: the first poll to come when what was there at first and what was sent to the binding since make up `n` bytes gives
the first `n` of these, and the polls before it are told to wait. -/
theorem exact_forms_agree (config : Config) (ops : List Op) {id : BindingId} {b : Binding}
    (hb : ((new config).run ops).bus.bindings.get? id = some b) (ho : b.isOpen = true) (hline : b.line = [])
    (hl : config.chunkLimit ≠ some 0) (n : Nat) :
    let s := (new config).run ops
    ∃ after parts, parts.flatten = b.stream.take n ∧ after.stream = b.stream.drop n ∧ b.Reread after ∧
      (n ≤ b.stream.length → s.Alike id b n (.ok (b.stream.take n)) after parts) ∧
      (b.stream.length < n → s.bus.isShutDown = true →
        s.Alike id b n (.error .closed) after parts ∧ after.readSide = none ∧ after.readCapacity = 0) ∧
      (b.stream.length < n → s.bus.isShutDown = false → s.Lacking id b n after parts) := by
  intro s
  have hgood : s.desk.Good := good_run config ops
  have hconfig : s.bus.config = config := config_run config ops
  have hl' : s.bus.config.chunkLimit ≠ some 0 := hconfig.symm ▸ hl
  obtain ⟨after, parts, he⟩ := Binding.exists_exactly (hgood.sound id b hb) ho hline hl' n
  refine ⟨after, parts, he.bytes, he.stream, he.reread, fun henough => ?_, fun hshort hd => ?_,
    fun hshort hd => lacking_of_exactly hgood hl' hb hd hshort he⟩
  · refine alike_of_ends hb ?_ (fun name => (he.startExact name).1 henough)
    rw [show b.readAll s.bus.config.chunkLimit n = _ from (he.enough henough).1, ← he.bytes]
    rfl
  · obtain ⟨hside, hroom, hread, -⟩ := he.ended hshort hd
    refine ⟨alike_of_ends hb ?_ (fun name => (he.startExact name).2.1 hshort hd), hside, hroom⟩
    rw [show b.readAll s.bus.config.chunkLimit n = _ from hread]
    rfl

/-- Three of the five bytes are there when a read of exactly five begins; a poll comes too early. -/
theorem exact_forms_agree_on_five :
    let ops := twoPeers ++ [.onBinding "a" (.write [1, 2, 3])]
    let t := (((new {}).run ops).step (.startAll "b" "read" 5)).1
    let more : List Op := [.onBinding "a" (.write [4]), .poll "read", .onBinding "a" (.write [5, 6])]
    (((new {}).run ops).step (.onBinding "b" (.readAll 5))).2 = .blocked ∧
      ((t.run more).step (.poll "read")).2 = .ready (.ok [1, 2, 3, 4, 5]) := by
  intro ops t more
  have hb : ((new {}).run ops).bus.bindings.get? ⟨6⟩ = some (.mk ⟨⟨6⟩, ⟨3⟩, ⟨1⟩, ⟨4⟩, ⟨1⟩, .multicast⟩ true
      (some ⟨⟨[], 4096, none⟩, [], [[1, 2, 3]], true⟩) (some ⟨[], 4096, none⟩) 4096 4096 {} []) := by decide +kernel
  obtain ⟨after, parts, -, -, -, -, -, hlacking⟩ := exact_forms_agree {} ops hb rfl rfl nofun 5
  have hlacking := hlacking (by decide) (by decide +kernel)
  have hname : ((new {}).run ops).names.get? "b" = some ⟨6⟩ := by decide +kernel
  have hfree : ((new {}).run ops).reads.get? "read" = none := by decide +kernel
  have ht : t = Session.gathers _ ⟨6⟩ _ 5 after "read" := congrArg Prod.fst (hlacking.begun "b" "read" hname hfree)
  have hlater := hlacking.later "read" hfree
  rw [← ht] at hlater
  have hletsBe : t.LetsBe ⟨6⟩ "read" more := by
    refine ⟨by decide, fun pre op post hop => ?_⟩
    have hmem : op ∈ more := hop ▸ List.mem_append_right pre List.mem_cons_self
    simp only [more, List.mem_cons, List.not_mem_nil, or_false] at hmem
    rintro (⟨holder, read, m, hbegins, -⟩ | ⟨-, hblocked⟩)
    · rcases hmem with rfl | rfl | rfl <;> rcases hbegins with he | he <;> cases he
    · have hwrite : ∀ (s : Session) id data, (s.stepBinding id (.write data)).2 ≠ .blocked := fun s id data =>
        ne_blocked_ofExcept _ (fun _ => nofun)
      rcases hmem with rfl | rfl | rfl
      · exact ne_blocked_named (fun _ => hwrite _ _ _) hblocked
      · exact ne_blocked_named (fun _ => ne_blocked_advance _ _ _ _) hblocked
      · exact ne_blocked_named (fun _ => hwrite _ _ _) hblocked
  refine ⟨congrArg Prod.snd (hlacking.waiting.2 "b" hname), ?_⟩
  refine (hlater more hletsBe (by decide +kernel) (by decide +kernel) ?_).trans ?_
  · intro pre post hpre
    have hfirst : pre = [.onBinding "a" (.write [4])] := by
      change [Op.onBinding "a" (.write [4]), Op.poll "read", Op.onBinding "a" (.write [5, 6])] = _ at hpre
      rcases pre with _ | ⟨x, _ | ⟨y, _ | ⟨z, pre⟩⟩⟩
      · cases hpre
      · cases hpre
        rfl
      · cases hpre
      · cases pre <;> cases hpre
    subst hfirst
    decide +kernel
  · have hall : [1, 2, 3] ++ t.sentIn ⟨6⟩ ⟨⟨6⟩, ⟨3⟩, ⟨1⟩, ⟨4⟩, ⟨1⟩, .multicast⟩ more = [1, 2, 3, 4, 5, 6] := by
      decide +kernel
    exact (congrArg (fun all : Bytes => if 5 ≤ all.length then Answer.ready (.ok (all.take 5)) else .pending) hall)

end Session
end TopicBus
