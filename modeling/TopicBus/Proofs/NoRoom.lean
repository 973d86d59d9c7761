import TopicBus.Proofs.Clamped
import TopicBus.Proofs.Closed
import TopicBus.Proofs.FailedWrites
import TopicBus.Proofs.Holders
import TopicBus.Proofs.Opening
/-!
# A limit of no bytes

A bus may be limited to no bytes at all.  Reads go by another way then: they ask for one byte nevertheless, since a read
that is asked for some must not come back with none, and the buffer refuses it.  Nothing is ever written, so nothing is
ever waited for: each binding keeps the empty inbox that it was opened with (`Binding.Bare`, `Desk.starved_apply`), and
every read of an open one is refused before anything is touched (`Session.Barren`).

With that, what the limit of a bus does to its reads is known for every limit (`Session.reads_fit`).
-/
namespace TopicBus

namespace Binding

variable {down : Bool} {b : Binding} {name : ReadName} {n : Nat}

/-- Nothing has come to the binding, nobody waits for it, and an open one has its read side. -/
structure Bare (b : Binding) : Prop where
  side : b.isOpen = true → ∃ side, b.readSide = some side
  empty : ∀ side, b.readSide = some side → side.pending = [] ∧ side.queue = []
  line : b.line = []

theorem bare_fresh (terms : Terms) (readBuffer writeBuffer : Buffer) : (fresh terms readBuffer writeBuffer).Bare where
  side _ := ⟨_, rfl⟩
  empty := by
    rintro _ ⟨⟩
    exact ⟨rfl, rfl⟩
  line := rfl

theorem bare_releaseReadSide (h : b.Bare) (ho : b.isOpen = false) : b.releaseReadSide.Bare := by
  rw [releaseReadSide_eq]
  exact ⟨fun ho' => absurd (ho.symm.trans ho') Bool.false_ne_true, nofun, h.line⟩

theorem bare_releaseIfClosed (h : b.Bare) : b.releaseIfClosed.Bare := by
  rcases b.releaseIfClosed_cases with he | ⟨ho, -, he⟩ <;> rw [he]
  · exact h
  · exact bare_releaseReadSide h ho

theorem bare_disconnect (h : b.Bare) : b.disconnect.Bare where
  side ho := by
    obtain ⟨side, hside⟩ := h.side ho
    exact ⟨side.disconnect, congrArg (Option.map ReadSide.disconnect) hside⟩
  empty side hside := by
    obtain ⟨before, hbefore, rfl⟩ := Option.map_eq_some_iff.1 hside
    exact h.empty before hbefore
  line := h.line

theorem bare_shut (h : b.Bare) : b.shut.Bare := by
  rw [shut_eq]
  refine bare_releaseIfClosed ⟨nofun, fun side hside => ?_, h.line⟩
  exact (bare_disconnect h).empty side hside

/-! ## Reads for which there is no room -/

/-- Why a read is refused for which there is no room. -/
abbrev noRoom : Fault := .buffer ⟨1, 0⟩

theorem clampRead_zero {n : Nat} (hn : n ≠ 0) : clampRead (some 0) n = 1 := by
  simp only [clampRead]
  omega

theorem fetch_of_noRoom {side : ReadSide} (ho : b.isOpen = true) (hside : b.readSide = some side)
    (hlimit : side.buffer.limit = some 0) (hn : n ≠ 0) :
    b.fetch (clampRead (some 0) n) = (b, .error (.failed noRoom)) := by
  simp only [fetch, prepare, ho, hside, Buffer.ensure, hlimit, clampRead_zero hn, checkLimit_of_lt Nat.one_pos,
    Bool.not_true, Bool.false_eq_true, if_false]

section

variable (hs : b.Sound (some 0) down) (h : b.Bare) (ho : b.isOpen = true) (hn : n ≠ 0)
include hs h ho hn

theorem read_of_bare : b.read (some 0) n = (b, .error (.failed noRoom)) := by
  obtain ⟨side, hside⟩ := h.side ho
  rw [read_eq_fetch ho h.line (Nat.pos_of_ne_zero hn), fetch_of_noRoom ho hside (hs.idle side hside).limit hn,
    releaseIfClosed_of_isOpen ho]

theorem tryRead_of_bare : b.tryRead (some 0) n = (b, .error noRoom) := by
  simp only [tryRead, read_of_bare hs h ho hn]

theorem readAll_of_bare : b.readAll (some 0) n = ⟨b, [], .stopped (.failed noRoom)⟩ := by
  simp only [readAll, ExactRead.run_of_pos _ _ hn, read_of_bare hs h ho hn, ExactRead.resume]

theorem beginRead_of_bare (name : ReadName) : b.beginRead (some 0) name n = (b, .error (.failed noRoom)) := by
  have hread := read_of_bare hs h ho hn
  refine (beginRead_eq_read (fun phase hp => ?_) name).trans hread
  rw [hread] at hp
  cases hp

theorem startUpTo_of_bare (name : ReadName) : b.startUpTo (some 0) name n = ⟨b, [], .ready (.error noRoom)⟩ := by
  simp only [startUpTo, beginRead_of_bare hs h ho hn, settleUpTo]

theorem startExact_of_bare (name : ReadName) : b.startExact (some 0) name n = ⟨b, [], .ready (.error noRoom)⟩ := by
  simp only [startExact, ExactRead.run_of_pos _ _ hn, beginRead_of_bare hs h ho hn, ExactRead.resume, settleExact]

end

/-! ## Whatever is asked, nothing comes of it -/

variable (hs : b.Sound (some 0) down) (h : b.Bare)
include hs h

theorem bare_read (n : Nat) : (b.read (some 0) n).1.Bare := by
  cases ho : b.isOpen with
  | false =>
    rw [read_of_closed ho]
    exact bare_releaseIfClosed h
  | true =>
    by_cases hn : n = 0
    · simp only [read, readOnce, ho, hn, Bool.not_true, Bool.false_eq_true, if_false, if_true]
      exact bare_releaseIfClosed h
    · rw [read_of_bare hs h ho hn]
      exact h

theorem bare_readAll (n : Nat) : (b.readAll (some 0) n).reader.Bare := by
  by_cases hn : n = 0
  · rw [hn, readAll, ExactRead.run_zero]
    exact h
  cases ho : b.isOpen with
  | false =>
    rw [readAll_of_closed ho _ _ hn]
    exact bare_releaseIfClosed h
  | true =>
    rw [readAll_of_bare hs h ho hn]
    exact h

theorem bare_startUpTo (name : ReadName) (n : Nat) : (b.startUpTo (some 0) name n).binding.Bare := by
  cases ho : b.isOpen with
  | false =>
    rw [startUpTo_of_closed ho]
    exact bare_releaseIfClosed h
  | true =>
    by_cases hn : n = 0
    · simp only [startUpTo, beginRead, ho, hn, Bool.not_true, Bool.false_eq_true, if_false, if_true, settleUpTo]
      exact h
    · rw [startUpTo_of_bare hs h ho hn]
      exact h

theorem bare_startExact (name : ReadName) (n : Nat) : (b.startExact (some 0) name n).binding.Bare := by
  by_cases hn : n = 0
  · rw [hn, startExact_zero]
    exact h
  cases ho : b.isOpen with
  | false =>
    rw [startExact_of_closed ho _ _ _ hn]
    exact bare_releaseIfClosed h
  | true =>
    rw [startExact_of_bare hs h ho hn]
    exact h

end Binding

namespace Bus

variable {bus : Bus} {id : BindingId} {b : Binding}

/-- **A write for which there is no room.** -/
theorem write_of_noRoom {down : Bool} (hs : b.Sound (some 0) down) (hb : bus.bindings.get? id = some b)
    (ho : b.isOpen = true) {data : Bytes} (hne : data ≠ []) :
    bus.write id data = (bus, .error (.buffer ⟨data.length, 0⟩)) :=
  write_of_beyond hs hb ho hne (checkLimit_of_lt (List.length_pos_iff.2 hne))

/-- **An opening for which there is no room**: the first capacity that is not nothing is refused. -/
theorem openBinding_of_noRoom (hl : bus.config.chunkLimit = some 0) (hd : bus.isShutDown = false) {o : Options}
    (ho : o.readCapacity ≠ 0 ∨ o.writeCapacity ≠ 0) : bus.openBinding o =
      (bus, .error (.buffer ⟨if o.readCapacity = 0 then o.writeCapacity else o.readCapacity, 0⟩)) := by
  apply openBinding_of_obstacle
  by_cases hr : o.readCapacity = 0
  · have hw : 0 < o.writeCapacity := Nat.pos_of_ne_zero (ho.resolve_left (not_not.2 hr))
    simp [obstacles, beyond?, hl, hd, hr, hw]
  · have hr' : 0 < o.readCapacity := Nat.pos_of_ne_zero hr
    simp [obstacles, beyond?, hl, hd, hr, hr']

end Bus

namespace Desk

variable {d : Desk} {id : BindingId} {b : Binding}

/-- Nothing has come to any binding, and nobody waits. -/
def Starved (d : Desk) : Prop := ∀ id b, d.bus.bindings.get? id = some b → b.Bare

/-- Where nobody stands in a line no read is suspended. -/
theorem Starved.reads (hs : d.Starved) (h : d.Good) (name : ReadName) : d.reads.get? name = none := by
  refine Option.eq_none_iff_forall_ne_some.2 (fun r hr => ?_)
  obtain ⟨-, b, hb, -⟩ := h.reads name r hr
  have hmem := (h.line _ b hb name).2 ⟨r, hr, rfl⟩
  rw [(hs _ b hb).line] at hmem
  exact List.not_mem_nil hmem

theorem starved_put (hs : d.Starved) (hb : b.Bare) (reads : Table ReadName Reader) : Starved ⟨d.bus.put id b, reads⟩ := by
  intro id' b' hb'
  rcases Table.of_get?_insert hb' with ⟨-, rfl⟩ | ⟨-, hb'⟩
  · exact hb
  · exact hs id' b' hb'

theorem starved_onBinding {α : Type} (hs : d.Starved) {absent : α} {f : Binding → Binding × α}
    (hf : ∀ b, d.bus.bindings.get? id = some b → (f b).1.Bare) :
    Starved ⟨(d.bus.onBinding id absent f).1, d.reads⟩ := by
  unfold Bus.onBinding
  split
  · exact hs
  · exact starved_put hs (hf _ ‹_›) _

section

variable (h : d.Good) (hl : d.bus.config.chunkLimit = some 0) (hs : d.Starved)
include h hl hs

omit hs in
theorem sound_of_noRoom (hb : d.bus.bindings.get? id = some b) : b.Sound (some 0) d.bus.isShutDown :=
  hl ▸ h.sound id b hb

omit hs in
/-- Nothing is written where there is no room. -/
theorem write_noRoom (id : BindingId) (data : Bytes) : (d.bus.write id data).1 = d.bus := by
  cases hb : d.bus.bindings.get? id with
  | none => simp only [Bus.write, hb]
  | some b =>
    refine Bus.write_untouched (h.sound id b hb) hb (fun hsent => ?_)
    obtain ⟨-, hne, hwithin⟩ := hsent
    have hlength := List.length_pos_iff.2 hne
    have := hwithin 0 hl
    omega

/-- A read that is begun is refused; there is none that a poll could go on with. -/
theorem starved_advance {act : Act} : (d.advance (d.polled? act)).Starved := by
  cases hp : d.polled? act with
  | none => exact hs
  | some found =>
    obtain ⟨name, id, p⟩ := found
    obtain ⟨b, hb, hpolling⟩ := h.polling hp
    have hsound := sound_of_noRoom h hl hb
    have hbare := hs id b hb
    refine starved_put hs ?_ _
    cases hpolling with
    | start => exact hl ▸ Binding.bare_startUpTo hsound hbare _ _
    | startAll => exact hl ▸ Binding.bare_startExact hsound hbare _ _
    | poll _ hmem =>
      rw [hbare.line] at hmem
      exact absurd hmem List.not_mem_nil

/-- **Every act** leaves all bindings bare. -/
theorem starved_apply (act : Act) : (d.apply act).Starved := by
  cases act with
  | create what => exact hs
  | destroy object => exact hs
  | shutdown =>
    intro id b hb
    obtain ⟨before, hbefore, rfl⟩ := Option.map_eq_some_iff.1 ((Table.get?_mapValues _ _ _).symm.trans hb)
    exact Binding.bare_disconnect (hs id before hbefore)
  | openBinding options =>
    have hout := Bus.opened_openBinding d.bus options
    simp only [apply]
    generalize d.bus.openBinding options = out at hout
    cases hout with
    | refused => exact hs
    | opened =>
      intro id b hb
      rcases Table.of_get?_insert hb with ⟨-, rfl⟩ | ⟨-, hb⟩
      · exact Binding.bare_fresh _ _ _
      · exact hs id b hb
  | close id =>
    simp only [apply]
    rcases Bus.close_cases d.bus id with ⟨-, he⟩ | ⟨b, hb, -, he⟩ <;> rw [he]
    · exact hs
    · intro id' b' hb'
      rcases Table.of_get?_insert hb' with ⟨-, rfl⟩ | ⟨-, hb'⟩
      · exact Binding.bare_shut (hs id b hb)
      · exact hs id' b' hb'
  | write id data =>
    simp only [apply, write_noRoom h hl]
    exact hs
  | read id wanted =>
    refine starved_onBinding hs (fun b hb => ?_)
    rw [hl]
    exact Binding.bare_read (sound_of_noRoom h hl hb) (hs id b hb) wanted
  | tryRead id wanted =>
    refine starved_onBinding hs (fun b hb => ?_)
    rw [tryRead_fst, hl]
    exact Binding.bare_read (sound_of_noRoom h hl hb) (hs id b hb) wanted
  | readAll id wanted =>
    refine starved_onBinding hs (fun b hb => ?_)
    rw [hl]
    exact Binding.bare_readAll (sound_of_noRoom h hl hb) (hs id b hb) wanted
  | start name id wanted => exact starved_advance h hl hs
  | startAll name id wanted => exact starved_advance h hl hs
  | poll name => exact starved_advance h hl hs
  | cancel name =>
    simp only [apply, cancel, hs.reads h name]
    exact hs

theorem starved_after (acts : List Act) : (d.after acts).Starved := by
  induction acts generalizing d with
  | nil => exact hs
  | cons act acts ih =>
    have hlimit : (d.apply act).bus.config.chunkLimit = some 0 := (congrArg _ (frame_apply d act).1).trans hl
    exact ih (good_apply h act) hlimit (starved_apply h hl hs act)

end

end Desk

/-! ## What a session is told -/

/-- How many bytes an operation on a binding reads. -/
def BindingOp.wanted? : BindingOp → Option Nat
  | .read wanted | .readAll wanted | .tryRead wanted | .readTagged wanted => some wanted
  | _ => none

namespace Session

variable {s : Session} {id : BindingId} {b : Binding} {n : Nat} {op : Op}

/-- The open binding that an operation reads from, and the number of bytes that it asks for; the end of a call apart. -/
inductive Reads (s : Session) (id : BindingId) (n : Nat) : Op → Prop
  | onBinding {name : String} {op : BindingOp} : s.names.get? name = some id → op.wanted? = some n →
      Reads s id n (.onBinding name op)
  | start {name : String} (read : String) : s.names.get? name = some id → Reads s id n (.start name read n)
  | startAll {name : String} (read : String) : s.names.get? name = some id → Reads s id n (.startAll name read n)
  | onTransport {transport : String} {t : Transport} {op : TransportOp} {bop : BindingOp} :
      s.transports.get? transport = some t → t.slot = some id → op.passes? = some bop → bop.wanted? = some n →
      Reads s id n (.onTransport transport op)

/-- What a session comes to under a limit of no bytes. -/
structure Barren (s : Session) : Prop where
  writes : ∀ id b, s.bus.bindings.get? id = some b → b.isOpen = true → ∀ data, data ≠ [] →
    s.bus.write id data = (s.bus, .error (.buffer ⟨data.length, 0⟩))
  /-- The first capacity that is not nothing is refused. -/
  opens : s.bus.isShutDown = false → ∀ o, (o.readCapacity ≠ 0 ∨ o.writeCapacity ≠ 0) →
    let fault : Fault := .buffer ⟨if o.readCapacity = 0 then o.writeCapacity else o.readCapacity, 0⟩
    s.bus.openBinding o = (s.bus, .error fault) ∧
      ∀ name, s.step (.openBinding name o) = (s, .failed fault) ∧ s.step (.connect name o) = (s, .failed fault)
  empty : ∀ id b side, s.bus.bindings.get? id = some b → b.readSide = some side → side.pending = [] ∧ side.queue = []
  suspended : ∀ name, s.reads.get? name = none
  reads : ∀ id b, s.bus.bindings.get? id = some b → b.isOpen = true → ∀ n, n ≠ 0 →
    s.bus.read id n = (s.bus, .error (.failed (.buffer ⟨1, 0⟩))) ∧
    s.bus.tryRead id n = (s.bus, .error (.buffer ⟨1, 0⟩)) ∧
    s.bus.readAll id n = (s.bus, .error (.failed (.buffer ⟨1, 0⟩))) ∧
    ∀ name, b.startUpTo (some 0) name n = ⟨b, [], .ready (.error (.buffer ⟨1, 0⟩))⟩ ∧
      b.startExact (some 0) name n = ⟨b, [], .ready (.error (.buffer ⟨1, 0⟩))⟩
  told : ∀ id b, s.bus.bindings.get? id = some b → b.isOpen = true → ∀ n, n ≠ 0 → ∀ op, s.Reads id n op →
    (s.step op).1 = s ∧ (s.step op).2.fault? = some (.buffer ⟨1, 0⟩)
  /-- A call lets go of its binding, and has no other effect. -/
  called : ∀ id b earlier, s.calls = id :: earlier → s.bus.bindings.get? id = some b → b.isOpen = true →
    ∀ n, n ≠ 0 → ∀ op : BindingOp, op.wanted? = some n →
      (s.step (.endCall op)).1 = { s with calls := earlier }.settle id ∧
        (s.step (.endCall op)).2.fault? = some (.buffer ⟨1, 0⟩)

section

variable (h : s.desk.Good) (hl : s.bus.config.chunkLimit = some 0) (hs : s.desk.Starved)
  (hb : s.bus.bindings.get? id = some b) (ho : b.isOpen = true) (hn : n ≠ 0)
include h hl hs hb ho hn

/-- **Every read of the bus** is refused, and nothing is touched. -/
theorem refused_on_bus : s.bus.read id n = (s.bus, .error (.failed (.buffer ⟨1, 0⟩))) ∧
    s.bus.tryRead id n = (s.bus, .error (.buffer ⟨1, 0⟩)) ∧
    s.bus.readAll id n = (s.bus, .error (.failed (.buffer ⟨1, 0⟩))) := by
  have hsound : b.Sound (some 0) s.bus.isShutDown := Desk.sound_of_noRoom h hl hb
  have hbare := hs id b hb
  simp only [Bus.read, Bus.tryRead, Bus.readAll, Bus.onBinding, hb, hl, Binding.read_of_bare hsound hbare ho hn,
    Binding.tryRead_of_bare hsound hbare ho hn, Binding.readAll_of_bare hsound hbare ho hn, Bus.put_self hb,
    ExactRead.Outcome.result, ExactRead.Outcome.toExcept, and_self]

theorem refused_stepBinding {op : BindingOp} (hop : op.wanted? = some n) : ∃ answer,
    s.stepBinding id op = (s, answer) ∧ answer.fault? = some (.buffer ⟨1, 0⟩) := by
  obtain ⟨hread, htry, hall⟩ := refused_on_bus h hl hs hb ho hn
  cases op with
  | read wanted | readAll wanted | tryRead wanted | readTagged wanted =>
    obtain rfl := Option.some.inj hop
    simp only [stepBinding, read, readAll, hread, htry, hall]
    exact ⟨_, rfl, rfl⟩
  | _ => cases hop

theorem refused_endCall {earlier : List BindingId} {op : BindingOp} (hop : op.wanted? = some n) :
    (s.endCall id earlier op).1 = { s with calls := earlier }.settle id ∧
      (s.endCall id earlier op).2.fault? = some (.buffer ⟨1, 0⟩) := by
  obtain ⟨answer, hstep, hfault⟩ := refused_stepBinding h hl hs hb ho hn hop
  simp only [endCall, hstep, true_and]
  exact hfault

omit hl ho hn in
/-- A read that is begun finishes at once, and its name stays free. -/
theorem refused_starting {holder read : String} (hholder : s.names.get? holder = some id) {poll : Binding → Polled}
    (hpoll : poll b = ⟨b, [], .ready (.error (.buffer ⟨1, 0⟩))⟩) :
    s.named s.names holder (fun id => (s.cancel read).advance read id poll) =
      (s, .ready (.error (.buffer ⟨1, 0⟩))) := by
  have hfree : s.reads.get? read = none := hs.reads h read
  have hcancel : s.cancel read = s := by simp only [cancel, hfree]
  have hheld : s.isHeld id = true := isHeld_iff.2 (.name hholder)
  simp only [named, hholder, hcancel, advance, hb, hpoll, keep, Bus.put_self hb, Table.erase_of_none hfree, settle,
    hheld, if_true, Answer.ofProgress]

theorem refused_stepTransport {transport : String} {t : Transport} {op : TransportOp} {bop : BindingOp}
    (hslot : t.slot = some id) (hpass : op.passes? = some bop) (hop : bop.wanted? = some n) :
    (s.stepTransport transport t op).1 = s ∧
      (s.stepTransport transport t op).2.fault? = some (.buffer ⟨1, 0⟩) := by
  have hopen : s.bus.isOpen id = true := (Bus.isOpen_of_get? hb).trans ho
  have hlive : s.live? t = some id := by simp only [live?, hslot, Option.filter_some, hopen, if_true]
  obtain ⟨hread, -, hall⟩ := refused_on_bus h hl hs hb ho hn
  cases op with
  | read wanted | readAll wanted =>
    obtain rfl := Option.some.inj hpass
    obtain rfl := Option.some.inj hop
    simp only [stepTransport, onLive, hlive, stepBinding, read, readAll, hread, hall]
    exact ⟨rfl, rfl⟩
  | ioRead wanted | ioReadExact wanted =>
    obtain rfl := Option.some.inj hpass
    obtain rfl := Option.some.inj hop
    simp only [stepTransport, onLive, hlive, read, readAll, if_neg hn, hread, hall]
    exact ⟨rfl, rfl⟩
  | write data | ioWrite data =>
    obtain rfl := Option.some.inj hpass
    cases hop
  | _ => cases hpass

/-- **Every operation that reads** from the binding is refused, and nothing is touched. -/
theorem refused_step (hop : s.Reads id n op) :
    (s.step op).1 = s ∧ (s.step op).2.fault? = some (.buffer ⟨1, 0⟩) := by
  have hsound : b.Sound (some 0) s.bus.isShutDown := Desk.sound_of_noRoom h hl hb
  have hbare := hs id b hb
  cases hop with
  | onBinding hname hop =>
    obtain ⟨answer, hstep, hfault⟩ := refused_stepBinding h hl hs hb ho hn hop
    simp only [step, named, hname, hstep, true_and]
    exact hfault
  | start read hname =>
    have hpoll := Binding.startUpTo_of_bare hsound hbare ho hn read
    rw [← hl] at hpoll
    rw [step, refused_starting h hs hb hname hpoll]
    exact ⟨rfl, rfl⟩
  | startAll read hname =>
    have hpoll := Binding.startExact_of_bare hsound hbare ho hn read
    rw [← hl] at hpoll
    rw [step, refused_starting h hs hb hname hpoll]
    exact ⟨rfl, rfl⟩
  | onTransport ht hslot hpass hop =>
    simp only [step, named, ht]
    exact refused_stepTransport h hl hs hb ho hn hslot hpass hop

end

/-- **Where nothing may be held** nothing is, and whatever needs room is refused. -/
theorem barren_of_starved (h : s.desk.Good) (hl : s.bus.config.chunkLimit = some 0) (hs : s.desk.Starved) :
    s.Barren where
  writes id b hb ho data hne := Bus.write_of_noRoom (Desk.sound_of_noRoom h hl hb) hb ho hne
  opens hd o ho := by
    have hopen := Bus.openBinding_of_noRoom hl hd ho
    refine ⟨hopen, fun name => ⟨?_, ?_⟩⟩
    · simp only [step, hopen]
    · simp only [step, connect, hopen, Answer.ofExcept]
  empty id b side hb := (hs id b hb).empty side
  suspended name := hs.reads h name
  reads id b hb ho n hn := by
    obtain ⟨hread, htry, hall⟩ := refused_on_bus h hl hs hb ho hn
    have hsound : b.Sound (some 0) s.bus.isShutDown := Desk.sound_of_noRoom h hl hb
    exact ⟨hread, htry, hall, fun name => ⟨Binding.startUpTo_of_bare hsound (hs id b hb) ho hn name,
      Binding.startExact_of_bare hsound (hs id b hb) ho hn name⟩⟩
  told id b hb ho n hn op hop := refused_step h hl hs hb ho hn hop
  called id b earlier hcalls hb ho n hn op hop := by
    simp only [step, hcalls]
    exact refused_endCall h hl hs hb ho hn hop

/-- What the reads of a session come to under a limit that allows a byte. -/
structure Fits (s : Session) (limit : Option Nat) : Prop where
  /-- No read fails for want of room. -/
  fails : ∀ op fault, op.isRead = true → (s.step op).2.fault? = some fault → fault = .closed
  /-- Whatever a binding comes to in the course of a read, the buffer takes all that is gathered. -/
  gathers : ∀ id b parts b' n side, s.bus.bindings.get? id = some b → b.Moves limit parts b' →
    b'.GathersAt (clampRead limit n) side → ∃ after taken, side.gather (clampRead limit n) = (after, .ok taken) ∧
      after.buffer.data ++ after.stream = side.buffer.data ++ side.stream

theorem fits_of_good (h : s.desk.Good) (hl : s.bus.config.chunkLimit ≠ some 0) : s.Fits s.bus.config.chunkLimit where
  fails _ fault hop hf := failsClosed_step h hl hop fault hf
  gathers id b _ _ _ _ hb hm hat := Binding.exists_gather_of_gathersAt (hm.sound (h.sound id b hb)) hl hat

/-- **Reads fit under the limit.**  After every run on a bus whose limit, if it has one, allows a byte, a read of any
size and any form fails only because the binding is closed; and wherever a read gathers, also one that has moved the
binding on already, the buffer takes all that was split off for it, so that none of it is lost.  On a bus that is limited
to no bytes a write of some bytes by an open binding is refused, and so is an opening before the shutdown that asks for
room; no binding ever has bytes to read, no read is ever suspended, and every read of at least one byte of an open
binding is refused one byte, before and after the shutdown, and leaves the session as it was. -/
theorem reads_fit (config : Config) (ops : List Op) :
    let s := (new config).run ops
    (config.chunkLimit ≠ some 0 → s.Fits config.chunkLimit) ∧ (config.chunkLimit = some 0 → s.Barren) := by
  intro s
  have hgood : s.desk.Good := good_run config ops
  have hconfig : s.bus.config = config := config_run config ops
  refine ⟨fun hl => ?_, fun hl => ?_⟩
  · rw [← hconfig] at hl ⊢
    exact fits_of_good hgood hl
  · have hstarved : s.desk.Starved := by
      rw [show s.desk = _ from desk_run (new config) ops]
      exact Desk.starved_after (Desk.good_new config) hl (fun _ _ hb => (nomatch hb)) _
    exact barren_of_starved hgood (hconfig ▸ hl) hstarved

/-- Two chunks wait that are as large as the limit allows, and there is room to gather for a read of five bytes; where
nothing may be held a read of three bytes cannot be begun. -/
theorem reads_fit_tightly :
    let peer (user : User) : Options := ⟨user, ⟨4⟩, ⟨1⟩, 0, 0, .multicast⟩
    let ops : List Op := [.create .kind, .create (.user ⟨1⟩), .create (.user ⟨1⟩), .create .topic,
      .openBinding "a" (peer ⟨2⟩), .openBinding "b" (peer ⟨3⟩), .onBinding "a" (.write [7]), .onBinding "a" (.write [8])]
    let tight := (new { chunkLimit := some 1 }).run ops
    let barren := (new { chunkLimit := some 0 }).run ops
    (∃ b side after taken, tight.bus.bindings.get? ⟨6⟩ = some b ∧ b.stream = [7, 8] ∧
      b.GathersAt (clampRead (some 1) 5) side ∧ side.gather (clampRead (some 1) 5) = (after, .ok taken)) ∧
    ∃ b, barren.bus.bindings.get? ⟨6⟩ = some b ∧ b.isOpen = true ∧
      (barren.step (.startAll "b" "read" 3)).1 = barren ∧
      (barren.step (.startAll "b" "read" 3)).2.fault? = some (.buffer ⟨1, 0⟩) := by
  intro peer ops tight barren
  constructor
  · have hb : tight.bus.bindings.get? ⟨6⟩ = some (.mk ⟨⟨6⟩, ⟨3⟩, ⟨1⟩, ⟨4⟩, ⟨1⟩, .multicast⟩ true
        (some ⟨⟨[], 0, some 1⟩, [], [[7], [8]], true⟩) (some ⟨[], 0, some 1⟩) 0 0 {} []) := by decide +kernel
    have hat : Binding.GathersAt (.mk ⟨⟨6⟩, ⟨3⟩, ⟨1⟩, ⟨4⟩, ⟨1⟩, .multicast⟩ true
        (some ⟨⟨[], 0, some 1⟩, [], [[7], [8]], true⟩) (some ⟨[], 0, some 1⟩) 0 0 {} []) (clampRead (some 1) 5)
        ⟨⟨[], 8, some 1⟩, [7], [[8]], true⟩ := .arrived rfl rfl rfl
    obtain ⟨after, taken, hg, -⟩ := ((reads_fit { chunkLimit := some 1 } ops).1 nofun).gathers ⟨6⟩ _ [] _ 5 _ hb
      (.refl _) hat
    exact ⟨_, _, after, taken, hb, rfl, hat, hg⟩
  · obtain ⟨b, hb, ho⟩ := Bus.isOpen_iff.1 (show barren.bus.isOpen ⟨6⟩ = true by decide +kernel)
    have hname : barren.names.get? "b" = some ⟨6⟩ := by decide +kernel
    obtain ⟨hsame, hfault⟩ := ((reads_fit { chunkLimit := some 0 } ops).2 rfl).told ⟨6⟩ b hb ho 3 nofun _
      (.startAll "read" hname)
    exact ⟨b, hb, ho, hsame, hfault⟩

end Session
end TopicBus
