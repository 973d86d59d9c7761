import TopicBus.Proofs.Overtaking
import TopicBus.Proofs.Shutdown
import Mathlib.Data.List.Induction
/-!
# When a poll gets on

A suspended read waits for two things in turn, the read side and then something in it.  What a poll comes to is decided
by where these stand when it is made, whatever happened before: it gets on exactly if the read is the first in the line
and there are bytes for it, or nothing more to wait for (`Binding.Due`).  Otherwise it leaves everything as it was, but
that a read which has come to the head of the line makes room in the buffer once (`Session.read_readiness`).

One more way for a read to end, a buffer that may not have the room for a single byte, is not open to a suspended read:
with such a limit no read is ever suspended (`Session.limit_of_suspended`).
-/
namespace TopicBus

namespace Binding

variable {limit : Option Nat} {down : Bool} {b : Binding} {name : ReadName} {wanted : Nat} {read : SuspendedRead}

/-- There is something for the read that holds the read side: bytes, or the news that none will come any more. -/
def Due (b : Binding) : Prop :=
  b.isOpen = false ∨ b.readSide = none ∨
    ∃ s, b.readSide = some s ∧ (s.pending ≠ [] ∨ s.queue ≠ [] ∨ s.connected = false)

/-- **A read that finds something** does not wait. -/
theorem Fetched.not_waits (hs : b.Sound limit down) (hdue : b.Due) {out : Binding × Except Halt Bytes}
    (h : Fetched limit wanted b out) (phase : Phase) : out.2 ≠ .error (.waits phase) := by
  cases h with
  | closed | released | refused | served | drained => nofun
  | @waits s ho hr he hc hl =>
    obtain ⟨hpending, hqueue⟩ := (hs.idle s hr).stream_eq_nil_iff.1 he
    rcases hdue with hclosed | hnone | ⟨s', hr', hpending' | hqueue' | hlost⟩
    · exact absurd (ho.symm.trans hclosed) Bool.noConfusion
    · exact absurd (hr.symm.trans hnone) (Option.some_ne_none s)
    all_goals obtain rfl := Option.some.inj (hr.symm.trans hr')
    · exact absurd hpending hpending'
    · exact absurd hqueue hqueue'
    · exact absurd (hc.symm.trans hlost) Bool.noConfusion

/-- **A read that finds nothing** sizes the buffer and waits at the inbox. -/
theorem Fetched.of_not_due (hdue : ¬b.Due) (hl : Within limit wanted) {out : Binding × Except Halt Bytes}
    (h : Fetched limit wanted b out) :
    ∃ s, b.readSide = some s ∧ out = (b.sized s wanted, .error (.waits .atInbox)) := by
  cases h with
  | closed ho => exact absurd (.inl ho) hdue
  | released _ hn => exact absurd (.inr (.inl hn)) hdue
  | refused _ hn => exact absurd hl hn
  | @served s taken _ hr hne _ =>
    refine absurd (.inr (.inr ⟨s, hr, ?_⟩)) hdue
    by_contra hnone
    simp only [ne_eq, not_or, not_not] at hnone
    exact hne (by rw [ReadSide.stream, hnone.1, hnone.2.1]; rfl)
  | @waits s _ hr _ _ _ => exact ⟨s, hr, rfl⟩
  | @drained s _ hr _ hc => exact absurd (.inr (.inr ⟨s, hr, .inr (.inr hc)⟩)) hdue

section

variable (hs : b.Sound limit down) (hw : 0 < read.wanted) (hhead : b.line.head? = some name)
  (hready : read.phase = .atInbox → b.Ready limit (clampRead limit read.wanted))

include hs hw hhead hready

/-- **A poll of a read that holds the read side and finds something** finishes a read of up to some bytes, and an exact
read at least gets bytes. -/
theorem poll_of_due (hdue : b.Due) :
    (read.goal = .upTo → ∃ result, (b.poll limit name read).progress = .ready result) ∧
      ((∃ result, (b.poll limit name read).progress = .ready result) ∨ (b.poll limit name read).parts.flatten ≠ []) := by
  obtain ⟨⟨b', answer⟩, hf, hresume⟩ := resumeRead_of_head hs hw hhead hready
  have hnot := hf.not_waits hs hdue
  rw [leaveUnlessWaiting_eq name b' hnot] at hresume
  rcases answer with (fault | phase) | data
  · have hprog : (b.poll limit name read).progress = .ready (.error fault) := by
      cases hgoal : read.goal <;> simp only [poll, hgoal, hresume, settleUpTo, ExactRead.resume, settleExact]
    exact ⟨fun _ => ⟨_, hprog⟩, .inl ⟨_, hprog⟩⟩
  · exact absurd rfl (hnot phase)
  · obtain ⟨x, xs, rfl⟩ := List.exists_cons_of_ne_nil (hf.of_ok (clampRead_pos limit hw)).1
    cases hgoal : read.goal with
    | upTo =>
      have hprog : (b.poll limit name read).progress = .ready (.ok (x :: xs)) := by
        simp only [poll, hgoal, hresume, settleUpTo]
      exact ⟨fun _ => ⟨_, hprog⟩, .inl ⟨_, hprog⟩⟩
    | exactly gathered =>
      refine ⟨fun hupTo => Goal.noConfusion hupTo, .inr ?_⟩
      simp only [poll, hgoal, hresume, ExactRead.resume, settleExact, ExactRead.Outcome.cons, List.flatten_cons]
      exact List.append_ne_nil_of_left_ne_nil (List.cons_ne_nil x xs) _

/-- **A poll of a read that holds the read side and finds nothing** makes room in the buffer. -/
theorem poll_of_not_due (hdue : ¬b.Due) (hl : limit ≠ some 0) :
    ∃ s, b.readSide = some s ∧ b.poll limit name read =
      ⟨b.sized s (clampRead limit read.wanted), [], .pending { read with phase := .atInbox }⟩ := by
  obtain ⟨out, hf, hresume⟩ := resumeRead_of_head hs hw hhead hready
  obtain ⟨s, hr, rfl⟩ := hf.of_not_due hdue (within_clampRead hl read.wanted)
  refine ⟨s, hr, ?_⟩
  obtain ⟨goal, wanted, phase⟩ := read
  cases goal with
  | upTo => simp only [poll, hresume, leaveUnlessWaiting, settleUpTo]
  | exactly gathered =>
    simp only [poll, hresume, leaveUnlessWaiting, ExactRead.resume, settleExact, ExactRead.Outcome.bytes,
      List.flatten_nil, List.append_nil, List.length_nil, Nat.sub_zero]

end

end Binding

/-! ## With a limit of nothing -/

namespace Desk

variable {d : Desk} {name : ReadName}

/-- A read that an act leaves suspended was suspended before, or the act polled it. -/
theorem of_get?_reads_apply {act : Act} {r : Reader} (hr : (d.apply act).reads.get? name = some r) :
    d.reads.get? name = some r ∨ ∃ id p read, d.polled? act = some (name, id, p) ∧ p.progress = .pending read := by
  by_cases hact : act.read? = some name
  · have hadvance : (d.advance (d.polled? act)).reads.get? name = some r → d.reads.get? name = some r ∨
        ∃ id p read, d.polled? act = some (name, id, p) ∧ p.progress = .pending read := fun hr => by
      rcases hp : d.polled? act with _ | ⟨name', id, p⟩
      · rw [hp] at hr
        exact .inl hr
      · obtain rfl := Option.some.inj (hact.symm.trans (polled?_name hp))
        rw [hp] at hr
        cases hprog : p.progress with
        | ready result => simp [advance, keep, hprog, Table.get?_erase] at hr
        | pending read => exact .inr ⟨id, p, read, rfl, hprog⟩
    cases act with
    | start _ _ _ | startAll _ _ _ | poll _ => exact hadvance hr
    | cancel n =>
      obtain rfl := Option.some.inj hact
      simp only [apply, cancel] at hr
      split at hr
      · exact .inl hr
      · simp [Table.get?_erase] at hr
    | _ => cases hact
  · exact .inl (get?_reads_apply hact ▸ hr)

/-- A read that is left at an inbox has room for a byte at least. -/
theorem Good.limit_of_pending (h : d.Good) {act : Act} {id : BindingId} {p : Polled} {read : SuspendedRead}
    (hp : d.polled? act = some (name, id, p)) (hr : p.progress = .pending read) (hphase : read.phase = .atInbox) :
    d.bus.config.chunkLimit ≠ some 0 := fun hl => by
  obtain ⟨s, hs⟩ := (h.stands hp hr).side hphase
  obtain ⟨b, -, -, hpoll⟩ := h.polled hp
  obtain ⟨hw, -, hready⟩ := hpoll.pending read hr
  obtain ⟨-, hwithin, -⟩ := (hready hphase).2 s hs
  exact absurd (hwithin 0 hl) (Nat.not_le.2 (clampRead_pos _ hw))

/-- **One act**: the read that it leaves suspended found somebody in the line, who is suspended as well, or came to the
inbox. -/
theorem limit_of_suspended_apply (h : d.Good) (hall : ∀ n r, d.reads.get? n = some r → d.bus.config.chunkLimit ≠ some 0)
    {act : Act} {r : Reader} (hr : (d.apply act).reads.get? name = some r) : d.bus.config.chunkLimit ≠ some 0 := by
  rcases of_get?_reads_apply hr with hr | ⟨id, p, read, hp, hprog⟩
  · exact hall name r hr
  · obtain ⟨b, hb, -, hpoll⟩ := h.polled hp
    cases hline : b.line with
    | cons x xs =>
      obtain ⟨r', hr', -⟩ := (h.line id b hb x).1 (hline ▸ List.mem_cons_self)
      exact hall x r' hr'
    | nil =>
      have hnew : p.binding.line = [name] := by
        obtain ⟨-, hjoined | hmoved, -⟩ := hpoll.pending read hprog
        · rw [hjoined, hline]
          rfl
        · rw [hmoved, hline]
          rfl
      exact h.limit_of_pending hp hprog ((h.stands hp hprog).head.2 (by rw [hnew, List.head?_cons]))

theorem limit_of_suspended_after (h : d.Good) (hnone : ∀ n, d.reads.get? n = none) (acts : List Act) :
    ∀ n r, (d.after acts).reads.get? n = some r → (d.after acts).bus.config.chunkLimit ≠ some 0 := by
  induction acts using List.reverseRecOn with
  | nil => exact fun n r hr => absurd (hr.symm.trans (hnone n)) (Option.some_ne_none r)
  | append_singleton acts act ih =>
    intro n r hr
    rw [after_append] at hr ⊢
    rw [after_cons, after_nil] at hr ⊢
    rw [(frame_apply _ act).1]
    exact limit_of_suspended_apply (good_after h acts) ih hr

end Desk

namespace Session

variable {s : Session} {id : BindingId} {b : Binding} {name : ReadName} {r : Reader}

/-- **Where a read is suspended the limit allows a byte.** -/
theorem limit_of_suspended {config : Config} {ops : List Op} (hr : ((new config).run ops).reads.get? name = some r) :
    ((new config).run ops).bus.config.chunkLimit ≠ some 0 := by
  have hdesk := desk_run (new config) ops
  have hafter := Desk.limit_of_suspended_after (Desk.good_new config) (fun _ => rfl) ((new config).trail ops) name r
  rw [show Desk.new config = (new config).desk from rfl, ← hdesk] at hafter
  exact hafter hr

/-! ## What a poll takes -/

theorem takenFrom_poll (hr : s.reads.get? name = some r) (hb : s.bus.bindings.get? r.binding = some b) :
    takenFrom r.binding (s.desk.history (s.acts (.poll name))) =
      (b.poll s.bus.config.chunkLimit name r.read).parts.flatten := by
  simp only [acts, hr]
  refine takenFrom_advancing hb ?_
  rw [Desk.events, polled?_poll hr hb]
  rfl

/-- Polling the read `name` finishes it, or takes bytes out of the stream of `id`. -/
def GetsOn (s : Session) (id : BindingId) (name : ReadName) : Prop :=
  (∃ result, (s.step (.poll name)).2 = .ready result) ∨
    takenFrom id (s.desk.history (s.acts (.poll name))) ≠ []

/-- What a poll that gets nowhere leaves behind. -/
theorem step_poll_of_pending (hr : s.reads.get? name = some r) (hb : s.bus.bindings.get? r.binding = some b)
    {b' : Binding} {read : SuspendedRead} (hp : b.poll s.bus.config.chunkLimit name r.read = ⟨b', [], .pending read⟩) :
    s.step (.poll name) =
      ({ s with bus := s.bus.put r.binding b', reads := s.reads.insert name ⟨r.binding, read⟩ }, .pending) ∧
    ¬s.GetsOn r.binding name := by
  have hstep : s.step (.poll name) =
      ({ s with bus := s.bus.put r.binding b', reads := s.reads.insert name ⟨r.binding, read⟩ }, .pending) := by
    rw [step_poll hr hb, hp]
    rfl
  refine ⟨hstep, ?_⟩
  rintro (⟨result, hready⟩ | htook)
  · rw [hstep] at hready
    cases hready
  · rw [takenFrom_poll hr hb, hp] at htook
    exact htook rfl

/-- A poll that leaves the binding and the read as they are leaves everything as it is. -/
theorem keep_same (hr : s.reads.get? name = some r) (hb : s.bus.bindings.get? r.binding = some b) :
    { s with bus := s.bus.put r.binding b, reads := s.reads.insert name ⟨r.binding, r.read⟩ } = s := by
  have hbus : s.bus.put r.binding b = s.bus := by rw [Bus.put, Table.insert_self hb]
  have hreads : s.reads.insert name ⟨r.binding, r.read⟩ = s.reads := Table.insert_self hr
  rw [hbus, hreads]

/-- A read that has held the read side ever since it was polled without finishing waits at the inbox. -/
theorem waits_since {config : Config} {before after : List Op} {op : Op}
    (hlooks : ((new config).run before).LooksInVain op name)
    (hheld : ∀ mid, mid <+: after → ((new config).run (before ++ op :: mid)).HasReadSide id name) :
    ((new config).run (before ++ op :: after)).desk.Waits id name := by
  have hrun : ∀ mid, (new config).run (before ++ op :: mid) = (((new config).run before).step op).1.run mid :=
    fun mid => List.foldl_append
  have hgood := good_run config before
  have hlater : ∀ mid, mid <+: after → ((((new config).run before).step op).1.run mid).HasReadSide id name :=
    fun mid hm => hrun mid ▸ hheld mid hm
  rw [hrun]
  exact waits_run (good_step hgood op) (waits_step hgood (.inr hlooks) (hlater [] List.nil_prefix)) hlater

/-! ## What a poll comes to -/

/-- The session when the read `name` has come to the inbox of its binding `b` and its buffer has the given room; the rest
is as it was. -/
def atInbox (s : Session) (name : ReadName) (r : Reader) (b : Binding) (side : ReadSide) (room : Nat) : Session :=
  { s with
    bus := s.bus.put r.binding { b with
      readSide := some { side with buffer := { side.buffer with capacity := room } }
      readCapacity := room }
    reads := s.reads.insert name ⟨r.binding, { r.read with phase := .atInbox }⟩ }

/-- **A poll that finds something** for the read that holds the read side. -/
theorem getsOn_of_due (h : s.desk.Good) (hr : s.reads.get? name = some r)
    (hb : s.bus.bindings.get? r.binding = some b) (hhead : b.line.head? = some name) (hdue : b.Due) :
    (r.read.goal = .upTo → ∃ result, (s.step (.poll name)).2 = .ready result) ∧ s.GetsOn r.binding name := by
  obtain ⟨hw, b', hb', hready⟩ := h.reads name r hr
  obtain rfl := Option.some.inj (hb.symm.trans hb')
  obtain ⟨hupTo, hgets⟩ := Binding.poll_of_due (h.sound _ b hb) hw hhead (fun hp => (hready hp).2) hdue
  have hanswer : (∃ result, (b.poll s.bus.config.chunkLimit name r.read).progress = .ready result) →
      ∃ result, (s.step (.poll name)).2 = .ready result := fun ⟨result, hprog⟩ =>
    ⟨result, by rw [step_poll hr hb, hprog]; rfl⟩
  refine ⟨fun hgoal => hanswer (hupTo hgoal), hgets.imp hanswer (fun hparts => ?_)⟩
  rw [takenFrom_poll hr hb]
  exact hparts

/-- **A poll that finds another read in front**, or nothing for the read that holds the read side. -/
theorem step_poll_of_not_due (h : s.desk.Good) (hr : s.reads.get? name = some r)
    (hb : s.bus.bindings.get? r.binding = some b) (hl : s.bus.config.chunkLimit ≠ some 0)
    (hnot : ¬(b.line.head? = some name ∧ b.Due)) :
    ¬s.GetsOn r.binding name ∧ (s.step (.poll name)).2 = .pending ∧
    (b.line.head? ≠ some name ∨ r.read.phase = .atInbox → (s.step (.poll name)).1 = s) ∧
    (b.line.head? = some name → ∃ side, b.readSide = some side ∧ (s.step (.poll name)).1 =
      s.atInbox name r b side (grown side.buffer.capacity (clampRead s.bus.config.chunkLimit r.read.wanted))) := by
  obtain ⟨hw, b', hb', hready⟩ := h.reads name r hr
  obtain rfl := Option.some.inj (hb.symm.trans hb')
  by_cases hhead : b.line.head? = some name
  · have hsound := h.sound _ b hb
    obtain ⟨side, hside, hpoll⟩ := Binding.poll_of_not_due hsound hw hhead (fun hp => (hready hp).2)
      (fun hdue => hnot ⟨hhead, hdue⟩) hl
    obtain ⟨hstep, hstays⟩ := step_poll_of_pending hr hb hpoll
    refine ⟨hstays, congrArg Prod.snd hstep, fun hphase => ?_, fun _ => ⟨side, hside, ?_⟩⟩
    · -- the buffer was sized when the read came to the inbox
      have hinbox := hphase.resolve_left (fun hne => hne hhead)
      obtain ⟨-, -, hroom⟩ := (hready hinbox).2 side hside
      rw [hstep, Binding.sized_of_ready hsound hside hroom,
        show { r.read with phase := .atInbox } = r.read by rw [← hinbox]]
      exact keep_same hr hb
    · rw [hstep]
      have hempty : side.buffer.data = [] := (hsound.idle side hside).data
      simp only [Binding.sized, ReadSide.sized, atInbox, hempty]
      rfl
  · have hpoll := h.poll_behind hr hb hhead
    obtain ⟨hstep, hstays⟩ := step_poll_of_pending hr hb hpoll
    exact ⟨hstays, congrArg Prod.snd hstep, fun _ => (congrArg Prod.fst hstep).trans (keep_same hr hb),
      fun hh => absurd hh hhead⟩

/-- **Exact readiness.**  After every run a poll of a suspended read of up to some bytes finishes it exactly if the read
holds the read side of its binding and something is due there: the binding is closed, its read side was given up, bytes
are pending or queued, or the inbox is disconnected.  The same decides whether a poll of an exact read gets on, that is
finishes it or takes at least one byte.  A poll that does not get on is answered `pending`.  It changes nothing if the
read does not hold the read side, and nothing if it has held it ever since an earlier poll; if it came to it since, the
buffer gets the room that the read may ask for, and the read goes on at the inbox. -/
theorem read_readiness (config : Config) (ops : List Op) {name : ReadName} {r : Reader}
    (hr : ((new config).run ops).reads.get? name = some r) :
    let s := (new config).run ops
    let id := r.binding
    let out := s.step (.poll name)
    ∃ b, s.bus.bindings.get? id = some b ∧
      (r.read.goal = .upTo → ((∃ result, out.2 = .ready result) ↔ s.HasReadSide id name ∧ b.Due)) ∧
      (s.GetsOn id name ↔ s.HasReadSide id name ∧ b.Due) ∧
      (¬(s.HasReadSide id name ∧ b.Due) → out.2 = .pending ∧
        (¬s.HasReadSide id name → out.1 = s) ∧
        (∀ before op after, ops = before ++ op :: after → ((new config).run before).LooksInVain op name →
          (∀ mid, mid <+: after → ((new config).run (before ++ op :: mid)).HasReadSide id name) → out.1 = s) ∧
        (s.HasReadSide id name → ∃ side, b.readSide = some side ∧ out.1 =
          s.atInbox name r b side (grown side.buffer.capacity (clampRead config.chunkLimit r.read.wanted)))) := by
  intro s id out
  have hgood : s.desk.Good := good_run config ops
  have hlimit := limit_of_suspended hr
  have hconfig : s.bus.config = config := config_run config ops
  obtain ⟨-, b, hb, -⟩ := hgood.reads name r hr
  have hholds : s.HasReadSide id name ↔ b.line.head? = some name := by
    refine ⟨fun ⟨b', hb', hhead⟩ => ?_, fun hhead => ⟨b, hb, hhead⟩⟩
    obtain rfl := Option.some.inj (hb.symm.trans hb')
    exact hhead
  have hnowhere := fun hnot : ¬(s.HasReadSide id name ∧ b.Due) =>
    step_poll_of_not_due hgood hr hb hlimit (fun ⟨hhead, hdue⟩ => hnot ⟨hholds.2 hhead, hdue⟩)
  refine ⟨b, hb, fun hgoal => ⟨fun hready => ?_, fun ⟨hhead, hdue⟩ => ?_⟩,
    ⟨fun hgets => ?_, fun ⟨hhead, hdue⟩ => ?_⟩, fun hnot => ?_⟩
  · by_contra hnot
    exact (hnowhere hnot).1 (.inl hready)
  · exact (getsOn_of_due hgood hr hb (hholds.1 hhead) hdue).1 hgoal
  · by_contra hnot
    exact (hnowhere hnot).1 hgets
  · exact (getsOn_of_due hgood hr hb (hholds.1 hhead) hdue).2
  · obtain ⟨-, hpending, hsame, hroom⟩ := hnowhere hnot
    refine ⟨hpending, fun hhead => hsame (.inl (fun hh => hhead (hholds.2 hh))), ?_, fun hhead => ?_⟩
    · rintro before op after rfl hlooks hheld
      obtain ⟨r', _, _, hr', -, hphase, -⟩ := waits_since hlooks hheld
      obtain rfl := Option.some.inj (hr.symm.trans hr')
      exact hsame (.inr hphase)
    · rw [← hconfig]
      exact hroom (hholds.1 hhead)

/-- The read in front took the only chunk; the one behind finds nothing, and makes room for what it wants. -/
theorem read_readiness_of_next :
    let ops := twoPeers ++ [.start "b" "first" 3, .start "b" "second" 5000, .onBinding "a" (.write [1, 2, 3]),
      .poll "first"]
    let s := (new {}).run ops
    ∃ b side, s.bus.bindings.get? ⟨6⟩ = some b ∧ b.readSide = some side ∧ side.buffer.capacity = 4096 ∧
      (s.step (.poll "second")).2 = .pending ∧
      (s.step (.poll "second")).1 = s.atInbox "second" ⟨⟨6⟩, ⟨.upTo, 5000, .inLine⟩⟩ b side 8192 := by
  intro ops s
  have hr : s.reads.get? "second" = some ⟨⟨6⟩, ⟨.upTo, 5000, .inLine⟩⟩ := by decide +kernel
  have hstate : (s.bus.bindings.get? ⟨6⟩).map (fun b => (b.isOpen, b.line, b.readSide)) =
      some (true, [.given "second"], some ⟨⟨[], 4096, none⟩, [], [], true⟩) := by decide +kernel
  obtain ⟨b, hb, he⟩ := Option.map_eq_some_iff.1 hstate
  simp only [Prod.mk.injEq] at he
  obtain ⟨ho, hline, hside⟩ := he
  obtain ⟨b', hb', -, -, hnowhere⟩ := read_readiness {} ops hr
  obtain rfl := Option.some.inj (hb.symm.trans hb')
  have hheld : s.HasReadSide ⟨6⟩ "second" := ⟨b, hb, by rw [hline]; rfl⟩
  have hnot : ¬b.Due := by simp [Binding.Due, ho, hside]
  obtain ⟨hpending, -, -, hroom⟩ := hnowhere (fun hh => hnot hh.2)
  obtain ⟨side, hside', hnext⟩ := hroom hheld
  obtain rfl := Option.some.inj (hside.symm.trans hside')
  exact ⟨b, _, hb, hside, rfl, hpending, hnext⟩

end Session
end TopicBus
