import TopicBus.Proofs.Answers
import TopicBus.Proofs.Holders
import TopicBus.Proofs.Line
import Mathlib.Data.List.Nodup
/-!
# The read side has one holder

The line of a binding is at all times the list of the reads that are suspended on it, each of them once: the first holds
the read side and the others wait for it (`Session.Lined`).  No read that has finished or was cancelled stands in it.
A holder that was polled as such waits at the inbox (`Desk.Waits`), and so it stays until it is polled again, whatever
is done to the binding in the meantime (`waits_run`).  When it finishes or is cancelled, the next in the line holds the
read side; a read that is cancelled further back takes only itself out of the line.
-/
namespace TopicBus

namespace Desk

variable {d : Desk} {id : BindingId} {name : ReadName}

/-- The read `name` holds the read side of the binding `id` and waits at the inbox: it has used up what was pending and
gathered nothing. -/
def Waits (d : Desk) (id : BindingId) (name : ReadName) : Prop :=
  ∃ r b s, d.reads.get? name = some r ∧ r.binding = id ∧ r.read.phase = .atInbox ∧
    d.bus.bindings.get? id = some b ∧ b.line.head? = some name ∧
    b.readSide = some s ∧ s.pending = [] ∧ s.buffer.data = []

theorem Waits.read (h : d.Waits id name) : ∃ r, d.reads.get? name = some r := by
  obtain ⟨r, -, -, hread, -⟩ := h
  exact ⟨r, hread⟩

/-- It goes on waiting while acts are about other reads. -/
theorem waits_after (h : d.Good) (hw : d.Waits id name) {acts : List Act} (hr : ∀ act ∈ acts, act.read? ≠ some name) :
    (d.after acts).Waits id name := by
  obtain ⟨r, b, s, hread, hid, hphase, hb, hhead, hs, hpend, hdata⟩ := hw
  obtain ⟨b', hb', hhead', hunread⟩ := holder_after h hb hhead hr
  obtain ⟨s', hs', hbuffer, hpend', -⟩ := hunread s hs
  exact ⟨r, b', s', (get?_reads_after hr).trans hread, hid, hphase, hb', hhead', hs', hpend'.trans hpend,
    (congrArg Buffer.data hbuffer).trans hdata⟩

/-- A poll that does not finish leaves the holder waiting at the inbox. -/
theorem waits_keep (h : d.Good) {act : Act} {id' : BindingId} {p : Polled}
    (hp : d.polled? act = some (name, id', p)) {r : SuspendedRead} (hr : p.progress = .pending r) {b : Binding}
    (hb : (d.keep name id' p).bus.bindings.get? id = some b) (hhead : b.line.head? = some name) :
    (d.keep name id' p).Waits id name := by
  have hgood : (d.keep name id' p).Good := apply_of_polled? hp ▸ good_apply h act
  have hread : (d.keep name id' p).reads.get? name = some ⟨id', r⟩ := by
    simp only [keep, hr, Table.get?_insert_self]
  -- a read stands in the line of its own binding only
  obtain ⟨r', hr', hid⟩ := (hgood.line id b hb name).1 (List.mem_of_mem_head? hhead)
  obtain rfl := Option.some.inj (hread.symm.trans hr')
  obtain rfl : id' = id := hid
  have hself : (d.keep name id' p).bus.bindings.get? id' = some p.binding := Table.get?_insert_self ..
  obtain rfl := Option.some.inj (hself.symm.trans hb)
  obtain ⟨_, _, -, hpoll⟩ := h.polled hp
  have hstands := h.stands hp hr
  have hphase : r.phase = .atInbox := hstands.head.2 hhead
  obtain ⟨s, hs⟩ := hstands.side hphase
  obtain ⟨-, -, hinbox⟩ := hpoll.pending r hr
  obtain ⟨hpend, -⟩ := (hinbox hphase).2 s hs
  exact ⟨⟨id', r⟩, p.binding, s, hread, rfl, hphase, hself, hhead, hs, hpend, (hpoll.advance.sound.idle s hs).data⟩

end Desk

namespace Session

variable {s : Session} {id : BindingId} {b : Binding} {name : ReadName}

/-- The read `name` is suspended on the binding `id`: that of a future, or of a call that waits. -/
def Suspended (s : Session) (id : BindingId) (name : ReadName) : Prop := ∃ r, s.reads.get? name = some r ∧ r.binding = id

theorem suspended_iff : s.Suspended id name ↔ (s.reads.get? name).map (·.binding) = some id :=
  Option.map_eq_some_iff.symm

/-- The read `name` holds the read side of the binding `id`. -/
def HasReadSide (s : Session) (id : BindingId) (name : ReadName) : Prop :=
  ∃ b, s.bus.bindings.get? id = some b ∧ b.line.head? = some name

/-- The line of the binding `id` is the reads that are suspended on it. -/
structure Lined (s : Session) (id : BindingId) (line : List ReadName) : Prop where
  held : line ≠ [] ↔ ∃ name, s.Suspended id name
  holder : ∀ name queue, line = name :: queue → s.Suspended id name ∧ name ∉ queue
  queued : ∀ name queue other, line = name :: queue → s.Suspended id other → other ≠ name → queue.count other = 1
  gone : ∀ name, ¬ s.Suspended id name → name ∉ line

theorem lined_of_good (h : s.desk.Good) (hb : s.bus.bindings.get? id = some b) : s.Lined id b.line := by
  have hmem : ∀ name, name ∈ b.line ↔ s.Suspended id name := h.line id b hb
  have hnd := h.nodup id b hb
  refine ⟨?_, fun name queue hl => ?_, fun name queue other hl hs hne => ?_, fun name hs hm => hs ((hmem name).1 hm)⟩
  · rw [← exists_congr hmem]
    exact ⟨List.exists_mem_of_ne_nil _, fun ⟨_, hm⟩ => List.ne_nil_of_mem hm⟩
  · rw [hl] at hnd
    exact ⟨(hmem name).1 (hl ▸ List.mem_cons_self), (List.nodup_cons.1 hnd).1⟩
  · have hm := (hmem other).2 hs
    rw [hl] at hnd hm
    exact List.count_eq_one_of_mem (List.nodup_cons.1 hnd).2 ((List.mem_cons.1 hm).resolve_left hne)

/-- A read that is no more holds nothing. -/
theorem not_hasReadSide (h : s.desk.Good) (hn : s.reads.get? name = none) : ¬ s.HasReadSide id name := by
  rintro ⟨b, hb, hhead⟩
  obtain ⟨r, hr, -⟩ := (h.line id b hb name).1 (List.mem_of_mem_head? hhead)
  exact nomatch hn.symm.trans hr

/-! ## Calls that wait -/

/-- A read has been begun on the binding under the name for the next call, and is kept as it stands. -/
def Parks (s : Session) (id : BindingId) (s' : Session) : Prop :=
  ∃ begin polled read, s.desk.polled? begin = some (s.nextCall, id, polled) ∧ polled.progress = .pending read ∧
    s'.desk = s.desk.keep s.nextCall id polled

theorem Calls.parks {act begin taken : Act} {answer : Except Fault Bytes → Answer} {out : Session × Answer}
    (h : s.Calls id act begin answer out taken) (hanswer : ∀ result, answer result ≠ .blocked)
    (hblocked : out.2 = .blocked) : s.Parks id out.1 := by
  cases h with
  | once result _ => exact absurd hblocked (hanswer result)
  | @waits polled read hbegin hp =>
    refine ⟨begin, polled, read, hbegin, hp, ?_⟩
    simp only [Desk.keep, hp]
    rfl

theorem Parks.suspended {s' : Session} (h : s.Parks id s') : s'.Suspended id s.nextCall := by
  obtain ⟨begin, polled, read, -, hp, hdesk⟩ := h
  have hreads : s'.reads = (s.desk.keep s.nextCall id polled).reads := congrArg Desk.reads hdesk
  refine ⟨⟨id, read⟩, ?_, rfl⟩
  rw [hreads]
  simp only [Desk.keep, hp, Table.get?_insert_self]

theorem ne_blocked_ofExcept {α : Type} {answer : α → Answer} (r : Except Fault α) (h : ∀ a, answer a ≠ .blocked) :
    Answer.ofExcept answer r ≠ .blocked := by
  cases r with
  | ok a => exact h a
  | error fault => exact Answer.noConfusion

theorem ne_blocked_ofIo {α : Type} {answer : α → Answer} (r : Except Fault α) (h : ∀ a, answer a ≠ .blocked) :
    Answer.ofIo answer r ≠ .blocked := by
  cases r with
  | ok a => exact h a
  | error fault => exact Answer.noConfusion

theorem ne_blocked_about {tell : Binding → Answer} (b : Option Binding) (h : ∀ b, tell b ≠ .blocked) :
    Answer.about tell b ≠ .blocked := by
  cases b with
  | some b => exact h b
  | none => exact Answer.noConfusion

theorem ne_blocked_taggedRead (wanted : Nat) (result : Except Fault Bytes) : taggedRead wanted result ≠ .blocked := by
  cases result <;> exact Answer.noConfusion

theorem parks_read {wanted : Nat} {answer : Except Fault Bytes → Answer} (hanswer : ∀ result, answer result ≠ .blocked)
    (h : (s.read id wanted answer).2 = .blocked) : s.Parks id (s.read id wanted answer).1 :=
  (calls_read s id wanted answer).parks hanswer h

theorem parks_readAll {wanted : Nat} {answer : Except Fault Bytes → Answer}
    (hanswer : ∀ result, answer result ≠ .blocked) (h : (s.readAll id wanted answer).2 = .blocked) :
    s.Parks id (s.readAll id wanted answer).1 :=
  (calls_readAll s id wanted answer).parks hanswer h

theorem parks_stepBinding {op : BindingOp} (h : (s.stepBinding id op).2 = .blocked) :
    s.Parks id (s.stepBinding id op).1 := by
  cases op with
  | read wanted => exact parks_read (fun result => ne_blocked_ofExcept result (fun _ => Answer.noConfusion)) h
  | readTagged wanted => exact parks_read (ne_blocked_taggedRead wanted) h
  | readAll wanted => exact parks_readAll (fun result => ne_blocked_ofExcept result (fun _ => Answer.noConfusion)) h
  | tryRead _ | write _ | flush | close => exact absurd h (ne_blocked_ofExcept _ (fun _ => Answer.noConfusion))
  | writeTagged _ | isOpen => cases h
  | info | traffic | readCapacity | writeCapacity => exact absurd h (ne_blocked_about _ (fun _ => Answer.noConfusion))

theorem parks_onLive {t : Transport} {closed : Answer} {f : BindingId → Session × Answer} (hclosed : closed ≠ .blocked)
    (hf : ∀ id, (f id).2 = .blocked → s.Parks id (f id).1) (h : (s.onLive t closed f).2 = .blocked) :
    ∃ id, s.live? t = some id ∧ s.Parks id (s.onLive t closed f).1 := by
  unfold onLive at h ⊢
  cases hlive : s.live? t with
  | none =>
    rw [hlive] at h
    exact absurd h hclosed
  | some id =>
    simp only [hlive] at h ⊢
    exact ⟨id, rfl, hf id h⟩

theorem parks_stepTransport {transport : String} {t : Transport} {op : TransportOp}
    (h : (s.stepTransport transport t op).2 = .blocked) :
    ∃ id, s.live? t = some id ∧ s.Parks id (s.stepTransport transport t op).1 := by
  cases op with
  | read _ | readAll _ | write _ | flush => exact parks_onLive Answer.noConfusion (fun _ => parks_stepBinding) h
  | ioRead size =>
    simp only [stepTransport] at h ⊢
    by_cases hsize : size = 0
    · rw [if_pos hsize] at h
      cases h
    · rw [if_neg hsize] at h ⊢
      exact parks_onLive Answer.noConfusion
        (fun _ => parks_read (fun result => ne_blocked_ofIo result (fun _ => Answer.noConfusion))) h
  | ioReadExact size =>
    simp only [stepTransport] at h ⊢
    by_cases hsize : size = 0
    · rw [if_pos hsize] at h
      cases h
    · rw [if_neg hsize] at h ⊢
      exact parks_onLive Answer.noConfusion
        (fun _ => parks_readAll (fun result => ne_blocked_ofIo result (fun _ => Answer.noConfusion))) h
  | ioWrite _ | ioFlush =>
    exact parks_onLive Answer.noConfusion (fun _ hf => absurd hf (ne_blocked_ofIo _ (fun _ => Answer.noConfusion))) h
  | openBinding | closeBinding => exact absurd h (ne_blocked_ofExcept _ (fun _ => Answer.noConfusion))
  | isOpen | options => cases h

theorem ne_blocked_named {κ α : Type} [DecidableEq κ] {table : Table κ α} {key : κ} {f : α → Session × Answer}
    (hf : ∀ a, (f a).2 ≠ .blocked) : (s.named table key f).2 ≠ .blocked := by
  unfold named
  split
  · exact Answer.noConfusion
  · exact hf _

theorem ne_blocked_advance (s : Session) (name : ReadName) (id : BindingId) (poll : Binding → Polled) :
    (s.advance name id poll).2 ≠ .blocked := by
  unfold advance
  split
  · exact Answer.noConfusion
  · rename_i b _
    cases (poll b).progress <;> exact Answer.noConfusion

/-- **An operation that is answered `blocked`** leaves its read suspended on the binding that it is asked of. -/
theorem parks_step {op : Op} (h : (s.step op).2 = .blocked) : ∃ id, s.asks? op = some id ∧ s.Parks id (s.step op).1 := by
  cases op with
  | onBinding name op =>
    simp only [step, named, asks?] at h ⊢
    cases hn : s.names.get? name with
    | none =>
      rw [hn] at h
      cases h
    | some id =>
      simp only [hn] at h ⊢
      exact ⟨id, rfl, parks_stepBinding h⟩
  | endCall op =>
    simp only [step, asks?] at h ⊢
    cases hc : s.calls with
    | nil =>
      rw [hc] at h
      cases h
    | cons id earlier =>
      simp only [hc] at h ⊢
      have hparks : s.Parks id (s.stepBinding id op).1 := parks_stepBinding h
      obtain ⟨r, hr, hid⟩ := hparks.suspended
      -- the read that waits holds the binding
      have hheld : { (s.stepBinding id op).1 with calls := earlier }.isHeld id = true := isHeld_iff.2 (.read hr hid)
      rw [endCall, settle, if_pos hheld]
      exact ⟨id, rfl, hparks⟩
  | onTransport transport op =>
    simp only [step, named, asks?] at h ⊢
    cases ht : s.transports.get? transport with
    | none =>
      rw [ht] at h
      cases h
    | some t =>
      simp only [ht] at h ⊢
      exact parks_stepTransport h
  | start _ _ _ | startAll _ _ _ | poll _ => exact absurd h (ne_blocked_named (fun _ => ne_blocked_advance _ _ _ _))
  | create _ | destroy _ | connect _ _ => exact absurd h (ne_blocked_ofExcept _ (fun _ => Answer.noConfusion))
  | createTagged _ | destroyTagged _ | has _ | live | topicStats _ | config | shutdown | isShutDown | newTransport _ _ =>
    cases h
  | kindOf user =>
    simp only [step] at h
    split at h <;> cases h
  | openBinding name options =>
    simp only [step] at h
    split at h
    · cases h
    · exact absurd h (ne_blocked_about _ (fun _ => Answer.noConfusion))
  | share _ _ | drop _ | beginCall _ | cancel _ | dropTransport _ =>
    exact absurd h (ne_blocked_named (fun _ => Answer.noConfusion))
  | shareTransport transport name =>
    refine absurd h (ne_blocked_named (fun t => ?_))
    unfold onLive
    split
    · exact Answer.noConfusion
    · exact ne_blocked_about _ (fun _ => Answer.noConfusion)

/-! ## A holder that was polled waits at the inbox -/

theorem waits_advance (h : s.desk.Good) {id' : BindingId} {act : Act} {poll : Binding → Polled}
    (hp : ∀ b, s.bus.bindings.get? id' = some b → s.desk.polled? act = some (name, id', poll b))
    (hw : s.desk.Waits id name ∨ s.reads.get? name = none ∨ (s.advance name id' poll).2 = .pending)
    (hh : (s.advance name id' poll).1.HasReadSide id name) : (s.advance name id' poll).1.desk.Waits id name := by
  have hgood : (s.advance name id' poll).1.desk.Good := by
    rw [desk_advance s name id' act poll hp]
    exact Desk.good_after h _
  unfold advance at hw hh hgood ⊢
  cases hb : s.bus.bindings.get? id' with
  | none =>
    simp only [hb] at hw hh ⊢
    rcases hw with hw | hn | hpend
    · exact hw
    · exact absurd hh (not_hasReadSide h hn)
    · cases hpend
  | some b =>
    simp only [hb] at hh hgood ⊢
    cases hprog : (poll b).progress with
    | ready result =>
      -- a read that has finished stands in no line
      have hn : (s.keep name id' (poll b)).reads.get? name = none := by
        simp only [keep, hprog, reads_settle, Table.get?_erase, if_pos]
      exact absurd hh (not_hasReadSide hgood hn)
    | pending r =>
      have hdesk : (s.keep name id' (poll b)).desk = s.desk.keep name id' (poll b) := by
        simp only [keep, hprog, desk, Desk.keep]
      obtain ⟨b₁, hb₁, hhead⟩ := hh
      change (s.keep name id' (poll b)).desk.bus.bindings.get? id = some b₁ at hb₁
      rw [hdesk] at hb₁ ⊢
      exact Desk.waits_keep h (hp b hb) hprog hb₁ hhead

theorem Parks.waits (h : s.desk.Good) {id' : BindingId} {s' : Session} (hparks : s.Parks id' s')
    (hh : s'.HasReadSide id s.nextCall) : s'.desk.Waits id s.nextCall := by
  obtain ⟨begin, polled, read, hbegin, hp, hdesk⟩ := hparks
  obtain ⟨b, hb, hhead⟩ := hh
  change s'.desk.bus.bindings.get? id = some b at hb
  rw [hdesk] at hb ⊢
  exact Desk.waits_keep h hbegin hp hb hhead

/-- The operation looks whether the read `name` can finish, and it cannot: a poll is answered so, or a call that has to
wait. -/
def LooksInVain (s : Session) (op : Op) (name : ReadName) : Prop :=
  op.polls? = some name ∧ (s.step op).2 = .pending ∨ name = s.nextCall ∧ (s.step op).2 = .blocked

/-- **One operation**: a read that waits at the inbox, or that the operation looks for in vain, waits there afterwards if
it holds the read side then. -/
theorem waits_step (h : s.desk.Good) {op : Op} (hw : s.desk.Waits id name ∨ s.LooksInVain op name)
    (hh : (s.step op).1.HasReadSide id name) : (s.step op).1.desk.Waits id name := by
  rw [LooksInVain, ← or_assoc] at hw
  rcases hw with hw | ⟨rfl, hblocked⟩
  swap
  · obtain ⟨_, -, hparks⟩ := parks_step hblocked
    exact hparks.waits h hh
  -- an operation about another read takes nothing from under this one; one about this read polls it or drops it
  by_cases hr : op.read? = some name
  · cases op with
    | start n read wanted =>
      obtain rfl := Option.some.inj hr
      simp only [step, named] at hw hh ⊢
      cases hn : s.names.get? n with
      | none =>
        rw [hn] at hw
        exact hw.resolve_right (fun hp => by cases hp.2)
      | some id' =>
        simp only [hn] at hh ⊢
        exact waits_advance (good_cancel h read) (fun b hb => polled?_start s wanted hb)
          (Or.inr (Or.inl (get?_reads_cancel s read))) hh
    | startAll n read wanted =>
      obtain rfl := Option.some.inj hr
      simp only [step, named] at hw hh ⊢
      cases hn : s.names.get? n with
      | none =>
        rw [hn] at hw
        exact hw.resolve_right (fun hp => by cases hp.2)
      | some id' =>
        simp only [hn] at hh ⊢
        exact waits_advance (good_cancel h read) (fun b hb => polled?_startAll s wanted hb)
          (Or.inr (Or.inl (get?_reads_cancel s read))) hh
    | poll read =>
      obtain rfl := Option.some.inj hr
      simp only [step, named] at hw hh ⊢
      cases hn : s.reads.get? read with
      | none =>
        rw [hn] at hw
        exact hw.resolve_right (fun hp => by cases hp.2)
      | some r =>
        simp only [hn] at hw hh ⊢
        exact waits_advance h (fun b hb => polled?_poll hn hb) (hw.imp_right (fun hp => Or.inr hp.2)) hh
    | cancel read =>
      obtain rfl := Option.some.inj hr
      exact absurd hh (not_hasReadSide (good_step h _) (get?_reads_step_cancel s read))
    | _ => cases hr
  · have hw' : s.desk.Waits id name := hw.resolve_right (fun hp => hr (by
      cases op with
      | start _ _ _ | startAll _ _ _ | poll _ => exact hp.1
      | _ => cases hp.1))
    obtain ⟨_, hread⟩ := hw'.read
    rw [desk_step]
    exact Desk.waits_after h hw' (fun act ha => read?_ne_of_mem_acts ha hr hread)

/-- **A run**: it waits there for as long as it holds the read side. -/
theorem waits_run (h : s.desk.Good) (hw : s.desk.Waits id name) {ops : List Op}
    (hh : ∀ mid, mid <+: ops → (s.run mid).HasReadSide id name) : (s.run ops).desk.Waits id name := by
  induction ops generalizing s with
  | nil => exact hw
  | cons op ops ih =>
    have hstep : (s.step op).1.HasReadSide id name := hh [op] (List.prefix_append [op] ops)
    exact ih (good_step h op) (waits_step h (Or.inl hw) hstep)
      (fun mid hm => hh (op :: mid) ((List.prefix_cons_inj op).2 hm))

/-! ## The read side goes from hand to hand -/

theorem line_settle (hb : s.bus.bindings.get? id = some b) (id' : BindingId) :
    ∃ b', (s.settle id').bus.bindings.get? id = some b' ∧ b'.line = b.line := by
  unfold settle
  split
  · exact ⟨b, hb, rfl⟩
  · rcases Bus.close_cases s.bus id' with ⟨-, he⟩ | ⟨b₁, hb₁, -, he⟩
    · rw [he]
      exact ⟨b, hb, rfl⟩
    · rw [he]
      by_cases hid : id = id'
      · subst hid
        obtain rfl := Option.some.inj (hb.symm.trans hb₁)
        exact ⟨b.shut, Table.get?_insert_self .., b.shut_line⟩
      · exact ⟨b, (Table.get?_insert_of_ne _ hid _).trans hb, rfl⟩

/-- A read that a poll finishes leaves its place in the line. -/
theorem line_of_ready (h : s.desk.Good) (hb : s.bus.bindings.get? id = some b) (hs : s.Suspended id name)
    {result : Except Fault Bytes} (hr : (s.step (.poll name)).2 = .ready result) :
    ∃ b', (s.step (.poll name)).1.bus.bindings.get? id = some b' ∧ b'.line = b.line.erase name := by
  obtain ⟨r, hread, rfl⟩ := hs
  have hp := polled?_poll hread hb
  obtain ⟨b₁, hb₁, -, hpoll⟩ := h.polled hp
  obtain rfl := Option.some.inj (hb.symm.trans hb₁)
  rw [step_poll hread hb] at hr ⊢
  cases hprog : (b.poll s.bus.config.chunkLimit name r.read).progress with
  | pending read =>
    simp only [hprog] at hr
    cases hr
  | ready result' =>
    simp only [keep, hprog]
    rw [← hpoll.ready result' hprog]
    exact line_settle (Table.get?_insert_self ..) r.binding

theorem line_cancel (hb : s.bus.bindings.get? id = some b) {f : String} (hs : s.Suspended id f) :
    s.step (.cancel f) = (s.cancel f, .done) ∧
      ∃ b', (s.cancel f).bus.bindings.get? id = some b' ∧ b'.line = b.line.erase f := by
  obtain ⟨r, hread, rfl⟩ := hs
  refine ⟨by simp only [step, named, hread], ?_⟩
  simp only [cancel, hread, Bus.onBinding, hb]
  exact line_settle (b := b.cancel f) (Table.get?_insert_self ..) r.binding

/-- A read that is cancelled while another is suspended on the binding takes itself out of the line, and that is all. -/
theorem cancel_of_suspended (hb : s.bus.bindings.get? id = some b) (hs : s.Suspended id name) {other : ReadName}
    (ho : s.Suspended id other) (hne : other ≠ name) : s.cancel name =
      { s with bus := s.bus.put id { b with line := b.line.erase name }, reads := s.reads.erase name } := by
  obtain ⟨r, hread, rfl⟩ := hs
  obtain ⟨r', hread', hid⟩ := ho
  simp only [cancel, hread, Bus.onBinding, hb]
  exact if_pos (isHeld_iff.2 (.read ((Table.get?_erase_of_ne _ hne).trans hread') hid))

/-- **The read lock.**  After every run the read side of a binding is held exactly if some read is suspended on it: one
of these reads holds it, each of the others stands in the queue once, and nobody else is in either place.  A read that
was polled without finishing, or that of a call that has begun to wait, waits at the inbox with nothing pending and an
empty buffer if it has held the read side ever since.  When the holder finishes or is cancelled the queue becomes the
line, so its first read holds the read side at once; a read that is cancelled in the queue takes itself out of it, and
changes nothing else. -/
theorem read_lock (config : Config) (ops : List Op) :
    let s := (new config).run ops
    (∀ id b, s.bus.bindings.get? id = some b → s.Lined id b.line) ∧
    (∀ before op after id name, ops = before ++ op :: after → ((new config).run before).LooksInVain op name →
      (∀ mid, mid <+: after → ((new config).run (before ++ op :: mid)).HasReadSide id name) → s.desk.Waits id name) ∧
    ∀ id b holder queue, s.bus.bindings.get? id = some b → b.line = holder :: queue →
      (∀ result, (s.step (.poll holder)).2 = .ready result →
        ∃ b', (s.step (.poll holder)).1.bus.bindings.get? id = some b' ∧ b'.line = queue) ∧
      ∀ f : String,
        (holder = f → s.step (.cancel f) = (s.cancel f, .done) ∧
          ∃ b', (s.cancel f).bus.bindings.get? id = some b' ∧ b'.line = queue) ∧
        (.given f ∈ queue → s.step (.cancel f) = (s.cancel f, .done) ∧ s.cancel f =
          { s with
            bus := s.bus.put id { b with line := holder :: queue.erase f }
            reads := s.reads.erase f }) := by
  intro s
  have hgood : s.desk.Good := good_run config ops
  refine ⟨fun id b => lined_of_good hgood, fun before op after id name hops hlooks hh => ?_,
    fun id b holder queue hb hl => ?_⟩
  · have hrun : ∀ mid, (new config).run (before ++ op :: mid) = (((new config).run before).step op).1.run mid :=
      fun mid => List.foldl_append
    have hgood₀ := good_run config before
    have hstart : (((new config).run before).step op).1.HasReadSide id name := by
      have hnil := hh [] List.nil_prefix
      rwa [hrun] at hnil
    have hlater : ∀ mid, mid <+: after → ((((new config).run before).step op).1.run mid).HasReadSide id name :=
      fun mid hm => hrun mid ▸ hh mid hm
    have hwaits := waits_run (good_step hgood₀ op) (waits_step hgood₀ (Or.inr hlooks) hstart) hlater
    rw [← hrun, ← hops] at hwaits
    exact hwaits
  · have hmem : ∀ name, name ∈ b.line ↔ s.Suspended id name := hgood.line id b hb
    have hnd : (holder :: queue).Nodup := hl ▸ hgood.nodup id b hb
    have hholder : s.Suspended id holder := (hmem holder).1 (hl ▸ List.mem_cons_self)
    have herase : b.line.erase holder = queue := by rw [hl, List.erase_cons_head]
    refine ⟨fun result hr => ?_, fun f => ⟨?_, fun hm => ?_⟩⟩
    · rw [← herase]
      exact line_of_ready hgood hb hholder hr
    · rintro rfl
      rw [← herase]
      exact line_cancel hb hholder
    · have hne : holder ≠ f := fun he => (List.nodup_cons.1 hnd).1 (he ▸ hm)
      have hf : s.Suspended id f := (hmem f).1 (hl ▸ List.mem_cons_of_mem _ hm)
      refine ⟨(line_cancel hb hf).1, ?_⟩
      rw [cancel_of_suspended hb hf hholder hne, hl, List.erase_cons_tail (by simpa using hne)]

/-- One read holds the read side and waits for a chunk, which has come, and another stands behind it. -/
theorem read_lock_of_two :
    let later : List Op := [.start "b" "second" 7, .onBinding "a" (.write [1, 2, 3])]
    let s := (new {}).run (twoPeers ++ .start "b" "first" 2 :: later)
    s.Lined ⟨6⟩ ["first", "second"] ∧ s.desk.Waits ⟨6⟩ "first" := by
  intro later s
  obtain ⟨hlined, hwaits, -⟩ := read_lock {} (twoPeers ++ .start "b" "first" 2 :: later)
  refine ⟨hlined ⟨6⟩ _ rfl, hwaits twoPeers _ later ⟨6⟩ "first" rfl (.inl ⟨rfl, rfl⟩) (fun mid hm => ?_)⟩
  simp only [later, List.prefix_cons_iff, List.prefix_nil] at hm
  rcases hm with rfl | ⟨_, rfl, rfl | ⟨_, rfl, rfl⟩⟩ <;> exact ⟨_, rfl, rfl⟩

end Session
end TopicBus
