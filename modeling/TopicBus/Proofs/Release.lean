import TopicBus.Proofs.ReadLock
/-!
# Closing releases the suspended reads

A close cannot take the read side from a read that holds it; what it does is to close the binding and disconnect the
inbox.  From then on every read that comes to the head of the line finds the binding closed, gives the read side up and
leaves (`poll_of_closed`), whatever it waited for and whatever it had gathered.  So when the reads have been polled once
each in the order of the line, all of them have been told that the binding is closed, and nobody is left
(`release_line`).
-/
namespace TopicBus

namespace Binding

variable {limit : Option Nat} {down : Bool} {b : Binding} {name : ReadName} {read : SuspendedRead} {wanted : Nat}

theorem releaseReadSide_of_sound (hs : b.Sound limit down) :
    b.releaseReadSide = { b with readSide := none, readCapacity := 0 } := by
  have hcap := hs.capacity
  rw [releaseReadSide_eq]
  cases hr : b.readSide with
  | none =>
    rw [hr, Option.map_none, Option.getD_none] at hcap
    rw [hcap]
    rfl
  | some s => rfl

/-- A read that has the read side of a closed binding to itself. -/
theorem Fetched.eq_of_closed {out : Binding × Except Halt Bytes} (h : Fetched limit wanted b out)
    (hc : b.isOpen = false) : out = (b.releaseReadSide, .error (.failed .closed)) := by
  cases h with
  | closed => rfl
  | released ho | refused ho | served ho | waits ho | drained ho => exact absurd (ho.symm.trans hc) nofun

/-- **A poll of the read at the head of a closed binding's line** gives the read side up and takes the read out. -/
theorem poll_of_closed (hs : b.Sound limit down) (hc : b.isOpen = false) (hhead : b.line.head? = some name)
    (hw : 0 < read.wanted) (hready : read.phase = .atInbox → b.Ready limit (clampRead limit read.wanted)) :
    b.poll limit name read =
      ⟨{ b with readSide := none, readCapacity := 0, line := b.line.erase name }, [], .ready (.error .closed)⟩ := by
  have hw' := clampRead_pos limit hw
  have hresume : b.resumeRead limit name read.phase read.wanted =
      (b.releaseReadSide.leave name, .error (.failed .closed)) := by
    cases hp : read.phase with
    | inLine => simp only [resumeRead, if_pos hhead, (fetched_fetch hs hw').eq_of_closed hc, leaveUnlessWaiting]
    | atInbox => simp only [resumeRead, (fetched_await hs hw' (hready hp)).eq_of_closed hc, leaveUnlessWaiting]
  have hleave : b.releaseReadSide.leave name =
      { b with readSide := none, readCapacity := 0, line := b.line.erase name } := by
    rw [releaseReadSide_of_sound hs, leave_eq]
    rcases releaseIfClosed_cases { b with readSide := none, readCapacity := 0, line := b.line.erase name } with
      he | ⟨-, -, he⟩
    · exact he
    · exact he.trans (releaseReadSide_of_none rfl)
  unfold poll
  cases read.goal <;> rw [hresume, hleave] <;> rfl

theorem readSide_shut (hl : b.line = []) : b.shut.readSide = none := by
  rw [shut_eq]
  rw [releaseIfClosed_of_closed (by rfl) (by exact hl), releaseReadSide_eq]

end Binding

namespace Session

variable {s : Session} {id : BindingId} {b : Binding} {op : Op}

theorem close_of_closed {bus : Bus} (hc : bus.isOpen id = false) : (bus.close id).1 = bus := by
  rcases Bus.close_cases bus id with ⟨-, he⟩ | ⟨b, hb, ho, -⟩
  · rw [he]
  · exact absurd ((Bus.isOpen_iff.2 ⟨b, hb, ho⟩).symm.trans hc) nofun

theorem settle_of_closed (hc : s.bus.isOpen id = false) : s.settle id = s := by
  unfold settle
  split
  · rfl
  · rw [close_of_closed hc]

/-- However a binding is asked to close, the same is done to it. -/
theorem desk_of_closes? (h : s.closes? op = some id) : (s.step op).1.desk = s.desk.apply (.close id) := by
  have hclosed : (s.bus.close id).1.isOpen id = false :=
    Bool.not_eq_true _ ▸ fun ho => (Bus.isOpen_close ho).2 rfl
  unfold closes? at h
  split at h
  · simp only [step, named, h, stepBinding]
    rfl
  · cases hcalls : s.calls with
    | nil =>
      rw [hcalls] at h
      cases h
    | cons i earlier =>
      rw [hcalls] at h
      obtain rfl := Option.some.inj h
      simp only [step, hcalls, endCall, stepBinding]
      rw [settle_of_closed hclosed]
      rfl
  · obtain ⟨t, ht, hslot⟩ := Option.bind_eq_some_iff.1 h
    simp only [step, named, ht, stepTransport, closeTransport, hslot]
    rfl
  · cases h

theorem shut_of_closes? (h : s.closes? op = some id) (hb : s.bus.bindings.get? id = some b) (ho : b.isOpen = true) :
    (s.step op).1.bus.bindings.get? id = some b.shut := by
  have hbus : (s.step op).1.bus = (s.bus.close id).1 := congrArg Desk.bus (desk_of_closes? h)
  rcases Bus.close_cases s.bus id with ⟨hc, -⟩ | ⟨b', hb', -, he⟩
  · exact absurd ((Bus.isOpen_iff.2 ⟨b, hb, ho⟩).symm.trans hc) nofun
  · obtain rfl := Option.some.inj (hb.symm.trans hb')
    rw [hbus, he]
    exact Table.get?_insert_self ..

/-- **A poll of the read at the head of a closed binding's line**, as its user sees it. -/
theorem step_poll_of_closed (h : s.desk.Good) (hb : s.bus.bindings.get? id = some b) (hc : b.isOpen = false)
    {name : ReadName} {rest : List ReadName} (hl : b.line = name :: rest) :
    (s.step (.poll name)).2 = .ready (.error .closed) ∧ (s.step (.poll name)).1.bus.bindings.get? id =
      some { b with readSide := none, readCapacity := 0, line := rest } := by
  obtain ⟨r, hr, rfl⟩ := (h.line id b hb name).1 (hl ▸ List.mem_cons_self)
  obtain ⟨hw, b', hb', hready⟩ := h.reads name r hr
  obtain rfl := Option.some.inj (hb.symm.trans hb')
  have hhead : b.line.head? = some name := by rw [hl, List.head?_cons]
  have hpoll := Binding.poll_of_closed (h.sound _ b hb) hc hhead hw (fun hp => (hready hp).2)
  rw [hl, List.erase_cons_head] at hpoll
  rw [step_poll hr hb, show s.bus.config.chunkLimit = s.desk.bus.config.chunkLimit from rfl, hpoll]
  refine ⟨rfl, ?_⟩
  simp only [keep]
  rw [settle_of_closed ?_]
  · exact Table.get?_insert_self ..
  · simp only [Bus.isOpen, Bus.put, Table.get?_insert_self, Option.any_some, hc]

/-- **The reads of a closed binding are released one after another.** -/
theorem release_line (h : s.desk.Good) (hb : s.bus.bindings.get? id = some b) (hc : b.isOpen = false)
    (hr : b.line = [] → b.readSide = none) :
    s.answers (b.line.map .poll) = b.line.map (fun _ => .ready (.error .closed)) ∧
      (s.run (b.line.map .poll)).desk.Good ∧ ∃ b', (s.run (b.line.map .poll)).bus.bindings.get? id = some b' ∧
        b'.line = [] ∧ b'.readSide = none ∧ b'.isOpen = false := by
  generalize hl : b.line = line
  -- on the line: a poll takes its first read out, and what stands behind it is the line of the next state
  induction line generalizing s b with
  | nil => exact ⟨rfl, h, b, hb, hl, hr hl, hc⟩
  | cons name rest ih =>
    obtain ⟨hanswer, hb'⟩ := step_poll_of_closed h hb hc hl
    obtain ⟨hanswers, hrest⟩ := ih (good_step h (.poll name)) hb' hc (fun _ => rfl) rfl
    refine ⟨?_, hrest⟩
    rw [List.map_cons, List.map_cons, answers, hanswer, hanswers]

/-- **Closing releases every suspended read.**  After any run, let an open binding be closed in whichever way it can be
asked for.  The reads that are suspended on it then are those in its line, and when they are polled once each in that
order every one of them finishes, told that the binding is closed.  Nobody is left in the line after the last of them,
no read is suspended on the binding, and its read side is given up. -/
theorem close_releases_reads (config : Config) (ops : List Op) {id : BindingId} {b : Binding} {op : Op}
    (hb : ((new config).run ops).bus.bindings.get? id = some b) (ho : b.isOpen = true)
    (hc : ((new config).run ops).closes? op = some id) :
    let s := (new config).run ops
    let closed := (s.step op).1
    let after := closed.run (b.line.map .poll)
    (b.line.Nodup ∧ ∀ name, name ∈ b.line ↔ s.Suspended id name) ∧
    (s.step op).2 = .done ∧
    closed.answers (b.line.map .poll) = b.line.map (fun _ => .ready (.error .closed)) ∧
    (∀ name, ¬ after.Suspended id name) ∧
    ∃ b', after.bus.bindings.get? id = some b' ∧ b'.line = [] ∧ b'.readSide = none ∧ b'.readCapacity = 0 ∧
      b'.isOpen = false := by
  intro s closed after
  have hgood : s.desk.Good := good_run config ops
  have hshut := shut_of_closes? hc hb ho
  have hrelease := release_line (good_step hgood op) hshut b.shut_isOpen
    (fun hl => Binding.readSide_shut (b.shut_line ▸ hl))
  rw [b.shut_line] at hrelease
  obtain ⟨hanswers, hgood', b', hb', hl, hr, hc'⟩ := hrelease
  refine ⟨⟨hgood.nodup id b hb, hgood.line id b hb⟩, answer_of_closes? hc (Bus.isOpen_iff.2 ⟨b, hb, ho⟩), hanswers,
    fun name hs => ?_, b', hb', hl, hr, ?_, hc'⟩
  · have hm := (hgood'.line id b' hb' name).2 hs
    rw [hl] at hm
    cases hm
  · have hcap := (hgood'.sound id b' hb').capacity
    rwa [hr] at hcap

/-- One read holds the read side while a chunk is queued, another wants more than has come, and a third waits. -/
theorem close_releases_three :
    let ops := twoPeers ++ [.start "b" "first" 2, .startAll "b" "second" 7, .onBinding "a" (.write [1, 2, 3]),
      .poll "first", .poll "second", .start "b" "third" 1, .onBinding "a" (.write [4])]
    let closed := (((new {}).run ops).step (.onBinding "b" .close)).1
    closed.answers [.poll "second", .poll "third"] = [.ready (.error .closed), .ready (.error .closed)] := by
  intro ops closed
  obtain ⟨b, hb, ho⟩ := Bus.isOpen_iff.1 (show ((new {}).run ops).bus.isOpen ⟨6⟩ = true by decide +kernel)
  have hclose : ((new {}).run ops).closes? (.onBinding "b" .close) = some ⟨6⟩ := by decide +kernel
  have hline : b.line = ["second", "third"] := by
    have hmap : (((new {}).run ops).bus.bindings.get? ⟨6⟩).map (·.line) = some (["second", "third"] : List ReadName) := by
      decide +kernel
    rw [hb] at hmap
    exact Option.some.inj hmap
  obtain ⟨-, -, hanswers, -⟩ := close_releases_reads {} ops hb ho hclose
  rw [hline] at hanswers
  exact hanswers

end Session
end TopicBus
