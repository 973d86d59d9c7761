import TopicBus.Proofs.Overtaking
import TopicBus.Proofs.Release
import TopicBus.Proofs.Writes
/-!
# A closed binding stays closed

Closing is final.  Whatever happens on the bus afterwards, a closed binding can only be emptied: its terms and its
traffic stay, no read takes anything out of its stream, and a read side that is gone does not come back
(`Binding.Spent`, `Desk.spent_apply`, `Session.spent_run`).  Whoever still asks something of it is refused at once
(`Session.Refused`), except for the questions that need no bytes.  And asking is all that is left: what the users of a
closed binding do to it through their names, calls and reads touches nothing else on the bus
(`Session.bus_of_uses`).
-/
namespace TopicBus

namespace Bus

variable {bus : Bus} {id : BindingId} {b : Binding}

theorem put_self (hb : bus.bindings.get? id = some b) : bus.put id b = bus := by rw [put, Table.insert_self hb]

theorem put_put (hb : bus.bindings.get? id = some b) (b' b'' : Binding) :
    (bus.put id b').put id b'' = bus.put id b'' := by
  simp only [put, Table.insert_insert hb]

theorem get?_put_self (bus : Bus) (id : BindingId) (b : Binding) : (bus.put id b).bindings.get? id = some b :=
  Table.get?_insert_self ..

end Bus

/-- Whether an operation goes on to the read side; a read of exactly no bytes does not. -/
def BindingOp.reads : BindingOp → Bool
  | .read _ | .tryRead _ | .readTagged _ => true
  | .readAll wanted => wanted ≠ 0
  | _ => false

namespace Binding

variable {limit : Option Nat} {b b' b'' : Binding} {parts : List Bytes}

/-! ## Reads of a closed binding -/

section Reads

variable (hc : b.isOpen = false) (limit : Option Nat) (name : ReadName) (wanted : Nat)
include hc

theorem read_of_closed : b.read limit wanted = (b.releaseIfClosed, .error (.failed .closed)) := by
  simp only [Binding.read, readOnce, hc, Bool.not_false, if_true]

theorem tryRead_of_closed : b.tryRead limit wanted = (b.releaseIfClosed, .error .closed) := by
  simp only [tryRead, read_of_closed hc]

theorem readAll_of_closed (hw : wanted ≠ 0) :
    b.readAll limit wanted = ⟨b.releaseIfClosed, [], .stopped (.failed .closed)⟩ := by
  simp only [readAll, ExactRead.run_of_pos _ _ hw, read_of_closed hc, ExactRead.resume]

theorem beginRead_of_closed : b.beginRead limit name wanted = (b.releaseIfClosed, .error (.failed .closed)) := by
  simp only [beginRead, hc, Bool.not_false, if_true]

theorem startUpTo_of_closed :
    b.startUpTo limit name wanted = ⟨b.releaseIfClosed, [], .ready (.error .closed)⟩ := by
  simp only [startUpTo, beginRead_of_closed hc, settleUpTo]

theorem startExact_of_closed (hw : wanted ≠ 0) :
    b.startExact limit name wanted = ⟨b.releaseIfClosed, [], .ready (.error .closed)⟩ := by
  simp only [startExact, ExactRead.run_of_pos _ _ hw, beginRead_of_closed hc, ExactRead.resume, settleExact]

end Reads

theorem startExact_zero (limit : Option Nat) (name : ReadName) (b : Binding) :
    b.startExact limit name 0 = ⟨b, [], .ready (.ok [])⟩ := by
  simp only [startExact, ExactRead.run_zero, settleExact, ExactRead.Outcome.bytes, List.flatten_nil, List.append_nil]

/-! ## What is left of a closed binding -/

/-- `b'` is what may have become of `b`, a closed binding. -/
structure Spent (b b' : Binding) : Prop where
  terms : b'.toTerms = b.toTerms
  isOpen : b'.isOpen = false
  traffic : b'.traffic = b.traffic
  /-- What was given up stays so. -/
  readSide : b.readSide = none → b'.readSide = none

theorem Spent.refl (hc : b.isOpen = false) : b.Spent b := ⟨rfl, hc, rfl, fun hn => hn⟩

theorem Spent.trans (h : b.Spent b') (h' : b'.Spent b'') : b.Spent b'' :=
  ⟨h'.terms.trans h.terms, h'.isOpen, h'.traffic.trans h.traffic, fun hn => h'.readSide (h.readSide hn)⟩

theorem spent_releaseReadSide (hc : b.isOpen = false) : b.Spent b.releaseReadSide := by
  rw [releaseReadSide_eq]
  exact ⟨rfl, hc, rfl, fun _ => rfl⟩

theorem spent_releaseIfClosed (hc : b.isOpen = false) : b.Spent b.releaseIfClosed := by
  rcases b.releaseIfClosed_cases with he | ⟨-, -, he⟩ <;> rw [he]
  · exact .refl hc
  · exact spent_releaseReadSide hc

theorem Move.spent (h : Move limit b parts b') (hc : b.isOpen = false) : b.Spent b' := by
  cases h with
  | line => exact ⟨rfl, hc, rfl, fun hn => hn⟩
  | left => exact spent_releaseIfClosed hc
  | nothing ho => exact absurd (ho.symm.trans hc) nofun
  | fetched _ hf =>
    cases hf with
    | closed => exact spent_releaseReadSide hc
    | released ho | refused ho | served ho | waits ho | drained ho => exact absurd (ho.symm.trans hc) nofun

theorem Moves.spent (h : Moves limit b parts b') (hc : b.isOpen = false) : b.Spent b' := by
  induction h with
  | refl => exact .refl hc
  | more hm _ ih => exact (hm.spent hc).trans (ih (hm.isOpen.trans hc))

/-- A closed binding after an operation on it: whoever wants to read looks whether the read side can go. -/
def afterAsked (b : Binding) (op : BindingOp) : Binding := if op.reads then b.releaseIfClosed else b

theorem afterAsked_isOpen (b : Binding) (op : BindingOp) : (b.afterAsked op).isOpen = b.isOpen := by
  unfold afterAsked
  split
  · exact b.releaseIfClosed_isOpen
  · rfl

/-- What a closed binding answers. -/
def answerClosed (b : Binding) : BindingOp → Answer
  | .read _ | .tryRead _ | .write _ | .flush => .failed .closed
  | .readAll wanted => if wanted = 0 then .bytes [] else .failed .closed
  | .readTagged _ => .taggedRead (.failed .closed) []
  | .writeTagged _ => .transfer (.failed .closed)
  | .close => .failed .alreadyClosed
  | .isOpen => .flag false
  | .info => .info b.toTerms false
  | .traffic => .traffic b.traffic
  | .readCapacity => .count b.readCapacity
  | .writeCapacity => .count 0

end Binding

/-! ## Every run from there on -/

namespace Desk

variable {d : Desk} {id : BindingId} {b : Binding}

/-- **No act brings a closed binding back**, and none takes anything from it. -/
theorem spent_apply (h : d.Good) (hb : d.bus.bindings.get? id = some b) (hc : b.isOpen = false) (act : Act) :
    ∃ b', (d.apply act).bus.bindings.get? id = some b' ∧ b.Spent b' ∧ takenFrom id (d.events act) = [] := by
  cases hr : act.reads with
  | true =>
    obtain ⟨parts, b', hb', hmoves, htaken⟩ := moves_apply h hb hr
    refine ⟨b', hb', hmoves.spent hc, ?_⟩
    rw [htaken, hmoves.parts_of_closed hc]
    rfl
  | false =>
    obtain ⟨b', hb', haside⟩ := aside_apply h hb hr
    refine ⟨b', hb', ?_, takenFrom_of_not_reads hr id⟩
    cases haside with
    | same => exact .refl hc
    | ended => exact ⟨rfl, hc, rfl, fun hn => by rw [Binding.disconnect, hn]; rfl⟩
    | closed ho => exact absurd (hc.symm.trans ho) Bool.false_ne_true
    | passed _ hsame =>
      rw [hsame hc]
      exact .refl hc
    | cancelled => exact ⟨rfl, hc, rfl, fun hn => hn⟩

theorem spent_after (h : d.Good) (hb : d.bus.bindings.get? id = some b) (hc : b.isOpen = false) (acts : List Act) :
    ∃ b', (d.after acts).bus.bindings.get? id = some b' ∧ b.Spent b' ∧ takenFrom id (d.history acts) = [] := by
  induction acts generalizing d b with
  | nil => exact ⟨b, hb, .refl hc, rfl⟩
  | cons act acts ih =>
    obtain ⟨b₁, hb₁, hspent₁, htaken₁⟩ := spent_apply h hb hc act
    obtain ⟨b₂, hb₂, hspent₂, htaken₂⟩ := ih (good_apply h act) hb₁ hspent₁.isOpen
    refine ⟨b₂, hb₂, hspent₁.trans hspent₂, ?_⟩
    rw [history, takenFrom_append, htaken₁, htaken₂]
    rfl

end Desk

namespace Session

variable {s : Session} {id : BindingId} {b : Binding} {name : ReadName} {op : Op}

theorem spent_run (h : s.desk.Good) (hb : s.bus.bindings.get? id = some b) (hc : b.isOpen = false) (ops : List Op) :
    ∃ b', (s.run ops).bus.bindings.get? id = some b' ∧ b.Spent b' ∧
      takenFrom id (s.desk.history (s.trail ops)) = [] := by
  have hafter := Desk.spent_after h hb hc (s.trail ops)
  rw [← desk_run] at hafter
  exact hafter

/-! ## What its users are told -/

/-- What is answered to whoever asks something of the closed binding `id`, which is `b`. -/
structure Refused (s : Session) (id : BindingId) (b : Binding) : Prop where
  asked : ∀ name op, s.names.get? name = some id → (s.step (.onBinding name op)).2 = b.answerClosed op
  /-- A call that was begun before the binding was closed comes to the same. -/
  ended : ∀ earlier op, s.calls = id :: earlier → (s.step (.endCall op)).2 = b.answerClosed op
  started : ∀ name read wanted, s.names.get? name = some id →
    (s.step (.start name read wanted)).2 = .ready (.error .closed)
  startedAll : ∀ name read wanted, s.names.get? name = some id →
    (s.step (.startAll name read wanted)).2 = .ready (if wanted = 0 then .ok [] else .error .closed)
  /-- The reads that were suspended at the close finish one after another, as each comes to the head of the line. -/
  polled : ∀ name, s.Suspended id name →
    (s.step (.poll name)).2 = if b.line.head? = some name then .ready (.error .closed) else .pending

theorem isOpen_eq_false (hb : s.bus.bindings.get? id = some b) (hc : b.isOpen = false) : s.bus.isOpen id = false := by
  rw [Bus.isOpen_of_get? hb, hc]

theorem settle_put_of_closed (s : Session) (id : BindingId) (hc : b.isOpen = false) :
    { s with bus := s.bus.put id b }.settle id = { s with bus := s.bus.put id b } :=
  settle_of_closed (isOpen_eq_false (s := { s with bus := s.bus.put id b }) (Bus.get?_put_self ..) hc)

/-- **An operation on a closed binding.** -/
theorem stepBinding_of_closed (h : s.desk.Good) (hb : s.bus.bindings.get? id = some b) (hc : b.isOpen = false)
    (op : BindingOp) :
    s.stepBinding id op = ({ s with bus := s.bus.put id (b.afterAsked op) }, b.answerClosed op) := by
  have hself : { s with bus := s.bus.put id b } = s := by rw [Bus.put_self hb]
  cases op with
  | read wanted | readTagged wanted =>
    simp only [stepBinding, read, Bus.read, Bus.onBinding, hb, Binding.read_of_closed hc, afterRead]
    rfl
  | tryRead wanted =>
    simp only [stepBinding, Bus.tryRead, Bus.onBinding, hb, Binding.tryRead_of_closed hc]
    rfl
  | readAll wanted =>
    by_cases hw : wanted = 0
    · subst hw
      simp only [stepBinding, readAll, Bus.readAll, Bus.onBinding, hb, Binding.readAll, ExactRead.run_zero]
      rfl
    · simp only [stepBinding, readAll, Bus.readAll, Bus.onBinding, hb, Binding.readAll_of_closed hc _ _ hw,
        ExactRead.Outcome.result, ExactRead.Outcome.toExcept, afterRead, Binding.afterAsked, Binding.answerClosed,
        BindingOp.reads, ne_eq, hw, not_false_eq_true, decide_true, if_true, if_false]
      rfl
  | write data | writeTagged data =>
    simp only [stepBinding, Bus.write_of_closed hb hc]
    exact congrArg (·, _) hself.symm
  | close =>
    simp only [stepBinding, Bus.close, hb, hc]
    exact congrArg (·, _) hself.symm
  | flush =>
    simp only [stepBinding, Bus.flush, hb, Binding.flush, hc]
    exact congrArg (·, _) hself.symm
  | isOpen =>
    simp only [stepBinding, isOpen_eq_false hb hc]
    exact congrArg (·, _) hself.symm
  | info =>
    simp only [stepBinding, hb, Answer.about, hc]
    exact congrArg (·, _) hself.symm
  | traffic | readCapacity =>
    simp only [stepBinding, hb, Answer.about]
    exact congrArg (·, _) hself.symm
  | writeCapacity =>
    simp only [stepBinding, hb, Answer.about, ((h.sound id b hb).closed hc).2]
    exact congrArg (·, _) hself.symm

theorem endCall_of_closed (h : s.desk.Good) (hb : s.bus.bindings.get? id = some b) (hc : b.isOpen = false)
    (earlier : List BindingId) (op : BindingOp) : s.endCall id earlier op =
      ({ s with bus := s.bus.put id (b.afterAsked op), calls := earlier }, b.answerClosed op) := by
  unfold endCall
  rw [stepBinding_of_closed h hb hc op]
  exact congrArg (·, _) (settle_put_of_closed { s with calls := earlier } id ((b.afterAsked_isOpen op).trans hc))

/-- Dropping a read, of whatever binding, leaves a closed binding closed. -/
theorem closed_of_cancel (h : s.desk.Good) (hb : s.bus.bindings.get? id = some b) (hc : b.isOpen = false)
    (name : ReadName) : ∃ b', (s.cancel name).bus.bindings.get? id = some b' ∧ b'.isOpen = false := by
  obtain ⟨b', hb', hspent, -⟩ := Desk.spent_after h hb hc (s.cancelling name)
  rw [← desk_cancel] at hb'
  exact ⟨b', hb', hspent.isOpen⟩

theorem refused_of_closed (h : s.desk.Good) (hb : s.bus.bindings.get? id = some b) (hc : b.isOpen = false) :
    s.Refused id b where
  asked name op hn := by simp only [step, named, hn, stepBinding_of_closed h hb hc]
  ended earlier op hcalls := by simp only [step, hcalls, endCall_of_closed h hb hc]
  started name read wanted hn := by
    obtain ⟨b', hb', hc'⟩ := closed_of_cancel h hb hc read
    simp only [step, named, hn, advance, hb', Binding.startUpTo_of_closed hc', Answer.ofProgress]
  startedAll name read wanted hn := by
    obtain ⟨b', hb', hc'⟩ := closed_of_cancel h hb hc read
    simp only [step, named, hn, advance, hb']
    by_cases hw : wanted = 0
    · rw [hw, Binding.startExact_zero, if_pos rfl]
      rfl
    · rw [Binding.startExact_of_closed hc' _ _ _ hw, if_neg hw]
      rfl
  polled name hs := by
    obtain ⟨r, hr, rfl⟩ := hs
    by_cases hhead : b.line.head? = some name
    · obtain ⟨rest, hl⟩ := List.head?_eq_some_iff.1 hhead
      rw [if_pos hhead]
      exact (step_poll_of_closed h hb hc hl).1
    · rw [if_neg hhead, step_poll hr hb]
      exact congrArg Answer.ofProgress (congrArg Polled.progress (h.poll_behind hr hb hhead))

/-! ## What its users can still do -/

/-- An operation on the binding `id`, through a name of it, a call on it or a read of it; a name or a read that it takes
over was one of the same binding. -/
inductive Uses (s : Session) (id : BindingId) : Op → Prop
  | onBinding {name : String} (op : BindingOp) : s.names.get? name = some id → Uses s id (.onBinding name op)
  | share {name other : String} : s.names.get? name = some id →
      (∀ i, s.names.get? other = some i → i = id) → Uses s id (.share name other)
  | drop {name : String} : s.names.get? name = some id → Uses s id (.drop name)
  | beginCall {name : String} : s.names.get? name = some id → Uses s id (.beginCall name)
  | endCall {earlier : List BindingId} (op : BindingOp) : s.calls = id :: earlier → Uses s id (.endCall op)
  | start {name read : String} (wanted : Nat) : s.names.get? name = some id →
      (∀ r, s.reads.get? read = some r → r.binding = id) → Uses s id (.start name read wanted)
  | startAll {name read : String} (wanted : Nat) : s.names.get? name = some id →
      (∀ r, s.reads.get? read = some r → r.binding = id) → Uses s id (.startAll name read wanted)
  | poll {name : ReadName} : s.Suspended id name → Uses s id (.poll name)
  | cancel {name : String} : s.Suspended id name → Uses s id (.cancel name)

theorem bus_settle?_of_closed (hc : s.bus.isOpen id = false) {x : Option BindingId} (hx : ∀ i, x = some i → i = id) :
    (s.settle? x).bus = s.bus := by
  cases x with
  | none => rfl
  | some i =>
    obtain rfl := hx i rfl
    exact congrArg Session.bus (settle_of_closed hc)

theorem bus_keep_of_closed (name : ReadName) {polled : Polled} (hc : polled.binding.isOpen = false) :
    (s.keep name id polled).bus = s.bus.put id polled.binding := by
  unfold keep
  cases polled.progress with
  | ready result =>
    exact congrArg Session.bus (settle_put_of_closed { s with reads := s.reads.erase name } id hc)
  | pending read => rfl

theorem bus_cancel_of_closed (hb : s.bus.bindings.get? id = some b) (hc : b.isOpen = false)
    (hname : ∀ r, s.reads.get? name = some r → r.binding = id) :
    ∃ b', b'.isOpen = false ∧ (s.cancel name).bus = s.bus.put id b' := by
  unfold cancel
  cases hr : s.reads.get? name with
  | none => exact ⟨b, hc, (Bus.put_self hb).symm⟩
  | some r =>
    obtain rfl := hname r hr
    refine ⟨b.cancel name, hc, ?_⟩
    simp only [Bus.onBinding, hb]
    exact congrArg Session.bus
      (settle_put_of_closed (b := b.cancel name) { s with reads := s.reads.erase name } r.binding hc)

/-- A read begun on a closed binding, in the place of one that was dropped. -/
theorem bus_starting_of_closed (hb : s.bus.bindings.get? id = some b) (hc : b.isOpen = false) {poll : Binding → Polled}
    (hname : ∀ r, s.reads.get? name = some r → r.binding = id)
    (hpoll : ∀ b' : Binding, b'.isOpen = false → (poll b').binding.isOpen = false) :
    ∃ b', ((s.cancel name).advance name id poll).1.bus = s.bus.put id b' := by
  obtain ⟨b₁, hc₁, hbus₁⟩ := bus_cancel_of_closed hb hc hname
  have hb₁ : (s.cancel name).bus.bindings.get? id = some b₁ := by rw [hbus₁, Bus.get?_put_self]
  refine ⟨(poll b₁).binding, ?_⟩
  simp only [advance, hb₁]
  rw [bus_keep_of_closed name (hpoll b₁ hc₁), hbus₁, Bus.put_put hb]

/-- **What the users of a closed binding do concerns nobody else.** -/
theorem bus_of_uses (h : s.desk.Good) (hb : s.bus.bindings.get? id = some b) (hc : b.isOpen = false)
    (hu : s.Uses id op) : ∃ b', (s.step op).1.bus = s.bus.put id b' := by
  have hsame : s.bus = s.bus.put id b := (Bus.put_self hb).symm
  have hclosed := isOpen_eq_false hb hc
  cases hu with
  | onBinding op hn => exact ⟨b.afterAsked op, by simp only [step, named, hn, stepBinding_of_closed h hb hc]⟩
  | @share name other hn ho =>
    refine ⟨b, ?_⟩
    simp only [step, named, hn, hold]
    rw [bus_settle?_of_closed (s := { s with names := s.names.insert other id }) hclosed ho]
    exact hsame
  | @drop name hn =>
    refine ⟨b, ?_⟩
    simp only [step, named, hn, drop]
    rw [bus_settle?_of_closed (s := { s with names := s.names.erase name }) hclosed
      (fun i hi => (Option.some.inj hi).symm)]
    exact hsame
  | beginCall hn =>
    refine ⟨b, ?_⟩
    simp only [step, named, hn]
    exact hsame
  | endCall op hcalls => exact ⟨b.afterAsked op, by simp only [step, hcalls, endCall_of_closed h hb hc]⟩
  | start wanted hn hread =>
    simp only [step, named, hn]
    refine bus_starting_of_closed hb hc hread (fun b' hc' => ?_)
    rw [Binding.startUpTo_of_closed hc', Binding.releaseIfClosed_isOpen, hc']
  | startAll wanted hn hread =>
    simp only [step, named, hn]
    refine bus_starting_of_closed hb hc hread (fun b' hc' => ?_)
    by_cases hw : wanted = 0
    · rw [hw, Binding.startExact_zero, hc']
    · rw [Binding.startExact_of_closed hc' _ _ _ hw, Binding.releaseIfClosed_isOpen, hc']
  | @poll name hs =>
    obtain ⟨r, hr, rfl⟩ := hs
    obtain ⟨b', hb', -, hpoll⟩ := h.polled (polled?_poll hr hb)
    obtain rfl := Option.some.inj (hb.symm.trans hb')
    rw [step_poll hr hb]
    exact ⟨_, bus_keep_of_closed name (hpoll.advance.isOpen.trans hc)⟩
  | @cancel name hs =>
    obtain ⟨r, hr, rfl⟩ := hs
    simp only [step, named, hr]
    obtain ⟨b', -, hbus⟩ := bus_cancel_of_closed hb hc (fun r' hr' => by rw [Option.some.inj (hr'.symm.trans hr)])
    exact ⟨b', hbus⟩

/-- Every operation is on the binding `id` when its turn comes. -/
def UsesOnly (s : Session) (id : BindingId) : List Op → Prop
  | [] => True
  | op :: rest => s.Uses id op ∧ (s.step op).1.UsesOnly id rest

theorem bus_run_of_usesOnly (h : s.desk.Good) (hb : s.bus.bindings.get? id = some b) (hc : b.isOpen = false)
    {ops : List Op} (hu : s.UsesOnly id ops) : ∃ b', (s.run ops).bus = s.bus.put id b' := by
  induction ops generalizing s b with
  | nil => exact ⟨b, (Bus.put_self hb).symm⟩
  | cons op ops ih =>
    obtain ⟨hop, hrest⟩ := hu
    obtain ⟨b₁, hb₁, hspent, -⟩ := spent_run h hb hc [op]
    obtain ⟨b₂, hbus⟩ := bus_of_uses h hb hc hop
    obtain ⟨b', hbus'⟩ := ih (good_step h op) hb₁ hspent.isOpen hrest
    refine ⟨b', hbus'.trans ?_⟩
    rw [hbus, Bus.put_put hb]

/-- **A closed binding stays closed.**  Let a binding be closed in the state that a run has come to, and let the run go
on in any way.  The binding is closed still, with the same terms and the same traffic; no read has taken anything out of
its stream since; and whoever asks something of it, begins a read of it or polls one is told that it is closed.  If all
that happened was done by its own users, nothing else on the bus is different: not another binding, not the registry,
not the routes. -/
theorem closed_for_good (config : Config) (ops more : List Op) {id : BindingId} {b : Binding}
    (hb : ((new config).run ops).bus.bindings.get? id = some b) (hc : b.isOpen = false) :
    let s := (new config).run ops
    let t := s.run more
    ∃ b', t.bus.bindings.get? id = some b' ∧ b.Spent b' ∧
      takenFrom id (historyOf config (ops ++ more)) = takenFrom id (historyOf config ops) ∧
      t.Refused id b' ∧
      (s.UsesOnly id more → t.bus = s.bus.put id b') := by
  intro s t
  have hgood : s.desk.Good := good_run config ops
  have hgood' : t.desk.Good := good_later hgood more
  obtain ⟨b', hb', hspent, htaken⟩ := spent_run hgood hb hc more
  refine ⟨b', hb', hspent, ?_, refused_of_closed hgood' hb' hspent.isOpen, fun hu => ?_⟩
  · rw [historyOf_append, takenFrom_append]
    exact (congrArg _ htaken).trans (List.append_nil _)
  · obtain ⟨b₁, hbus⟩ := bus_run_of_usesOnly hgood hb hc hu
    have hb₁ : t.bus.bindings.get? id = some b₁ := by
      rw [hbus]
      exact Bus.get?_put_self ..
    rw [Option.some.inj (hb'.symm.trans hb₁)]
    exact hbus

/-- A chunk has come that two suspended reads were waiting for when the binding is closed; neither gets it. -/
theorem closed_for_good_two :
    let ops := twoPeers ++ [.start "b" "first" 4, .startAll "b" "second" 7, .onBinding "a" (.write [1, 2, 3]),
      .onBinding "b" .close]
    let more := [.onBinding "b" (.read 9), .startAll "b" "third" 0, .poll "first"]
    let t := ((new {}).run ops).run more
    takenFrom ⟨6⟩ (historyOf {} (ops ++ more)) = [] ∧ t.bus.registry = ((new {}).run ops).bus.registry ∧
      (t.step (.poll "second")).2 = .ready (.error .closed) ∧
      (t.step (.onBinding "b" (.write []))).2 = .failed .closed := by
  intro ops more t
  obtain ⟨b, hb⟩ := Option.isSome_iff_exists.1
    (show (((new {}).run ops).bus.bindings.get? ⟨6⟩).isSome = true by decide +kernel)
  have hc : b.isOpen = false := by
    have hmap : (((new {}).run ops).bus.bindings.get? ⟨6⟩).map (·.isOpen) = some false := by decide +kernel
    rw [hb] at hmap
    exact Option.some.inj hmap
  have hthird : ((new {}).run (ops ++ more.take 1)).reads.get? "third" = none := by decide +kernel
  obtain ⟨b', hb', -, htaken, hrefused, hframe⟩ := closed_for_good {} ops more hb hc
  have huses : ((new {}).run ops).UsesOnly ⟨6⟩ more :=
    ⟨.onBinding _ (by decide +kernel), .startAll _ (by decide +kernel) (fun r hr => nomatch hthird.symm.trans hr),
      .poll (suspended_iff.2 (by decide +kernel)), trivial⟩
  have hhead : b'.line.head? = some (.given "second") := by
    have hmap : (t.bus.bindings.get? ⟨6⟩).map (·.line.head?) = some (some (.given "second")) := by decide +kernel
    rw [hb'] at hmap
    exact Option.some.inj hmap
  refine ⟨htaken.trans (by decide +kernel), (congrArg Bus.registry (hframe huses) :), ?_,
    hrefused.asked "b" (.write []) (by decide +kernel)⟩
  rw [hrefused.polled "second" (suspended_iff.2 (by decide +kernel)), if_pos hhead]

end Session
end TopicBus
