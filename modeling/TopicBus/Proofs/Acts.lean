import TopicBus.Proofs.Waiting
import TopicBus.Session.Step
/-!
# What a session does to its bus

An operation of a session is a few calls of the bus: what was asked for, and the closing of bindings whose last holder
is gone.  `Session.acts` lists them for one step and `Session.trail` for a run, and the bus of the session is what they
make of the bus, one after another (`desk_run`).  So whatever each single act keeps, every run keeps.

An act leaves events behind (`Desk.events`), read off its answer: a binding was opened or closed, a chunk was sent, a
part was taken out of a stream.  The history of a run is the events of its acts, in order.
-/
namespace TopicBus

/-- A bus with the reads that are suspended on its bindings. -/
structure Desk where
  bus : Bus
  reads : Table ReadName Reader

/-- One call of the bus. -/
inductive Act
  | create (what : NewObject)
  | destroy (object : Object)
  | shutdown
  | openBinding (options : Options)
  | close (id : BindingId)
  | write (id : BindingId) (data : Bytes)
  | read (id : BindingId) (wanted : Nat)
  | tryRead (id : BindingId) (wanted : Nat)
  | readAll (id : BindingId) (wanted : Nat)
  /-- Begins a read under a name that is not in use. -/
  | start (name : ReadName) (id : BindingId) (wanted : Nat)
  | startAll (name : ReadName) (id : BindingId) (wanted : Nat)
  | poll (name : ReadName)
  | cancel (name : ReadName)
deriving DecidableEq

inductive Event
  | opened (id : BindingId)
  /-- The binding was closed and gave up its references. -/
  | closed (id : BindingId)
  /-- A write of a binding on these terms was answered with success. -/
  | wrote (writer : Terms) (data : Bytes)
  /-- A read took a part out of the stream of the binding. -/
  | took (id : BindingId) (part : Bytes)
deriving DecidableEq

namespace Desk

def new (config : Config) : Desk := ⟨.new config, .empty⟩

/-- What a poll leaves of the read `name` of the binding `id`. -/
def keep (d : Desk) (name : ReadName) (id : BindingId) (polled : Polled) : Desk :=
  ⟨d.bus.put id polled.binding, match polled.progress with
    | .ready _ => d.reads.erase name
    | .pending read => d.reads.insert name ⟨id, read⟩⟩

/-- The read that an act polls, the binding that it reads from and how it stands afterwards. -/
def polled? (d : Desk) : Act → Option (ReadName × BindingId × Polled)
  | .start name id wanted =>
    if (d.reads.get? name).isSome then none
    else (d.bus.bindings.get? id).map (fun b => (name, id, b.startUpTo d.bus.config.chunkLimit name wanted))
  | .startAll name id wanted =>
    if (d.reads.get? name).isSome then none
    else (d.bus.bindings.get? id).map (fun b => (name, id, b.startExact d.bus.config.chunkLimit name wanted))
  | .poll name =>
    (d.reads.get? name).bind (fun r => (d.bus.bindings.get? r.binding).map (fun b =>
      (name, r.binding, b.poll d.bus.config.chunkLimit name r.read)))
  | _ => none

/-- Goes on with a read as far as a poll gets. -/
def advance (d : Desk) : Option (ReadName × BindingId × Polled) → Desk
  | none => d
  | some (name, id, polled) => d.keep name id polled

def cancel (d : Desk) (name : ReadName) : Desk :=
  match d.reads.get? name with
  | none => d
  | some reader =>
    ⟨(d.bus.onBinding reader.binding () (fun b => (b.cancel name, ()))).1, d.reads.erase name⟩

def apply (d : Desk) : Act → Desk
  | .create what => { d with bus := (d.bus.create what).1 }
  | .destroy object => { d with bus := (d.bus.destroy object).1 }
  | .shutdown => { d with bus := d.bus.shutdown }
  | .openBinding options => { d with bus := (d.bus.openBinding options).1 }
  | .close id => { d with bus := (d.bus.close id).1 }
  | .write id data => { d with bus := (d.bus.write id data).1 }
  | .read id wanted => { d with bus := (d.bus.read id wanted).1 }
  | .tryRead id wanted => { d with bus := (d.bus.tryRead id wanted).1 }
  | .readAll id wanted => { d with bus := (d.bus.readAll id wanted).1 }
  | .start name id wanted => d.advance (d.polled? (.start name id wanted))
  | .startAll name id wanted => d.advance (d.polled? (.startAll name id wanted))
  | .poll name => d.advance (d.polled? (.poll name))
  | .cancel name => d.cancel name

/-- An act that goes on with a read leaves what the poll makes of it. -/
theorem apply_of_polled? {d : Desk} {act : Act} {name : ReadName} {id : BindingId} {polled : Polled}
    (h : d.polled? act = some (name, id, polled)) : d.apply act = d.keep name id polled := by
  cases act with
  | start _ _ _ | startAll _ _ _ | poll _ => exact congrArg d.advance h
  | _ => cases h

/-- The parts that a poll took. -/
def tookOf : Option (ReadName × BindingId × Polled) → List Event
  | none => []
  | some (_, id, polled) => polled.parts.map (.took id)

/-- What is to be told of an act, as its answer has it. -/
def events (d : Desk) : Act → List Event
  | .openBinding options =>
    match (d.bus.openBinding options).2 with
    | .ok id => [.opened id]
    | .error _ => []
  | .close id =>
    match (d.bus.close id).2 with
    | .ok () => [.closed id]
    | .error _ => []
  | .write id data =>
    match d.bus.bindings.get? id, (d.bus.write id data).2 with
    | some b, .ok _ => [.wrote b.toTerms data]
    | _, _ => []
  | .read id wanted =>
    match (d.bus.read id wanted).2 with
    | .ok data => [.took id data]
    | .error _ => []
  | .tryRead id wanted =>
    match (d.bus.tryRead id wanted).2 with
    | .ok (some data) => [.took id data]
    | _ => []
  | .readAll id wanted =>
    match d.bus.bindings.get? id with
    | some b => (b.readAll d.bus.config.chunkLimit wanted).parts.map (.took id)
    | none => []
  | .start name id wanted => tookOf (d.polled? (.start name id wanted))
  | .startAll name id wanted => tookOf (d.polled? (.startAll name id wanted))
  | .poll name => tookOf (d.polled? (.poll name))
  | .create _ | .destroy _ | .shutdown | .cancel _ => []

/-- The desk after acts in order. -/
def after (d : Desk) (acts : List Act) : Desk := acts.foldl apply d

/-- The events of acts in order. -/
def history (d : Desk) : List Act → List Event
  | [] => []
  | act :: rest => d.events act ++ (d.apply act).history rest

@[simp] theorem after_nil (d : Desk) : d.after [] = d := rfl

@[simp] theorem after_cons (d : Desk) (act : Act) (acts : List Act) : d.after (act :: acts) = (d.apply act).after acts :=
  rfl

theorem after_append (d : Desk) (acts acts' : List Act) : d.after (acts ++ acts') = (d.after acts).after acts' :=
  List.foldl_append

theorem history_append (d : Desk) (acts acts' : List Act) :
    d.history (acts ++ acts') = d.history acts ++ (d.after acts).history acts' := by
  induction acts generalizing d with
  | nil => rfl
  | cons act acts ih => simp [history, ih]

end Desk

namespace Session

def desk (s : Session) : Desk := ⟨s.bus, s.reads⟩

/-! ## The acts of a step -/

/-- Closing `id` if nobody holds it. -/
def settling (s : Session) (id : BindingId) : List Act := if s.isHeld id then [] else [.close id]

def settling? (s : Session) : Option BindingId → List Act
  | none => []
  | some id => s.settling id

/-- Giving `id` a name lets go of what had the name before. -/
def holding (s : Session) (name : String) (id : BindingId) : List Act :=
  { s with names := s.names.insert name id }.settling? (s.names.get? name)

def cancelling (s : Session) (name : ReadName) : List Act :=
  match s.reads.get? name with
  | none => []
  | some reader => .cancel name :: { s with reads := s.reads.erase name }.settling reader.binding

/-- A read that a poll finished lets go of its binding. -/
def keeping (s : Session) (name : ReadName) (id : BindingId) (polled : Polled) : List Act :=
  match polled.progress with
  | .ready _ => { s with reads := s.reads.erase name }.settling id
  | .pending _ => []

def installing (s : Session) (name : String) (t : Transport) : List Act :=
  { s with transports := s.transports.insert name t }.settling? ((s.transports.get? name).bind (·.slot))

/-- How a read with this answer is made: in one go as `act`, or if it has to wait as a suspended one that `begin`
begins. -/
def unlessWaiting {α : Type} (answer : Except Halt α) (act begin : Act) : Act :=
  match answer with
  | .error (.waits _) => begin
  | _ => act

def bindingActs (s : Session) (id : BindingId) : BindingOp → List Act
  | .read wanted | .readTagged wanted =>
    [unlessWaiting (s.bus.read id wanted).2 (.read id wanted) (.start s.nextCall id wanted)]
  | .readAll wanted =>
    [unlessWaiting (s.bus.readAll id wanted).2 (.readAll id wanted) (.startAll s.nextCall id wanted)]
  | .tryRead wanted => [.tryRead id wanted]
  | .write data | .writeTagged data => [.write id data]
  | .close => [.close id]
  | .flush | .isOpen | .info | .traffic | .readCapacity | .writeCapacity => []

/-- What a transport asks of the binding in its slot, if that is open. -/
def liveActs (s : Session) (t : Transport) (op : BindingOp) : List Act :=
  match s.live? t with
  | none => []
  | some id => s.bindingActs id op

def transportActs (s : Session) (t : Transport) : TransportOp → List Act
  | .openBinding => if (s.live? t).isSome then [] else [.openBinding t.options]
  | .closeBinding =>
    match t.slot with
    | none => []
    | some id => [.close id]
  | .read wanted => s.liveActs t (.read wanted)
  | .readAll wanted => s.liveActs t (.readAll wanted)
  | .write data => s.liveActs t (.write data)
  | .ioRead size => if size = 0 then [] else s.liveActs t (.read size)
  | .ioReadExact size => if size = 0 then [] else s.liveActs t (.readAll size)
  | .ioWrite data => s.liveActs t (.write data)
  | .isOpen | .options | .flush | .ioFlush => []

/-- A call that asks `op` of the binding `id` and lets go of it. -/
def endingActs (s : Session) (id : BindingId) (earlier : List BindingId) (op : BindingOp) : List Act :=
  s.bindingActs id op ++ { (s.stepBinding id op).1 with calls := earlier }.settling id

/-- A poll by the act `act` that leaves the read `name` of the binding `id` as `poll` says. -/
def advancing (s : Session) (name : ReadName) (id : BindingId) (act : Act) (poll : Binding → Polled) : List Act :=
  match s.bus.bindings.get? id with
  | none => []
  | some b => act :: s.keeping name id (poll b)

def acts (s : Session) : Op → List Act
  | .create what | .createTagged what => [.create what]
  | .destroy object | .destroyTagged object => [.destroy object]
  | .shutdown => [.shutdown]
  | .openBinding name options =>
    .openBinding options :: match (s.bus.openBinding options).2 with
      | .error _ => []
      | .ok id => s.holding name id
  | .onBinding name op =>
    match s.names.get? name with
    | none => []
    | some id => s.bindingActs id op
  | .share name other =>
    match s.names.get? name with
    | none => []
    | some id => s.holding other id
  | .drop name => { s with names := s.names.erase name }.settling? (s.names.get? name)
  | .endCall op =>
    match s.calls with
    | [] => []
    | id :: earlier => s.endingActs id earlier op
  | .start name read wanted =>
    match s.names.get? name with
    | none => []
    | some id => s.cancelling read ++ (s.cancel read).advancing read id (.start read id wanted)
        (·.startUpTo s.bus.config.chunkLimit read wanted)
  | .startAll name read wanted =>
    match s.names.get? name with
    | none => []
    | some id => s.cancelling read ++ (s.cancel read).advancing read id (.startAll read id wanted)
        (·.startExact s.bus.config.chunkLimit read wanted)
  | .poll read =>
    match s.reads.get? read with
    | none => []
    | some r => s.advancing read r.binding (.poll read) (·.poll s.bus.config.chunkLimit read r.read)
  | .cancel read => s.cancelling read
  | .newTransport transport options => s.installing transport ⟨options, none⟩
  | .connect transport options =>
    .openBinding options :: match (s.bus.openBinding options).2 with
      | .error _ => []
      | .ok id => s.installing transport ⟨options, some id⟩
  | .onTransport transport op =>
    match s.transports.get? transport with
    | none => []
    | some t => s.transportActs t op
  | .dropTransport transport =>
    { s with transports := s.transports.erase transport }.settling? ((s.transports.get? transport).bind (·.slot))
  | .shareTransport transport name =>
    match (s.transports.get? transport).bind s.live? with
    | none => []
    | some id => s.holding name id
  | .has _ | .kindOf _ | .live | .topicStats _ | .config | .isShutDown | .beginCall _ => []

/-- The acts of operations in order. -/
def trail (s : Session) : List Op → List Act
  | [] => []
  | op :: rest => s.acts op ++ (s.step op).1.trail rest

/-! ## The desk of a session is what its acts make of it -/

theorem desk_settle (s : Session) (id : BindingId) : (s.settle id).desk = s.desk.after (s.settling id) := by
  unfold settle settling
  split <;> rfl

theorem desk_settle? (s : Session) (id : Option BindingId) : (s.settle? id).desk = s.desk.after (s.settling? id) := by
  cases id with
  | none => rfl
  | some id => exact desk_settle s id

theorem desk_hold (s : Session) (name : String) (id : BindingId) :
    (s.hold name id).desk = s.desk.after (s.holding name id) :=
  desk_settle? _ _

theorem desk_install (s : Session) (name : String) (t : Transport) :
    (s.install name t).desk = s.desk.after (s.installing name t) :=
  desk_settle? _ _

theorem desk_cancel (s : Session) (name : ReadName) : (s.cancel name).desk = s.desk.after (s.cancelling name) := by
  unfold cancel cancelling
  cases hr : s.reads.get? name with
  | none => rfl
  | some reader =>
    simp only [desk_settle, Desk.after_cons, Desk.apply, Desk.cancel, show s.desk.reads.get? name = some reader from hr]
    rfl

theorem desk_keep (s : Session) (name : ReadName) (id : BindingId) (polled : Polled) :
    (s.keep name id polled).desk = (s.desk.keep name id polled).after (s.keeping name id polled) := by
  unfold keep keeping Desk.keep
  cases hp : polled.progress with
  | ready r =>
    simp only [desk_settle]
    rfl
  | pending r => rfl

theorem desk_advance (s : Session) (name : ReadName) (id : BindingId) (act : Act) (poll : Binding → Polled)
    (h : ∀ b, s.bus.bindings.get? id = some b → s.desk.polled? act = some (name, id, poll b)) :
    (s.advance name id poll).1.desk = s.desk.after (s.advancing name id act poll) := by
  unfold advance advancing
  cases hb : s.bus.bindings.get? id with
  | none => rfl
  | some b =>
    rw [Desk.after_cons, Desk.apply_of_polled? (h b hb)]
    exact desk_keep s name id (poll b)

theorem get?_reads_cancel (s : Session) (name : ReadName) : (s.cancel name).reads.get? name = none := by
  unfold cancel
  cases hr : s.reads.get? name with
  | none => exact hr
  | some reader =>
    simp only [settle]
    split <;> simp [Table.get?_erase]

theorem config_close (bus : Bus) (id : BindingId) : (bus.close id).1.config = bus.config := by
  unfold Bus.close
  split
  · rfl
  · split <;> rfl

theorem config_settle (s : Session) (id : BindingId) : (s.settle id).bus.config = s.bus.config := by
  unfold settle
  split
  · rfl
  · exact config_close s.bus id

theorem config_cancel (s : Session) (name : ReadName) : (s.cancel name).bus.config = s.bus.config := by
  unfold cancel
  cases s.reads.get? name with
  | none => rfl
  | some reader =>
    rw [config_settle]
    unfold Bus.onBinding
    split <;> rfl

/-- Beginning a read under a name of which a read has just been cancelled. -/
theorem polled?_start (s : Session) {read : ReadName} {id : BindingId} (wanted : Nat) {b : Binding}
    (hb : (s.cancel read).bus.bindings.get? id = some b) :
    (s.cancel read).desk.polled? (.start read id wanted) =
      some (read, id, b.startUpTo s.bus.config.chunkLimit read wanted) := by
  simp only [Desk.polled?, desk, get?_reads_cancel, hb, config_cancel]
  rfl

theorem polled?_startAll (s : Session) {read : ReadName} {id : BindingId} (wanted : Nat) {b : Binding}
    (hb : (s.cancel read).bus.bindings.get? id = some b) :
    (s.cancel read).desk.polled? (.startAll read id wanted) =
      some (read, id, b.startExact s.bus.config.chunkLimit read wanted) := by
  simp only [Desk.polled?, desk, get?_reads_cancel, hb, config_cancel]
  rfl

theorem polled?_poll {s : Session} {read : ReadName} {r : Reader} (hr : s.reads.get? read = some r) {b : Binding}
    (hb : s.bus.bindings.get? r.binding = some b) :
    s.desk.polled? (.poll read) = some (read, r.binding, b.poll s.bus.config.chunkLimit read r.read) := by
  simp only [Desk.polled?, desk, hr, hb, Option.bind_some]
  rfl

/-! ### Reads of calls -/

theorem bound_le {names : List ReadName} {name : ReadName} (h : name ∈ names) :
    name.bound ≤ (names.map ReadName.bound).foldr max 0 := by
  induction h with
  | head => exact Nat.le_max_left ..
  | tail _ _ ih => exact Nat.le_trans ih (Nat.le_max_right ..)

/-- No suspended read has the name that is for the next call that has to wait. -/
theorem get?_nextCall (s : Session) : s.reads.get? s.nextCall = none :=
  Table.get?_eq_none_iff.2 (fun hm => Nat.not_succ_le_self _ (bound_le hm))

/-- The session after a call has begun to wait in the read `read`, which leaves the binding as `b`. -/
def waiting (s : Session) (id : BindingId) (b : Binding) (read : SuspendedRead) : Session :=
  { s with bus := s.bus.put id b, reads := s.reads.insert s.nextCall ⟨id, read⟩ }

/-- What a read of a call comes to, and the call of the bus that it is: it is over, with an effect on the bus alone, or it
waits and is begun as a suspended read. -/
inductive Calls (s : Session) (id : BindingId) (act begin : Act) (answer : Except Fault Bytes → Answer) :
    Session × Answer → Act → Prop
  | once {bus : Bus} (result : Except Fault Bytes) : s.desk.apply act = { s with bus }.desk →
      Calls s id act begin answer ({ s with bus }, answer result) act
  | waits {polled : Polled} {read : SuspendedRead} : s.desk.polled? begin = some (s.nextCall, id, polled) →
      polled.progress = .pending read →
      Calls s id act begin answer (s.waiting id polled.binding read, .blocked) begin

theorem calls_afterRead {s : Session} {id : BindingId} {act begin : Act} {poll : Binding → Option Nat → ReadName → Polled}
    {answer : Except Fault Bytes → Answer} {out : Bus × Except Halt Bytes} (hact : s.desk.apply act = ⟨out.1, s.reads⟩)
    (hwaits : ∀ phase, out.2 = .error (.waits phase) → ∃ b read, s.bus.bindings.get? id = some b ∧
      (poll b s.bus.config.chunkLimit s.nextCall).progress = .pending read ∧
      s.desk.polled? begin = some (s.nextCall, id, poll b s.bus.config.chunkLimit s.nextCall)) :
    s.Calls id act begin answer (s.afterRead id poll answer out) (unlessWaiting out.2 act begin) := by
  obtain ⟨bus, (fault | phase) | data⟩ := out
  · exact .once (.error fault) hact
  · obtain ⟨b, read, hb, hp, hbegin⟩ := hwaits phase rfl
    simp only [afterRead, advance, keep, hb, hp]
    exact .waits hbegin hp
  · exact .once (.ok data) hact

/-- A call that waits in a read is begun as that read. -/
theorem polled?_of_read {s : Session} {id : BindingId} {wanted : Nat} {phase : Phase}
    (h : (s.bus.read id wanted).2 = .error (.waits phase)) : ∃ b read, s.bus.bindings.get? id = some b ∧
      (b.startUpTo s.bus.config.chunkLimit s.nextCall wanted).progress = .pending read ∧
      s.desk.polled? (.start s.nextCall id wanted) =
        some (s.nextCall, id, b.startUpTo s.bus.config.chunkLimit s.nextCall wanted) := by
  obtain ⟨b, hb, hp⟩ := Bus.pending_of_read h
  refine ⟨b, _, hb, hp s.nextCall, ?_⟩
  simp only [Desk.polled?, desk, get?_nextCall, hb]
  rfl

theorem polled?_of_readAll {s : Session} {id : BindingId} {wanted : Nat} {phase : Phase}
    (h : (s.bus.readAll id wanted).2 = .error (.waits phase)) : ∃ b read, s.bus.bindings.get? id = some b ∧
      (b.startExact s.bus.config.chunkLimit s.nextCall wanted).progress = .pending read ∧
      s.desk.polled? (.startAll s.nextCall id wanted) =
        some (s.nextCall, id, b.startExact s.bus.config.chunkLimit s.nextCall wanted) := by
  obtain ⟨b, hb, hp⟩ := Bus.pending_of_readAll h
  refine ⟨b, _, hb, hp s.nextCall, ?_⟩
  simp only [Desk.polled?, desk, get?_nextCall, hb]
  rfl

theorem calls_read (s : Session) (id : BindingId) (wanted : Nat) (answer : Except Fault Bytes → Answer) :
    s.Calls id (.read id wanted) (.start s.nextCall id wanted) answer (s.read id wanted answer)
      (unlessWaiting (s.bus.read id wanted).2 (.read id wanted) (.start s.nextCall id wanted)) :=
  calls_afterRead rfl (fun _ h => polled?_of_read h)

theorem calls_readAll (s : Session) (id : BindingId) (wanted : Nat) (answer : Except Fault Bytes → Answer) :
    s.Calls id (.readAll id wanted) (.startAll s.nextCall id wanted) answer (s.readAll id wanted answer)
      (unlessWaiting (s.bus.readAll id wanted).2 (.readAll id wanted) (.startAll s.nextCall id wanted)) :=
  calls_afterRead rfl (fun _ h => polled?_of_readAll h)

section

variable {s : Session} {id : BindingId} {act begin taken : Act} {answer : Except Fault Bytes → Answer}
  {out : Session × Answer}

theorem Calls.desk (h : s.Calls id act begin answer out taken) : out.1.desk = s.desk.after [taken] := by
  cases h with
  | once _ hdesk => exact hdesk.symm
  | waits hbegin hp =>
    rw [Desk.after_cons, Desk.apply_of_polled? hbegin]
    simp only [Desk.keep, hp]
    rfl

/-- The session after something was asked of a binding: nothing but the bus is changed, unless a read has to wait. -/
inductive Asked (s : Session) : Session → Prop
  | once (bus : Bus) : Asked s { s with bus }
  | waits (id : BindingId) (b : Binding) (read : SuspendedRead) : Asked s (s.waiting id b read)

theorem Calls.asked (h : s.Calls id act begin answer out taken) : s.Asked out.1 := by
  cases h with
  | once _ _ => exact .once _
  | waits _ _ => exact .waits id _ _

variable {s' : Session}

theorem Asked.names (h : s.Asked s') : s'.names = s.names := by cases h <;> rfl

theorem Asked.transports (h : s.Asked s') : s'.transports = s.transports := by cases h <;> rfl

theorem Asked.calls (h : s.Asked s') : s'.calls = s.calls := by cases h <;> rfl

end

theorem asked_stepBinding (s : Session) (id : BindingId) (op : BindingOp) : s.Asked (s.stepBinding id op).1 := by
  cases op with
  | read _ | readTagged _ => exact (calls_read s id _ _).asked
  | readAll _ => exact (calls_readAll s id _ _).asked
  | tryRead _ | write _ | writeTagged _ | close => exact .once _
  | flush | isOpen | info | traffic | readCapacity | writeCapacity => exact .once s.bus

theorem desk_stepBinding (s : Session) (id : BindingId) (op : BindingOp) :
    (s.stepBinding id op).1.desk = s.desk.after (s.bindingActs id op) := by
  cases op with
  | read _ | readTagged _ => exact (calls_read s id _ _).desk
  | readAll _ => exact (calls_readAll s id _ _).desk
  | tryRead _ | write _ | writeTagged _ | close => rfl
  | flush | isOpen | info | traffic | readCapacity | writeCapacity => rfl

theorem desk_onLive (s : Session) (t : Transport) (closed : Answer) (f : BindingId → Session × Answer)
    (op : BindingOp) (h : ∀ id, (f id).1.desk = s.desk.after (s.bindingActs id op)) :
    (s.onLive t closed f).1.desk = s.desk.after (s.liveActs t op) := by
  unfold onLive liveActs
  cases s.live? t with
  | none => rfl
  | some id => exact h id

theorem desk_openTransport (s : Session) (name : String) (t : Transport) :
    (s.openTransport name t).1.desk =
      s.desk.after (if (s.live? t).isSome then [] else [.openBinding t.options]) := by
  unfold openTransport
  split
  · rfl
  · rw [Desk.after_cons, Desk.apply]
    rcases hb : s.bus.openBinding t.options with ⟨bus, fault | id⟩
    · simp only [show s.desk.bus.openBinding t.options = _ from hb]
      rfl
    · simp only [show s.desk.bus.openBinding t.options = _ from hb]
      rfl

theorem desk_stepTransport (s : Session) (name : String) (t : Transport) (op : TransportOp) :
    (s.stepTransport name t op).1.desk = s.desk.after (s.transportActs t op) := by
  cases op with
  | openBinding => exact desk_openTransport s name t
  | closeBinding =>
    simp only [stepTransport, closeTransport, transportActs]
    cases t.slot <;> rfl
  | isOpen => rfl
  | options => rfl
  | read wanted => exact desk_onLive s t _ _ _ (fun id => desk_stepBinding s id _)
  | readAll wanted => exact desk_onLive s t _ _ _ (fun id => desk_stepBinding s id _)
  | write data => exact desk_onLive s t _ _ _ (fun id => desk_stepBinding s id _)
  | flush =>
    simp only [stepTransport, onLive]
    split <;> rfl
  | ioRead size =>
    simp only [stepTransport, transportActs]
    split
    · rfl
    · exact desk_onLive s t _ _ (.read size) (fun id => (calls_read s id size _).desk)
  | ioReadExact size =>
    simp only [stepTransport, transportActs]
    split
    · rfl
    · exact desk_onLive s t _ _ (.readAll size) (fun id => (calls_readAll s id size _).desk)
  | ioWrite data => exact desk_onLive s t _ _ (.write data) (fun id => rfl)
  | ioFlush =>
    simp only [stepTransport, onLive]
    split <;> rfl

theorem desk_endCall (s : Session) (id : BindingId) (earlier : List BindingId) (op : BindingOp) :
    (s.endCall id earlier op).1.desk = s.desk.after (s.endingActs id earlier op) := by
  rw [endCall, endingActs, desk_settle, Desk.after_append, ← desk_stepBinding]
  rfl

theorem desk_openBinding (s : Session) (o : Options) :
    s.desk.apply (.openBinding o) = { s with bus := (s.bus.openBinding o).1 }.desk := rfl

/-- **The desk after a step** is the desk after the acts of the step. -/
theorem desk_step (s : Session) (op : Op) : (s.step op).1.desk = s.desk.after (s.acts op) := by
  cases op with
  | create what => rfl
  | createTagged what => rfl
  | destroy object => rfl
  | destroyTagged object => rfl
  | has object => rfl
  | kindOf user => rfl
  | live => rfl
  | topicStats topic => rfl
  | config => rfl
  | shutdown => rfl
  | isShutDown => rfl
  | openBinding name options =>
    simp only [step, acts, Desk.after_cons, desk_openBinding]
    rcases hb : s.bus.openBinding options with ⟨bus, fault | id⟩
    · rfl
    · exact desk_hold { s with bus } name id
  | onBinding name op =>
    simp only [step, acts, named]
    cases s.names.get? name with
    | none => rfl
    | some id => exact desk_stepBinding s id op
  | share name other =>
    simp only [step, acts, named]
    cases s.names.get? name with
    | none => rfl
    | some id => exact desk_hold s other id
  | drop name =>
    simp only [step, acts, named]
    cases hn : s.names.get? name with
    | none => rfl
    | some id =>
      simp only [drop, hn]
      exact desk_settle? _ _
  | beginCall name =>
    simp only [step, acts, named]
    cases s.names.get? name <;> rfl
  | endCall op =>
    simp only [step, acts]
    cases s.calls with
    | nil => rfl
    | cons id earlier => exact desk_endCall s id earlier op
  | start name read wanted =>
    simp only [step, acts, named]
    cases s.names.get? name with
    | none => rfl
    | some id =>
      simp only [Desk.after_append, ← desk_cancel]
      exact desk_advance _ _ _ _ _ (fun b hb => polled?_start s wanted hb)
  | startAll name read wanted =>
    simp only [step, acts, named]
    cases s.names.get? name with
    | none => rfl
    | some id =>
      simp only [Desk.after_append, ← desk_cancel]
      exact desk_advance _ _ _ _ _ (fun b hb => polled?_startAll s wanted hb)
  | poll read =>
    simp only [step, acts, named]
    cases hr : s.reads.get? read with
    | none => rfl
    | some r =>
      exact desk_advance _ _ _ _ _ (fun b hb => polled?_poll hr hb)
  | cancel read =>
    simp only [step, acts, named]
    cases hr : s.reads.get? read with
    | none => simp [cancelling, hr]
    | some r => exact desk_cancel s read
  | newTransport transport options => exact desk_install s transport ⟨options, none⟩
  | connect transport options =>
    simp only [step, acts, connect, Desk.after_cons, desk_openBinding]
    rcases hb : s.bus.openBinding options with ⟨bus, fault | id⟩
    · rfl
    · exact desk_install { s with bus } transport ⟨options, some id⟩
  | onTransport transport op =>
    simp only [step, acts, named]
    cases s.transports.get? transport with
    | none => rfl
    | some t => exact desk_stepTransport s transport t op
  | dropTransport transport =>
    simp only [step, acts, named]
    cases ht : s.transports.get? transport with
    | none => rfl
    | some t =>
      simp only [dropTransport, ht]
      exact desk_settle? _ _
  | shareTransport transport name =>
    simp only [step, acts, named]
    cases s.transports.get? transport with
    | none => rfl
    | some t =>
      simp only [onLive, Option.bind_some]
      cases s.live? t with
      | none => rfl
      | some id => exact desk_hold s name id

/-- **The desk after a run** is the desk after the acts of the run. -/
theorem desk_run (s : Session) (ops : List Op) : (s.run ops).desk = s.desk.after (s.trail ops) := by
  induction ops generalizing s with
  | nil => rfl
  | cons op ops ih =>
    rw [trail, Desk.after_append, ← desk_step]
    exact ih _

theorem run_append (s : Session) (ops rest : List Op) : s.run (ops ++ rest) = (s.run ops).run rest := List.foldl_append

theorem trail_append (s : Session) (ops ops' : List Op) :
    s.trail (ops ++ ops') = s.trail ops ++ (s.run ops).trail ops' := by
  induction ops generalizing s with
  | nil => rfl
  | cons op ops ih =>
    rw [List.cons_append, trail, ih, trail, List.append_assoc]
    rfl

/-- What happened in a run of a new session. -/
def historyOf (config : Config) (ops : List Op) : List Event := (Desk.new config).history ((new config).trail ops)

end Session
end TopicBus
