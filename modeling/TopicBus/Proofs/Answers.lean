import TopicBus.Proofs.Moves
/-!
# The history is what the users were told

The history of a run is read off the calls of the bus.  Here it is compared with the answers, which is all that users
see.  The writes in it are those that were answered with success, each of them once and in order (`write?_trail`).
What an operation took out of the stream of a binding was given to its user, at once or when the exact read that keeps
it finishes (`takenFrom_acts`); only what an exact read took before it failed or was cancelled is never given.  No
operation takes from another binding than the one that it is asked of (`takenFrom_acts_of_ne`).  A law about histories
is a law about answers with all this beside it (`Told`).
-/
namespace TopicBus

/-! ## What is asked and what is answered -/

/-- The terms and the payload of a write. -/
def Event.write? : Event → Option (Terms × Bytes)
  | .wrote writer data => some (writer, data)
  | _ => none

def BindingOp.payload? : BindingOp → Option Bytes
  | .write data | .writeTagged data => some data
  | _ => none

def TransportOp.payload? : TransportOp → Option Bytes
  | .write data | .ioWrite data => some data
  | _ => none

/-- What an operation is to write. -/
def Op.payload? : Op → Option Bytes
  | .onBinding _ op | .endCall op => op.payload?
  | .onTransport _ op => op.payload?
  | _ => none

/-- The suspended read that an operation polls. -/
def Op.polls? : Op → Option ReadName
  | .start _ read _ | .startAll _ read _ | .poll read => some read
  | _ => none

/-- The suspended read that an operation goes on with. -/
def Op.resumes? : Op → Option ReadName
  | .poll read => some read
  | _ => none

namespace Answer

/-- Whether an answer says that a write was done. -/
def isTransferred : Answer → Bool
  | .count _ => true
  | .transfer outcome => !outcome.isFailed
  | _ => false

def isFailed : Answer → Bool
  | .failed _ | .ioFailed _ | .ready (.error _) => true
  | _ => false

/-- The bytes that the user is given. -/
def given : Answer → Bytes
  | .bytes data | .perhaps (some data) | .taggedRead _ data | .ready (.ok data) => data
  | .filled n buffer => buffer.take n
  | _ => []

theorem given_of_isFailed {answer : Answer} (h : answer.isFailed = true) : answer.given = [] := by
  cases answer with
  | failed _ | ioFailed _ => rfl
  | ready result =>
    cases result with
    | ok data => cases h
    | error fault => rfl
  | _ => cases h

theorem isTransferred_ofExcept (r : Except Fault Nat) : (ofExcept .count r).isTransferred = r.isOk := by
  cases r <;> rfl

theorem isTransferred_ofIo (r : Except Fault Nat) : (ofIo .count r).isTransferred = r.isOk := by
  cases r <;> rfl

theorem isTransferred_transfer (r : Except Fault Nat) (requested : Nat) :
    (transfer (.ofExcept r requested)).isTransferred = r.isOk := by
  cases r with
  | error fault => rfl
  | ok n =>
    simp only [Transfer.ofExcept, Transfer.of]
    split <;> rfl

section

variable {α : Type} {answer : α → Answer}

theorem given_ofExcept (r : Except Fault α) (h : ∀ a, (answer a).given = []) : (ofExcept answer r).given = [] := by
  cases r with
  | ok a => exact h a
  | error fault => rfl

theorem given_ofIo (r : Except Fault α) (h : ∀ a, (answer a).given = []) : (ofIo answer r).given = [] := by
  cases r with
  | ok a => exact h a
  | error fault => rfl

theorem given_about {tell : Binding → Answer} (b : Option Binding) (h : ∀ b, (tell b).given = []) :
    (about tell b).given = [] := by
  cases b with
  | some b => exact h b
  | none => rfl

end

end Answer

/-- The bytes that a suspended read took and keeps for its user. -/
def SuspendedRead.gathered (read : SuspendedRead) : Bytes :=
  match read.goal with
  | .upTo => []
  | .exactly gathered => gathered

def Progress.gathered : Progress → Bytes
  | .ready _ => []
  | .pending read => read.gathered

namespace Session

/-- The binding that an operation is asked of. -/
def asks? (s : Session) : Op → Option BindingId
  | .onBinding name _ | .start name _ _ | .startAll name _ _ => s.names.get? name
  | .endCall _ => s.calls.head?
  | .poll read => (s.reads.get? read).map (·.binding)
  | .onTransport transport _ => (s.transports.get? transport).bind s.live?
  | _ => none

/-- The write that an operation asks for. -/
def writing? (s : Session) (op : Op) : Option (Terms × Bytes) :=
  op.payload?.bind (fun data => ((s.asks? op).bind s.bus.bindings.get?).map (fun b => (b.toTerms, data)))

/-- The write that an operation asked for, if it was answered with success. -/
def written (s : Session) (op : Op) : List (Terms × Bytes) :=
  if (s.step op).2.isTransferred then (s.writing? op).toList else []

/-- The writes that were answered with success, in order. -/
def writtenIn (s : Session) : List Op → List (Terms × Bytes)
  | [] => []
  | op :: rest => s.written op ++ (s.step op).1.writtenIn rest

/-- What a suspended read keeps for its user, if there is one. -/
def gathered (s : Session) (read : Option ReadName) : Bytes := (read.bind s.reads.get?).elim [] (·.read.gathered)

end Session

/-! ## What is asked of no binding -/

namespace Session

variable {s : Session} {act : Act}

/-- What is not asked of a binding moves no bytes. -/
theorem still_of_asks?_eq_none {op : Op} (h : s.asks? op = none) (ha : act ∈ s.acts op) : act.moves = false := by
  cases op with
  | create _ | createTagged _ | destroy _ | destroyTagged _ | shutdown =>
    rw [List.mem_singleton.1 ha]
    rfl
  | has _ | kindOf _ | live | topicStats _ | config | isShutDown | beginCall _ => cases ha
  | openBinding _ _ | connect _ _ =>
    rcases List.mem_cons.1 ha with rfl | ha
    · rfl
    · split at ha
      · cases ha
      · exact still_of_settling? ha
  | share _ _ | shareTransport _ _ =>
    simp only [acts] at ha
    split at ha
    · cases ha
    · exact still_of_settling? ha
  | drop _ | newTransport _ _ | dropTransport _ => exact still_of_settling? ha
  | cancel _ => exact still_of_cancelling ha
  | onBinding name _ | start name _ _ | startAll name _ _ =>
    have hn : s.names.get? name = none := h
    simp only [acts, hn] at ha
    cases ha
  | endCall _ =>
    have hc : s.calls = [] := List.head?_eq_none_iff.1 h
    simp only [acts, hc] at ha
    cases ha
  | poll read =>
    have hr : s.reads.get? read = none := Option.map_eq_none_iff.1 h
    simp only [acts, hr] at ha
    cases ha
  | onTransport transport op =>
    simp only [acts] at ha
    split at ha
    · cases ha
    · rename_i t ht
      rcases of_mem_transportActs ha with ⟨-, rfl⟩ | ⟨-, _, -, rfl⟩ | ⟨_, id, -, hlive, -⟩
      · rfl
      · rfl
      · rw [asks?, ht, Option.bind_some, hlive] at h
        cases h

end Session

/-! ## Writes -/

namespace Desk

variable {d : Desk}

/-- Acts that are no writes are told of as none. -/
theorem write?_history {acts : List Act} (h : ∀ act ∈ acts, ∀ id data, act ≠ .write id data) :
    (d.history acts).filterMap Event.write? = [] := by
  refine List.filterMap_eq_nil_iff.2 (fun e he => ?_)
  obtain ⟨act, ha, d', hd'⟩ := exists_act_of_mem_history he
  cases leaves_of_mem_events hd' with
  | wrote id writer data => exact absurd rfl (h _ ha id data)
  | opened options id => rfl
  | closed id => rfl
  | took id part hm => rfl

theorem write?_of_still {acts : List Act} (h : ∀ act ∈ acts, act.moves = false) :
    (d.history acts).filterMap Event.write? = [] :=
  write?_history (fun act ha id data he => by
    have hstill := h act ha
    rw [he] at hstill
    cases hstill)

/-- A write is told of if it succeeds. -/
theorem write?_write (d : Desk) (id : BindingId) (data : Bytes) :
    (d.history [.write id data]).filterMap Event.write? =
      if (d.bus.write id data).2.isOk then ((d.bus.bindings.get? id).map (fun b => (b.toTerms, data))).toList else [] := by
  rw [history, history, List.append_nil]
  simp only [events]
  cases d.bus.bindings.get? id with
  | none => simp
  | some b => cases (d.bus.write id data).2 <;> rfl

end Desk

namespace Session

variable {s : Session} {id : BindingId}

theorem write?_bindingActs (s : Session) (id : BindingId) (op : BindingOp) :
    (s.desk.history (s.bindingActs id op)).filterMap Event.write? =
      if (s.stepBinding id op).2.isTransferred then
        (op.payload?.bind (fun data => (s.bus.bindings.get? id).map (fun b => (b.toTerms, data)))).toList
      else [] := by
  cases op with
  | write data =>
    rw [bindingActs, Desk.write?_write, stepBinding, Answer.isTransferred_ofExcept]
    rfl
  | writeTagged data =>
    rw [bindingActs, Desk.write?_write, stepBinding, Answer.isTransferred_transfer]
    rfl
  | read _ | readTagged _ | readAll _ =>
    refine (Desk.write?_history (fun act ha => ?_)).trans (ite_self []).symm
    rcases of_mem_bindingActs ha with hact | hact
    all_goals
      obtain rfl := Option.some.inj hact
      simp
  | tryRead _ | close =>
    rw [Desk.write?_history (fun act ha => by rw [List.mem_singleton.1 ha]; simp)]
    exact (ite_self []).symm
  | flush | isOpen | info | traffic | readCapacity | writeCapacity => exact (ite_self []).symm

theorem write?_endingActs (s : Session) (id : BindingId) (earlier : List BindingId) (op : BindingOp) :
    (s.desk.history (s.endingActs id earlier op)).filterMap Event.write? =
      if (s.endCall id earlier op).2.isTransferred then
        (op.payload?.bind (fun data => (s.bus.bindings.get? id).map (fun b => (b.toTerms, data)))).toList
      else [] := by
  rw [endingActs, Desk.history_append, List.filterMap_append, Desk.write?_of_still (fun act => still_of_settling),
    List.append_nil]
  exact write?_bindingActs s id op

theorem write?_liveActs (s : Session) (t : Transport) (closed : Answer) (op : BindingOp)
    (f : BindingId → Session × Answer) (hc : closed.isTransferred = false)
    (hf : ∀ id, (f id).2.isTransferred = (s.stepBinding id op).2.isTransferred) :
    (s.desk.history (s.liveActs t op)).filterMap Event.write? =
      if (s.onLive t closed f).2.isTransferred then
        (op.payload?.bind (fun data => ((s.live? t).bind s.bus.bindings.get?).map (fun b => (b.toTerms, data)))).toList
      else [] := by
  unfold liveActs onLive
  cases s.live? t with
  | none =>
    simp only [hc]
    rfl
  | some id =>
    simp only [hf]
    exact write?_bindingActs s id op

theorem write?_transportActs (s : Session) (name : String) (t : Transport) (op : TransportOp) :
    (s.desk.history (s.transportActs t op)).filterMap Event.write? =
      if (s.stepTransport name t op).2.isTransferred then
        (op.payload?.bind (fun data => ((s.live? t).bind s.bus.bindings.get?).map (fun b => (b.toTerms, data)))).toList
      else [] := by
  -- what is asked of a binding by something else than a write
  have hlive : ∀ bop : BindingOp, bop.payload? = none → (s.desk.history (s.liveActs t bop)).filterMap Event.write? = [] :=
    fun bop hbop => by
      rw [write?_liveActs s t .done bop (s.stepBinding · bop) rfl (fun _ => rfl), hbop]
      exact ite_self []
  cases op with
  | write data => exact write?_liveActs s t _ _ _ rfl (fun _ => rfl)
  | ioWrite data =>
    refine write?_liveActs s t _ (.write data) _ rfl (fun id => ?_)
    rw [Answer.isTransferred_ofIo, stepBinding, Answer.isTransferred_ofExcept]
  | read _ | readAll _ => exact (hlive _ rfl).trans (ite_self []).symm
  | ioRead size | ioReadExact size =>
    refine Eq.trans ?_ (ite_self []).symm
    simp only [transportActs]
    split
    · rfl
    · exact hlive _ rfl
  | openBinding | closeBinding =>
    refine Eq.trans (Desk.write?_of_still (fun act ha => ?_)) (ite_self []).symm
    simp only [transportActs] at ha
    split at ha
    · cases ha
    · rw [List.mem_singleton.1 ha]
      rfl
  | isOpen | options | flush | ioFlush => exact (ite_self []).symm

theorem write?_advancing (s : Session) (name : ReadName) (id : BindingId) {act : Act} (poll : Binding → Polled)
    (h : ∀ id data, act ≠ .write id data) :
    (s.desk.history (s.advancing name id act poll)).filterMap Event.write? = [] := by
  refine Desk.write?_history (fun act' ha => ?_)
  unfold advancing at ha
  split at ha
  · cases ha
  · rcases List.mem_cons.1 ha with rfl | ha
    · exact h
    · rintro id' data rfl
      cases still_of_keeping ha

/-- A read begun under a name after the one that had it was cancelled. -/
theorem write?_starting (s : Session) (name : ReadName) (id : BindingId) {act : Act} (poll : Binding → Polled)
    (h : ∀ id data, act ≠ .write id data) :
    (s.desk.history (s.cancelling name ++ (s.cancel name).advancing name id act poll)).filterMap Event.write? = [] := by
  rw [Desk.history_append, List.filterMap_append, Desk.write?_of_still (fun act => still_of_cancelling), ← desk_cancel,
    write?_advancing _ _ _ _ h]
  rfl

/-- **The writes of a step** are what it was asked to write, if the answer is success. -/
theorem write?_acts (s : Session) (op : Op) : (s.desk.history (s.acts op)).filterMap Event.write? = s.written op := by
  cases hasks : s.asks? op with
  | none =>
    have hw : s.writing? op = none := by
      simp only [writing?, hasks, Option.bind_none, Option.map_none, Option.bind_fun_none]
    rw [Desk.write?_of_still (fun act => still_of_asks?_eq_none hasks), written, hw]
    exact (ite_self []).symm
  | some id =>
    cases op with
    | onBinding name op =>
      have hn : s.names.get? name = some id := hasks
      simp only [acts, written, writing?, asks?, Op.payload?, step, named, hn]
      exact write?_bindingActs s id op
    | endCall op =>
      obtain ⟨earlier, hc⟩ := List.head?_eq_some_iff.1 (show s.calls.head? = some id from hasks)
      simp only [acts, written, writing?, asks?, Op.payload?, step, hc]
      exact write?_endingActs s id earlier op
    | onTransport transport op =>
      obtain ⟨t, ht, -⟩ := Option.bind_eq_some_iff.1 hasks
      simp only [acts, written, writing?, asks?, Op.payload?, step, named, ht]
      exact write?_transportActs s transport t op
    | start name read wanted | startAll name read wanted =>
      have hn : s.names.get? name = some id := hasks
      simp only [acts, hn]
      exact (write?_starting s read _ _ (fun _ _ => by simp)).trans (ite_self []).symm
    | poll read =>
      obtain ⟨r, hr, -⟩ := Option.map_eq_some_iff.1 hasks
      simp only [acts, hr]
      exact (write?_advancing s read _ _ (fun _ _ => by simp)).trans (ite_self []).symm
    | _ => cases hasks

theorem write?_trail (s : Session) (ops : List Op) :
    (s.desk.history (s.trail ops)).filterMap Event.write? = s.writtenIn ops := by
  induction ops generalizing s with
  | nil => rfl
  | cons op ops ih => rw [trail, Desk.history_append, List.filterMap_append, write?_acts, ← desk_step, ih, writtenIn]

end Session

/-! ## Reads -/

theorem ExactRead.Outcome.bytes_of_ok {σ ε : Type} {o : Outcome σ ε} {atEnd : ε} {data : Bytes}
    (h : o.toExcept atEnd = .ok data) : o.bytes = data := by
  unfold toExcept at h
  split at h
  · exact Except.ok.inj h
  · cases h
  · cases h

namespace Binding

theorem gathered_settleUpTo (wanted : Nat) (out : Binding × Except Halt Bytes) :
    (settleUpTo wanted out).parts.flatten =
      (Answer.ofProgress (settleUpTo wanted out).progress).given ++ (settleUpTo wanted out).progress.gathered := by
  obtain ⟨b, (fault | phase) | data⟩ := out
  · rfl
  · rfl
  · rfl

/-- An exact read that does not fail gives all that it gathered, or keeps it. -/
theorem gathered_settleExact (gathered : Bytes) (wanted : Nat) (out : ExactRead.Outcome Binding Halt)
    (h : (Answer.ofProgress (settleExact gathered wanted out).progress).isFailed = false) :
    gathered ++ (settleExact gathered wanted out).parts.flatten =
      (Answer.ofProgress (settleExact gathered wanted out).progress).given ++
        (settleExact gathered wanted out).progress.gathered := by
  obtain ⟨b, parts, ending⟩ := out
  cases ending with
  | filled => exact (List.append_nil _).symm
  | noProgress => cases h
  | stopped cause =>
    cases cause with
    | failed fault => cases h
    | waits phase => rfl

theorem gathered_poll (b : Binding) (limit : Option Nat) (name : ReadName) (read : SuspendedRead)
    (h : (Answer.ofProgress (b.poll limit name read).progress).isFailed = false) :
    read.gathered ++ (b.poll limit name read).parts.flatten =
      (Answer.ofProgress (b.poll limit name read).progress).given ++ (b.poll limit name read).progress.gathered := by
  obtain ⟨goal, wanted, phase⟩ := read
  cases goal with
  | upTo => exact gathered_settleUpTo wanted _
  | exactly gathered => exact gathered_settleExact gathered wanted _ h

end Binding

namespace Session

variable {s : Session} {id : BindingId} {name : ReadName}

/-! ### Suspended reads -/

theorem reads_settle (s : Session) (id : BindingId) : (s.settle id).reads = s.reads := by
  unfold settle
  split <;> rfl

theorem gathered_keep (s : Session) (name : ReadName) (id : BindingId) (polled : Polled) :
    (s.keep name id polled).gathered (some name) = polled.progress.gathered := by
  unfold keep gathered
  cases polled.progress with
  | ready result =>
    simp only [reads_settle, Option.bind_some, Table.get?_erase, if_pos]
    rfl
  | pending read =>
    simp only [Option.bind_some, Table.get?_insert_self]
    rfl

/-- What was taken by a poll is what it gave; letting go of the binding takes nothing. -/
theorem takenFrom_advancing {b : Binding} {act : Act} {poll : Binding → Polled} (hb : s.bus.bindings.get? id = some b)
    (hact : s.desk.events act = (poll b).parts.map (.took id)) :
    takenFrom id (s.desk.history (s.advancing name id act poll)) = (poll b).parts.flatten := by
  simp only [advancing, hb]
  rw [Desk.history, takenFrom_append, Desk.takenFrom_of_still (fun act => still_of_keeping), List.append_nil, hact,
    takenFrom_took]

/-- A poll gives what it took with what was kept before, or keeps it. -/
theorem gathered_advance (s : Session) (name : ReadName) (id : BindingId) {act : Act} {poll : Binding → Polled}
    {kept : Bytes} (hact : ∀ b, s.bus.bindings.get? id = some b → s.desk.events act = (poll b).parts.map (.took id))
    (hkept : s.gathered (some name) = kept)
    (hpoll : ∀ b, s.bus.bindings.get? id = some b → (Answer.ofProgress (poll b).progress).isFailed = false →
      kept ++ (poll b).parts.flatten = (Answer.ofProgress (poll b).progress).given ++ (poll b).progress.gathered)
    (h : (s.advance name id poll).2.isFailed = false) :
    kept ++ takenFrom id (s.desk.history (s.advancing name id act poll)) =
      (s.advance name id poll).2.given ++ (s.advance name id poll).1.gathered (some name) := by
  cases hb : s.bus.bindings.get? id with
  | none =>
    simp only [advance, advancing, hb]
    rw [hkept]
    exact List.append_nil kept
  | some b =>
    rw [takenFrom_advancing hb (hact b hb)]
    simp only [advance, hb] at h ⊢
    rw [gathered_keep]
    exact hpoll b hb h

theorem gathered_cancel (s : Session) (name : ReadName) : (s.cancel name).gathered (some name) = [] := by
  rw [gathered, Option.bind_some, get?_reads_cancel]
  rfl

/-! ### Reads of calls -/

/-- Nothing is kept under a name that was not in use, unless a read has begun under it. -/
theorem gathered_nextCall {s' : Session} (h : s'.reads = s.reads) : s'.gathered (some s.nextCall) = [] := by
  rw [gathered, Option.bind_some, h, get?_nextCall]
  rfl

/-- What leaves no read suspended gives all that it takes. -/
theorem append_gathered {s' : Session} (h : s'.reads = s.reads) (given : Bytes) :
    given = given ++ s'.gathered (some s.nextCall) := by
  rw [gathered_nextCall h, List.append_nil]

/-- What a call took before it began to wait is kept for it. -/
theorem takenFrom_waits {b : Binding} {begin : Act} {poll : Binding → Polled} {read : SuspendedRead}
    (hb : s.bus.bindings.get? id = some b) (hp : (poll b).progress = .pending read)
    (hbegin : s.desk.events begin = (poll b).parts.map (.took id))
    (hparts : (poll b).parts.flatten = (Answer.ofProgress (poll b).progress).given ++ (poll b).progress.gathered) :
    takenFrom id (s.desk.history [begin]) = (s.advance s.nextCall id poll).1.gathered (some s.nextCall) := by
  simp only [advance, hb]
  rw [gathered_keep, Desk.history, Desk.history, List.append_nil, hbegin, takenFrom_took, hparts, hp]
  rfl

/-- A read gives what it takes, whatever form its answer has. -/
theorem takenFrom_read (s : Session) (id : BindingId) (wanted : Nat) {answer : Except Fault Bytes → Answer}
    (hok : ∀ data, (answer (.ok data)).given = data) (herror : ∀ fault, (answer (.error fault)).given = []) :
    takenFrom id (s.desk.history
        [unlessWaiting (s.bus.read id wanted).2 (.read id wanted) (.start s.nextCall id wanted)]) =
      (s.read id wanted answer).2.given ++ (s.read id wanted answer).1.gathered (some s.nextCall) := by
  rcases hr : s.bus.read id wanted with ⟨bus, (fault | phase) | data⟩
  · simp only [unlessWaiting, read, hr, afterRead, herror, Desk.history, Desk.events, desk]
    exact append_gathered rfl []
  · obtain ⟨b, _, hb, hp, hbegin⟩ := polled?_of_read (congrArg Prod.snd hr)
    simp only [unlessWaiting, read, hr, afterRead]
    exact takenFrom_waits hb hp (congrArg Desk.tookOf hbegin) (Binding.gathered_settleUpTo wanted _)
  · simp only [unlessWaiting, read, hr, afterRead, hok, Desk.history, Desk.events, desk]
    refine Eq.trans ?_ (append_gathered rfl data)
    simp [takenFrom, Event.taken]

/-- An exact read gives what it takes, unless it fails. -/
theorem takenFrom_readAll (s : Session) (id : BindingId) (wanted : Nat) {answer : Except Fault Bytes → Answer}
    (hok : ∀ data, (answer (.ok data)).given = data) (herror : ∀ fault, (answer (.error fault)).isFailed = true)
    (h : (s.readAll id wanted answer).2.isFailed = false) :
    takenFrom id (s.desk.history
        [unlessWaiting (s.bus.readAll id wanted).2 (.readAll id wanted) (.startAll s.nextCall id wanted)]) =
      (s.readAll id wanted answer).2.given ++ (s.readAll id wanted answer).1.gathered (some s.nextCall) := by
  rcases hr : s.bus.readAll id wanted with ⟨bus, (fault | phase) | data⟩
  · rw [readAll, hr] at h
    exact absurd (h.symm.trans (herror fault)) Bool.false_ne_true
  · obtain ⟨b, _, hb, hp, hbegin⟩ := polled?_of_readAll (congrArg Prod.snd hr)
    simp only [unlessWaiting, readAll, hr, afterRead]
    refine takenFrom_waits hb hp (congrArg Desk.tookOf hbegin) (Binding.gathered_settleExact [] wanted _ ?_)
    rw [← Binding.startExact, hp]
    rfl
  · cases hb : s.bus.bindings.get? id with
    | none =>
      simp only [Bus.readAll, Bus.onBinding, hb] at hr
      cases hr
    | some b =>
      have hdata := hr
      simp only [Bus.readAll, Bus.onBinding, hb] at hdata
      have hdata := ExactRead.Outcome.bytes_of_ok (congrArg Prod.snd hdata)
      simp only [unlessWaiting, readAll, hr, afterRead, hok, Desk.history, Desk.events, desk, hb, List.append_nil]
      rw [takenFrom_took]
      exact hdata.trans (append_gathered rfl data)

theorem takenFrom_write (s : Session) (id id' : BindingId) (data : Bytes) :
    takenFrom id (s.desk.history [.write id' data]) = [] :=
  (congrArg (takenFrom id) (List.append_nil _)).trans (Desk.takenFrom_of_not_reads rfl id)

theorem takenFrom_bindingActs (s : Session) (id : BindingId) (op : BindingOp)
    (h : (s.stepBinding id op).2.isFailed = false) :
    takenFrom id (s.desk.history (s.bindingActs id op)) =
      (s.stepBinding id op).2.given ++ (s.stepBinding id op).1.gathered (some s.nextCall) := by
  cases op with
  | read wanted => exact takenFrom_read s id wanted (fun _ => rfl) (fun _ => rfl)
  | readTagged wanted => exact takenFrom_read s id wanted (fun _ => rfl) (fun _ => rfl)
  | readAll wanted => exact takenFrom_readAll s id wanted (fun _ => rfl) (fun _ => rfl) h
  | tryRead wanted =>
    refine Eq.trans ?_ (append_gathered rfl _)
    simp only [bindingActs, stepBinding, Desk.history, Desk.events, desk]
    rcases (s.bus.tryRead id wanted).2 with fault | (none | data)
    · rfl
    · rfl
    · simp [takenFrom, Event.taken, Answer.ofExcept, Answer.given]
  | write data =>
    exact ((takenFrom_write s id id data).trans (Answer.given_ofExcept _ (fun _ => rfl)).symm).trans
      (append_gathered rfl _)
  | writeTagged data => exact (takenFrom_write s id id data).trans (append_gathered rfl _)
  | close =>
    refine Eq.trans ?_ (append_gathered rfl _)
    rw [bindingActs, Desk.takenFrom_of_still (fun act ha => by rw [List.mem_singleton.1 ha]; rfl)]
    exact (Answer.given_ofExcept _ (fun _ => rfl)).symm
  | flush => exact (Answer.given_ofExcept _ (fun _ => rfl)).symm.trans (append_gathered rfl _)
  | isOpen => exact append_gathered rfl _
  | info | traffic | readCapacity | writeCapacity =>
    exact (Answer.given_about _ (fun _ => rfl)).symm.trans (append_gathered rfl _)

theorem takenFrom_endingActs (s : Session) (id : BindingId) (earlier : List BindingId) (op : BindingOp)
    (h : (s.endCall id earlier op).2.isFailed = false) :
    takenFrom id (s.desk.history (s.endingActs id earlier op)) =
      (s.endCall id earlier op).2.given ++ (s.endCall id earlier op).1.gathered (some s.nextCall) := by
  rw [endingActs, Desk.history_append, takenFrom_append, Desk.takenFrom_of_still (fun act => still_of_settling),
    List.append_nil, gathered, endCall, reads_settle]
  exact takenFrom_bindingActs s id op h

theorem takenFrom_transportActs (s : Session) (name : String) {t : Transport} (op : TransportOp)
    (hlive : s.live? t = some id) (h : (s.stepTransport name t op).2.isFailed = false) :
    takenFrom id (s.desk.history (s.transportActs t op)) =
      (s.stepTransport name t op).2.given ++ (s.stepTransport name t op).1.gathered (some s.nextCall) := by
  cases op with
  | read wanted =>
    simp only [stepTransport, transportActs, onLive, liveActs, hlive] at h ⊢
    exact takenFrom_bindingActs s id _ h
  | readAll wanted =>
    simp only [stepTransport, transportActs, onLive, liveActs, hlive] at h ⊢
    exact takenFrom_bindingActs s id _ h
  | write data =>
    simp only [stepTransport, transportActs, onLive, liveActs, hlive] at h ⊢
    exact takenFrom_bindingActs s id _ h
  | flush =>
    simp only [stepTransport, onLive, hlive] at h ⊢
    exact takenFrom_bindingActs s id .flush h
  | ioRead size =>
    simp only [stepTransport, transportActs] at h ⊢
    split
    · exact append_gathered rfl _
    · simp only [onLive, liveActs, hlive]
      exact takenFrom_read s id size (fun data => List.take_left' rfl) (fun _ => rfl)
  | ioReadExact size =>
    simp only [stepTransport, transportActs] at h ⊢
    split
    · exact append_gathered rfl _
    · rename_i hsize
      simp only [onLive, liveActs, hlive, if_neg hsize] at h ⊢
      exact takenFrom_readAll s id size (fun _ => rfl) (fun _ => rfl) h
  | ioWrite data =>
    simp only [stepTransport, transportActs, onLive, liveActs, hlive]
    exact ((takenFrom_write s id id data).trans (Answer.given_ofIo _ (fun _ => rfl)).symm).trans (append_gathered rfl _)
  | ioFlush =>
    simp only [stepTransport, onLive, hlive]
    exact (Answer.given_ofIo _ (fun _ => rfl)).symm.trans (append_gathered rfl _)
  | openBinding =>
    simp only [stepTransport, transportActs, openTransport, hlive]
    exact append_gathered rfl []
  | closeBinding =>
    simp only [stepTransport, transportActs, closeTransport, (Option.filter_eq_some_iff.1 hlive).1]
    refine Eq.trans ?_ (append_gathered rfl _)
    rw [Desk.takenFrom_of_still (fun act ha => by rw [List.mem_singleton.1 ha]; rfl)]
    exact (Answer.given_ofExcept _ (fun _ => rfl)).symm
  | isOpen | options => exact append_gathered rfl _

/-- **What an operation took was given to its user**, together with what was kept before, or is kept.  The operation
must not have failed: an exact read that fails gives nothing of what it took. -/
theorem takenFrom_acts (s : Session) {op : Op} (hasks : s.asks? op = some id) (h : (s.step op).2.isFailed = false) :
    s.gathered op.resumes? ++ takenFrom id (s.desk.history (s.acts op)) =
      (s.step op).2.given ++ (s.step op).1.gathered (s.reader? op) := by
  cases op with
  | onBinding name op =>
    have hn : s.names.get? name = some id := hasks
    simp only [acts, step, named, hn] at h ⊢
    exact takenFrom_bindingActs s id op h
  | endCall op =>
    cases hc : s.calls with
    | nil =>
      simp only [asks?, hc] at hasks
      cases hasks
    | cons id' earlier =>
      simp only [asks?, hc] at hasks
      obtain rfl := Option.some.inj hasks
      simp only [acts, step, hc] at h ⊢
      exact takenFrom_endingActs s id' earlier op h
  | onTransport transport op =>
    obtain ⟨t, ht, hlive⟩ := Option.bind_eq_some_iff.1 hasks
    simp only [acts, step, named, ht] at h ⊢
    exact takenFrom_transportActs s transport op hlive h
  | start name read wanted =>
    have hn : s.names.get? name = some id := hasks
    simp only [acts, step, named, hn] at h ⊢
    rw [Desk.history_append, takenFrom_append, Desk.takenFrom_of_still (fun act => still_of_cancelling), ← desk_cancel]
    refine gathered_advance (s.cancel read) read id (fun b hb => ?_) (gathered_cancel s read) (fun b _ _ => ?_) h
    · rw [Desk.events, polled?_start s wanted hb]
      rfl
    · exact Binding.gathered_settleUpTo wanted _
  | startAll name read wanted =>
    have hn : s.names.get? name = some id := hasks
    simp only [acts, step, named, hn] at h ⊢
    rw [Desk.history_append, takenFrom_append, Desk.takenFrom_of_still (fun act => still_of_cancelling), ← desk_cancel]
    refine gathered_advance (s.cancel read) read id (fun b hb => ?_) (gathered_cancel s read) (fun b _ hf => ?_) h
    · rw [Desk.events, polled?_startAll s wanted hb]
      rfl
    · exact Binding.gathered_settleExact [] wanted _ hf
  | poll read =>
    obtain ⟨r, hr, rfl⟩ := Option.map_eq_some_iff.1 hasks
    simp only [acts, step, named, hr] at h ⊢
    have hkept : s.gathered (some read) = r.read.gathered := by rw [gathered, Option.bind_some, hr, Option.elim_some]
    rw [Op.resumes?, hkept]
    refine gathered_advance s read r.binding (fun b hb => ?_) hkept (fun b _ hf => ?_) h
    · rw [Desk.events, polled?_poll hr hb]
      rfl
    · exact Binding.gathered_poll b _ read r.read hf
  | _ => cases hasks

end Session

/-! ### Reads from other bindings -/

namespace Desk

variable {d : Desk} {act : Act} {id id' : BindingId}

/-- The binding that an act reads from. -/
def source? (d : Desk) : Act → Option BindingId
  | .read id _ | .tryRead id _ | .readAll id _ | .start _ id _ | .startAll _ id _ => some id
  | .poll name => (d.reads.get? name).map (·.binding)
  | _ => none

theorem source?_of_polled? {name : ReadName} {polled : Polled} (h : d.polled? act = some (name, id, polled)) :
    d.source? act = some id := by
  cases act with
  | start _ _ _ | startAll _ _ _ =>
    simp only [polled?] at h
    split at h
    · cases h
    · obtain ⟨b, -, he⟩ := Option.map_eq_some_iff.1 h
      cases he
      rfl
  | poll name =>
    obtain ⟨r, hr, hb⟩ := Option.bind_eq_some_iff.1 h
    obtain ⟨b, -, he⟩ := Option.map_eq_some_iff.1 hb
    cases he
    exact Option.map_eq_some_iff.2 ⟨r, hr, rfl⟩
  | _ => cases h

theorem binding?_of_mem_tookOf {e : Event} (he : e ∈ tookOf (d.polled? act)) : e.binding? = d.source? act := by
  rcases hp : d.polled? act with _ | ⟨name, id, polled⟩
  · rw [hp] at he
    cases he
  · rw [hp] at he
    rw [Binding.binding?_took he, source?_of_polled? hp]

/-- What a read tells of happened to the binding that it reads from. -/
theorem binding?_of_mem_events {e : Event} (hr : act.reads = true) (he : e ∈ d.events act) :
    e.binding? = d.source? act := by
  cases act with
  | read _ _ | tryRead _ _ =>
    simp only [events] at he
    split at he
    · rw [List.mem_singleton.1 he]
      rfl
    · cases he
  | readAll _ _ =>
    simp only [events] at he
    split at he
    · exact Binding.binding?_took he
    · cases he
  | start _ _ _ | startAll _ _ _ | poll _ => exact binding?_of_mem_tookOf he
  | _ => cases hr

/-- **An act takes from no stream** but that of the binding it reads from. -/
theorem takenFrom_of_ne (h : d.source? act ≠ some id) : takenFrom id (d.events act) = [] := by
  cases hr : act.reads with
  | false => exact takenFrom_of_not_reads hr id
  | true => exact takenFrom_of_others (fun e he => binding?_of_mem_events hr he ▸ h)

/-- Acts that read from another binding, or from none. -/
theorem takenFrom_elsewhere {acts : List Act} (hne : id' ≠ id)
    (h : ∀ act ∈ acts, ∀ d : Desk, d.source? act = some id' ∨ d.source? act = none) :
    takenFrom id (d.history acts) = [] := by
  induction acts generalizing d with
  | nil => rfl
  | cons act acts ih =>
    rw [history, takenFrom_append, ih (fun act ha => h act (List.mem_cons_of_mem _ ha)), List.append_nil]
    refine takenFrom_of_ne (fun hs => ?_)
    rcases h act List.mem_cons_self d with he | he
    · exact hne (Option.some.inj (he.symm.trans hs))
    · cases he.symm.trans hs

end Desk

namespace Session

variable {s : Session} {id id' : BindingId} {act : Act}

theorem source?_of_makes {op : BindingOp} {call : ReadName} (h : op.Makes call id act) (d : Desk) :
    d.source? act = some id ∨ d.source? act = none := by
  cases h with
  | once h =>
    cases op with
    | read _ | readTagged _ | readAll _ | tryRead _ =>
      cases h
      exact Or.inl rfl
    | write _ | writeTagged _ | close =>
      cases h
      exact Or.inr rfl
    | _ => cases h
  | waiting h =>
    cases op with
    | read _ | readTagged _ | readAll _ =>
      cases h
      exact Or.inl rfl
    | _ => cases h

/-- **Nothing is taken from a binding** by what is not asked of it. -/
theorem takenFrom_acts_of_ne (s : Session) {op : Op} (h : s.asks? op ≠ some id) :
    takenFrom id (s.desk.history (s.acts op)) = [] := by
  cases hasks : s.asks? op with
  | none => exact Desk.takenFrom_of_still (fun act => still_of_asks?_eq_none hasks) id
  | some id' =>
    have hne : id' ≠ id := fun he => h (hasks.trans (congrArg some he))
    cases op with
    | onBinding name op =>
      have hn : s.names.get? name = some id' := hasks
      simp only [acts, hn]
      exact Desk.takenFrom_elsewhere hne (fun act ha => source?_of_makes (of_mem_bindingActs ha))
    | endCall op =>
      obtain ⟨earlier, hc⟩ := List.head?_eq_some_iff.1 (show s.calls.head? = some id' from hasks)
      simp only [acts, hc]
      refine Desk.takenFrom_elsewhere hne (fun act ha d => ?_)
      rcases of_mem_endingActs ha with hact | ⟨_, rfl⟩
      · exact source?_of_makes hact d
      · exact Or.inr rfl
    | onTransport transport op =>
      obtain ⟨t, ht, hlive⟩ := Option.bind_eq_some_iff.1 hasks
      simp only [acts, ht]
      refine Desk.takenFrom_elsewhere hne (fun act ha d => ?_)
      rcases of_mem_transportActs ha with ⟨-, rfl⟩ | ⟨-, _, -, rfl⟩ | ⟨_, id₁, -, hlive₁, hact⟩
      · exact Or.inr rfl
      · exact Or.inr rfl
      · obtain rfl := Option.some.inj (hlive.symm.trans hlive₁)
        exact source?_of_makes hact d
    | start name read wanted | startAll name read wanted =>
      have hn : s.names.get? name = some id' := hasks
      simp only [acts, hn]
      refine Desk.takenFrom_elsewhere hne (fun act ha d => ?_)
      rcases List.mem_append.1 ha with ha | ha
      · rcases of_mem_cancelling ha with rfl | ⟨_, rfl⟩ <;> exact Or.inr rfl
      · rcases of_mem_advancing ha with rfl | ⟨_, rfl⟩
        · exact Or.inl rfl
        · exact Or.inr rfl
    | poll read =>
      obtain ⟨r, hr, rfl⟩ := Option.map_eq_some_iff.1 hasks
      simp only [acts, hr, advancing]
      split
      · rfl
      · rw [Desk.history, takenFrom_append, Desk.takenFrom_of_still (fun act => still_of_keeping), List.append_nil]
        exact Desk.takenFrom_of_ne h
    | _ => cases hasks

end Session

/-! ## Runs -/

namespace Session

theorem historyOf_append (config : Config) (ops ops' : List Op) : historyOf config (ops ++ ops') =
    historyOf config ops ++ ((new config).run ops).desk.history (((new config).run ops).trail ops') := by
  rw [historyOf, trail_append, Desk.history_append, desk_run]
  rfl

theorem historyOf_concat (config : Config) (ops : List Op) (op : Op) : historyOf config (ops ++ [op]) =
    historyOf config ops ++ ((new config).run ops).desk.history (((new config).run ops).acts op) := by
  rw [historyOf_append, trail, trail, List.append_nil]

/-- What became of the bytes `taken` that an operation took out of the stream of the binding `id`. -/
structure HandsOver (s : Session) (op : Op) (id : BindingId) (taken : Bytes) : Prop where
  /-- The user who asked has them, behind what was kept for him, or they are kept for him. -/
  given : s.asks? op = some id → (s.step op).2.isFailed = false →
    s.gathered op.resumes? ++ taken = (s.step op).2.given ++ (s.step op).1.gathered (s.reader? op)
  /-- Nothing was taken by what was not asked of that binding. -/
  others : s.asks? op ≠ some id → taken = []

/-- The history of a run tells of the binding `id` what the users were told. -/
structure Told (config : Config) (ops : List Op) (id : BindingId) : Prop where
  /-- Its writes are those that were answered with success, in order. -/
  writes : (historyOf config ops).filterMap Event.write? = (new config).writtenIn ops
  /-- What it says to be taken by an operation was handed over by that operation. -/
  reads : ∀ before op after, ops = before ++ op :: after → ∃ taken,
    takenFrom id (historyOf config (before ++ [op])) = takenFrom id (historyOf config before) ++ taken ∧
      ((new config).run before).HandsOver op id taken

/-- **The history of a run is what the users were told.** -/
theorem told_historyOf (config : Config) (ops : List Op) (id : BindingId) : Told config ops id where
  writes := write?_trail (new config) ops
  reads before op after _ := ⟨_, by rw [historyOf_concat, takenFrom_append], takenFrom_acts _, takenFrom_acts_of_ne _⟩

end Session
end TopicBus
