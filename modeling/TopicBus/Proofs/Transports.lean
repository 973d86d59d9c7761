import TopicBus.Proofs.Answers
import TopicBus.Proofs.Moves
import TopicBus.Proofs.Opening
import TopicBus.Proofs.ReadLock
/-!
# The life of a transport

A transport is open while the binding in its slot is, whoever else holds that binding and whoever closes it.  Open, it
is that binding (`Session.Live`); not open, it does nothing but be opened, which is to open a binding as its options say
(`Session.Lapsed`).

An opening puts a new binding into the slot, and from then on no binding from before it comes to stand there
(`Session.Renewed`).  A new binding has an empty stream, so that all that a transport gives was written since it was
opened last (`Session.given_since`).
-/
namespace TopicBus

/-- What an operation of a transport is to the binding in the slot, if it is more than an answer of the transport. -/
def TransportOp.onBinding? : TransportOp → Option BindingOp
  | .read wanted => some (.read wanted)
  | .readAll wanted => some (.readAll wanted)
  | .write data => some (.write data)
  | .flush => some .flush
  | _ => none

namespace Desk

variable {d : Desk} {id : BindingId} {b : Binding}

/-- **What a call takes** out of the stream of an open binding is the front of that stream. -/
theorem takenFrom_front (h : d.Good) (hb : d.bus.bindings.get? id = some b) (ho : b.isOpen = true) (act : Act) :
    takenFrom id (d.events act) <+: b.stream := by
  cases hr : act.reads with
  | false =>
    rw [takenFrom_of_not_reads hr]
    exact List.nil_prefix
  | true =>
    obtain ⟨_, b', hb', hmoves, -⟩ := moves_apply h hb hr
    obtain ⟨b'', hb'', hmet⟩ := (deed_apply h act).met hb
    obtain rfl := Option.some.inj (hb'.symm.trans hb'')
    have hbytes := hmet.bytes (hmoves.isOpen.trans ho)
    rw [sentTo_of_reads hr, List.append_nil] at hbytes
    exact ⟨b'.stream, hbytes⟩

end Desk

namespace Session

variable {s : Session} {name : String} {t : Transport} {id : BindingId}

/-! ## Open or not -/

theorem live?_eq_some_iff : s.live? t = some id ↔ t.slot = some id ∧ s.bus.isOpen id = true := by
  rw [live?, Option.filter_eq_some_iff]

/-- **A transport is open** if and only if there is an open binding in its slot. -/
theorem isSome_live?_iff : (s.live? t).isSome = true ↔
    ∃ id b, t.slot = some id ∧ s.bus.bindings.get? id = some b ∧ b.isOpen = true := by
  simp only [Option.isSome_iff_exists, live?_eq_some_iff, Bus.isOpen_iff]
  constructor
  · rintro ⟨id, hslot, b, hb, ho⟩
    exact ⟨id, b, hslot, hb, ho⟩
  · rintro ⟨id, b, hslot, hb, ho⟩
    exact ⟨id, hslot, b, hb, ho⟩

/-- What comes of asking the transport `t`, which is under a name, while the binding `id` in its slot is open. -/
structure Live (s : Session) (name : String) (t : Transport) (id : BindingId) : Prop where
  opens : s.step (.onTransport name .openBinding) = (s, .failed .alreadyOpen)
  /-- The binding is closed, and the slot is emptied. -/
  closes : (s.bus.close id).2 = .ok () ∧ s.step (.onTransport name .closeBinding) =
    ({ s with bus := (s.bus.close id).1, transports := s.transports.insert name { t with slot := none } }, .done)
  /-- Result and effect are those of the operation on the binding in the slot. -/
  passes : ∀ op bop, op.onBinding? = some bop → s.step (.onTransport name op) = s.stepBinding id bop

/-- What comes of asking the transport `t`, which is under a name, while it is not open. -/
structure Lapsed (s : Session) (name : String) (t : Transport) : Prop where
  /-- Opening it is to open a binding on its options: one with a new key, from which there is nothing to be read. -/
  opens : ∀ id, (s.bus.openBinding t.options).2 = .ok id →
    s.step (.onTransport name .openBinding) = ({ s with
      bus := (s.bus.openBinding t.options).1
      transports := s.transports.insert name { t with slot := some id } }, .done) ∧
    s.bus.Admits t.options ∧ (∃ kind, s.bus.Joined (s.bus.openBinding t.options).1 t.options id kind) ∧
    ∃ b, (s.bus.openBinding t.options).1.bindings.get? id = some b ∧ b.isOpen = true ∧ b.stream = []
  refused : ∀ fault, (s.bus.openBinding t.options).2 = .error fault →
    s.step (.onTransport name .openBinding) = (s, .failed fault) ∧ (s.bus.openBinding t.options).1 = s.bus
  /-- A binding that was closed elsewhere leaves the slot. -/
  closes : s.step (.onTransport name .closeBinding) =
    ({ s with transports := s.transports.insert name { t with slot := none } }, .failed .alreadyClosed)
  refuses : ∀ op bop, op.onBinding? = some bop → s.step (.onTransport name op) = (s, .failed .closed)

theorem live_of_live? (ht : s.transports.get? name = some t) (hlive : s.live? t = some id) : s.Live name t id := by
  obtain ⟨hslot, ho⟩ := live?_eq_some_iff.1 hlive
  obtain ⟨b, hb, hbo⟩ := Bus.isOpen_iff.1 ho
  have hclose : (s.bus.close id).2 = .ok () := by simp only [Bus.close, hb, hbo, if_true]
  refine ⟨?_, ⟨hclose, ?_⟩, fun op bop hop => ?_⟩
  · simp only [step, named, ht, stepTransport, openTransport, hlive, Option.isSome_some, if_true]
    rfl
  · simp only [step, named, ht, stepTransport, closeTransport, hslot, hclose]
    rfl
  · cases op <;> cases hop
    all_goals simp only [step, named, ht, stepTransport, onLive, hlive]

theorem openTransport_of_ok {bus : Bus} (hlive : s.live? t = none)
    (hout : s.bus.openBinding t.options = (bus, .ok id)) : s.openTransport name t =
      ({ s with bus, transports := s.transports.insert name { t with slot := some id } }, .ok ()) := by
  simp only [openTransport, hlive, Option.isSome_none, Bool.false_eq_true, if_false, hout]

theorem openTransport_of_error {fault : Fault} (hlive : s.live? t = none)
    (hout : s.bus.openBinding t.options = (s.bus, .error fault)) : s.openTransport name t = (s, .error fault) := by
  simp only [openTransport, hlive, Option.isSome_none, Bool.false_eq_true, if_false, hout]

theorem lapsed_of_live? (hgood : s.desk.Good) (ht : s.transports.get? name = some t) (hlive : s.live? t = none) :
    s.Lapsed name t := by
  refine ⟨fun id hok => ?_, fun fault herror => ?_, ?_, fun op bop hop => ?_⟩
  · have hadmits := Bus.admits_of_openBinding hok
    obtain ⟨hid, kind, hjoined⟩ := hgood.agrees.joined_openBinding hadmits
    obtain rfl := Except.ok.inj (hid.symm.trans hok)
    obtain ⟨b, hb, -, -, ho, ⟨side, hside, hpending, hqueue, -⟩, -⟩ := hjoined.binding
    have hstream : b.stream = [] := by simp [Binding.stream, hside, ReadSide.stream, hpending, hqueue]
    refine ⟨?_, hadmits, ⟨kind, hjoined⟩, b, hb, ho, hstream⟩
    simp only [step, named, ht, stepTransport, openTransport_of_ok hlive (Prod.ext rfl hok)]
    rfl
  · have hsame : (s.bus.openBinding t.options).1 = s.bus := Bus.openBinding_of_error (Prod.ext rfl herror)
    refine ⟨?_, hsame⟩
    simp only [step, named, ht, stepTransport, openTransport_of_error hlive (Prod.ext hsame herror)]
    rfl
  · have hclosed : ∀ id, t.slot = some id → s.bus.close id = (s.bus, .error .alreadyClosed) := fun id hslot => by
      rcases Bus.close_cases s.bus id with ⟨-, he⟩ | ⟨b, hb, ho, -⟩
      · exact he
      · cases hlive.symm.trans (live?_eq_some_iff.2 ⟨hslot, Bus.isOpen_iff.2 ⟨b, hb, ho⟩⟩)
    cases hslot : t.slot with
    | none =>
      have hself : { t with slot := none } = t := by rw [← hslot]
      simp only [step, named, ht, stepTransport, closeTransport, hslot, hself, Table.insert_self ht]
      rfl
    | some id =>
      simp only [step, named, ht, stepTransport, closeTransport, hslot, hclosed id hslot]
      rfl
  · cases op <;> cases hop
    all_goals simp only [step, named, ht, stepTransport, onLive, hlive]

/-! ## What a transport gives -/

theorem bindingActs_eq (s : Session) (id : BindingId) (op : BindingOp) :
    s.bindingActs id op = [] ∨ ∃ act, s.bindingActs id op = [act] := by
  cases op with
  | read _ | readTagged _ | readAll _ | tryRead _ | write _ | writeTagged _ | close => exact .inr ⟨_, rfl⟩
  | flush | isOpen | info | traffic | readCapacity | writeCapacity => exact .inl rfl

/-- An operation of a transport is one call of the bus at the most. -/
theorem transportActs_eq (s : Session) (t : Transport) (op : TransportOp) :
    s.transportActs t op = [] ∨ ∃ act, s.transportActs t op = [act] := by
  have hlive : ∀ bop, s.liveActs t bop = [] ∨ ∃ act, s.liveActs t bop = [act] := fun bop => by
    unfold liveActs
    split
    · exact .inl rfl
    · exact bindingActs_eq s _ bop
  cases op with
  | read _ | readAll _ | write _ | ioWrite _ => exact hlive _
  | ioRead _ | ioReadExact _ =>
    simp only [transportActs]
    split
    · exact .inl rfl
    · exact hlive _
  | openBinding =>
    simp only [transportActs]
    split
    · exact .inl rfl
    · exact .inr ⟨_, rfl⟩
  | closeBinding =>
    simp only [transportActs]
    split
    · exact .inl rfl
    · exact .inr ⟨_, rfl⟩
  | isOpen | options | flush | ioFlush => exact .inl rfl

/-- **What a transport gives** is the front of the stream of the binding in its slot. -/
theorem given_front (h : s.desk.Good) {b : Binding} (hlive : s.live? t = some id)
    (hb : s.bus.bindings.get? id = some b) (op : TransportOp) : (s.stepTransport name t op).2.given <+: b.stream := by
  cases hf : (s.stepTransport name t op).2.isFailed with
  | true =>
    rw [Answer.given_of_isFailed hf]
    exact List.nil_prefix
  | false =>
    -- what it took it gives, unless it waits with what it has gathered
    refine List.IsPrefix.trans ⟨_, (takenFrom_transportActs s name op hlive hf).symm⟩ ?_
    rcases transportActs_eq s t op with hacts | ⟨act, hacts⟩
    · rw [hacts]
      exact List.nil_prefix
    · rw [hacts, Desk.history, Desk.history, List.append_nil]
      have ho : b.isOpen = true := (Bus.isOpen_of_get? hb).symm.trans (live?_eq_some_iff.1 hlive).2
      exact Desk.takenFrom_front h hb ho act

/-- A transport that is not open gives nothing. -/
theorem given_of_lapsed (hlive : s.live? t = none) (op : TransportOp) : (s.stepTransport name t op).2.given = [] := by
  cases op with
  | openBinding | closeBinding => exact Answer.given_ofExcept _ (fun _ => rfl)
  | isOpen | options => rfl
  | read _ | readAll _ | write _ | flush | ioWrite _ | ioFlush =>
    simp only [stepTransport, onLive, hlive]
    rfl
  | ioRead _ | ioReadExact _ =>
    simp only [stepTransport, onLive, hlive]
    split <;> rfl

/-! ## What comes to stand in a slot -/

/-- What is in the slot of the transport under a name. -/
def slot? (s : Session) (name : String) : Option BindingId := (s.transports.get? name).bind (·.slot)

/-- What is in a slot of `s'` was there in `s`, or it has the key that the bus of `s` gives to an opening. -/
def Refills (s s' : Session) : Prop :=
  ∀ name id, s'.slot? name = some id → s.slot? name = some id ∨ ∃ o, (s.bus.openBinding o).2 = .ok id

section

variable {s' : Session}

theorem Refills.of_transports (h : s'.transports = s.transports) : s.Refills s' := fun name id hslot => by
  rw [slot?, h] at hslot
  exact .inl hslot

theorem Refills.refl (s : Session) : s.Refills s := .of_transports rfl

theorem Refills.of_insert (h : s'.transports = s.transports.insert name t)
    (ht : ∀ id, t.slot = some id → ∃ o, (s.bus.openBinding o).2 = .ok id) : s.Refills s' := fun name' id hslot => by
  obtain ⟨t', ht', hid⟩ := Option.bind_eq_some_iff.1 hslot
  rw [h] at ht'
  rcases Table.of_get?_insert ht' with ⟨-, rfl⟩ | ⟨-, hold⟩
  · exact .inr (ht id hid)
  · exact .inl (Option.bind_eq_some_iff.2 ⟨t', hold, hid⟩)

theorem Refills.of_emptied (h : s'.transports = s.transports.insert name t) (ht : t.slot = none) : s.Refills s' :=
  .of_insert h (fun _ hslot => absurd (hslot.symm.trans ht) (Option.some_ne_none _))

theorem Refills.of_erase (h : s'.transports = s.transports.erase name) : s.Refills s' := fun name' id hslot => by
  obtain ⟨t', ht', hid⟩ := Option.bind_eq_some_iff.1 hslot
  rw [h] at ht'
  exact .inl (Option.bind_eq_some_iff.2 ⟨t', (Table.of_get?_erase ht').2, hid⟩)

theorem Refills.of_named {κ α : Type} [DecidableEq κ] {table : Table κ α} {key : κ} {f : α → Session × Answer}
    (hf : ∀ a, s.Refills (f a).1) : s.Refills (s.named table key f).1 := by
  unfold named
  split
  · exact .refl s
  · exact hf _

end

theorem transports_settle (s : Session) (id : BindingId) : (s.settle id).transports = s.transports := by
  unfold settle
  split <;> rfl

theorem transports_settle? (s : Session) (x : Option BindingId) : (s.settle? x).transports = s.transports := by
  cases x with
  | none => rfl
  | some id => exact transports_settle s id

theorem transports_hold (s : Session) (name : String) (id : BindingId) : (s.hold name id).transports = s.transports :=
  transports_settle? _ _

theorem transports_cancel (s : Session) (read : ReadName) : (s.cancel read).transports = s.transports := by
  unfold cancel
  split
  · rfl
  · exact transports_settle _ _

theorem transports_advance (s : Session) (read : ReadName) (id : BindingId) (poll : Binding → Polled) :
    (s.advance read id poll).1.transports = s.transports := by
  unfold advance keep
  split
  · rfl
  · split
    · exact transports_settle _ _
    · rfl

theorem transports_endCall (s : Session) (id : BindingId) (earlier : List BindingId) (op : BindingOp) :
    (s.endCall id earlier op).1.transports = s.transports :=
  (transports_settle _ _).trans (asked_stepBinding s id op).transports

theorem refills_openTransport (s : Session) (name : String) (t : Transport) : s.Refills (s.openTransport name t).1 := by
  unfold openTransport
  split
  · exact .refl s
  · split
    · exact .of_transports rfl
    · rename_i bus id hout
      refine .of_insert rfl (fun id' hslot => ⟨t.options, ?_⟩)
      rw [hout, ← Option.some.inj hslot]

theorem refills_closeTransport (s : Session) (name : String) (t : Transport) :
    s.Refills (s.closeTransport name t).1 := by
  unfold closeTransport
  split
  · exact .refl s
  · exact .of_emptied rfl rfl

theorem refills_connect (s : Session) (name : String) (o : Options) : s.Refills (s.connect name o).1 := by
  unfold connect
  split
  · exact .of_transports rfl
  · rename_i bus id hout
    refine .of_insert (transports_settle? _ _) (fun id' hslot => ⟨o, ?_⟩)
    rw [hout, ← Option.some.inj hslot]

theorem refills_stepTransport (s : Session) (name : String) (t : Transport) (op : TransportOp) :
    s.Refills (s.stepTransport name t op).1 := by
  by_cases hop : op.passesOn = true
  · exact .of_transports (asked_stepTransport s name t hop).transports
  · cases op with
    | openBinding => exact refills_openTransport s name t
    | closeBinding => exact refills_closeTransport s name t
    | _ => exact absurd rfl hop

/-- **A slot is filled by an opening alone**, whatever the operation. -/
theorem refills_step (s : Session) (op : Op) : s.Refills (s.step op).1 := by
  cases op with
  | create _ | createTagged _ | destroy _ | destroyTagged _ | has _ | kindOf _ | live | topicStats _ | config | shutdown
  | isShutDown => exact .of_transports rfl
  | openBinding name options =>
    simp only [step]
    split
    · exact .of_transports rfl
    · exact .of_transports (transports_hold _ _ _)
  | onBinding name op => exact .of_named (fun id => .of_transports (asked_stepBinding s id op).transports)
  | share name other => exact .of_named (fun id => .of_transports (transports_hold s other id))
  | drop name => exact .of_named (fun _ => .of_transports (transports_settle? _ _))
  | beginCall name => exact .of_named (fun _ => .of_transports rfl)
  | endCall op =>
    simp only [step]
    split
    · exact .refl s
    · exact .of_transports (transports_endCall _ _ _ _)
  | start name read wanted | startAll name read wanted =>
    exact .of_named (fun id => .of_transports ((transports_advance _ _ _ _).trans (transports_cancel s read)))
  | poll read => exact .of_named (fun r => .of_transports (transports_advance _ _ _ _))
  | cancel read => exact .of_named (fun _ => .of_transports (transports_cancel s read))
  | newTransport transport options => exact .of_emptied (transports_settle? _ _) rfl
  | connect transport options => exact refills_connect s transport options
  | onTransport transport op => exact .of_named (fun t => refills_stepTransport s transport t op)
  | dropTransport transport => exact .of_named (fun _ => .of_erase (transports_settle? _ _))
  | shareTransport transport name =>
    refine .of_named (fun t => ?_)
    unfold onLive
    split
    · exact .refl s
    · exact .of_transports (transports_hold _ _ _)

/-! ## Since the last opening -/

/-- Nothing that was on the bus `past` is in the slot of the transport under a name. -/
structure Renewed (s : Session) (past : Bus) (name : String) : Prop where
  /-- Bindings stay on a bus. -/
  kept : ∀ id, s.bus.bindings.get? id = none → past.bindings.get? id = none
  slot : ∀ id, s.slot? name = some id → past.bindings.get? id = none

variable {past : Bus}

theorem get?_of_step (h : s.desk.Good) {op : Op} (hn : (s.step op).1.bus.bindings.get? id = none) :
    s.bus.bindings.get? id = none := by
  cases hb : s.bus.bindings.get? id with
  | none => rfl
  | some b =>
    obtain ⟨b', hb', -⟩ := Desk.met_after h hb (s.acts op)
    rw [← desk_step] at hb'
    cases hn.symm.trans hb'

/-- A slot is filled with a binding whose key is new. -/
theorem renewed_step (h : s.desk.Good) (hr : s.Renewed past name) (op : Op) : (s.step op).1.Renewed past name where
  kept id hn := hr.kept id (get?_of_step h hn)
  slot id hslot := by
    rcases refills_step s op name id hslot with hbefore | ⟨o, hok⟩
    · exact hr.slot id hbefore
    · exact hr.kept id (h.agrees.get?_of_openBinding hok)

theorem renewed_run (h : s.desk.Good) (hr : s.Renewed past name) (ops : List Op) : (s.run ops).Renewed past name := by
  induction ops generalizing s with
  | nil => exact hr
  | cons op ops ih => exact ih (good_step h op) (renewed_step h hr op)

/-- **An opening renews the slot**, whatever was in it. -/
theorem renewed_of_opening (h : s.desk.Good) (ht : s.transports.get? name = some t) (hlive : s.live? t = none)
    (hok : (s.bus.openBinding t.options).2 = .ok id) :
    (s.step (.onTransport name .openBinding)).1.Renewed s.bus name where
  kept _ hn := get?_of_step h hn
  slot id' hslot := by
    rw [((lapsed_of_live? h ht hlive).opens id hok).1, slot?, Table.get?_insert_self] at hslot
    obtain rfl : id = id' := Option.some.inj hslot
    exact h.agrees.get?_of_openBinding hok

/-- What an operation of a transport gives comes, in `history`, out of what was sent to the binding in its slot since
that was opened, right after what was taken of it before; and if it has to wait, it is for what is sent to that
binding. -/
structure GivesOf (s : Session) (history : List Event) (name : String) (op : TransportOp) : Prop where
  given : (s.step (.onTransport name op)).2.given = [] ∨
    ∃ id b, s.slot? name = some id ∧ s.bus.bindings.get? id = some b ∧ .opened id ∈ history ∧
      takenFrom id (since id history) ++ (s.step (.onTransport name op)).2.given <+:
        sentTo id b.topic b.kind (since id history)
  waits : (s.step (.onTransport name op)).2 = .blocked → ∃ id, s.slot? name = some id ∧ .opened id ∈ history ∧
    (s.step (.onTransport name op)).1.Suspended id s.nextCall

/-- The binding in the slot of a renewed transport was opened since the bus was `past`. -/
theorem opening_of_renewed {ops : List Op} (h : s.desk.Good) (hr : (s.run ops).Renewed s.bus name)
    (hslot : (s.run ops).slot? name = some id) {b : Binding} (hb : (s.run ops).bus.bindings.get? id = some b) :
    ∃ (pre post : List Event) (b₀ : Binding), s.desk.history (s.trail ops) = pre ++ .opened id :: post ∧
      (∀ e ∈ pre, e.binding? ≠ some id) ∧ b₀.stream = [] ∧ b₀.Met id post b := by
  have hafter : (s.desk.after (s.trail ops)).bus.bindings.get? id = some b := by
    rw [← desk_run]
    exact hb
  obtain ⟨pre, post, b₀, hhist, hpre, -, hempty, hmet⟩ := Desk.exists_opening h (hr.slot id hslot) hafter
  exact ⟨pre, post, b₀, hhist, hpre, hempty, hmet⟩

/-- **All that a renewed transport gives was sent since the bus was `past`.** -/
theorem given_since {ops : List Op} (h : s.desk.Good) (hr : (s.run ops).Renewed s.bus name) (op : TransportOp) :
    (s.run ops).GivesOf (s.desk.history (s.trail ops)) name op where
  given := by
    have hlater : (s.run ops).desk.Good := good_later h ops
    simp only [step, named]
    cases ht : (s.run ops).transports.get? name with
    | none => exact .inl rfl
    | some t =>
    cases hlive : (s.run ops).live? t with
    | none => exact .inl (given_of_lapsed hlive op)
    | some id =>
      obtain ⟨hslot, ho⟩ := live?_eq_some_iff.1 hlive
      obtain ⟨b, hb, hbo⟩ := Bus.isOpen_iff.1 ho
      have hslot : (s.run ops).slot? name = some id := Option.bind_eq_some_iff.2 ⟨t, ht, hslot⟩
      obtain ⟨pre, post, b₀, hhist, hpre, hempty, hmet⟩ := opening_of_renewed h hr hslot hb
      have hbytes := hmet.bytes hbo
      rw [hempty, List.nil_append, show b₀.topic = b.topic from (congrArg Terms.topic hmet.terms).symm,
        show b₀.kind = b.kind from (congrArg Terms.kind hmet.terms).symm] at hbytes
      refine .inr ⟨id, b, hslot, hb, ?_, ?_⟩
      · rw [hhist]
        exact List.mem_append_right _ List.mem_cons_self
      · rw [hhist, since_append (not_mem_of_others hpre).1, ← hbytes]
        exact (List.prefix_append_right_inj _).2 (given_front hlater hlive hb op)
  waits hblocked := by
    obtain ⟨id, hasks, hparks⟩ := parks_step hblocked
    obtain ⟨t, ht, hlive⟩ := Option.bind_eq_some_iff.1 hasks
    obtain ⟨hslot, ho⟩ := live?_eq_some_iff.1 hlive
    obtain ⟨b, hb, -⟩ := Bus.isOpen_iff.1 ho
    have hslot : (s.run ops).slot? name = some id := Option.bind_eq_some_iff.2 ⟨t, ht, hslot⟩
    obtain ⟨pre, post, b₀, hhist, -⟩ := opening_of_renewed h hr hslot hb
    refine ⟨id, hslot, ?_, hparks.suspended⟩
    rw [hhist]
    exact List.mem_append_right _ List.mem_cons_self

/-- **The life of a transport**, after every run.  It is open if and only if there is an open binding in its slot.  As
long as it is, it is that binding, except that opening fails and that closing empties the slot.  Otherwise it can only
be opened, which puts a new binding into the slot if the bus admits its options, and changes nothing if not.  After such
an opening it never gives a byte that was sent before, whatever is done in between. -/
theorem transport_lifecycle (config : Config) (ops : List Op) {name : String} {t : Transport}
    (ht : ((new config).run ops).transports.get? name = some t) :
    let s := (new config).run ops
    s.step (.onTransport name .isOpen) = (s, .flag (s.live? t).isSome) ∧
    ((s.live? t).isSome = true ↔
      ∃ id b, t.slot = some id ∧ s.bus.bindings.get? id = some b ∧ b.isOpen = true) ∧
    (∀ id, s.live? t = some id → s.Live name t id) ∧
    (s.live? t = none → s.Lapsed name t) ∧
    (s.step (.onTransport name .closeBinding)).1.transports.get? name = some { t with slot := none } ∧
    ∀ id, s.live? t = none → (s.bus.openBinding t.options).2 = .ok id → ∀ more op,
      let later := .onTransport name .openBinding :: more
      (s.run later).GivesOf (s.desk.history (s.trail later)) name op := by
  intro s
  have hgood : s.desk.Good := good_run config ops
  refine ⟨?_, isSome_live?_iff, fun id hlive => live_of_live? ht hlive, fun hlive => lapsed_of_live? hgood ht hlive, ?_,
    fun id hlive hok more op => ?_⟩
  · simp only [step, named, show s.transports.get? name = some t from ht, stepTransport]
  · cases hlive : s.live? t with
    | none =>
      rw [(lapsed_of_live? hgood ht hlive).closes]
      exact Table.get?_insert_self ..
    | some id =>
      rw [(live_of_live? ht hlive).closes.2]
      exact Table.get?_insert_self ..
  · have hrenewed : (s.run (.onTransport name .openBinding :: more)).Renewed s.bus name :=
      renewed_run (good_step hgood _) (renewed_of_opening hgood ht hlive hok) more
    exact given_since hgood hrenewed op

/-- The binding of a transport is closed under another name.  Opened again, the transport gives what was sent since. -/
theorem transport_lifecycle_reopened :
    let options : Options := { user := ⟨3⟩, topic := ⟨4⟩, target := ⟨1⟩ }
    let s := (new {}).run (twoPeers ++ [.connect "t" options, .onBinding "a" (.write [1, 2]),
      .shareTransport "t" "c", .onBinding "c" .close])
    let later : List Op := [.onTransport "t" .openBinding, .onBinding "a" (.write [3, 4, 5])]
    s.transports.get? "t" = some ⟨options, some ⟨7⟩⟩ ∧ s.step (.onTransport "t" (.readAll 0)) = (s, .failed .closed) ∧
      ((s.run later).step (.onTransport "t" (.read 2))).2.given = [3, 4] ∧
      (s.run later).GivesOf (s.desk.history (s.trail later)) "t" (.read 2) := by
  intro options s later
  have ht : s.transports.get? "t" = some ⟨options, some ⟨7⟩⟩ := by decide +kernel
  have hlive : s.live? ⟨options, some ⟨7⟩⟩ = none := by decide +kernel
  have hok : (s.bus.openBinding options).2 = .ok ⟨8⟩ := by decide +kernel
  obtain ⟨-, -, -, hlapsed, -, hgives⟩ := transport_lifecycle {} _ ht
  exact ⟨ht, (hlapsed hlive).refuses (.readAll 0) (.readAll 0) rfl, by decide +kernel, hgives ⟨8⟩ hlive hok _ _⟩

end Session
end TopicBus
