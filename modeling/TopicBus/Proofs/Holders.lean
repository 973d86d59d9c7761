import TopicBus.Proofs.Deeds
/-!
# Open bindings are held

A binding is open only while somebody can still use it: under a name, through a suspended read or the slot of a
transport, or in a call that was begun (`tended_run`).  Each operation that takes something away from its holder
looks afterwards whether that was the last one, and closes the binding if it was; so a step keeps the rule if every open
binding but the one that is looked after is still held (`tended_settle`).

In the other direction, a step closes a binding only if it was asked to, or if nobody holds the binding any more
(`closes_or_unheld`).
-/
namespace TopicBus

/-! ## Who may be open after a call of the bus -/

namespace Bus

variable {bus bus' : Bus} {id id' : BindingId} {b b' : Binding}

theorem isOpen_iff : bus.isOpen id = true ↔ ∃ b, bus.bindings.get? id = some b ∧ b.isOpen = true := by
  unfold isOpen
  cases bus.bindings.get? id <;> simp

theorem isOpen_of_get? (hb : bus.bindings.get? id = some b) : bus.isOpen id = b.isOpen := by
  rw [isOpen, hb, Option.any_some]

theorem isOpen_put (hb : bus.bindings.get? id = some b) (ho : b'.isOpen = b.isOpen)
    (h : (bus.put id b').isOpen id' = true) : bus.isOpen id' = true := by
  obtain ⟨b₁, hb₁, ho₁⟩ := isOpen_iff.1 h
  rcases Table.of_get?_insert hb₁ with ⟨rfl, rfl⟩ | ⟨-, hb₁⟩
  · exact isOpen_iff.2 ⟨b, hb, ho ▸ ho₁⟩
  · exact isOpen_iff.2 ⟨b₁, hb₁, ho₁⟩

theorem isOpen_close (h : (bus.close id).1.isOpen id' = true) : bus.isOpen id' = true ∧ id' ≠ id := by
  rcases close_cases bus id with ⟨hc, he⟩ | ⟨b, hb, ho, he⟩
  · rw [he] at h
    refine ⟨h, fun hid => ?_⟩
    rw [hid, hc] at h
    cases h
  · rw [he] at h
    obtain ⟨b₁, hb₁, ho₁⟩ := isOpen_iff.1 h
    rcases Table.of_get?_insert hb₁ with ⟨-, rfl⟩ | ⟨hid, hb₁⟩
    · rw [Binding.shut_isOpen] at ho₁
      cases ho₁
    · exact ⟨isOpen_iff.2 ⟨b₁, hb₁, ho₁⟩, hid⟩

theorem openBinding_of_error {o : Options} {fault : Fault} (h : bus.openBinding o = (bus', .error fault)) :
    bus' = bus := by
  have hout := opened_openBinding bus o
  rw [h] at hout
  cases hout
  rfl

theorem isOpen_openBinding {o : Options} (h : bus.openBinding o = (bus', .ok id)) (ho : bus'.isOpen id' = true) :
    id' = id ∨ bus.isOpen id' = true := by
  have hout := opened_openBinding bus o
  rw [h] at hout
  cases hout with
  | opened hd hbuf ha =>
    obtain ⟨b₁, hb₁, ho₁⟩ := isOpen_iff.1 ho
    rcases Table.of_get?_insert hb₁ with ⟨hid, -⟩ | ⟨-, hb₁⟩
    · exact Or.inl hid
    · exact Or.inr (isOpen_iff.2 ⟨b₁, hb₁, ho₁⟩)

end Bus

/-- Whether a transport leaves an operation to the binding in its slot. -/
def TransportOp.passesOn : TransportOp → Bool
  | .openBinding | .closeBinding => false
  | _ => true

namespace Session

variable {s : Session} {id id' : BindingId} {name : String}

/-! ## Who holds a binding -/

/-- Somebody who can still use a binding. -/
inductive Holds (s : Session) (id : BindingId) : Prop
  | name {name : String} : s.names.get? name = some id → Holds s id
  | read {name : ReadName} {r : Reader} : s.reads.get? name = some r → r.binding = id → Holds s id
  | transport {name : String} {t : Transport} : s.transports.get? name = some t → t.slot = some id → Holds s id
  | call : id ∈ s.calls → Holds s id

theorem isHeld_iff : s.isHeld id = true ↔ s.Holds id := by
  unfold isHeld
  simp only [Bool.or_eq_true, Table.any_values_iff, decide_eq_true_eq]
  simp only [List.any_eq_true, decide_eq_true_eq]
  constructor
  · rintro (((⟨_, _, h, rfl⟩ | ⟨_, _, h, he⟩) | ⟨_, _, h, he⟩) | ⟨_, h, rfl⟩)
    · exact .name h
    · exact .read h he
    · exact .transport h he
    · exact .call h
  · rintro (h | ⟨h, he⟩ | ⟨h, he⟩ | h)
    · exact Or.inl (Or.inl (Or.inl ⟨_, _, h, rfl⟩))
    · exact Or.inl (Or.inl (Or.inr ⟨_, _, h, he⟩))
    · exact Or.inl (Or.inr ⟨_, _, h, he⟩)
    · exact Or.inr ⟨_, h, rfl⟩

/-- Changing a name lets go of nothing but what had the name. -/
theorem isHeld_of_names (h : s.isHeld id = true) {names : Table String BindingId}
    (ht : ∀ other, other ≠ name → names.get? other = s.names.get? other) (hn : s.names.get? name ≠ some id) :
    { s with names }.isHeld id = true := by
  refine isHeld_iff.2 ?_
  cases isHeld_iff.1 h with
  | name hi => exact .name ((ht _ (fun he => hn (he ▸ hi))).trans hi)
  | read hr he => exact .read hr he
  | transport ht he => exact .transport ht he
  | call hc => exact .call hc

theorem isHeld_of_reads (h : s.isHeld id = true) {read : ReadName} {reads : Table ReadName Reader}
    (ht : ∀ other, other ≠ read → reads.get? other = s.reads.get? other)
    (hn : ∀ r, s.reads.get? read = some r → r.binding ≠ id) : { s with reads }.isHeld id = true := by
  refine isHeld_iff.2 ?_
  cases isHeld_iff.1 h with
  | name hi => exact .name hi
  | read hr hb => exact .read ((ht _ (fun he => hn _ (he ▸ hr) hb)).trans hr) hb
  | transport ht he => exact .transport ht he
  | call hc => exact .call hc

theorem isHeld_of_transports (h : s.isHeld id = true) {transports : Table String Transport}
    (ht : ∀ other, other ≠ name → transports.get? other = s.transports.get? other)
    (hn : ∀ t, s.transports.get? name = some t → t.slot ≠ some id) : { s with transports }.isHeld id = true := by
  refine isHeld_iff.2 ?_
  cases isHeld_iff.1 h with
  | name hi => exact .name hi
  | read hr he => exact .read hr he
  | transport htr hs => exact .transport ((ht _ (fun he => hn _ (he ▸ htr) hs)).trans htr) hs
  | call hc => exact .call hc

theorem isHeld_settle (s : Session) (id id' : BindingId) : (s.settle id).isHeld id' = s.isHeld id' := by
  unfold settle
  split <;> rfl

theorem isHeld_settle? (s : Session) (x : Option BindingId) (id : BindingId) :
    (s.settle? x).isHeld id = s.isHeld id := by
  cases x with
  | none => rfl
  | some id' => exact isHeld_settle s id' id

/-! ## Every open binding is held -/

/-- No binding is open that nobody holds. -/
def Tended (s : Session) : Prop := ∀ id, s.bus.isOpen id = true → s.isHeld id = true

theorem tended_settle (h : ∀ id', s.bus.isOpen id' = true → id' ≠ id → s.isHeld id' = true) : (s.settle id).Tended := by
  intro id' ho
  rw [isHeld_settle]
  unfold settle at ho
  split at ho
  · rename_i hheld
    by_cases hid : id' = id
    · rw [hid]
      exact hheld
    · exact h id' ho hid
  · obtain ⟨ho', hid⟩ := Bus.isOpen_close ho
    exact h id' ho' hid

theorem tended_settle? {x : Option BindingId}
    (h : ∀ id', s.bus.isOpen id' = true → x ≠ some id' → s.isHeld id' = true) : (s.settle? x).Tended := by
  cases x with
  | none => exact fun id' ho => h id' ho nofun
  | some id => exact tended_settle (fun id' ho hid => h id' ho (fun he => hid (Option.some.inj he).symm))

/-- A new name for a binding; it may be the first holder of that. -/
theorem tended_hold (h : ∀ id', s.bus.isOpen id' = true → id' = id ∨ s.isHeld id' = true) :
    (s.hold name id).Tended := by
  refine tended_settle? (fun id' ho hn => ?_)
  by_cases hid : id' = id
  · exact isHeld_iff.2 (hid ▸ .name (Table.get?_insert_self ..))
  · exact isHeld_of_names ((h id' ho).resolve_left hid) (fun _ hne => Table.get?_insert_of_ne _ hne _) hn

theorem tended_drop (h : s.Tended) : (s.drop name).Tended :=
  tended_settle? (fun id' ho hn =>
    isHeld_of_names (h id' ho) (fun _ hne => Table.get?_erase_of_ne _ hne) hn)

/-- A transport under a name; it may be the first holder of the binding in its slot. -/
theorem tended_install {t : Transport} (h : ∀ id', s.bus.isOpen id' = true → t.slot = some id' ∨ s.isHeld id' = true) :
    (s.install name t).Tended := by
  refine tended_settle? (fun id' ho hn => ?_)
  rcases h id' ho with hslot | hheld
  · exact isHeld_iff.2 (.transport (Table.get?_insert_self ..) hslot)
  · refine isHeld_of_transports hheld (fun _ hne => Table.get?_insert_of_ne _ hne _) (fun t' ht' hs => hn ?_)
    rw [ht']
    exact hs

theorem tended_dropTransport (h : s.Tended) : (s.dropTransport name).Tended :=
  tended_settle? (fun id' ho hn => isHeld_of_transports (h id' ho)
    (fun _ hne => Table.get?_erase_of_ne _ hne) (fun t ht hs => hn (by rw [ht]; exact hs)))

/-- A transport whose slot holds no open binding is filled with a new one. -/
theorem tended_openTransport (h : s.Tended) {t : Transport} (ht : s.transports.get? name = some t) :
    (s.openTransport name t).1.Tended := by
  unfold openTransport
  split
  · exact h
  · rename_i hlive
    split
    · rename_i bus fault he
      obtain rfl := Bus.openBinding_of_error he
      exact h
    · rename_i bus id he
      intro id' ho
      by_cases hid : id' = id
      · exact isHeld_iff.2 (.transport (Table.get?_insert_self ..) (by rw [hid]))
      · have ho' : s.bus.isOpen id' = true := (Bus.isOpen_openBinding he ho).resolve_left hid
        refine isHeld_of_transports (h id' ho') (fun _ hne => Table.get?_insert_of_ne _ hne _) (fun t' ht' hs => ?_)
        obtain rfl := Option.some.inj (ht.symm.trans ht')
        exact hlive (by simp [live?, hs, ho'])

theorem tended_closeTransport (h : s.Tended) {t : Transport} (ht : s.transports.get? name = some t) :
    (s.closeTransport name t).1.Tended := by
  unfold closeTransport
  split
  · exact h
  · rename_i id hslot
    intro id' ho
    obtain ⟨ho', hid⟩ := Bus.isOpen_close ho
    refine isHeld_of_transports (h id' ho') (fun _ hne => Table.get?_insert_of_ne _ hne _) (fun t' ht' hs => ?_)
    obtain rfl := Option.some.inj (ht.symm.trans ht')
    exact hid (Option.some.inj (hs.symm.trans hslot))

theorem tended_cancel (h : s.Tended) (read : ReadName) : (s.cancel read).Tended := by
  unfold cancel
  cases hr : s.reads.get? read with
  | none => exact h
  | some reader =>
    refine tended_settle (fun id' ho hid => ?_)
    have ho' : s.bus.isOpen id' = true := by
      simp only [Bus.onBinding] at ho
      split at ho
      · exact ho
      · rename_i b hb
        exact Bus.isOpen_put hb (show (b.cancel read).isOpen = b.isOpen from rfl) ho
    refine isHeld_of_reads (h id' ho') (fun _ hne => Table.get?_erase_of_ne _ hne) (fun r hr' he => hid ?_)
    rw [← he, Option.some.inj (hr.symm.trans hr')]

/-- A read that stays suspended holds its binding, and one that is done lets go of it. -/
theorem tended_keep (h : s.Tended) {name : ReadName} {b : Binding} {polled : Polled}
    (hb : s.bus.bindings.get? id = some b) (ho : polled.binding.isOpen = b.isOpen)
    (hname : ∀ r, s.reads.get? name = some r → r.binding = id) : (s.keep name id polled).Tended := by
  unfold keep
  split
  · refine tended_settle (fun id' ho' hid => ?_)
    exact isHeld_of_reads (h id' (Bus.isOpen_put hb ho ho')) (fun _ hne => Table.get?_erase_of_ne _ hne)
      (fun r hr he => hid (he.symm.trans (hname r hr)))
  · rename_i read _
    intro id' ho'
    by_cases hid : id' = id
    · exact isHeld_iff.2 (.read (Table.get?_insert_self ..) hid.symm)
    · exact isHeld_of_reads (h id' (Bus.isOpen_put hb ho ho')) (fun _ hne => Table.get?_insert_of_ne _ hne _)
        (fun r hr he => hid (he.symm.trans (hname r hr)))

/-! ### Every operation -/

/-- An operation on a binding opens none. -/
theorem makes_ne {op : BindingOp} {call : ReadName} {act : Act} (h : op.Makes call id act) (o : Options) :
    act ≠ .openBinding o := by
  rintro rfl
  cases h with
  | once h => cases op <;> cases h
  | waiting h => cases op <;> cases h

/-- A transport that passes an operation on changes nothing but the bus, unless a read has to wait. -/
theorem asked_stepTransport (s : Session) (name : String) (t : Transport) {op : TransportOp}
    (hop : op.passesOn = true) : s.Asked (s.stepTransport name t op).1 := by
  have hlive : ∀ (closed : Answer) (f : BindingId → Session × Answer), (∀ id, s.Asked (f id).1) →
      s.Asked (s.onLive t closed f).1 := fun closed f hf => by
    unfold onLive
    split
    · exact .once s.bus
    · exact hf _
  cases op with
  | openBinding | closeBinding => cases hop
  | read _ | readAll _ | write _ | flush => exact hlive _ _ (fun id => asked_stepBinding s id _)
  | ioRead size =>
    simp only [stepTransport]
    split
    · exact .once s.bus
    · exact hlive _ _ (fun id => (calls_read s id size _).asked)
  | ioReadExact size =>
    simp only [stepTransport]
    split
    · exact .once s.bus
    · exact hlive _ _ (fun id => (calls_readAll s id size _).asked)
  | ioWrite data => exact hlive _ _ (fun id => .once _)
  | ioFlush => exact hlive _ _ (fun id => .once s.bus)
  | isOpen | options => exact .once s.bus

/-- Nobody lets go of a binding because something is asked of one. -/
theorem Asked.isHeld {s' : Session} (ha : s.Asked s') (h : s.isHeld id = true) : s'.isHeld id = true := by
  cases ha with
  | once bus => exact h
  | waits id' b read =>
    refine isHeld_of_reads h (fun _ hne => Table.get?_insert_of_ne _ hne _) (fun r hr => ?_)
    cases (get?_nextCall s).symm.trans hr

/-- Calls of the bus that open nothing leave every open binding held. -/
theorem tended_of_acts (hgood : s.desk.Good) (h : s.Tended) {s' : Session} (hs : s.Asked s')
    {acts : List Act} (hdesk : s'.desk = s.desk.after acts) (hacts : ∀ act ∈ acts, ∀ o, act ≠ .openBinding o) :
    s'.Tended := by
  intro id ho
  obtain ⟨b, hb, hbo⟩ := Bus.isOpen_iff.1 ho
  have hb' : (s.desk.after acts).bus.bindings.get? id = some b := by
    rw [← hdesk]
    exact hb
  obtain ⟨b₀, hb₀, hbo₀⟩ := Desk.isOpen_after hgood hacts hb' hbo
  exact hs.isHeld (h id (Bus.isOpen_iff.2 ⟨b₀, hb₀, hbo₀⟩))

theorem tended_stepTransport (hgood : s.desk.Good) (h : s.Tended) {t : Transport}
    (ht : s.transports.get? name = some t) (op : TransportOp) : (s.stepTransport name t op).1.Tended := by
  by_cases hop : op.passesOn = true
  · refine tended_of_acts hgood h (asked_stepTransport s name t hop) (desk_stepTransport s name t op) (fun act ha o => ?_)
    rcases of_mem_transportActs ha with ⟨rfl, -⟩ | ⟨rfl, -⟩ | ⟨bop, id, -, -, hact⟩
    · cases hop
    · cases hop
    · exact makes_ne hact o
  · cases op with
    | openBinding => exact tended_openTransport h ht
    | closeBinding => exact tended_closeTransport h ht
    | _ => exact absurd rfl hop

theorem tended_endCall (hgood : s.desk.Good) (h : s.Tended) {earlier : List BindingId} (hc : s.calls = id :: earlier)
    (op : BindingOp) : (s.endCall id earlier op).1.Tended := by
  have hafter := tended_of_acts hgood h (asked_stepBinding s id op) (desk_stepBinding s id op)
    (fun act ha o => makes_ne (of_mem_bindingActs ha) o)
  refine tended_settle (fun id' ho hid => isHeld_iff.2 ?_)
  cases isHeld_iff.1 (hafter id' ho) with
  | name hi => exact .name hi
  | read hr he => exact .read hr he
  | transport ht he => exact .transport ht he
  | call hm =>
    have hm' : id' ∈ id :: earlier := hc ▸ (asked_stepBinding s id op).calls ▸ hm
    exact .call ((List.mem_cons.1 hm').resolve_left hid)

theorem tended_advance (hgood : s.desk.Good) (h : s.Tended) {name : ReadName} (act : Act) {poll : Binding → Polled}
    (hp : ∀ b, s.bus.bindings.get? id = some b → s.desk.polled? act = some (name, id, poll b)) :
    (s.advance name id poll).1.Tended := by
  unfold advance
  split
  · exact h
  · rename_i b hb
    obtain ⟨b', hb', hname, hpoll⟩ := hgood.polled (hp b hb)
    obtain rfl := Option.some.inj (hb.symm.trans hb')
    exact tended_keep h hb hpoll.advance.isOpen hname

/-- **Every operation leaves every open binding held.** -/
theorem tended_step (hgood : s.desk.Good) (h : s.Tended) (op : Op) : (s.step op).1.Tended := by
  cases op with
  | create _ | createTagged _ | destroy _ | destroyTagged _ => exact fun id ho => h id ho
  | has _ | kindOf _ | live | topicStats _ | config | isShutDown => exact h
  | shutdown =>
    have hdesk : ({ s with bus := s.bus.shutdown } : Session).desk = s.desk.after [.shutdown] := rfl
    refine tended_of_acts hgood h (.once _) hdesk (fun act ha o => ?_)
    rw [List.mem_singleton.1 ha]
    exact nofun
  | openBinding name options =>
    simp only [step]
    split
    · rename_i bus fault he
      obtain rfl := Bus.openBinding_of_error he
      exact h
    · rename_i bus id he
      exact tended_hold (fun id' ho => (Bus.isOpen_openBinding he ho).imp_right (h id'))
  | onBinding name op =>
    simp only [step, named]
    split
    · exact h
    · exact tended_of_acts hgood h (asked_stepBinding s _ op) (desk_stepBinding s _ op)
        (fun act ha o => makes_ne (of_mem_bindingActs ha) o)
  | share name other =>
    simp only [step, named]
    split
    · exact h
    · exact tended_hold (fun id' ho => Or.inr (h id' ho))
  | drop name =>
    simp only [step, named]
    split
    · exact h
    · exact tended_drop h
  | beginCall name =>
    simp only [step, named]
    split
    · exact h
    · intro id ho
      refine isHeld_iff.2 ?_
      cases isHeld_iff.1 (h id ho) with
      | name hi => exact .name hi
      | read hr he => exact .read hr he
      | transport ht he => exact .transport ht he
      | call hm => exact .call (List.mem_cons_of_mem _ hm)
  | endCall op =>
    simp only [step]
    split
    · exact h
    · rename_i id earlier hc
      exact tended_endCall hgood h hc op
  | start name read wanted =>
    simp only [step, named]
    split
    · exact h
    · rename_i id _
      have hgood' : (s.cancel read).desk.Good := desk_cancel s read ▸ Desk.good_after hgood _
      exact tended_advance hgood' (tended_cancel h read) (.start read id wanted) (fun b hb => polled?_start s wanted hb)
  | startAll name read wanted =>
    simp only [step, named]
    split
    · exact h
    · rename_i id _
      have hgood' : (s.cancel read).desk.Good := desk_cancel s read ▸ Desk.good_after hgood _
      exact tended_advance hgood' (tended_cancel h read) (.startAll read id wanted) (fun b hb => polled?_startAll s wanted hb)
  | poll read =>
    simp only [step, named]
    split
    · exact h
    · rename_i r hr
      exact tended_advance hgood h (.poll read) (fun b hb => polled?_poll hr hb)
  | cancel read =>
    simp only [step, named]
    split
    · exact h
    · exact tended_cancel h read
  | newTransport transport options => exact tended_install (fun id' ho => Or.inr (h id' ho))
  | connect transport options =>
    simp only [step, connect]
    split
    · rename_i bus fault he
      obtain rfl := Bus.openBinding_of_error he
      exact h
    · rename_i bus id he
      refine tended_install (fun id' ho => ?_)
      exact (Bus.isOpen_openBinding he ho).imp (fun hid => congrArg some hid.symm) (h id')
  | onTransport transport op =>
    simp only [step, named]
    split
    · exact h
    · rename_i t ht
      exact tended_stepTransport hgood h ht op
  | dropTransport transport =>
    simp only [step, named]
    split
    · exact h
    · exact tended_dropTransport h
  | shareTransport transport name =>
    simp only [step, named, onLive]
    split
    · exact h
    · split
      · exact h
      · exact tended_hold (fun id' ho => Or.inr (h id' ho))

/-- **Every open binding is held** after any run of a new session. -/
theorem tended_run (config : Config) (ops : List Op) : ((new config).run ops).Tended := by
  have hrun : ∀ (ops : List Op) (s : Session), s.desk.Good → s.Tended → (s.run ops).Tended := by
    intro ops
    induction ops with
    | nil => exact fun s _ h => h
    | cons op ops ih =>
      intro s hgood h
      refine ih _ ?_ (tended_step hgood h op)
      rw [desk_step]
      exact Desk.good_after hgood _
  exact hrun ops _ (Desk.good_new config) (fun id ho => (nomatch ho))

/-! ## What closes a binding -/

/-- The binding that an operation asks to close. -/
def closes? (s : Session) : Op → Option BindingId
  | .onBinding name .close => s.names.get? name
  | .endCall .close => s.calls.head?
  | .onTransport transport .closeBinding => (s.transports.get? transport).bind (·.slot)
  | _ => none

theorem unheld_of_settling (h : .close id ∈ s.settling id') : s.isHeld id = false := by
  unfold settling at h
  split at h
  · cases h
  · rename_i hheld
    cases List.mem_singleton.1 h
    exact Bool.not_eq_true _ ▸ hheld

theorem unheld_of_settling? {x : Option BindingId} (h : .close id ∈ s.settling? x) :
    (s.settle? x).isHeld id = false := by
  rw [isHeld_settle?]
  cases x with
  | none => cases h
  | some id' => exact unheld_of_settling h

section

variable {name : ReadName}

theorem unheld_of_cancelling (h : .close id ∈ s.cancelling name) : (s.cancel name).isHeld id = false := by
  unfold cancelling at h
  unfold cancel
  cases hr : s.reads.get? name with
  | none =>
    rw [hr] at h
    cases h
  | some r =>
    rw [hr] at h
    rw [isHeld_settle]
    exact unheld_of_settling ((List.mem_cons.1 h).resolve_left (by simp))

theorem close_of_makes {op : BindingOp} {call : ReadName} (h : op.Makes call id' (.close id)) :
    op = .close ∧ id = id' := by
  cases h with
  | once h =>
    cases op <;> cases h
    exact ⟨rfl, rfl⟩
  | waiting h => cases op <;> cases h

theorem close_mem_transportActs {t : Transport} {op : TransportOp} (h : .close id ∈ s.transportActs t op) :
    op = .closeBinding ∧ t.slot = some id := by
  rcases of_mem_transportActs h with ⟨-, hact⟩ | ⟨rfl, id', hslot, hact⟩ | ⟨bop, id', hop, -, hact⟩
  · cases hact
  · cases hact
    exact ⟨rfl, hslot⟩
  · obtain ⟨rfl, -⟩ := close_of_makes hact
    cases op <;> cases hop

/-- A call closes its binding if it was asked to, or because nobody holds that when the call lets go of it. -/
theorem close_mem_endingActs {earlier : List BindingId} {op : BindingOp} (h : .close id ∈ s.endingActs id' earlier op) :
    (op = .close ∧ id = id') ∨ (s.endCall id' earlier op).1.isHeld id = false := by
  rcases List.mem_append.1 h with h | h
  · exact Or.inl (close_of_makes (of_mem_bindingActs h))
  · exact Or.inr ((isHeld_settle _ id' id).trans (unheld_of_settling h))

/-- A poll makes no holder but for the binding that it reads from. -/
theorem isHeld_of_keep {polled : Polled} (h : (s.keep name id' polled).isHeld id = true) :
    s.isHeld id = true ∨ id = id' := by
  have hreads : ∀ {reads : Table ReadName Reader}, { s with reads }.isHeld id = true →
      (∀ other r, reads.get? other = some r → s.reads.get? other = some r ∨ r.binding = id') →
        s.isHeld id = true ∨ id = id' := by
    intro reads hheld hold
    cases isHeld_iff.1 hheld with
    | name hi => exact Or.inl (isHeld_iff.2 (.name hi))
    | read hr he => exact (hold _ _ hr).imp (fun hr' => isHeld_iff.2 (.read hr' he)) (fun hr' => he.symm.trans hr')
    | transport ht he => exact Or.inl (isHeld_iff.2 (.transport ht he))
    | call hc => exact Or.inl (isHeld_iff.2 (.call hc))
  unfold keep at h
  split at h
  · rw [isHeld_settle] at h
    exact hreads h (fun other r hr => Or.inl (Table.of_get?_erase hr).2)
  · refine hreads h (fun other r hr => ?_)
    rcases Table.of_get?_insert hr with ⟨-, rfl⟩ | ⟨-, hr⟩
    · exact Or.inr rfl
    · exact Or.inl hr

theorem unheld_of_keeping {polled : Polled} (h : .close id ∈ s.keeping name id' polled) :
    (s.keep name id' polled).isHeld id = false := by
  unfold keeping at h
  unfold keep
  cases hp : polled.progress with
  | ready outcome =>
    rw [hp] at h
    rw [isHeld_settle]
    exact unheld_of_settling h
  | pending read =>
    rw [hp] at h
    cases h

/-- Closing on the way to or from a poll: the read let go of its binding. -/
theorem unheld_of_advancing {act : Act} {poll : Binding → Polled} (h : .close id ∈ s.advancing name id' act poll)
    (hact : act ≠ .close id) : (s.advance name id' poll).1.isHeld id = false := by
  unfold advancing at h
  unfold advance
  cases hb : s.bus.bindings.get? id' with
  | none =>
    rw [hb] at h
    cases h
  | some b =>
    rw [hb] at h
    exact unheld_of_keeping ((List.mem_cons.1 h).resolve_left (fun he => hact he.symm))

/-- A read that was cancelled and begun anew on the binding `id'`, which is held otherwise. -/
theorem unheld_of_starting {act : Act} {poll : Binding → Polled} (hheld : (s.cancel name).isHeld id' = true)
    (h : .close id ∈ s.cancelling name ++ (s.cancel name).advancing name id' act poll) (hact : act ≠ .close id) :
    ((s.cancel name).advance name id' poll).1.isHeld id = false := by
  rcases List.mem_append.1 h with h | h
  · have hun := unheld_of_cancelling h
    rw [← Bool.not_eq_true] at hun ⊢
    intro hkept
    unfold advance at hkept
    split at hkept
    · exact hun hkept
    · rcases isHeld_of_keep hkept with hk | rfl
      · exact hun hk
      · exact hun hheld
  · exact unheld_of_advancing h hact

end

theorem names_cancel (s : Session) (name : ReadName) : (s.cancel name).names = s.names := by
  unfold cancel
  split
  · rfl
  · unfold settle
    split <;> rfl

/-- **A step closes a binding that it was asked to close, or that nobody holds any more.** -/
theorem closes_or_unheld {op : Op} (h : .close id ∈ s.acts op) :
    s.closes? op = some id ∨ (s.step op).1.isHeld id = false := by
  have hname : ∀ {name read : String} {i : BindingId}, s.names.get? name = some i →
      (s.cancel read).isHeld i = true := fun {name read i} hn =>
    isHeld_iff.2 (.name (by rw [names_cancel]; exact hn))
  cases op with
  | create _ | createTagged _ | destroy _ | destroyTagged _ | shutdown => cases List.mem_singleton.1 h
  | has _ | kindOf _ | live | topicStats _ | config | isShutDown | beginCall _ => cases h
  | openBinding name options =>
    have h' := (List.mem_cons.1 h).resolve_left (by simp)
    rcases hb : s.bus.openBinding options with ⟨bus, fault | i⟩
    · rw [hb] at h'
      cases h'
    · rw [hb] at h'
      simp only [step, hb]
      exact Or.inr (unheld_of_settling? h')
  | onBinding name op =>
    simp only [acts] at h
    split at h
    · cases h
    · rename_i i hn
      obtain ⟨rfl, rfl⟩ := close_of_makes (of_mem_bindingActs h)
      exact Or.inl hn
  | share name other =>
    simp only [acts] at h
    split at h
    · cases h
    · rename_i i hn
      simp only [step, named, hn]
      exact Or.inr (unheld_of_settling? h)
  | drop name =>
    simp only [step, named]
    cases hn : s.names.get? name with
    | none =>
      simp only [acts, hn] at h
      cases h
    | some i => exact Or.inr (unheld_of_settling? h)
  | endCall op =>
    simp only [acts] at h
    split at h
    · cases h
    · rename_i i earlier hc
      rcases close_mem_endingActs h with ⟨rfl, rfl⟩ | hun
      · exact Or.inl (by simp [closes?, hc])
      · simp only [step, hc]
        exact Or.inr hun
  | start name read wanted =>
    simp only [acts] at h
    split at h
    · cases h
    · rename_i i hn
      simp only [step, named, hn]
      exact Or.inr (unheld_of_starting (hname hn) h (by simp))
  | startAll name read wanted =>
    simp only [acts] at h
    split at h
    · cases h
    · rename_i i hn
      simp only [step, named, hn]
      exact Or.inr (unheld_of_starting (hname hn) h (by simp))
  | poll read =>
    simp only [acts] at h
    split at h
    · cases h
    · rename_i r hr
      simp only [step, named, hr]
      exact Or.inr (unheld_of_advancing h (by simp))
  | cancel read =>
    simp only [step, named]
    cases hr : s.reads.get? read with
    | none =>
      simp only [acts, cancelling, hr] at h
      cases h
    | some r => exact Or.inr (unheld_of_cancelling h)
  | newTransport transport options => exact Or.inr (unheld_of_settling? h)
  | connect transport options =>
    have h' := (List.mem_cons.1 h).resolve_left (by simp)
    rcases hb : s.bus.openBinding options with ⟨bus, fault | i⟩
    · rw [hb] at h'
      cases h'
    · rw [hb] at h'
      simp only [step, connect, hb]
      exact Or.inr (unheld_of_settling? h')
  | onTransport transport op =>
    simp only [acts] at h
    split at h
    · cases h
    · rename_i t ht
      obtain ⟨rfl, hslot⟩ := close_mem_transportActs h
      exact Or.inl (by simp [closes?, ht, hslot])
  | dropTransport transport =>
    simp only [step, named]
    cases ht : s.transports.get? transport with
    | none =>
      simp only [acts, ht] at h
      cases h
    | some t => exact Or.inr (unheld_of_settling? h)
  | shareTransport transport name =>
    simp only [acts] at h
    split at h
    · cases h
    · rename_i i hlive
      obtain ⟨t, ht, hl⟩ := Option.bind_eq_some_iff.1 hlive
      simp only [step, named, ht, onLive, hl]
      exact Or.inr (unheld_of_settling? h)

/-- A binding that is open is closed when that is asked for. -/
theorem answer_of_closes? {op : Op} (h : s.closes? op = some id) (ho : s.bus.isOpen id = true) :
    (s.step op).2 = .done := by
  have hclose : (s.bus.close id).2 = .ok () := by
    rcases Bus.close_cases s.bus id with ⟨hc, -⟩ | ⟨b, -, -, he⟩
    · rw [ho] at hc
      cases hc
    · rw [he]
  unfold closes? at h
  split at h
  · rename_i name
    simp only [step, named, h, stepBinding, hclose]
    rfl
  · obtain ⟨earlier, hc⟩ : ∃ earlier, s.calls = id :: earlier := by
      cases hc : s.calls with
      | nil =>
        rw [hc] at h
        cases h
      | cons i earlier =>
        rw [hc] at h
        exact ⟨earlier, congrArg (· :: earlier) (Option.some.inj h)⟩
    simp only [step, hc, endCall, stepBinding, hclose]
    rfl
  · rename_i transport
    obtain ⟨t, ht, hslot⟩ := Option.bind_eq_some_iff.1 h
    simp only [step, named, ht, stepTransport, closeTransport, hslot, hclose]
    rfl
  · cases h

end Session
end TopicBus
