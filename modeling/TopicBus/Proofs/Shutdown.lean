import TopicBus.Proofs.Draining
import TopicBus.Proofs.Moves
import TopicBus.Proofs.Overtaking
import TopicBus.Proofs.Views
import TopicBus.Proofs.Writes
/-!
# After shutdown

A bus that is shut down stays so.  Nothing is opened on it and nothing is sent (`Session.Ended`), so what happens to a
binding from then on only takes from its stream, and from the front (`Binding.Drained`): each act does so
(`Desk.drained_apply`), hence every continuation of the run (`Session.drained_run`).  A read that has the read side
finishes at once, for no chunk will come that it could wait for.  The registry has no part in it: a binding gives up its
references when it is closed, as ever.
-/
namespace TopicBus

theorem checkLimit_of_lt {most wanted : Nat} (h : most < wanted) :
    checkLimit (some most) wanted = .error ⟨wanted, most⟩ :=
  if_neg (Nat.not_le.2 h)

/-! ## Nothing is opened and nothing is sent -/

namespace Bus

variable {bus : Bus} {id : BindingId} {b : Binding}

theorem openBinding_of_down (hd : bus.isShutDown = true) (o : Options) : bus.openBinding o = (bus, .error .closed) :=
  if_pos hd

/-- A write that is answered with success after shutdown was empty. -/
theorem eq_nil_of_write_ok (hd : bus.isShutDown = true) {data : Bytes} {n : Nat}
    (hn : (bus.write id data).2 = .ok n) : data = [] := by
  obtain ⟨_, -, -, -, -, hok⟩ := write_passed bus id data
  by_contra hne
  obtain ⟨-, -, -, hup, -⟩ := hok n hn hne
  exact Bool.false_ne_true (hup.symm.trans hd)

/-- **No write enters an inbox after shutdown.** -/
theorem passed_of_down (hd : bus.isShutDown = true) (id : BindingId) (data : Bytes) {id' : BindingId}
    (hb : bus.bindings.get? id' = some b) :
    ∃ b', (bus.write id data).1.bindings.get? id' = some b' ∧ b.Passed false data b' := by
  obtain ⟨receivers, hsome, -, hempty, herror, -⟩ := write_passed bus id data
  have hnone : receivers = [] := by
    cases hw : (bus.write id data).2 with
    | error fault => exact herror fault hw
    | ok n => exact hempty (eq_nil_of_write_ok hd hw)
  obtain ⟨b', hb', hp⟩ := hsome id' b hb
  rw [hnone] at hp
  exact ⟨b', hb', hp⟩

/-- What the writes of the binding `id` are answered when nothing is sent any more. -/
structure Refuses (bus : Bus) (id : BindingId) : Prop where
  empty : bus.write id [] = (bus, .ok 0)
  within : ∀ data, data ≠ [] → Within bus.config.chunkLimit data.length → (bus.write id data).2 = .error .closed
  beyond : ∀ data most, bus.config.chunkLimit = some most → most < data.length →
    (bus.write id data).2 = .error (.buffer ⟨data.length, most⟩)

theorem refuses_of_down (hs : b.Sound bus.config.chunkLimit true) (hb : bus.bindings.get? id = some b)
    (ho : b.isOpen = true) (hd : bus.isShutDown = true) : bus.Refuses id where
  empty := write_of_nil hb ho
  within data hne hl := write_of_down hs hb ho hne hl hd
  beyond data most hl hlt := by
    have hne : data ≠ [] := List.ne_nil_of_length_pos (Nat.zero_lt_of_lt hlt)
    rw [write_of_beyond hs hb ho hne (hl ▸ checkLimit_of_lt hlt)]

end Bus

/-! ## Inboxes only get shorter -/

namespace Binding

variable {b b' b'' : Binding} {id : BindingId} {events history : List Event}

theorem dwindles_disconnect (b : Binding) : b.Dwindles b.disconnect := by
  intro s' hs'
  obtain ⟨s, hs, rfl⟩ := Option.map_eq_some_iff.1 hs'
  exact ⟨s, hs, List.suffix_rfl⟩

theorem dwindles_shut (b : Binding) : b.Dwindles b.shut := by
  rw [shut_eq]
  exact (dwindles_disconnect b).trans (dwindles_releaseIfClosed _)

/-- The events lead from `b` to `b'`, two states of the binding `id` after shutdown. -/
structure Drained (id : BindingId) (events : List Event) (b b' : Binding) : Prop where
  wasOpen : b'.isOpen = true → b.isOpen = true
  inbox : b.Dwindles b'
  taken : takenFrom id events <+: b.stream
  rest : b'.isOpen = true → takenFrom id events ++ b'.stream = b.stream
  closed : b.isOpen = false → takenFrom id events = []

theorem Drained.refl (id : BindingId) (b : Binding) : Drained id [] b b :=
  ⟨fun ho => ho, .of_readSide rfl, List.nil_prefix, fun _ => rfl, fun _ => rfl⟩

theorem Drained.trans (h : Drained id events b b') (h' : Drained id history b' b'') :
    Drained id (events ++ history) b b'' where
  wasOpen ho := h.wasOpen (h'.wasOpen ho)
  inbox := h.inbox.trans h'.inbox
  taken := by
    rw [takenFrom_append]
    cases ho : b'.isOpen with
    | true =>
      rw [← h.rest ho]
      exact (List.prefix_append_right_inj _).2 h'.taken
    | false =>
      rw [h'.closed ho, List.append_nil]
      exact h.taken
  rest ho := by
    rw [takenFrom_append, List.append_assoc, h'.rest ho]
    exact h.rest (h'.wasOpen ho)
  closed hc := by
    have hc' : b'.isOpen = false := Bool.eq_false_iff.2 (fun ho => Bool.false_ne_true (hc.symm.trans (h.wasOpen ho)))
    rw [takenFrom_append, h.closed hc, h'.closed hc', List.append_nil]

/-- While nothing is sent, what is taken out of an open stream is its front. -/
theorem Met.drained (h : Met id events b b') (hinbox : b.Dwindles b')
    (hsent : sentTo id b.topic b.kind events = []) (htaken : b'.isOpen = false → takenFrom id events = []) :
    Drained id events b b' := by
  have hrest : b'.isOpen = true → takenFrom id events ++ b'.stream = b.stream := fun ho => by
    rw [h.bytes ho, hsent, List.append_nil]
  refine ⟨h.wasOpen, hinbox, ?_, hrest, fun hc => htaken (Bool.eq_false_iff.2 fun ho => ?_)⟩
  · cases ho : b'.isOpen with
    | true => exact ⟨_, hrest ho⟩
    | false => exact htaken ho ▸ List.nil_prefix
  · exact Bool.false_ne_true (hc.symm.trans (h.wasOpen ho))

theorem drained_disconnect (id : BindingId) (b : Binding) : Drained id [] b b.disconnect :=
  (met_disconnect b).drained (dwindles_disconnect b) rfl (fun _ => rfl)

end Binding

/-! ## Every act after shutdown -/

namespace Desk

variable {d : Desk} {id : BindingId} {b : Binding} {act : Act}

/-- **A bus that is shut down stays so**, and its settings never change. -/
theorem frame_apply (d : Desk) (act : Act) : (d.apply act).bus.config = d.bus.config ∧
    (d.bus.isShutDown = true → (d.apply act).bus.isShutDown = true) := by
  have honBinding : ∀ {α : Type} (i : BindingId) (absent : α) (f : Binding → Binding × α),
      (d.bus.onBinding i absent f).1.config = d.bus.config ∧
        (d.bus.isShutDown = true → (d.bus.onBinding i absent f).1.isShutDown = true) := by
    intro α i absent f
    unfold Bus.onBinding
    split <;> exact ⟨rfl, fun hd => hd⟩
  have hadvance : ∀ polled, (d.advance polled).bus.config = d.bus.config ∧
      (d.bus.isShutDown = true → (d.advance polled).bus.isShutDown = true) := by
    rintro (_ | ⟨name, i, p⟩) <;> exact ⟨rfl, fun hd => hd⟩
  cases act with
  | create _ | destroy _ => exact ⟨rfl, fun hd => hd⟩
  | shutdown => exact ⟨rfl, fun _ => rfl⟩
  | openBinding o =>
    have hout := Bus.opened_openBinding d.bus o
    simp only [apply]
    generalize d.bus.openBinding o = result at hout ⊢
    cases hout <;> exact ⟨rfl, fun hd => hd⟩
  | close i =>
    simp only [apply]
    rcases Bus.close_cases d.bus i with ⟨-, he⟩ | ⟨_, -, -, he⟩ <;> rw [he] <;> exact ⟨rfl, fun hd => hd⟩
  | write i data =>
    obtain ⟨hconfig, hdown⟩ := Bus.frame_write d.bus i data
    exact ⟨hconfig, fun hd => hdown.trans hd⟩
  | read i wanted => exact honBinding i _ _
  | tryRead i wanted => exact honBinding i _ _
  | readAll i wanted => exact honBinding i _ _
  | start _ _ _ | startAll _ _ _ | poll _ => exact hadvance _
  | cancel name =>
    simp only [apply, cancel]
    split
    · exact ⟨rfl, fun hd => hd⟩
    · exact honBinding _ _ _

theorem frame_after (d : Desk) (acts : List Act) : (d.after acts).bus.config = d.bus.config ∧
    (d.bus.isShutDown = true → (d.after acts).bus.isShutDown = true) := by
  induction acts generalizing d with
  | nil => exact ⟨rfl, fun hd => hd⟩
  | cons act acts ih =>
    obtain ⟨hconfig, hdown⟩ := frame_apply d act
    obtain ⟨hconfig', hdown'⟩ := ih (d.apply act)
    exact ⟨hconfig'.trans hconfig, fun hd => hdown' (hdown hd)⟩

/-- Nothing is sent after shutdown: the writes that are answered with success were empty. -/
theorem sentTo_of_down (hd : d.bus.isShutDown = true) (act : Act) (id : BindingId) (topic : Topic) (kind : Kind) :
    sentTo id topic kind (d.events act) = [] := by
  refine List.flatMap_eq_nil_iff.2 (fun e he => ?_)
  cases leaves_of_mem_events he with
  | opened _ _ | closed _ | took _ _ _ => rfl
  | wrote i writer data =>
    have hdata : data = [] := by
      simp only [events] at he
      split at he
      · rename_i hn
        exact Bus.eq_nil_of_write_ok hd hn
      · cases he
    rw [hdata]
    exact ite_self []

/-- Inboxes grow by writes only. -/
theorem Aside.dwindles {b' : Binding} (h : Aside id b act b') (hact : ∀ i data, act ≠ .write i data) : b.Dwindles b' := by
  cases h with
  | same | cancelled => exact .of_readSide rfl
  | ended => exact b.dwindles_disconnect
  | closed => exact b.dwindles_shut
  | passed => exact absurd rfl (hact _ _)

/-- What an act that does not read does to an inbox after shutdown. -/
theorem dwindles_of_not_reads (h : d.Good) (hd : d.bus.isShutDown = true) (hb : d.bus.bindings.get? id = some b)
    (hr : act.reads = false) : ∃ b', (d.apply act).bus.bindings.get? id = some b' ∧ b.Dwindles b' := by
  cases act with
  | write i data =>
    obtain ⟨b', hb', hp⟩ := Bus.passed_of_down hd i data hb
    exact ⟨b', hb', .of_readSide hp.readSide⟩
  | _ =>
    obtain ⟨b', hb', haside⟩ := aside_apply h hb hr
    exact ⟨b', hb', haside.dwindles (fun _ _ => Act.noConfusion)⟩

/-- **An act after shutdown** only takes from the front of a binding's stream. -/
theorem drained_apply (h : d.Good) (hd : d.bus.isShutDown = true) (hb : d.bus.bindings.get? id = some b) (act : Act) :
    ∃ b', (d.apply act).bus.bindings.get? id = some b' ∧ b.Drained id (d.events act) b' := by
  obtain ⟨b', hb', hmet⟩ := (deed_apply h act).met hb
  have hsent := sentTo_of_down hd act id b.topic b.kind
  refine ⟨b', hb', ?_⟩
  -- the books are kept by every act; what remains is the inbox, and that a binding that is closed afterwards gave nothing
  cases hr : act.reads with
  | true =>
    obtain ⟨parts, b₁, hb₁, hmoves, htaken⟩ := moves_apply h hb hr
    obtain rfl := Option.some.inj (hb'.symm.trans hb₁)
    refine hmet.drained hmoves.dwindles hsent (fun hc => ?_)
    rw [htaken, hmoves.parts_of_closed (hmoves.isOpen.symm.trans hc)]
    rfl
  | false =>
    obtain ⟨b₁, hb₁, hdwindles⟩ := dwindles_of_not_reads h hd hb hr
    obtain rfl := Option.some.inj (hb'.symm.trans hb₁)
    exact hmet.drained hdwindles hsent (fun _ => takenFrom_of_not_reads hr id)

/-- **Nothing is opened after shutdown.** -/
theorem unborn_apply (h : d.Good) (hd : d.bus.isShutDown = true) (hn : d.bus.bindings.get? id = none) (act : Act) :
    (d.apply act).bus.bindings.get? id = none := by
  rcases (deed_apply h act).unborn hn with ⟨hn', -⟩ | ⟨hevents, -⟩
  · exact hn'
  · have hleaves : act.Leaves (.opened id) := leaves_of_mem_events (d := d) (hevents ▸ List.mem_singleton_self _)
    cases hleaves with
    | opened o =>
      simp only [events, Bus.openBinding_of_down hd] at hevents
      cases hevents

/-! ## All acts after shutdown -/

theorem drained_after (h : d.Good) (hd : d.bus.isShutDown = true) (hb : d.bus.bindings.get? id = some b)
    (acts : List Act) : ∃ b', (d.after acts).bus.bindings.get? id = some b' ∧ b.Drained id (d.history acts) b' := by
  induction acts generalizing d b with
  | nil => exact ⟨b, hb, .refl id b⟩
  | cons act acts ih =>
    obtain ⟨b₁, hb₁, hdrained₁⟩ := drained_apply h hd hb act
    obtain ⟨b₂, hb₂, hdrained₂⟩ := ih (good_apply h act) ((frame_apply d act).2 hd) hb₁
    exact ⟨b₂, hb₂, hdrained₁.trans hdrained₂⟩

theorem unborn_after (h : d.Good) (hd : d.bus.isShutDown = true) (hn : d.bus.bindings.get? id = none)
    (acts : List Act) : (d.after acts).bus.bindings.get? id = none := by
  induction acts generalizing d with
  | nil => exact hn
  | cons act acts ih => exact ih (good_apply h act) ((frame_apply d act).2 hd) (unborn_apply h hd hn act)

end Desk

/-! ## The rest of a run -/

namespace Session

variable {s : Session} {id : BindingId} {b b' : Binding}

/-- A bus goes on with the settings that it was made with. -/
theorem config_run (config : Config) (ops : List Op) : ((new config).run ops).bus.config = config := by
  have hafter := (Desk.frame_after (new config).desk ((new config).trail ops)).1
  rw [← desk_run] at hafter
  exact hafter

/-- **What is left of a binding** after any operations on a bus that is shut down. -/
theorem drained_run (h : s.desk.Good) (hd : s.bus.isShutDown = true) {ops : List Op}
    (hb' : (s.run ops).bus.bindings.get? id = some b') :
    ∃ b, s.bus.bindings.get? id = some b ∧ b.Drained id (s.desk.history (s.trail ops)) b' := by
  have hafter : (s.desk.after (s.trail ops)).bus.bindings.get? id = some b' := by
    rw [← desk_run]
    exact hb'
  cases hb : s.bus.bindings.get? id with
  | none => exact nomatch hafter.symm.trans (Desk.unborn_after h hd hb _)
  | some b =>
    obtain ⟨b₁, hb₁, hdrained⟩ := Desk.drained_after h hd hb (s.trail ops)
    obtain rfl := Option.some.inj (hafter.symm.trans hb₁)
    exact ⟨b, rfl, hdrained⟩

/-- Nothing is opened and nothing is sent any more, and there are no routes. -/
structure Ended (s : Session) : Prop where
  opens : ∀ o, s.bus.openBinding o = (s.bus, .error .closed)
  binds : ∀ name o, s.step (.openBinding name o) = (s, .failed .closed)
  connects : ∀ transport o, s.step (.connect transport o) = (s, .failed .closed)
  /-- A transport that is open already asks for no binding. -/
  fills : ∀ transport t, s.transports.get? transport = some t → s.live? t = none →
    s.step (.onTransport transport .openBinding) = (s, .failed .closed)
  writes : ∀ id b, s.bus.bindings.get? id = some b → b.isOpen = true → s.bus.Refuses id
  routes : s.bus.routes = .empty
  stats : ∀ topic, s.bus.topicStats topic = none

theorem ended_of_down (h : s.desk.Good) (hd : s.bus.isShutDown = true) : s.Ended where
  opens o := Bus.openBinding_of_down hd o
  binds name o := by simp only [step, Bus.openBinding_of_down hd]
  connects transport o := by simp only [step, connect, Bus.openBinding_of_down hd, Answer.ofExcept]
  fills transport t ht hlive := by
    simp only [step, named, ht, stepTransport, openTransport, hlive, Option.isSome_none, Bool.false_eq_true,
      if_false, Bus.openBinding_of_down hd, Answer.ofExcept]
  writes id b hb ho := Bus.refuses_of_down (hd ▸ h.sound id b hb) hb ho hd
  routes := h.agrees.ended hd
  stats topic := by
    have hroutes : s.bus.routes = .empty := h.agrees.ended hd
    rw [Bus.topicStats, hroutes]
    rfl

/-- **What reads come to** on an open binding of a bus that is shut down. -/
theorem reads_of_down (h : s.desk.Good) (hd : s.bus.isShutDown = true) (hl : s.bus.config.chunkLimit ≠ some 0)
    (hb : s.bus.bindings.get? id = some b) (ho : b.isOpen = true) :
    (b.line = [] → b.RunsDry s.bus.config.chunkLimit) ∧
      ∀ name r, s.reads.get? name = some r → b.line.head? = some name →
        (s.step (.poll name)).2 = .ofProgress (b.poll s.bus.config.chunkLimit name r.read).progress ∧
          b.Finishes s.bus.config.chunkLimit name r.read := by
  have hs : b.Sound s.bus.config.chunkLimit true := hd ▸ h.sound id b hb
  refine ⟨fun hline => Binding.runsDry hs ho hline hl, fun name r hr hhead => ?_⟩
  obtain ⟨r', hr', rfl⟩ := (h.line id b hb name).1 (List.mem_of_mem_head? hhead)
  obtain rfl := Option.some.inj (hr.symm.trans hr')
  obtain ⟨hw, b', hb', hready⟩ := h.reads name r hr
  obtain rfl := Option.some.inj (hb.symm.trans hb')
  exact ⟨congrArg Prod.snd (step_poll hr hb), Binding.finishes hs ho hl hw (fun hp => (hready hp).2) hhead⟩

/-- **When a binding is closed**: when that is asked for, or when its last holder is gone. -/
theorem closed_iff (h : s.desk.Good) (ht : s.Tended) {op : Op} (ho : s.bus.isOpen id = true) :
    (s.step op).1.bus.isOpen id = false ↔
      (s.closes? op = some id ∧ (s.step op).2 = .done) ∨ (s.step op).1.isHeld id = false := by
  refine ⟨cause_of_closing h ho, ?_⟩
  rintro (⟨hcloses, -⟩ | hheld)
  · obtain ⟨b, hb, hbo⟩ := Bus.isOpen_iff.1 ho
    rw [Bus.isOpen, shut_of_closes? hcloses hb hbo, Option.any_some, b.shut_isOpen]
  · refine Bool.eq_false_iff.2 (fun ho' => ?_)
    exact Bool.false_ne_true (hheld.symm.trans (tended_step h ht op id ho'))

/-- **Shutdown drains the bus and is final.**  Let a bus be shut down after any run, and let the run go on in any way.
Nothing is opened any more, no write is answered with success unless it is empty, there are no routes, and no inbox
gains a chunk.  What the reads of a binding took after the shutdown is the front of the stream that it had then, and
while it is open the rest of that stream is still there.  A read of an open binding that has the read side finishes
without waiting, with bytes as long as there are any and told that the binding is closed when there are none; then the
read side is given up, and the binding stays open.  The shutdown leaves the registry as it was, which goes on to count
the open bindings; and a binding is closed exactly when that is asked for or its last holder is gone. -/
theorem shutdown_drains (config : Config) (hl : config.chunkLimit ≠ some 0) (ops rest : List Op) :
    let s := (new config).run ops
    let t := (s.step .shutdown).1.run rest
    t.Ended ∧
    (∀ more id b', (t.run more).bus.bindings.get? id = some b' →
      ∃ b, t.bus.bindings.get? id = some b ∧ b.Dwindles b') ∧
    (∀ id b', t.bus.bindings.get? id = some b' → ∃ b taken, s.bus.bindings.get? id = some b ∧
      takenFrom id (historyOf config (ops ++ .shutdown :: rest)) = takenFrom id (historyOf config ops) ++ taken ∧
      taken <+: b.stream ∧ (b'.isOpen = true → taken ++ b'.stream = b.stream)) ∧
    (∀ id b, t.bus.bindings.get? id = some b → b.isOpen = true →
      (b.line = [] → b.RunsDry config.chunkLimit) ∧
      ∀ name r, t.reads.get? name = some r → b.line.head? = some name →
        (t.step (.poll name)).2 = .ofProgress (b.poll config.chunkLimit name r.read).progress ∧
          b.Finishes config.chunkLimit name r.read) ∧
    (s.step .shutdown).1.bus.registry = s.bus.registry ∧ t.bus.Counted ∧
    ∀ op id, t.bus.isOpen id = true → ((t.step op).1.bus.isOpen id = false ↔
      (t.closes? op = some id ∧ (t.step op).2 = .done) ∨ (t.step op).1.isHeld id = false) := by
  intro s t
  have hrun : (new config).run (ops ++ .shutdown :: rest) = t := run_append _ _ _
  have hgood : s.desk.Good := good_run config ops
  have hgood' : t.desk.Good := hrun ▸ good_run config _
  have htended : t.Tended := hrun ▸ tended_run config _
  have hdown : t.bus.isShutDown = true := by
    have hafter := (Desk.frame_after (s.step .shutdown).1.desk ((s.step .shutdown).1.trail rest)).2 rfl
    rwa [← desk_run] at hafter
  have hconfig : t.bus.config = config := hrun ▸ config_run config _
  refine ⟨ended_of_down hgood' hdown, fun more id b' hb' => ?_, fun id b' hb' => ?_, fun id b hb ho => ?_, rfl,
    hgood'.agrees.counted, fun op id => closed_iff hgood' htended⟩
  · obtain ⟨b, hb, hdrained⟩ := drained_run hgood' hdown hb'
    exact ⟨b, hb, hdrained.inbox⟩
  · obtain ⟨b₁, hb₁, hdrained⟩ := drained_run (good_step hgood .shutdown) rfl hb'
    obtain ⟨b, hb, rfl⟩ := Option.map_eq_some_iff.1 ((Table.get?_mapValues _ _ _).symm.trans hb₁)
    have hall := (Binding.drained_disconnect id b).trans hdrained
    refine ⟨b, _, hb, ?_, hall.taken, hall.rest⟩
    rw [historyOf_append, takenFrom_append]
    rfl
  · have hreads := reads_of_down hgood' hdown (hconfig.symm ▸ hl) hb ho
    rwa [hconfig] at hreads

/-- A read is suspended and two chunks have come when the bus is shut down; they are read, and then the end. -/
theorem shutdown_drains_two :
    let ops := twoPeers ++ [.start "b" "first" 2, .onBinding "a" (.write [1, 2, 3]), .onBinding "a" (.write [4])]
    let rest := [.poll "first", .onBinding "b" (.read 9)]
    let t := (((new {}).run ops).step .shutdown).1.run rest
    takenFrom ⟨6⟩ (historyOf {} (ops ++ .shutdown :: rest)) = [1, 2, 3, 4] ∧
      ∃ b b', t.bus.bindings.get? ⟨6⟩ = some b ∧ b.read none 1 = (b', .error (.failed .closed)) ∧
        b'.readSide = none ∧ b'.readCapacity = 0 ∧ b'.isOpen = true := by
  intro ops rest t
  obtain ⟨-, -, htaken, hreads, -⟩ := shutdown_drains {} nofun ops rest
  have hbefore : (((new {}).run ops).bus.bindings.get? ⟨6⟩).map (·.stream) = some [1, 2, 3, 4] ∧
      takenFrom ⟨6⟩ (historyOf {} ops) = [] := by decide +kernel
  have hafter : (t.bus.bindings.get? ⟨6⟩).map (fun b => (b.isOpen, b.line, b.stream)) = some (true, [], []) := by
    decide +kernel
  obtain ⟨b, hb, he⟩ := Option.map_eq_some_iff.1 hafter
  simp only [Prod.mk.injEq] at he
  obtain ⟨ho, hline, hstream⟩ := he
  refine ⟨?_, ?_⟩
  · obtain ⟨b₀, taken, hb₀, htaken, -, hrest⟩ := htaken ⟨6⟩ b hb
    have hstream₀ : b₀.stream = [1, 2, 3, 4] := by
      have hmap := hbefore.1
      rw [hb₀] at hmap
      exact Option.some.inj hmap
    rw [htaken, hbefore.2, List.nil_append, ← hstream₀, ← hrest ho, hstream, List.append_nil]
  · obtain ⟨result, b', hdrains, hread, -⟩ := ((hreads ⟨6⟩ b hb ho).1 hline).upTo 1 Nat.one_pos
    obtain ⟨rfl, hreadSide, hcapacity⟩ := hdrains.dry hstream
    exact ⟨b, b', hb, hread, hreadSide, hcapacity, hdrains.isOpen⟩

end Session
end TopicBus
