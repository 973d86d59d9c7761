import TopicBus.Proofs.FailedWrites
import TopicBus.Proofs.Traffic
/-!
# What one act adds to the figures

Figures of what passes are kept by three parts of the bus: each binding counts the chunks that it wrote, each inbox has
its chunks, and each route counts what was published on its topic and how many inboxes took it.  Only a write that goes
out moves them.  It adds one at its writer, one in each inbox of its audience, and the same to the route
(`Bus.Agrees.sent_write`); every other act leaves the counts as they are and adds to no inbox (`Desk.quiet_apply`).
-/
namespace TopicBus

/-! ## The figures -/

namespace Routes

/-- The chunks published on a topic since its route began. -/
def published (routes : Routes) (t : Topic) : Nat := ((routes.get? t).map (·.published)).getD 0

/-- The chunks put into inboxes since the route of a topic began. -/
def deliveries (routes : Routes) (t : Topic) : Nat := ((routes.get? t).map (·.deliveries)).getD 0

end Routes

namespace Bus

/-- The chunks that a binding wrote. -/
def chunksWritten (bus : Bus) (id : BindingId) : Nat := ((bus.bindings.get? id).map (·.traffic.chunksWritten)).getD 0

/-- The chunks that wait in the inbox of a binding. -/
def inbox (bus : Bus) (id : BindingId) : List Bytes := ((bus.bindings.get? id).map (·.queue)).getD []

variable {bus bus' : Bus} {i id : BindingId} {w b : Binding} {data : Bytes}

theorem chunksWritten_of_some (hb : bus.bindings.get? id = some b) : bus.chunksWritten id = b.traffic.chunksWritten := by
  rw [chunksWritten, hb]
  rfl

theorem inbox_of_some (hb : bus.bindings.get? id = some b) : bus.inbox id = b.queue := by
  rw [inbox, hb]
  rfl

theorem chunksWritten_of_none (hn : bus.bindings.get? id = none) : bus.chunksWritten id = 0 := by
  rw [chunksWritten, hn]
  rfl

theorem inbox_of_none (hn : bus.bindings.get? id = none) : bus.inbox id = [] := by
  rw [inbox, hn]
  rfl

/-- From `bus` to `bus'` no chunk was counted or put into an inbox.  A route that is there goes on with its counts. -/
structure Quiet (bus bus' : Bus) : Prop where
  written : ∀ id, bus'.chunksWritten id = bus.chunksWritten id
  inbox : ∀ id, (bus'.inbox id).length ≤ (bus.inbox id).length
  routes : ∀ t route, bus'.routes.get? t = some route →
    route.published = bus.routes.published t ∧ route.deliveries = bus.routes.deliveries t

/-- From `bus` to `bus'` the chunk `data` of the binding `i`, opened as `w`, went to its audience. -/
structure Sent (bus : Bus) (i : BindingId) (w : Terms) (data : Bytes) (bus' : Bus) : Prop where
  written : ∀ id, bus'.chunksWritten id = bus.chunksWritten id + if id = i then 1 else 0
  inbox : ∀ id, bus'.inbox id = if id ∈ bus.audience w then bus.inbox id ++ [data] else bus.inbox id
  routes : ∃ route, bus.routes.get? w.topic = some route ∧
    bus'.routes = bus.routes.insert w.topic (route.count (bus.audience w).length)

/-! ## A write that goes out -/

/-- **The route of the writer counts** a chunk that goes out once for each of its audience. -/
theorem Agrees.routes_sent (h : bus.Agrees)
    (hs : ∀ id b, bus.bindings.get? id = some b → b.Sound bus.config.chunkLimit bus.isShutDown) {n : Nat}
    (hne : data ≠ []) (hok : (bus.write i data).2 = .ok n) :
    ∃ w, bus.bindings.get? i = some w ∧ w.isOpen = true ∧ ∃ route, bus.routes.get? w.topic = some route ∧
      (bus.write i data).1.routes = bus.routes.insert w.topic (route.count (bus.audience w.toTerms).length) := by
  obtain ⟨_, -, -, -, -, hsent⟩ := write_passed bus i data
  obtain ⟨w, hw, ho, hd, -⟩ := hsent n hok hne
  obtain ⟨route, hr, hperm⟩ := h.targets_perm_audience hd hw ho
  refine ⟨w, hw, ho, route, hr, ?_⟩
  have hin : ∀ id ∈ route.targets w.id w.target, id ≠ i ∧
      ∃ b s, bus.bindings.get? id = some b ∧ b.readSide = some s := fun id hm => by
    have haud := hperm.mem_iff.1 hm
    exact ⟨fun hid => (mem_audience.1 haud).1 (hid.trans (h.issued i w hw).1.symm), exists_inbox hs hd haud⟩
  have hout := written bus i data
  generalize bus.write i data = result at hout hok ⊢
  cases hout with
  | refused _ | failed _ _ _ => cases hok
  | empty hnil => exact absurd hnil hne
  | unrouted hw' _ _ hr' =>
    obtain rfl := Option.some.inj (hw.symm.trans hw')
    cases hr.symm.trans hr'
  | delivered hw' _ _ hr' =>
    obtain rfl := Option.some.inj (hw.symm.trans hw')
    obtain rfl := Option.some.inj (hr.symm.trans hr')
    rw [routes_delivered hin, hperm.length_eq]

/-- **A write that goes out** adds to the figures of its writer, of its audience and of its route. -/
theorem Agrees.sent_write (h : bus.Agrees)
    (hs : ∀ id b, bus.bindings.get? id = some b → b.Sound bus.config.chunkLimit bus.isShutDown) {n : Nat}
    (hne : data ≠ []) (hok : (bus.write i data).2 = .ok n) :
    ∃ w, bus.bindings.get? i = some w ∧ w.isOpen = true ∧ bus.Sent i w.toTerms data (bus.write i data).1 := by
  obtain ⟨w, hw, ho, hroutes⟩ := h.routes_sent hs hne hok
  obtain ⟨_, -, hnone, -⟩ := write_passed bus i data
  refine ⟨w, hw, ho, fun id => ?_, fun id => ?_, hroutes⟩
  · cases hb : bus.bindings.get? id with
    | none =>
      have hid : id ≠ i := Table.ne_of_get? hb hw
      rw [chunksWritten_of_none hb, chunksWritten_of_none (hnone id hb), if_neg hid]
    | some b =>
      obtain ⟨b', hb', htraffic⟩ := traffic_write i data hb
      rw [chunksWritten_of_some hb, chunksWritten_of_some hb', htraffic, hok]
      by_cases hid : id = i <;> simp [hid, hne, Traffic.onWrite, Except.isOk, Except.toBool]
  · cases hb : bus.bindings.get? id with
    | none =>
      have hid : id ∉ bus.audience w.toTerms := fun hm => by
        obtain ⟨-, b, hb', -⟩ := mem_audience.1 hm
        cases hb.symm.trans hb'
      rw [inbox_of_none hb, inbox_of_none (hnone id hb), if_neg hid]
    | some b =>
      obtain ⟨b', hb', hqueue⟩ := h.queue_write (hs id b hb) i data hb
      rw [inbox_of_some hb, inbox_of_some hb', hqueue]
      exact if_congr (mem_recipients_of_ok hw hne hok) rfl rfl

/-- **A write that is refused or empty** is in no figure of any topic, binding or inbox. -/
theorem figures_unsent (hs : ∀ id b, bus.bindings.get? id = some b → b.Sound bus.config.chunkLimit bus.isShutDown)
    (hun : data = [] ∨ ∃ fault, (bus.write i data).2 = .error fault) :
    (bus.write i data).1.routes = bus.routes ∧ ∀ id,
      (bus.write i data).1.chunksWritten id = bus.chunksWritten id ∧ (bus.write i data).1.inbox id = bus.inbox id := by
  cases hw : bus.bindings.get? i with
  | none =>
    rw [show (bus.write i data).1 = bus by rw [write, hw]]
    exact ⟨rfl, fun _ => ⟨rfl, rfl⟩⟩
  | some w =>
    obtain ⟨room, seen, he⟩ := write_unsent (hs i w hw) hw hun
    rw [he]
    refine ⟨rfl, fun id => ?_⟩
    rw [chunksWritten, inbox, put, Table.get?_insert]
    by_cases hid : id = i
    · rw [if_pos hid, hid, chunksWritten_of_some hw, inbox_of_some hw]
      exact ⟨rfl, rfl⟩
    · rw [if_neg hid]
      exact ⟨rfl, rfl⟩

/-! ## The routes of every other act -/

theorem Quiet.routes_of_eq (hr : bus'.routes = bus.routes) {t : Topic} {route : Route}
    (h : bus'.routes.get? t = some route) :
    route.published = bus.routes.published t ∧ route.deliveries = bus.routes.deliveries t := by
  rw [hr] at h
  rw [Routes.published, Routes.deliveries, h]
  exact ⟨rfl, rfl⟩

end Bus

namespace Routes

variable {routes : Routes} {t topic : Topic} {id : BindingId} {kind : Kind} {route : Route}

theorem counts_join (h : (routes.join topic id kind).get? t = some route) :
    route.published = routes.published t ∧ route.deliveries = routes.deliveries t := by
  rcases Table.of_get?_insert h with ⟨rfl, rfl⟩ | ⟨-, h⟩
  · unfold published deliveries
    cases routes.get? t <;> exact ⟨rfl, rfl⟩
  · rw [published, deliveries, h]
    exact ⟨rfl, rfl⟩

theorem counts_leave (h : (leave routes topic id).get? t = some route) :
    route.published = routes.published t ∧ route.deliveries = routes.deliveries t := by
  have hsame : routes.get? t = some route →
      route.published = routes.published t ∧ route.deliveries = routes.deliveries t := fun hr => by
    rw [published, deliveries, hr]
    exact ⟨rfl, rfl⟩
  unfold leave at h
  split at h
  · exact hsame h
  · rename_i old hold
    split at h
    · exact hsame (Table.of_get?_erase h).2
    · rcases Table.of_get?_insert h with ⟨rfl, rfl⟩ | ⟨-, h⟩
      · rw [published, deliveries, hold]
        exact ⟨rfl, rfl⟩
      · exact hsame h

end Routes

/-! ## Every other act -/

namespace Binding

theorem Dwindles.length_queue_le {b b' : Binding} (h : b.Dwindles b') : b'.queue.length ≤ b.queue.length := by
  cases hr : b'.readSide with
  | none =>
    rw [queue_of_none hr]
    exact Nat.zero_le _
  | some s' =>
    obtain ⟨s, hs, hsuffix⟩ := h s' hr
    rw [queue_of_some hr, queue_of_some hs]
    exact hsuffix.length_le

end Binding

namespace Desk

variable {d : Desk} {id : BindingId} {b b' : Binding} {act : Act}

/-- The act is a write that goes out. -/
def Sends (d : Desk) (act : Act) : Prop :=
  ∃ i data n, act = .write i data ∧ data ≠ [] ∧ (d.bus.write i data).2 = .ok n

theorem unsent_of_quiet {i : BindingId} {data : Bytes} (h : ¬d.Sends (.write i data)) :
    ¬(data ≠ [] ∧ (d.bus.write i data).2.isOk = true) := by
  rintro ⟨hne, hisOk⟩
  cases hok : (d.bus.write i data).2 with
  | ok n => exact h ⟨i, data, n, rfl, hne, hok⟩
  | error fault =>
    rw [hok] at hisOk
    cases hisOk

theorem written_of_quiet (h : d.Good) (hact : ¬d.Sends act) (id : BindingId) :
    (d.apply act).bus.chunksWritten id = d.bus.chunksWritten id := by
  have hnone : chunksBy id (d.events act) = [] := by
    cases act with
    | write i data => exact payloads_of_unsent (unsent_of_quiet hact) _
    | _ => exact payloads_events (fun _ _ => Act.noConfusion) _
  cases hb : d.bus.bindings.get? id with
  | some b =>
    obtain ⟨b', hb', htally⟩ := tallied_apply h hb act
    rw [Bus.chunksWritten_of_some hb, Bus.chunksWritten_of_some hb', htally.chunksWritten, hnone]
    rfl
  | none =>
    rw [Bus.chunksWritten_of_none hb]
    cases hb' : (d.apply act).bus.bindings.get? id with
    | none => exact Bus.chunksWritten_of_none hb'
    | some b' =>
      obtain ⟨-, -, htraffic, -⟩ := fresh_of_unborn h hb hb'
      rw [Bus.chunksWritten_of_some hb', htraffic]

theorem inbox_of_quiet (h : d.Good) (hact : ¬d.Sends act) (id : BindingId) :
    ((d.apply act).bus.inbox id).length ≤ (d.bus.inbox id).length := by
  cases hb : d.bus.bindings.get? id with
  | none =>
    cases hb' : (d.apply act).bus.bindings.get? id with
    | none =>
      rw [Bus.inbox_of_none hb']
      exact Nat.zero_le _
    | some b' =>
      obtain ⟨-, -, -, -, hqueue⟩ := fresh_of_unborn h hb hb'
      rw [Bus.inbox_of_some hb', hqueue]
      exact Nat.zero_le _
  | some b =>
    suffices hd : ∃ b', (d.apply act).bus.bindings.get? id = some b' ∧ b'.queue.length ≤ b.queue.length by
      obtain ⟨b', hb', hle⟩ := hd
      rwa [Bus.inbox_of_some hb, Bus.inbox_of_some hb']
    cases hr : act.reads with
    | true =>
      obtain ⟨_, b', hb', hmoves, -⟩ := moves_apply h hb hr
      exact ⟨b', hb', hmoves.dwindles.length_queue_le⟩
    | false =>
      cases act with
      | write i data =>
        obtain ⟨b', hb', hqueue⟩ := h.agrees.queue_write (h.sound id b hb) i data hb
        rw [if_neg (recipients_of_unsent (unsent_of_quiet hact))] at hqueue
        exact ⟨b', hb', Nat.le_of_eq (congrArg List.length hqueue)⟩
      | _ =>
        obtain ⟨b', hb', haside⟩ := aside_apply h hb hr
        exact ⟨b', hb', (haside.dwindles (fun _ _ => Act.noConfusion)).length_queue_le⟩

theorem routes_onBinding {α : Type} (bus : Bus) (id : BindingId) (absent : α) (f : Binding → Binding × α) :
    (bus.onBinding id absent f).1.routes = bus.routes := by
  unfold Bus.onBinding
  split <;> rfl

theorem routes_advance (d : Desk) (polled : Option (ReadName × BindingId × Polled)) :
    (d.advance polled).bus.routes = d.bus.routes := by
  rcases polled with _ | ⟨name, id, p⟩ <;> rfl

/-- A write that is empty or refused leaves the routes as they are. -/
theorem routes_of_unsent (h : d.Good) {i : BindingId} {data : Bytes} (hact : ¬d.Sends (.write i data)) :
    (d.bus.write i data).1.routes = d.bus.routes := by
  have hun : data = [] ∨ ∃ fault, (d.bus.write i data).2 = .error fault := by
    by_contra hsent
    rw [not_or] at hsent
    cases hok : (d.bus.write i data).2 with
    | ok n => exact hact ⟨i, data, n, rfl, hsent.1, hok⟩
    | error fault => exact hsent.2 ⟨fault, hok⟩
  exact (Bus.figures_unsent h.sound hun).1

theorem routes_of_quiet (h : d.Good) (hact : ¬d.Sends act) {t : Topic} {route : Route}
    (hr : (d.apply act).bus.routes.get? t = some route) :
    route.published = d.bus.routes.published t ∧ route.deliveries = d.bus.routes.deliveries t := by
  cases act with
  | create what | destroy object => exact Bus.Quiet.routes_of_eq rfl hr
  | shutdown => cases hr
  | openBinding o =>
    have hout := Bus.opened_openBinding d.bus o
    simp only [apply] at hr
    generalize d.bus.openBinding o = result at hout hr
    cases hout with
    | refused _ => exact Bus.Quiet.routes_of_eq rfl hr
    | opened _ _ _ => exact Routes.counts_join hr
  | close i =>
    simp only [apply] at hr
    rcases Bus.close_cases d.bus i with ⟨-, he⟩ | ⟨b, -, -, he⟩
    · rw [he] at hr
      exact Bus.Quiet.routes_of_eq rfl hr
    · rw [he] at hr
      exact Routes.counts_leave hr
  | write i data => exact Bus.Quiet.routes_of_eq (routes_of_unsent h hact) hr
  | read i wanted | tryRead i wanted | readAll i wanted => exact Bus.Quiet.routes_of_eq (routes_onBinding _ i _ _) hr
  | start _ _ _ | startAll _ _ _ | poll _ => exact Bus.Quiet.routes_of_eq (routes_advance d _) hr
  | cancel name =>
    refine Bus.Quiet.routes_of_eq ?_ hr
    simp only [apply, cancel]
    split
    · rfl
    · exact routes_onBinding _ _ _ _

/-- **An act that sends nothing** leaves the figures as they are. -/
theorem quiet_apply (h : d.Good) (hact : ¬d.Sends act) : d.bus.Quiet (d.apply act).bus :=
  ⟨written_of_quiet h hact, inbox_of_quiet h hact, fun _ _ => routes_of_quiet h hact⟩

end Desk
end TopicBus
