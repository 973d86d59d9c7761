import TopicBus.Proofs.Views
/-!
# Opening a binding

An opening is decided before anything is touched.  Its obstacles come in one order (`Bus.obstacles`): the bus is shut
down, the limit does not allow one of the capacities, or something that the options name is not live.  The first of them
is the answer and leaves the bus as it is (`Bus.openBinding_of_obstacle`); if there is none, one binding is added to the
three views of who is connected and nothing else is changed (`Bus.Agrees.joined_openBinding`).

Opening and closing undo each other.  A binding that is closed straight away leaves the registry without its reference
counts and the routes as they were found, but for the key that was issued (`Registry.release_acquire`,
`Routes.leave_join`).
-/
namespace TopicBus

/-! ## Changes that are taken back -/

namespace Table

variable {κ α : Type} [DecidableEq κ]

theorem adjust_adjust_cancel (t : Table κ α) (k : κ) {f g : α → α} (h : ∀ a, g (f a) = a) :
    (t.adjust k f).adjust k g = t := by
  apply ext_entries
  simp only [adjust, mapValues, List.map_map]
  refine (List.map_congr_left (fun e _ => ?_)).trans (List.map_id _)
  simp only [Function.comp_apply]
  split
  · rw [h]
    rfl
  · rfl

/-- There is nothing to erase under a key that has no entry. -/
theorem erase_of_none {t : Table κ α} {k : κ} (h : t.get? k = none) : t.erase k = t := by
  refine ext_entries (List.filter_eq_self.2 (fun e he => ?_))
  have hk : e.1 ≠ k := fun hek => get?_eq_none_iff.1 h (hek ▸ List.mem_map_of_mem he)
  simpa using hk

/-- A new entry that is erased again. -/
theorem erase_insert_of_none {t : Table κ α} {k : κ} (h : t.get? k = none) (a : α) : (t.insert k a).erase k = t := by
  have hk : ∀ e ∈ t.entries, e.1 ≠ k := fun e he hek => get?_eq_none_iff.1 h (hek ▸ List.mem_map_of_mem he)
  apply ext_entries
  rw [entries_erase (entries_insert_of_none h a) hk nofun, List.append_nil]

end Table

namespace Routes

/-- **Joining a route and leaving it** leaves no trace, on routes that nobody has to himself. -/
theorem leave_join {routes : Routes} {t : Topic} {id : BindingId} (k : Kind) (hn : routes.listing t id = none)
    (hne : ∀ route, routes.get? t = some route → route.subscribers.size ≠ 0) :
    leave (routes.join t id k) t id = routes := by
  have hjoin : (routes.join t id k).get? t = some (((routes.get? t).getD .empty).add id k) :=
    Table.get?_insert_self routes t _
  -- whoever has just joined is not there twice
  have hadd : ∀ route : Route, route.subscribers.get? id = none → (route.add id k).remove id = route := fun route hid =>
    congrArg (Route.mk · _ _) (Table.erase_insert_of_none hid k)
  simp only [leave, hjoin]
  cases hr : routes.get? t with
  | none =>
    have hempty : Route.empty.subscribers.size = 0 := rfl
    rw [Option.getD_none, hadd _ rfl, if_pos hempty]
    exact Table.erase_insert_of_none hr _
  | some route =>
    rw [listing, hr] at hn
    rw [Option.getD_some, hadd _ hn, if_neg (hne route hr), join, Table.insert_insert hr, Table.insert_self hr]

end Routes

namespace Registry

/-- **Giving up what was just acquired** leaves all counts as they were; the key stays issued. -/
theorem release_acquire {r r' : Registry} {user : User} {topic : Topic} {target : Kind} {id : BindingId} {kind : Kind}
    (h : r.acquire user topic target = .ok (r', id, kind)) :
    r'.release user topic = { r with nextKey := r.nextKey + 1 } := by
  obtain ⟨entry, n, -, -, -, -, -, rfl⟩ := acquire_eq_ok h
  have husers : (r.users.adjust user (fun e => { e with bindings := e.bindings + 1 })).adjust user
      (fun e => { e with bindings := e.bindings - 1 }) = r.users :=
    Table.adjust_adjust_cancel r.users user (fun _ => rfl)
  have htopics : (r.topics.adjust topic (· + 1)).adjust topic (· - 1) = r.topics :=
    Table.adjust_adjust_cancel r.topics topic (fun _ => rfl)
  simp only [release, husers, htopics, Nat.add_sub_cancel]

end Registry

namespace Bus

variable {bus : Bus} {o : Options} {fault : Fault}

/-! ## What stands in the way -/

/-- What a limit has against a size. -/
def beyond? (limit : Option Nat) (wanted : Nat) : Option Fault :=
  limit.bind (fun most => if most < wanted then some (.buffer ⟨wanted, most⟩) else none)

/-- What the registry has against a name. -/
def missing? (bus : Bus) (object : Object) : Option Fault :=
  if bus.registry.contains object then none else some (.registry (.stale object.key))

/-- What may stand in the way of an opening, in the order in which it is looked for. -/
def obstacles (bus : Bus) (o : Options) : List (Option Fault) :=
  [if bus.isShutDown then some .closed else none,
    beyond? bus.config.chunkLimit o.readCapacity,
    beyond? bus.config.chunkLimit o.writeCapacity,
    bus.missing? (.user o.user),
    bus.missing? (.topic o.topic),
    bus.missing? (.kind o.target)]

/-- What an opening asks of the bus. -/
structure Admits (bus : Bus) (o : Options) : Prop where
  up : bus.isShutDown = false
  readCapacity : Within bus.config.chunkLimit o.readCapacity
  writeCapacity : Within bus.config.chunkLimit o.writeCapacity
  user : bus.registry.contains (.user o.user) = true
  topic : bus.registry.contains (.topic o.topic) = true
  target : bus.registry.contains (.kind o.target) = true

theorem beyond?_eq_none_iff {limit : Option Nat} {wanted : Nat} :
    beyond? limit wanted = none ↔ Within limit wanted := by
  cases limit <;> simp [beyond?, Within]

theorem missing?_eq_none_iff {object : Object} : bus.missing? object = none ↔ bus.registry.contains object = true := by
  simp [missing?]

/-- A bus admits an opening that nothing stands in the way of. -/
theorem admits_iff : bus.Admits o ↔ (bus.obstacles o).findSome? id = none := by
  simp only [obstacles, List.findSome?_eq_none_iff, List.forall_mem_cons, id_eq, beyond?_eq_none_iff,
    missing?_eq_none_iff]
  constructor
  · intro h
    exact ⟨by simp [h.up], h.readCapacity, h.writeCapacity, h.user, h.topic, h.target, nofun⟩
  · rintro ⟨hup, hread, hwrite, huser, htopic, htarget, -⟩
    exact ⟨by simpa using hup, hread, hwrite, huser, htopic, htarget⟩

theorem withCapacity_of_beyond {limit : Option Nat} {capacity : Nat} (h : beyond? limit capacity = some fault) :
    ∃ cause, fault = .buffer cause ∧ Buffer.withCapacity capacity limit = .error cause := by
  obtain ⟨most, rfl, hmost⟩ := Option.bind_eq_some_iff.1 h
  simp only [Option.ite_none_right_eq_some, Option.some.injEq] at hmost
  obtain ⟨hlt, rfl⟩ := hmost
  exact ⟨_, rfl, by rw [Buffer.withCapacity, checkLimit, if_neg (Nat.not_le.2 hlt)]⟩

/-- The registry refuses over the first of the names that it misses. -/
theorem acquire_of_missing {user : User} {topic : Topic} {target : Kind}
    (h : [bus.missing? (.user user), bus.missing? (.topic topic), bus.missing? (.kind target)].findSome? id =
      some fault) :
    ∃ cause, fault = .registry cause ∧ bus.registry.acquire user topic target = .error cause := by
  simp only [missing?, Registry.contains, Object.key, List.findSome?_cons, List.findSome?_nil, id_eq] at h
  unfold Registry.acquire
  cases hu : bus.registry.users.get? user with
  | none =>
    simp only [Table.contains, hu, Option.isSome_none, Bool.false_eq_true, if_false, Option.some.injEq] at h
    exact ⟨_, h.symm, rfl⟩
  | some entry =>
  simp only [Table.contains, hu, Option.isSome_some, if_true] at h
  cases ht : bus.registry.topics.contains topic with
  | false =>
    rw [Table.contains] at ht
    simp only [ht, Bool.false_eq_true, if_false, Option.some.injEq] at h
    exact ⟨_, h.symm, rfl⟩
  | true =>
  cases hk : bus.registry.kinds.contains target with
  | false =>
    rw [Table.contains] at ht hk
    simp only [ht, hk, Bool.false_eq_true, if_true, if_false, Option.some.injEq] at h
    exact ⟨_, h.symm, rfl⟩
  | true =>
    rw [Table.contains] at ht hk
    simp only [ht, hk, if_true, reduceCtorEq] at h

/-- **The first obstacle is the answer**, and the bus is left as it is. -/
theorem openBinding_of_obstacle (h : (bus.obstacles o).findSome? id = some fault) :
    bus.openBinding o = (bus, .error fault) := by
  unfold openBinding
  cases hd : bus.isShutDown with
  | true =>
    simp only [obstacles, hd, if_true, List.findSome?_cons, id_eq, Option.some.injEq] at h
    rw [if_pos rfl, h]
  | false =>
  cases hr : beyond? bus.config.chunkLimit o.readCapacity with
  | some f =>
    obtain ⟨cause, rfl, he⟩ := withCapacity_of_beyond hr
    simp only [obstacles, hd, hr, Bool.false_eq_true, if_false, List.findSome?_cons, id_eq, Option.some.injEq] at h
    simp only [Bool.false_eq_true, if_false, buffers, he, h]
  | none =>
  have hread := Buffer.withCapacity_eq_ok_iff.2 ⟨beyond?_eq_none_iff.1 hr, rfl⟩
  cases hw : beyond? bus.config.chunkLimit o.writeCapacity with
  | some f =>
    obtain ⟨cause, rfl, he⟩ := withCapacity_of_beyond hw
    simp only [obstacles, hd, hr, hw, Bool.false_eq_true, if_false, List.findSome?_cons, id_eq,
      Option.some.injEq] at h
    simp only [Bool.false_eq_true, if_false, buffers, hread, he, h]
  | none =>
  have hwrite := Buffer.withCapacity_eq_ok_iff.2 ⟨beyond?_eq_none_iff.1 hw, rfl⟩
  have hmissing : [bus.missing? (.user o.user), bus.missing? (.topic o.topic), bus.missing? (.kind o.target)].findSome?
      id = some fault := by
    rw [← h]
    simp only [obstacles, hd, hr, hw, Bool.false_eq_true, if_false, List.findSome?_cons, id_eq]
  obtain ⟨cause, rfl, he⟩ := acquire_of_missing hmissing
  simp only [Bool.false_eq_true, if_false, buffers, hread, hwrite, he]

/-- An opening that succeeds was admitted. -/
theorem admits_of_openBinding {i : BindingId} (hok : (bus.openBinding o).2 = .ok i) : bus.Admits o := by
  rw [admits_iff]
  cases hfirst : (bus.obstacles o).findSome? id with
  | none => rfl
  | some fault =>
    rw [openBinding_of_obstacle hfirst] at hok
    cases hok

/-! ## What is added -/

/-- `bus'` is `bus` with one more binding, which was opened on the options `o` as `id` for a user of the given kind. -/
structure Joined (bus bus' : Bus) (o : Options) (id : BindingId) (kind : Kind) : Prop where
  kindOf : bus.registry.kindOf o.user = .ok kind
  /-- The key is newer than that of any binding or live object. -/
  fresh : (∀ id' b, bus.bindings.get? id' = some b → id'.key < id.key) ∧
    ∀ object, bus.registry.contains object = true → object.key < id.key
  next : bus'.registry.nextKey = id.key + 1
  binding : ∃ b, bus'.bindings.get? id = some b ∧ bus'.openBindings = bus.openBindings ++ [b] ∧
    b.toTerms = ⟨id, o.user, kind, o.topic, o.target, o.delivery⟩ ∧ b.isOpen = true ∧
    (∃ side, b.readSide = some side ∧ side.pending = [] ∧ side.queue = [] ∧ side.connected = true) ∧
    b.readCapacity = o.readCapacity ∧ b.writeCapacity = o.writeCapacity ∧ b.traffic = {} ∧ b.line = []
  others : ∀ id', id' ≠ id → bus'.bindings.get? id' = bus.bindings.get? id'
  users : ∀ u, bus'.registry.users.get? u =
    (bus.registry.users.get? u).map (fun e => if u = o.user then { e with bindings := e.bindings + 1 } else e)
  topics : ∀ t, bus'.registry.topics.get? t =
    (bus.registry.topics.get? t).map (fun n => if t = o.topic then n + 1 else n)
  kinds : bus'.registry.kinds = bus.registry.kinds
  total : bus'.registry.openBindings = bus.registry.openBindings + 1
  /-- The route of the topic, which may begin with it, has one more subscriber. -/
  route : ∃ route, bus'.routes.get? o.topic = some route ∧
    route.subscribers.entries = ((bus.routes.get? o.topic).getD .empty).subscribers.entries ++ [(id, kind)] ∧
    route.published = ((bus.routes.get? o.topic).getD .empty).published ∧
    route.deliveries = ((bus.routes.get? o.topic).getD .empty).deliveries
  routes : ∀ t, t ≠ o.topic → bus'.routes.get? t = bus.routes.get? t
  rest : bus'.config = bus.config ∧ bus'.isShutDown = bus.isShutDown

/-- **An opening that the bus admits.** -/
theorem openBinding_of_admits (ha : bus.Admits o) : ∃ registry kind,
    bus.registry.acquire o.user o.topic o.target = .ok (registry, ⟨bus.registry.nextKey⟩, kind) ∧
    bus.registry.kindOf o.user = .ok kind ∧
    bus.openBinding o =
      ({ bus with
          registry
          routes := bus.routes.join o.topic ⟨bus.registry.nextKey⟩ kind
          bindings := bus.bindings.insert ⟨bus.registry.nextKey⟩
            (.fresh ⟨⟨bus.registry.nextKey⟩, o.user, kind, o.topic, o.target, o.delivery⟩
              ⟨[], o.readCapacity, bus.config.chunkLimit⟩ ⟨[], o.writeCapacity, bus.config.chunkLimit⟩) },
        .ok ⟨bus.registry.nextKey⟩) := by
  obtain ⟨entry, hu⟩ := Option.isSome_iff_exists.1 ha.user
  have hacquire : ∃ registry, bus.registry.acquire o.user o.topic o.target =
      .ok (registry, ⟨bus.registry.nextKey⟩, entry.kind) := by
    have htopic : bus.registry.topics.contains o.topic = true := ha.topic
    have htarget : bus.registry.kinds.contains o.target = true := ha.target
    simp only [Registry.acquire, hu, htopic, htarget, Bool.not_true, Bool.false_eq_true, if_false]
    exact ⟨_, rfl⟩
  obtain ⟨registry, hr⟩ := hacquire
  refine ⟨registry, entry.kind, hr, by rw [Registry.kindOf, hu], ?_⟩
  simp only [openBinding, ha.up, buffers, Buffer.withCapacity_eq_ok_iff.2 ⟨ha.readCapacity, rfl⟩,
    Buffer.withCapacity_eq_ok_iff.2 ⟨ha.writeCapacity, rfl⟩, hr, Bool.false_eq_true, if_false]

/-- A binding whose key is new is the last of the open ones. -/
theorem openBindings_insert {id : BindingId} {b : Binding} (hn : bus.bindings.get? id = none) (ho : b.isOpen = true) :
    { bus with bindings := bus.bindings.insert id b }.openBindings = bus.openBindings ++ [b] := by
  simp only [openBindings, Table.values, Table.entries_insert_of_none hn, List.map_append, List.filter_append,
    List.map_cons, List.map_nil, List.filter_cons, ho, if_true, List.filter_nil]

/-- Nobody who is on a route is as new as the next key. -/
theorem Agrees.listing_next (h : bus.Agrees) (hd : bus.isShutDown = false) (t : Topic) :
    bus.routes.listing t ⟨bus.registry.nextKey⟩ = none := by
  rw [(h.lists hd).listed, opened, Table.get?_filterMap, h.get?_opened_next]
  rfl

theorem Agrees.key_lt_next (h : bus.Agrees) {object : Object} (hlive : bus.registry.contains object = true) :
    object.key < bus.registry.nextKey := by
  cases object with
  | kind k =>
    obtain ⟨n, hn⟩ := Option.isSome_iff_exists.1 hlive
    exact (h.accounts.kind k n hn).1
  | user u =>
    obtain ⟨e, he⟩ := Option.isSome_iff_exists.1 hlive
    exact (h.accounts.user u e he).1
  | topic t =>
    obtain ⟨n, hn⟩ := Option.isSome_iff_exists.1 hlive
    exact (h.accounts.topic t n hn).1

/-- **An opening adds one binding** to every view of who is connected, and changes nothing else. -/
theorem Agrees.joined_openBinding (h : bus.Agrees) (ha : bus.Admits o) :
    (bus.openBinding o).2 = .ok ⟨bus.registry.nextKey⟩ ∧
      ∃ kind, bus.Joined (bus.openBinding o).1 o ⟨bus.registry.nextKey⟩ kind := by
  obtain ⟨registry, kind, hacquire, hkind, he⟩ := openBinding_of_admits ha
  obtain ⟨entry, n, -, -, -, -, -, rfl⟩ := Registry.acquire_eq_ok hacquire
  have hn := h.get?_opened_next
  rw [he]
  refine ⟨rfl, kind, hkind, ⟨fun id' b hb => (h.issued id' b hb).2, fun object => h.key_lt_next⟩, rfl,
    ⟨_, Table.get?_insert_self .., openBindings_insert hn rfl, rfl, rfl, ⟨_, rfl, rfl, rfl, rfl⟩, rfl, rfl, rfl, rfl⟩,
    fun id' hid => Table.get?_insert_of_ne _ hid _, fun u => ?_, fun t => ?_, rfl, rfl,
    ⟨_, Table.get?_insert_self .., ?_, rfl, rfl⟩, fun t ht => Table.get?_insert_of_ne _ ht _, rfl, rfl⟩
  · rw [Table.get?_adjust]
    split <;> simp
  · rw [Table.get?_adjust]
    split <;> simp
  · have hlisting := h.listing_next ha.up o.topic
    refine Table.entries_insert_of_none ?_ kind
    cases hr : bus.routes.get? o.topic with
    | none => rfl
    | some route =>
      rw [Routes.listing, hr] at hlisting
      exact hlisting

/-- The key that an opening issues is new. -/
theorem Agrees.get?_of_openBinding (h : bus.Agrees) {i : BindingId} (hok : (bus.openBinding o).2 = .ok i) :
    bus.bindings.get? i = none := by
  have hnext := (h.joined_openBinding (admits_of_openBinding hok)).1
  rw [← Except.ok.inj (hnext.symm.trans hok)]
  exact h.get?_opened_next

/-- **Closed straight away**, a binding leaves the registry and the routes as it found them. -/
theorem Agrees.close_openBinding (h : bus.Agrees) (ha : bus.Admits o) :
    let out := (bus.openBinding o).1.close ⟨bus.registry.nextKey⟩
    out.2 = .ok () ∧ out.1.registry = { bus.registry with nextKey := bus.registry.nextKey + 1 } ∧
      out.1.routes = bus.routes ∧ out.1.isOpen ⟨bus.registry.nextKey⟩ = false ∧
      ∀ id', id' ≠ ⟨bus.registry.nextKey⟩ → out.1.bindings.get? id' = bus.bindings.get? id' := by
  obtain ⟨registry, kind, hacquire, -, he⟩ := openBinding_of_admits ha
  have hinsert := fun b => Table.get?_insert_self bus.bindings ⟨bus.registry.nextKey⟩ b
  have hroutes := Routes.leave_join kind (h.listing_next ha.up o.topic) (fun route => (h.lists ha.up).inhabited _ route)
  simp only [he, close, hinsert, Binding.fresh, if_true]
  refine ⟨trivial, Registry.release_acquire hacquire, hroutes, ?_, fun id' hid => ?_⟩
  · rw [isOpen, Table.get?_insert_self]
    exact Binding.shut_isOpen _
  · rw [Table.get?_insert_of_ne _ hid, Table.get?_insert_of_ne _ hid]

end Bus

namespace Session

/-- **Opening is all or nothing.**  After every run an opening succeeds exactly if the bus admits it: it is not shut
down, its limit allows the capacities, and the user, the topic and the target kind are live.  If not, the answer is the
first obstacle and the bus is the very same, whatever was to hold the binding.  If it succeeds, the bus has gained one
open binding under a key that is newer than all others, of the kind that its user is registered with, with nothing to
read and nothing counted; its user, its topic and the total have one binding more, and the route of the topic has it as
one more subscriber.  When it is closed straight away, the registry is as before but for the key that was issued, and
the routes are as before, figures included. -/
theorem opening_all_or_nothing (config : Config) (ops : List Op) (o : Options) :
    let s := (new config).run ops
    let out := s.bus.openBinding o
    ((∃ id, out.2 = .ok id) ↔ s.bus.Admits o) ∧
    (∀ fault, out.2 = .error fault ↔ (s.bus.obstacles o).findSome? id = some fault) ∧
    (∀ fault, out.2 = .error fault → out.1 = s.bus ∧
      ∀ name, s.step (.openBinding name o) = (s, .failed fault) ∧ s.step (.connect name o) = (s, .failed fault)) ∧
    ∀ id, out.2 = .ok id →
      (∃ kind, s.bus.Joined out.1 o id kind) ∧
      let closed := out.1.close id
      closed.2 = .ok () ∧ closed.1.registry = { s.bus.registry with nextKey := s.bus.registry.nextKey + 1 } ∧
        closed.1.routes = s.bus.routes ∧ closed.1.isOpen id = false ∧
        ∀ id', id' ≠ id → closed.1.bindings.get? id' = s.bus.bindings.get? id' := by
  intro s out
  have hagrees : s.bus.Agrees := (good_run config ops).agrees
  have hrefused : ∀ {fault}, (s.bus.obstacles o).findSome? id = some fault → out = (s.bus, .error fault) :=
    Bus.openBinding_of_obstacle
  have hadmitted : s.bus.Admits o → out.2 = .ok ⟨s.bus.registry.nextKey⟩ :=
    fun ha => (hagrees.joined_openBinding ha).1
  -- the bus admits the opening, or there is a first obstacle
  have hanswer : s.bus.Admits o ∨ ∃ fault, (s.bus.obstacles o).findSome? id = some fault := by
    rw [Bus.admits_iff]
    cases (s.bus.obstacles o).findSome? id with
    | none => exact .inl rfl
    | some fault => exact .inr ⟨fault, rfl⟩
  have hadmits : ∀ id, out.2 = .ok id → s.bus.Admits o := fun id hok => hanswer.resolve_right (fun ⟨fault, hf⟩ => by
    rw [hrefused hf] at hok
    cases hok)
  have hobstacle : ∀ fault, out.2 = .error fault → (s.bus.obstacles o).findSome? id = some fault := by
    intro fault herror
    rcases hanswer with ha | ⟨fault', hf⟩
    · cases (hadmitted ha).symm.trans herror
    · rw [hrefused hf] at herror
      exact hf.trans (congrArg some (Except.error.inj herror))
  refine ⟨⟨fun ⟨id, hok⟩ => hadmits id hok, fun ha => ⟨_, hadmitted ha⟩⟩,
    fun fault => ⟨hobstacle fault, fun hf => by rw [hrefused hf]⟩, fun fault herror => ?_, fun id hok => ?_⟩
  · have hout : s.bus.openBinding o = (s.bus, .error fault) := hrefused (hobstacle fault herror)
    refine ⟨by rw [show out = _ from hout], fun name => ⟨?_, ?_⟩⟩
    · simp only [step, hout]
    · simp only [step, connect, hout, Answer.ofExcept]
  · have ha := hadmits id hok
    obtain rfl := Except.ok.inj ((hadmitted ha).symm.trans hok)
    exact ⟨(hagrees.joined_openBinding ha).2, hagrees.close_openBinding ha⟩

/-- Of two stale names and a capacity beyond the limit, the capacity is the answer; without them a third peer opens a
binding next to two, and closing it leaves their route as it was. -/
theorem opening_all_or_nothing_third :
    let bus := ((new { chunkLimit := some 4096 }).run (twoPeers ++ [.onBinding "a" (.write [1, 2, 3])])).bus
    let stale : Options := { user := ⟨9⟩, topic := ⟨2⟩, target := ⟨1⟩, writeCapacity := 5000 }
    let third : Options := { user := ⟨3⟩, topic := ⟨4⟩, target := ⟨1⟩, readCapacity := 16 }
    (bus.openBinding stale).2 = .error (.buffer ⟨5000, 4096⟩) ∧ (bus.openBinding stale).1 = bus ∧
      (bus.openBinding third).2 = .ok ⟨7⟩ ∧ ((bus.openBinding third).1.close ⟨7⟩).1.routes = bus.routes := by
  intro bus stale third
  have herror : (bus.openBinding stale).2 = .error (.buffer ⟨5000, 4096⟩) := by decide +kernel
  have hok : (bus.openBinding third).2 = .ok ⟨7⟩ := by decide +kernel
  obtain ⟨-, -, hrefused, -⟩ := opening_all_or_nothing { chunkLimit := some 4096 } _ stale
  obtain ⟨-, -, -, hopened⟩ := opening_all_or_nothing { chunkLimit := some 4096 } _ third
  exact ⟨herror, (hrefused _ herror).1, hok, (hopened _ hok).2.2.2.1⟩

end Session
end TopicBus
