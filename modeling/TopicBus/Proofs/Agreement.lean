import TopicBus.Proofs.Accounts
import TopicBus.Proofs.Sides
/-!
# The views of a bus agree

Who is connected is kept three times: as the open flags of the bindings, as the counts of the registry and as the
routes.  `Bus.Agrees` says that the three tell the same: the registry has the accounts of the open bindings, and while
the bus is not shut down the routes list exactly them.  Every call of the bus keeps it (`agrees_create`,
`agrees_destroy`, `agrees_open`, `agrees_close`, `agrees_shutdown`, `agrees_write`, and `agrees_put` for all reads).
-/
namespace TopicBus

/-! ## Routes and open bindings -/

namespace Routes

/-- The kind under which the route of `t` lists the binding `id`, if it does. -/
def listing (routes : Routes) (t : Topic) (id : BindingId) : Option Kind :=
  (routes.get? t).bind (·.subscribers.get? id)

/-- The routes list the open bindings, each on its topic with the kind of its user, and nothing else. -/
structure Lists (routes : Routes) (opened : Table BindingId Terms) : Prop where
  listed : ∀ t id, routes.listing t id = (opened.get? id).bind (fun w => if w.topic = t then some w.kind else none)
  inhabited : ∀ t route, routes.get? t = some route → route.subscribers.size ≠ 0

variable {routes : Routes} {opened : Table BindingId Terms}

theorem size_ne_zero_iff {subscribers : Table BindingId Kind} :
    subscribers.size ≠ 0 ↔ ∃ id k, subscribers.get? id = some k := by
  rw [Table.size_eq_count, ← Nat.pos_iff_ne_zero, Table.count_pos_iff]
  simp

theorem listing_join (t t' : Topic) (id id' : BindingId) (k : Kind) :
    (routes.join t id k).listing t' id' = if t' = t ∧ id' = id then some k else routes.listing t' id' := by
  simp only [listing, join, Table.get?_insert]
  by_cases ht : t' = t
  · subst ht
    simp only [if_true, Option.bind_some, Route.add, Table.get?_insert, true_and]
    cases routes.get? t' <;> simp [Route.empty]
  · simp [ht]

theorem listing_leave (t t' : Topic) (id id' : BindingId) :
    (leave routes t id).listing t' id' = if t' = t ∧ id' = id then none else routes.listing t' id' := by
  unfold leave
  cases hr : routes.get? t with
  | none =>
    by_cases ht : t' = t
    · simp [listing, ht, hr]
    · simp [ht]
  | some route =>
    have hl : routes.listing t id' = route.subscribers.get? id' := by simp [listing, hr]
    have hrem : (route.remove id).subscribers.get? id' = if id' = id then none else route.subscribers.get? id' :=
      Table.get?_erase _ _ _
    by_cases ht : t' = t
    · subst ht
      simp only [true_and, hl, ← hrem]
      split
      · rename_i hz
        simp only [listing, Table.get?_erase, if_true, Option.bind_none]
        cases hk : (route.remove id).subscribers.get? id' with
        | none => rfl
        | some k => exact absurd hz (size_ne_zero_iff.2 ⟨id', k, hk⟩)
      · simp [listing, Table.get?_insert]
    · simp only [ht, false_and, if_false]
      split
      · simp [listing, Table.get?_erase, ht]
      · simp [listing, Table.get?_insert, ht]

/-- Counting a chunk on a route leaves its subscribers. -/
theorem listing_count {t : Topic} {route : Route} (h : routes.get? t = some route) (n : Nat) (t' : Topic)
    (id : BindingId) : (listing (routes.insert t (route.count n)) t' id) = routes.listing t' id := by
  simp only [listing, Table.get?_insert]
  by_cases ht : t' = t
  · simp [ht, h, Route.count]
  · simp [ht]

theorem lists_empty : Lists .empty .empty := ⟨fun _ _ => rfl, fun _ _ h => (nomatch h)⟩

theorem lists_join (h : Lists routes opened) {w : Terms} (hn : opened.get? w.id = none) :
    Lists (routes.join w.topic w.id w.kind) (opened.insert w.id w) := by
  refine ⟨fun t id => ?_, fun t route hr => ?_⟩
  · rw [listing_join, h.listed, Table.get?_insert]
    by_cases hid : id = w.id
    · by_cases ht : t = w.topic
      · simp [hid, ht]
      · simp [hid, ht, hn, Ne.symm ht]
    · simp [hid]
  · rcases Table.of_get?_insert hr with ⟨-, rfl⟩ | ⟨-, hr⟩
    · exact size_ne_zero_iff.2 ⟨w.id, w.kind, by simp [Route.add, Table.get?_insert]⟩
    · exact h.inhabited t route hr

theorem lists_leave (h : Lists routes opened) {id : BindingId} {w : Terms} (hw : opened.get? id = some w) :
    Lists (leave routes w.topic id) (opened.erase id) := by
  refine ⟨fun t id' => ?_, fun t route hr => ?_⟩
  · rw [listing_leave, h.listed, Table.get?_erase]
    by_cases hid : id' = id
    · by_cases ht : t = w.topic
      · simp [hid, ht]
      · simp [hid, ht, hw, Ne.symm ht]
    · simp [hid]
  · unfold leave at hr
    split at hr
    · exact h.inhabited t route hr
    · split at hr
      · exact h.inhabited t route (Table.of_get?_erase hr).2
      · rename_i hz
        rcases Table.of_get?_insert hr with ⟨-, rfl⟩ | ⟨-, hr⟩
        · exact hz
        · exact h.inhabited t route hr

theorem lists_count (h : Lists routes opened) {t : Topic} {route : Route} (hr : routes.get? t = some route) (n : Nat) :
    Lists (routes.insert t (route.count n)) opened := by
  refine ⟨fun t' id => (listing_count hr n t' id).trans (h.listed t' id), fun t' route' hr' => ?_⟩
  rcases Table.of_get?_insert hr' with ⟨-, rfl⟩ | ⟨-, hr'⟩
  · exact h.inhabited t route hr
  · exact h.inhabited t' route' hr'

/-- A topic has a route exactly while a binding on it is open. -/
theorem Lists.exists_route_iff (h : Lists routes opened) {t : Topic} :
    (∃ route, routes.get? t = some route) ↔ ∃ id w, opened.get? id = some w ∧ w.topic = t := by
  constructor
  · rintro ⟨route, hr⟩
    obtain ⟨id, k, hk⟩ := size_ne_zero_iff.1 (h.inhabited t route hr)
    have hl : routes.listing t id = some k := by rw [listing, hr]; exact hk
    rw [h.listed, Option.bind_eq_some_iff] at hl
    obtain ⟨w, hw, ht⟩ := hl
    refine ⟨id, w, hw, ?_⟩
    by_contra hne
    simp [hne] at ht
  · rintro ⟨id, w, hw, ht⟩
    have hl := h.listed t id
    rw [hw] at hl
    simp only [listing, Option.bind_some, ht, if_true] at hl
    obtain ⟨route, hr, -⟩ := Option.bind_eq_some_iff.1 hl
    exact ⟨route, hr⟩

theorem mem_targets {route : Route} {id sender : BindingId} {target : Kind} :
    id ∈ route.targets sender target ↔ id ≠ sender ∧ route.subscribers.get? id = some target := by
  simp only [Route.targets, Table.keys, Table.filter, List.mem_map, List.mem_filter, Bool.and_eq_true,
    decide_eq_true_eq, Table.get?_eq_some_iff]
  constructor
  · rintro ⟨e, ⟨he, hne, hk⟩, rfl⟩
    exact ⟨hne, by rw [← hk]; exact he⟩
  · rintro ⟨hne, he⟩
    exact ⟨(id, target), ⟨he, hne, rfl⟩, rfl⟩

/-- **A write is for the open bindings** on its topic, other than its sender, whose users are of its target kind. -/
theorem Lists.mem_targets_iff (h : Lists routes opened) {t : Topic} {route : Route} (hr : routes.get? t = some route)
    {id sender : BindingId} {target : Kind} :
    id ∈ route.targets sender target ↔
      id ≠ sender ∧ ∃ w, opened.get? id = some w ∧ w.topic = t ∧ w.kind = target := by
  have hl := h.listed t id
  rw [listing, hr, Option.bind_some] at hl
  rw [mem_targets, hl, Option.bind_eq_some_iff]
  refine and_congr_right (fun _ => exists_congr (fun w => and_congr_right (fun _ => ?_)))
  by_cases ht : w.topic = t <;> simp [ht]

end Routes

namespace Bus

/-! ## Writing -/

/-- The bus after the chunk `data` of the binding `id`, opened as `w` and now `staged`, went along `route`. -/
def delivered (bus : Bus) (id : BindingId) (w : Terms) (staged : Binding) (route : Route) (data : Bytes) : Bus :=
  { ((bus.put id staged).send w.topic route (route.targets w.id w.target) data).1 with
    bindings := ((bus.put id staged).send w.topic route (route.targets w.id w.target) data).1.bindings.adjust id
      (·.countWrite data.length) }

/-- Every outcome of a write. -/
inductive Written (bus : Bus) (id : BindingId) (data : Bytes) : Bus × Except Fault Nat → Prop
  | refused (fault : Fault) : Written bus id data (bus, .error fault)
  | empty : data = [] → Written bus id data (bus, .ok 0)
  | failed {b staged : Binding} (fault : Fault) : bus.bindings.get? id = some b → b.Staged data staged →
      Written bus id data (bus.put id staged, .error fault)
  | unrouted {b staged : Binding} : bus.bindings.get? id = some b → b.Staged data staged → bus.isShutDown = false →
      bus.routes.get? b.topic = none →
      Written bus id data ({ bus.put id staged with
        bindings := (bus.put id staged).bindings.adjust id (·.countWrite data.length) }, .ok data.length)
  | delivered {b staged : Binding} {route : Route} : bus.bindings.get? id = some b → b.Staged data staged →
      bus.isShutDown = false → bus.routes.get? b.topic = some route →
      Written bus id data (bus.delivered id b.toTerms staged route data, .ok data.length)

theorem written (bus : Bus) (id : BindingId) (data : Bytes) : Written bus id data (bus.write id data) := by
  unfold write
  cases hb : bus.bindings.get? id with
  | none => exact .refused _
  | some b =>
    rcases b.stage_cases data with ⟨fault, hs⟩ | ⟨hdata, hs⟩ | ⟨staged, hst, hs⟩
    · simp only [hs]
      exact .refused _
    · simp only [hs]
      exact .empty hdata
    · simp only [hs]
      unfold publish
      by_cases hd : (bus.put id staged).isShutDown = true
      · rw [if_pos hd]
        exact .failed _ hb hst
      rw [if_neg hd]
      have hd' : bus.isShutDown = false := by simpa [put] using hd
      cases hr : bus.routes.get? b.topic with
      | none =>
        simp only [show (bus.put id staged).routes.get? b.topic = none from hr]
        cases b.delivery with
        | multicast => exact .unrouted hb hst hd' hr
        | monocast => exact .failed _ hb hst
      | some route =>
        simp only [show (bus.put id staged).routes.get? b.topic = some route from hr]
        by_cases hm : b.delivery = .monocast ∧ (route.targets b.id b.target).length ≠ 1
        · simp only [if_pos hm]
          exact .failed _ hb hst
        · simp only [if_neg hm]
          exact .delivered hb hst hd' hr

/-! ## The invariant -/

structure Agrees (bus : Bus) : Prop where
  issued : ∀ id b, bus.bindings.get? id = some b → b.id = id ∧ id.key < bus.registry.nextKey
  accounts : bus.registry.Accounts bus.opened
  lists : bus.isShutDown = false → Routes.Lists bus.routes bus.opened
  ended : bus.isShutDown = true → bus.routes = .empty

theorem agrees_new (config : Config) : (new config).Agrees where
  issued _ _ h := by cases h
  accounts := Registry.accounts_empty
  lists _ := Routes.lists_empty
  ended h := by cases h

variable {bus : Bus}

/-- The user of an open binding is live, and of the kind that the binding was opened with. -/
theorem Agrees.kindOf_eq (h : bus.Agrees) {id : BindingId} {b : Binding} (hb : bus.bindings.get? id = some b)
    (ho : b.isOpen = true) : bus.registry.kindOf b.user = .ok b.kind := by
  obtain ⟨⟨e, he, hk⟩, -⟩ := h.accounts.live id b.toTerms (get?_opened_of_isOpen hb ho)
  simp only [Registry.kindOf, he, hk]

/-- A binding that was never opened is not open. -/
theorem Agrees.get?_opened_next (h : bus.Agrees) : bus.bindings.get? ⟨bus.registry.nextKey⟩ = none := by
  cases hb : bus.bindings.get? ⟨bus.registry.nextKey⟩ with
  | none => rfl
  | some b => exact absurd (h.issued _ b hb).2 (Nat.lt_irrefl _)

theorem nextKey_le_create (r : Registry) (what : NewObject) : r.nextKey ≤ (r.create what).1.nextKey := by
  cases what with
  | kind => exact Nat.le_succ _
  | topic => exact Nat.le_succ _
  | user kind =>
    simp only [Registry.create, Registry.createUser]
    split
    · exact Nat.le_succ _
    · exact Nat.le_refl _

theorem nextKey_destroy (r : Registry) (object : Object) : (r.destroy object).1.nextKey = r.nextKey := by
  cases object with
  | kind handle => simp only [Registry.destroy, Registry.destroyKind]; split <;> rfl
  | topic handle => simp only [Registry.destroy, Registry.destroyTopic]; split <;> rfl
  | user handle =>
    simp only [Registry.destroy, Registry.destroyUser]
    split
    · rfl
    · split <;> rfl

theorem agrees_create (h : bus.Agrees) (what : NewObject) : (bus.create what).1.Agrees where
  issued id b hb := ⟨(h.issued id b hb).1, Nat.lt_of_lt_of_le (h.issued id b hb).2 (nextKey_le_create _ _)⟩
  accounts := Registry.accounts_create h.accounts what
  lists := h.lists
  ended := h.ended

theorem agrees_destroy (h : bus.Agrees) (object : Object) : (bus.destroy object).1.Agrees where
  issued id b hb := ⟨(h.issued id b hb).1, by
    rw [show (bus.destroy object).1.registry.nextKey = bus.registry.nextKey from nextKey_destroy _ _]
    exact (h.issued id b hb).2⟩
  accounts := Registry.accounts_destroy h.accounts object
  lists := h.lists
  ended := h.ended

/-! ### Opening and closing -/

/-- Every outcome of opening a binding. -/
inductive Opened (bus : Bus) (o : Options) : Bus × Except Fault BindingId → Prop
  | refused (fault : Fault) : Opened bus o (bus, .error fault)
  | opened {readBuffer writeBuffer : Buffer} {registry : Registry} {id : BindingId} {kind : Kind} :
      bus.isShutDown = false → bus.buffers o = .ok (readBuffer, writeBuffer) →
      bus.registry.acquire o.user o.topic o.target = .ok (registry, id, kind) →
      Opened bus o ({ bus with
        registry
        routes := bus.routes.join o.topic id kind
        bindings := bus.bindings.insert id
          (.fresh ⟨id, o.user, kind, o.topic, o.target, o.delivery⟩ readBuffer writeBuffer) }, .ok id)

theorem opened_openBinding (bus : Bus) (o : Options) : Opened bus o (bus.openBinding o) := by
  unfold openBinding
  split
  · exact .refused _
  rename_i hd
  split
  · exact .refused _
  rename_i readBuffer writeBuffer hb
  split
  · exact .refused _
  rename_i registry id kind ha
  exact .opened (by simpa using hd) hb ha

theorem agrees_open (h : bus.Agrees) (o : Options) : (bus.openBinding o).1.Agrees := by
  have hout := opened_openBinding bus o
  generalize bus.openBinding o = result at hout ⊢
  cases hout with
  | refused fault => exact h
  | @opened readBuffer writeBuffer registry id kind hd hb ha =>
    obtain ⟨_, _, -, -, -, rfl, -, hr⟩ := Registry.acquire_eq_ok ha
    have hn := h.get?_opened_next
    let w : Terms := ⟨⟨bus.registry.nextKey⟩, o.user, kind, o.topic, o.target, o.delivery⟩
    have ho : (bus.bindings.insert w.id (.fresh w readBuffer writeBuffer)).filterMap
        (fun b => if b.isOpen then some b.toTerms else none) = bus.opened.insert w.id w :=
      Table.filterMap_insert_new hn rfl
    have hnew : bus.opened.get? w.id = none := by rw [opened, Table.get?_filterMap, hn]; rfl
    refine ⟨fun id b hb' => ?_, ?_, fun _ => ?_, fun hd' => ?_⟩
    · rw [hr]
      rcases Table.of_get?_insert hb' with ⟨rfl, rfl⟩ | ⟨-, hb'⟩
      · exact ⟨rfl, Nat.lt_succ_self _⟩
      · exact ⟨(h.issued id b hb').1, Nat.lt_succ_of_lt (h.issued id b hb').2⟩
    · have hacc := Registry.accounts_acquire (w := w) h.accounts ha hnew
      rw [← ho] at hacc
      exact hacc
    · have hl := Routes.lists_join (w := w) (h.lists hd) hnew
      rw [← ho] at hl
      exact hl
    · rw [hd] at hd'
      cases hd'

/-- Every outcome of closing a binding. -/
theorem close_cases (bus : Bus) (id : BindingId) :
    (bus.isOpen id = false ∧ bus.close id = (bus, .error .alreadyClosed)) ∨
      ∃ b, bus.bindings.get? id = some b ∧ b.isOpen = true ∧ bus.close id =
        ({ bus with
          registry := bus.registry.release b.user b.topic
          routes := Routes.leave bus.routes b.topic id
          bindings := bus.bindings.insert id b.shut }, .ok ()) := by
  unfold close isOpen
  cases hb : bus.bindings.get? id with
  | none => exact Or.inl ⟨rfl, rfl⟩
  | some b =>
    cases ho : b.isOpen with
    | false => exact Or.inl ⟨by simp [ho], by simp [ho]⟩
    | true => exact Or.inr ⟨b, rfl, ho, by simp [ho]⟩

/-- The open bindings after `id` was closed. -/
theorem opened_insert_shut {id : BindingId} {b : Binding} (hb : bus.bindings.get? id = some b) :
    (bus.bindings.insert id b.shut).filterMap (fun b => if b.isOpen then some b.toTerms else none) =
      bus.opened.erase id :=
  Table.filterMap_insert_gone hb (by simp)

theorem agrees_close (h : bus.Agrees) (id : BindingId) : (bus.close id).1.Agrees := by
  rcases bus.close_cases id with ⟨-, hc⟩ | ⟨b, hb, ho, hc⟩
  · rwa [hc]
  rw [hc]
  have hw := get?_opened_of_isOpen hb ho
  refine ⟨fun id' b' hb' => ?_, ?_, fun hd => ?_, fun hd => ?_⟩
  · rcases Table.of_get?_insert hb' with ⟨rfl, rfl⟩ | ⟨-, hb'⟩
    · rw [show b.shut.id = b.id from congrArg Terms.id b.shut_toTerms]
      exact h.issued id' b hb
    · exact h.issued id' b' hb'
  · have hacc := Registry.accounts_release h.accounts hw
    rw [← opened_insert_shut hb] at hacc
    exact hacc
  · have hl := Routes.lists_leave (h.lists hd) hw
    rw [← opened_insert_shut hb] at hl
    exact hl
  · simp only [h.ended hd]
    rfl

theorem agrees_shutdown (h : bus.Agrees) : bus.shutdown.Agrees := by
  have ho : bus.shutdown.opened = bus.opened := by
    exact Table.filterMap_mapValues _ (fun _ => Binding.disconnect) _ (fun _ _ => rfl)
  refine ⟨fun id b hb => ?_, ?_, fun hd => (nomatch hd), fun _ => rfl⟩
  · simp only [shutdown, Table.get?_mapValues, Option.map_eq_some_iff] at hb
    obtain ⟨b', hb', rfl⟩ := hb
    exact h.issued id b' hb'
  · rw [ho]
    exact h.accounts

/-! ### Calls that connect and disconnect nobody -/

/-- Replacing a binding by one on the same terms, open if it was, keeps the views in agreement. -/
theorem agrees_put (h : bus.Agrees) {id : BindingId} {b b' : Binding} (hb : bus.bindings.get? id = some b)
    (ht : b'.toTerms = b.toTerms) (ho : b'.isOpen = b.isOpen) : (bus.put id b').Agrees := by
  have hopened : (bus.put id b').opened = bus.opened := Table.filterMap_insert_same hb (by rw [ht, ho])
  refine ⟨fun id' b'' hb' => ?_, ?_, fun hd => ?_, h.ended⟩
  · rcases Table.of_get?_insert hb' with ⟨rfl, rfl⟩ | ⟨-, hb'⟩
    · rw [ht]
      exact h.issued id' b hb
    · exact h.issued id' b'' hb'
  · rw [hopened]
    exact h.accounts
  · rw [hopened]
    exact h.lists hd

/-- Changing nothing about the terms of bindings or whether they are open keeps the views in agreement. -/
theorem agrees_mapValues (h : bus.Agrees) (f : BindingId → Binding → Binding)
    (hf : ∀ id b, (f id b).toTerms = b.toTerms ∧ (f id b).isOpen = b.isOpen) :
    { bus with bindings := bus.bindings.mapValues f }.Agrees := by
  have hopened : { bus with bindings := bus.bindings.mapValues f }.opened = bus.opened :=
    Table.filterMap_mapValues _ _ _ (fun id b => by rw [(hf id b).1, (hf id b).2])
  refine ⟨fun id b hb => ?_, ?_, fun hd => ?_, h.ended⟩
  · simp only [Table.get?_mapValues, Option.map_eq_some_iff] at hb
    obtain ⟨b', hb', rfl⟩ := hb
    rw [(hf id b').1]
    exact h.issued id b' hb'
  · rw [hopened]
    exact h.accounts
  · rw [hopened]
    exact h.lists hd

theorem agrees_countRoute (h : bus.Agrees) (hd : bus.isShutDown = false) {t : Topic} {route : Route}
    (hr : bus.routes.get? t = some route) (n : Nat) :
    { bus with routes := bus.routes.insert t (route.count n) }.Agrees :=
  ⟨h.issued, h.accounts, fun _ => Routes.lists_count (h.lists hd) hr n, fun hd' => by rw [hd] at hd'; cases hd'⟩

theorem agrees_countWrite (h : bus.Agrees) (id : BindingId) (n : Nat) :
    { bus with bindings := bus.bindings.adjust id (·.countWrite n) }.Agrees :=
  agrees_mapValues h _ (fun id' b => by by_cases hid : id' = id <;> simp [hid, Binding.countWrite])

theorem agrees_delivered (h : bus.Agrees) {id : BindingId} {b staged : Binding} {route : Route} {data : Bytes}
    (hb : bus.bindings.get? id = some b) (hs : b.Staged data staged) (hd : bus.isShutDown = false)
    (hr : bus.routes.get? b.topic = some route) : (bus.delivered id b.toTerms staged route data).Agrees := by
  have hput := agrees_put h hb hs.toTerms_eq hs.isOpen_eq
  have hmap := agrees_mapValues hput
    (fun id b' => if id ∈ route.targets b.id b.target then b'.enqueue data else b')
    (fun id b' => by by_cases hm : id ∈ route.targets b.id b.target <;> simp [hm, Binding.enqueue])
  exact agrees_countWrite (agrees_countRoute hmap hd hr _) id data.length

theorem agrees_write (h : bus.Agrees) (id : BindingId) (data : Bytes) : (bus.write id data).1.Agrees := by
  have hout := written bus id data
  generalize bus.write id data = result at hout ⊢
  cases hout with
  | refused fault => exact h
  | empty _ => exact h
  | failed fault hb hs => exact agrees_put h hb hs.toTerms_eq hs.isOpen_eq
  | unrouted hb hs hd hr => exact agrees_countWrite (agrees_put h hb hs.toTerms_eq hs.isOpen_eq) id data.length
  | delivered hb hs hd hr => exact agrees_delivered h hb hs hd hr

end Bus
end TopicBus
