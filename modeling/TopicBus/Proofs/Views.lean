import TopicBus.Proofs.Holders
import Mathlib.Data.List.Dedup
/-!
# Who is connected

The open bindings, the routes, the counts of the registry and the holders of bindings are four views of who is connected
(`views_agree`).  The routes list the open bindings and nothing else, the registry counts them, and each of them is held
by somebody.  A binding is opened once and closed once, when that is first asked for or when its last holder is gone; at
that moment it is still counted, so that no count is lowered below zero.
-/
namespace TopicBus

/-! ## The open bindings as a list -/

namespace Table

variable {κ α β : Type}

theorem values_filterMap (f : α → Option β) (t : Table κ α) : (t.filterMap f).values = t.values.filterMap f := by
  simp only [values, filterMap, List.map_filterMap, List.filterMap_map, Option.map_map]
  congr 1
  funext e
  simp only [Function.comp_apply]
  cases f e.2 <;> rfl

theorem size_eq_length_keys (t : Table κ α) : t.size = t.keys.length := by simp [size, keys]

end Table

namespace Bus

variable {bus : Bus}

def openBindings (bus : Bus) : List Binding := bus.bindings.values.filter (·.isOpen)

theorem mem_openBindings {b : Binding} :
    b ∈ bus.openBindings ↔ ∃ id, bus.bindings.get? id = some b ∧ b.isOpen = true := by
  rw [openBindings, List.mem_filter, Table.mem_values_iff, exists_and_right]

theorem count_opened (bus : Bus) (p : Terms → Bool) :
    bus.opened.count p = bus.openBindings.countP (fun b => p b.toTerms) := by
  rw [Table.count, opened, Table.values_filterMap, List.countP_filterMap, openBindings, List.countP_filter]
  refine List.countP_congr (fun b _ => ?_)
  cases b.isOpen <;> simp

/-- The routes list the open bindings and nothing else. -/
structure Routed (bus : Bus) : Prop where
  listed : ∀ t id k, (∃ route, bus.routes.get? t = some route ∧ route.subscribers.get? id = some k) ↔
    ∃ b, bus.bindings.get? id = some b ∧ b.isOpen = true ∧ b.topic = t ∧ bus.registry.kindOf b.user = .ok k
  inhabited : ∀ t route, bus.routes.get? t = some route → route.subscribers.size ≠ 0
  size : bus.routes.size = (bus.openBindings.map (·.topic)).dedup.length
  stats : ∀ t, (bus.topicStats t).isSome = true ↔ ∃ b ∈ bus.openBindings, b.topic = t

/-- The registry counts the open bindings, and what they name is live. -/
structure Counted (bus : Bus) : Prop where
  total : bus.registry.live.bindings = bus.openBindings.length
  user : ∀ u e, bus.registry.users.get? u = some e → e.bindings = bus.openBindings.countP (·.user = u)
  topic : ∀ t n, bus.registry.topics.get? t = some n → n = bus.openBindings.countP (·.topic = t)
  live : ∀ b ∈ bus.openBindings, bus.registry.contains (.user b.user) = true ∧
    bus.registry.contains (.topic b.topic) = true ∧
      ∃ k, bus.registry.kindOf b.user = .ok k ∧ bus.registry.contains (.kind k) = true

/-- Where the references of `b` are counted, there is one to give up. -/
structure Referenced (registry : Registry) (b : Binding) : Prop where
  user : ∃ e, registry.users.get? b.user = some e ∧ 0 < e.bindings
  topic : ∃ n, registry.topics.get? b.topic = some n ∧ 0 < n
  total : 0 < registry.openBindings

theorem Agrees.exists_route_iff (h : bus.Agrees) (hd : bus.isShutDown = false) (t : Topic) :
    (∃ route, bus.routes.get? t = some route) ↔ ∃ b ∈ bus.openBindings, b.topic = t := by
  rw [(h.lists hd).exists_route_iff]
  constructor
  · rintro ⟨id, w, hw, ht⟩
    obtain ⟨b, hb, ho, rfl⟩ := get?_opened.1 hw
    exact ⟨b, mem_openBindings.2 ⟨id, hb, ho⟩, ht⟩
  · rintro ⟨b, hm, ht⟩
    obtain ⟨id, hb, ho⟩ := mem_openBindings.1 hm
    exact ⟨id, b.toTerms, get?_opened_of_isOpen hb ho, ht⟩

theorem Agrees.routed (h : bus.Agrees) (hd : bus.isShutDown = false) : bus.Routed where
  listed t id k := by
    have hl := (h.lists hd).listed t id
    rw [Routes.listing] at hl
    rw [← Option.bind_eq_some_iff, hl, Option.bind_eq_some_iff]
    constructor
    · rintro ⟨w, hw, hk⟩
      obtain ⟨b, hb, ho, rfl⟩ := get?_opened.1 hw
      simp only [Option.ite_none_right_eq_some, Option.some.injEq] at hk
      exact ⟨b, hb, ho, hk.1, hk.2 ▸ h.kindOf_eq hb ho⟩
    · rintro ⟨b, hb, ho, ht, hk⟩
      rw [h.kindOf_eq hb ho, Except.ok.injEq] at hk
      exact ⟨b.toTerms, get?_opened_of_isOpen hb ho, by rw [if_pos ht, hk]⟩
  inhabited := (h.lists hd).inhabited
  size := by
    rw [Table.size_eq_length_keys]
    refine ((List.perm_ext_iff_of_nodup bus.routes.distinct (List.nodup_dedup _)).2 (fun t => ?_)).length_eq
    change t ∈ bus.routes.keys ↔ _
    rw [List.mem_dedup, List.mem_map, Table.mem_keys_iff, h.exists_route_iff hd]
  stats t := by
    rw [← h.exists_route_iff hd, topicStats, Option.isSome_map, Option.isSome_iff_exists]

theorem Agrees.counted (h : bus.Agrees) : bus.Counted where
  total := by
    rw [show bus.registry.live.bindings = bus.registry.openBindings from rfl, h.accounts.total, Table.size_eq_count,
      count_opened, List.countP_true]
  user u e he := by rw [(h.accounts.user u e he).2.2, count_opened]
  topic t n hn := by rw [(h.accounts.topic t n hn).2, count_opened]
  live b hm := by
    obtain ⟨id, hb, ho⟩ := mem_openBindings.1 hm
    obtain ⟨⟨e, he, hk⟩, n, hn⟩ := h.accounts.live id b.toTerms (get?_opened_of_isOpen hb ho)
    obtain ⟨m, hm'⟩ := (h.accounts.user _ e he).2.1
    refine ⟨by simp [Registry.contains, Table.contains, he], by simp [Registry.contains, Table.contains, hn], b.kind,
      h.kindOf_eq hb ho, ?_⟩
    rw [hk] at hm'
    simp [Registry.contains, Table.contains, hm']

theorem Agrees.referenced (h : bus.Agrees) {id : BindingId} {b : Binding} (hb : bus.bindings.get? id = some b)
    (ho : b.isOpen = true) : Referenced bus.registry b := by
  obtain ⟨hu, ht, hn⟩ := h.accounts.counted (get?_opened_of_isOpen hb ho)
  exact ⟨hu, ht, hn⟩

end Bus

/-! ## Every run -/

namespace Session

variable {config : Config} {ops : List Op} {id : BindingId} {b : Binding}

/-- A binding was opened once, and closed once unless it is open. -/
theorem count_historyOf (hb : ((new config).run ops).bus.bindings.get? id = some b) :
    (historyOf config ops).count (.opened id) = 1 ∧
      (historyOf config ops).count (.closed id) = if b.isOpen then 0 else 1 := by
  have hafter : ((Desk.new config).after ((new config).trail ops)).bus.bindings.get? id = some b := by
    rw [show Desk.new config = (new config).desk from rfl, ← desk_run]
    exact hb
  obtain ⟨pre, post, b₀, hhist, hpre, ho₀, -, hmet⟩ := Desk.exists_opening (Desk.good_new config) rfl hafter
  obtain ⟨hopened, hclosed⟩ := not_mem_of_others hpre
  have hhist' : historyOf config ops = pre ++ .opened id :: post := hhist
  have hclosings := hmet.closings
  have hne : Event.opened id ≠ .closed id := nofun
  rw [hhist', List.count_append, List.count_append, List.count_eq_zero.2 hopened, List.count_eq_zero.2 hclosed,
    List.count_cons_self, List.count_cons_of_ne hne, List.count_eq_zero.2 hmet.opened]
  refine ⟨rfl, ?_⟩
  rw [ho₀] at hclosings
  cases ho : b.isOpen with
  | true =>
    rw [ho] at hclosings
    simp only [Bool.toNat_true] at hclosings
    simp only [if_true]
    omega
  | false =>
    rw [ho] at hclosings
    simp only [Bool.toNat_true, Bool.toNat_false] at hclosings
    simp only [Bool.false_eq_true, if_false]
    omega

/-- An operation that leaves an open binding closed was to close it, or took it from its last holder. -/
theorem cause_of_closing {s : Session} (hs : s.desk.Good) {op : Op} (ho : s.bus.isOpen id = true)
    (hc : (s.step op).1.bus.isOpen id = false) :
    (s.closes? op = some id ∧ (s.step op).2 = .done) ∨ (s.step op).1.isHeld id = false := by
  obtain ⟨b, hb, hbo⟩ := Bus.isOpen_iff.1 ho
  obtain ⟨b', hb', hmet⟩ := Desk.met_after hs hb (s.acts op)
  have hb'' : (s.step op).1.bus.bindings.get? id = some b' := by
    rw [← desk_step] at hb'
    exact hb'
  have hclosed : b'.isOpen = false := by
    rw [Bus.isOpen, hb''] at hc
    exact hc
  have hmem : .closed id ∈ s.desk.history (s.acts op) := by
    have hcount := hmet.closings
    rw [hbo, hclosed] at hcount
    exact List.count_pos_iff.1 (by rw [Bool.toNat_true, Bool.toNat_false] at hcount; omega)
  exact (closes_or_unheld (Desk.close_mem_of_mem_history hmem)).imp_left (fun h => ⟨h, answer_of_closes? h ho⟩)

/-- Closing an open binding gives up its references, where they are counted. -/
theorem close_releases {d : Desk} (h : d.Good) (hb : d.bus.bindings.get? id = some b) (ho : b.isOpen = true) :
    Bus.Referenced d.bus.registry b ∧
      (d.apply (.close id)).bus.registry = d.bus.registry.release b.user b.topic := by
  refine ⟨h.agrees.referenced hb ho, ?_⟩
  rcases Bus.close_cases d.bus id with ⟨hc, -⟩ | ⟨b', hb', -, he⟩
  · rw [Bus.isOpen, hb] at hc
    exact absurd (hc.symm.trans ho) Bool.false_ne_true
  · obtain rfl := Option.some.inj (hb.symm.trans hb')
    simp only [Desk.apply, he]

/-- **The views of who is connected agree** after every run.  The routes list the open bindings until the bus is shut
down and nobody afterwards; the registry counts them; each is held by somebody.  A step closes a binding only by a
successful close or because nobody holds it any more; a binding is opened once and closed once, if it is closed; and
whenever it gives up its references then, the counts that are lowered are not zero. -/
theorem views_agree (config : Config) (ops : List Op) :
    let s := (new config).run ops
    (s.bus.isShutDown = false → s.bus.Routed) ∧ (s.bus.isShutDown = true → s.bus.routes = .empty) ∧
    s.bus.Counted ∧
    (∀ id, s.bus.isOpen id = true → s.isHeld id = true) ∧
    (∀ op id, s.bus.isOpen id = true → (s.step op).1.bus.isOpen id = false →
      (s.closes? op = some id ∧ (s.step op).2 = .done) ∨ (s.step op).1.isHeld id = false) ∧
    (∀ id b, s.bus.bindings.get? id = some b → (historyOf config ops).count (.opened id) = 1 ∧
      (historyOf config ops).count (.closed id) = if b.isOpen then 0 else 1) ∧
    ∀ before id b, before ++ [.close id] <+: (new config).trail ops →
      ((Desk.new config).after before).bus.bindings.get? id = some b → b.isOpen = true →
        Bus.Referenced ((Desk.new config).after before).bus.registry b ∧
        ((Desk.new config).after (before ++ [.close id])).bus.registry =
          ((Desk.new config).after before).bus.registry.release b.user b.topic := by
  intro s
  have hgood := good_run config ops
  refine ⟨hgood.agrees.routed, hgood.agrees.ended, hgood.agrees.counted, tended_run config ops,
    fun op id => cause_of_closing hgood, fun id b => count_historyOf, fun before id b _ hb ho => ?_⟩
  rw [Desk.after_append]
  exact close_releases (Desk.good_after (Desk.good_new config) before) hb ho

end Session
end TopicBus
