import TopicBus.Proofs.Keys
import TopicBus.Proofs.ExactDelivery
/-!
# Dead ends

A binding may outlive the kind that it writes to, for the registry does not count who writes to a kind.  From then on it
writes to nobody.  Its target was live when it was opened, so the key of the target is one of those that were issued
(`Desk.aimed_after`); a kind that is gone stays gone, and the users of open bindings have live kinds.  So its audience is
empty in every later state (`Agrees.audience_eq_nil`), and a write to nobody leaves every inbox as it is
(`Agrees.write_to_nobody`).
-/
namespace TopicBus

namespace Desk

variable {d : Desk}

/-- The target of every binding has a key that was issued. -/
def Aimed (d : Desk) : Prop :=
  ∀ id b, d.bus.bindings.get? id = some b → b.target.key < d.bus.registry.nextKey

theorem aimed_openBinding (h : d.Good) (ha : d.Aimed) (o : Options) : (d.apply (.openBinding o)).Aimed := by
  have hle := (extends_apply d (.openBinding o)).le
  have hout := Bus.opened_openBinding d.bus o
  simp only [apply] at hle ⊢
  generalize d.bus.openBinding o = result at hout hle ⊢
  cases hout with
  | refused fault => exact ha
  | opened hd hbuf hacq =>
    obtain ⟨_, _, -, -, htarget, -, -, -⟩ := Registry.acquire_eq_ok hacq
    obtain ⟨n, hn⟩ := Option.isSome_iff_exists.1 htarget
    intro id b hb
    rcases Table.of_get?_insert hb with ⟨-, rfl⟩ | ⟨-, hb⟩
    · exact Nat.lt_of_lt_of_le (h.agrees.accounts.kind o.target n hn).1 hle
    · exact Nat.lt_of_lt_of_le (ha id b hb) hle

theorem aimed_apply (h : d.Good) (ha : d.Aimed) (act : Act) : (d.apply act).Aimed := by
  intro id b hb
  cases hb₀ : d.bus.bindings.get? id with
  | some b₀ =>
    obtain ⟨b', hb', hmet⟩ := (deed_apply h act).met hb₀
    obtain rfl := Option.some.inj (hb.symm.trans hb')
    rw [show b.target = b₀.target from congrArg Terms.target hmet.terms]
    exact Nat.lt_of_lt_of_le (ha id b₀ hb₀) (extends_apply d act).le
  | none =>
    rcases (deed_apply h act).unborn hb₀ with ⟨hn, -⟩ | ⟨hevents, -⟩
    · rw [hb] at hn
      cases hn
    · -- it was opened just now, to a kind that was live
      have hmem : .opened id ∈ d.events act := hevents ▸ List.mem_singleton_self _
      cases leaves_of_mem_events hmem with
      | opened o => exact aimed_openBinding h ha o id b hb

theorem aimed_after (h : d.Good) (ha : d.Aimed) (acts : List Act) : (d.after acts).Aimed := by
  induction acts generalizing d with
  | nil => exact ha
  | cons act acts ih => exact ih (good_apply h act) (aimed_apply h ha act)

end Desk

namespace Bus

variable {bus : Bus} {id : BindingId} {w : Binding} {data : Bytes}

/-- The users of open bindings have live kinds. -/
theorem Agrees.ne_of_gone (h : bus.Agrees) {k : Kind} (hgone : bus.registry.contains (.kind k) = false) {b : Binding}
    (hb : b ∈ bus.openBindings) : bus.registry.kindOf b.user = .ok b.kind ∧ b.kind ≠ k := by
  obtain ⟨id, hget, ho⟩ := mem_openBindings.1 hb
  have hkind := h.kindOf_eq hget ho
  refine ⟨hkind, fun he => ?_⟩
  obtain ⟨-, -, k', hk', hlive⟩ := h.counted.live b hb
  obtain rfl : b.kind = k' := Except.ok.inj (hkind.symm.trans hk')
  rw [he, hgone] at hlive
  cases hlive

theorem Agrees.audience_eq_nil (h : bus.Agrees) {terms : Terms}
    (hgone : bus.registry.contains (.kind terms.target) = false) : bus.audience terms = [] := by
  refine List.eq_nil_iff_forall_not_mem.2 (fun id hm => ?_)
  obtain ⟨-, b, hb, ho, -, hk⟩ := mem_audience.1 hm
  obtain ⟨hkind, hne⟩ := h.ne_of_gone hgone (mem_openBindings.2 ⟨id, hb, ho⟩)
  exact hne (Except.ok.inj (hkind.symm.trans hk))

/-- `after` is `bus` after a write on the terms `w` that reached nobody. -/
structure Unreached (bus : Bus) (w : Terms) (after : Bus) : Prop where
  inboxes : ∀ id b, bus.bindings.get? id = some b → ∃ b', after.bindings.get? id = some b' ∧ b'.readSide = b.readSide
  deliveries : ∃ st st', bus.topicStats w.topic = some st ∧ after.topicStats w.topic = some st' ∧
    st'.deliveries = st.deliveries

/-- **A write whose audience is empty** is delivered to nobody, or refused if it must have a single recipient. -/
theorem Agrees.write_to_nobody (h : bus.Agrees)
    (hs : ∀ id b, bus.bindings.get? id = some b → b.Sound bus.config.chunkLimit bus.isShutDown)
    (hd : bus.isShutDown = false) (hw : bus.bindings.get? id = some w) (ho : w.isOpen = true) (hne : data ≠ [])
    (hl : Within bus.config.chunkLimit data.length) (hnobody : bus.audience w.toTerms = []) :
    ((bus.write id data).2 = match w.delivery with
      | .multicast => .ok data.length
      | .monocast => .error (.binding (.recipients 0))) ∧ bus.Unreached w.toTerms (bus.write id data).1 := by
  obtain ⟨route, hr, hperm⟩ := h.targets_perm_audience hd hw ho
  rw [hnobody, List.perm_nil] at hperm
  obtain ⟨staged, hst, he⟩ := write_eq (hs id w hw) hd hw ho hne hl hr
  rw [hperm] at he
  have hstats : bus.topicStats w.topic = some route.stats := by rw [topicStats, hr]; rfl
  cases hdel : w.delivery with
  | monocast =>
    rw [hdel, if_pos ⟨rfl, Nat.zero_ne_one⟩] at he
    rw [he]
    refine ⟨rfl, fun id' b hb => ?_, route.stats, route.stats, hstats, hstats, rfl⟩
    obtain ⟨b', hb', hpass⟩ := get?_put_passed hw hst.passed hb
    exact ⟨b', hb', hpass.readSide⟩
  | multicast =>
    rw [hdel, if_neg (fun hm => by cases hm.1)] at he
    rw [he]
    have hroutes : (bus.delivered id w.toTerms staged route data).routes =
        bus.routes.insert w.topic (route.count (route.targets w.id w.target).length) :=
      routes_delivered (fun id' hm => absurd (hperm ▸ hm) List.not_mem_nil)
    rw [hperm] at hroutes
    refine ⟨rfl, fun id' b hb => ?_, route.stats, (route.count 0).stats, hstats, ?_, rfl⟩
    · obtain ⟨b', hb', hpass⟩ := get?_delivered_passed hw hst.passed w.toTerms route hb
      refine ⟨b', hb', ?_⟩
      rw [hpass.readSide, hperm]
      rfl
    · rw [topicStats, hroutes, Table.get?_insert_self]
      rfl

end Bus

namespace Session

theorem aimed_run (config : Config) (ops : List Op) : ((new config).run ops).desk.Aimed := by
  rw [desk_run]
  exact Desk.aimed_after (Desk.good_new config) (fun _ _ hb => by cases hb) _

/-- **A binding whose target is gone writes to nobody**, then and ever after.  Its target is never live again and no
open binding has a user of that kind.  As long as the binding is open and the bus is not shut down, each of its
non-empty writes within the limit reaches no inbox: it is answered with its length and counts no delivery, or refused
for want of a recipient if it must have a single one. -/
theorem dead_end (config : Config) (ops : List Op) {id : BindingId} {w : Binding}
    (hw : ((new config).run ops).bus.bindings.get? id = some w)
    (hgone : ((new config).run ops).bus.registry.contains (.kind w.target) = false) (later : List Op) :
    let bus := (((new config).run ops).run later).bus
    bus.registry.contains (.kind w.target) = false ∧
    (∀ b ∈ bus.openBindings, ∃ k, bus.registry.kindOf b.user = .ok k ∧ k ≠ w.target) ∧
    (bus.isOpen id = true → bus.isShutDown = false → ∀ p, p ≠ [] → Within bus.config.chunkLimit p.length →
      ((bus.write id p).2 = match w.delivery with
        | .multicast => .ok p.length
        | .monocast => .error (.binding (.recipients 0))) ∧ bus.Unreached w.toTerms (bus.write id p).1) := by
  intro bus
  have hgood : (((new config).run ops).run later).desk.Good := by
    rw [← run_append]
    exact good_run config _
  have hgone' : bus.registry.contains (.kind w.target) = false := by
    have hissued : ((new config).run ops).desk.bus.registry.Gone (.kind w.target) :=
      ⟨hgone, aimed_run config ops id w hw⟩
    have hafter := Desk.gone_after hissued (((new config).run ops).trail later)
    rw [← desk_run] at hafter
    exact hafter.1
  refine ⟨hgone', fun b hb => ⟨b.kind, hgood.agrees.ne_of_gone hgone' hb⟩, fun ho hd p hp hl => ?_⟩
  obtain ⟨w', hw', ho'⟩ := Bus.isOpen_iff.1 ho
  have hterms : w'.toTerms = w.toTerms := terms_run (good_run config ops) hw hw'
  rw [← hterms] at hgone' ⊢
  exact hgood.agrees.write_to_nobody hgood.sound hd hw' ho' hp hl (hgood.agrees.audience_eq_nil hgone')

/-- A binding to a kind that has no users and is destroyed then, and a new kind with a user on the topic afterwards. -/
def strayed (delivery : Delivery) : List Op :=
  [.create .kind, .create (.user ⟨1⟩), .create .kind, .create .topic,
    .openBinding "a" { user := ⟨2⟩, topic := ⟨4⟩, target := ⟨3⟩, delivery }, .destroy (.kind ⟨3⟩)]

def resettled : List Op :=
  [.create .kind, .create (.user ⟨6⟩), .openBinding "b" { user := ⟨7⟩, topic := ⟨4⟩, target := ⟨1⟩ }]

/-- A stray binding does not find the kind that came after its own. -/
theorem dead_end_of_strayed :
    ((((new {}).run (strayed .multicast)).run resettled).bus.write ⟨5⟩ [1, 2]).2 = .ok 2 ∧
      ((((new {}).run (strayed .monocast)).run resettled).bus.write ⟨5⟩ [1, 2]).2 =
        .error (.binding (.recipients 0)) := by
  have hw : ∀ delivery, ((new {}).run (strayed delivery)).bus.bindings.get? ⟨5⟩ = some _ := fun _ => rfl
  obtain ⟨-, -, hmulticast⟩ := dead_end {} (strayed .multicast) (hw _) rfl resettled
  obtain ⟨-, -, hmonocast⟩ := dead_end {} (strayed .monocast) (hw _) rfl resettled
  exact ⟨(hmulticast rfl rfl [1, 2] nofun nofun).1, (hmonocast rfl rfl [1, 2] nofun nofun).1⟩

end Session
end TopicBus
