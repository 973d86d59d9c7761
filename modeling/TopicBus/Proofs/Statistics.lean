import TopicBus.Proofs.Dependents
import TopicBus.Proofs.Figures
import Mathlib.Algebra.BigOperators.Group.Finset.Piecewise
import Mathlib.Algebra.GroupWithZero.Nat
/-!
# The statistics of a topic

The route of a topic lives as long as some binding on it is open, and its figures are about that span: it begins with the
last opening that found nobody there (`Desk.LastBegun`).  Over the span the route, the writers and the inboxes count the
same chunks.  A write that goes out adds one for its writer and one for each of its audience on both sides
(`Bus.Accounted.sent`), and every other act adds nothing (`Bus.Accounted.quiet`); so the equations hold after all acts of
the span (`Desk.accounted_after`), whoever was opened or closed in it.
-/
namespace TopicBus

/-! ## Who is on a topic -/

theorem nodup_eraseDups {α : Type} [DecidableEq α] : ∀ l : List α, l.eraseDups.Nodup
  | [] => List.nodup_nil
  | a :: l => by
    rw [List.eraseDups_cons, List.nodup_cons]
    exact ⟨by simp [List.mem_eraseDups], nodup_eraseDups (l.filter (fun b => !b == a))⟩
termination_by l => l.length
decreasing_by exact Nat.lt_succ_of_le (List.length_filter_le ..)

theorem length_eraseDups {α : Type} [DecidableEq α] (l : List α) : l.eraseDups.length = l.dedup.length :=
  ((List.perm_ext_iff_of_nodup (nodup_eraseDups l) (List.nodup_dedup l)).2
    (fun a => by rw [List.mem_eraseDups, List.mem_dedup])).length_eq

namespace Bus

variable {bus bus' earlier : Bus} {t : Topic} {id i : BindingId} {b w : Binding} {data : Bytes}

/-- The open bindings on a topic. -/
def onTopic (bus : Bus) (t : Topic) : List Binding := bus.openBindings.filter (fun b => b.topic = t)

/-- The bindings on a topic that were opened since the earlier bus, whether they are still open or not. -/
def openedSince (bus earlier : Bus) (t : Topic) : List BindingId :=
  (bus.bindings.filter (fun id b => b.topic = t && !earlier.bindings.contains id)).keys

theorem mem_onTopic : b ∈ bus.onTopic t ↔ ∃ id, bus.bindings.get? id = some b ∧ b.isOpen = true ∧ b.topic = t := by
  rw [onTopic, List.mem_filter, mem_openBindings, decide_eq_true_eq]
  constructor
  · rintro ⟨⟨id, hb, ho⟩, ht⟩
    exact ⟨id, hb, ho, ht⟩
  · rintro ⟨id, hb, ho, ht⟩
    exact ⟨⟨id, hb, ho⟩, ht⟩

theorem ne_topic_of_onTopic (h : bus.onTopic t = []) (hb : bus.bindings.get? id = some b) (ho : b.isOpen = true) :
    b.topic ≠ t := fun ht => by
  have hm : b ∈ bus.onTopic t := mem_onTopic.2 ⟨id, hb, ho, ht⟩
  rw [h] at hm
  cases hm

theorem mem_openedSince : id ∈ bus.openedSince earlier t ↔
    earlier.bindings.get? id = none ∧ ∃ b, bus.bindings.get? id = some b ∧ b.topic = t := by
  simp only [openedSince, Table.keys, Table.filter, List.mem_map, List.mem_filter, Bool.and_eq_true, decide_eq_true_eq,
    Bool.not_eq_true', Table.contains, Option.isSome_eq_false_iff, Option.isNone_iff_eq_none]
  constructor
  · rintro ⟨e, ⟨he, ht, hn⟩, rfl⟩
    exact ⟨hn, e.2, Table.get?_eq_some_iff.2 he, ht⟩
  · rintro ⟨hn, b, hb, ht⟩
    exact ⟨(id, b), ⟨Table.get?_eq_some_iff.1 hb, ht, hn⟩, rfl⟩

/-- A topic has a route exactly while somebody is on it. -/
theorem Agrees.exists_route_iff_onTopic (h : bus.Agrees) (hd : bus.isShutDown = false) :
    (∃ route, bus.routes.get? t = some route) ↔ bus.onTopic t ≠ [] := by
  rw [h.exists_route_iff hd, onTopic, ne_eq, List.filter_eq_nil_iff]
  simp only [decide_eq_true_eq, not_forall, not_not, exists_prop]

/-- Opening a binding brings at most one onto a topic. -/
theorem Agrees.length_onTopic_openBinding (h : bus.Agrees) (o : Options) :
    ((bus.openBinding o).1.onTopic t).length ≤ (bus.onTopic t).length + 1 := by
  have hout := opened_openBinding bus o
  generalize bus.openBinding o = result at hout ⊢
  cases hout with
  | refused _ => exact Nat.le_succ _
  | opened _ _ ha =>
    obtain ⟨_, _, -, -, -, rfl, -, -⟩ := Registry.acquire_eq_ok ha
    simp only [onTopic, openBindings, Table.values, Table.entries_insert_of_none h.get?_opened_next, List.map_append,
      List.map_cons, List.map_nil, List.filter_append, List.length_append]
    exact Nat.add_le_add_left ((List.length_filter_le ..).trans (List.length_filter_le ..)) _

theorem onTopic_eq (bus : Bus) (t : Topic) :
    bus.onTopic t = (bus.bindings.entries.filter (fun e => e.2.isOpen && e.2.topic = t)).map Prod.snd := by
  rw [onTopic, openBindings, Table.values, List.filter_map, List.filter_map, List.filter_filter]
  refine congrArg (List.map Prod.snd) (List.filter_congr (fun e _ => ?_))
  exact Bool.and_comm _ _

/-- A route lists a binding with a kind exactly if the binding is open on the topic and of a user of the kind. -/
theorem Agrees.mem_subscribers_iff (h : bus.Agrees) (hd : bus.isShutDown = false) {route : Route}
    (hr : bus.routes.get? t = some route) (id : BindingId) (kind : Kind) :
    (id, kind) ∈ route.subscribers.entries ↔
      ∃ b, bus.bindings.get? id = some b ∧ b.isOpen = true ∧ b.topic = t ∧ b.kind = kind := by
  have hlisted := (h.lists hd).listed t id
  rw [Routes.listing, hr, Option.bind_some] at hlisted
  rw [← Table.get?_eq_some_iff, hlisted, Option.bind_eq_some_iff]
  constructor
  · rintro ⟨terms, hterms, hk⟩
    obtain ⟨b, hb, ho, rfl⟩ := get?_opened.1 hterms
    rw [Option.ite_none_right_eq_some, Option.some.injEq] at hk
    exact ⟨b, hb, ho, hk⟩
  · rintro ⟨b, hb, ho, ht, rfl⟩
    exact ⟨b.toTerms, get?_opened_of_isOpen hb ho, if_pos ht⟩

/-- **The subscribers of a route** are the open bindings on its topic, each with the kind of its user. -/
theorem Agrees.subscribers_perm (h : bus.Agrees) (hd : bus.isShutDown = false) {route : Route}
    (hr : bus.routes.get? t = some route) :
    route.subscribers.values.Perm ((bus.onTopic t).map (·.kind)) := by
  let entries := bus.bindings.entries.filter (fun e => e.2.isOpen && e.2.topic = t)
  -- ids are different on both sides, so it is enough that the same pairs are there
  have hnodup : (entries.map (fun e => (e.1, e.2.kind))).Nodup := by
    refine List.Nodup.of_map Prod.fst ?_
    rw [List.map_map]
    exact (List.filter_sublist.map Prod.fst).nodup bus.bindings.distinct
  have hentries : route.subscribers.entries.Perm (entries.map (fun e => (e.1, e.2.kind))) := by
    refine (List.perm_ext_iff_of_nodup (List.Nodup.of_map _ route.subscribers.distinct) hnodup).2 (fun e => ?_)
    rw [h.mem_subscribers_iff hd hr e.1 e.2]
    simp only [entries, List.mem_map, List.mem_filter, Bool.and_eq_true, decide_eq_true_eq]
    constructor
    · rintro ⟨b, hb, ho, ht, hk⟩
      exact ⟨(e.1, b), ⟨Table.get?_eq_some_iff.1 hb, ho, ht⟩, Prod.ext rfl hk⟩
    · rintro ⟨e', ⟨he', ho, ht⟩, rfl⟩
      exact ⟨e'.2, Table.get?_eq_some_iff.2 he', ho, ht, rfl⟩
  have hvalues := hentries.map Prod.snd
  rw [onTopic_eq, List.map_map]
  rw [List.map_map] at hvalues
  exact hvalues

/-- **What is told of a topic** with an open binding on it. -/
theorem Agrees.topicStats_eq (h : bus.Agrees) (hd : bus.isShutDown = false) (hne : bus.onTopic t ≠ []) :
    bus.topicStats t = some {
      bindings := (bus.onTopic t).length
      kinds := ((bus.onTopic t).map (fun b => bus.registry.kindOf b.user)).dedup.length
      published := bus.routes.published t
      deliveries := bus.routes.deliveries t } := by
  obtain ⟨route, hr⟩ := (h.exists_route_iff_onTopic hd).2 hne
  have hperm := h.subscribers_perm hd hr
  have hsize : route.subscribers.size = (bus.onTopic t).length := by
    rw [← List.length_map (f := (·.kind)), ← hperm.length_eq, Table.values, List.length_map]
    rfl
  have hkinds : (bus.onTopic t).map (fun b => bus.registry.kindOf b.user) =
      ((bus.onTopic t).map (·.kind)).map .ok := by
    rw [List.map_map]
    refine List.map_congr_left (fun b hm => ?_)
    obtain ⟨id, hb, ho, -⟩ := mem_onTopic.1 hm
    exact h.kindOf_eq hb ho
  have hdistinct : route.subscribers.values.eraseDups.length =
      ((bus.onTopic t).map (fun b => bus.registry.kindOf b.user)).dedup.length := by
    rw [length_eraseDups, hperm.dedup.length_eq, hkinds, List.dedup_map_of_injective (fun _ _ he => Except.ok.inj he),
      List.length_map]
  rw [topicStats, Routes.published, Routes.deliveries, hr]
  simp only [Option.map_some, Option.getD_some, Route.stats, hsize, hdistinct]

/-- A topic with open bindings on it is not destroyed; the refusal tells how many they are. -/
theorem Agrees.destroy_onTopic (h : bus.Agrees) (hne : bus.onTopic t ≠ []) :
    (bus.destroy (.topic t)).2 = .error (.registry (.referenced t.key (bus.onTopic t).length)) := by
  obtain ⟨b, hm⟩ := List.exists_mem_of_ne_nil _ hne
  obtain ⟨hopen, ht⟩ := List.mem_filter.1 hm
  have hlive : bus.registry.contains (.topic t) = true := of_decide_eq_true ht ▸ (h.counted.live b hopen).2.1
  have hcount : bus.dependents (.topic t) = (bus.onTopic t).length := List.countP_eq_length_filter
  rw [h.destroy_answer, hlive, hcount, if_neg Bool.false_ne_true.symm, if_neg (by simpa using hne)]
  rfl

end Bus

/-! ## Figures over a span -/

namespace Bus

variable {bus bus' : Bus} {t : Topic} {i : BindingId} {w : Binding} {data : Bytes} {ids : Finset BindingId}
  {arrived : BindingId → Nat}

/-- All that are there of `ids` are on the topic, and all that are open on the topic are among `ids`. -/
structure Span (ids : Finset BindingId) (t : Topic) (bus : Bus) : Prop where
  topic : ∀ id ∈ ids, ∀ b, bus.bindings.get? id = some b → b.topic = t
  opened : ∀ id b, bus.bindings.get? id = some b → b.isOpen = true → b.topic = t → id ∈ ids

/-- The route of the topic counts what `ids` wrote and what arrived at them. -/
structure Accounted (ids : Finset BindingId) (t : Topic) (arrived : BindingId → Nat) (bus : Bus) : Prop where
  published : bus.routes.published t = ∑ id ∈ ids, bus.chunksWritten id
  deliveries : bus.routes.deliveries t = ∑ id ∈ ids, arrived id

/-- How many of `ids` a write is for. -/
theorem Span.sum_audience (hspan : Span ids t bus) (terms : Terms) :
    ∑ id ∈ ids, (if id ∈ bus.audience terms then 1 else 0) =
      if terms.topic = t then (bus.audience terms).length else 0 := by
  rw [← Finset.card_filter]
  split
  · rename_i ht
    have hfilter : ids.filter (· ∈ bus.audience terms) = (bus.audience terms).toFinset := by
      ext id
      rw [Finset.mem_filter, List.mem_toFinset]
      refine ⟨And.right, fun hm => ⟨?_, hm⟩⟩
      obtain ⟨-, b, hb, ho, htopic, -⟩ := mem_audience.1 hm
      exact hspan.opened id b hb ho (htopic.trans ht)
    rw [hfilter, List.toFinset_card_of_nodup (show (bus.audience terms).Nodup from Table.distinct _)]
  · rename_i ht
    rw [Finset.card_eq_zero, Finset.filter_eq_empty_iff]
    intro id hid hm
    obtain ⟨-, b, hb, -, htopic, -⟩ := mem_audience.1 hm
    exact ht (htopic.symm.trans (hspan.topic id hid b hb))

/-- **A chunk that goes out** is counted by the route as by its writer and its audience. -/
theorem Accounted.sent (hacc : Accounted ids t arrived bus) (hspan : Span ids t bus)
    (hw : bus.bindings.get? i = some w) (ho : w.isOpen = true) (hsent : bus.Sent i w.toTerms data bus') :
    Accounted ids t (fun id => arrived id + ((bus'.inbox id).length - (bus.inbox id).length)) bus' := by
  obtain ⟨route, hr, hroutes⟩ := hsent.routes
  have hmem : i ∈ ids ↔ w.topic = t := ⟨fun hi => hspan.topic i hi w hw, fun ht => hspan.opened i w hw ho ht⟩
  refine ⟨?_, ?_⟩
  · simp only [hsent.written, Finset.sum_add_distrib, Finset.sum_ite_eq', ← hacc.published]
    rw [hroutes, Routes.published, Routes.published, Table.get?_insert]
    by_cases ht : w.topic = t
    · rw [if_pos ht.symm, if_pos (hmem.2 ht), ← ht, hr]
      rfl
    · rw [if_neg (Ne.symm ht), if_neg (fun hi => ht (hmem.1 hi))]
      rfl
  · have hgrowth : ∀ id, (bus'.inbox id).length - (bus.inbox id).length =
        if id ∈ bus.audience w.toTerms then 1 else 0 := fun id => by
      rw [hsent.inbox id]
      split <;> simp
    simp only [hgrowth, Finset.sum_add_distrib, ← hacc.deliveries, hspan.sum_audience]
    rw [hroutes, Routes.deliveries, Routes.deliveries, Table.get?_insert]
    by_cases ht : w.topic = t
    · rw [if_pos ht.symm, if_pos ht, ← ht, hr]
      rfl
    · rw [if_neg (Ne.symm ht), if_neg ht]
      rfl

/-- **What sends nothing** is counted by nobody. -/
theorem Accounted.quiet (hacc : Accounted ids t arrived bus) (hq : bus.Quiet bus') {route : Route}
    (hr : bus'.routes.get? t = some route) :
    Accounted ids t (fun id => arrived id + ((bus'.inbox id).length - (bus.inbox id).length)) bus' := by
  obtain ⟨hpublished, hdeliveries⟩ := hq.routes t route hr
  refine ⟨?_, ?_⟩
  · simp only [hq.written, ← hacc.published]
    rw [← hpublished, Routes.published, hr]
    rfl
  · have hgrowth : ∀ id, (bus'.inbox id).length - (bus.inbox id).length = 0 := fun id =>
      Nat.sub_eq_zero_of_le (hq.inbox id)
    simp only [hgrowth, Nat.add_zero, ← hacc.deliveries]
    rw [← hdeliveries, Routes.deliveries, hr]
    rfl

end Bus

/-! ## Acts in order -/

namespace Desk

variable {d : Desk} {t : Topic} {o : Options} {before rest : List Act} {act : Act}

/-- How many chunks acts in order put into the inbox of a binding. -/
def arrivals (d : Desk) (id : BindingId) : List Act → Nat
  | [] => 0
  | act :: acts => ((d.apply act).bus.inbox id).length - (d.bus.inbox id).length + (d.apply act).arrivals id acts

/-- Opening a binding with `o` takes the topic from no open binding to one. -/
def Begins (d : Desk) (t : Topic) (o : Options) : Prop :=
  d.bus.onTopic t = [] ∧ ((d.apply (.openBinding o)).bus.onTopic t).length = 1

/-- Of the acts `before ++ .openBinding o :: rest`, this opening is the last that takes the topic from no open binding
to one. -/
structure LastBegun (d : Desk) (t : Topic) (before : List Act) (o : Options) (rest : List Act) : Prop where
  begins : (d.after before).Begins t o
  last : ∀ mid o' post, rest = mid ++ .openBinding o' :: post →
    ¬(d.after (before ++ .openBinding o :: mid)).Begins t o'

/-- **An act by which somebody comes onto an empty topic** opens a binding there. -/
theorem begins_of_onTopic (h : d.Good) (hempty : d.bus.onTopic t = []) (hne : (d.apply act).bus.onTopic t ≠ []) :
    ∃ o, act = .openBinding o ∧ d.Begins t o := by
  obtain ⟨b, hm⟩ := List.exists_mem_of_ne_nil _ hne
  obtain ⟨id, hb, ho, ht⟩ := Bus.mem_onTopic.1 hm
  cases hb₀ : d.bus.bindings.get? id with
  | some b₀ =>
    obtain ⟨b₁, hb₁, hmet⟩ := (deed_apply h act).met hb₀
    obtain rfl := Option.some.inj (hb.symm.trans hb₁)
    exact absurd ((congrArg Terms.topic hmet.terms).symm.trans ht)
      (Bus.ne_topic_of_onTopic hempty hb₀ (hmet.wasOpen ho))
  | none =>
    obtain ⟨hevents, -⟩ := fresh_of_unborn h hb₀ hb
    cases leaves_of_mem_events (hevents ▸ List.mem_singleton_self _ : Event.opened id ∈ d.events act) with
    | opened o =>
      have hle : ((d.apply (.openBinding o)).bus.onTopic t).length ≤ (d.bus.onTopic t).length + 1 :=
        h.agrees.length_onTopic_openBinding o
      rw [hempty, List.length_nil] at hle
      exact ⟨o, rfl, hempty, Nat.le_antisymm hle (List.length_pos_iff.2 hne)⟩

/-- **Where somebody is on a topic**, some opening was the last that began with nobody there. -/
theorem exists_lastBegun (h : d.Good) (hempty : d.bus.onTopic t = []) {acts : List Act}
    (hne : (d.after acts).bus.onTopic t ≠ []) :
    ∃ before o rest, acts = before ++ .openBinding o :: rest ∧ d.LastBegun t before o rest := by
  induction acts using List.reverseRecOn with
  | nil => exact absurd hempty hne
  | append_singleton acts act ih =>
    rw [after_append] at hne
    by_cases hnow : (d.after acts).bus.onTopic t = []
    · obtain ⟨o, rfl, hbegins⟩ := begins_of_onTopic (good_after h acts) hnow hne
      exact ⟨acts, o, [], rfl, hbegins, fun mid o' post hs => by simp at hs⟩
    · obtain ⟨before, o, rest, rfl, hbegun⟩ := ih hnow
      refine ⟨before, o, rest ++ [act], by rw [List.append_assoc]; rfl, hbegun.begins, fun mid o' post hs => ?_⟩
      -- a later opening that begins is in `rest`, or it is the new act, which finds somebody there
      rcases List.eq_nil_or_concat post with rfl | ⟨post, last, rfl⟩
      · obtain ⟨rfl, -⟩ := List.append_inj' hs rfl
        exact fun hb => hnow hb.1
      · rw [List.concat_eq_append, ← List.cons_append, ← List.append_assoc] at hs
        exact hbegun.last mid o' post (List.append_inj' hs rfl).1

/-- Since the last opening that began with nobody there, somebody was always there. -/
theorem LastBegun.onTopic_ne_nil (hbegun : d.LastBegun t before o rest) (h : d.Good)
    (hne : (d.after (before ++ .openBinding o :: rest)).bus.onTopic t ≠ []) :
    ∀ mid post, rest = mid ++ post → (d.after (before ++ .openBinding o :: mid)).bus.onTopic t ≠ [] := by
  intro mid post
  induction post generalizing mid with
  | nil =>
    rintro rfl
    rwa [List.append_nil] at hne
  | cons act post ih =>
    intro hs hnow
    have hnext := ih (mid ++ [act]) (by rw [hs, List.append_assoc]; rfl)
    rw [← List.cons_append, ← List.append_assoc, after_append] at hnext
    obtain ⟨o', rfl, hbegins⟩ := begins_of_onTopic (good_after h _) hnow hnext
    exact hbegun.last mid o' post hs hbegins

/-- **The figures after acts in order**, none of which leaves the topic without a route. -/
theorem accounted_after {ids : Finset BindingId} {arrived : BindingId → Nat} (h : d.Good) {acts : List Act}
    (hspan : ∀ pre post, acts = pre ++ post → Bus.Span ids t (d.after pre).bus)
    (hroute : ∀ pre act post, acts = pre ++ act :: post →
      ∃ route, ((d.after pre).apply act).bus.routes.get? t = some route)
    (hacc : Bus.Accounted ids t arrived d.bus) :
    Bus.Accounted ids t (fun id => arrived id + d.arrivals id acts) (d.after acts).bus := by
  induction acts generalizing d arrived with
  | nil => exact hacc
  | cons act acts ih =>
    have hstep : Bus.Accounted ids t
        (fun id => arrived id + (((d.apply act).bus.inbox id).length - (d.bus.inbox id).length)) (d.apply act).bus := by
      by_cases hsends : d.Sends act
      · obtain ⟨i, data, n, rfl, hne, hok⟩ := hsends
        obtain ⟨w, hw, ho, hsent⟩ := h.agrees.sent_write h.sound hne hok
        exact hacc.sent (hspan [] _ rfl) hw ho hsent
      · obtain ⟨route, hr⟩ := hroute [] act acts rfl
        exact hacc.quiet (quiet_apply h hsends) hr
    have hrest := ih (good_apply h act) (fun pre post hs => hspan (act :: pre) post (by rw [hs]; rfl))
      (fun pre act' post hs => hroute (act :: pre) act' post (by rw [hs]; rfl)) hstep
    simp only [Nat.add_assoc] at hrest
    exact hrest

/-- The bindings opened since a time when nobody was on the topic are those whose figures its route keeps. -/
theorem span_openedSince (h : d.Good) (hempty : d.bus.onTopic t = []) (pre post : List Act) :
    Bus.Span ((d.after (pre ++ post)).bus.openedSince d.bus t).toFinset t (d.after pre).bus := by
  have hfinal : ∀ {id b}, (d.after pre).bus.bindings.get? id = some b →
      ∃ b', (d.after (pre ++ post)).bus.bindings.get? id = some b' ∧ b'.topic = b.topic := fun {id b} hb => by
    obtain ⟨b', hb', hmet⟩ := met_after (good_after h pre) hb post
    rw [← after_append] at hb'
    exact ⟨b', hb', congrArg Terms.topic hmet.terms⟩
  refine ⟨fun id hid b hb => ?_, fun id b hb ho ht => ?_⟩
  · obtain ⟨-, b', hb', ht⟩ := Bus.mem_openedSince.1 (List.mem_toFinset.1 hid)
    obtain ⟨b₁, hb₁, htopic⟩ := hfinal hb
    obtain rfl := Option.some.inj (hb'.symm.trans hb₁)
    exact htopic.symm.trans ht
  · obtain ⟨b', hb', htopic⟩ := hfinal hb
    refine List.mem_toFinset.2 (Bus.mem_openedSince.2 ⟨?_, b', hb', htopic.trans ht⟩)
    cases hb₀ : d.bus.bindings.get? id with
    | none => rfl
    | some b₀ =>
      obtain ⟨b₁, hb₁, hmet⟩ := met_after h hb₀ pre
      obtain rfl := Option.some.inj (hb.symm.trans hb₁)
      exact absurd ((congrArg Terms.topic hmet.terms).symm.trans ht)
        (Bus.ne_topic_of_onTopic hempty hb₀ (hmet.wasOpen ho))

/-- From the last beginning on, the topic has a route after each act. -/
theorem LastBegun.exists_route (hbegun : d.LastBegun t before o rest) (h : d.Good)
    (hd : (d.after (before ++ .openBinding o :: rest)).bus.isShutDown = false)
    (hne : (d.after (before ++ .openBinding o :: rest)).bus.onTopic t ≠ []) {pre post : List Act}
    (hs : .openBinding o :: rest = pre ++ act :: post) :
    ∃ route, (((d.after before).after pre).apply act).bus.routes.get? t = some route := by
  have hstep : ((d.after before).after pre).apply act = d.after (before ++ (pre ++ [act])) := by
    rw [after_append, after_append]
    rfl
  have hsplit : before ++ .openBinding o :: rest = before ++ (pre ++ [act]) ++ post := by rw [hs]; simp
  have hup : (d.after (before ++ (pre ++ [act]))).bus.isShutDown = false := by
    by_contra hdown
    rw [hsplit, after_append, (frame_after _ post).2 (Bool.not_eq_false _ ▸ hdown)] at hd
    cases hd
  rw [hstep]
  refine ((good_after h _).agrees.exists_route_iff_onTopic hup).2 ?_
  cases pre with
  | nil =>
    obtain ⟨rfl, rfl⟩ := List.cons.inj hs
    rw [← hstep]
    exact List.length_pos_iff.1 (Nat.lt_of_lt_of_eq Nat.one_pos hbegun.begins.2.symm)
  | cons first mid =>
    obtain ⟨rfl, hmid⟩ := List.cons.inj hs
    exact hbegun.onTopic_ne_nil h hne (mid ++ [act]) post (by rw [hmid, List.append_assoc]; rfl)

/-- Where nobody is on the topic its figures are those of bindings that are not there yet. -/
theorem accounted_of_onTopic (h : d.Good) (hd : d.bus.isShutDown = false) (hempty : d.bus.onTopic t = [])
    {ids : Finset BindingId} (hids : ∀ id ∈ ids, d.bus.bindings.get? id = none) :
    Bus.Accounted ids t (fun _ => 0) d.bus := by
  have hnone : d.bus.routes.get? t = none := by
    rw [Option.eq_none_iff_forall_ne_some]
    exact fun route hr => (h.agrees.exists_route_iff_onTopic hd).1 ⟨route, hr⟩ hempty
  refine ⟨?_, ?_⟩
  · rw [Routes.published, hnone]
    exact (Finset.sum_eq_zero (fun id hid => Bus.chunksWritten_of_none (hids id hid))).symm
  · rw [Routes.deliveries, hnone, Finset.sum_const_zero]
    rfl

/-- **The figures of a topic** are those of the bindings opened since its last beginning. -/
theorem accounted_of_lastBegun (h : d.Good) (hbegun : d.LastBegun t before o rest)
    (hd : (d.after (before ++ .openBinding o :: rest)).bus.isShutDown = false)
    (hne : (d.after (before ++ .openBinding o :: rest)).bus.onTopic t ≠ []) :
    let bus := (d.after (before ++ .openBinding o :: rest)).bus
    Bus.Accounted (bus.openedSince (d.after before).bus t).toFinset t
      (fun id => (d.after before).arrivals id (.openBinding o :: rest)) bus := by
  intro bus
  have hstart := good_after h before
  have hempty := hbegun.begins.1
  have hup : (d.after before).bus.isShutDown = false := by
    by_contra hdown
    rw [after_append, (frame_after _ (.openBinding o :: rest)).2 (Bool.not_eq_false _ ▸ hdown)] at hd
    cases hd
  have hbus : bus = ((d.after before).after (.openBinding o :: rest)).bus := congrArg Desk.bus (after_append ..)
  have hzero : Bus.Accounted (bus.openedSince (d.after before).bus t).toFinset t (fun _ => 0) (d.after before).bus :=
    accounted_of_onTopic hstart hup hempty (fun id hid => (Bus.mem_openedSince.1 (List.mem_toFinset.1 hid)).1)
  have hspan : ∀ pre post, .openBinding o :: rest = pre ++ post →
      Bus.Span (bus.openedSince (d.after before).bus t).toFinset t ((d.after before).after pre).bus := fun pre post hs => by
    rw [hbus, hs]
    exact span_openedSince hstart hempty pre post
  have hacc := accounted_after hstart hspan (fun pre act post hs => hbegun.exists_route h hd hne hs) hzero
  rw [← hbus] at hacc
  simpa only [Nat.zero_add] using hacc

end Desk

namespace Session

/-- **The statistics of a topic account for the life of its route.**  Where the bus is not shut down and somebody is on
the topic, there is a last opening that took the topic from no open binding to one.  The chunks published are those
written by all the bindings opened on the topic from then on, closed ones included, and the deliveries are the chunks put
into their inboxes since.  The bindings are the open ones, as many as a refusal to destroy the topic tells, and the kinds
are those of their users.  A write that is refused or empty is in none of these figures. -/
theorem statistics_account (config : Config) (ops : List Op) {t : Topic}
    (hd : ((new config).run ops).bus.isShutDown = false) (hne : ((new config).run ops).bus.onTopic t ≠ []) :
    let d := Desk.new config
    let trail := (new config).trail ops
    let bus := ((new config).run ops).bus
    (∃ before o rest, trail = before ++ .openBinding o :: rest ∧ d.LastBegun t before o rest) ∧
    (∀ before o rest, trail = before ++ .openBinding o :: rest → d.LastBegun t before o rest →
      let start := d.after before
      let ids := bus.openedSince start.bus t
      bus.topicStats t = some {
        bindings := (bus.onTopic t).length
        kinds := ((bus.onTopic t).map (fun b => bus.registry.kindOf b.user)).dedup.length
        published := (ids.map bus.chunksWritten).sum
        deliveries := (ids.map (fun id => start.arrivals id (.openBinding o :: rest))).sum }) ∧
    (bus.destroy (.topic t)).2 = .error (.registry (.referenced t.key (bus.onTopic t).length)) ∧
    ∀ i data, (data = [] ∨ ∃ fault, (bus.write i data).2 = .error fault) →
      (bus.write i data).1.topicStats t = bus.topicStats t ∧ ∀ id,
        (bus.write i data).1.chunksWritten id = bus.chunksWritten id ∧ (bus.write i data).1.inbox id = bus.inbox id := by
  intro d trail bus
  have hgood := good_run config ops
  have hagrees : bus.Agrees := hgood.agrees
  have hbus : bus = (d.after trail).bus := congrArg Desk.bus (desk_run (new config) ops)
  refine ⟨?_, fun before o rest hs hbegun => ?_, hagrees.destroy_onTopic hne, fun i data hun => ?_⟩
  · exact Desk.exists_lastBegun (Desk.good_new config) rfl (by rwa [← hbus])
  · intro start ids
    have hfinal : bus = (d.after (before ++ .openBinding o :: rest)).bus := by rw [hbus, hs]
    have hacc := Desk.accounted_of_lastBegun (Desk.good_new config) hbegun (by rwa [← hfinal]) (by rwa [← hfinal])
    rw [← hfinal] at hacc
    have hsum : ∀ f : BindingId → Nat, ∑ id ∈ ids.toFinset, f id = (ids.map f).sum := fun f =>
      List.sum_toFinset f (Table.distinct _)
    rw [hagrees.topicStats_eq hd hne, ← hsum, ← hsum, ← hacc.published, ← hacc.deliveries]
  · obtain ⟨hroutes, hfigures⟩ := Bus.figures_unsent hgood.sound hun
    exact ⟨congrArg (fun routes : Routes => (routes.get? t).map Route.stats) hroutes, hfigures⟩

/-- Two peers part after a chunk, and two others take the topic up; the chunk of the one that is gone again is counted. -/
theorem statistics_account_reopened :
    let ops := twoPeers ++ [.onBinding "a" (.write [1, 2, 3]), .onBinding "a" .close, .onBinding "b" .close,
      .openBinding "c" { user := ⟨2⟩, topic := ⟨4⟩, target := ⟨1⟩ },
      .openBinding "d" { user := ⟨3⟩, topic := ⟨4⟩, target := ⟨1⟩ },
      .onBinding "c" (.write [4]), .onBinding "c" .close]
    let bus := ((new {}).run ops).bus
    bus.topicStats ⟨4⟩ = some ⟨1, 1, 1, 1⟩ ∧
    (bus.destroy (.topic ⟨4⟩)).2 = .error (.registry (.referenced 4 1)) ∧
    ∃ before o rest, (new {}).trail ops = before ++ .openBinding o :: rest ∧
      (Desk.new {}).LastBegun ⟨4⟩ before o rest ∧
      ((bus.openedSince ((Desk.new {}).after before).bus ⟨4⟩).map bus.chunksWritten).sum = 1 := by
  intro ops bus
  have hd : bus.isShutDown = false := by decide +kernel
  have hstats : bus.topicStats ⟨4⟩ = some ⟨1, 1, 1, 1⟩ := by decide +kernel
  have hcount : (bus.onTopic ⟨4⟩).length = 1 := by decide +kernel
  have hne : bus.onTopic ⟨4⟩ ≠ [] := List.length_pos_iff.1 (Nat.lt_of_lt_of_eq Nat.one_pos hcount.symm)
  obtain ⟨⟨before, o, rest, hs, hbegun⟩, hfigures, hdestroy, -⟩ := statistics_account {} ops hd hne
  have htold := Option.some.inj ((hfigures before o rest hs hbegun).symm.trans hstats)
  exact ⟨hstats, hcount ▸ hdestroy, before, o, rest, hs, hbegun, congrArg TopicStats.published htold⟩

end Session
end TopicBus
