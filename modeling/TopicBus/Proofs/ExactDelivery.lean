import TopicBus.Proofs.Invariant
/-!
# Exact delivery

Who is to receive a write is a matter of which bindings are open (`Bus.audience`).  The bus never asks for that: it
looks the topic up in its routes and counts the inboxes that take the chunk.  On a bus whose views agree the two come to
the same, so a write reaches its whole audience, once, and nobody else.
-/
namespace TopicBus

namespace Bus

/-- Those that a write on the terms `w` is for: the other open bindings on the topic whose users are of the target
kind. -/
def audience (bus : Bus) (w : Terms) : List BindingId :=
  (bus.bindings.filter (fun id b => id ≠ w.id && b.isOpen && b.topic = w.topic &&
    decide (bus.registry.kindOf b.user = .ok w.target))).keys

variable {bus : Bus} {id : BindingId} {w : Binding} {data : Bytes}

theorem mem_audience {terms : Terms} {id : BindingId} : id ∈ bus.audience terms ↔ id ≠ terms.id ∧
    ∃ b, bus.bindings.get? id = some b ∧ b.isOpen = true ∧ b.topic = terms.topic ∧
      bus.registry.kindOf b.user = .ok terms.target := by
  simp only [audience, Table.keys, Table.filter, List.mem_map, List.mem_filter, Bool.and_eq_true, decide_eq_true_eq,
    Table.get?_eq_some_iff]
  constructor
  · rintro ⟨e, ⟨he, ⟨⟨hne, ho⟩, ht⟩, hk⟩, rfl⟩
    exact ⟨hne, e.2, he, ho, ht, hk⟩
  · rintro ⟨hne, b, he, ho, ht, hk⟩
    exact ⟨(id, b), ⟨he, ⟨⟨hne, ho⟩, ht⟩, hk⟩, rfl⟩

/-- **The route of an open binding has its audience as targets.** -/
theorem Agrees.targets_perm_audience (h : bus.Agrees) (hd : bus.isShutDown = false)
    (hw : bus.bindings.get? id = some w) (ho : w.isOpen = true) :
    ∃ route, bus.routes.get? w.topic = some route ∧
      (route.targets w.id w.target).Perm (bus.audience w.toTerms) := by
  obtain ⟨route, hr⟩ := (h.lists hd).exists_route_iff.2 ⟨id, w.toTerms, get?_opened_of_isOpen hw ho, rfl⟩
  refine ⟨route, hr, (List.perm_ext_iff_of_nodup (Table.distinct _) (Table.distinct _)).2 (fun id' => ?_)⟩
  have hm := h.mem_receivers_iff hd hw ho id'
  rw [show bus.routes.get? w.topic = some route from hr, Option.map_some, Option.getD_some] at hm
  change id' ∈ route.targets w.id w.target ↔ id' ∈ bus.audience w.toTerms
  rw [hm, mem_audience, (h.issued id w hw).1]
  refine and_congr_right (fun _ => exists_congr (fun b => and_congr_right (fun hb => and_congr_right (fun hbo =>
    and_congr_right (fun _ => ?_)))))
  rw [h.kindOf_eq hb hbo, Except.ok.injEq]

/-- An open binding stages every chunk that is within the limit. -/
theorem stage_eq {limit : Option Nat} {down : Bool} (hs : w.Sound limit down) (ho : w.isOpen = true)
    (hne : data ≠ []) (hl : Within limit data.length) :
    ∃ staged, w.Staged data staged ∧ w.stage data = (staged, .ok (some data)) := by
  rcases w.stage_cases data with ⟨fault, he⟩ | ⟨he, -⟩ | hstaged
  · obtain ⟨buffer, hb, hlim, -⟩ := hs.writes ho
    unfold Binding.stage at he
    rw [ho, hb] at he
    simp [hne, Buffer.fill, Buffer.ensure_of_within (hlim.symm ▸ hl)] at he
  · exact absurd he hne
  · exact hstaged

/-- **What a write of an open binding comes to**, its route having the targets that it has. -/
theorem write_eq {limit : Option Nat} {route : Route} (hs : w.Sound limit bus.isShutDown)
    (hd : bus.isShutDown = false) (hw : bus.bindings.get? id = some w) (ho : w.isOpen = true) (hne : data ≠ [])
    (hl : Within limit data.length) (hr : bus.routes.get? w.topic = some route) :
    ∃ staged, w.Staged data staged ∧ bus.write id data =
      if w.delivery = .monocast ∧ (route.targets w.id w.target).length ≠ 1 then
        (bus.put id staged, .error (.binding (.recipients (route.targets w.id w.target).length)))
      else (bus.delivered id w.toTerms staged route data, .ok data.length) := by
  obtain ⟨staged, hst, he⟩ := stage_eq hs ho hne hl
  refine ⟨staged, hst, ?_⟩
  unfold write publish
  have hd' : (bus.put id staged).isShutDown = false := hd
  simp only [hw, he, hd', show (bus.put id staged).routes.get? w.topic = some route from hr, Bool.false_eq_true,
    if_false]
  by_cases hm : w.delivery = .monocast ∧ (route.targets w.id w.target).length ≠ 1
  · simp only [if_pos hm]
  · simp only [if_neg hm]
    rfl

/-- Whether a write goes out; one with a single recipient does so only if there is exactly one. -/
def reaches (bus : Bus) (w : Terms) : Bool := w.delivery = .multicast || (bus.audience w).length = 1

theorem reaches_eq_false_iff {terms : Terms} : bus.reaches terms = false ↔
    terms.delivery = .monocast ∧ (bus.audience terms).length ≠ 1 := by
  simp only [reaches, Bool.or_eq_false_iff, decide_eq_false_iff_not]
  cases terms.delivery <;> simp

/-- Everybody in the audience of a write has an inbox. -/
theorem exists_inbox {limit : Option Nat} (hs : ∀ id b, bus.bindings.get? id = some b → b.Sound limit bus.isShutDown)
    (hd : bus.isShutDown = false) {terms : Terms} {id : BindingId} (hm : id ∈ bus.audience terms) :
    ∃ b s, bus.bindings.get? id = some b ∧ b.readSide = some s := by
  obtain ⟨-, b, hb, ho, -⟩ := mem_audience.1 hm
  obtain ⟨s, hr⟩ := (hs id b hb).receives ho hd
  exact ⟨b, s, hb, hr⟩

/-- A chunk that goes along a route enters the inboxes of all its targets. -/
theorem routes_delivered {staged : Binding} {route : Route}
    (hin : ∀ id' ∈ route.targets w.id w.target, id' ≠ id ∧
      ∃ b s, bus.bindings.get? id' = some b ∧ b.readSide = some s) :
    (bus.delivered id w.toTerms staged route data).routes =
      bus.routes.insert w.topic (route.count (route.targets w.id w.target).length) := by
  have hcount : ((bus.put id staged).deliver (route.targets w.id w.target) data).2 =
      (route.targets w.id w.target).length := by
    simp only [deliver]
    congr 1
    refine List.filter_eq_self.2 (fun id' hm => ?_)
    obtain ⟨hne, b, s, hb, hr⟩ := hin id' hm
    simp [put, Table.get?_insert, hne, hb, hr]
  simp only [delivered, send, hcount]
  rfl

end Bus

namespace Session

/-- **Exact delivery.**  A non-empty write of an open binding, within the limit and before the bus is shut down, enters
every inbox of its audience once, at the end, and is answered with its length; but if it must have a single recipient
and the audience is not one, it is refused with the size of the audience and enters none.  No other inbox changes.  The
topic has a route, whose targets are the audience, and every inbox of the audience takes the chunk. -/
theorem exact_delivery (config : Config) (ops : List Op) {id : BindingId} {w : Binding} {p : Bytes}
    (hd : ((new config).run ops).bus.isShutDown = false)
    (hw : ((new config).run ops).bus.bindings.get? id = some w) (ho : w.isOpen = true) (hp : p ≠ [])
    (hl : Within ((new config).run ops).bus.config.chunkLimit p.length) :
    let bus := ((new config).run ops).bus
    let after := (bus.write id p).1
    (bus.write id p).2 = (if bus.reaches w.toTerms then .ok p.length
        else .error (.binding (.recipients (bus.audience w.toTerms).length))) ∧
      (∀ id' ∈ bus.audience w.toTerms, ∃ b s b', bus.bindings.get? id' = some b ∧ b.readSide = some s ∧
        after.bindings.get? id' = some b' ∧
          b'.readSide = some (if bus.reaches w.toTerms then s.enqueue p else s)) ∧
      (∀ id' b, id' ∉ bus.audience w.toTerms → bus.bindings.get? id' = some b →
        ∃ b', after.bindings.get? id' = some b' ∧ b'.readSide = b.readSide) ∧
      ∃ route, bus.routes.get? w.topic = some route ∧
        (route.targets w.id w.target).Perm (bus.audience w.toTerms) ∧
        (bus.reaches w.toTerms = true →
          after.routes.get? w.topic = some (route.count (bus.audience w.toTerms).length)) := by
  have hgood := good_run config ops
  intro bus after
  have hs : ∀ id b, bus.bindings.get? id = some b → b.Sound bus.config.chunkLimit bus.isShutDown := hgood.sound
  obtain ⟨route, hr, hperm⟩ := hgood.agrees.targets_perm_audience hd hw ho
  obtain ⟨staged, hst, he⟩ := Bus.write_eq (hs id w hw) hd hw ho hp hl hr
  have hmem : ∀ id', id' ∈ route.targets w.id w.target ↔ id' ∈ bus.audience w.toTerms := fun _ => hperm.mem_iff
  have hlen : (route.targets w.id w.target).length = (bus.audience w.toTerms).length := hperm.length_eq
  rw [hlen] at he
  cases hreach : bus.reaches w.toTerms with
  | false =>
    rw [if_pos (Bus.reaches_eq_false_iff.1 hreach)] at he
    have hsame : ∀ id' b, bus.bindings.get? id' = some b →
        ∃ b', after.bindings.get? id' = some b' ∧ b'.readSide = b.readSide := fun id' b hb => by
      obtain ⟨b', hb', hpass⟩ := Bus.get?_put_passed hw hst.passed hb
      exact ⟨b', by rw [show after = bus.put id staged from congrArg Prod.fst he]; exact hb', hpass.readSide⟩
    refine ⟨congrArg Prod.snd he, fun id' hm => ?_, fun id' b _ hb => hsame id' b hb, route, hr, hperm,
      fun ht => (nomatch ht)⟩
    obtain ⟨b, s, hb, hside⟩ := Bus.exists_inbox hs hd hm
    obtain ⟨b', hb', hside'⟩ := hsame id' b hb
    exact ⟨b, s, b', hb, hside, hb', hside'.trans hside⟩
  | true =>
    rw [if_neg (fun hn => by rw [Bus.reaches_eq_false_iff.2 hn] at hreach; cases hreach)] at he
    have hafter : after = bus.delivered id w.toTerms staged route p := congrArg Prod.fst he
    refine ⟨congrArg Prod.snd he, fun id' hm => ?_, fun id' b hm hb => ?_, route, hr, hperm, fun _ => ?_⟩
    · obtain ⟨b, s, hb, hside⟩ := Bus.exists_inbox hs hd hm
      obtain ⟨b', hb', hpass⟩ := Bus.get?_delivered_passed hw hst.passed w.toTerms route hb
      refine ⟨b, s, b', hb, hside, hafter ▸ hb', ?_⟩
      rw [hpass.readSide, decide_eq_true ((hmem id').2 hm), hside]
      rfl
    · obtain ⟨b', hb', hpass⟩ := Bus.get?_delivered_passed hw hst.passed w.toTerms route hb
      refine ⟨b', hafter ▸ hb', ?_⟩
      rw [hpass.readSide, decide_eq_false (fun h => hm ((hmem id').1 h))]
      rfl
    · have hin : ∀ id' ∈ route.targets w.id w.target, id' ≠ id ∧
          ∃ b s, bus.bindings.get? id' = some b ∧ b.readSide = some s := fun id' hm => by
        have hm' := (hmem id').1 hm
        exact ⟨fun hid => (Bus.mem_audience.1 hm').1 (hid.trans (hgood.agrees.issued id w hw).1.symm),
          Bus.exists_inbox hs hd hm'⟩
      rw [hafter, Bus.routes_delivered hin, Table.get?_insert, if_pos rfl, hlen]

/-- A write of one of two peers reaches the other. -/
theorem exact_delivery_to_peer :
    let bus := ((new {}).run twoPeers).bus
    ∃ w, bus.bindings.get? ⟨5⟩ = some w ∧ w.isOpen = true ∧ bus.audience w.toTerms = [⟨6⟩] ∧
      (bus.write ⟨5⟩ [1, 2, 3]).2 = .ok 3 := by
  intro bus
  have hw : bus.bindings.get? ⟨5⟩ = some _ := rfl
  obtain ⟨hanswer, -⟩ := exact_delivery {} twoPeers (p := [1, 2, 3]) rfl hw rfl nofun nofun
  exact ⟨_, hw, rfl, rfl, hanswer⟩

end Session
end TopicBus
