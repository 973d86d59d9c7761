import TopicBus.Proofs.Agreement
/-!
# Where a write goes

A write goes by every binding of the bus (`Passed`) and stops at its receivers, the bindings whose inboxes it enters
(`write_passed`).  On a bus whose views agree these are exactly the open bindings on the topic, other than the writer,
whose users are of the target kind, and each of them has an inbox to receive it.
-/
namespace TopicBus

namespace Binding

/-- `b'` is `b` after a write of `data` went by that was for it if `received`. -/
structure Passed (received : Bool) (data : Bytes) (b b' : Binding) : Prop where
  terms : b'.toTerms = b.toTerms
  isOpen : b'.isOpen = b.isOpen
  line : b'.line = b.line
  readSide : b'.readSide = if received then b.readSide.map (·.enqueue data) else b.readSide
  sound : ∀ {limit down}, (received = true → data ≠ []) → b.Sound limit down → b'.Sound limit down

variable {b b' : Binding} {data : Bytes}

theorem Passed.refl (b : Binding) (data : Bytes) : Passed false data b b := ⟨rfl, rfl, rfl, rfl, fun _ h => h⟩

theorem Staged.passed (h : b.Staged data b') : Passed false data b b' :=
  ⟨h.toTerms_eq, h.isOpen_eq, h.line_eq, h.readSide_eq, fun _ hs => h.sound hs⟩

theorem Passed.countWrite {received : Bool} (h : Passed received data b b') (n : Nat) :
    Passed received data b (b'.countWrite n) :=
  ⟨h.terms, h.isOpen, h.line, h.readSide, fun hd hs => sound_countWrite (h.sound hd hs) n⟩

theorem Passed.enqueue (h : Passed false data b b') : Passed true data b (b'.enqueue data) where
  terms := h.terms
  isOpen := h.isOpen
  line := h.line
  readSide := by rw [Binding.enqueue, h.readSide]; rfl
  sound hd hs := sound_enqueue (h.sound (fun he => (nomatch he)) hs) (hd rfl)

end Binding

namespace Bus

variable {bus : Bus} {id : BindingId} {data : Bytes}

/-- Replacing one binding by what it is after a write went by it. -/
theorem get?_put_passed {b staged : Binding} (hb : bus.bindings.get? id = some b)
    (hs : b.Passed false data staged) {id' : BindingId} {b₁ : Binding} (hb₁ : bus.bindings.get? id' = some b₁) :
    ∃ b₂, (bus.put id staged).bindings.get? id' = some b₂ ∧ b₁.Passed false data b₂ := by
  refine Table.exists_get?_insert hb₁ (.refl b₁ data) (fun hid => ?_)
  subst hid
  obtain rfl := Option.some.inj (hb.symm.trans hb₁)
  exact hs

theorem get?_countWrite_passed {bindings : Table BindingId Binding} {received : Bool} {id' : BindingId}
    {b₁ b₂ : Binding} (hb₂ : bindings.get? id' = some b₂) (hp : b₁.Passed received data b₂) (n : Nat) :
    ∃ b₃, (bindings.adjust id (·.countWrite n)).get? id' = some b₃ ∧ b₁.Passed received data b₃ := by
  rw [Table.get?_adjust]
  split
  · exact ⟨_, by rw [hb₂]; rfl, hp.countWrite n⟩
  · exact ⟨b₂, hb₂, hp⟩

theorem get?_delivered_passed {b staged : Binding} (hb : bus.bindings.get? id = some b)
    (hs : b.Passed false data staged) (w : Terms) (route : Route) {id' : BindingId} {b₁ : Binding}
    (hb₁ : bus.bindings.get? id' = some b₁) :
    ∃ b₂, (bus.delivered id w staged route data).bindings.get? id' = some b₂ ∧
      b₁.Passed (decide (id' ∈ route.targets w.id w.target)) data b₂ := by
  obtain ⟨b₂, hb₂, hp⟩ := get?_put_passed hb hs hb₁
  refine get?_countWrite_passed ?_
    (?_ : b₁.Passed _ data (if id' ∈ route.targets w.id w.target then b₂.enqueue data else b₂)) _
  · simp only [send, deliver, Table.get?_mapValues, hb₂, Option.map_some]
  · by_cases hm : id' ∈ route.targets w.id w.target
    · simpa only [hm, if_true, decide_true] using hp.enqueue
    · simpa only [hm, if_false, decide_false] using hp

/-- A write changes neither the settings nor whether the bus is shut down. -/
theorem frame_write (bus : Bus) (id : BindingId) (data : Bytes) :
    (bus.write id data).1.config = bus.config ∧ (bus.write id data).1.isShutDown = bus.isShutDown := by
  have hout := written bus id data
  generalize bus.write id data = result at hout ⊢
  cases hout <;> exact ⟨rfl, rfl⟩

/-- A write that is answered with success is answered with its length. -/
theorem eq_length_of_write_ok {bus : Bus} {id : BindingId} {data : Bytes} {n : Nat}
    (h : (bus.write id data).2 = .ok n) : n = data.length := by
  have hout := written bus id data
  generalize bus.write id data = out at hout h
  cases hout with
  | refused fault | failed fault _ _ => cases h
  | empty hdata =>
    cases h
    rw [hdata]
    rfl
  | unrouted _ _ _ _ | delivered _ _ _ _ => exact (Except.ok.inj h).symm

/-- **Every write goes by every binding**, and stops at the targets that the route has for its writer if it was
delivered, at none otherwise. -/
theorem write_passed (bus : Bus) (id : BindingId) (data : Bytes) :
    ∃ receivers : List BindingId,
      (∀ id' b₁, bus.bindings.get? id' = some b₁ → ∃ b₂, (bus.write id data).1.bindings.get? id' = some b₂ ∧
        b₁.Passed (decide (id' ∈ receivers)) data b₂) ∧
      (∀ id', bus.bindings.get? id' = none → (bus.write id data).1.bindings.get? id' = none) ∧
      (data = [] → receivers = []) ∧ (∀ fault, (bus.write id data).2 = .error fault → receivers = []) ∧
      (∀ n, (bus.write id data).2 = .ok n → data ≠ [] → ∃ b, bus.bindings.get? id = some b ∧ b.isOpen = true ∧
        bus.isShutDown = false ∧
        receivers = ((bus.routes.get? b.topic).map (·.targets b.id b.target)).getD []) := by
  have hout := written bus id data
  generalize bus.write id data = result at hout ⊢
  cases hout with
  | refused fault =>
    exact ⟨[], fun _ b₁ h => ⟨b₁, h, .refl b₁ data⟩, fun _ h => h, fun _ => rfl, fun _ _ => rfl, fun _ h => (by cases h)⟩
  | empty hd =>
    exact ⟨[], fun _ b₁ h => ⟨b₁, h, .refl b₁ data⟩, fun _ h => h, fun _ => rfl, fun _ _ => rfl,
      fun _ _ hne => absurd hd hne⟩
  | failed fault hb hs =>
    refine ⟨[], fun _ _ h => get?_put_passed hb hs.passed h, fun id' h => ?_, fun _ => rfl, fun _ _ => rfl,
      fun _ h => (by cases h)⟩
    simp only [put, Table.get?_insert]
    rw [if_neg (Table.ne_of_get? h hb), h]
  | @unrouted b staged hb hs hd hr =>
    refine ⟨[], fun id' b₁ h => ?_, fun id' h => ?_, fun _ => rfl, fun _ _ => rfl, fun _ _ _ => ?_⟩
    · obtain ⟨b₂, hb₂, hp⟩ := get?_put_passed hb hs.passed h
      exact get?_countWrite_passed hb₂ hp _
    · have hid : id' ≠ id := Table.ne_of_get? h hb
      simp only [put, Table.get?_adjust, Table.get?_insert, if_neg hid, h]
    · exact ⟨b, hb, hs.isOpen, hd, by rw [hr]; rfl⟩
  | @delivered b staged route hb hs hd hr =>
    refine ⟨route.targets b.id b.target, fun id' b₁ h => get?_delivered_passed hb hs.passed b.toTerms route h, fun id' h => ?_,
      fun he => absurd he hs.ne_nil, fun _ h => (by cases h), fun _ _ _ => ⟨b, hb, hs.isOpen, hd, by rw [hr]; rfl⟩⟩
    have hid : id' ≠ id := Table.ne_of_get? h hb
    simp only [Bus.delivered, send, deliver, put, Table.get?_adjust, Table.get?_mapValues, Table.get?_insert, if_neg hid,
      h, Option.map_none]

/-- **The receivers of an open binding's write** are the other open bindings on its topic whose users are of its target
kind. -/
theorem Agrees.mem_receivers_iff (h : bus.Agrees) (hd : bus.isShutDown = false) {w : Binding}
    (hw : bus.bindings.get? id = some w) (ho : w.isOpen = true) (id' : BindingId) :
    id' ∈ ((bus.routes.get? w.topic).map (·.targets w.id w.target)).getD [] ↔
      id' ≠ id ∧ ∃ b, bus.bindings.get? id' = some b ∧ b.isOpen = true ∧ b.topic = w.topic ∧ b.kind = w.target := by
  obtain ⟨route, hr⟩ := (h.lists hd).exists_route_iff.2 ⟨id, w.toTerms, get?_opened_of_isOpen hw ho, rfl⟩
  rw [show bus.routes.get? w.topic = some route from hr, Option.map_some, Option.getD_some,
    (h.lists hd).mem_targets_iff hr, (h.issued id w hw).1]
  refine and_congr_right (fun _ => ⟨?_, ?_⟩)
  · rintro ⟨terms, hterms, ht, hk⟩
    obtain ⟨b, hb, hbo, rfl⟩ := get?_opened.1 hterms
    exact ⟨b, hb, hbo, ht, hk⟩
  · rintro ⟨b, hb, hbo, ht, hk⟩
    exact ⟨b.toTerms, get?_opened_of_isOpen hb hbo, ht, hk⟩

/-- **A write leaves closed bindings as they are**: no route leads to them, and their own writes are refused. -/
theorem Agrees.get?_write_of_closed (h : bus.Agrees) {id' : BindingId} {b : Binding}
    (hb : bus.bindings.get? id' = some b) (hc : b.isOpen = false) :
    (bus.write id data).1.bindings.get? id' = some b := by
  have hput : ∀ {w staged : Binding}, bus.bindings.get? id = some w → w.Staged data staged →
      id' ≠ id ∧ (bus.put id staged).bindings.get? id' = some b := fun hw hs => by
    have hid : id' ≠ id := fun hid => by
      obtain rfl := Option.some.inj (hb.symm.trans (hid ▸ hw))
      exact absurd (hs.isOpen.symm.trans hc) nofun
    exact ⟨hid, (Table.get?_insert_of_ne _ hid _).trans hb⟩
  have hout := written bus id data
  generalize bus.write id data = result at hout ⊢
  cases hout with
  | refused _ | empty _ => exact hb
  | failed _ hw hs => exact (hput hw hs).2
  | unrouted hw hs _ _ =>
    obtain ⟨hid, hb'⟩ := hput hw hs
    rw [Table.get?_adjust, if_neg hid, hb']
  | @delivered w staged route hw hs hd hr =>
    obtain ⟨hid, hb'⟩ := hput hw hs
    have htarget : id' ∉ route.targets w.id w.target := fun hm => by
      obtain ⟨-, terms, hterms, -⟩ := ((h.lists hd).mem_targets_iff hr).1 hm
      obtain ⟨b₁, hb₁, ho, -⟩ := get?_opened.1 hterms
      obtain rfl := Option.some.inj (hb.symm.trans hb₁)
      exact absurd (ho.symm.trans hc) nofun
    simp only [Bus.delivered, send, deliver, Table.get?_adjust, Table.get?_mapValues, if_neg hid, hb', Option.map_some,
      if_neg htarget]

end Bus
end TopicBus
