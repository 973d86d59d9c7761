import TopicBus.Proofs.ExactDelivery
import TopicBus.Proofs.Readers
/-!
# What a write comes to

The answer to a write is settled by a few facts about the bus and the writer (`Bus.answerTo`, `write_answer`), none of
which a write changes.  Of another binding a write changes the inbox at most, and that only if the binding is among its
recipients (`reader_write`).
-/
namespace TopicBus
namespace Bus

variable {bus : Bus} {id id' : BindingId} {w b : Binding} {data : Bytes}

/-! ## The answer -/

/-- What a write of `w` is answered: the first of its obstacles, or how many bytes were sent. -/
def answerTo (bus : Bus) (w : Binding) (data : Bytes) : Except Fault Nat :=
  if w.isOpen = false then .error .closed
  else if data = [] then .ok 0
  else match checkLimit bus.config.chunkLimit data.length with
  | .error cause => .error (.buffer cause)
  | .ok () =>
    if bus.isShutDown then .error .closed
    else if bus.reaches w.toTerms then .ok data.length
    else .error (.binding (.recipients (bus.audience w.toTerms).length))

theorem write_of_closed (hw : bus.bindings.get? id = some w) (ho : w.isOpen = false) :
    bus.write id data = (bus, .error .closed) := by
  simp only [write, hw, Binding.stage, ho, Bool.not_false, if_true]

theorem write_of_nil (hw : bus.bindings.get? id = some w) (ho : w.isOpen = true) : bus.write id [] = (bus, .ok 0) := by
  simp only [write, hw, Binding.stage, ho, Bool.not_true, Bool.false_eq_true, if_false, List.isEmpty_nil, if_true]

/-- A chunk beyond the limit is refused before anything else is looked at. -/
theorem write_of_beyond {limit : Option Nat} {down : Bool} (hs : w.Sound limit down)
    (hw : bus.bindings.get? id = some w) (ho : w.isOpen = true) (hne : data ≠ []) {cause : OverLimit}
    (hl : checkLimit limit data.length = .error cause) : bus.write id data = (bus, .error (.buffer cause)) := by
  obtain ⟨buffer, hb, hlimit, -⟩ := hs.writes ho
  simp only [write, hw, Binding.stage, ho, hb, Buffer.fill, Buffer.ensure, hlimit, hl, List.isEmpty_eq_false_iff.2 hne,
    Bool.not_true, Bool.false_eq_true, if_false]

theorem write_of_down {limit : Option Nat} {down : Bool} (hs : w.Sound limit down)
    (hw : bus.bindings.get? id = some w) (ho : w.isOpen = true) (hne : data ≠ []) (hl : Within limit data.length)
    (hd : bus.isShutDown = true) : (bus.write id data).2 = .error .closed := by
  obtain ⟨staged, -, hstage⟩ := stage_eq hs ho hne hl
  simp only [write, hw, hstage, publish, put, hd, if_true]

/-- **The answer to a write.** -/
theorem Agrees.write_answer (h : bus.Agrees) (hs : w.Sound bus.config.chunkLimit bus.isShutDown)
    (hw : bus.bindings.get? id = some w) (data : Bytes) : (bus.write id data).2 = bus.answerTo w data := by
  unfold answerTo
  cases ho : w.isOpen with
  | false => rw [write_of_closed hw ho, if_pos rfl]
  | true =>
    rw [if_neg (fun hf => nomatch hf)]
    by_cases hne : data = []
    · rw [if_pos hne, hne, write_of_nil hw ho]
    rw [if_neg hne]
    cases hl : checkLimit bus.config.chunkLimit data.length with
    | error cause => rw [write_of_beyond hs hw ho hne hl]
    | ok _ =>
      have hwithin := checkLimit_eq_ok_iff.1 hl
      cases hd : bus.isShutDown with
      | true => exact write_of_down hs hw ho hne hwithin hd
      | false =>
        obtain ⟨route, hr, hperm⟩ := h.targets_perm_audience hd hw ho
        obtain ⟨staged, -, he⟩ := write_eq hs hd hw ho hne hwithin hr
        rw [hperm.length_eq] at he
        cases hreach : bus.reaches w.toTerms with
        | false =>
          rw [he, if_pos (reaches_eq_false_iff.1 hreach)]
          rfl
        | true =>
          rw [he, if_neg (fun hm => by rw [reaches_eq_false_iff.2 hm] at hreach; cases hreach)]
          rfl

/-! ## What becomes of the other bindings -/

/-- **A write does to each binding** nothing, or some of three things: its bytes pass the write buffer, a chunk enters
the inbox, the write is counted. -/
theorem write_induction {P : Binding → Binding → Prop} (hrefl : ∀ b, P b b)
    (hstaged : ∀ {b staged}, b.Staged data staged → P b staged)
    (henqueue : ∀ {b b'}, P b b' → P b (b'.enqueue data)) (hcount : ∀ {b b'} n, P b b' → P b (b'.countWrite n))
    (hb : bus.bindings.get? id' = some b) : ∃ b', (bus.write id data).1.bindings.get? id' = some b' ∧ P b b' := by
  have hput : ∀ {w staged}, bus.bindings.get? id = some w → w.Staged data staged →
      ∃ b', (bus.put id staged).bindings.get? id' = some b' ∧ P b b' := fun hw hst =>
    Table.exists_get?_insert hb (hrefl b) (fun hid => by
      obtain rfl := Option.some.inj (hb.symm.trans (hid ▸ hw))
      exact hstaged hst)
  have hadjust : ∀ {bindings : Table BindingId Binding} {b' : Binding} (n : Nat), bindings.get? id' = some b' →
      P b b' → ∃ b'', (bindings.adjust id (·.countWrite n)).get? id' = some b'' ∧ P b b'' := fun {_ b'} n hb' hP => by
    rw [Table.get?_adjust]
    split
    · exact ⟨b'.countWrite n, by rw [hb']; rfl, hcount n hP⟩
    · exact ⟨b', hb', hP⟩
  have hout := written bus id data
  generalize bus.write id data = result at hout ⊢
  cases hout with
  | refused _ | empty _ => exact ⟨b, hb, hrefl b⟩
  | failed fault hw hst => exact hput hw hst
  | unrouted hw hst hd hr =>
    obtain ⟨b', hb', hP⟩ := hput hw hst
    exact hadjust _ hb' hP
  | @delivered w staged route hw hst hd hr =>
    obtain ⟨b', hb', hP⟩ := hput hw hst
    have hsent : P b (if id' ∈ route.targets w.id w.target then b'.enqueue data else b') := by
      split
      · exact henqueue hP
      · exact hP
    refine hadjust _ ?_ hsent
    simp only [send, deliver, Table.get?_mapValues, hb', Option.map_some]

/-- Whose inboxes a write enters. -/
def recipients (bus : Bus) (id : BindingId) (data : Bytes) : List BindingId :=
  match bus.bindings.get? id, (bus.write id data).2 with
  | some w, .ok _ => if data = [] then [] else bus.audience w.toTerms
  | _, _ => []

theorem mem_recipients : id' ∈ bus.recipients id data ↔
    data ≠ [] ∧ (∃ n, (bus.write id data).2 = .ok n) ∧
      ∃ w, bus.bindings.get? id = some w ∧ id' ∈ bus.audience w.toTerms := by
  unfold recipients
  cases hw : bus.bindings.get? id with
  | none => simp
  | some w =>
    cases hres : (bus.write id data).2 with
    | error fault => simp
    | ok n => by_cases hd : data = [] <;> simp [hd]

/-- The audience of an open binding is what the routes have for it. -/
theorem Agrees.mem_audience_iff (h : bus.Agrees) (hd : bus.isShutDown = false)
    (hw : bus.bindings.get? id = some w) (ho : w.isOpen = true) :
    id' ∈ ((bus.routes.get? w.topic).map (·.targets w.id w.target)).getD [] ↔ id' ∈ bus.audience w.toTerms := by
  obtain ⟨route, hr, hperm⟩ := h.targets_perm_audience hd hw ho
  rw [hr, Option.map_some, Option.getD_some]
  exact hperm.mem_iff

/-- **A write leaves every reader as it is**, but for the inboxes of its recipients. -/
theorem Agrees.reader_write (h : bus.Agrees) (id : BindingId) (data : Bytes) (hb : bus.bindings.get? id' = some b) :
    ∃ b', (bus.write id data).1.bindings.get? id' = some b' ∧ b'.toTerms = b.toTerms ∧ b'.isOpen = b.isOpen ∧
      b'.reader = if id' ∈ bus.recipients id data then b.reader.enqueue data else b.reader := by
  obtain ⟨b', hb', hreader⟩ : ∃ b', (bus.write id data).1.bindings.get? id' = some b' ∧
      b'.reader = { b.reader with readSide := b'.readSide } := by
    refine write_induction (P := fun b b' => b'.reader = { b.reader with readSide := b'.readSide }) (fun _ => rfl)
      (fun hst => ?_) (fun hP => congrArg (Binding.enqueue · data) hP) (fun _ hP => hP) hb
    obtain ⟨-, -, _, -, -, rfl⟩ := hst
    rfl
  obtain ⟨receivers, hsome, -, hempty, herror, hok⟩ := write_passed bus id data
  obtain ⟨b'', hb'', hpass⟩ := hsome id' b hb
  obtain rfl := Option.some.inj (hb'.symm.trans hb'')
  refine ⟨b', hb', hpass.terms, hpass.isOpen, ?_⟩
  have hmem : id' ∈ receivers ↔ id' ∈ bus.recipients id data := by
    rw [mem_recipients]
    by_cases hd : data = []
    · simp [hempty hd, hd]
    · cases hres : (bus.write id data).2 with
      | error fault => simp [herror fault hres]
      | ok n =>
        obtain ⟨w, hw, ho, hdown, rfl⟩ := hok n hres hd
        rw [h.mem_audience_iff hdown hw ho]
        simp [hd, hw]
  rw [hreader, hpass.readSide]
  by_cases hm : id' ∈ bus.recipients id data
  · rw [if_pos hm, if_pos (decide_eq_true (hmem.2 hm))]
    rfl
  · rw [if_neg hm, if_neg (fun hr => hm (hmem.1 (of_decide_eq_true hr)))]
    rfl

end Bus
end TopicBus
