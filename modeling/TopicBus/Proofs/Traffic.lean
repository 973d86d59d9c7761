import TopicBus.Proofs.Answers
import TopicBus.Proofs.Moves
import TopicBus.Proofs.Shutdown
/-!
# The traffic of a binding

The counters of a binding are kept at several places: a write counts at its sender once it is out, and a read counts the
bytes that it gives and the chunks that it took out of the inbox for them.  What they come to is told by the history of
the run (`Session.traffic_balances`).  The bytes read, the pending bytes and the bytes of the queued chunks make up what
was sent to the binding since it was opened; the chunks read and the queued chunks make up the number of the chunks.

A read counts the chunks by which it shortens the inbox, whatever its form (`Binding.Moves.exists_chunks`), and what is
not a read or a write leaves the counters and the inbox of an open binding alone (`Desk.Aside.traffic_eq`,
`Desk.Aside.queue_eq`).  So every act keeps the counters in step with its events (`Desk.tallied_apply`), and so does every
run from the opening of the binding on (`Desk.exists_tallied`).
-/
namespace TopicBus

/-! ## Chunks in a history -/

/-- The payloads of the successful writes that were not empty and whose writers satisfy `p`, in order. -/
def payloads (p : Terms → Bool) (history : List Event) : List Bytes :=
  ((history.filterMap Event.write?).filter (fun w => p w.1 && !w.2.isEmpty)).map Prod.snd

/-- The chunks that the binding `id` wrote. -/
def chunksBy (id : BindingId) (history : List Event) : List Bytes := payloads (fun w => w.id = id) history

/-- The chunks that were written on `topic` to users of the given kind by other bindings than `id`. -/
def chunksTo (id : BindingId) (topic : Topic) (kind : Kind) (history : List Event) : List Bytes :=
  payloads (fun w => w.id ≠ id && w.topic = topic && w.target = kind) history

section

variable {id : BindingId} {topic : Topic} {kind : Kind} {p : Terms → Bool} {events history : List Event}

theorem payloads_append (p : Terms → Bool) (l r : List Event) : payloads p (l ++ r) = payloads p l ++ payloads p r := by
  rw [payloads, List.filterMap_append, List.filter_append, List.map_append]
  rfl

theorem chunksBy_append (id : BindingId) (l r : List Event) : chunksBy id (l ++ r) = chunksBy id l ++ chunksBy id r :=
  payloads_append _ l r

theorem chunksTo_append (id : BindingId) (topic : Topic) (kind : Kind) (l r : List Event) :
    chunksTo id topic kind (l ++ r) = chunksTo id topic kind l ++ chunksTo id topic kind r :=
  payloads_append _ l r

theorem payloads_wrote (p : Terms → Bool) (w : Terms) {data : Bytes} (hne : data ≠ []) :
    payloads p [.wrote w data] = if p w then [data] else [] := by
  cases hp : p w <;> simp [payloads, Event.write?, hp, hne]

theorem payloads_wrote_nil (p : Terms → Bool) (w : Terms) : payloads p [.wrote w []] = [] := by
  simp [payloads, Event.write?]

/-- The chunks sent to a binding are the bytes sent to it. -/
theorem flatten_chunksTo (id : BindingId) (topic : Topic) (kind : Kind) (history : List Event) :
    (chunksTo id topic kind history).flatten = sentTo id topic kind history := by
  induction history with
  | nil => rfl
  | cons e rest ih =>
    have hhead : (chunksTo id topic kind [e]).flatten = e.sent id topic kind := by
      cases e with
      | wrote w data =>
        by_cases hne : data = []
        · subst hne
          rw [chunksTo, payloads_wrote_nil]
          exact (ite_self []).symm
        · rw [chunksTo, payloads_wrote _ w hne]
          by_cases hto : w.id ≠ id ∧ w.topic = topic ∧ w.target = kind
          · simp [Event.sent, hto]
          · simp only [Event.sent, if_neg hto]
            rw [if_neg (by simpa [and_assoc] using hto)]
            rfl
      | _ => rfl
    rw [show e :: rest = [e] ++ rest from rfl, sentTo_append, ← ih, chunksTo_append, List.flatten_append, hhead]
    rw [show sentTo id topic kind [e] = e.sent id topic kind from List.append_nil _]

end

/-! ## What reads count -/

namespace Binding

variable {limit : Option Nat} {down : Bool} {b b' b'' : Binding} {parts : List Bytes} {id : BindingId}
  {events history : List Event}

/-- What is left of the chunk that was read last. -/
def pending (b : Binding) : Bytes := (b.readSide.map (·.pending)).getD []

/-- The chunks in the inbox, oldest first. -/
def queue (b : Binding) : List Bytes := (b.readSide.map (·.queue)).getD []

theorem stream_eq (b : Binding) : b.stream = b.pending ++ b.queue.flatten := by
  unfold stream pending queue
  cases b.readSide <;> rfl

theorem queue_of_some {s : ReadSide} (h : b.readSide = some s) : b.queue = s.queue := by rw [queue, h]; rfl

theorem queue_of_none (h : b.readSide = none) : b.queue = [] := by rw [queue, h]; rfl

theorem Sound.chunks (hs : b.Sound limit down) : ∀ c ∈ b.queue, c ≠ [] := by
  cases hr : b.readSide with
  | none => simp [queue_of_none hr]
  | some s =>
    rw [queue_of_some hr]
    exact (hs.idle s hr).chunks

theorem Dwindles.mem_queue (h : b.Dwindles b') {c : Bytes} (hc : c ∈ b'.queue) : c ∈ b.queue := by
  cases hr : b'.readSide with
  | none =>
    rw [queue_of_none hr] at hc
    cases hc
  | some s' =>
    obtain ⟨s, hs, hsuffix⟩ := h s' hr
    rw [queue_of_some hr] at hc
    rw [queue_of_some hs]
    exact hsuffix.subset hc

theorem releaseReadSide_traffic (b : Binding) : b.releaseReadSide.traffic = b.traffic := by rw [releaseReadSide_eq]

theorem releaseIfClosed_traffic (b : Binding) : b.releaseIfClosed.traffic = b.traffic := by
  rcases b.releaseIfClosed_cases with he | ⟨-, -, he⟩ <;> rw [he]
  exact releaseReadSide_traffic b

theorem shut_traffic (b : Binding) : b.shut.traffic = b.traffic := by
  rw [shut_eq, releaseIfClosed_traffic]

/-- **A move counts** the bytes of its parts, and the chunks by which it shortens the inbox of an open binding. -/
theorem Move.exists_chunks (h : Move limit b parts b') (hq : ∀ c ∈ b.queue, c ≠ []) :
    ∃ chunks, b'.traffic = b.traffic.onRead parts.flatten.length chunks ∧
      (b'.isOpen = true → chunks + b'.queue.length = b.queue.length) := by
  cases h with
  | line | nothing => exact ⟨0, rfl, fun _ => Nat.zero_add _⟩
  | left =>
    refine ⟨0, releaseIfClosed_traffic b, fun ho => ?_⟩
    rw [releaseIfClosed_isOpen] at ho
    rw [releaseIfClosed_of_isOpen ho, Nat.zero_add]
  | fetched _ hf =>
    cases hf with
    | closed hc =>
      refine ⟨0, releaseReadSide_traffic b, fun ho => ?_⟩
      rw [releaseReadSide_eq] at ho
      exact absurd (ho.symm.trans hc) Bool.noConfusion
    | released | refused => exact ⟨0, rfl, fun _ => Nat.zero_add _⟩
    | @served s taken ho hr hne ht =>
      refine ⟨taken, by simp only [partsOf, List.flatten_cons, List.flatten_nil, List.append_nil]; rfl, fun _ => ?_⟩
      have hle := ht.le
      rw [queue_of_some hr, queue_of_some rfl]
      simp only [ReadSide.served, List.length_drop]
      omega
    | waits ho hr =>
      refine ⟨0, rfl, fun _ => ?_⟩
      rw [queue_of_some hr, queue_of_some rfl, Nat.zero_add]
      rfl
    | @drained s ho hr hnil =>
      -- Without empty chunks an inbox that has no bytes has no chunks.
      have hflat : s.queue.flatten = [] := (List.append_eq_nil_iff.1 hnil).2
      rw [queue_of_some hr] at hq ⊢
      have hempty : s.queue = [] := List.eq_nil_iff_forall_not_mem.2
        (fun c hc => hq c hc (List.flatten_eq_nil_iff.1 hflat c hc))
      refine ⟨0, releaseReadSide_traffic b, fun _ => ?_⟩
      rw [hempty, queue_of_none (by rw [releaseReadSide_eq]), Nat.zero_add]

/-- **All moves count** the bytes of their parts and the chunks that they take out of the inbox. -/
theorem Moves.exists_chunks (h : Moves limit b parts b') (hq : ∀ c ∈ b.queue, c ≠ []) :
    ∃ chunks, b'.traffic = b.traffic.onRead parts.flatten.length chunks ∧
      (b'.isOpen = true → chunks + b'.queue.length = b.queue.length) := by
  induction h with
  | refl b => exact ⟨0, rfl, fun _ => Nat.zero_add _⟩
  | @more b b₁ b₂ p q hm hms ih =>
    obtain ⟨m, htraffic, hqueue⟩ := hm.exists_chunks hq
    obtain ⟨n, htraffic', hqueue'⟩ := ih (fun c hc => hq c (hm.dwindles.mem_queue hc))
    refine ⟨m + n, ?_, fun ho => ?_⟩
    · rw [htraffic', htraffic, List.flatten_append, List.length_append]
      simp only [Traffic.onRead, Nat.add_assoc]
    · have hfirst := hqueue (hms.isOpen ▸ ho)
      have hrest := hqueue' ho
      omega

/-! ## Counters and events -/

/-- The counters of the binding `id` have gone along with the events that led from `b` to `b'`. -/
structure Tallied (id : BindingId) (events : List Event) (b b' : Binding) : Prop where
  bytesWritten : b'.traffic.bytesWritten = b.traffic.bytesWritten + (chunksBy id events).flatten.length
  chunksWritten : b'.traffic.chunksWritten = b.traffic.chunksWritten + (chunksBy id events).length
  bytesRead : b'.traffic.bytesRead = b.traffic.bytesRead + (takenFrom id events).length
  chunksRead : b'.isOpen = true → b'.traffic.chunksRead + b'.queue.length =
    b.traffic.chunksRead + b.queue.length + (chunksTo id b.topic b.kind events).length

theorem Tallied.refl (id : BindingId) (b : Binding) : b.Tallied id [] b := ⟨rfl, rfl, rfl, fun _ => rfl⟩

theorem Tallied.trans (h : b.Tallied id events b') (h' : b'.Tallied id history b'') (hm : b.Met id events b')
    (hm' : b'.Met id history b'') : b.Tallied id (events ++ history) b'' where
  bytesWritten := by
    rw [h'.bytesWritten, h.bytesWritten, chunksBy_append, List.flatten_append, List.length_append]
    omega
  chunksWritten := by
    rw [h'.chunksWritten, h.chunksWritten, chunksBy_append, List.length_append]
    omega
  bytesRead := by
    rw [h'.bytesRead, h.bytesRead, takenFrom_append, List.length_append, Nat.add_assoc]
  chunksRead ho := by
    have hfirst := h.chunksRead (hm'.wasOpen ho)
    have hrest := h'.chunksRead ho
    rw [show b'.topic = b.topic from congrArg Terms.topic hm.terms,
      show b'.kind = b.kind from congrArg Terms.kind hm.terms] at hrest
    rw [hrest, hfirst, chunksTo_append, List.length_append]
    omega

/-- Events that tell of no chunk, when nothing was counted for one. -/
theorem Tallied.of_no_chunks (hevents : ∀ p, payloads p events = [])
    (hbytes : b'.traffic.bytesWritten = b.traffic.bytesWritten)
    (hchunks : b'.traffic.chunksWritten = b.traffic.chunksWritten)
    (hread : b'.traffic.bytesRead = b.traffic.bytesRead + (takenFrom id events).length)
    (hqueue : b'.isOpen = true → b'.traffic.chunksRead + b'.queue.length = b.traffic.chunksRead + b.queue.length) :
    b.Tallied id events b' := by
  refine ⟨?_, ?_, hread, fun ho => ?_⟩
  · rw [hbytes, chunksBy, hevents]
    rfl
  · rw [hchunks, chunksBy, hevents]
    rfl
  · rw [hqueue ho, chunksTo, hevents]
    rfl

end Binding

/-! ## Acts that do not write -/

namespace Desk

variable {d : Desk} {id : BindingId} {b b' : Binding} {act : Act}

theorem payloads_events (h : ∀ i data, act ≠ .write i data) (p : Terms → Bool) : payloads p (d.events act) = [] := by
  have hhist : (d.history [act]).filterMap Event.write? = [] :=
    write?_history (fun a ha => (List.mem_singleton.1 ha) ▸ h)
  rw [history, history, List.append_nil] at hhist
  rw [payloads, hhist]
  rfl

theorem Aside.traffic_eq (h : Aside id b act b') (hact : ∀ i data, act ≠ .write i data) : b'.traffic = b.traffic := by
  cases h with
  | same | ended | cancelled => rfl
  | closed => exact Binding.shut_traffic b
  | passed => exact absurd rfl (hact _ _)

theorem Aside.queue_eq (h : Aside id b act b') (hact : ∀ i data, act ≠ .write i data) (ho : b'.isOpen = true) :
    b'.queue = b.queue := by
  cases h with
  | same | cancelled => rfl
  | ended =>
    simp only [Binding.queue, Binding.disconnect, Option.map_map]
    rfl
  | closed =>
    rw [Binding.shut_isOpen] at ho
    cases ho
  | passed => exact absurd rfl (hact _ _)

theorem tallied_of_reads (h : d.Good) (hb : d.bus.bindings.get? id = some b) (hr : act.reads = true) :
    ∃ b', (d.apply act).bus.bindings.get? id = some b' ∧ b.Tallied id (d.events act) b' := by
  obtain ⟨parts, b', hb', hmoves, htaken⟩ := moves_apply h hb hr
  obtain ⟨chunks, htraffic, hqueue⟩ := hmoves.exists_chunks (h.sound id b hb).chunks
  refine ⟨b', hb', .of_no_chunks (payloads_events ?_) ?_ ?_ ?_ (fun ho => ?_)⟩
  · rintro i data rfl
    cases hr
  · rw [htraffic]
    rfl
  · rw [htraffic]
    rfl
  · rw [htraffic, htaken]
    rfl
  · have hlen := hqueue ho
    rw [htraffic]
    simp only [Traffic.onRead]
    omega

theorem tallied_of_aside (h : d.Good) (hb : d.bus.bindings.get? id = some b) (hr : act.reads = false)
    (hact : ∀ i data, act ≠ .write i data) :
    ∃ b', (d.apply act).bus.bindings.get? id = some b' ∧ b.Tallied id (d.events act) b' := by
  obtain ⟨b', hb', haside⟩ := aside_apply h hb hr
  have htraffic := haside.traffic_eq hact
  refine ⟨b', hb', .of_no_chunks (payloads_events hact) (congrArg _ htraffic) (congrArg _ htraffic) ?_ (fun ho => ?_)⟩
  · rw [htraffic, takenFrom_of_not_reads hr]
    rfl
  · rw [htraffic, haside.queue_eq hact ho]

end Desk

/-! ## Writes -/

namespace Bus

variable {bus : Bus} {i id : BindingId} {b : Binding} {data : Bytes}

/-- **A write counts at its sender**, if it goes out, and nowhere else. -/
theorem traffic_write (i : BindingId) (data : Bytes) (hb : bus.bindings.get? id = some b) :
    ∃ b', (bus.write i data).1.bindings.get? id = some b' ∧
      b'.traffic = if id = i ∧ data ≠ [] ∧ (bus.write i data).2.isOk = true then b.traffic.onWrite data.length
        else b.traffic := by
  have hput : ∀ {w staged}, bus.bindings.get? i = some w → w.Staged data staged →
      ∃ b₁, (bus.put i staged).bindings.get? id = some b₁ ∧ b₁.traffic = b.traffic := fun hw hst =>
    Table.exists_get?_insert hb rfl (fun hid => by
      obtain rfl := Option.some.inj (hb.symm.trans (hid ▸ hw))
      obtain ⟨-, -, _, -, -, rfl⟩ := hst
      rfl)
  have hcount : ∀ {bindings : Table BindingId Binding} {b₁ : Binding}, bindings.get? id = some b₁ →
      b₁.traffic = b.traffic → ∃ b', (bindings.adjust i (·.countWrite data.length)).get? id = some b' ∧
        b'.traffic = if id = i then b.traffic.onWrite data.length else b.traffic := fun {_ b₁} hb₁ ht => by
    rw [Table.get?_adjust, hb₁, ← ht]
    split <;> exact ⟨_, rfl, rfl⟩
  have hout := written bus i data
  generalize bus.write i data = result at hout ⊢
  cases hout with
  | refused _ => exact ⟨b, hb, (if_neg (fun h => Bool.false_ne_true h.2.2)).symm⟩
  | empty hnil => exact ⟨b, hb, (if_neg (fun h => h.2.1 hnil)).symm⟩
  | failed _ hw hst =>
    obtain ⟨b₁, hb₁, ht⟩ := hput hw hst
    exact ⟨b₁, hb₁, ht.trans (if_neg (fun h => Bool.false_ne_true h.2.2)).symm⟩
  | unrouted hw hst _ _ =>
    obtain ⟨b₁, hb₁, ht⟩ := hput hw hst
    obtain ⟨b', hb', ht'⟩ := hcount hb₁ ht
    exact ⟨b', hb', by simpa [hst.ne_nil, Except.isOk, Except.toBool] using ht'⟩
  | @delivered w staged route hw hst _ _ =>
    obtain ⟨b₁, hb₁, ht⟩ := hput hw hst
    have hsent : ((bus.put i staged).send w.topic route (route.targets w.id w.target) data).1.bindings.get? id =
        some (if id ∈ route.targets w.id w.target then b₁.enqueue data else b₁) := by
      simp only [send, deliver, Table.get?_mapValues, hb₁, Option.map_some]
    obtain ⟨b', hb', ht'⟩ := hcount hsent (by split <;> exact ht)
    exact ⟨b', hb', by simpa [hst.ne_nil, Except.isOk, Except.toBool] using ht'⟩

/-- **A write puts its chunk into the inboxes of its audience**, if it goes out, and into no other. -/
theorem Agrees.queue_write (h : bus.Agrees) (hs : b.Sound bus.config.chunkLimit bus.isShutDown) (i : BindingId)
    (data : Bytes) (hb : bus.bindings.get? id = some b) :
    ∃ b', (bus.write i data).1.bindings.get? id = some b' ∧
      b'.queue = if id ∈ bus.recipients i data then b.queue ++ [data] else b.queue := by
  obtain ⟨b', hb', -, -, hreader⟩ := h.reader_write i data hb
  refine ⟨b', hb', ?_⟩
  have hqueue : b'.queue = if id ∈ bus.recipients i data then (b.enqueue data).queue else b.queue := by
    change b'.reader.queue = _
    rw [hreader]
    split <;> rfl
  rw [hqueue]
  by_cases hm : id ∈ bus.recipients i data
  · obtain ⟨hne, ⟨n, hok⟩, w, hw, haud⟩ := mem_recipients.1 hm
    obtain ⟨-, b₁, hb₁, ho, -⟩ := mem_audience.1 haud
    obtain rfl := Option.some.inj (hb.symm.trans hb₁)
    have hdown : bus.isShutDown = false := by
      by_contra hd
      exact hne (eq_nil_of_write_ok (Bool.not_eq_false _ ▸ hd) hok)
    obtain ⟨s, hr⟩ := hs.receives ho hdown
    rw [if_pos hm, if_pos hm, Binding.queue_of_some hr, Binding.queue, Binding.enqueue, hr]
    rfl
  · rw [if_neg hm, if_neg hm]

end Bus

namespace Desk

variable {d : Desk} {id : BindingId} {b : Binding} {act : Act}

/-- A write that is empty or refused is told of as no chunk. -/
theorem payloads_of_unsent {i : BindingId} {data : Bytes} (hun : ¬(data ≠ [] ∧ (d.bus.write i data).2.isOk = true))
    (p : Terms → Bool) : payloads p (d.events (.write i data)) = [] := by
  simp only [events]
  split
  · rename_i hw hok
    obtain rfl : data = [] := by
      by_contra hne
      exact hun ⟨hne, by rw [hok]; rfl⟩
    exact payloads_wrote_nil p _
  · rfl

theorem recipients_of_unsent {bus : Bus} {i : BindingId} {data : Bytes}
    (hun : ¬(data ≠ [] ∧ (bus.write i data).2.isOk = true)) : id ∉ bus.recipients i data := fun hm => by
  obtain ⟨hne, ⟨n, hok⟩, -⟩ := Bus.mem_recipients.1 hm
  exact hun ⟨hne, by rw [hok]; rfl⟩

theorem tallied_of_unsent (h : d.Good) (hb : d.bus.bindings.get? id = some b) {i : BindingId} {data : Bytes}
    (hun : ¬(data ≠ [] ∧ (d.bus.write i data).2.isOk = true)) :
    ∃ b', (d.apply (.write i data)).bus.bindings.get? id = some b' ∧ b.Tallied id (d.events (.write i data)) b' := by
  obtain ⟨b', hb', htraffic⟩ := Bus.traffic_write i data hb
  obtain ⟨b₁, hb₁, hqueue⟩ := h.agrees.queue_write (h.sound id b hb) i data hb
  obtain rfl := Option.some.inj (hb'.symm.trans hb₁)
  rw [if_neg (fun hout => hun hout.2)] at htraffic
  rw [if_neg (recipients_of_unsent hun)] at hqueue
  refine ⟨b', hb', .of_no_chunks (payloads_of_unsent hun) (congrArg _ htraffic) (congrArg _ htraffic) ?_ (fun _ => ?_)⟩
  · rw [htraffic, takenFrom_of_not_reads rfl]
    rfl
  · rw [htraffic, hqueue]

/-- Who gets a chunk that goes out, of the bindings that are open. -/
theorem mem_recipients_of_sent (h : d.Good) (hb : d.bus.bindings.get? id = some b) (ho : b.isOpen = true)
    {i : BindingId} {w : Binding} {data : Bytes} {n : Nat} (hne : data ≠ []) (hok : (d.bus.write i data).2 = .ok n)
    (hw : d.bus.bindings.get? i = some w) :
    id ∈ d.bus.recipients i data ↔ w.id ≠ id ∧ w.topic = b.topic ∧ w.target = b.kind := by
  rw [Bus.mem_recipients]
  constructor
  · rintro ⟨-, -, w', hw', haud⟩
    obtain rfl := Option.some.inj (hw.symm.trans hw')
    obtain ⟨hid, b₁, hb₁, -, htopic, hkind⟩ := Bus.mem_audience.1 haud
    obtain rfl := Option.some.inj (hb.symm.trans hb₁)
    rw [h.agrees.kindOf_eq hb ho, Except.ok.injEq] at hkind
    exact ⟨hid.symm, htopic.symm, hkind.symm⟩
  · rintro ⟨hid, htopic, hkind⟩
    exact ⟨hne, ⟨n, hok⟩, w, hw,
      Bus.mem_audience.2 ⟨hid.symm, b, hb, ho, htopic.symm, hkind ▸ h.agrees.kindOf_eq hb ho⟩⟩

/-- **A chunk that goes out** counts at its writer and waits in the inboxes that it is for. -/
theorem tallied_of_sent (h : d.Good) (hb : d.bus.bindings.get? id = some b) {i : BindingId} {data : Bytes} {n : Nat}
    (hne : data ≠ []) (hok : (d.bus.write i data).2 = .ok n) :
    ∃ b', (d.apply (.write i data)).bus.bindings.get? id = some b' ∧ b.Tallied id (d.events (.write i data)) b' := by
  obtain ⟨b', hb', htraffic⟩ := Bus.traffic_write i data hb
  obtain ⟨b₁, hb₁, hqueue⟩ := h.agrees.queue_write (h.sound id b hb) i data hb
  obtain rfl := Option.some.inj (hb'.symm.trans hb₁)
  obtain ⟨b₁, hb₁, hmet⟩ := (deed_apply h (.write i data)).met hb
  obtain rfl := Option.some.inj (hb'.symm.trans hb₁)
  obtain ⟨_, -, -, -, -, hsent⟩ := Bus.write_passed d.bus i data
  obtain ⟨w, hw, -⟩ := hsent n hok hne
  have hwid : w.id = i := (h.agrees.issued i w hw).1
  have htaken : takenFrom id (d.events (.write i data)) = [] := takenFrom_of_not_reads rfl id
  have hcount : b'.traffic = if w.id = id then b.traffic.onWrite data.length else b.traffic := by
    rw [htraffic, hok, hwid]
    simp [hne, Except.isOk, Except.toBool, eq_comm]
  have hby : chunksBy id (d.events (.write i data)) = if w.id = id then [data] else [] := by
    rw [events_write hw hok, chunksBy, payloads_wrote _ _ hne]
    simp
  refine ⟨b', hb', ?_, ?_, ?_, fun ho => ?_⟩
  · rw [hcount, hby]
    split <;> simp [Traffic.onWrite]
  · rw [hcount, hby]
    split <;> simp [Traffic.onWrite]
  · rw [hcount, htaken]
    split <;> rfl
  · have hto : chunksTo id b.topic b.kind (d.events (.write i data)) =
        if id ∈ d.bus.recipients i data then [data] else [] := by
      rw [events_write hw hok, chunksTo, payloads_wrote _ _ hne]
      simp [mem_recipients_of_sent h hb (hmet.wasOpen ho) hne hok hw, and_assoc]
    have hread : b'.traffic.chunksRead = b.traffic.chunksRead := by
      rw [hcount]
      split <;> rfl
    rw [hread, hqueue, hto]
    split <;> simp [Nat.add_assoc]

/-- **Every act keeps the counters** in step with its events. -/
theorem tallied_apply (h : d.Good) (hb : d.bus.bindings.get? id = some b) (act : Act) :
    ∃ b', (d.apply act).bus.bindings.get? id = some b' ∧ b.Tallied id (d.events act) b' := by
  cases hr : act.reads with
  | true => exact tallied_of_reads h hb hr
  | false =>
    cases act with
    | write i data =>
      by_cases hout : data ≠ [] ∧ (d.bus.write i data).2.isOk = true
      · cases hok : (d.bus.write i data).2 with
        | ok n => exact tallied_of_sent h hb hout.1 hok
        | error fault => exact absurd hout.2 (by rw [hok]; exact Bool.false_ne_true)
      · exact tallied_of_unsent h hb hout
    | _ => exact tallied_of_aside h hb hr (fun _ _ => Act.noConfusion)

theorem tallied_after (h : d.Good) (hb : d.bus.bindings.get? id = some b) (acts : List Act) :
    ∃ b', (d.after acts).bus.bindings.get? id = some b' ∧ b.Met id (d.history acts) b' ∧
      b.Tallied id (d.history acts) b' := by
  induction acts generalizing d b with
  | nil => exact ⟨b, hb, .refl b, .refl id b⟩
  | cons act acts ih =>
    obtain ⟨b₁, hb₁, htally⟩ := tallied_apply h hb act
    obtain ⟨b₁', hb₁', hmet⟩ := (deed_apply h act).met hb
    obtain rfl := Option.some.inj (hb₁.symm.trans hb₁')
    obtain ⟨b₂, hb₂, hmet', htally'⟩ := ih (good_apply h act) hb₁
    exact ⟨b₂, hb₂, hmet.trans hmet', htally.trans htally' hmet hmet'⟩

/-! ## From the opening on -/

/-- A binding that was not there is one that an act has opened, with nothing in it and nothing counted. -/
theorem fresh_of_unborn (h : d.Good) (hn : d.bus.bindings.get? id = none)
    (hb : (d.apply act).bus.bindings.get? id = some b) :
    d.events act = [.opened id] ∧ b.isOpen = true ∧ b.traffic = {} ∧ b.pending = [] ∧ b.queue = [] := by
  obtain ⟨-, terms, readBuffer, writeBuffer, -, hevents, -, -, rfl⟩ := exists_fresh h hn hb
  exact ⟨hevents, rfl, rfl, rfl, rfl⟩

/-- A binding that is not there has written nothing. -/
theorem chunksBy_of_unborn (h : d.Good) (hn : d.bus.bindings.get? id = none) (act : Act) :
    chunksBy id (d.events act) = [] := by
  cases act with
  | write i data =>
    simp only [events]
    split
    · rename_i w n hw hok
      by_cases hne : data = []
      · rw [hne]
        exact payloads_wrote_nil _ _
      · have hid : w.id ≠ id := (h.agrees.issued i w hw).1 ▸ (Table.ne_of_get? hn hw).symm
        rw [chunksBy, payloads_wrote _ _ hne, if_neg (by simpa using hid)]
    · rfl
  | _ => exact payloads_events (fun _ _ => Act.noConfusion) _

/-- **The counters of a binding** start at its opening and are kept from then on. -/
theorem exists_tallied (h : d.Good) (hn : d.bus.bindings.get? id = none) {acts : List Act}
    (hb : (d.after acts).bus.bindings.get? id = some b) :
    ∃ (pre post : List Event) (b₀ : Binding), d.history acts = pre ++ .opened id :: post ∧
      (∀ e ∈ pre, e.binding? ≠ some id) ∧ chunksBy id pre = [] ∧
      (b₀.traffic = {} ∧ b₀.pending = [] ∧ b₀.queue = []) ∧ b₀.Met id post b ∧ b₀.Tallied id post b := by
  induction acts generalizing d with
  | nil => cases hn.symm.trans hb
  | cons act acts ih =>
    rcases (deed_apply h act).unborn hn with ⟨hn₁, hothers⟩ | ⟨hevents, b₀, hb₀, -⟩
    · obtain ⟨pre, post, b₀, hhist, hpre, hby, hrest⟩ := ih (good_apply h act) hn₁ hb
      refine ⟨d.events act ++ pre, post, b₀, ?_, fun e he => ?_, ?_, hrest⟩
      · rw [history, hhist, List.append_assoc]
      · exact (List.mem_append.1 he).elim (hothers e) (hpre e)
      · rw [chunksBy_append, chunksBy_of_unborn h hn, hby]
        rfl
    · obtain ⟨-, -, hfresh⟩ := fresh_of_unborn h hn hb₀
      obtain ⟨b', hb', hmet, htally⟩ := tallied_after (good_apply h act) hb₀ acts
      obtain rfl := Option.some.inj (hb'.symm.trans hb)
      refine ⟨[], (d.apply act).history acts, b₀, ?_, fun e he => absurd he List.not_mem_nil, rfl, hfresh, hmet, htally⟩
      rw [history, hevents]
      rfl

end Desk

namespace Session

/-- **The traffic counters balance** after every run.  What a binding counts as written are the payloads of its
successful writes that were not empty, and what it counts as read are the bytes that its reads took, whatever became of
the reads that took them.  While it is open, the bytes read, the pending bytes and those of the queued chunks make up the
chunks sent to it since it was opened; the chunks read and the queued chunks make up their number.  The history that all
this is read off is what the users were told. -/
theorem traffic_balances (config : Config) (ops : List Op) {id : BindingId} {b : Binding}
    (hb : ((new config).run ops).bus.bindings.get? id = some b) :
    let history := historyOf config ops
    b.traffic.bytesWritten = (chunksBy id history).flatten.length ∧
    b.traffic.chunksWritten = (chunksBy id history).length ∧
    b.traffic.bytesRead = (takenFrom id history).length ∧
    (b.isOpen = true → ∃ kind, ((new config).run ops).bus.registry.kindOf b.user = .ok kind ∧
      b.traffic.bytesRead + b.pending.length + b.queue.flatten.length =
        (chunksTo id b.topic kind (since id history)).flatten.length ∧
      b.traffic.chunksRead + b.queue.length = (chunksTo id b.topic kind (since id history)).length) ∧
    Told config ops id := by
  intro history
  have hafter : ((Desk.new config).after ((new config).trail ops)).bus.bindings.get? id = some b := by
    rw [show Desk.new config = (new config).desk from rfl, ← desk_run]
    exact hb
  obtain ⟨pre, post, b₀, hhist, hpre, hby, ⟨ht₀, hp₀, hq₀⟩, hmet, htally⟩ :=
    Desk.exists_tallied (Desk.good_new config) rfl hafter
  have hhist' : history = pre ++ [.opened id] ++ post := by rw [List.append_assoc]; exact hhist
  have hchunks : chunksBy id history = chunksBy id post := by
    rw [hhist', chunksBy_append, chunksBy_append, hby]
    rfl
  have htaken : takenFrom id history = takenFrom id post := by
    rw [hhist', takenFrom_append, takenFrom_append, takenFrom_of_others hpre]
    rfl
  have hsince : since id history = post := by
    rw [show history = _ from hhist, since_append (not_mem_of_others hpre).1]
  have hread : b.traffic.bytesRead = (takenFrom id post).length := by
    rw [htally.bytesRead, ht₀]
    exact Nat.zero_add _
  rw [hchunks, htaken, hsince]
  refine ⟨?_, ?_, hread, fun ho => ⟨b.kind, (good_run config ops).agrees.kindOf_eq hb ho, ?_⟩, told_historyOf ..⟩
  · rw [htally.bytesWritten, ht₀]
    exact Nat.zero_add _
  · rw [htally.chunksWritten, ht₀]
    exact Nat.zero_add _
  · rw [show b.topic = b₀.topic from congrArg Terms.topic hmet.terms,
      show b.kind = b₀.kind from congrArg Terms.kind hmet.terms, flatten_chunksTo]
    have hbytes := congrArg List.length (hmet.bytes ho)
    have hcount := htally.chunksRead ho
    rw [b.stream_eq, b₀.stream_eq, hp₀, hq₀] at hbytes
    rw [ht₀, hq₀] at hcount
    simp only [List.length_append, List.flatten_nil, List.length_nil, Nat.zero_add] at hbytes hcount
    exact ⟨by omega, hcount⟩

/-- One chunk is read in two parts, the second with two more chunks by an exact read that is cancelled; one waits. -/
theorem traffic_balances_cancelled :
    let ops := twoPeers ++ [.start "b" "first" 2, .onBinding "a" (.write [1, 2, 3]), .poll "first",
      .onBinding "a" (.write [4, 5]), .onBinding "a" (.write [6]), .startAll "b" "second" 9, .cancel "second",
      .onBinding "a" (.write [7])]
    ∃ b, ((new {}).run ops).bus.bindings.get? ⟨6⟩ = some b ∧ b.traffic.bytesRead = 6 ∧ b.traffic.chunksRead = 3 ∧
      b.queue = [[7]] ∧ ∃ kind, ((new {}).run ops).bus.registry.kindOf b.user = .ok kind ∧
        (chunksTo ⟨6⟩ b.topic kind (since ⟨6⟩ (historyOf {} ops))).length = 4 := by
  intro ops
  have hstate : (((new {}).run ops).bus.bindings.get? ⟨6⟩).map (fun b =>
      (b.isOpen, b.traffic.bytesRead, b.traffic.chunksRead, b.queue)) = some (true, 6, 3, [[7]]) := by decide +kernel
  obtain ⟨b, hb, he⟩ := Option.map_eq_some_iff.1 hstate
  simp only [Prod.mk.injEq] at he
  obtain ⟨ho, hbytes, hchunks, hqueue⟩ := he
  obtain ⟨-, -, -, hopen, -⟩ := traffic_balances {} ops hb
  obtain ⟨kind, hkind, -, hcount⟩ := hopen ho
  refine ⟨b, hb, hbytes, hchunks, hqueue, kind, hkind, ?_⟩
  rw [← hcount, hchunks, hqueue]
  rfl

end Session
end TopicBus
