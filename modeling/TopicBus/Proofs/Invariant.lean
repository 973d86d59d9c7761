import TopicBus.Proofs.Acts
import TopicBus.Proofs.Advance
import TopicBus.Proofs.Delivery
/-!
# The invariant of a desk

`Desk.Good` is what holds of a bus and its suspended reads after any acts in any order: the views of the bus agree, the
sides of every binding are at rest, and the line of a binding has each read that is suspended on it exactly once.  A
read that waits at the inbox is first in its line, and there was nothing pending when it turned there; so the chunk that
it takes next is the next of the stream.

Each act keeps it (`good_apply`), hence every list of acts (`good_after`) and every run (`good_run`).
-/
namespace TopicBus

/-- The buffers of a new binding are empty, and have the room asked for and the limit of the bus. -/
theorem Bus.buffers_eq_ok {bus : Bus} {o : Options} {readBuffer writeBuffer : Buffer}
    (h : bus.buffers o = .ok (readBuffer, writeBuffer)) :
    (Within bus.config.chunkLimit o.readCapacity ∧ readBuffer = ⟨[], o.readCapacity, bus.config.chunkLimit⟩) ∧
      Within bus.config.chunkLimit o.writeCapacity ∧ writeBuffer = ⟨[], o.writeCapacity, bus.config.chunkLimit⟩ := by
  unfold buffers at h
  split at h
  · cases h
  · rename_i hread
    split at h
    · cases h
    · rename_i hwrite
      cases h
      exact ⟨Buffer.withCapacity_eq_ok_iff.1 hread, Buffer.withCapacity_eq_ok_iff.1 hwrite⟩

namespace Binding

variable {limit : Option Nat} {down : Bool} {b b' : Binding} {name : ReadName} {p : Polled}

/-- `b'` is as good as `b` to those that stand in its line. -/
structure Kept (limit : Option Nat) (down : Bool) (b b' : Binding) : Prop where
  sound : b'.Sound limit down
  line : b'.line = b.line
  ready : b.line ≠ [] → ∀ wanted, b.Ready limit wanted → b'.Ready limit wanted

theorem Ready.of_readSide {wanted : Nat} (h : b.Ready limit wanted) (hr : b'.readSide = b.readSide) :
    b'.Ready limit wanted := by
  intro s hs
  rw [hr] at hs
  exact h s hs

theorem Kept.of_readSide (hs : b'.Sound limit down) (hl : b'.line = b.line)
    (hr : b.line ≠ [] → b'.readSide = b.readSide) : Kept limit down b b' :=
  ⟨hs, hl, fun hne _ h => h.of_readSide (hr hne)⟩

theorem Passed.kept {received : Bool} {data : Bytes} (h : b.Passed received data b') (hs : b.Sound limit down)
    (hd : received = true → data ≠ []) : Kept limit down b b' := by
  refine ⟨h.sound hd hs, h.line, fun _ wanted hr s hs' => ?_⟩
  rw [h.readSide] at hs'
  split at hs'
  · obtain ⟨s', hs'', rfl⟩ := Option.map_eq_some_iff.1 hs'
    exact hr s' hs''
  · exact hr s hs'

theorem kept_disconnect (hs : b.Sound limit down) : Kept limit true b b.disconnect := by
  refine ⟨sound_disconnect hs, rfl, fun _ wanted hr s hs' => ?_⟩
  obtain ⟨s', hs'', rfl⟩ := Option.map_eq_some_iff.1 hs'
  exact hr s' hs''

theorem kept_shut (hs : b.Sound limit down) : Kept limit down b b.shut := by
  refine ⟨sound_shut hs, shut_line b, fun hne wanted hr s hs' => ?_⟩
  rw [shut_eq, releaseIfClosed_of_line (by exact hne)] at hs'
  obtain ⟨s', hs'', rfl⟩ := Option.map_eq_some_iff.1 hs'
  exact hr s' hs''

/-- The line when the read `name` stays in it, or takes a new place. -/
theorem Poll.pending_line (h : Poll limit down name b p) {r : SuspendedRead} (hr : p.progress = .pending r)
    (hnd : b.line.Nodup) : p.binding.line.Nodup ∧
      (∀ other, other ∈ p.binding.line ↔ other = name ∨ other ∈ b.line) ∧
      ∀ other, b.line.head? = some other → other ≠ name → p.binding.line.head? = some other := by
  rcases (h.pending r hr).2.1 with hl | hl
  · rw [hl]
    exact ⟨nodup_joined hnd name, fun _ => mem_joined, fun _ ho _ => head?_joined ho⟩
  · rw [hl]
    refine ⟨List.nodup_append.2 ⟨hnd.erase name, by simp, fun x hx y hy => ?_⟩, fun other => ?_, fun o ho hne => ?_⟩
    · rw [List.mem_singleton.1 hy]
      exact (hnd.mem_erase_iff.1 hx).1
    · by_cases ho : other = name
      · simp [ho]
      · simp [ho, hnd.mem_erase_iff]
    · rw [List.head?_append, head?_erase ho hne]
      rfl

end Binding

namespace Desk

structure Good (d : Desk) : Prop where
  agrees : d.bus.Agrees
  sound : ∀ id b, d.bus.bindings.get? id = some b → b.Sound d.bus.config.chunkLimit d.bus.isShutDown
  nodup : ∀ id b, d.bus.bindings.get? id = some b → b.line.Nodup
  line : ∀ id b, d.bus.bindings.get? id = some b → ∀ name, name ∈ b.line ↔
    ∃ r, d.reads.get? name = some r ∧ r.binding = id
  reads : ∀ name r, d.reads.get? name = some r → 0 < r.read.wanted ∧
    ∃ b, d.bus.bindings.get? r.binding = some b ∧ (r.read.phase = .atInbox → b.line.head? = some name ∧
      b.Ready d.bus.config.chunkLimit (clampRead d.bus.config.chunkLimit r.read.wanted))

theorem good_new (config : Config) : (new config).Good where
  agrees := Bus.agrees_new config
  sound _ _ h := by cases h
  nodup _ _ h := by cases h
  line _ _ h := by cases h
  reads _ _ h := by cases h

variable {d : Desk}

/-! ## Acts that leave the suspended reads as they are -/

theorem good_of_kept (h : d.Good) {bus : Bus} (ha : bus.Agrees) (hc : bus.config = d.bus.config)
    (hk : ∀ id b, d.bus.bindings.get? id = some b → ∃ b', bus.bindings.get? id = some b' ∧
      b.Kept d.bus.config.chunkLimit bus.isShutDown b')
    (hn : ∀ id, d.bus.bindings.get? id = none → bus.bindings.get? id = none) : Good ⟨bus, d.reads⟩ := by
  have hold : ∀ id b', bus.bindings.get? id = some b' → ∃ b, d.bus.bindings.get? id = some b ∧
      b.Kept d.bus.config.chunkLimit bus.isShutDown b' := by
    intro id b' hb'
    cases hb : d.bus.bindings.get? id with
    | none =>
      rw [hn id hb] at hb'
      cases hb'
    | some b =>
      obtain ⟨b'', hb'', hkept⟩ := hk id b hb
      rw [hb'] at hb''
      obtain rfl := Option.some.inj hb''
      exact ⟨b, rfl, hkept⟩
  refine ⟨ha, fun id b' hb' => ?_, fun id b' hb' => ?_, fun id b' hb' => ?_, fun name r hr => ?_⟩
  · obtain ⟨b, hb, hkept⟩ := hold id b' hb'
    exact hc ▸ hkept.sound
  · obtain ⟨b, hb, hkept⟩ := hold id b' hb'
    exact hkept.line ▸ h.nodup id b hb
  · obtain ⟨b, hb, hkept⟩ := hold id b' hb'
    exact hkept.line ▸ h.line id b hb
  · obtain ⟨hw, b, hb, hphase⟩ := h.reads name r hr
    obtain ⟨b', hb', hkept⟩ := hk r.binding b hb
    refine ⟨hw, b', hb', fun hp => ?_⟩
    obtain ⟨hhead, hready⟩ := hphase hp
    refine ⟨hkept.line ▸ hhead, hc ▸ hkept.ready (fun hl => ?_) _ hready⟩
    rw [hl] at hhead
    cases hhead

/-- Replacing one binding by one that is as good. -/
theorem good_replace (h : d.Good) {bus : Bus} (ha : bus.Agrees) (hc : bus.config = d.bus.config)
    (hd : bus.isShutDown = d.bus.isShutDown) {id : BindingId} {b b' : Binding}
    (hb : d.bus.bindings.get? id = some b) (hbus : bus.bindings = d.bus.bindings.insert id b')
    (hk : b.Kept d.bus.config.chunkLimit d.bus.isShutDown b') : Good ⟨bus, d.reads⟩ := by
  refine good_of_kept h ha hc (fun id₁ b₁ hb₁ => ?_) (fun id₁ hb₁ => ?_)
  · rw [hbus, Table.get?_insert, hd]
    split
    · rename_i hid
      subst hid
      rw [hb] at hb₁
      obtain rfl := Option.some.inj hb₁
      exact ⟨b', rfl, hk⟩
    · exact ⟨b₁, hb₁, .of_readSide (h.sound id₁ b₁ hb₁) rfl (fun _ => rfl)⟩
  · rw [hbus, Table.get?_insert, if_neg (fun hid => by rw [hid, hb] at hb₁; cases hb₁), hb₁]

theorem good_put (h : d.Good) {id : BindingId} {b b' : Binding} (hb : d.bus.bindings.get? id = some b)
    (ht : b'.toTerms = b.toTerms) (ho : b'.isOpen = b.isOpen)
    (hk : b.Kept d.bus.config.chunkLimit d.bus.isShutDown b') : Good ⟨d.bus.put id b', d.reads⟩ :=
  good_replace h (Bus.agrees_put h.agrees hb ht ho) rfl rfl hb rfl hk

/-- A read that does not stay suspended. -/
theorem good_onBinding {α : Type} (h : d.Good) (id : BindingId) (absent : α) (f : Binding → Binding × α)
    (hf : ∀ b, d.bus.bindings.get? id = some b →
      (∃ parts, b.Advance d.bus.config.chunkLimit d.bus.isShutDown parts (f b).1) ∧ (f b).1.line = b.line ∧
        (b.line ≠ [] → (f b).1 = b)) : Good ⟨(d.bus.onBinding id absent f).1, d.reads⟩ := by
  unfold Bus.onBinding
  cases hb : d.bus.bindings.get? id with
  | none => exact h
  | some b =>
    obtain ⟨⟨parts, ha⟩, hl, hsame⟩ := hf b hb
    exact good_put h hb ha.terms ha.isOpen (.of_readSide ha.sound hl (fun hne => by rw [hsame hne]))

theorem good_open (h : d.Good) (o : Options) : Good ⟨(d.bus.openBinding o).1, d.reads⟩ := by
  have hagrees := Bus.agrees_open h.agrees o
  have hout := Bus.opened_openBinding d.bus o
  generalize d.bus.openBinding o = result at hout hagrees ⊢
  cases hout with
  | refused fault => exact h
  | @opened readBuffer writeBuffer registry id kind hd hbuf ha =>
    obtain ⟨_, _, -, -, -, rfl, -, -⟩ := Registry.acquire_eq_ok ha
    have hnone := h.agrees.get?_opened_next
    have hnew : ∀ name r, d.reads.get? name = some r → r.binding ≠ ⟨d.bus.registry.nextKey⟩ := by
      intro name r hr he
      obtain ⟨-, b, hb, -⟩ := h.reads name r hr
      rw [he, hnone] at hb
      cases hb
    obtain ⟨⟨-, rfl⟩, -, rfl⟩ := Bus.buffers_eq_ok hbuf
    refine ⟨hagrees, fun id b hb => ?_, fun id b hb => ?_, fun id b hb name => ?_, fun name r hr => ?_⟩
    · rcases Table.of_get?_insert hb with ⟨-, rfl⟩ | ⟨-, hb⟩
      · simp only [hd]
        exact Binding.sound_fresh _ rfl rfl rfl rfl
      · exact h.sound id b hb
    · rcases Table.of_get?_insert hb with ⟨-, rfl⟩ | ⟨-, hb⟩
      · exact List.nodup_nil
      · exact h.nodup id b hb
    · rcases Table.of_get?_insert hb with ⟨hid, rfl⟩ | ⟨-, hb⟩
      · constructor
        · exact fun hm => absurd hm List.not_mem_nil
        · rintro ⟨r, hr, he⟩
          exact absurd (he.trans hid) (hnew name r hr)
      · exact h.line id b hb name
    · obtain ⟨hw, b, hb, hphase⟩ := h.reads name r hr
      refine ⟨hw, b, ?_, hphase⟩
      simp only [Table.get?_insert]
      rw [if_neg (hnew name r hr), hb]

theorem good_close (h : d.Good) (id : BindingId) : Good ⟨(d.bus.close id).1, d.reads⟩ := by
  have ha := Bus.agrees_close h.agrees id
  rcases Bus.close_cases d.bus id with ⟨-, he⟩ | ⟨b, hb, -, he⟩
  · rw [he]
    exact h
  · rw [he] at ha ⊢
    exact good_replace h ha rfl rfl hb rfl (Binding.kept_shut (h.sound id b hb))

theorem good_shutdown (h : d.Good) : Good ⟨d.bus.shutdown, d.reads⟩ := by
  refine good_of_kept h (Bus.agrees_shutdown h.agrees) rfl (fun id b hb => ⟨b.disconnect, ?_, ?_⟩) (fun id hb => ?_)
  · simp only [Bus.shutdown, Table.get?_mapValues, hb, Option.map_some]
  · exact Binding.kept_disconnect (h.sound id b hb)
  · simp only [Bus.shutdown, Table.get?_mapValues, hb, Option.map_none]

theorem good_write (h : d.Good) (id : BindingId) (data : Bytes) : Good ⟨(d.bus.write id data).1, d.reads⟩ := by
  obtain ⟨hc, hd⟩ := Bus.frame_write d.bus id data
  obtain ⟨receivers, hsome, hnone, hempty, -⟩ := Bus.write_passed d.bus id data
  refine good_of_kept h (Bus.agrees_write h.agrees id data) hc (fun id' b hb => ?_) hnone
  obtain ⟨b', hb', hp⟩ := hsome id' b hb
  refine ⟨b', hb', hd ▸ hp.kept (h.sound id' b hb) (fun hr hn => ?_)⟩
  simp [hempty hn] at hr

/-! ## Acts of the suspended reads -/

/-- The read `name` of the binding `id` takes its turn, and stays or leaves. -/
theorem good_turn (h : d.Good) {name : ReadName} {id : BindingId} {b b' : Binding} {reads : Table ReadName Reader}
    (hb : d.bus.bindings.get? id = some b) (ht : b'.toTerms = b.toTerms) (ho : b'.isOpen = b.isOpen)
    (hs : b'.Sound d.bus.config.chunkLimit d.bus.isShutDown) (hnd : b'.line.Nodup)
    (hreads : ∀ other, other ≠ name → reads.get? other = d.reads.get? other)
    (hname : ∀ r, d.reads.get? name = some r → r.binding = id)
    (hline : ∀ other, other ∈ b'.line ↔ if other = name then (reads.get? name).isSome = true else other ∈ b.line)
    (hread : ∀ r, reads.get? name = some r → 0 < r.read.wanted ∧ r.binding = id ∧
      (r.read.phase = .atInbox → b'.line.head? = some name ∧
        b'.Ready d.bus.config.chunkLimit (clampRead d.bus.config.chunkLimit r.read.wanted)))
    (hothers : ∀ other, b.line.head? = some other → other ≠ name →
      b'.line.head? = some other ∧ b'.readSide = b.readSide) : Good ⟨d.bus.put id b', reads⟩ := by
  have hself : (d.bus.put id b').bindings.get? id = some b' := by simp [Bus.put, Table.get?_insert]
  have helse : ∀ id', id' ≠ id → (d.bus.put id b').bindings.get? id' = d.bus.bindings.get? id' := fun id' hid =>
    Table.get?_insert_of_ne _ hid _
  refine ⟨Bus.agrees_put h.agrees hb ht ho, fun id' b₁ hb₁ => ?_, fun id' b₁ hb₁ => ?_, fun id' b₁ hb₁ other => ?_,
    fun other r hr => ?_⟩
  · rcases Table.of_get?_insert hb₁ with ⟨-, rfl⟩ | ⟨-, hb₁⟩
    · exact hs
    · exact h.sound id' b₁ hb₁
  · rcases Table.of_get?_insert hb₁ with ⟨-, rfl⟩ | ⟨-, hb₁⟩
    · exact hnd
    · exact h.nodup id' b₁ hb₁
  · rcases Table.of_get?_insert hb₁ with ⟨rfl, rfl⟩ | ⟨hid, hb₁⟩
    · rw [hline]
      split
      · rename_i hn
        rw [hn, Option.isSome_iff_exists]
        exact exists_congr (fun r => ⟨fun hr => ⟨hr, (hread r hr).2.1⟩, And.left⟩)
      · rename_i hn
        rw [hreads other hn]
        exact h.line _ b hb other
    · -- the read is none of those on another binding, before or after
      rw [h.line id' b₁ hb₁]
      by_cases hn : other = name
      · subst hn
        constructor
        · rintro ⟨r, hr, he⟩
          exact absurd (he.symm.trans (hname r hr)) hid
        · rintro ⟨r, hr, he⟩
          exact absurd (he.symm.trans (hread r hr).2.1) hid
      · rw [hreads other hn]
  · by_cases hn : other = name
    · subst hn
      obtain ⟨hw, hbinding, hphase⟩ := hread r hr
      exact ⟨hw, b', by rw [hbinding]; exact hself, hphase⟩
    · rw [hreads other hn] at hr
      obtain ⟨hw, b₁, hb₁, hphase⟩ := h.reads other r hr
      by_cases hid : r.binding = id
      · rw [hid, hb] at hb₁
        obtain rfl := Option.some.inj hb₁
        refine ⟨hw, b', by rw [hid]; exact hself, fun hp => ?_⟩
        obtain ⟨hhead, hready⟩ := hphase hp
        obtain ⟨hhead', hside⟩ := hothers other hhead hn
        exact ⟨hhead', hready.of_readSide hside⟩
      · exact ⟨hw, b₁, (helse _ hid).trans hb₁, hphase⟩

theorem good_keep (h : d.Good) {name : ReadName} {id : BindingId} {b : Binding} {p : Polled}
    (hb : d.bus.bindings.get? id = some b) (hname : ∀ r, d.reads.get? name = some r → r.binding = id)
    (hp : b.Poll d.bus.config.chunkLimit d.bus.isShutDown name p) : (d.keep name id p).Good := by
  have hnd := h.nodup id b hb
  unfold keep
  cases hr : p.progress with
  | ready result =>
    have hline := hp.ready result hr
    refine good_turn h hb hp.advance.terms hp.advance.isOpen hp.advance.sound (hline ▸ hnd.erase name)
      (fun other hn => by simp [Table.get?_erase, hn]) hname (fun other => ?_) (fun r hr' => ?_) (fun other ho hn => ?_)
    · rw [hline, hnd.mem_erase_iff]
      by_cases hn : other = name <;> simp [hn, Table.get?_erase]
    · simp [Table.get?_erase] at hr'
    · exact ⟨hline ▸ Binding.head?_erase ho hn, hp.others other ho hn⟩
  | pending read =>
    obtain ⟨hnd', hmem, hhead⟩ := hp.pending_line hr hnd
    refine good_turn h hb hp.advance.terms hp.advance.isOpen hp.advance.sound hnd'
      (fun other hn => by simp [Table.get?_insert, hn]) hname (fun other => ?_) (fun r hr' => ?_)
      (fun other ho hn => ⟨hhead other ho hn, hp.others other ho hn⟩)
    · rw [hmem]
      by_cases hn : other = name <;> simp [hn, Table.get?_insert]
    · simp only [Table.get?_insert, if_true] at hr'
      obtain rfl := Option.some.inj hr'
      obtain ⟨hw, -, hphase⟩ := hp.pending read hr
      exact ⟨hw, rfl, hphase⟩

theorem good_advance (h : d.Good) {polled : Option (ReadName × BindingId × Polled)}
    (hp : ∀ name id p, polled = some (name, id, p) → ∃ b, d.bus.bindings.get? id = some b ∧
      (∀ r, d.reads.get? name = some r → r.binding = id) ∧
        b.Poll d.bus.config.chunkLimit d.bus.isShutDown name p) : (d.advance polled).Good := by
  cases polled with
  | none => exact h
  | some polled =>
    obtain ⟨name, id, p⟩ := polled
    obtain ⟨b, hb, hname, hpoll⟩ := hp name id p rfl
    exact good_keep h hb hname hpoll

theorem good_cancel (h : d.Good) (name : ReadName) : (d.cancel name).Good := by
  unfold cancel
  cases hr : d.reads.get? name with
  | none => exact h
  | some reader =>
    obtain ⟨-, b, hb, -⟩ := h.reads name reader hr
    have hnd := h.nodup reader.binding b hb
    simp only [Bus.onBinding, hb]
    refine good_turn h hb rfl rfl (Binding.sound_line (h.sound _ b hb) _) (hnd.erase name)
      (fun other hn => by simp [Table.get?_erase, hn]) (fun r hr' => ?_) (fun other => ?_) (fun r hr' => ?_)
      (fun other ho hn => ⟨Binding.head?_erase ho hn, rfl⟩)
    · rw [hr] at hr'
      exact congrArg Reader.binding (Option.some.inj hr').symm
    · rw [Binding.cancel, hnd.mem_erase_iff]
      by_cases hn : other = name <;> simp [hn, Table.get?_erase]
    · simp [Table.get?_erase] at hr'

/-- A poll finds the bus as a poll expects it. -/
theorem Good.polled (h : d.Good) {act : Act} {name : ReadName} {id : BindingId} {p : Polled}
    (hp : d.polled? act = some (name, id, p)) : ∃ b, d.bus.bindings.get? id = some b ∧
      (∀ r, d.reads.get? name = some r → r.binding = id) ∧
        b.Poll d.bus.config.chunkLimit d.bus.isShutDown name p := by
  have hfree : ∀ {n : ReadName} {i : BindingId} {b : Binding}, ¬ (d.reads.get? n).isSome = true →
      d.bus.bindings.get? i = some b → n ∉ b.line := fun hn hb hm => by
    obtain ⟨r, hr, -⟩ := (h.line _ _ hb _).1 hm
    exact hn (by rw [hr]; rfl)
  cases act with
  | start n i wanted =>
    simp only [polled?, Option.ite_none_left_eq_some, Option.map_eq_some_iff, Prod.mk.injEq] at hp
    obtain ⟨hn, b, hb, rfl, rfl, rfl⟩ := hp
    exact ⟨b, hb, fun r hr => absurd (by rw [hr]; rfl) hn, Binding.poll_startUpTo (h.sound _ b hb) (hfree hn hb)⟩
  | startAll n i wanted =>
    simp only [polled?, Option.ite_none_left_eq_some, Option.map_eq_some_iff, Prod.mk.injEq] at hp
    obtain ⟨hn, b, hb, rfl, rfl, rfl⟩ := hp
    exact ⟨b, hb, fun r hr => absurd (by rw [hr]; rfl) hn, Binding.poll_startExact (h.sound _ b hb) (hfree hn hb)⟩
  | poll n =>
    simp only [polled?, Option.bind_eq_some_iff, Option.map_eq_some_iff, Prod.mk.injEq] at hp
    obtain ⟨r, hr, b, hb, rfl, rfl, rfl⟩ := hp
    obtain ⟨hw, b', hb', hphase⟩ := h.reads n r hr
    rw [hb] at hb'
    obtain rfl := Option.some.inj hb'
    refine ⟨b, hb, fun r' hr' => ?_, Binding.poll_poll (h.sound _ b hb) (h.nodup _ b hb)
      ((h.line _ b hb n).2 ⟨r, hr, rfl⟩) hw hphase⟩
    rw [hr] at hr'
    exact congrArg Reader.binding (Option.some.inj hr').symm
  | _ => cases hp

/-! ## Every act -/

theorem tryRead_fst (b : Binding) (limit : Option Nat) (wanted : Nat) :
    (b.tryRead limit wanted).1 = (b.read limit wanted).1 := by
  unfold Binding.tryRead
  rcases b.read limit wanted with ⟨b', (fault | phase) | data⟩ <;> rfl

/-- **Every act keeps a desk good.** -/
theorem good_apply (h : d.Good) (act : Act) : (d.apply act).Good := by
  cases act with
  | create what =>
    exact good_of_kept h (Bus.agrees_create h.agrees what) rfl
      (fun id b hb => ⟨b, hb, .of_readSide (h.sound id b hb) rfl (fun _ => rfl)⟩) (fun _ hb => hb)
  | destroy object =>
    exact good_of_kept h (Bus.agrees_destroy h.agrees object) rfl
      (fun id b hb => ⟨b, hb, .of_readSide (h.sound id b hb) rfl (fun _ => rfl)⟩) (fun _ hb => hb)
  | shutdown => exact good_shutdown h
  | openBinding options => exact good_open h options
  | close id => exact good_close h id
  | write id data => exact good_write h id data
  | read id wanted =>
    refine good_onBinding h id _ _ (fun b hb => ?_)
    obtain ⟨ha, hl⟩ := Binding.read_advance (h.sound id b hb) wanted
    exact ⟨⟨_, ha⟩, hl, fun hne => Binding.read_of_line _ _ hne⟩
  | tryRead id wanted =>
    refine good_onBinding h id _ _ (fun b hb => ?_)
    obtain ⟨ha, hl⟩ := Binding.read_advance (h.sound id b hb) wanted
    rw [tryRead_fst]
    exact ⟨⟨_, ha⟩, hl, fun hne => Binding.read_of_line _ _ hne⟩
  | readAll id wanted =>
    refine good_onBinding h id _ _ (fun b hb => ?_)
    obtain ⟨ha, hl, hsame⟩ := Binding.readAll_advance (h.sound id b hb) wanted
    exact ⟨⟨_, ha⟩, hl, hsame⟩
  | start name id wanted => exact good_advance h (fun _ _ _ hp => h.polled hp)
  | startAll name id wanted => exact good_advance h (fun _ _ _ hp => h.polled hp)
  | poll name => exact good_advance h (fun _ _ _ hp => h.polled hp)
  | cancel name => exact good_cancel h name

theorem good_after (h : d.Good) (acts : List Act) : (d.after acts).Good := by
  induction acts generalizing d with
  | nil => exact h
  | cons act acts ih => exact ih (good_apply h act)

end Desk

/-- **Every run of a new session leaves a good desk.** -/
theorem Session.good_run (config : Config) (ops : List Op) : ((new config).run ops).desk.Good := by
  rw [desk_run]
  exact Desk.good_after (Desk.good_new config) _

/-- Two users of one kind, each with a binding on one topic. -/
def Session.twoPeers : List Op :=
  [.create .kind, .create (.user ⟨1⟩), .create (.user ⟨1⟩), .create .topic,
    .openBinding "a" { user := ⟨2⟩, topic := ⟨4⟩, target := ⟨1⟩ },
    .openBinding "b" { user := ⟨3⟩, topic := ⟨4⟩, target := ⟨1⟩ }]

end TopicBus
