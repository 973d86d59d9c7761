import TopicBus.Proofs.Histories
import TopicBus.Proofs.Invariant
import TopicBus.Proofs.Steps
/-!
# Every act is a deed

What an act does to the bindings of a good desk, with the events that it leaves, is one of six deeds (`Desk.Deed`,
`deed_apply`).  Each deed keeps the books of every binding that is there already (`Deed.met`), and says nothing of one
that is not there, unless it opens it with an empty stream (`Deed.unborn`).  So the history of a binding begins with its
opening, and its books are kept from then on (`exists_opening`).
-/
namespace TopicBus

variable {id : BindingId} {events : List Event}

/-- Whether an act moves bytes into streams or out of them. -/
def Act.moves : Act → Bool
  | .write _ _ | .read _ _ | .tryRead _ _ | .readAll _ _ | .start _ _ _ | .startAll _ _ _ | .poll _ => true
  | .create _ | .destroy _ | .shutdown | .openBinding _ | .close _ | .cancel _ => false

/-- Which acts leave which events. -/
inductive Act.Leaves : Act → Event → Prop
  | opened (options : Options) (id : BindingId) : Leaves (.openBinding options) (.opened id)
  | closed (id : BindingId) : Leaves (.close id) (.closed id)
  | wrote (id : BindingId) (writer : Terms) (data : Bytes) : Leaves (.write id data) (.wrote writer data)
  | took {act : Act} (id : BindingId) (part : Bytes) : act.moves = true → Leaves act (.took id part)

namespace Desk

/-- What an act can do: the bus after it and the events that it leaves. -/
inductive Deed (d : Desk) (bus : Bus) : List Event → Prop
  | nothing : bus.bindings = d.bus.bindings → Deed d bus []
  | opened {id : BindingId} {b : Binding} : d.bus.bindings.get? id = none →
      bus.bindings = d.bus.bindings.insert id b → b.isOpen = true → b.stream = [] → Deed d bus [.opened id]
  | closed {id : BindingId} {b : Binding} : d.bus.bindings.get? id = some b → b.isOpen = true →
      bus.bindings = d.bus.bindings.insert id b.shut → Deed d bus [.closed id]
  | ended : bus.bindings = d.bus.bindings.mapValues (fun _ b => b.disconnect) → Deed d bus []
  | took {id : BindingId} {b b' : Binding} {parts : List Bytes} : d.bus.bindings.get? id = some b →
      b.Advance d.bus.config.chunkLimit d.bus.isShutDown parts b' → bus.bindings = d.bus.bindings.insert id b' →
      Deed d bus (parts.map (.took id))
  | wrote {events : List Event} (data : Bytes) (receivers : List BindingId) :
      (∀ id b, d.bus.bindings.get? id = some b → ∃ b', bus.bindings.get? id = some b' ∧
        b.Passed (decide (id ∈ receivers)) data b') →
      (∀ id, d.bus.bindings.get? id = none → bus.bindings.get? id = none) →
      (∀ e ∈ events, e.binding? = none) →
      (∀ id b, d.bus.bindings.get? id = some b → id ∈ receivers → ∃ s, b.readSide = some s) →
      (∀ id b, d.bus.bindings.get? id = some b → b.isOpen = true →
        sentTo id b.topic b.kind events = if id ∈ receivers then data else []) → Deed d bus events

variable {d : Desk} {b b' : Binding}

/-- **A deed keeps the books of every binding.** -/
theorem Deed.met {bus : Bus} (h : d.Deed bus events) (hb : d.bus.bindings.get? id = some b) :
    ∃ b', bus.bindings.get? id = some b' ∧ b.Met id events b' := by
  cases h with
  | nothing hbus => exact ⟨b, hbus ▸ hb, .refl b⟩
  | @opened id' b' hn hbus ho hs =>
    have hid : id ≠ id' := (Table.ne_of_get? hn hb).symm
    refine ⟨b, by rw [hbus, Table.get?_insert, if_neg hid, hb], .of_others (fun e he => ?_) b⟩
    rw [List.mem_singleton.1 he]
    simpa [Event.binding?] using Ne.symm hid
  | @closed id' b' hb' ho hbus =>
    rw [hbus, Table.get?_insert]
    split
    · rename_i hid
      subst hid
      rw [hb] at hb'
      obtain rfl := Option.some.inj hb'
      exact ⟨_, rfl, Binding.met_shut ho⟩
    · rename_i hid
      refine ⟨b, hb, .of_others (fun e he => ?_) b⟩
      rw [List.mem_singleton.1 he]
      simpa [Event.binding?] using Ne.symm hid
  | ended hbus => exact ⟨b.disconnect, by rw [hbus, Table.get?_mapValues, hb]; rfl, Binding.met_disconnect b⟩
  | @took id' b₁ b₁' parts hb' ha hbus =>
    rw [hbus, Table.get?_insert]
    split
    · rename_i hid
      subst hid
      rw [hb] at hb'
      obtain rfl := Option.some.inj hb'
      exact ⟨_, rfl, ha.met⟩
    · rename_i hid
      refine ⟨b, hb, .of_others (fun e he => ?_) b⟩
      rw [Binding.binding?_took he]
      simpa using Ne.symm hid
  | wrote data receivers hpass _ hevents hreach hsent =>
    obtain ⟨b', hb', hp⟩ := hpass id b hb
    refine ⟨b', hb', hp.met hevents (fun hr => hreach id b hb (of_decide_eq_true hr)) (fun ho => ?_)⟩
    rw [hsent id b hb ho]
    simp

/-- **A deed says nothing of a binding that is not there**, unless it opens it. -/
theorem Deed.unborn {bus : Bus} (h : d.Deed bus events) (hn : d.bus.bindings.get? id = none) :
    (bus.bindings.get? id = none ∧ ∀ e ∈ events, e.binding? ≠ some id) ∨
      (events = [.opened id] ∧ ∃ b, bus.bindings.get? id = some b ∧ b.isOpen = true ∧ b.stream = []) := by
  cases h with
  | nothing hbus => exact .inl ⟨hbus ▸ hn, fun e he => absurd he List.not_mem_nil⟩
  | @opened id' b' _ hbus ho hs =>
    by_cases hid : id = id'
    · subst hid
      exact .inr ⟨rfl, b', by rw [hbus, Table.get?_insert, if_pos rfl], ho, hs⟩
    · refine .inl ⟨by rw [hbus, Table.get?_insert, if_neg hid, hn], fun e he => ?_⟩
      rw [List.mem_singleton.1 he]
      simpa [Event.binding?] using Ne.symm hid
  | @closed id' b' hb' ho hbus =>
    have hid : id ≠ id' := Table.ne_of_get? hn hb'
    refine .inl ⟨by rw [hbus, Table.get?_insert, if_neg hid, hn], fun e he => ?_⟩
    rw [List.mem_singleton.1 he]
    simpa [Event.binding?] using Ne.symm hid
  | ended hbus => exact .inl ⟨by rw [hbus, Table.get?_mapValues, hn]; rfl, fun e he => absurd he List.not_mem_nil⟩
  | @took id' b₁ b₁' parts hb' ha hbus =>
    have hid : id ≠ id' := Table.ne_of_get? hn hb'
    refine .inl ⟨by rw [hbus, Table.get?_insert, if_neg hid, hn], fun e he => ?_⟩
    rw [Binding.binding?_took he]
    simpa using Ne.symm hid
  | wrote data receivers _ hnone hevents _ _ => exact .inl ⟨hnone id hn, fun e he => by simp [hevents e he]⟩

/-! ### Every act is a deed -/

theorem deed_openBinding (h : d.Good) (o : Options) :
    d.Deed (d.bus.openBinding o).1 (d.events (.openBinding o)) := by
  have hout := Bus.opened_openBinding d.bus o
  simp only [events]
  generalize d.bus.openBinding o = result at hout ⊢
  cases hout with
  | refused fault => exact .nothing rfl
  | opened hd hbuf ha =>
    obtain ⟨_, _, -, -, -, rfl, -, -⟩ := Registry.acquire_eq_ok ha
    exact .opened h.agrees.get?_opened_next rfl rfl rfl

theorem deed_close (id : BindingId) : d.Deed (d.bus.close id).1 (d.events (.close id)) := by
  simp only [events]
  rcases Bus.close_cases d.bus id with ⟨-, he⟩ | ⟨b, hb, ho, he⟩
  · rw [he]
    exact .nothing rfl
  · rw [he]
    exact .closed hb ho rfl

/-- The event of a write whose binding is there. -/
theorem events_write {n : Nat} (hb : d.bus.bindings.get? id = some b) {data : Bytes}
    (hok : (d.bus.write id data).2 = .ok n) : d.events (.write id data) = [.wrote b.toTerms data] := by
  simp only [events, hb, hok]

theorem deed_write (h : d.Good) (id : BindingId) (data : Bytes) :
    d.Deed (d.bus.write id data).1 (d.events (.write id data)) := by
  obtain ⟨receivers, hsome, hnone, hempty, herror, hok⟩ := Bus.write_passed d.bus id data
  cases hres : (d.bus.write id data).2 with
  | error fault =>
    obtain rfl := herror fault hres
    have he : d.events (.write id data) = [] := by simp [events, hres]
    rw [he]
    exact .wrote data [] hsome hnone (fun _ he => absurd he List.not_mem_nil)
      (fun _ _ _ hm => absurd hm List.not_mem_nil) (fun _ _ _ _ => rfl)
  | ok n =>
    by_cases hd : data = []
    · obtain rfl := hempty hd
      subst hd
      have he : ∀ e ∈ d.events (.write id []), ∃ writer, e = .wrote writer [] := fun e he => by
        simp only [events, hres] at he
        split at he
        · exact ⟨_, List.mem_singleton.1 he⟩
        · cases he
      refine .wrote [] [] hsome hnone (fun e hm => ?_) (fun _ _ _ hm => absurd hm List.not_mem_nil)
        (fun id' b _ _ => ?_)
      · obtain ⟨writer, rfl⟩ := he e hm
        rfl
      · refine List.flatMap_eq_nil_iff.2 (fun e hm => ?_)
        obtain ⟨writer, rfl⟩ := he e hm
        exact ite_self []
    · obtain ⟨w, hw, ho, hdown, hrec⟩ := hok n hres hd
      have hmem : ∀ id', id' ∈ receivers ↔ _ := fun id' => hrec ▸ h.agrees.mem_receivers_iff hdown hw ho id'
      rw [events_write hw hres]
      refine .wrote data receivers hsome hnone (fun e hm => ?_) (fun id' b hb hm => ?_) (fun id' b hb hbo => ?_)
      · rw [List.mem_singleton.1 hm]
        rfl
      · obtain ⟨-, b', hb', hbo, -⟩ := (hmem id').1 hm
        rw [hb] at hb'
        obtain rfl := Option.some.inj hb'
        exact (h.sound id' b hb).receives hbo hdown
      · have hto : id' ∈ receivers ↔ w.id ≠ id' ∧ w.topic = b.topic ∧ w.target = b.kind := by
          rw [hmem id', (h.agrees.issued id w hw).1]
          constructor
          · rintro ⟨hne, b', hb', -, ht, hk⟩
            rw [hb] at hb'
            obtain rfl := Option.some.inj hb'
            exact ⟨hne.symm, ht.symm, hk.symm⟩
          · rintro ⟨hne, ht, hk⟩
            exact ⟨hne.symm, b, hb, hbo, ht.symm, hk.symm⟩
        simp only [sentTo, List.flatMap_cons, List.flatMap_nil, List.append_nil, Event.sent, hto]

/-- An act on a binding that gives parts of its stream. -/
theorem deed_onBinding {α : Type} (id : BindingId) (absent : α) (f : Binding → Binding × α)
    (hnone : d.bus.bindings.get? id = none → events = [])
    (hsome : ∀ b, d.bus.bindings.get? id = some b → ∃ parts, events = parts.map (.took id) ∧
      b.Advance d.bus.config.chunkLimit d.bus.isShutDown parts (f b).1) :
    d.Deed (d.bus.onBinding id absent f).1 events := by
  unfold Bus.onBinding
  cases hb : d.bus.bindings.get? id with
  | none =>
    rw [hnone hb]
    exact .nothing rfl
  | some b =>
    obtain ⟨parts, rfl, ha⟩ := hsome b hb
    exact .took hb ha rfl

theorem deed_read (h : d.Good) (id : BindingId) (wanted : Nat) :
    d.Deed (d.bus.read id wanted).1 (d.events (.read id wanted)) := by
  refine deed_onBinding id _ _ (fun hb => ?_) (fun b hb => ⟨_, ?_, (Binding.read_advance (h.sound id b hb) wanted).1⟩)
  · simp only [events, Bus.read, Bus.onBinding, hb]
  · simp only [events, Bus.read, Bus.onBinding, hb]
    cases (b.read d.bus.config.chunkLimit wanted).2 <;> rfl

theorem deed_tryRead (h : d.Good) (id : BindingId) (wanted : Nat) :
    d.Deed (d.bus.tryRead id wanted).1 (d.events (.tryRead id wanted)) := by
  refine deed_onBinding id _ _ (fun hb => ?_) (fun b hb => ?_)
  · simp only [events, Bus.tryRead, Bus.onBinding, hb]
  · refine ⟨Binding.partsOf (b.read d.bus.config.chunkLimit wanted).2, ?_, ?_⟩
    · simp only [events, Bus.tryRead, Bus.onBinding, hb, Binding.tryRead]
      rcases b.read d.bus.config.chunkLimit wanted with ⟨b', (fault | phase) | data⟩ <;> rfl
    · rw [tryRead_fst]
      exact (Binding.read_advance (h.sound id b hb) wanted).1

theorem deed_readAll (h : d.Good) (id : BindingId) (wanted : Nat) :
    d.Deed (d.bus.readAll id wanted).1 (d.events (.readAll id wanted)) := by
  refine deed_onBinding id _ _ (fun hb => ?_) (fun b hb => ⟨_, ?_, (Binding.readAll_advance (h.sound id b hb) wanted).1⟩)
  · simp only [events, hb]
  · simp only [events, hb]

theorem deed_advance {polled : Option (ReadName × BindingId × Polled)}
    (hp : ∀ name id p, polled = some (name, id, p) → ∃ b, d.bus.bindings.get? id = some b ∧
      (∀ r, d.reads.get? name = some r → r.binding = id) ∧
        b.Poll d.bus.config.chunkLimit d.bus.isShutDown name p) :
    d.Deed (d.advance polled).bus (tookOf polled) := by
  cases polled with
  | none => exact .nothing rfl
  | some polled =>
    obtain ⟨name, id, p⟩ := polled
    obtain ⟨b, hb, -, hpoll⟩ := hp name id p rfl
    exact .took hb hpoll.advance rfl

theorem deed_cancel (h : d.Good) (name : ReadName) : d.Deed (d.cancel name).bus [] := by
  unfold cancel
  cases hr : d.reads.get? name with
  | none => exact .nothing rfl
  | some reader =>
    obtain ⟨-, b, hb, -⟩ := h.reads name reader hr
    simp only [Bus.onBinding, hb]
    have ha : b.Advance d.bus.config.chunkLimit d.bus.isShutDown [] (b.cancel name) :=
      (Binding.Advance.refl (h.sound _ b hb)).line _
    exact Deed.took hb ha rfl

/-- **Every act is a deed.** -/
theorem deed_apply (h : d.Good) (act : Act) : d.Deed (d.apply act).bus (d.events act) := by
  cases act with
  | create what => exact .nothing rfl
  | destroy object => exact .nothing rfl
  | shutdown => exact .ended rfl
  | openBinding options => exact deed_openBinding h options
  | close id => exact deed_close id
  | write id data => exact deed_write h id data
  | read id wanted => exact deed_read h id wanted
  | tryRead id wanted => exact deed_tryRead h id wanted
  | readAll id wanted => exact deed_readAll h id wanted
  | start name id wanted => exact deed_advance (fun _ _ _ hp => h.polled hp)
  | startAll name id wanted => exact deed_advance (fun _ _ _ hp => h.polled hp)
  | poll name => exact deed_advance (fun _ _ _ hp => h.polled hp)
  | cancel name => exact deed_cancel h name

/-! ### Which acts leave which events -/

theorem eq_took_of_mem_tookOf {polled : Option (ReadName × BindingId × Polled)} {e : Event} (h : e ∈ tookOf polled) :
    ∃ id part, e = .took id part := by
  cases polled with
  | none => cases h
  | some polled =>
    obtain ⟨part, -, rfl⟩ := List.mem_map.1 h
    exact ⟨_, part, rfl⟩

/-- **Each kind of event is left by the acts for it.** -/
theorem leaves_of_mem_events {act : Act} {e : Event} (h : e ∈ d.events act) : act.Leaves e := by
  cases act with
  | openBinding options =>
    simp only [events] at h
    split at h
    · rw [List.mem_singleton.1 h]
      exact .opened options _
    · cases h
  | close id =>
    simp only [events] at h
    split at h
    · rw [List.mem_singleton.1 h]
      exact .closed id
    · cases h
  | write id data =>
    simp only [events] at h
    split at h
    · rw [List.mem_singleton.1 h]
      exact .wrote id _ data
    · cases h
  | read _ _ | tryRead _ _ =>
    simp only [events] at h
    split at h
    · rw [List.mem_singleton.1 h]
      exact .took _ _ rfl
    · cases h
  | readAll _ _ =>
    simp only [events] at h
    split at h
    · obtain ⟨part, -, rfl⟩ := List.mem_map.1 h
      exact .took _ part rfl
    · cases h
  | start _ _ _ | startAll _ _ _ | poll _ =>
    obtain ⟨id, part, rfl⟩ := eq_took_of_mem_tookOf h
    exact .took id part rfl
  | create _ | destroy _ | shutdown | cancel _ => cases h

/-! ## Runs of acts -/

theorem exists_act_of_mem_history {e : Event} {acts : List Act} (he : e ∈ d.history acts) :
    ∃ act ∈ acts, ∃ d' : Desk, e ∈ d'.events act := by
  induction acts generalizing d with
  | nil => cases he
  | cons act acts ih =>
    rcases List.mem_append.1 he with he | he
    · exact ⟨act, List.mem_cons_self, d, he⟩
    · obtain ⟨act', ha, hd⟩ := ih he
      exact ⟨act', List.mem_cons_of_mem _ ha, hd⟩

/-- Acts that move no bytes are told of in openings and closings only. -/
theorem still_of_mem_history {acts : List Act} {e : Event} (hacts : ∀ act ∈ acts, act.moves = false)
    (he : e ∈ d.history acts) : ∃ id, e = .opened id ∨ e = .closed id := by
  obtain ⟨act, ha, d', hd'⟩ := exists_act_of_mem_history he
  have hstill := hacts act ha
  cases leaves_of_mem_events hd' with
  | opened options id => exact ⟨id, Or.inl rfl⟩
  | closed id => exact ⟨id, Or.inr rfl⟩
  | wrote id writer data => cases hstill
  | took id part hm => exact absurd (hm.symm.trans hstill) (by simp)

theorem takenFrom_of_still {acts : List Act} (hacts : ∀ act ∈ acts, act.moves = false) (id : BindingId) :
    takenFrom id (d.history acts) = [] := by
  refine List.flatMap_eq_nil_iff.2 (fun e he => ?_)
  obtain ⟨id', rfl | rfl⟩ := still_of_mem_history hacts he <;> rfl

theorem sentTo_of_still {acts : List Act} (hacts : ∀ act ∈ acts, act.moves = false) (id : BindingId) (topic : Topic)
    (kind : Kind) : sentTo id topic kind (d.history acts) = [] := by
  refine List.flatMap_eq_nil_iff.2 (fun e he => ?_)
  obtain ⟨id', rfl | rfl⟩ := still_of_mem_history hacts he <;> rfl

/-- A binding that was closed was closed by an act for it. -/
theorem close_mem_of_mem_history {acts : List Act} (h : .closed id ∈ d.history acts) : .close id ∈ acts := by
  obtain ⟨act, ha, d', hd'⟩ := exists_act_of_mem_history h
  cases leaves_of_mem_events hd'
  exact ha

/-- **A binding that was not there** is the one that an act has just opened. -/
theorem exists_fresh (h : d.Good) {act : Act} (hn : d.bus.bindings.get? id = none)
    (hb : (d.apply act).bus.bindings.get? id = some b) :
    ∃ o terms readBuffer writeBuffer, act = .openBinding o ∧ d.events act = [.opened id] ∧
      (d.bus.openBinding o).2 = .ok id ∧ d.bus.buffers o = .ok (readBuffer, writeBuffer) ∧
      b = .fresh terms readBuffer writeBuffer := by
  rcases (deed_apply h act).unborn hn with ⟨hn', -⟩ | ⟨hevents, -⟩
  · cases hn'.symm.trans hb
  · cases leaves_of_mem_events (hevents ▸ List.mem_singleton_self _ : Event.opened id ∈ d.events act) with
    | opened o =>
      have hout := Bus.opened_openBinding d.bus o
      have hopened : ∃ terms readBuffer writeBuffer, (d.bus.openBinding o).2 = .ok id ∧
          d.bus.buffers o = .ok (readBuffer, writeBuffer) ∧ b = .fresh terms readBuffer writeBuffer := by
        simp only [apply] at hb
        generalize d.bus.openBinding o = result at hout hb
        cases hout with
        | refused _ => cases hn.symm.trans hb
        | opened _ hbuffers _ =>
          rcases Table.of_get?_insert hb with ⟨rfl, rfl⟩ | ⟨-, hb'⟩
          · exact ⟨_, _, _, rfl, hbuffers, rfl⟩
          · cases hn.symm.trans hb'
      obtain ⟨terms, readBuffer, writeBuffer, hrest⟩ := hopened
      exact ⟨o, terms, readBuffer, writeBuffer, rfl, hevents, hrest⟩

/-- **The books of a binding are kept** by all acts in order. -/
theorem met_after (h : d.Good) (hb : d.bus.bindings.get? id = some b) (acts : List Act) :
    ∃ b', (d.after acts).bus.bindings.get? id = some b' ∧ b.Met id (d.history acts) b' := by
  induction acts generalizing d b with
  | nil => exact ⟨b, hb, .refl b⟩
  | cons act acts ih =>
    obtain ⟨b₁, hb₁, hm₁⟩ := (deed_apply h act).met hb
    obtain ⟨b₂, hb₂, hm₂⟩ := ih (good_apply h act) hb₁
    exact ⟨b₂, hb₂, hm₁.trans hm₂⟩

/-- **The history of a binding begins with its opening**, and its books are kept from then on. -/
theorem exists_opening (h : d.Good) (hn : d.bus.bindings.get? id = none) {acts : List Act}
    (hb : (d.after acts).bus.bindings.get? id = some b) :
    ∃ (pre post : List Event) (b₀ : Binding), d.history acts = pre ++ .opened id :: post ∧ (∀ e ∈ pre, e.binding? ≠ some id) ∧
      b₀.isOpen = true ∧ b₀.stream = [] ∧ b₀.Met id post b := by
  induction acts generalizing d with
  | nil =>
    rw [after_nil, hn] at hb
    cases hb
  | cons act acts ih =>
    rcases (deed_apply h act).unborn hn with ⟨hn₁, hothers⟩ | ⟨hevents, b₀, hb₀, ho, hs⟩
    · obtain ⟨pre, post, b₀, hhist, hpre, hrest⟩ := ih (good_apply h act) hn₁ hb
      refine ⟨d.events act ++ pre, post, b₀, ?_, fun e he => ?_, hrest⟩
      · rw [history, hhist, List.append_assoc]
      · exact (List.mem_append.1 he).elim (hothers e) (hpre e)
    · obtain ⟨b', hb', hm⟩ := met_after (good_apply h act) hb₀ acts
      rw [after_cons, hb'] at hb
      obtain rfl := Option.some.inj hb
      refine ⟨[], (d.apply act).history acts, b₀, ?_, fun e he => absurd he List.not_mem_nil, ho, hs, hm⟩
      rw [history, hevents]
      rfl

/-- Acts that open nothing leave open only what was open before. -/
theorem isOpen_after (h : d.Good) {acts : List Act} (hacts : ∀ act ∈ acts, ∀ o, act ≠ .openBinding o)
    (hb : (d.after acts).bus.bindings.get? id = some b) (ho : b.isOpen = true) :
    ∃ b₀, d.bus.bindings.get? id = some b₀ ∧ b₀.isOpen = true := by
  cases hb₀ : d.bus.bindings.get? id with
  | none =>
    obtain ⟨pre, post, -, hhist, -⟩ := exists_opening h hb₀ hb
    have hmem : .opened id ∈ d.history acts := hhist ▸ List.mem_append_right _ List.mem_cons_self
    obtain ⟨act, ha, d', hd'⟩ := exists_act_of_mem_history hmem
    cases leaves_of_mem_events hd' with
    | opened options => exact absurd rfl (hacts _ ha options)
  | some b₀ =>
    obtain ⟨b₁, hb₁, hm⟩ := met_after h hb₀ acts
    obtain rfl := Option.some.inj (hb.symm.trans hb₁)
    exact ⟨b₀, rfl, hm.wasOpen ho⟩

end Desk

/-! ## The acts of a session -/

namespace Session

variable {s : Session} {act : Act} {name : ReadName}

/-! ### Letting go moves no bytes -/

theorem still_of_settling (h : act ∈ s.settling id) : act.moves = false := by
  rw [of_mem_settling h]
  rfl

theorem still_of_settling? {x : Option BindingId} (h : act ∈ s.settling? x) : act.moves = false := by
  obtain ⟨id, rfl⟩ := of_mem_settling? h
  rfl

theorem still_of_keeping {polled : Polled} (h : act ∈ s.keeping name id polled) : act.moves = false := by
  rw [of_mem_keeping h]
  rfl

theorem still_of_cancelling (h : act ∈ s.cancelling name) : act.moves = false := by
  rcases of_mem_cancelling h with rfl | ⟨id, rfl⟩ <;> rfl

/-- The terms of a binding are the same ever after. -/
theorem terms_run (h : s.desk.Good) {ops : List Op} {b b' : Binding} (hb : s.bus.bindings.get? id = some b)
    (hb' : (s.run ops).bus.bindings.get? id = some b') : b'.toTerms = b.toTerms := by
  obtain ⟨b'', hb'', hmet⟩ := Desk.met_after h hb (s.trail ops)
  rw [← desk_run] at hb''
  obtain rfl := Option.some.inj (hb'.symm.trans hb'')
  exact hmet.terms

end Session
end TopicBus
