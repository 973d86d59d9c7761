import TopicBus.Proofs.Keys
import TopicBus.Proofs.Line
import TopicBus.Proofs.Writes
/-!
# Noninterference

Writes that are not for a binding make no difference to it.  Two buses are twins with respect to a topic and a kind
(`Bus.Twin`) if they have the same registry and the same bindings open, and if the readers of the users of that kind on
that topic are the same; buffers and counts of writes, inboxes of others and figures of routes may differ.  A write to
others leaves a twin (`Bus.twin_of_elsewhere`), and the same operation on twins leaves twins and is answered alike
(`Session.Twin.step`).  So a run may be compared with the same run without such writes, operation by operation
(`twin_take`).
-/
namespace TopicBus

/-! ## Twins -/

section Twins

variable {t : Topic} {k : Kind}

namespace Binding

/-- The bindings may differ in their writes, and in their reads unless they are on the topic with a user of the kind. -/
structure Alike (t : Topic) (k : Kind) (b b' : Binding) : Prop where
  terms : b'.toTerms = b.toTerms
  isOpen : b'.isOpen = b.isOpen
  reader : b.topic = t → b.kind = k → b'.reader = b.reader

/-- What a binding tells of its reads: bytes and chunks read, and the room of its read buffer. -/
def readings (b : Binding) : Nat × Nat × Nat := (b.traffic.bytesRead, b.traffic.chunksRead, b.readCapacity)

theorem readings_reader (b : Binding) : b.reader.readings = b.readings := rfl

variable {b b' b'' : Binding}

theorem Alike.refl (b : Binding) : Alike t k b b := ⟨rfl, rfl, fun _ _ => rfl⟩

theorem Alike.symm (h : Alike t k b b') : Alike t k b' b :=
  ⟨h.terms.symm, h.isOpen.symm, fun ht hk =>
    (h.reader ((congrArg Terms.topic h.terms).symm.trans ht) ((congrArg Terms.kind h.terms).symm.trans hk)).symm⟩

theorem Alike.trans (h : Alike t k b b') (h' : Alike t k b' b'') : Alike t k b b'' :=
  ⟨h'.terms.trans h.terms, h'.isOpen.trans h.isOpen, fun ht hk =>
    (h'.reader ((congrArg Terms.topic h.terms).trans ht) ((congrArg Terms.kind h.terms).trans hk)).trans
      (h.reader ht hk)⟩

theorem Alike.shut (h : Alike t k b b') : Alike t k b.shut b'.shut := by
  refine ⟨?_, ?_, fun ht hk => ?_⟩
  · rw [shut_toTerms, shut_toTerms, h.terms]
  · rw [shut_isOpen, shut_isOpen]
  · rw [shut_toTerms] at ht hk
    rw [← shut_reader b', h.reader ht hk, shut_reader]

theorem Alike.disconnect (h : Alike t k b b') : Alike t k b.disconnect b'.disconnect :=
  ⟨h.terms, h.isOpen, fun ht hk => congrArg Binding.disconnect (h.reader ht hk)⟩

theorem Alike.tryRead {limit : Option Nat} {down : Bool} (h : Alike t k b b') (hs : b.Sound limit down)
    (hs' : b'.Sound limit down) (wanted : Nat) :
    Alike t k (b.tryRead limit wanted).1 (b'.tryRead limit wanted).1 := by
  obtain ⟨ha, -⟩ := read_advance hs wanted
  obtain ⟨ha', -⟩ := read_advance hs' wanted
  rw [← Desk.tryRead_fst] at ha ha'
  refine ⟨?_, ?_, fun ht hk => ?_⟩
  · rw [ha.terms, ha'.terms, h.terms]
  · rw [ha.isOpen, ha'.isOpen, h.isOpen]
  · rw [ha.terms] at ht hk
    exact ((ofReader_tryRead limit wanted).congr (h.reader ht hk)).1

end Binding

namespace Bus

/-- The buses differ in nothing that users of the kind on the topic can find out by reading. -/
structure Twin (t : Topic) (k : Kind) (bus bus' : Bus) : Prop where
  config : bus'.config = bus.config
  registry : bus'.registry = bus.registry
  isShutDown : bus'.isShutDown = bus.isShutDown
  bindings : Table.Paired (Binding.Alike t k) bus.bindings bus'.bindings

variable {bus bus' bus'' : Bus}

theorem Twin.refl (bus : Bus) : Twin t k bus bus := ⟨rfl, rfl, rfl, .refl .refl _⟩

theorem Twin.symm (h : Twin t k bus bus') : Twin t k bus' bus :=
  ⟨h.config.symm, h.registry.symm, h.isShutDown.symm, h.bindings.symm (fun _ _ => .symm)⟩

theorem Twin.trans (h : Twin t k bus bus') (h' : Twin t k bus' bus'') : Twin t k bus bus'' :=
  ⟨h'.config.trans h.config, h'.registry.trans h.registry, h'.isShutDown.trans h.isShutDown,
    h.bindings.trans (fun _ _ _ => .trans) h'.bindings⟩

/-! ### Calls that move no bytes -/

theorem Twin.create (h : Twin t k bus bus') (what : NewObject) :
    Twin t k (bus.create what).1 (bus'.create what).1 ∧ (bus'.create what).2 = (bus.create what).2 := by
  simp only [Bus.create, h.registry]
  exact ⟨⟨h.config, rfl, h.isShutDown, h.bindings⟩, trivial⟩

theorem Twin.destroy (h : Twin t k bus bus') (object : Object) :
    Twin t k (bus.destroy object).1 (bus'.destroy object).1 ∧ (bus'.destroy object).2 = (bus.destroy object).2 := by
  simp only [Bus.destroy, h.registry]
  exact ⟨⟨h.config, rfl, h.isShutDown, h.bindings⟩, trivial⟩

/-- Twins open the same binding, or refuse to for the same reason. -/
theorem Twin.openBinding (h : Twin t k bus bus') (o : Options) :
    Twin t k (bus.openBinding o).1 (bus'.openBinding o).1 ∧ (bus'.openBinding o).2 = (bus.openBinding o).2 ∧
      ∀ id, (bus.openBinding o).2 = .ok id →
        (bus'.openBinding o).1.bindings.get? id = (bus.openBinding o).1.bindings.get? id := by
  have hbuffers : bus'.buffers o = bus.buffers o := by simp only [buffers, h.config]
  simp only [Bus.openBinding, h.isShutDown, hbuffers, h.registry]
  split
  · exact ⟨h, rfl, fun _ hid => by cases hid⟩
  split
  · exact ⟨h, rfl, fun _ hid => by cases hid⟩
  split
  · exact ⟨h, rfl, fun _ hid => by cases hid⟩
  · refine ⟨⟨h.config, rfl, rfl, h.bindings.insert _ (.refl _)⟩, rfl, fun id hid => ?_⟩
    cases hid
    rw [Table.get?_insert_self, Table.get?_insert_self]

theorem Twin.close (h : Twin t k bus bus') (id : BindingId) :
    Twin t k (bus.close id).1 (bus'.close id).1 ∧ (bus'.close id).2 = (bus.close id).2 := by
  unfold Bus.close
  rcases h.bindings id with ⟨hn, hn'⟩ | ⟨b, b', hb, hb', ha⟩
  · simp only [hn, hn']
    exact ⟨h, trivial⟩
  · have huser : b'.user = b.user := congrArg Terms.user ha.terms
    have htopic : b'.topic = b.topic := congrArg Terms.topic ha.terms
    simp only [hb, hb', ha.isOpen, huser, htopic]
    split
    · exact ⟨⟨h.config, by rw [h.registry], h.isShutDown, h.bindings.insert id ha.shut⟩, rfl⟩
    · exact ⟨h, rfl⟩

theorem Twin.shutdown (h : Twin t k bus bus') : Twin t k bus.shutdown bus'.shutdown :=
  ⟨h.config, h.registry, rfl, h.bindings.mapValues (fun _ _ _ => .disconnect)⟩

/-! ### Immediate reads -/

/-- What every binding of the bus is between calls. -/
def Rests (bus : Bus) : Prop :=
  ∀ id b, bus.bindings.get? id = some b → b.Sound bus.config.chunkLimit bus.isShutDown

theorem Twin.tryRead (h : Twin t k bus bus') (hs : bus.Rests) (hs' : bus'.Rests) (id : BindingId) (wanted : Nat) :
    Twin t k (bus.tryRead id wanted).1 (bus'.tryRead id wanted).1 ∧
      ((∀ b, bus.bindings.get? id = some b → b.topic = t ∧ b.kind = k) →
        (bus'.tryRead id wanted).2 = (bus.tryRead id wanted).2) := by
  unfold Bus.tryRead Bus.onBinding
  rcases h.bindings id with ⟨hn, hn'⟩ | ⟨b, b', hb, hb', ha⟩
  · simp only [hn, hn']
    exact ⟨h, fun _ => trivial⟩
  · have hsound := hs id b hb
    have hsound' : b'.Sound bus.config.chunkLimit bus.isShutDown := by
      rw [← h.config, ← h.isShutDown]
      exact hs' id b' hb'
    simp only [hb, hb', h.config]
    refine ⟨⟨h.config, h.registry, h.isShutDown, h.bindings.insert id (ha.tryRead hsound hsound' wanted)⟩, fun hread => ?_⟩
    obtain ⟨ht, hk⟩ := hread b rfl
    exact ((Binding.ofReader_tryRead bus.config.chunkLimit wanted).congr (ha.reader ht hk)).2

/-! ### Writes -/

theorem Twin.mem_audience (h : Twin t k bus bus') {w : Terms} {id : BindingId} (hm : id ∈ bus.audience w) :
    id ∈ bus'.audience w := by
  obtain ⟨hne, b, hb, ho, ht, hk⟩ := Bus.mem_audience.1 hm
  rcases h.bindings id with ⟨hn, -⟩ | ⟨b₁, b', hb₁, hb', ha⟩
  · rw [hb] at hn
    cases hn
  · obtain rfl := Option.some.inj (hb.symm.trans hb₁)
    refine Bus.mem_audience.2 ⟨hne, b', hb', ha.isOpen.trans ho, ?_, ?_⟩
    · rw [ha.terms, ht]
    · rw [ha.terms, h.registry, hk]

theorem Twin.mem_audience_iff (h : Twin t k bus bus') {w : Terms} {id : BindingId} :
    id ∈ bus'.audience w ↔ id ∈ bus.audience w :=
  ⟨h.symm.mem_audience, h.mem_audience⟩

theorem Twin.answerTo (h : Twin t k bus bus') {w w' : Binding} (ha : w.Alike t k w') (data : Bytes) :
    bus'.answerTo w' data = bus.answerTo w data := by
  have hlen : (bus'.audience w.toTerms).length = (bus.audience w.toTerms).length :=
    ((List.perm_ext_iff_of_nodup (Table.distinct _) (Table.distinct _)).2 (fun _ => h.mem_audience_iff)).length_eq
  unfold Bus.answerTo reaches
  rw [ha.isOpen, ha.terms, h.config, h.isShutDown, hlen]

theorem Twin.write_answer (h : Twin t k bus bus') (hg : bus.Agrees) (hg' : bus'.Agrees) (hs : bus.Rests)
    (hs' : bus'.Rests) (id : BindingId) (data : Bytes) : (bus'.write id data).2 = (bus.write id data).2 := by
  rcases h.bindings id with ⟨hn, hn'⟩ | ⟨w, w', hw, hw', ha⟩
  · simp only [Bus.write, hn, hn']
  · rw [hg.write_answer (hs id w hw) hw, hg'.write_answer (hs' id w' hw') hw', h.answerTo ha]

/-- A write of the same binding has the same recipients. -/
theorem Twin.mem_recipients_iff (h : Twin t k bus bus') {id id' : BindingId} {data : Bytes}
    (hanswer : (bus'.write id data).2 = (bus.write id data).2) :
    id' ∈ bus'.recipients id data ↔ id' ∈ bus.recipients id data := by
  rw [mem_recipients, mem_recipients, hanswer]
  refine and_congr_right (fun _ => and_congr_right (fun _ => ?_))
  rcases h.bindings id with ⟨hn, hn'⟩ | ⟨w, w', hw, hw', ha⟩
  · simp [hn, hn']
  · simp only [hw, hw', Option.some.injEq, exists_eq_left', ha.terms, h.mem_audience_iff]

theorem get?_write_of_none {bus : Bus} {id id' : BindingId} {data : Bytes} (hn : bus.bindings.get? id' = none) :
    (bus.write id data).1.bindings.get? id' = none := by
  obtain ⟨_, -, hnone, -⟩ := write_passed bus id data
  exact hnone id' hn

theorem Twin.write (h : Twin t k bus bus') (hg : bus.Agrees) (hg' : bus'.Agrees) (hs : bus.Rests) (hs' : bus'.Rests)
    (id : BindingId) (data : Bytes) : Twin t k (bus.write id data).1 (bus'.write id data).1 := by
  have hanswer := h.write_answer hg hg' hs hs' id data
  obtain ⟨hc, hd⟩ := frame_write bus id data
  obtain ⟨hc', hd'⟩ := frame_write bus' id data
  refine ⟨?_, ?_, ?_, fun id' => ?_⟩
  · rw [hc, hc', h.config]
  · rw [Desk.registry_write, Desk.registry_write, h.registry]
  · rw [hd, hd', h.isShutDown]
  rcases h.bindings id' with ⟨hn, hn'⟩ | ⟨b, b', hb, hb', ha⟩
  · exact Or.inl ⟨get?_write_of_none hn, get?_write_of_none hn'⟩
  · obtain ⟨b₁, hb₁, hterms, hopen, hreader⟩ := hg.reader_write id data hb
    obtain ⟨b₁', hb₁', hterms', hopen', hreader'⟩ := hg'.reader_write id data hb'
    refine Or.inr ⟨b₁, b₁', hb₁, hb₁', ?_, ?_, fun ht hk => ?_⟩
    · rw [hterms, hterms', ha.terms]
    · rw [hopen, hopen', ha.isOpen]
    · rw [hterms] at ht hk
      rw [hreader, hreader', ha.reader ht hk]
      simp only [h.mem_recipients_iff hanswer]

/-- **A write to others leaves a twin.** -/
theorem twin_of_elsewhere (hg : bus.Agrees) {id : BindingId} {w : Binding} (hw : bus.bindings.get? id = some w)
    (helse : w.topic ≠ t ∨ w.target ≠ k) (data : Bytes) : Twin t k bus (bus.write id data).1 := by
  obtain ⟨hc, hd⟩ := frame_write bus id data
  refine ⟨hc, Desk.registry_write _ _ _, hd, fun id' => ?_⟩
  cases hb : bus.bindings.get? id' with
  | none => exact Or.inl ⟨rfl, get?_write_of_none hb⟩
  | some b =>
    obtain ⟨b', hb', hterms, hopen, hreader⟩ := hg.reader_write id data hb
    refine Or.inr ⟨b, b', rfl, hb', hterms, hopen, fun ht hk => ?_⟩
    rw [hreader, if_neg (fun hm => ?_)]
    -- a recipient is on the topic of the writer, with a user of the kind that it writes to
    obtain ⟨-, -, w', hw', haud⟩ := mem_recipients.1 hm
    obtain rfl := Option.some.inj (hw.symm.trans hw')
    obtain ⟨-, b₁, hb₁, ho, htopic, hkind⟩ := mem_audience.1 haud
    obtain rfl := Option.some.inj (hb.symm.trans hb₁)
    rw [hg.kindOf_eq hb ho, Except.ok.injEq] at hkind
    rcases helse with htop | htarget
    · exact htop (htopic.symm.trans ht)
    · exact htarget (hkind.symm.trans hk)

end Bus

/-! ## Sessions of twins -/

/-- The operations of a program in which nothing waits: to create and to destroy, to open, share, drop and close, to
write, to read at once, and to shut down. -/
def Op.isPlain : Op → Bool
  | .create _ | .createTagged _ | .destroy _ | .destroyTagged _ | .openBinding _ _ | .share _ _ | .drop _ | .shutdown
  | .onBinding _ (.write _) | .onBinding _ (.writeTagged _) | .onBinding _ (.tryRead _) | .onBinding _ .close => true
  | _ => false

namespace Session

/-- The sessions hold the same bindings, by the same names, on buses that are twins. -/
def Twin (t : Topic) (k : Kind) (s s' : Session) : Prop := ∃ bus', s' = { s with bus := bus' } ∧ s.bus.Twin t k bus'

variable {s s' : Session}

theorem Twin.refl (s : Session) : Twin t k s s := ⟨s.bus, rfl, .refl _⟩

theorem Twin.settle (h : s.Twin t k s') (id : BindingId) : (s.settle id).Twin t k (s'.settle id) := by
  obtain ⟨bus', rfl, hbus⟩ := h
  have hheld : { s with bus := bus' }.isHeld id = s.isHeld id := rfl
  unfold Session.settle
  rw [hheld]
  split
  · exact ⟨bus', rfl, hbus⟩
  · exact ⟨(bus'.close id).1, rfl, (hbus.close id).1⟩

theorem Twin.settle? (h : s.Twin t k s') (x : Option BindingId) : (s.settle? x).Twin t k (s'.settle? x) := by
  cases x with
  | none => exact h
  | some id => exact h.settle id

theorem Twin.hold (h : s.Twin t k s') (name : String) (id : BindingId) : (s.hold name id).Twin t k (s'.hold name id) := by
  obtain ⟨bus', rfl, hbus⟩ := h
  exact Twin.settle? (s := { s with names := s.names.insert name id }) ⟨bus', rfl, hbus⟩ _

theorem Twin.drop (h : s.Twin t k s') (name : String) : (s.drop name).Twin t k (s'.drop name) := by
  obtain ⟨bus', rfl, hbus⟩ := h
  exact Twin.settle? (s := { s with names := s.names.erase name }) ⟨bus', rfl, hbus⟩ _

/-- Whether an immediate read is one of those that twins answer alike: on the topic, for a user of the kind. -/
def ReadsThere (s : Session) (t : Topic) (k : Kind) (op : Op) : Prop :=
  ∀ name wanted id b, op = .onBinding name (.tryRead wanted) → s.names.get? name = some id →
    s.bus.bindings.get? id = some b → b.topic = t ∧ b.kind = k

theorem Twin.stepBinding (h : s.Twin t k s') (hs : s.desk.Good) (hs' : s'.desk.Good) {name : String} {op : BindingOp}
    (hop : (Op.onBinding name op).isPlain = true) {id : BindingId} (hid : s.names.get? name = some id) :
    (s.stepBinding id op).1.Twin t k (s'.stepBinding id op).1 ∧
      (s.ReadsThere t k (.onBinding name op) → (s'.stepBinding id op).2 = (s.stepBinding id op).2) := by
  obtain ⟨bus', rfl, hbus⟩ := h
  have hwrite : ∀ data, (s.bus.write id data).1.Twin t k (bus'.write id data).1 :=
    hbus.write hs.agrees hs'.agrees hs.sound hs'.sound id
  have hanswer : ∀ data, (bus'.write id data).2 = (s.bus.write id data).2 :=
    hbus.write_answer hs.agrees hs'.agrees hs.sound hs'.sound id
  cases op with
  | write data =>
    exact ⟨⟨_, rfl, hwrite data⟩, fun _ => congrArg (Answer.ofExcept Answer.count) (hanswer data)⟩
  | writeTagged data =>
    exact ⟨⟨_, rfl, hwrite data⟩, fun _ => congrArg (fun r => Answer.transfer (.ofExcept r data.length)) (hanswer data)⟩
  | tryRead wanted =>
    obtain ⟨htwin, hanswer⟩ := hbus.tryRead hs.sound hs'.sound id wanted
    exact ⟨⟨_, rfl, htwin⟩, fun hread =>
      congrArg (Answer.ofExcept Answer.perhaps) (hanswer (fun b hb => hread name wanted id b rfl hid hb))⟩
  | close =>
    obtain ⟨htwin, hanswer⟩ := hbus.close id
    exact ⟨⟨_, rfl, htwin⟩, fun _ => congrArg (Answer.ofExcept (fun _ => Answer.done)) hanswer⟩
  | _ => cases hop

/-- **The same operation leaves twins of twins**, and is answered alike, unless it reads elsewhere. -/
theorem Twin.step (h : s.Twin t k s') (hs : s.desk.Good) (hs' : s'.desk.Good) {op : Op} (hop : op.isPlain = true) :
    (s.step op).1.Twin t k (s'.step op).1 ∧ (s.ReadsThere t k op → (s'.step op).2 = (s.step op).2) := by
  have hnames : s'.names = s.names := by
    obtain ⟨bus', rfl, -⟩ := h
    rfl
  have hbus : s.bus.Twin t k s'.bus := by
    obtain ⟨bus', rfl, hbus⟩ := h
    exact hbus
  have hwith : ∀ {bus bus' : Bus}, bus.Twin t k bus' → { s with bus }.Twin t k { s' with bus := bus' } := by
    obtain ⟨bus', rfl, -⟩ := h
    exact fun hbus => ⟨_, rfl, hbus⟩
  cases op with
  | create what | createTagged what =>
    obtain ⟨htwin, hanswer⟩ := hbus.create what
    refine ⟨hwith htwin, fun _ => ?_⟩
    simp only [Session.step, hanswer]
  | destroy object | destroyTagged object =>
    obtain ⟨htwin, hanswer⟩ := hbus.destroy object
    refine ⟨hwith htwin, fun _ => ?_⟩
    simp only [Session.step, hanswer]
  | openBinding name options =>
    obtain ⟨htwin, hanswer, hget⟩ := hbus.openBinding options
    simp only [Session.step]
    rcases ho : s.bus.openBinding options with ⟨bus, fault | id⟩ <;>
      rcases ho' : s'.bus.openBinding options with ⟨bus', fault' | id'⟩ <;>
      rw [ho, ho'] at htwin hanswer hget <;> cases hanswer
    · exact ⟨hwith htwin, fun _ => rfl⟩
    · refine ⟨(hwith htwin).hold name id, fun _ => ?_⟩
      simp only [hget id rfl]
  | shutdown => exact ⟨hwith hbus.shutdown, fun _ => rfl⟩
  | onBinding name op =>
    simp only [Session.step, named, hnames]
    cases hid : s.names.get? name with
    | none => exact ⟨h, fun _ => rfl⟩
    | some id => exact h.stepBinding hs hs' hop hid
  | share name other =>
    simp only [Session.step, named, hnames]
    cases s.names.get? name with
    | none => exact ⟨h, fun _ => rfl⟩
    | some id => exact ⟨h.hold other id, fun _ => rfl⟩
  | drop name =>
    simp only [Session.step, named, hnames]
    cases s.names.get? name with
    | none => exact ⟨h, fun _ => rfl⟩
    | some id => exact ⟨h.drop name, fun _ => rfl⟩
  | _ => cases hop

/-! ## Runs with and without writes to others -/

/-- Whether the operation is a write of a binding on another topic, or to another kind. -/
def WritesElsewhere (s : Session) (t : Topic) (k : Kind) (op : Op) : Prop :=
  ∃ name data id w, (op = .onBinding name (.write data) ∨ op = .onBinding name (.writeTagged data)) ∧
    s.names.get? name = some id ∧ s.bus.bindings.get? id = some w ∧ (w.topic ≠ t ∨ w.target ≠ k)

theorem Twin.of_elsewhere (h : s.Twin t k s') (hs : s.desk.Good) {op : Op} (hop : s.WritesElsewhere t k op) :
    (s.step op).1.Twin t k s' := by
  obtain ⟨bus', rfl, hbus⟩ := h
  obtain ⟨name, data, id, w, hw, hid, hb, helse⟩ := hop
  have hstep : (s.step op).1 = { s with bus := (s.bus.write id data).1 } := by
    rcases hw with rfl | rfl <;> simp only [Session.step, named, hid] <;> rfl
  rw [hstep]
  exact ⟨bus', rfl, (Bus.twin_of_elsewhere hs.agrees hb helse data).symm.trans hbus⟩

/-- The operations of a script that are kept. -/
def kept (script : List (Op × Bool)) : List Op := (script.filter Prod.snd).map Prod.fst

/-- **Every state of a run has a twin** in the run that leaves out writes to others. -/
theorem twin_take (config : Config) {script : List (Op × Bool)} (hplain : ∀ e ∈ script, e.1.isPlain = true)
    (hstruck : ∀ i op, script[i]? = some (op, false) →
      ((new config).run ((script.take i).map Prod.fst)).WritesElsewhere t k op) (i : Nat) :
    ((new config).run ((script.take i).map Prod.fst)).Twin t k ((new config).run (kept (script.take i))) := by
  induction i with
  | zero => exact .refl _
  | succ i ih =>
    cases he : script[i]? with
    | none =>
      rw [List.take_add_one, he, Option.toList_none, List.append_nil]
      exact ih
    | some e =>
      obtain ⟨op, keep⟩ := e
      rw [List.take_add_one, he, Option.toList_some, List.map_append, run_append]
      cases keep with
      | false => -- the full run takes this step alone
        rw [kept, List.filter_append, show [(op, false)].filter Prod.snd = [] from rfl, List.append_nil]
        exact ih.of_elsewhere (good_run config _) (hstruck i op he)
      | true =>
        rw [kept, List.filter_append, List.map_append, run_append]
        exact (ih.step (good_run config _) (good_run config _) (hplain _ (List.mem_of_getElem? he))).1

/-- **Noninterference.**  From a run of operations that do not wait, leave out any writes of bindings on another topic than
that of `b`, or to another kind than that of its user.  Then `b` tells the same of its reads after each operation, and
every operation that is left is answered the same, unless it reads from another binding. -/
theorem noninterference (config : Config) {script : List (Op × Bool)} (hplain : ∀ e ∈ script, e.1.isPlain = true)
    {id : BindingId} {b : Binding} (hb : ((new config).run (script.map Prod.fst)).bus.bindings.get? id = some b)
    (hstruck : ∀ i op, script[i]? = some (op, false) →
      ((new config).run ((script.take i).map Prod.fst)).WritesElsewhere b.topic b.kind op) (i : Nat) :
    let s := (new config).run ((script.take i).map Prod.fst)
    let s' := (new config).run (kept (script.take i))
    (s'.bus.bindings.get? id).map Binding.readings = (s.bus.bindings.get? id).map Binding.readings ∧
    ∀ op, script[i]? = some (op, true) →
      (∀ name wanted, op = .onBinding name (.tryRead wanted) → s.names.get? name = some id) →
        (s'.step op).2 = (s.step op).2 := by
  intro s s'
  have htwin : s.Twin b.topic b.kind s' := twin_take config hplain hstruck i
  have hrest : (new config).run (script.map Prod.fst) = s.run ((script.drop i).map Prod.fst) := by
    rw [← run_append, ← List.map_append, List.take_append_drop]
  have hthere : ∀ b₀, s.bus.bindings.get? id = some b₀ → b₀.topic = b.topic ∧ b₀.kind = b.kind := fun b₀ hb₀ => by
    have hterms : b.toTerms = b₀.toTerms := terms_run (good_run config _) hb₀ (hrest ▸ hb)
    exact ⟨congrArg Terms.topic hterms.symm, congrArg Terms.kind hterms.symm⟩
  refine ⟨?_, fun op hop hread => ?_⟩
  · obtain ⟨bus', hs', hbus⟩ := htwin
    rw [show s'.bus = bus' by rw [hs']]
    rcases hbus.bindings id with ⟨hn, hn'⟩ | ⟨b₀, b₀', hb₀, hb₀', ha⟩
    · rw [hn, hn']
    · obtain ⟨ht, hk⟩ := hthere b₀ hb₀
      rw [hb₀, hb₀', Option.map_some, Option.map_some, ← b₀'.readings_reader, ha.reader ht hk, b₀.readings_reader]
  · refine (htwin.step (good_run config _) (good_run config _) (hplain _ (List.mem_of_getElem? hop))).2 ?_
    intro name wanted id' b₀ he hid hb₀
    obtain rfl : id' = id := Option.some.inj (hid.symm.trans (hread name wanted he))
    exact hthere b₀ hb₀

/-- Three bindings on a topic: `b` writes to `a`, and `c` writes aside, to a kind without users. -/
def aside : List (Op × Bool) :=
  [(.create .kind, true), (.create .kind, true), (.create (.user ⟨1⟩), true), (.create (.user ⟨1⟩), true),
    (.create .topic, true), (.openBinding "a" { user := ⟨3⟩, topic := ⟨5⟩, target := ⟨1⟩ }, true),
    (.openBinding "b" { user := ⟨4⟩, topic := ⟨5⟩, target := ⟨1⟩ }, true),
    (.openBinding "c" { user := ⟨4⟩, topic := ⟨5⟩, target := ⟨2⟩ }, true),
    (.onBinding "c" (.write [9]), false), (.onBinding "b" (.write [1, 2, 3]), true),
    (.onBinding "a" (.tryRead 2), true)]

/-- Without what `c` writes, `a` still reads what `b` wrote. -/
theorem noninterference_aside :
    (((new {}).run (kept (aside.take 10))).step (.onBinding "a" (.tryRead 2))).2 = .perhaps (some [1, 2]) := by
  have hplain : ∀ e ∈ aside, e.1.isPlain = true := by decide
  have ha : ((new {}).run (aside.map Prod.fst)).bus.bindings.get? ⟨6⟩ = some _ := rfl
  have hstruck : ∀ i op, aside[i]? = some (op, false) →
      ((new {}).run ((aside.take i).map Prod.fst)).WritesElsewhere ⟨5⟩ ⟨1⟩ op := by
    intro i op hi
    obtain rfl : i = 8 := by
      by_contra hne
      have hlt : i < aside.length := (List.getElem?_eq_some_iff.1 hi).1
      have hkept : ∀ j < aside.length, j ≠ 8 → (aside[j]?.map Prod.snd) = some true := by decide
      have hflag := hkept i hlt hne
      rw [hi] at hflag
      cases hflag
    cases hi
    exact ⟨"c", [9], ⟨8⟩, _, Or.inl rfl, rfl, rfl, Or.inr nofun⟩
  obtain ⟨-, hanswers⟩ := noninterference {} hplain ha hstruck 10
  exact hanswers (.onBinding "a" (.tryRead 2)) rfl (fun name wanted he => by cases he; rfl)

end Session

end Twins
end TopicBus
