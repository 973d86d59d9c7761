import TopicBus.Proofs.Acts
/-!
# What a step consists of

Whatever the state, the acts of a step are calls that the operation stands for (`Op.Entails`), and beside them only the
closing of bindings that nobody holds any more (`Session.of_mem_acts`).  So what is to be shown of every act of a step is
shown of closing and of a few calls.
-/
namespace TopicBus

/-- The call that an operation on the binding `id` makes, unless it is a question. -/
def BindingOp.act? (id : BindingId) : BindingOp → Option Act
  | .read wanted | .readTagged wanted => some (.read id wanted)
  | .readAll wanted => some (.readAll id wanted)
  | .tryRead wanted => some (.tryRead id wanted)
  | .write data | .writeTagged data => some (.write id data)
  | .close => some (.close id)
  | .flush | .isOpen | .info | .traffic | .readCapacity | .writeCapacity => none

/-- The suspended read that an operation on the binding `id` is begun as if it has to wait. -/
def BindingOp.begin? (call : ReadName) (id : BindingId) : BindingOp → Option Act
  | .read wanted | .readTagged wanted => some (.start call id wanted)
  | .readAll wanted => some (.startAll call id wanted)
  | _ => none

/-- The call of the bus that an operation on the binding `id` may be carried out by. -/
inductive BindingOp.Makes (call : ReadName) (id : BindingId) (op : BindingOp) (act : Act) : Prop
  | once : op.act? id = some act → Makes call id op act
  | waiting : op.begin? call id = some act → Makes call id op act

/-- What a transport asks of the binding in its slot. -/
def TransportOp.passes? : TransportOp → Option BindingOp
  | .read wanted | .ioRead wanted => some (.read wanted)
  | .readAll wanted | .ioReadExact wanted => some (.readAll wanted)
  | .write data | .ioWrite data => some (.write data)
  | .openBinding | .closeBinding | .isOpen | .options | .flush | .ioFlush => none

/-- The calls of the bus that an operation may be carried out by, where a read that has to wait gets the name `call`. -/
inductive Op.Entails (call : ReadName) : Op → Act → Prop
  | create (what : NewObject) : Entails call (.create what) (.create what)
  | createTagged (what : NewObject) : Entails call (.createTagged what) (.create what)
  | destroy (object : Object) : Entails call (.destroy object) (.destroy object)
  | destroyTagged (object : Object) : Entails call (.destroyTagged object) (.destroy object)
  | shutdown : Entails call .shutdown .shutdown
  | openBinding (name : String) (options : Options) : Entails call (.openBinding name options) (.openBinding options)
  | connect (transport : String) (options : Options) : Entails call (.connect transport options) (.openBinding options)
  | onBinding (name : String) {op : BindingOp} {id : BindingId} {act : Act} : op.Makes call id act →
      Entails call (.onBinding name op) act
  | endCall {op : BindingOp} {id : BindingId} {act : Act} : op.Makes call id act → Entails call (.endCall op) act
  | start (name read : String) (wanted : Nat) (id : BindingId) :
      Entails call (.start name read wanted) (.start read id wanted)
  | startAll (name read : String) (wanted : Nat) (id : BindingId) :
      Entails call (.startAll name read wanted) (.startAll read id wanted)
  | cancelToStart (name read : String) (wanted : Nat) : Entails call (.start name read wanted) (.cancel read)
  | cancelToStartAll (name read : String) (wanted : Nat) : Entails call (.startAll name read wanted) (.cancel read)
  | poll (read : ReadName) : Entails call (.poll read) (.poll read)
  | cancel (read : String) : Entails call (.cancel read) (.cancel read)
  | openTransport (transport : String) (options : Options) :
      Entails call (.onTransport transport .openBinding) (.openBinding options)
  | onTransport (transport : String) {op : TransportOp} {bop : BindingOp} {id : BindingId} {act : Act} :
      op.passes? = some bop → bop.Makes call id act → Entails call (.onTransport transport op) act

/-- The suspended read that an operation is about. -/
def Op.read? : Op → Option ReadName
  | .start _ read _ | .startAll _ read _ | .cancel read => some read
  | .poll read => some read
  | _ => none

namespace Session

/-- The same, or the read that an operation on a binding is begun as if it has to wait. -/
def reader? (s : Session) : Op → Option ReadName
  | .onBinding _ _ | .endCall _ | .onTransport _ _ => some s.nextCall
  | op => op.read?

theorem reader?_cases (s : Session) (op : Op) : s.reader? op = op.read? ∨ s.reader? op = some s.nextCall := by
  cases op with
  | onBinding _ _ | endCall _ | onTransport _ _ => exact Or.inr rfl
  | _ => exact Or.inl rfl

variable {s : Session} {act : Act} {id : BindingId} {name : ReadName}

theorem unlessWaiting_cases {α : Type} (answer : Except Halt α) (act begin : Act) :
    unlessWaiting answer act begin = act ∨ unlessWaiting answer act begin = begin := by
  unfold unlessWaiting
  split
  · exact .inr rfl
  · exact .inl rfl

/-! ## Letting go closes bindings -/

theorem of_mem_settling (h : act ∈ s.settling id) : act = .close id := by
  unfold settling at h
  split at h
  · cases h
  · exact List.mem_singleton.1 h

theorem of_mem_settling? {x : Option BindingId} (h : act ∈ s.settling? x) : ∃ id, act = .close id := by
  cases x with
  | none => cases h
  | some id => exact ⟨id, of_mem_settling h⟩

theorem of_mem_cancelling (h : act ∈ s.cancelling name) : act = .cancel name ∨ ∃ id, act = .close id := by
  unfold cancelling at h
  split at h
  · cases h
  · exact (List.mem_cons.1 h).imp_right (fun h => ⟨_, of_mem_settling h⟩)

theorem of_mem_keeping {polled : Polled} (h : act ∈ s.keeping name id polled) : act = .close id := by
  unfold keeping at h
  split at h
  · exact of_mem_settling h
  · cases h

theorem of_mem_advancing {poll? : Act} {poll : Binding → Polled} (h : act ∈ s.advancing name id poll? poll) :
    act = poll? ∨ ∃ id, act = .close id := by
  unfold advancing at h
  split at h
  · cases h
  · exact (List.mem_cons.1 h).imp_right (fun h => ⟨id, of_mem_keeping h⟩)

/-! ## Operations on a binding -/

theorem of_mem_bindingActs {op : BindingOp} (h : act ∈ s.bindingActs id op) : op.Makes s.nextCall id act := by
  cases op with
  | read _ | readTagged _ | readAll _ =>
    rw [List.mem_singleton.1 h]
    rcases unlessWaiting_cases _ _ _ with he | he <;> rw [he]
    · exact .once rfl
    · exact .waiting rfl
  | tryRead _ | write _ | writeTagged _ | close =>
    rw [List.mem_singleton.1 h]
    exact .once rfl
  | flush | isOpen | info | traffic | readCapacity | writeCapacity => cases h

theorem of_mem_endingActs {earlier : List BindingId} {op : BindingOp} (h : act ∈ s.endingActs id earlier op) :
    op.Makes s.nextCall id act ∨ ∃ id, act = .close id :=
  (List.mem_append.1 h).imp of_mem_bindingActs (fun h => ⟨id, of_mem_settling h⟩)

theorem of_mem_liveActs {t : Transport} {op : BindingOp} (h : act ∈ s.liveActs t op) :
    ∃ id, s.live? t = some id ∧ op.Makes s.nextCall id act := by
  unfold liveActs at h
  split at h
  · cases h
  · rename_i id hlive
    exact ⟨id, hlive, of_mem_bindingActs h⟩

/-- A transport opens or closes the binding in its slot, or passes an operation on to it. -/
theorem of_mem_transportActs {t : Transport} {op : TransportOp} (h : act ∈ s.transportActs t op) :
    (op = .openBinding ∧ act = .openBinding t.options) ∨
      (op = .closeBinding ∧ ∃ id, t.slot = some id ∧ act = .close id) ∨
      ∃ bop id, op.passes? = some bop ∧ s.live? t = some id ∧ bop.Makes s.nextCall id act := by
  have hlive : ∀ bop, op.passes? = some bop → act ∈ s.liveActs t bop →
      ∃ bop id, op.passes? = some bop ∧ s.live? t = some id ∧ bop.Makes s.nextCall id act := fun bop hop hm => by
    obtain ⟨id, hid, hact⟩ := of_mem_liveActs hm
    exact ⟨bop, id, hop, hid, hact⟩
  cases op with
  | openBinding =>
    simp only [transportActs] at h
    split at h
    · cases h
    · exact Or.inl ⟨rfl, List.mem_singleton.1 h⟩
  | closeBinding =>
    simp only [transportActs] at h
    split at h
    · cases h
    · rename_i id hslot
      exact Or.inr (Or.inl ⟨rfl, id, hslot, List.mem_singleton.1 h⟩)
  | read _ | readAll _ | write _ | ioWrite _ => exact Or.inr (Or.inr (hlive _ rfl h))
  | ioRead size | ioReadExact size =>
    simp only [transportActs] at h
    split at h
    · cases h
    · exact Or.inr (Or.inr (hlive _ rfl h))
  | isOpen | options | flush | ioFlush => cases h

/-! ## Every operation -/

/-- **Every act of a step** is a call that the operation stands for, or closes a binding. -/
theorem of_mem_acts {op : Op} (h : act ∈ s.acts op) : (∃ id, act = .close id) ∨ op.Entails s.nextCall act := by
  cases op with
  | create what =>
    rw [List.mem_singleton.1 h]
    exact Or.inr (.create what)
  | createTagged what =>
    rw [List.mem_singleton.1 h]
    exact Or.inr (.createTagged what)
  | destroy object =>
    rw [List.mem_singleton.1 h]
    exact Or.inr (.destroy object)
  | destroyTagged object =>
    rw [List.mem_singleton.1 h]
    exact Or.inr (.destroyTagged object)
  | shutdown =>
    rw [List.mem_singleton.1 h]
    exact Or.inr .shutdown
  | has _ | kindOf _ | live | topicStats _ | config | isShutDown | beginCall _ => cases h
  | openBinding name options =>
    rcases List.mem_cons.1 h with rfl | h
    · exact Or.inr (.openBinding name options)
    · split at h
      · cases h
      · exact Or.inl (of_mem_settling? h)
  | connect transport options =>
    rcases List.mem_cons.1 h with rfl | h
    · exact Or.inr (.connect transport options)
    · split at h
      · cases h
      · exact Or.inl (of_mem_settling? h)
  | onBinding name op =>
    simp only [acts] at h
    split at h
    · cases h
    · exact Or.inr (.onBinding name (of_mem_bindingActs h))
  | share _ _ | shareTransport _ _ =>
    simp only [acts] at h
    split at h
    · cases h
    · exact Or.inl (of_mem_settling? h)
  | drop _ | newTransport _ _ | dropTransport _ => exact Or.inl (of_mem_settling? h)
  | endCall op =>
    simp only [acts] at h
    split at h
    · cases h
    · exact (of_mem_endingActs h).symm.imp_right .endCall
  | start name read wanted =>
    simp only [acts] at h
    split at h
    · cases h
    · rcases List.mem_append.1 h with h | h
      · rcases of_mem_cancelling h with rfl | hclose
        · exact Or.inr (.cancelToStart name read wanted)
        · exact Or.inl hclose
      · rcases of_mem_advancing h with rfl | hclose
        · exact Or.inr (.start name read wanted _)
        · exact Or.inl hclose
  | startAll name read wanted =>
    simp only [acts] at h
    split at h
    · cases h
    · rcases List.mem_append.1 h with h | h
      · rcases of_mem_cancelling h with rfl | hclose
        · exact Or.inr (.cancelToStartAll name read wanted)
        · exact Or.inl hclose
      · rcases of_mem_advancing h with rfl | hclose
        · exact Or.inr (.startAll name read wanted _)
        · exact Or.inl hclose
  | poll read =>
    simp only [acts] at h
    split at h
    · cases h
    · rcases of_mem_advancing h with rfl | hclose
      · exact Or.inr (.poll read)
      · exact Or.inl hclose
  | cancel read =>
    rcases of_mem_cancelling h with rfl | hclose
    · exact Or.inr (.cancel read)
    · exact Or.inl hclose
  | onTransport transport op =>
    simp only [acts] at h
    split at h
    · cases h
    · rcases of_mem_transportActs h with ⟨rfl, rfl⟩ | ⟨rfl, id, -, rfl⟩ | ⟨bop, id, hop, -, hact⟩
      · exact Or.inr (.openTransport transport _)
      · exact Or.inl ⟨id, rfl⟩
      · exact Or.inr (.onTransport transport hop hact)

end Session
end TopicBus
