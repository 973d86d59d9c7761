import TopicBus.Proofs.Delivery
import TopicBus.Proofs.Acts
import TopicBus.Proofs.Advance
/-!
# The history of a binding

What events tell of one binding: the bytes that were taken out of its stream (`takenFrom`), the bytes that were sent to
it (`sentTo`), and the part of a history that begins with its opening (`since`).

Events that lead from one state of a binding to another keep its books (`Binding.Met`): the binding is not opened again,
it is closed at most once, and while it stays open the bytes taken and the bytes sent make up the difference between its
stream before and after.
-/
namespace TopicBus

/-! ## What events say of one binding -/

namespace Event

/-- The binding that an event happened to; a write happens to none. -/
def binding? : Event → Option BindingId
  | .opened id => some id
  | .closed id => some id
  | .took id _ => some id
  | .wrote _ _ => none

/-- What an event took out of the stream of the binding `id`. -/
def taken (id : BindingId) : Event → Bytes
  | .took id' part => if id' = id then part else []
  | _ => []

/-- What an event sent on `topic` to users of the given kind, from another binding than `id`. -/
def sent (id : BindingId) (topic : Topic) (kind : Kind) : Event → Bytes
  | .wrote writer data => if writer.id ≠ id ∧ writer.topic = topic ∧ writer.target = kind then data else []
  | _ => []

end Event

/-- All the bytes that reads took out of the stream of the binding `id`, in the order in which they were taken. -/
def takenFrom (id : BindingId) (history : List Event) : Bytes := history.flatMap (Event.taken id)

/-- The payloads of all writes on `topic` to users of the given kind from other bindings than `id`, in the order of the
writes. -/
def sentTo (id : BindingId) (topic : Topic) (kind : Kind) (history : List Event) : Bytes :=
  history.flatMap (Event.sent id topic kind)

/-- What happened after the binding `id` was opened. -/
def since (id : BindingId) : List Event → List Event
  | [] => []
  | e :: rest => if e = .opened id then rest else since id rest

variable {id id' : BindingId} {topic : Topic} {kind : Kind} {events history : List Event}

theorem takenFrom_append (id : BindingId) (l r : List Event) :
    takenFrom id (l ++ r) = takenFrom id l ++ takenFrom id r :=
  List.flatMap_append

theorem sentTo_append (id : BindingId) (topic : Topic) (kind : Kind) (l r : List Event) :
    sentTo id topic kind (l ++ r) = sentTo id topic kind l ++ sentTo id topic kind r :=
  List.flatMap_append

theorem takenFrom_of_others (h : ∀ e ∈ events, e.binding? ≠ some id) : takenFrom id events = [] := by
  refine List.flatMap_eq_nil_iff.2 (fun e he => ?_)
  cases e with
  | took id' part => exact if_neg (fun hid => h _ he (congrArg some hid))
  | _ => rfl

theorem not_mem_of_others (h : ∀ e ∈ events, e.binding? ≠ some id) : .opened id ∉ events ∧ .closed id ∉ events :=
  ⟨fun hm => h _ hm rfl, fun hm => h _ hm rfl⟩

theorem takenFrom_took (id : BindingId) (parts : List Bytes) : takenFrom id (parts.map (.took id)) = parts.flatten := by
  induction parts with
  | nil => rfl
  | cons part parts ih =>
    rw [List.map_cons, takenFrom, List.flatMap_cons, List.flatten_cons, ← ih]
    simp [Event.taken, takenFrom]

/-- Only writes send anything. -/
theorem sentTo_of_binding (h : ∀ e ∈ events, e.binding? ≠ none) : sentTo id topic kind events = [] := by
  refine List.flatMap_eq_nil_iff.2 (fun e he => ?_)
  cases e with
  | wrote writer data => exact absurd rfl (h _ he)
  | _ => rfl

theorem since_append (h : .opened id ∉ events) : since id (events ++ .opened id :: history) = history := by
  induction events with
  | nil => exact if_pos rfl
  | cons e rest ih =>
    rw [List.mem_cons, not_or] at h
    rw [List.cons_append, since, if_neg (Ne.symm h.1)]
    exact ih h.2

/-! ## The books of one binding -/

/-- The events lead from `b` to `b'`, two states of the binding `id`. -/
structure Binding.Met (id : BindingId) (events : List Event) (b b' : Binding) : Prop where
  terms : b'.toTerms = b.toTerms
  opened : .opened id ∉ events
  closings : events.count (.closed id) + b'.isOpen.toNat = b.isOpen.toNat
  bytes : b'.isOpen = true → takenFrom id events ++ b'.stream = b.stream ++ sentTo id b.topic b.kind events

namespace Binding

variable {b b' b'' : Binding}

theorem Met.refl (b : Binding) : Met id [] b b := ⟨rfl, List.not_mem_nil, by simp, fun _ => by simp [takenFrom, sentTo]⟩

theorem Met.wasOpen (h : Met id events b b') (ho : b'.isOpen = true) : b.isOpen = true := by
  have hc := h.closings
  rw [ho] at hc
  cases hb : b.isOpen with
  | true => rfl
  | false =>
    rw [hb, Bool.toNat_true, Bool.toNat_false] at hc
    omega

theorem Met.trans (h : Met id events b b') (h' : Met id history b' b'') : Met id (events ++ history) b b'' where
  terms := h'.terms.trans h.terms
  opened hm := (List.mem_append.1 hm).elim h.opened h'.opened
  closings := by
    have := h.closings
    have := h'.closings
    rw [List.count_append]
    omega
  bytes ho := by
    have h1 := h.bytes (h'.wasOpen ho)
    have h2 := h'.bytes ho
    rw [show b'.topic = b.topic from congrArg Terms.topic h.terms,
      show b'.kind = b.kind from congrArg Terms.kind h.terms] at h2
    rw [takenFrom_append, sentTo_append, List.append_assoc, h2, ← List.append_assoc, h1, List.append_assoc]

/-- What happens to others leaves a binding as it is. -/
theorem Met.of_others (h : ∀ e ∈ events, e.binding? ≠ some id ∧ e.binding? ≠ none) (b : Binding) :
    Met id events b b := by
  have hothers : ∀ e ∈ events, e.binding? ≠ some id := fun e he => (h e he).1
  obtain ⟨ho, hc⟩ := not_mem_of_others hothers
  refine ⟨rfl, ho, by rw [List.count_eq_zero.2 hc, Nat.zero_add], fun _ => ?_⟩
  rw [takenFrom_of_others hothers, sentTo_of_binding (fun e he => (h e he).2), List.append_nil, List.nil_append]

theorem binding?_took {parts : List Bytes} {e : Event} (he : e ∈ parts.map (.took id)) : e.binding? = some id := by
  obtain ⟨part, -, rfl⟩ := List.mem_map.1 he
  rfl

theorem Advance.met {limit : Option Nat} {down : Bool} {parts : List Bytes} (h : Advance limit down b parts b') :
    Met id (parts.map (.took id)) b b' := by
  have hc : .closed id ∉ parts.map (Event.took id) := fun hm => by simp at hm
  refine ⟨h.terms, fun hm => by simp at hm, ?_, fun ho => ?_⟩
  · rw [List.count_eq_zero.2 hc, Nat.zero_add, h.isOpen]
  · rw [takenFrom_took, h.bytes (h.isOpen ▸ ho), sentTo_of_binding (fun e he => by simp [binding?_took he]),
      List.append_nil]

theorem met_shut (ho : b.isOpen = true) : Met id [.closed id] b b.shut := by
  refine ⟨shut_toTerms b, by simp, by simp [ho], fun ho' => ?_⟩
  rw [shut_isOpen] at ho'
  cases ho'

theorem stream_disconnect (b : Binding) : b.disconnect.stream = b.stream := by
  simp only [stream, disconnect]
  cases b.readSide with
  | none => rfl
  | some s => exact s.stream_disconnect

theorem met_disconnect (b : Binding) : Met id [] b b.disconnect :=
  ⟨rfl, List.not_mem_nil, by simp [disconnect], fun _ => by simp [takenFrom, sentTo, stream_disconnect]⟩

/-- A write that went by stopped here if it was sent here. -/
theorem Passed.met {received : Bool} {data : Bytes} (h : b.Passed received data b')
    (he : ∀ e ∈ events, e.binding? = none) (hr : received = true → ∃ s, b.readSide = some s)
    (hsent : b.isOpen = true → sentTo id b.topic b.kind events = if received then data else []) :
    Met id events b b' := by
  have hothers : ∀ e ∈ events, e.binding? ≠ some id := fun e hm => by simp [he e hm]
  obtain ⟨ho, hc⟩ := not_mem_of_others hothers
  refine ⟨h.terms, ho, by rw [List.count_eq_zero.2 hc, Nat.zero_add, h.isOpen], fun ho' => ?_⟩
  rw [takenFrom_of_others hothers, hsent (h.isOpen ▸ ho'), List.nil_append, stream, stream, h.readSide]
  cases received with
  | false => simp
  | true =>
    obtain ⟨s, hs⟩ := hr rfl
    simp [hs]

end Binding

end TopicBus
