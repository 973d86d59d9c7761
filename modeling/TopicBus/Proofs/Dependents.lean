import TopicBus.Proofs.Views
/-!
# Referential integrity

The registry only counts what refers to an object.  Since the counts are those of the live users and of the open
bindings (`Bus.dependents`), an object is destroyed exactly when nothing refers to it, and a refusal tells how many do
(`destroy_answer`).  A refused call leaves the bus as it was; one that succeeds takes the object away and, if it was a
user, lowers the count of its kind (`Registry.Removed`).
-/
namespace TopicBus

/-! ## What destroying leaves -/

namespace Registry

/-- `r'` is `r` without the object: all else is there, and for the kind of a user one user less is counted. -/
structure Removed (object : Object) (r r' : Registry) : Prop where
  gone : r'.contains object = false
  kinds : ∀ k, .kind k ≠ object → (∀ u e, object = .user u → r.users.get? u = some e → e.kind ≠ k) →
    r'.kinds.get? k = r.kinds.get? k
  kindOf : ∀ u e, object = .user u → r.users.get? u = some e →
    ∃ n, r.kinds.get? e.kind = some (n + 1) ∧ r'.kinds.get? e.kind = some n
  users : ∀ u, .user u ≠ object → r'.users.get? u = r.users.get? u
  topics : ∀ t, .topic t ≠ object → r'.topics.get? t = r.topics.get? t
  openBindings : r'.openBindings = r.openBindings
  nextKey : r'.nextKey = r.nextKey

/-- The count that stands in the way of destroying an object, if the object is live. -/
def references? (r : Registry) : Object → Option Nat
  | .kind k => r.kinds.get? k
  | .user u => (r.users.get? u).map (·.bindings)
  | .topic t => r.topics.get? t

variable {r : Registry} {opened : Table BindingId Terms}

theorem isSome_references? (r : Registry) (object : Object) : (r.references? object).isSome = r.contains object := by
  cases object with
  | kind k => rfl
  | user u => exact Option.isSome_map
  | topic t => rfl

/-- **Every call that destroys is answered by the count alone**, and a refused one changes nothing. -/
theorem destroy_cases (r : Registry) (object : Object) :
    (∃ fault, obstacle object.key (r.references? object) = .error fault ∧ r.destroy object = (r, .error fault)) ∨
      r.references? object = some 0 ∧ (r.destroy object).2 = .ok () := by
  have hok : ∀ {found : Option Nat}, obstacle object.key found = .ok () → found = some 0 := obstacle_eq_ok_iff.1
  cases object with
  | kind k =>
    simp only [destroy, destroyKind, references?]
    cases ho : obstacle k.key (r.kinds.get? k) with
    | error fault => exact Or.inl ⟨fault, ho, rfl⟩
    | ok _ => exact Or.inr ⟨hok ho, rfl⟩
  | topic t =>
    simp only [destroy, destroyTopic, references?]
    cases ho : obstacle t.key (r.topics.get? t) with
    | error fault => exact Or.inl ⟨fault, ho, rfl⟩
    | ok _ => exact Or.inr ⟨hok ho, rfl⟩
  | user u =>
    simp only [destroy, destroyUser, references?]
    cases hu : r.users.get? u with
    | none => exact Or.inl ⟨_, rfl, rfl⟩
    | some e =>
      simp only [Option.map_some]
      cases ho : obstacle u.key (some e.bindings) with
      | error fault => exact Or.inl ⟨fault, ho, rfl⟩
      | ok _ => exact Or.inr ⟨hok ho, rfl⟩

theorem removed_destroyKind {k : Kind} (h : r.kinds.get? k = some 0) :
    r.Removed (.kind k) (r.destroyKind k).1 := by
  have hdestroy : r.destroyKind k = ({ r with kinds := r.kinds.erase k }, .ok ()) := by
    simp only [destroyKind, h, obstacle]
  rw [hdestroy]
  refine ⟨?_, fun k' hk _ => ?_, fun _ _ ho => (by cases ho), fun _ _ => rfl, fun _ _ => rfl, rfl, rfl⟩
  · simp [contains, Table.contains, Table.get?_erase]
  · exact Table.get?_erase_of_ne _ (fun he => hk (by rw [he]))

theorem removed_destroyTopic {t : Topic} (h : r.topics.get? t = some 0) :
    r.Removed (.topic t) (r.destroyTopic t).1 := by
  have hdestroy : r.destroyTopic t = ({ r with topics := r.topics.erase t }, .ok ()) := by
    simp only [destroyTopic, h, obstacle]
  rw [hdestroy]
  refine ⟨?_, fun _ _ _ => rfl, fun _ _ ho => (by cases ho), fun _ _ => rfl, fun t' ht => ?_, rfl, rfl⟩
  · simp [contains, Table.contains, Table.get?_erase]
  · exact Table.get?_erase_of_ne _ (fun he => ht (by rw [he]))

/-- The kind of a live user counts at least that user. -/
theorem Accounts.exists_kind (h : r.Accounts opened) {u : User} {e : UserEntry} (hu : r.users.get? u = some e) :
    ∃ n, r.kinds.get? e.kind = some (n + 1) := by
  obtain ⟨n, hn⟩ := (h.user u e hu).2.1
  have hpos : 0 < n := by
    rw [(h.kind e.kind n hn).2]
    exact Table.count_pos_iff.2 ⟨u, e, hu, by simp⟩
  exact ⟨n - 1, by rw [hn, Nat.sub_add_cancel hpos]⟩

theorem removed_destroyUser (h : r.Accounts opened) {u : User} {e : UserEntry} (hu : r.users.get? u = some e)
    (hz : e.bindings = 0) : r.Removed (.user u) (r.destroyUser u).1 := by
  have hdestroy : r.destroyUser u =
      ({ r with users := r.users.erase u, kinds := r.kinds.adjust e.kind (· - 1) }, .ok ()) := by
    simp only [destroyUser, hu, hz, obstacle]
  rw [hdestroy]
  refine ⟨?_, fun k _ hk => ?_, fun u' e' ho hu' => ?_, fun u' hne => ?_, fun _ _ => rfl, rfl, rfl⟩
  · simp [contains, Table.contains, Table.get?_erase]
  · rw [Table.get?_adjust, if_neg (fun he => hk u e rfl hu he.symm)]
  · cases ho
    obtain rfl := Option.some.inj (hu.symm.trans hu')
    obtain ⟨n, hn⟩ := h.exists_kind hu
    exact ⟨n, hn, by rw [Table.get?_adjust, if_pos rfl, hn]; rfl⟩
  · exact Table.get?_erase_of_ne _ (fun he => hne (by rw [he]))

/-- **Destroying an object that nothing refers to** takes it away, and nothing else. -/
theorem removed_destroy (h : r.Accounts opened) {object : Object} (hz : r.references? object = some 0) :
    r.Removed object (r.destroy object).1 := by
  cases object with
  | kind k => exact removed_destroyKind hz
  | topic t => exact removed_destroyTopic hz
  | user u =>
    obtain ⟨e, hu, he⟩ := Option.map_eq_some_iff.1 hz
    exact removed_destroyUser h hu he

end Registry

/-! ## What refers to an object -/

namespace Bus

variable {bus : Bus}

/-- How many live objects refer to an object: the users of a kind, the open bindings of a user or on a topic. -/
def dependents (bus : Bus) : Object → Nat
  | .kind k => bus.registry.users.count (·.kind = k)
  | .user u => bus.openBindings.countP (·.user = u)
  | .topic t => bus.openBindings.countP (·.topic = t)

/-- **The registry counts what refers to an object.** -/
theorem Agrees.references?_eq (h : bus.Agrees) (object : Object) : bus.registry.references? object =
    if bus.registry.contains object then some (bus.dependents object) else none := by
  have hsome := bus.registry.isSome_references? object
  cases hr : bus.registry.references? object with
  | none =>
    rw [hr] at hsome
    rw [← hsome]
    rfl
  | some n =>
    rw [hr] at hsome
    rw [← hsome]
    refine congrArg some ?_
    cases object with
    | kind k => exact (h.accounts.kind k n hr).2
    | user u =>
      obtain ⟨e, he, rfl⟩ := Option.map_eq_some_iff.1 hr
      exact h.counted.user u e he
    | topic t => exact h.counted.topic t n hr

/-- **What destroying is answered**: the object is gone already, or this many refer to it, or it is destroyed. -/
theorem Agrees.destroy_answer (h : bus.Agrees) (object : Object) : (bus.destroy object).2 =
    if bus.registry.contains object = false then .error (.registry (.stale object.key))
    else if bus.dependents object = 0 then .ok ()
    else .error (.registry (.referenced object.key (bus.dependents object))) := by
  have href := h.references?_eq object
  cases hlive : bus.registry.contains object with
  | false =>
    rw [hlive] at href
    simp only [Bool.false_eq_true, if_false] at href
    rcases bus.registry.destroy_cases object with ⟨fault, ho, he⟩ | ⟨hz, -⟩
    · rw [href] at ho
      cases ho
      simp only [destroy, he]
      rfl
    · rw [href] at hz
      cases hz
  | true =>
    rw [hlive] at href
    simp only [if_true] at href
    simp only [Bool.true_eq_false, if_false]
    rcases bus.registry.destroy_cases object with ⟨fault, ho, he⟩ | ⟨hz, he⟩
    · rw [href] at ho
      cases hn : bus.dependents object with
      | zero =>
        rw [hn] at ho
        cases ho
      | succ n =>
        rw [hn] at ho
        cases ho
        simp only [destroy, he]
        rfl
    · rw [href] at hz
      rw [Option.some.inj hz]
      simp only [destroy, he]
      rfl

/-- A bus that refuses to destroy an object is as it was. -/
theorem destroy_of_refused {object : Object} (h : (bus.destroy object).2 ≠ .ok ()) : (bus.destroy object).1 = bus := by
  rcases bus.registry.destroy_cases object with ⟨fault, -, he⟩ | ⟨-, he⟩
  · simp only [destroy, he]
  · refine absurd ?_ h
    simp only [destroy, he]
    rfl

theorem Agrees.removed_destroy (h : bus.Agrees) {object : Object} (hok : (bus.destroy object).2 = .ok ()) :
    bus.registry.Removed object (bus.destroy object).1.registry := by
  rcases bus.registry.destroy_cases object with ⟨fault, -, he⟩ | ⟨hz, -⟩
  · simp only [destroy, he] at hok
    cases hok
  · exact Registry.removed_destroy h.accounts hz

end Bus

namespace Session

/-- **Nothing is destroyed that is referred to**, after every run.  The kind of a live user is live and counts it; a
kind, a user or a topic is destroyed exactly if it is live and no user of the kind, no open binding of the user, no open
binding on the topic is there.  A refusal tells whether the object is gone or how many refer to it, and changes nothing;
a success takes away that object alone, and the kind of a user counts one user less. -/
theorem referential_integrity (config : Config) (ops : List Op) :
    let bus := ((new config).run ops).bus
    (∀ u e, bus.registry.users.get? u = some e → bus.registry.contains (.kind e.kind) = true) ∧
    (∀ k n, bus.registry.kinds.get? k = some n → n = bus.dependents (.kind k)) ∧
    ∀ object,
      ((bus.destroy object).2 =
        if bus.registry.contains object = false then .error (.registry (.stale object.key))
        else if bus.dependents object = 0 then .ok ()
        else .error (.registry (.referenced object.key (bus.dependents object)))) ∧
      ((bus.destroy object).2 ≠ .ok () → (bus.destroy object).1 = bus) ∧
      ((bus.destroy object).2 = .ok () →
        (bus.destroy object).1 = { bus with registry := (bus.destroy object).1.registry } ∧
        bus.registry.Removed object (bus.destroy object).1.registry) := by
  intro bus
  have h : bus.Agrees := (good_run config ops).agrees
  refine ⟨fun u e hu => ?_, fun k n hk => (h.accounts.kind k n hk).2, fun object => ⟨h.destroy_answer object,
    Bus.destroy_of_refused, fun hok => ⟨rfl, h.removed_destroy hok⟩⟩⟩
  obtain ⟨n, hn⟩ := h.accounts.exists_kind hu
  simp [Registry.contains, Table.contains, hn]

end Session
end TopicBus
