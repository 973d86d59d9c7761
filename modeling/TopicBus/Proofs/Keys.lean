import TopicBus.Proofs.Dependents
import TopicBus.Proofs.Holders
/-!
# Keys

One counter issues the keys of all kinds, users, topics and bindings, so the keys of a run are issued in ascending order
(`Desk.Keyed`), a key is found only where it belongs, and what is gone never comes back under any name
(`Registry.gone_of_extends`).  A call that fails issues no key (`issued_of_failure`), so the next one to succeed gets
the key that the failed one would have had.
-/
namespace TopicBus

/-- A key, with the role that it was issued for. -/
structure IssuedKey where
  role : Role
  key : Nat
deriving DecidableEq

def Object.issuedKey : Object → IssuedKey
  | .kind handle => ⟨.kind, handle.key⟩
  | .user handle => ⟨.user, handle.key⟩
  | .topic handle => ⟨.topic, handle.key⟩

theorem Object.key_issuedKey (object : Object) : object.issuedKey.key = object.key := by
  cases object <;> rfl

theorem Object.issuedKey_inj {a b : Object} (h : a.issuedKey = b.issuedKey) : a = b := by
  cases a <;> cases b <;> simp_all [issuedKey, Handle.key_inj]

/-- The keys that a call to create issues. -/
def keysOf {ε : Type} : Except ε Object → List IssuedKey
  | .ok object => [object.issuedKey]
  | .error _ => []

theorem keysOf_mapError {ε ε' : Type} (f : ε → ε') (answer : Except ε Object) :
    keysOf (answer.mapError f) = keysOf answer := by
  cases answer <;> rfl

/-! ## What a call does to the registry's keys -/

namespace Registry

/-- `r'` comes of `r` by a call that issued these keys: what is live was live, or is what the key was issued for. -/
structure Extends (issued : List IssuedKey) (r r' : Registry) : Prop where
  next : (issued = [] ∧ r'.nextKey = r.nextKey) ∨
    ∃ role, issued = [⟨role, r.nextKey⟩] ∧ r'.nextKey = r.nextKey + 1
  live : ∀ object, r'.contains object = true → r.contains object = true ∨ object.issuedKey ∈ issued

variable {r r' : Registry} {issued : List IssuedKey} {object : Object}

theorem Extends.refl (r : Registry) : Extends [] r r := ⟨Or.inl ⟨rfl, rfl⟩, fun _ => Or.inl⟩

theorem Extends.le (h : Extends issued r r') : r.nextKey ≤ r'.nextKey := by
  rcases h.next with ⟨-, hn⟩ | ⟨_, -, hn⟩ <;> omega

theorem Extends.key_eq (h : Extends issued r r') {i : IssuedKey} (hi : i ∈ issued) :
    i.key = r.nextKey ∧ i.key < r'.nextKey := by
  rcases h.next with ⟨rfl, -⟩ | ⟨role, rfl, hn⟩
  · cases hi
  · rw [List.mem_singleton.1 hi]
    exact ⟨rfl, by simp only [hn]; omega⟩

/-- A call that changes the counts of live objects and makes none. -/
theorem extends_of_contains (hn : r'.nextKey = r.nextKey)
    (hc : ∀ object, r'.contains object = true → r.contains object = true) : Extends [] r r' :=
  ⟨Or.inl ⟨rfl, hn⟩, fun object h => Or.inl (hc object h)⟩

theorem extends_create (r : Registry) (what : NewObject) :
    Extends (keysOf (r.create what).2) r (r.create what).1 := by
  cases what with
  | kind =>
    refine ⟨Or.inr ⟨.kind, rfl, rfl⟩, fun object h => ?_⟩
    cases object with
    | kind k => exact (Table.of_contains_insert h).imp_right (fun hk => by rw [hk]; exact List.mem_singleton_self _)
    | user _ | topic _ => exact Or.inl h
  | topic =>
    refine ⟨Or.inr ⟨.topic, rfl, rfl⟩, fun object h => ?_⟩
    cases object with
    | topic t => exact (Table.of_contains_insert h).imp_right (fun ht => by rw [ht]; exact List.mem_singleton_self _)
    | kind _ | user _ => exact Or.inl h
  | user k =>
    simp only [create, createUser]
    split
    · refine ⟨Or.inr ⟨.user, rfl, rfl⟩, fun object h => ?_⟩
      cases object with
      | kind k' => exact Or.inl ((Table.contains_adjust ..).symm.trans h)
      | user u => exact (Table.of_contains_insert h).imp_right (fun hu => by rw [hu]; exact List.mem_singleton_self _)
      | topic _ => exact Or.inl h
    · exact .refl r

theorem extends_destroy (r : Registry) (object : Object) : Extends [] r (r.destroy object).1 := by
  refine extends_of_contains (Bus.nextKey_destroy r object) (fun object' h => ?_)
  cases object with
  | kind k =>
    simp only [destroy, destroyKind] at h
    split at h
    · exact h
    · cases object' with
      | kind k' => exact Table.of_contains_erase h
      | user _ | topic _ => exact h
  | topic t =>
    simp only [destroy, destroyTopic] at h
    split at h
    · exact h
    · cases object' with
      | topic t' => exact Table.of_contains_erase h
      | kind _ | user _ => exact h
  | user u =>
    simp only [destroy, destroyUser] at h
    split at h
    · exact h
    · split at h
      · exact h
      · cases object' with
        | kind k => exact (Table.contains_adjust ..).symm.trans h
        | user u' => exact Table.of_contains_erase h
        | topic _ => exact h

theorem extends_acquire {user : User} {topic : Topic} {target kind : Kind} {id : BindingId}
    (h : r.acquire user topic target = .ok (r', id, kind)) : Extends [⟨.binding, id.key⟩] r r' := by
  obtain ⟨_, _, -, -, -, rfl, -, rfl⟩ := acquire_eq_ok h
  refine ⟨Or.inr ⟨.binding, rfl, rfl⟩, fun object hc => Or.inl ?_⟩
  cases object with
  | kind _ => exact hc
  | user _ | topic _ => exact (Table.contains_adjust ..).symm.trans hc

theorem extends_release (r : Registry) (user : User) (topic : Topic) : Extends [] r (r.release user topic) := by
  refine extends_of_contains rfl (fun object h => ?_)
  cases object with
  | kind _ => exact h
  | user _ | topic _ => exact (Table.contains_adjust ..).symm.trans h

/-! ### What is gone -/

/-- The object is not live, and its key was issued before. -/
def Gone (r : Registry) (object : Object) : Prop := r.contains object = false ∧ object.key < r.nextKey

/-- **What is gone stays gone**: its key is not issued again. -/
theorem gone_of_extends (h : r.Gone object) (he : Extends issued r r') : r'.Gone object := by
  refine ⟨Bool.eq_false_iff.2 (fun hc => ?_), Nat.lt_of_lt_of_le h.2 he.le⟩
  rcases he.live object hc with hc | hi
  · rw [h.1] at hc
    cases hc
  · have hkey := (he.key_eq hi).1
    rw [object.key_issuedKey] at hkey
    exact absurd h.2 (by omega)

end Registry

namespace Desk

variable {d : Desk} {act : Act} {id : BindingId}

/-! ## What an act issues -/

/-- The keys that an act issues, as its answer has them. -/
def issues (d : Desk) : Act → List IssuedKey
  | .create what => keysOf (d.bus.create what).2
  | .openBinding options =>
    match (d.bus.openBinding options).2 with
    | .ok id => [⟨.binding, id.key⟩]
    | .error _ => []
  | _ => []

/-- The keys that acts issue in order. -/
def issued (d : Desk) : List Act → List IssuedKey
  | [] => []
  | act :: rest => d.issues act ++ (d.apply act).issued rest

theorem issued_append (d : Desk) (acts acts' : List Act) :
    d.issued (acts ++ acts') = d.issued acts ++ (d.after acts).issued acts' := by
  induction acts generalizing d with
  | nil => rfl
  | cons act acts ih => simp [issued, ih]

theorem registry_onBinding {α : Type} (bus : Bus) (id : BindingId) (absent : α) (f : Binding → Binding × α) :
    (bus.onBinding id absent f).1.registry = bus.registry := by
  unfold Bus.onBinding
  split <;> rfl

theorem registry_write (bus : Bus) (id : BindingId) (data : Bytes) : (bus.write id data).1.registry = bus.registry := by
  have hout := Bus.written bus id data
  generalize bus.write id data = result at hout ⊢
  cases hout <;> rfl

theorem registry_advance (d : Desk) (polled : Option (ReadName × BindingId × Polled)) :
    (d.advance polled).bus.registry = d.bus.registry := by
  rcases polled with _ | ⟨name, id, p⟩ <;> rfl

/-- **Each act does one thing to the keys**: it issues the next one, for what it makes, or none. -/
theorem extends_apply (d : Desk) (act : Act) : d.bus.registry.Extends (d.issues act) (d.apply act).bus.registry := by
  have hsame : ∀ {r : Registry}, r = d.bus.registry → d.bus.registry.Extends [] r := fun h => h ▸ .refl _
  cases act with
  | create what =>
    simp only [issues, Bus.create, keysOf_mapError]
    exact Registry.extends_create _ what
  | destroy object => exact Registry.extends_destroy _ object
  | openBinding o =>
    have hout := Bus.opened_openBinding d.bus o
    simp only [issues, apply]
    generalize d.bus.openBinding o = result at hout ⊢
    cases hout with
    | refused fault => exact .refl _
    | opened hd hbuf ha => exact Registry.extends_acquire ha
  | close i =>
    simp only [issues, apply]
    rcases Bus.close_cases d.bus i with ⟨-, he⟩ | ⟨b, -, -, he⟩
    · rw [he]
      exact .refl _
    · rw [he]
      exact Registry.extends_release _ _ _
  | shutdown => exact .refl _
  | write i data => exact hsame (registry_write _ _ _)
  | read i wanted => exact hsame (registry_onBinding _ _ _ _)
  | tryRead i wanted => exact hsame (registry_onBinding _ _ _ _)
  | readAll i wanted => exact hsame (registry_onBinding _ _ _ _)
  | start _ _ _ | startAll _ _ _ | poll _ => exact hsame (registry_advance _ _)
  | cancel name =>
    refine hsame ?_
    simp only [apply, cancel]
    split
    · rfl
    · exact registry_onBinding _ _ _ _

/-- The counter advances by one for each key that is issued. -/
theorem nextKey_after (d : Desk) (acts : List Act) :
    (d.after acts).bus.registry.nextKey = d.bus.registry.nextKey + (d.issued acts).length := by
  induction acts generalizing d with
  | nil => rfl
  | cons act acts ih =>
    rw [after_cons, ih, issued, List.length_append]
    rcases (extends_apply d act).next with ⟨hnone, hn⟩ | ⟨role, hone, hn⟩
    · rw [hnone, hn, List.length_nil]
      omega
    · rw [hone, hn, List.length_singleton]
      omega

theorem gone_after {object : Object} (h : d.bus.registry.Gone object) (acts : List Act) :
    (d.after acts).bus.registry.Gone object := by
  induction acts generalizing d with
  | nil => exact h
  | cons act acts ih => exact ih (Registry.gone_of_extends h (extends_apply d act))

/-- The first key that acts issue is the next key of the registry. -/
theorem key_of_head?_issued {acts : List Act} {i : IssuedKey} (h : (d.issued acts).head? = some i) :
    i.key = d.bus.registry.nextKey := by
  induction acts generalizing d with
  | nil => cases h
  | cons act acts ih =>
    rw [issued] at h
    rcases (extends_apply d act).next with ⟨hnone, hn⟩ | ⟨role, hone, -⟩
    · rw [hnone] at h
      exact (ih h).trans hn
    · rw [hone] at h
      cases h
      rfl

end Desk

/-! ## Where a key is found -/

namespace Bus

/-- Whether a table of the bus has something under the key, looked up as a key of the role. -/
def resolves (bus : Bus) : Role → Nat → Bool
  | .kind, key => bus.registry.kinds.contains ⟨key⟩
  | .user, key => bus.registry.users.contains ⟨key⟩
  | .topic, key => bus.registry.topics.contains ⟨key⟩ || bus.routes.contains ⟨key⟩
  | .binding, key => bus.bindings.contains ⟨key⟩ || bus.routes.values.any (·.subscribers.contains ⟨key⟩)

variable {bus : Bus}

/-- What the registry has live, and every binding that was opened. -/
def keeps (bus : Bus) (i : IssuedKey) : Prop :=
  (∃ object, bus.registry.contains object = true ∧ object.issuedKey = i) ∨
    ∃ id, bus.bindings.contains id = true ∧ i = ⟨.binding, id.key⟩

/-- The routes name live topics and bindings only. -/
theorem Agrees.keeps_of_resolves (h : bus.Agrees) {role : Role} {key : Nat} (hr : bus.resolves role key = true) :
    bus.keeps ⟨role, key⟩ := by
  have hroutes : ∀ {t : Topic} {route : Route}, bus.routes.get? t = some route →
      Routes.Lists bus.routes bus.opened := fun {t route} ht => by
    cases hd : bus.isShutDown with
    | false => exact h.lists hd
    | true =>
      rw [h.ended hd] at ht
      cases ht
  cases role with
  | kind => exact Or.inl ⟨.kind ⟨key⟩, hr, rfl⟩
  | user => exact Or.inl ⟨.user ⟨key⟩, hr, rfl⟩
  | topic =>
    refine Or.inl ⟨.topic ⟨key⟩, ?_, rfl⟩
    rcases Bool.or_eq_true_iff.1 hr with ht | ht
    · exact ht
    · obtain ⟨route, hroute⟩ := Option.isSome_iff_exists.1 ht
      obtain ⟨id, w, hw, hwt⟩ := (hroutes hroute).exists_route_iff.1 ⟨route, hroute⟩
      obtain ⟨-, n, hn⟩ := h.accounts.live id w hw
      rw [hwt] at hn
      simp only [Registry.contains, Table.contains, hn]
      rfl
  | binding =>
    refine Or.inr ⟨⟨key⟩, ?_, rfl⟩
    rcases Bool.or_eq_true_iff.1 hr with hb | hb
    · exact hb
    · obtain ⟨t, route, hroute, hsub⟩ := Table.any_values_iff.1 hb
      obtain ⟨k, hk⟩ := Option.isSome_iff_exists.1 hsub
      have hlisted := (hroutes hroute).listed t ⟨key⟩
      rw [Routes.listing, hroute, Option.bind_some, hk] at hlisted
      obtain ⟨w, hw, -⟩ := Option.bind_eq_some_iff.1 hlisted.symm
      obtain ⟨b, hb, -, -⟩ := get?_opened.1 hw
      simp only [Table.contains, hb]
      rfl

/-- The keys that were issued so far: each is greater than those before it, and whatever the bus keeps has one. -/
structure Keyed (issued : List IssuedKey) (bus : Bus) : Prop where
  ascending : issued.Pairwise (fun i j => i.key < j.key)
  below : ∀ i ∈ issued, i.key < bus.registry.nextKey
  kept : ∀ i, bus.keeps i → i ∈ issued

theorem Keyed.eq_of_key {issued : List IssuedKey} (h : bus.Keyed issued) {i j : IssuedKey} (hi : i ∈ issued)
    (hj : j ∈ issued) (hkey : i.key = j.key) : i = j := by
  have hnodup : (issued.map IssuedKey.key).Nodup := List.pairwise_map.2 (h.ascending.imp Nat.ne_of_lt)
  exact List.inj_on_of_nodup_map hnodup hi hj hkey

/-- The key names nothing, under whatever role, and every call that is given it is refused. -/
structure Retired (bus : Bus) (key : Nat) : Prop where
  resolves : ∀ role, bus.resolves role key = false
  contains : ∀ object : Object, object.key = key → bus.registry.contains object = false
  kindOf : bus.registry.kindOf ⟨key⟩ = .error (.stale key)
  create : (bus.create (.user ⟨key⟩)).2 = .error (.registry (.stale key))
  destroy : ∀ object : Object, object.key = key → (bus.destroy object).2 = .error (.registry (.stale key))
  openBinding : ∀ o : Options, o.user.key = key ∨ o.topic.key = key ∨ o.target.key = key →
    ∀ id, (bus.openBinding o).2 ≠ .ok id

/-- **The key of an object that is gone is retired**: no other table has it, for it was issued once. -/
theorem Keyed.retired {issued : List IssuedKey} (hk : bus.Keyed issued) (h : bus.Agrees) {object : Object}
    (hi : object.issuedKey ∈ issued) (hgone : bus.registry.contains object = false) : bus.Retired object.key := by
  have hkeeps : ∀ i, i.key = object.key → ¬ bus.keeps i := by
    intro i hkey hkept
    obtain rfl : i = object.issuedKey := hk.eq_of_key (hk.kept i hkept) hi (hkey.trans object.key_issuedKey.symm)
    rcases hkept with ⟨object', hc, he⟩ | ⟨id, -, he⟩
    · rw [Object.issuedKey_inj he, hgone] at hc
      cases hc
    · cases object <;> cases he
  have hcontains : ∀ object' : Object, object'.key = object.key → bus.registry.contains object' = false :=
    fun object' hkey => Bool.eq_false_iff.2 (fun hc =>
      hkeeps object'.issuedKey (object'.key_issuedKey.trans hkey) (Or.inl ⟨object', hc, rfl⟩))
  have hnone : ∀ {κ α : Type} [DecidableEq κ] {t : Table κ α} {k : κ}, t.contains k = false → t.get? k = none :=
    fun hc => Option.not_isSome_iff_eq_none.1 (Bool.eq_false_iff.1 hc)
  have huser : bus.registry.users.get? ⟨object.key⟩ = none := hnone (hcontains (.user ⟨object.key⟩) rfl)
  refine ⟨fun role => ?_, hcontains, ?_, ?_, fun object' hkey => ?_, fun o hkey id hok => ?_⟩
  · exact Bool.eq_false_iff.2 (fun hr => hkeeps ⟨role, object.key⟩ rfl (h.keeps_of_resolves hr))
  · simp only [Registry.kindOf, huser]
  · have hkind : bus.registry.kinds.contains ⟨object.key⟩ = false := hcontains (.kind ⟨object.key⟩) rfl
    simp only [create, Registry.create, Registry.createUser, hkind, Bool.false_eq_true, if_false]
    rfl
  · rw [h.destroy_answer, if_pos (hcontains object' hkey), hkey]
  · have hout := opened_openBinding bus o
    generalize bus.openBinding o = result at hout hok
    cases hout with
    | refused fault => cases hok
    | opened hd hbuf ha =>
      obtain ⟨e, n, hu, ht, hc, -⟩ := Registry.acquire_eq_ok ha
      have hlive : ∀ object' : Object, bus.registry.contains object' = true → object'.key ≠ object.key :=
        fun object' hc hkey => Bool.false_ne_true ((hcontains object' hkey).symm.trans hc)
      rcases hkey with hkey | hkey | hkey
      · exact hlive (.user o.user) (by simp only [Registry.contains, Table.contains, hu]; rfl) hkey
      · exact hlive (.topic o.topic) (by simp only [Registry.contains, Table.contains, ht]; rfl) hkey
      · exact hlive (.kind o.target) hc hkey

end Bus

namespace Desk

variable {d : Desk} {act : Act} {id : BindingId}

theorem mem_issues_of_opened (he : .opened id ∈ d.events act) : ⟨.binding, id.key⟩ ∈ d.issues act := by
  cases leaves_of_mem_events he with
  | opened options =>
    simp only [events] at he
    simp only [issues]
    cases hanswer : (d.bus.openBinding options).2 with
    | ok id' =>
      rw [hanswer] at he
      cases List.mem_singleton.1 he
      exact List.mem_singleton_self _
    | error fault =>
      rw [hanswer] at he
      cases he

/-- **Every act keeps the keys in order.** -/
theorem keyed_apply (h : d.Good) {issued : List IssuedKey} (hk : d.bus.Keyed issued) (act : Act) :
    (d.apply act).bus.Keyed (issued ++ d.issues act) := by
  have he := extends_apply d act
  refine ⟨List.pairwise_append.2 ⟨hk.ascending, ?_, fun i hi j hj => ?_⟩, fun i hi => ?_, fun i hi => ?_⟩
  · rcases he.next with ⟨hnone, -⟩ | ⟨role, hone, -⟩
    · rw [hnone]
      exact List.Pairwise.nil
    · rw [hone]
      exact List.pairwise_singleton _ _
  · rw [(he.key_eq hj).1]
    exact hk.below i hi
  · rcases List.mem_append.1 hi with hi | hi
    · exact Nat.lt_of_lt_of_le (hk.below i hi) he.le
    · exact (he.key_eq hi).2
  · rcases hi with ⟨object, hc, rfl⟩ | ⟨id, hc, rfl⟩
    · rcases he.live object hc with hc | hi
      · exact List.mem_append_left _ (hk.kept _ (Or.inl ⟨object, hc, rfl⟩))
      · exact List.mem_append_right _ hi
    · cases hb : d.bus.bindings.get? id with
      | some b =>
        refine List.mem_append_left _ (hk.kept _ (Or.inr ⟨id, ?_, rfl⟩))
        rw [Table.contains, hb]
        rfl
      | none =>
        rcases (deed_apply h act).unborn hb with ⟨hn, -⟩ | ⟨hevents, -⟩
        · rw [Table.contains, hn] at hc
          cases hc
        · refine List.mem_append_right _ (mem_issues_of_opened ?_)
          rw [hevents]
          exact List.mem_singleton_self _

theorem keyed_after (h : d.Good) {issued : List IssuedKey} (hk : d.bus.Keyed issued) (acts : List Act) :
    (d.after acts).bus.Keyed (issued ++ d.issued acts) := by
  induction acts generalizing d issued with
  | nil =>
    rw [Desk.issued, List.append_nil]
    exact hk
  | cons act acts ih =>
    rw [Desk.issued, ← List.append_assoc]
    exact ih (good_apply h act) (keyed_apply h hk act)

theorem keyed_new (config : Config) : (new config).bus.Keyed [] where
  ascending := List.Pairwise.nil
  below _ hi := by cases hi
  kept i hi := by
    rcases hi with ⟨object, hc, -⟩ | ⟨id, hc, -⟩
    · cases object <;> cases hc
    · cases hc

end Desk

/-! ## A call that fails issues no key -/

/-- Whether an act makes something, if it succeeds. -/
def Act.makes : Act → Bool
  | .create _ | .openBinding _ => true
  | _ => false

/-- Whether an operation is one of those that make something. -/
def Op.makes : Op → Bool
  | .create _ | .createTagged _ | .openBinding _ _ | .connect _ _ | .onTransport _ .openBinding => true
  | _ => false

theorem Desk.issued_of_not_makes {d : Desk} {acts : List Act} (h : ∀ act ∈ acts, act.makes = false) :
    d.issued acts = [] := by
  induction acts generalizing d with
  | nil => rfl
  | cons act acts ih =>
    have hact : d.issues act = [] := by
      have := h act List.mem_cons_self
      cases act <;> first | rfl | cases this
    rw [issued, hact, ih (fun act hm => h act (List.mem_cons_of_mem _ hm)), List.append_nil]

/-- Whether an answer says that the call failed. -/
def Answer.isFailure : Answer → Bool
  | .failed _ | .registryFailed _ | .ioFailed _ | .created (.failed _) | .destroyed (.failed _) | .transfer (.failed _)
  | .taggedRead (.failed _) _ | .ready (.error _) | .noSuchObject | .blocked => true
  | _ => false

namespace Session

variable {s : Session} {act : Act} {id : BindingId} {name : String}

/-- The keys that operations issue in order. -/
def issued (s : Session) (ops : List Op) : List IssuedKey := s.desk.issued (s.trail ops)

theorem makes_of_makes {call : ReadName} {op : BindingOp} (h : op.Makes call id act) : act.makes = false := by
  rcases h with h | h
  all_goals cases op <;> cases h <;> rfl

/-- Of all operations only those that create and open may make something. -/
theorem makes_of_mem_acts {op : Op} (h : act ∈ s.acts op) (hop : op.makes = false) : act.makes = false := by
  rcases of_mem_acts h with ⟨id, rfl⟩ | hentails
  · rfl
  cases hentails with
  | create _ | createTagged _ | openBinding _ _ | connect _ _ | openTransport _ _ => cases hop
  | destroy _ | destroyTagged _ | shutdown => rfl
  | onBinding _ hact | endCall hact | onTransport _ _ hact => exact makes_of_makes hact
  | start _ _ _ _ | startAll _ _ _ _ | cancelToStart _ _ _ | cancelToStartAll _ _ _ | poll _ | cancel _ => rfl

theorem issues_create {what : NewObject} (h : ∀ object, (s.bus.create what).2 ≠ .ok object) :
    s.desk.issued [.create what] = [] := by
  change keysOf (s.bus.create what).2 ++ [] = []
  cases ha : (s.bus.create what).2 with
  | ok object => exact absurd ha (h object)
  | error fault => rfl

theorem issues_openBinding {o : Options} (h : ∀ id, (s.bus.openBinding o).2 ≠ .ok id) :
    s.desk.issues (.openBinding o) = [] := by
  simp only [Desk.issues]
  cases ha : (s.desk.bus.openBinding o).2 with
  | ok id => exact absurd ha (h id)
  | error fault => rfl

/-- An opening that fails is all that its operation does. -/
theorem issued_openBinding {o : Options} {rest : BindingId → List Act} (h : ∀ id, (s.bus.openBinding o).2 ≠ .ok id) :
    s.desk.issued (.openBinding o :: match (s.bus.openBinding o).2 with
      | .error _ => []
      | .ok id => rest id) = [] := by
  rw [Desk.issued, issues_openBinding h, List.nil_append]
  cases ha : (s.bus.openBinding o).2 with
  | ok id => exact absurd ha (h id)
  | error fault => rfl

/-- **An operation that fails issues no key.** -/
theorem issued_of_failure {op : Op} (h : (s.step op).2.isFailure = true) : s.desk.issued (s.acts op) = [] := by
  by_cases hop : op.makes = false
  · exact Desk.issued_of_not_makes (fun act hm => makes_of_mem_acts hm hop)
  cases op with
  | create what | createTagged what =>
    refine issues_create (fun object ha => ?_)
    simp only [step, ha] at h
    cases h
  | openBinding name options =>
    refine issued_openBinding (fun id ha => ?_)
    have hout := Bus.opened_openBinding s.bus options
    rcases hb : s.bus.openBinding options with ⟨bus, fault | id'⟩
    · rw [hb] at ha
      cases ha
    · rw [hb] at hout
      simp only [step, hb] at h
      cases hout with
      | opened hd hbuf hacq =>
        simp only [Table.get?_insert_self, Answer.about] at h
        cases h
  | connect transport options =>
    refine issued_openBinding (fun id ha => ?_)
    rcases hb : s.bus.openBinding options with ⟨bus, fault | id'⟩
    · rw [hb] at ha
      cases ha
    · simp only [step, connect, hb] at h
      cases h
  | onTransport transport op =>
    cases op with
    | openBinding =>
      simp only [acts]
      cases ht : s.transports.get? transport with
      | none => rfl
      | some t =>
        simp only [step, named, ht, stepTransport, openTransport] at h
        simp only [transportActs]
        split at h
        · rename_i hlive
          rw [if_pos hlive]
          rfl
        · rename_i hlive
          rw [if_neg hlive, Desk.issued, issues_openBinding (fun id ha => ?_)]
          · rfl
          rcases hb : s.bus.openBinding t.options with ⟨bus, fault | id'⟩
          · rw [hb] at ha
            cases ha
          · simp only [hb] at h
            cases h
    | _ => exact absurd rfl hop
  | _ => exact absurd rfl hop

/-! ## Every run -/

theorem issued_append (s : Session) (ops rest : List Op) :
    s.issued (ops ++ rest) = s.issued ops ++ (s.run ops).issued rest := by
  rw [issued, trail_append, Desk.issued_append, ← desk_run]
  rfl

theorem keyed_run (config : Config) (ops : List Op) :
    ((new config).run ops).bus.Keyed ((new config).issued ops) := by
  have hafter := Desk.keyed_after (Desk.good_new config) (Desk.keyed_new config) ((new config).trail ops)
  rw [← show (new config).desk = Desk.new config from rfl, ← desk_run] at hafter
  exact hafter

/-- An object that was destroyed is gone from then on. -/
theorem retired_of_destroy (config : Config) (ops : List Op) {object : Object} {op : Op}
    (hop : op = .destroy object ∨ op = .destroyTagged object)
    (hok : (((new config).run ops).bus.destroy object).2 = .ok ()) (later : List Op) :
    ((((new config).run ops).step op).1.run later).bus.Retired object.key := by
  generalize hs : (new config).run ops = s at hok
  have hagrees : s.bus.Agrees := hs ▸ (good_run config ops).agrees
  have hkeyed : s.bus.Keyed ((new config).issued ops) := hs ▸ keyed_run config ops
  have hlive : s.bus.registry.contains object = true := by
    rw [hagrees.destroy_answer] at hok
    cases hc : s.bus.registry.contains object with
    | true => rfl
    | false =>
      rw [hc] at hok
      cases hok
  have hissued : object.issuedKey ∈ (new config).issued ops := hkeyed.kept _ (Or.inl ⟨object, hlive, rfl⟩)
  have hstep : (s.step op).1 = { s with bus := (s.bus.destroy object).1 } := by
    rcases hop with rfl | rfl <;> rfl
  have hgone : (s.step op).1.desk.bus.registry.Gone object := by
    refine ⟨?_, ?_⟩
    · rw [hstep]
      exact (hagrees.removed_destroy hok).gone
    · have hbelow := hkeyed.below _ hissued
      rw [object.key_issuedKey] at hbelow
      rw [hstep]
      exact Nat.lt_of_lt_of_eq hbelow (hagrees.removed_destroy hok).nextKey.symm
  have hgone' : ((s.step op).1.run later).bus.registry.Gone object := by
    have h := Desk.gone_after hgone ((s.step op).1.trail later)
    rwa [← desk_run] at h
  have hrun : (s.step op).1.run later = (new config).run (ops ++ op :: later) := by
    rw [run_append, hs]
    rfl
  rw [hrun] at hgone' ⊢
  refine (keyed_run config (ops ++ op :: later)).retired (good_run config _).agrees ?_ hgone'.1
  rw [issued_append]
  exact List.mem_append_left _ hissued

/-- The first key issued after an operation that failed is the one that would have been issued without it. -/
theorem first_key_after_failure {op : Op} (h : (s.step op).2.isFailure = true) {later : List Op} {i j : IssuedKey}
    (hi : ((s.step op).1.issued later).head? = some i) (hj : (s.issued later).head? = some j) : i.key = j.key := by
  have hnext := Desk.nextKey_after s.desk (s.acts op)
  rw [← desk_step, issued_of_failure h] at hnext
  rw [Desk.key_of_head?_issued hi, Desk.key_of_head?_issued hj]
  exact hnext

/-- **Keys are never used again and never found under another role**, in every run.  Each key that a call to create or to
open hands out is greater than all keys before it.  A key is found only under the role that it was issued for, and not
before it was issued.  Once a kind, a user or a topic is destroyed, its key is retired for the rest of the run.  An
operation that fails issues no key, so that the next one to succeed gets the key that it would have got otherwise. -/
theorem keys_never_reused (config : Config) (ops : List Op) :
    let s := (new config).run ops
    let issued := (new config).issued ops
    issued.Pairwise (fun i j => i.key < j.key) ∧
    (∀ what object, (s.bus.create what).2 = .ok object → ∀ i ∈ issued, i.key < object.key) ∧
    (∀ o id, (s.bus.openBinding o).2 = .ok id → ∀ i ∈ issued, i.key < id.key) ∧
    (∀ role key, s.bus.resolves role key = true → ⟨role, key⟩ ∈ issued) ∧
    (∀ i ∈ issued, ∀ role, s.bus.resolves role i.key = true → role = i.role) ∧
    (∀ object op, op = .destroy object ∨ op = .destroyTagged object → (s.bus.destroy object).2 = .ok () →
      ∀ later, ((s.step op).1.run later).bus.Retired object.key) ∧
    ∀ op, (s.step op).2.isFailure = true → s.issued [op] = [] ∧
      ∀ later i j, ((s.step op).1.issued later).head? = some i → (s.issued later).head? = some j → i.key = j.key := by
  intro s issued
  have hgood : s.desk.Good := good_run config ops
  have hkeyed : s.bus.Keyed issued := keyed_run config ops
  have hresolves : ∀ role key, s.bus.resolves role key = true → ⟨role, key⟩ ∈ issued := fun role key hr =>
    hkeyed.kept _ (hgood.agrees.keeps_of_resolves hr)
  have hnew : ∀ act, ∀ j ∈ s.desk.issues act, ∀ i ∈ issued, i.key < j.key := fun act j hj i hi => by
    rw [((Desk.extends_apply s.desk act).key_eq hj).1]
    exact hkeyed.below i hi
  refine ⟨hkeyed.ascending, fun what object ha i hi => ?_, fun o id ha => ?_, hresolves, fun i hi role hr => ?_,
    fun object op hop hok => retired_of_destroy config ops hop hok, fun op hfail => ⟨?_, fun later i j => ?_⟩⟩
  · refine object.key_issuedKey ▸ hnew (.create what) object.issuedKey ?_ i hi
    change object.issuedKey ∈ keysOf (s.bus.create what).2
    rw [ha]
    exact List.mem_singleton_self _
  · refine hnew (.openBinding o) ⟨.binding, id.key⟩ ?_
    simp only [Desk.issues, show (s.desk.bus.openBinding o).2 = .ok id from ha]
    exact List.mem_singleton_self _
  · exact congrArg IssuedKey.role (hkeyed.eq_of_key (hresolves role i.key hr) hi rfl)
  · change s.desk.issued (s.acts op ++ []) = []
    rw [List.append_nil]
    exact issued_of_failure hfail
  · exact first_key_after_failure hfail

end Session
end TopicBus
