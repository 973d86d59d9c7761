import TopicBus.Bus
import TopicBus.Proofs.Table
/-!
# The accounts of the registry

The registry counts the objects that refer to each kind, user and topic.  `Registry.Accounts` says of a registry and a
table of open bindings that every count is the number of live objects it stands for, that whatever a live object names
is live, and that no key was issued twice.  Each call of the registry keeps the accounts, with the open bindings that
it is called for: `acquire` with one more, `release` with one less.
-/
namespace TopicBus

/-- The bindings that are open, each with the terms it was opened on. -/
def Bus.opened (bus : Bus) : Table BindingId Terms :=
  bus.bindings.filterMap (fun b => if b.isOpen then some b.toTerms else none)

theorem Bus.get?_opened {bus : Bus} {id : BindingId} {w : Terms} :
    bus.opened.get? id = some w ↔ ∃ b, bus.bindings.get? id = some b ∧ b.isOpen = true ∧ b.toTerms = w := by
  simp [opened, Table.get?_filterMap, Option.bind_eq_some_iff]

theorem Bus.get?_opened_of_isOpen {bus : Bus} {id : BindingId} {b : Binding} (h : bus.bindings.get? id = some b)
    (ho : b.isOpen = true) : bus.opened.get? id = some b.toTerms :=
  get?_opened.2 ⟨b, h, ho, rfl⟩

namespace Registry

structure Accounts (r : Registry) (opened : Table BindingId Terms) : Prop where
  kind : ∀ k n, r.kinds.get? k = some n → k.key < r.nextKey ∧ n = r.users.count (fun e => e.kind = k)
  user : ∀ u e, r.users.get? u = some e → u.key < r.nextKey ∧ (∃ n, r.kinds.get? e.kind = some n) ∧
    e.bindings = opened.count (fun w => w.user = u)
  topic : ∀ t n, r.topics.get? t = some n → t.key < r.nextKey ∧ n = opened.count (fun w => w.topic = t)
  total : r.openBindings = opened.size
  live : ∀ id w, opened.get? id = some w →
    (∃ e, r.users.get? w.user = some e ∧ e.kind = w.kind) ∧ ∃ n, r.topics.get? w.topic = some n

theorem accounts_empty : empty.Accounts .empty where
  kind _ _ h := by cases h
  user _ _ h := by cases h
  topic _ _ h := by cases h
  total := rfl
  live _ _ h := by cases h

variable {r : Registry} {opened : Table BindingId Terms}

/-! ## New objects

A key that was never issued names nothing yet, so the counts of a new object are zero. -/

theorem Accounts.get?_kinds_next (h : r.Accounts opened) : r.kinds.get? ⟨r.nextKey⟩ = none := by
  cases hk : r.kinds.get? ⟨r.nextKey⟩ with
  | none => rfl
  | some n => exact absurd (h.kind _ n hk).1 (Nat.lt_irrefl _)

theorem Accounts.get?_users_next (h : r.Accounts opened) : r.users.get? ⟨r.nextKey⟩ = none := by
  cases hu : r.users.get? ⟨r.nextKey⟩ with
  | none => rfl
  | some e => exact absurd (h.user _ e hu).1 (Nat.lt_irrefl _)

theorem Accounts.get?_topics_next (h : r.Accounts opened) : r.topics.get? ⟨r.nextKey⟩ = none := by
  cases ht : r.topics.get? ⟨r.nextKey⟩ with
  | none => rfl
  | some n => exact absurd (h.topic _ n ht).1 (Nat.lt_irrefl _)

theorem accounts_createKind (h : r.Accounts opened) : r.createKind.1.Accounts opened where
  kind k n hk := by
    rcases Table.of_get?_insert hk with ⟨rfl, rfl⟩ | ⟨-, hk⟩
    · refine ⟨Nat.lt_succ_self _, ?_⟩
      refine (Table.count_eq_zero_iff.2 (fun u e hu => ?_)).symm
      obtain ⟨n', hn'⟩ := (h.user u e hu).2.1
      refine decide_eq_false (fun he => ?_)
      rw [he, h.get?_kinds_next] at hn'
      cases hn'
    · exact ⟨Nat.lt_succ_of_lt (h.kind k n hk).1, (h.kind k n hk).2⟩
  user u e hu := by
    obtain ⟨hlt, ⟨n, hn⟩, hc⟩ := h.user u e hu
    refine ⟨Nat.lt_succ_of_lt hlt, ?_, hc⟩
    simp only [createKind, Table.get?_insert]
    split
    · exact ⟨0, rfl⟩
    · exact ⟨n, hn⟩
  topic t n ht := ⟨Nat.lt_succ_of_lt (h.topic t n ht).1, (h.topic t n ht).2⟩
  total := h.total
  live := h.live

theorem accounts_createUser (h : r.Accounts opened) (kind : Kind) : (r.createUser kind).1.Accounts opened := by
  unfold createUser
  split
  · rename_i hlive
    obtain ⟨count, hcount⟩ := Option.isSome_iff_exists.1 hlive
    refine ⟨fun k n hk => ?_, fun u e hu => ?_, fun t n ht => ?_, h.total, fun id w hw => ?_⟩
    · simp only [Table.get?_adjust, Table.count_insert_of_none _ h.get?_users_next] at hk ⊢
      split at hk
      · rename_i he
        subst he
        rw [hcount] at hk
        have hc := h.kind k count hcount
        refine ⟨Nat.lt_succ_of_lt hc.1, ?_⟩
        rw [← Option.some.inj hk, hc.2]
        simp
      · rename_i he
        have hc := h.kind k n hk
        exact ⟨Nat.lt_succ_of_lt hc.1, by simp [hc.2, Ne.symm he]⟩
    · rcases Table.of_get?_insert hu with ⟨rfl, rfl⟩ | ⟨-, hu⟩
      · refine ⟨Nat.lt_succ_self _, Table.exists_get?_adjust.2 ⟨count, hcount⟩, ?_⟩
        refine (Table.count_eq_zero_iff.2 (fun id w hw => decide_eq_false (fun he => ?_))).symm
        obtain ⟨e, hu, -⟩ := (h.live id w hw).1
        rw [he, h.get?_users_next] at hu
        cases hu
      · obtain ⟨hlt, hkind, hc⟩ := h.user u e hu
        exact ⟨Nat.lt_succ_of_lt hlt, Table.exists_get?_adjust.2 hkind, hc⟩
    · exact ⟨Nat.lt_succ_of_lt (h.topic t n ht).1, (h.topic t n ht).2⟩
    · obtain ⟨⟨e, he, hk⟩, ht⟩ := h.live id w hw
      refine ⟨⟨e, ?_, hk⟩, ht⟩
      rw [Table.get?_insert, if_neg (fun hkey => ?_)]
      · exact he
      · rw [hkey, h.get?_users_next] at he
        cases he
  · exact h

theorem accounts_createTopic (h : r.Accounts opened) : r.createTopic.1.Accounts opened where
  kind k n hk := ⟨Nat.lt_succ_of_lt (h.kind k n hk).1, (h.kind k n hk).2⟩
  user u e hu := ⟨Nat.lt_succ_of_lt (h.user u e hu).1, (h.user u e hu).2⟩
  topic t n ht := by
    rcases Table.of_get?_insert ht with ⟨rfl, rfl⟩ | ⟨-, ht⟩
    · refine ⟨Nat.lt_succ_self _, ?_⟩
      refine (Table.count_eq_zero_iff.2 (fun id w hw => decide_eq_false (fun he => ?_))).symm
      obtain ⟨n, hn⟩ := (h.live id w hw).2
      rw [he, h.get?_topics_next] at hn
      cases hn
    · exact ⟨Nat.lt_succ_of_lt (h.topic t n ht).1, (h.topic t n ht).2⟩
  total := h.total
  live id w hw := by
    obtain ⟨hu, n, hn⟩ := h.live id w hw
    refine ⟨hu, ?_⟩
    simp only [createTopic, Table.get?_insert]
    split
    · exact ⟨0, rfl⟩
    · exact ⟨n, hn⟩

/-- **Creating keeps the accounts.** -/
theorem accounts_create (h : r.Accounts opened) (what : NewObject) : (r.create what).1.Accounts opened := by
  cases what with
  | kind => exact accounts_createKind h
  | user kind => exact accounts_createUser h kind
  | topic => exact accounts_createTopic h

/-! ## Destroyed objects

What is destroyed has a count of zero, so nothing that stays refers to it. -/

theorem obstacle_eq_ok_iff {key : Nat} {found : Option Nat} : obstacle key found = .ok () ↔ found = some 0 := by
  unfold obstacle
  split <;> simp_all

theorem accounts_destroyKind (h : r.Accounts opened) (kind : Kind) : (r.destroyKind kind).1.Accounts opened := by
  unfold destroyKind
  split
  · exact h
  · rename_i ho
    have hz := (h.kind kind 0 (obstacle_eq_ok_iff.1 ho)).2
    refine ⟨fun k n hk => ?_, fun u e hu => ?_, h.topic, h.total, h.live⟩
    · simp only [Table.get?_erase] at hk
      split at hk
      · cases hk
      · exact h.kind k n hk
    · obtain ⟨hlt, hlive, hc⟩ := h.user u e hu
      refine ⟨hlt, ?_, hc⟩
      rw [Table.get?_erase, if_neg (fun he => ?_)]
      · exact hlive
      · have := Table.count_eq_zero_iff.1 hz.symm u e hu
        rw [he] at this
        simp at this

theorem accounts_destroyUser (h : r.Accounts opened) (user : User) : (r.destroyUser user).1.Accounts opened := by
  unfold destroyUser
  split
  · exact h
  rename_i entry hentry
  split
  · exact h
  rename_i ho
  have hz : opened.count (fun w => w.user = user) = 0 := by
    rw [← (h.user user entry hentry).2.2]
    exact Option.some.inj (obstacle_eq_ok_iff.1 ho)
  refine ⟨fun k n hk => ?_, fun u e hu => ?_, h.topic, h.total, fun id w hw => ?_⟩
  · have hc := Table.count_erase (fun e : UserEntry => decide (e.kind = k)) hentry
    simp only [Table.get?_adjust] at hk ⊢
    split at hk
    · rename_i he
      obtain ⟨n', hn', rfl⟩ := Option.map_eq_some_iff.1 hk
      obtain ⟨hlt, hn⟩ := h.kind k n' hn'
      refine ⟨hlt, ?_⟩
      simp only [he, decide_true, if_true] at hc hn ⊢
      omega
    · rename_i he
      obtain ⟨hlt, hn⟩ := h.kind k n hk
      refine ⟨hlt, ?_⟩
      simp only [Ne.symm he, decide_false] at hc
      simpa [hn] using hc.symm
  · simp only [Table.get?_erase] at hu
    split at hu
    · cases hu
    · obtain ⟨hlt, hlive, hc⟩ := h.user u e hu
      exact ⟨hlt, Table.exists_get?_adjust.2 hlive, hc⟩
  · obtain ⟨⟨e, he, hk⟩, ht⟩ := h.live id w hw
    refine ⟨⟨e, ?_, hk⟩, ht⟩
    rw [Table.get?_erase, if_neg (fun hu => ?_)]
    · exact he
    · have := Table.count_eq_zero_iff.1 hz id w hw
      rw [hu] at this
      simp at this

theorem accounts_destroyTopic (h : r.Accounts opened) (topic : Topic) : (r.destroyTopic topic).1.Accounts opened := by
  unfold destroyTopic
  split
  · exact h
  rename_i ho
  have hz := (h.topic topic 0 (obstacle_eq_ok_iff.1 ho)).2
  refine ⟨h.kind, h.user, fun t n ht => ?_, h.total, fun id w hw => ⟨(h.live id w hw).1, ?_⟩⟩
  · simp only [Table.get?_erase] at ht
    split at ht
    · cases ht
    · exact h.topic t n ht
  · rw [Table.get?_erase, if_neg (fun ht => ?_)]
    · exact (h.live id w hw).2
    · have := Table.count_eq_zero_iff.1 hz.symm id w hw
      rw [ht] at this
      simp at this

/-- **Destroying keeps the accounts.** -/
theorem accounts_destroy (h : r.Accounts opened) (object : Object) : (r.destroy object).1.Accounts opened := by
  cases object with
  | kind handle => exact accounts_destroyKind h handle
  | user handle => exact accounts_destroyUser h handle
  | topic handle => exact accounts_destroyTopic h handle

/-! ## References of open bindings -/

/-- The bindings of a user do not count for its kind. -/
theorem count_kind_adjust (users : Table User UserEntry) (user : User) (g : Nat → Nat) (k : Kind) :
    (users.adjust user (fun e => { e with bindings := g e.bindings })).count (fun e => e.kind = k) =
      users.count (fun e => e.kind = k) :=
  Table.count_adjust _ _ _ (fun _ => rfl)

theorem acquire_eq_ok {user : User} {topic : Topic} {target : Kind} {r' : Registry} {id : BindingId} {kind : Kind}
    (h : r.acquire user topic target = .ok (r', id, kind)) :
    ∃ entry n, r.users.get? user = some entry ∧ r.topics.get? topic = some n ∧
      r.kinds.contains target = true ∧ id = ⟨r.nextKey⟩ ∧ kind = entry.kind ∧
      r' = { r with
        nextKey := r.nextKey + 1
        users := r.users.adjust user (fun e => { e with bindings := e.bindings + 1 })
        topics := r.topics.adjust topic (· + 1)
        openBindings := r.openBindings + 1 } := by
  unfold acquire at h
  split at h
  · cases h
  rename_i entry hentry
  split at h
  · cases h
  rename_i htopic
  split at h
  · cases h
  rename_i htarget
  cases h
  obtain ⟨n, hn⟩ := Option.isSome_iff_exists.1 (by simpa using htopic : r.topics.contains topic = true)
  exact ⟨entry, n, hentry, hn, by simpa using htarget, rfl, rfl, rfl⟩

/-- **Acquiring keeps the accounts**, with the binding that is about to be open among the open ones. -/
theorem accounts_acquire (h : r.Accounts opened) {w : Terms} {target : Kind} {r' : Registry}
    (ha : r.acquire w.user w.topic target = .ok (r', w.id, w.kind)) (hn : opened.get? w.id = none) :
    r'.Accounts (opened.insert w.id w) := by
  obtain ⟨entry, n, hentry, htopic, -, -, hkind, rfl⟩ := acquire_eq_ok ha
  refine ⟨fun k n hk => ?_, fun u e hu => ?_, fun t n ht => ?_, ?_, fun id w' hw => ?_⟩
  · obtain ⟨hlt, hc⟩ := h.kind k n hk
    exact ⟨Nat.lt_succ_of_lt hlt, hc.trans (count_kind_adjust r.users w.user (· + 1) k).symm⟩
  · simp only [Table.get?_adjust, Table.count_insert_of_none _ hn] at hu ⊢
    split at hu
    · rename_i he
      subst he
      obtain ⟨e', he', rfl⟩ := Option.map_eq_some_iff.1 hu
      obtain ⟨hlt, hlive, hc⟩ := h.user _ e' he'
      exact ⟨Nat.lt_succ_of_lt hlt, hlive, by simp [hc]⟩
    · rename_i he
      obtain ⟨hlt, hlive, hc⟩ := h.user u e hu
      exact ⟨Nat.lt_succ_of_lt hlt, hlive, by simp [hc, Ne.symm he]⟩
  · simp only [Table.get?_adjust, Table.count_insert_of_none _ hn] at ht ⊢
    split at ht
    · rename_i he
      subst he
      obtain ⟨n', hn', rfl⟩ := Option.map_eq_some_iff.1 ht
      obtain ⟨hlt, hc⟩ := h.topic _ n' hn'
      exact ⟨Nat.lt_succ_of_lt hlt, by simp [hc]⟩
    · rename_i he
      obtain ⟨hlt, hc⟩ := h.topic t n ht
      exact ⟨Nat.lt_succ_of_lt hlt, by simp [hc, Ne.symm he]⟩
  · rw [Table.size_eq_count, Table.count_insert_of_none _ hn, ← Table.size_eq_count, h.total]
    simp
  · have hw' : (∃ e, r.users.get? w'.user = some e ∧ e.kind = w'.kind) ∧ ∃ n, r.topics.get? w'.topic = some n := by
      rcases Table.of_get?_insert hw with ⟨-, rfl⟩ | ⟨-, hw⟩
      · exact ⟨⟨entry, hentry, hkind.symm⟩, n, htopic⟩
      · exact h.live id w' hw
    obtain ⟨⟨e, he, hk⟩, ht⟩ := hw'
    refine ⟨?_, Table.exists_get?_adjust.2 ht⟩
    simp only [Table.get?_adjust, he]
    split
    · exact ⟨_, rfl, hk⟩
    · exact ⟨e, rfl, hk⟩

/-- **An open binding is counted** where its references are, so giving them up never subtracts from zero. -/
theorem Accounts.counted (h : r.Accounts opened) {id : BindingId} {w : Terms} (hw : opened.get? id = some w) :
    (∃ e, r.users.get? w.user = some e ∧ 0 < e.bindings) ∧ (∃ n, r.topics.get? w.topic = some n ∧ 0 < n) ∧
      0 < r.openBindings := by
  obtain ⟨⟨e, he, -⟩, n, hn⟩ := h.live id w hw
  refine ⟨⟨e, he, ?_⟩, ⟨n, hn, ?_⟩, ?_⟩
  · rw [(h.user _ e he).2.2]
    exact Table.count_pos_iff.2 ⟨id, w, hw, by simp⟩
  · rw [(h.topic _ n hn).2]
    exact Table.count_pos_iff.2 ⟨id, w, hw, by simp⟩
  · rw [h.total, Table.size_eq_count]
    exact Table.count_pos_iff.2 ⟨id, w, hw, rfl⟩

/-- **Releasing keeps the accounts**, without the binding that gave up its references. -/
theorem accounts_release (h : r.Accounts opened) {id : BindingId} {w : Terms} (hw : opened.get? id = some w) :
    (r.release w.user w.topic).Accounts (opened.erase id) := by
  refine ⟨fun k n hk => ?_, fun u e hu => ?_, fun t n ht => ?_, ?_, fun id' w' hw' => ?_⟩
  · obtain ⟨hlt, hc⟩ := h.kind k n hk
    exact ⟨hlt, hc.trans (count_kind_adjust r.users w.user (· - 1) k).symm⟩
  · have hc := Table.count_erase (fun w' : Terms => decide (w'.user = u)) hw
    simp only [release, Table.get?_adjust] at hu ⊢
    split at hu
    · rename_i he
      obtain ⟨e', he', rfl⟩ := Option.map_eq_some_iff.1 hu
      obtain ⟨hlt, hlive, hc'⟩ := h.user u e' he'
      refine ⟨hlt, hlive, ?_⟩
      simp only [he, decide_true, if_true] at hc hc' ⊢
      omega
    · rename_i he
      obtain ⟨hlt, hlive, hc'⟩ := h.user u e hu
      refine ⟨hlt, hlive, ?_⟩
      simp only [Ne.symm he, decide_false] at hc
      simpa [hc'] using hc.symm
  · have hc := Table.count_erase (fun w' : Terms => decide (w'.topic = t)) hw
    simp only [release, Table.get?_adjust] at ht ⊢
    split at ht
    · rename_i he
      obtain ⟨n', hn', rfl⟩ := Option.map_eq_some_iff.1 ht
      obtain ⟨hlt, hc'⟩ := h.topic t n' hn'
      refine ⟨hlt, ?_⟩
      simp only [he, decide_true, if_true] at hc hc' ⊢
      omega
    · rename_i he
      obtain ⟨hlt, hc'⟩ := h.topic t n ht
      refine ⟨hlt, ?_⟩
      simp only [Ne.symm he, decide_false] at hc
      simpa [hc'] using hc.symm
  · have hc := Table.count_erase (fun _ : Terms => true) hw
    simp only [release, h.total, Table.size_eq_count]
    simp only [if_true] at hc
    omega
  · rw [Table.get?_erase] at hw'
    split at hw'
    · cases hw'
    obtain ⟨⟨e, he, hk⟩, ht⟩ := h.live id' w' hw'
    refine ⟨?_, Table.exists_get?_adjust.2 ht⟩
    simp only [release, Table.get?_adjust, he]
    split
    · exact ⟨_, rfl, hk⟩
    · exact ⟨e, rfl, hk⟩

end Registry
end TopicBus
