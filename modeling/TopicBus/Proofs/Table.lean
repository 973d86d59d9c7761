import TopicBus.Table
import Mathlib.Data.List.Basic
/-!
# Views and counts of a table

A table can be looked at through a partial function on its values (`filterMap`), its entries can be counted (`count`),
and two tables can be compared entry by entry (`Paired`).  Each change of a table changes a view and a count in one way,
stated here; what a development says about "the open ones" or "how many refer to it" rests on these equations.
-/
namespace TopicBus
namespace Table

variable {κ α β : Type}

/-- The values that `f` makes of those it keeps. -/
def filterMap (f : α → Option β) (t : Table κ α) : Table κ β :=
  ⟨t.entries.filterMap (fun e => (f e.2).map (e.1, ·)), by
    have h : (t.entries.filterMap (fun e => (f e.2).map (e.1, ·))).map Prod.fst =
        (t.entries.filter (fun e => (f e.2).isSome)).map Prod.fst := by
      induction t.entries with
      | nil => rfl
      | cons e l ih => cases hf : f e.2 <;> simp [hf, ih]
    rw [h]
    exact (List.filter_sublist.map Prod.fst).nodup t.distinct⟩

/-- How many entries satisfy `p`. -/
def count (p : α → Bool) (t : Table κ α) : Nat := t.values.countP p

theorem filterMap_mapValues (f : α → Option β) (g : κ → α → α) (t : Table κ α) (h : ∀ k a, f (g k a) = f a) :
    (t.mapValues g).filterMap f = t.filterMap f := by
  apply ext_entries
  simp only [filterMap, mapValues, List.filterMap_map]
  congr 1
  funext e
  simp [h]

variable [DecidableEq κ]

theorem get?_eq_some_iff {t : Table κ α} {k : κ} {a : α} : t.get? k = some a ↔ (k, a) ∈ t.entries := by
  obtain ⟨l, hl⟩ := t
  simp only [get?]
  induction l with
  | nil => simp
  | cons e l ih =>
    simp only [List.map_cons, List.nodup_cons] at hl
    by_cases h : e.1 = k
    · simp only [List.find?_cons, h, decide_true, Option.map_some, Option.some.injEq, List.mem_cons]
      constructor
      · rintro rfl
        exact Or.inl (by rw [← h])
      · rintro (rfl | hm)
        · rfl
        · exact absurd (h ▸ List.mem_map_of_mem (f := Prod.fst) hm) hl.1
    · simp only [List.find?_cons, h, decide_false, List.mem_cons, ih hl.2]
      exact ⟨Or.inr, fun hm => hm.resolve_left (fun e' => h (by rw [← e']))⟩

theorem get?_insert_self (t : Table κ α) (k : κ) (a : α) : (t.insert k a).get? k = some a := by
  rw [get?_insert, if_pos rfl]

theorem get?_insert_of_ne (t : Table κ α) {k k' : κ} (h : k' ≠ k) (a : α) : (t.insert k a).get? k' = t.get? k' := by
  rw [get?_insert, if_neg h]

/-- What holds of an entry, and of what is put in its place, holds of what is found after an insertion. -/
theorem exists_get?_insert {P : α → Prop} {t : Table κ α} {k k' : κ} {a a' : α} (ha : t.get? k = some a) (hsame : P a)
    (hput : k = k' → P a') : ∃ a'', (t.insert k' a').get? k = some a'' ∧ P a'' := by
  by_cases hk : k = k'
  · exact ⟨a', hk ▸ get?_insert_self .., hput hk⟩
  · exact ⟨a, (get?_insert_of_ne t hk a').trans ha, hsame⟩

/-- What is found after an insertion is the new entry or was there. -/
theorem of_get?_insert {t : Table κ α} {k k' : κ} {a a' : α} (h : (t.insert k a).get? k' = some a') :
    (k' = k ∧ a' = a) ∨ (k' ≠ k ∧ t.get? k' = some a') := by
  rw [get?_insert] at h
  split at h
  · rename_i hk
    exact Or.inl ⟨hk, (Option.some.inj h).symm⟩
  · rename_i hk
    exact Or.inr ⟨hk, h⟩

theorem of_get?_erase {t : Table κ α} {k k' : κ} {a : α} (h : (t.erase k).get? k' = some a) :
    k' ≠ k ∧ t.get? k' = some a := by
  rw [get?_erase] at h
  split at h
  · cases h
  · rename_i hk
    exact ⟨hk, h⟩

theorem get?_erase_of_ne (t : Table κ α) {k k' : κ} (h : k' ≠ k) : (t.erase k).get? k' = t.get? k' := by
  rw [get?_erase, if_neg h]

theorem ne_of_get? {t : Table κ α} {k k' : κ} {a : α} (h : t.get? k = none) (h' : t.get? k' = some a) : k ≠ k' := by
  rintro rfl
  cases h.symm.trans h'

theorem mem_values_iff {t : Table κ α} {a : α} : a ∈ t.values ↔ ∃ k, t.get? k = some a := by
  simp only [values, List.mem_map, get?_eq_some_iff]
  constructor
  · rintro ⟨e, he, rfl⟩
    exact ⟨e.1, he⟩
  · rintro ⟨k, h⟩
    exact ⟨(k, a), h, rfl⟩

theorem any_values_iff {t : Table κ α} {p : α → Bool} :
    t.values.any p = true ↔ ∃ k a, t.get? k = some a ∧ p a = true := by
  rw [List.any_eq_true]
  constructor
  · rintro ⟨a, ha, hp⟩
    obtain ⟨k, hk⟩ := mem_values_iff.1 ha
    exact ⟨k, a, hk, hp⟩
  · rintro ⟨k, a, hk, hp⟩
    exact ⟨a, mem_values_iff.2 ⟨k, hk⟩, hp⟩

theorem mem_keys_iff {t : Table κ α} {k : κ} : k ∈ t.keys ↔ ∃ a, t.get? k = some a := by
  simp only [keys, List.mem_map, get?_eq_some_iff]
  constructor
  · rintro ⟨e, he, rfl⟩
    exact ⟨e.2, he⟩
  · rintro ⟨a, h⟩
    exact ⟨(k, a), h, rfl⟩

theorem contains_adjust (t : Table κ α) (k k' : κ) (f : α → α) : (t.adjust k f).contains k' = t.contains k' := by
  rw [contains, get?_adjust]
  split
  · rw [Option.isSome_map]
    rfl
  · rfl

theorem of_contains_insert {t : Table κ α} {k k' : κ} {a : α} (h : (t.insert k a).contains k' = true) :
    t.contains k' = true ∨ k' = k := by
  obtain ⟨a', ha⟩ := Option.isSome_iff_exists.1 h
  rcases of_get?_insert ha with ⟨hk, -⟩ | ⟨-, hk⟩
  · exact Or.inr hk
  · exact Or.inl (by rw [contains, hk]; rfl)

theorem of_contains_erase {t : Table κ α} {k k' : κ} (h : (t.erase k).contains k' = true) : t.contains k' = true := by
  obtain ⟨a, ha⟩ := Option.isSome_iff_exists.1 h
  rw [contains, (of_get?_erase ha).2]
  rfl

/-- **An entry stands in one place**: what is before it and after it has other keys. -/
theorem exists_split {t : Table κ α} {k : κ} {a : α} (h : t.get? k = some a) :
    ∃ l r, t.entries = l ++ (k, a) :: r ∧ (∀ e ∈ l, e.1 ≠ k) ∧ ∀ e ∈ r, e.1 ≠ k := by
  obtain ⟨l, r, hlr⟩ := List.append_of_mem (get?_eq_some_iff.1 h)
  have hd := t.distinct
  rw [hlr, List.map_append, List.map_cons, List.nodup_append, List.nodup_cons] at hd
  obtain ⟨-, ⟨hr, -⟩, hl⟩ := hd
  refine ⟨l, r, hlr, fun e he hk => ?_, fun e he hk => ?_⟩
  · exact hl e.1 (List.mem_map_of_mem he) k List.mem_cons_self hk
  · exact hr (List.mem_map.2 ⟨e, he, hk⟩)

theorem entries_insert_of_none {t : Table κ α} {k : κ} (h : t.get? k = none) (a : α) :
    (t.insert k a).entries = t.entries ++ [(k, a)] := by
  unfold insert
  rw [dif_neg (by simp [h])]

theorem insert_of_some {t : Table κ α} {k : κ} {a : α} (h : t.get? k = some a) (a' : α) :
    t.insert k a' = t.mapValues (fun k' b => if k' = k then a' else b) := by
  unfold insert
  rw [dif_pos (by simp [h])]
  rfl

/-- Replacing a value by itself changes nothing. -/
theorem insert_self {t : Table κ α} {k : κ} {a : α} (h : t.get? k = some a) : t.insert k a = t := by
  rw [insert_of_some h]
  apply ext_entries
  refine (List.map_congr_left (fun e he => ?_)).trans (List.map_id _)
  by_cases hk : e.1 = k
  · have he' : t.get? k = some e.2 := get?_eq_some_iff.2 (by rw [← hk]; exact he)
    simp only [if_pos hk, Option.some.inj (h.symm.trans he'), id_eq]
  · simp only [if_neg hk, id_eq]

/-- Of two replacements the second counts. -/
theorem insert_insert {t : Table κ α} {k : κ} {a : α} (h : t.get? k = some a) (a' a'' : α) :
    (t.insert k a').insert k a'' = t.insert k a'' := by
  rw [insert_of_some (get?_insert_self t k a'), insert_of_some h, insert_of_some h]
  apply ext_entries
  refine (List.map_map ..).trans (List.map_congr_left (fun e _ => ?_))
  simp only [Function.comp_apply]
  split <;> rfl

theorem exists_get?_adjust {t : Table κ α} {k k' : κ} {f : α → α} :
    (∃ a, (t.adjust k f).get? k' = some a) ↔ ∃ a, t.get? k' = some a := by
  rw [get?_adjust]
  split
  · cases t.get? k' <;> simp
  · rfl

/-- The entries before and after one that is erased stay. -/
theorem entries_erase {t : Table κ α} {k : κ} {l r : List (κ × α)} {a : α} (h : t.entries = l ++ (k, a) :: r)
    (hl : ∀ e ∈ l, e.1 ≠ k) (hr : ∀ e ∈ r, e.1 ≠ k) : (t.erase k).entries = l ++ r := by
  have keep : ∀ m : List (κ × α), (∀ e ∈ m, e.1 ≠ k) → m.filter (fun e => decide (e.1 ≠ k)) = m :=
    fun m hm => List.filter_eq_self.2 (fun e he => by simpa using hm e he)
  simp only [erase, filter, h, List.filter_append, List.filter_cons, keep l hl, keep r hr]
  simp

/-! ## Views -/

theorem get?_filterMap (f : α → Option β) (t : Table κ α) (k : κ) :
    (t.filterMap f).get? k = (t.get? k).bind f := by
  ext b
  simp only [get?_eq_some_iff, Option.bind_eq_some_iff, filterMap, List.mem_filterMap, Option.map_eq_some_iff]
  constructor
  · rintro ⟨e, he, c, hc, heq⟩
    cases heq
    exact ⟨e.2, he, hc⟩
  · rintro ⟨a, ha, hf⟩
    exact ⟨(k, a), ha, b, hf, rfl⟩

/-- Replacing a value by one that looks the same changes no view. -/
theorem filterMap_insert_same {f : α → Option β} {t : Table κ α} {k : κ} {a a' : α} (h : t.get? k = some a)
    (hf : f a' = f a) : (t.insert k a').filterMap f = t.filterMap f := by
  apply ext_entries
  rw [insert_of_some h]
  simp only [filterMap, mapValues, List.filterMap_map]
  refine List.filterMap_congr (fun e he => ?_)
  by_cases hk : e.1 = k
  · have ha : e.2 = a := by
      have he' : t.get? k = some e.2 := get?_eq_some_iff.2 (by rw [← hk]; exact he)
      rw [h] at he'
      exact (Option.some.inj he').symm
    simp [hk, hf, ha]
  · simp [hk]

theorem filterMap_insert_new {f : α → Option β} {t : Table κ α} {k : κ} {a : α} {b : β} (h : t.get? k = none)
    (hf : f a = some b) : (t.insert k a).filterMap f = (t.filterMap f).insert k b := by
  apply ext_entries
  have hn : (t.filterMap f).get? k = none := by rw [get?_filterMap, h]; rfl
  rw [entries_insert_of_none hn]
  simp [filterMap, entries_insert_of_none h, hf]

theorem filterMap_insert_gone {f : α → Option β} {t : Table κ α} {k : κ} {a a' : α} (h : t.get? k = some a)
    (hf : f a' = none) : (t.insert k a').filterMap f = (t.filterMap f).erase k := by
  obtain ⟨l, r, hlr, hl, hr⟩ := exists_split h
  apply ext_entries
  rw [insert_of_some h]
  have keep : ∀ m : List (κ × α), (∀ e ∈ m, e.1 ≠ k) →
      m.filterMap (fun e => (f (if e.1 = k then a' else e.2)).map (e.1, ·)) =
        (m.filterMap (fun e => (f e.2).map (e.1, ·))).filter (fun e => decide (e.1 ≠ k)) := by
    intro m hm
    induction m with
    | nil => rfl
    | cons e m ih =>
      have he : e.1 ≠ k := hm e List.mem_cons_self
      have im := ih (fun e' he' => hm e' (List.mem_cons_of_mem _ he'))
      cases hfe : f e.2 with
      | none => simpa [List.filterMap_cons, he, hfe] using im
      | some b => simpa [List.filterMap_cons, he, hfe] using im
  simp only [filterMap, mapValues, erase, filter, hlr, List.filterMap_map, Function.comp_def, List.filterMap_append,
    List.filterMap_cons, List.filter_append, keep l hl, keep r hr]
  cases hfa : f a <;> simp [hf]

/-! ## Counts -/

theorem count_insert_of_none (p : α → Bool) {t : Table κ α} {k : κ} (h : t.get? k = none) (a : α) :
    (t.insert k a).count p = t.count p + if p a then 1 else 0 := by
  simp [count, values, entries_insert_of_none h, List.countP_append, List.countP_singleton]

theorem count_erase (p : α → Bool) {t : Table κ α} {k : κ} {a : α} (h : t.get? k = some a) :
    (t.erase k).count p + (if p a then 1 else 0) = t.count p := by
  obtain ⟨l, r, hlr, hl, hr⟩ := exists_split h
  simp only [count, values, entries_erase hlr hl hr, hlr, List.map_append, List.map_cons, List.countP_append,
    List.countP_cons]
  omega

/-- A change of one value that `p` does not see changes no count. -/
theorem count_adjust (p : α → Bool) (t : Table κ α) (k : κ) {f : α → α} (hf : ∀ a, p (f a) = p a) :
    (t.adjust k f).count p = t.count p := by
  simp only [count, values, adjust, mapValues, List.map_map, List.countP_map]
  refine List.countP_congr (fun e _ => ?_)
  by_cases h : e.1 = k <;> simp [h, hf]

theorem count_pos_iff {p : α → Bool} {t : Table κ α} :
    0 < t.count p ↔ ∃ k a, t.get? k = some a ∧ p a = true := by
  rw [count, List.countP_pos_iff]
  constructor
  · rintro ⟨a, ha, hp⟩
    obtain ⟨k, hk⟩ := mem_values_iff.1 ha
    exact ⟨k, a, hk, hp⟩
  · rintro ⟨k, a, hk, hp⟩
    exact ⟨a, mem_values_iff.2 ⟨k, hk⟩, hp⟩

theorem count_eq_zero_iff {p : α → Bool} {t : Table κ α} :
    t.count p = 0 ↔ ∀ k a, t.get? k = some a → p a = false := by
  constructor
  · intro h k a hk
    cases hp : p a with
    | false => rfl
    | true => exact absurd (count_pos_iff.2 ⟨k, a, hk, hp⟩) (by omega)
  · intro h
    refine Nat.eq_zero_of_not_pos (fun hp => ?_)
    obtain ⟨k, a, hk, hpa⟩ := count_pos_iff.1 hp
    rw [h k a hk] at hpa
    cases hpa

omit [DecidableEq κ] in
theorem size_eq_count (t : Table κ α) : t.size = t.count (fun _ => true) := by
  simp [size, count, values]

/-! ## Tables compared entry by entry -/

variable {R : α → α → Prop} {t t' t'' : Table κ α}

/-- Both tables have the same keys, and at each key `R` relates the one to the other. -/
def Paired (R : α → α → Prop) (t t' : Table κ α) : Prop :=
  ∀ k, (t.get? k = none ∧ t'.get? k = none) ∨ ∃ a a', t.get? k = some a ∧ t'.get? k = some a' ∧ R a a'

theorem Paired.refl (h : ∀ a, R a a) (t : Table κ α) : Paired R t t := by
  intro k
  cases hk : t.get? k with
  | none => exact Or.inl ⟨rfl, rfl⟩
  | some a => exact Or.inr ⟨a, a, rfl, rfl, h a⟩

theorem Paired.symm (hR : ∀ a a', R a a' → R a' a) (h : Paired R t t') : Paired R t' t := fun k =>
  (h k).imp And.symm (fun ⟨a, a', ha, ha', hr⟩ => ⟨a', a, ha', ha, hR a a' hr⟩)

theorem Paired.trans (hR : ∀ a a' a'', R a a' → R a' a'' → R a a'') (h : Paired R t t') (h' : Paired R t' t'') :
    Paired R t t'' := by
  intro k
  rcases h k with ⟨hn, hn'⟩ | ⟨a, a', ha, ha', hr⟩
  · rcases h' k with ⟨-, hn''⟩ | ⟨b, -, hb, -, -⟩
    · exact Or.inl ⟨hn, hn''⟩
    · rw [hn'] at hb
      cases hb
  · rcases h' k with ⟨hn', -⟩ | ⟨b, b', hb, hb', hr'⟩
    · rw [ha'] at hn'
      cases hn'
    · obtain rfl := Option.some.inj (ha'.symm.trans hb)
      exact Or.inr ⟨a, b', ha, hb', hR _ _ _ hr hr'⟩

theorem Paired.insert (h : Paired R t t') (k : κ) {a a' : α} (hr : R a a') :
    Paired R (t.insert k a) (t'.insert k a') := by
  intro k'
  rw [get?_insert, get?_insert]
  split
  · exact Or.inr ⟨a, a', rfl, rfl, hr⟩
  · exact h k'

theorem Paired.mapValues (h : Paired R t t') {f : κ → α → α} (hf : ∀ k a a', R a a' → R (f k a) (f k a')) :
    Paired R (t.mapValues f) (t'.mapValues f) := by
  intro k
  rw [get?_mapValues, get?_mapValues]
  rcases h k with ⟨hn, hn'⟩ | ⟨a, a', ha, ha', hr⟩
  · rw [hn, hn']
    exact Or.inl ⟨rfl, rfl⟩
  · rw [ha, ha']
    exact Or.inr ⟨f k a, f k a', rfl, rfl, hf k a a' hr⟩

end Table
end TopicBus
