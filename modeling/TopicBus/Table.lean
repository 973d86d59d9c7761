/-!
# Tables

A finite map as the list of its entries, oldest first, in which no key stands twice.  Replacing a value keeps its
place, so a value that is changed and changed back leaves the very table it was found in; that is why the bus can be
compared with itself before and after by plain equality.

Lemmas speak of a table through `get?`; each operation says what it does to `get?` of any key.
-/
namespace TopicBus

structure Table (κ α : Type) where
  entries : List (κ × α)
  distinct : (entries.map Prod.fst).Nodup
deriving DecidableEq

namespace Table

variable {κ α : Type}

def empty : Table κ α := ⟨[], by simp⟩

def keys (t : Table κ α) : List κ := t.entries.map Prod.fst

def values (t : Table κ α) : List α := t.entries.map Prod.snd

def size (t : Table κ α) : Nat := t.entries.length

/-- Applies `f` to every key and value; the keys stay. -/
def mapValues (f : κ → α → α) (t : Table κ α) : Table κ α :=
  ⟨t.entries.map (fun e => (e.1, f e.1 e.2)), by
    have h : (t.entries.map (fun e => (e.1, f e.1 e.2))).map Prod.fst = t.entries.map Prod.fst := by
      rw [List.map_map]; rfl
    rw [h]; exact t.distinct⟩

/-- The entries that satisfy `p`. -/
def filter (p : κ → α → Bool) (t : Table κ α) : Table κ α :=
  ⟨t.entries.filter (fun e => p e.1 e.2), (List.filter_sublist.map Prod.fst).nodup t.distinct⟩

@[ext] theorem ext_entries {s t : Table κ α} (h : s.entries = t.entries) : s = t := by
  cases s; cases t; cases h; rfl

section Lookup

variable [DecidableEq κ]

def get? (t : Table κ α) (k : κ) : Option α :=
  (t.entries.find? (fun e => e.1 = k)).map Prod.snd

def contains (t : Table κ α) (k : κ) : Bool := (t.get? k).isSome

def erase (t : Table κ α) (k : κ) : Table κ α := t.filter (fun k' _ => k' ≠ k)

/-- Changes the value of `k`, if there is one. -/
def adjust (t : Table κ α) (k : κ) (f : α → α) : Table κ α :=
  t.mapValues (fun k' a => if k' = k then f a else a)

theorem get?_eq_none_iff {t : Table κ α} {k : κ} : t.get? k = none ↔ k ∉ t.keys := by
  simp only [get?, keys, Option.map_eq_none_iff, List.find?_eq_none, List.mem_map, decide_eq_true_eq]
  exact ⟨fun h ⟨e, he, hk⟩ => h e he hk, fun h e he hk => h ⟨e, he, hk⟩⟩

/-- Gives `k` the value `a`, in the place of its old value or else at the end. -/
def insert (t : Table κ α) (k : κ) (a : α) : Table κ α :=
  if h : (t.get? k).isSome then t.adjust k (fun _ => a)
  else ⟨t.entries ++ [(k, a)], by
    have hk : k ∉ t.keys := get?_eq_none_iff.1 (Option.not_isSome_iff_eq_none.1 h)
    rw [List.map_append]
    exact List.nodup_append.2 ⟨t.distinct, by simp, fun x hx y hy => by
      simp only [List.map_cons, List.map_nil, List.mem_singleton] at hy
      rintro rfl
      exact hk (hy ▸ hx)⟩⟩

/-! ## What each operation does to `get?` -/

@[simp] theorem get?_empty (k : κ) : (empty : Table κ α).get? k = none := rfl

theorem get?_mapValues (t : Table κ α) (f : κ → α → α) (k : κ) :
    (t.mapValues f).get? k = (t.get? k).map (f k) := by
  obtain ⟨l, hl⟩ := t
  simp only [get?, mapValues]
  clear hl
  induction l with
  | nil => rfl
  | cons e l ih =>
    by_cases h : e.1 = k
    · simp [h]
    · simpa [h] using ih

theorem get?_adjust (t : Table κ α) (k k' : κ) (f : α → α) :
    (t.adjust k f).get? k' = if k' = k then (t.get? k').map f else t.get? k' := by
  rw [adjust, get?_mapValues]
  by_cases h : k' = k
  · simp [h]
  · simp [h]

theorem get?_erase (t : Table κ α) (k k' : κ) :
    (t.erase k).get? k' = if k' = k then none else t.get? k' := by
  obtain ⟨l, hl⟩ := t
  simp only [get?, erase, filter]
  clear hl
  induction l with
  | nil => simp
  | cons e l ih =>
    by_cases h : e.1 = k
    · by_cases h' : k' = k
      · simp [h']
      · have : ¬ k = k' := fun hk => h' hk.symm
        simpa [h, h', this] using ih
    · by_cases h' : e.1 = k'
      · have : ¬ k' = k := fun hk => h (h'.trans hk)
        simp [h', this]
      · simpa [h, h'] using ih

theorem get?_insert (t : Table κ α) (k k' : κ) (a : α) :
    (t.insert k a).get? k' = if k' = k then some a else t.get? k' := by
  unfold insert
  split
  · rename_i h
    rw [get?_adjust]
    split
    · rename_i hk
      subst hk
      obtain ⟨b, hb⟩ := Option.isSome_iff_exists.1 h
      simp [hb]
    · rfl
  · rename_i h
    have hn : t.get? k = none := Option.not_isSome_iff_eq_none.1 h
    simp only [get?, List.find?_append, Option.map_or]
    change (t.get? k').or _ = _
    by_cases hk : k' = k
    · simp [hk, hn]
    · have : ¬ k = k' := fun e => hk e.symm
      simp only [List.find?_cons, this, decide_false, List.find?_nil, Option.map_none, hk, if_false, Option.or_none]
      rfl

end Lookup

end Table

end TopicBus
