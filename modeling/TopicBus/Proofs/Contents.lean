import TopicBus.Buffer
/-!
# A buffer is a list of bytes with a limit

Whatever is done with a buffer, its contents and the bytes it hands out are those of a plain list of bytes that is held
to the same limit (`BufferOp.bounded`).  How much room there is shows in none of this.  It is enough that reserving
provides the room asked for (`Reserve.Provides`), be it by another rule each time, as it may be after a split gave the
room away; the rule by which the room doubles is one of them (`Buffer.step_eq_use`).
-/
namespace TopicBus

/-! ## A list of bytes with a limit -/

namespace BufferOp

/-- What an operation makes of a list of bytes, and the bytes it hands out. -/
def onBytes (data : Bytes) : BufferOp → Bytes × Bytes
  | .ensure _ => (data, [])
  | .fill src => (src, [])
  | .extend src => (data ++ src, [])
  | .take => ([], data)
  | .split => ([], data)
  | .copy => (data, data)
  | .clear => ([], [])

/-- The size that an operation needs, if it needs any, where `held` bytes are held. -/
def needs (held : Nat) : BufferOp → Option Nat
  | .ensure wanted => some wanted
  | .fill src => some src.length
  | .extend src => some (held + src.length)
  | _ => none

/-- Why a limit refuses an operation, if it does: the size needed is beyond it. -/
def refusal (limit : Option Nat) (held : Nat) (op : BufferOp) : Option OverLimit :=
  match op.needs held, limit with
  | some size, some most => if most < size then some ⟨size, most⟩ else none
  | _, _ => none

/-- An operation on a list of bytes with a limit: the list after it, and the answer. -/
def bounded (limit : Option Nat) (data : Bytes) (op : BufferOp) : Bytes × Except OverLimit Bytes :=
  match op.refusal limit data.length with
  | some cause => (data, .error cause)
  | none => ((op.onBytes data).1, .ok (op.onBytes data).2)

variable {op : BufferOp} {limit : Option Nat} {data : Bytes} {held size : Nat} {cause : OverLimit}

theorem refusal_eq_some_iff : op.refusal limit held = some cause ↔
    ∃ size most, op.needs held = some size ∧ limit = some most ∧ most < size ∧ cause = ⟨size, most⟩ := by
  unfold refusal
  split
  · rename_i size most hsize
    rw [hsize]
    constructor
    · intro h
      split at h
      · rename_i hlt
        exact ⟨size, most, rfl, rfl, hlt, (Option.some.inj h).symm⟩
      · exact absurd h.symm (Option.some_ne_none _)
    · rintro ⟨_, _, ⟨⟩, ⟨⟩, hlt, rfl⟩
      exact if_pos hlt
  · rename_i hnone
    exact ⟨fun h => absurd h.symm (Option.some_ne_none _),
      fun ⟨size, most, hsize, hmost, _⟩ => absurd hmost (hnone size most hsize)⟩

theorem bounded_error_iff : (op.bounded limit data).2 = .error cause ↔
    ∃ size most, op.needs data.length = some size ∧ limit = some most ∧ most < size ∧ cause = ⟨size, most⟩ := by
  rw [← refusal_eq_some_iff, bounded]
  split
  · rename_i found hfound
    rw [hfound]
    exact ⟨fun h => congrArg some (Except.error.inj h), fun h => congrArg Except.error (Option.some.inj h)⟩
  · rename_i hnone
    rw [hnone]
    exact ⟨(by cases ·), fun h => absurd h.symm (Option.some_ne_none _)⟩

theorem within_of_refusal (h : op.refusal limit held = none) (hn : op.needs held = some size) : Within limit size := by
  intro most hmost
  have hnot : ¬ most < size := fun hlt => by
    rw [refusal_eq_some_iff.2 ⟨size, most, hn, hmost, hlt, rfl⟩] at h
    cases h
  exact Nat.le_of_not_lt hnot

/-- The limit on what is needed is the limit that is checked. -/
theorem refusal_of_checkLimit (hn : op.needs held = some size) :
    op.refusal limit held = match checkLimit limit size with | .ok () => none | .error cause => some cause := by
  unfold refusal checkLimit
  rw [hn]
  cases limit with
  | none => rfl
  | some most =>
    by_cases h : size ≤ most
    · simp only [if_pos h, if_neg (Nat.not_lt.2 h)]
    · simp only [if_neg h, if_pos (Nat.not_le.1 h)]

end BufferOp

/-! ## Room by any rule -/

/-- A rule by which room is made: the room there is after `more` bytes were asked for beyond the `held` ones. -/
abbrev Reserve := (capacity held more : Nat) → Nat

namespace Reserve

/-- The room asked for is there. -/
def Provides (reserve : Reserve) : Prop := ∀ capacity held more, held + more ≤ reserve capacity held more

/-- The room at least doubles. -/
def doubling : Reserve := fun capacity held more => grown capacity (held + more)

/-- There is just the room asked for. -/
def exact : Reserve := fun _ held more => held + more

theorem provides_doubling : doubling.Provides := fun capacity held more => wanted_le_grown capacity (held + more)

theorem provides_exact : exact.Provides := fun _ _ _ => Nat.le_refl _

end Reserve

/-- An operation, and the rule by which room is made for it. -/
structure BufferUse where
  reserve : Reserve
  op : BufferOp

/-- Operations one after the other: the state after them, and the answer of each. -/
def inTurn {σ ω α : Type} (step : σ → ω → σ × α) : σ → List ω → σ × List α
  | state, [] => (state, [])
  | state, op :: ops =>
    let next := step state op
    let rest := inTurn step next.1 ops
    (rest.1, next.2 :: rest.2)

namespace Buffer

/-- The room there is once there is room for `wanted` bytes: where it is too little, what is missing beyond the bytes
held is asked for. -/
def roomBy (reserve : Reserve) (b : Buffer) (wanted : Nat) : Nat :=
  if wanted ≤ b.capacity then b.capacity else reserve b.capacity b.size (wanted - b.size)

def ensureBy (reserve : Reserve) (b : Buffer) (wanted : Nat) : Except OverLimit Buffer :=
  match checkLimit b.limit wanted with
  | .ok () => .ok { b with capacity := b.roomBy reserve wanted }
  | .error cause => .error cause

/-- Puts bytes behind the contents, and makes room for them if there is none. -/
def append (reserve : Reserve) (b : Buffer) (src : Bytes) : Buffer :=
  { b with data := b.data ++ src, capacity := b.roomBy reserve (b.size + src.length) }

def fillBy (reserve : Reserve) (b : Buffer) (src : Bytes) : Except OverLimit Buffer :=
  match b.ensureBy reserve src.length with
  | .ok roomy => .ok (roomy.clear.append reserve src)
  | .error cause => .error cause

def extendBy (reserve : Reserve) (b : Buffer) (src : Bytes) : Except OverLimit Buffer :=
  match b.ensureBy reserve (b.size + src.length) with
  | .ok roomy => .ok (roomy.append reserve src)
  | .error cause => .error cause

/-- One use, by a rule of its own; what needs no size makes no room. -/
def use (b : Buffer) (u : BufferUse) : Buffer × Except OverLimit Bytes :=
  match u.op with
  | .ensure wanted => b.attempt (b.ensureBy u.reserve wanted)
  | .fill src => b.attempt (b.fillBy u.reserve src)
  | .extend src => b.attempt (b.extendBy u.reserve src)
  | op => b.step op

variable {b : Buffer} {limit : Option Nat} {capacity wanted size : Nat} {reserve : Reserve} {src : Bytes}

/-- What is always so of a buffer: its contents have room, and are within the limit. -/
structure Fits (limit : Option Nat) (b : Buffer) : Prop where
  limited : b.limit = limit
  room : b.size ≤ b.capacity
  within : Within limit b.size

theorem fits_new (capacity : Nat) (limit : Option Nat) : Fits limit ⟨[], capacity, limit⟩ :=
  ⟨rfl, Nat.zero_le _, fun most _ => Nat.zero_le most⟩

/-! ## What one use does -/

/-- A room too small for `wanted` holds less than that: the difference asked for is a true one. -/
theorem wanted_le_roomBy (hr : reserve.Provides) (hroom : b.size ≤ b.capacity) : wanted ≤ b.roomBy reserve wanted := by
  unfold roomBy
  split
  · assumption
  · rename_i h
    have hheld : b.size ≤ wanted := Nat.le_trans hroom (Nat.le_of_not_le h)
    calc wanted = b.size + (wanted - b.size) := (Nat.add_sub_of_le hheld).symm
      _ ≤ _ := hr _ _ _

theorem capacity_le_roomBy (hr : reserve.Provides) (hroom : b.size ≤ b.capacity) :
    b.capacity ≤ b.roomBy reserve wanted := by
  by_cases h : wanted ≤ b.capacity
  · exact Nat.le_of_eq (if_pos h).symm
  · exact Nat.le_trans (Nat.le_of_not_le h) (wanted_le_roomBy hr hroom)

theorem append_of_room (h : b.size + src.length ≤ b.capacity) :
    b.append reserve src = { b with data := b.data ++ src } := by
  rw [append, roomBy, if_pos h]

/-- Once room is made for them, putting bytes in makes no more. -/
theorem fillBy_eq (hr : reserve.Provides) (hroom : b.size ≤ b.capacity) (src : Bytes) : b.fillBy reserve src =
    match b.ensureBy reserve src.length with
    | .ok roomy => .ok { roomy with data := src }
    | .error cause => .error cause := by
  unfold fillBy ensureBy
  cases checkLimit b.limit src.length with
  | error cause => rfl
  | ok _ =>
    have hwanted : src.length ≤ b.roomBy reserve src.length := wanted_le_roomBy hr hroom
    simp only [clear]
    rw [append_of_room (by simpa [Buffer.size] using hwanted), List.nil_append]

theorem extendBy_eq (hr : reserve.Provides) (hroom : b.size ≤ b.capacity) (src : Bytes) : b.extendBy reserve src =
    match b.ensureBy reserve (b.size + src.length) with
    | .ok roomy => .ok { roomy with data := b.data ++ src }
    | .error cause => .error cause := by
  unfold extendBy ensureBy
  cases checkLimit b.limit (b.size + src.length) with
  | error cause => rfl
  | ok _ =>
    have hwanted : b.size + src.length ≤ b.roomBy reserve (b.size + src.length) := wanted_le_roomBy hr hroom
    exact congrArg Except.ok (append_of_room hwanted)

/-- The room after a use that is not refused. -/
def roomAfter (b : Buffer) (u : BufferUse) : Nat :=
  match u.op with
  | .split => b.capacity - b.size
  | op =>
    match op.needs b.size with
    | some wanted => b.roomBy u.reserve wanted
    | none => b.capacity

/-- What needs a size is refused and changes nothing, or makes room for that size. -/
theorem attempt_ensureBy (op : BufferOp) (hn : op.needs b.size = some wanted) (reserve : Reserve) (data : Bytes) :
    b.attempt (match b.ensureBy reserve wanted with
      | .ok roomy => .ok { roomy with data := data }
      | .error cause => .error cause) =
    match op.refusal b.limit b.size with
    | some cause => (b, .error cause)
    | none => (⟨data, b.roomBy reserve wanted, b.limit⟩, .ok []) := by
  rw [BufferOp.refusal_of_checkLimit hn, ensureBy]
  cases checkLimit b.limit wanted <;> rfl

/-- **One use, as the list of bytes has it**: it is refused by the limit and leaves the buffer as it was, or contents
and answer are those of the list. -/
theorem use_eq {u : BufferUse} (hr : u.reserve.Provides) (hroom : b.size ≤ b.capacity) : b.use u =
    match u.op.refusal b.limit b.size with
    | some cause => (b, .error cause)
    | none => (⟨(u.op.onBytes b.data).1, b.roomAfter u, b.limit⟩, .ok (u.op.onBytes b.data).2) := by
  obtain ⟨reserve, op⟩ := u
  cases op with
  | ensure wanted =>
    have hsame : b.ensureBy reserve wanted = match b.ensureBy reserve wanted with
        | .ok roomy => .ok { roomy with data := b.data }
        | .error cause => .error cause := by
      unfold ensureBy
      cases checkLimit b.limit wanted <;> rfl
    exact (congrArg b.attempt hsame).trans (attempt_ensureBy (.ensure wanted) rfl reserve b.data)
  | fill src =>
    exact (congrArg b.attempt (fillBy_eq hr hroom src)).trans (attempt_ensureBy (.fill src) rfl reserve src)
  | extend src =>
    exact (congrArg b.attempt (extendBy_eq hr hroom src)).trans
      (attempt_ensureBy (.extend src) rfl reserve (b.data ++ src))
  | take | split | copy | clear => rfl

/-- What a use that is not refused leaves has room for its contents, and for the size that the use needed. -/
theorem needs_le_roomAfter {u : BufferUse} (hr : u.reserve.Provides) (hroom : b.size ≤ b.capacity)
    (hn : u.op.needs b.size = some wanted) : wanted ≤ b.roomAfter u := by
  obtain ⟨reserve, op⟩ := u
  cases op <;> cases hn
  all_goals exact wanted_le_roomBy hr hroom

theorem length_le_roomAfter {u : BufferUse} (hr : u.reserve.Provides) (hroom : b.size ≤ b.capacity) :
    (u.op.onBytes b.data).1.length ≤ b.roomAfter u := by
  obtain ⟨reserve, op⟩ := u
  cases op with
  | ensure wanted => exact Nat.le_trans hroom (capacity_le_roomBy hr hroom)
  | fill src => exact wanted_le_roomBy hr hroom
  | extend src =>
    rw [show (BufferOp.onBytes b.data (.extend src)).1.length = b.size + src.length from List.length_append]
    exact wanted_le_roomBy hr hroom
  | copy => exact hroom
  | take | split | clear => exact Nat.zero_le _

theorem within_onBytes {op : BufferOp} (h : op.refusal limit b.size = none) (hw : Within limit b.size) :
    Within limit (op.onBytes b.data).1.length := by
  cases op with
  | ensure _ | copy => exact hw
  | fill src => exact BufferOp.within_of_refusal h rfl
  | extend src =>
    rw [show (BufferOp.onBytes b.data (.extend src)).1.length = b.size + src.length from List.length_append]
    exact BufferOp.within_of_refusal h rfl
  | take | split | clear => exact fun most _ => Nat.zero_le most

/-- What one operation on a buffer under `limit` comes to, `next` being the buffer after it and the answer. -/
structure Mirrors (limit : Option Nat) (b : Buffer) (op : BufferOp) (next : Buffer × Except OverLimit Bytes) :
    Prop where
  /-- Contents and answer are those of the list of bytes. -/
  bytes : (next.1.data, next.2) = op.bounded limit b.data
  /-- It fails if and only if the size it needs is beyond the limit, and reports that size and the limit. -/
  refused : ∀ cause, next.2 = .error cause ↔
    ∃ size most, op.needs b.size = some size ∧ limit = some most ∧ most < size ∧ cause = ⟨size, most⟩
  /-- Then contents and room are what they were. -/
  unchanged : ∀ cause, next.2 = .error cause → next.1 = b
  fits : next.1.Fits limit
  /-- There is room for the size that was needed. -/
  covered : ∀ size out, op.needs b.size = some size → next.2 = .ok out → size ≤ next.1.capacity
  /-- A size for which there is too little room is no smaller than the contents. -/
  beyond : ∀ size, op.needs b.size = some size → b.capacity < size → b.size ≤ size

theorem mirrors_use {u : BufferUse} (hb : b.Fits limit) (hr : u.reserve.Provides) : b.Mirrors limit u.op (b.use u) := by
  have hbytes : ((b.use u).1.data, (b.use u).2) = u.op.bounded limit b.data := by
    rw [use_eq hr hb.room, hb.limited, BufferOp.bounded, ← size]
    cases u.op.refusal limit b.size <;> rfl
  have hanswer : (b.use u).2 = (u.op.bounded limit b.data).2 := congrArg Prod.snd hbytes
  have hbeyond : ∀ size, u.op.needs b.size = some size → b.capacity < size → b.size ≤ size :=
    fun _ _ hlt => Nat.le_trans hb.room (Nat.le_of_lt hlt)
  have hrefused : ∀ cause, (b.use u).2 = .error cause ↔
      ∃ size most, u.op.needs b.size = some size ∧ limit = some most ∧ most < size ∧ cause = ⟨size, most⟩ :=
    fun cause => hanswer ▸ BufferOp.bounded_error_iff
  cases hrefusal : u.op.refusal limit b.size with
  | some cause =>
    have hsame : b.use u = (b, .error cause) := by rw [use_eq hr hb.room, hb.limited, hrefusal]
    rw [hsame] at hbytes hrefused ⊢
    exact ⟨hbytes, hrefused, fun _ _ => rfl, hb, fun _ _ _ hok => (by cases hok), hbeyond⟩
  | none =>
    have hdone : b.use u = (⟨(u.op.onBytes b.data).1, b.roomAfter u, b.limit⟩, .ok (u.op.onBytes b.data).2) := by
      rw [use_eq hr hb.room, hb.limited, hrefusal]
    rw [hdone] at hbytes hrefused ⊢
    have hfits : Fits limit ⟨(u.op.onBytes b.data).1, b.roomAfter u, b.limit⟩ :=
      ⟨hb.limited, length_le_roomAfter hr hb.room, within_onBytes hrefusal hb.within⟩
    exact ⟨hbytes, hrefused, fun _ herror => (by cases herror), hfits,
      fun _ _ hn _ => needs_le_roomAfter hr hb.room hn, hbeyond⟩

theorem roomBy_doubling (hroom : b.size ≤ b.capacity) (wanted : Nat) :
    b.roomBy .doubling wanted = grown b.capacity wanted := by
  unfold roomBy
  split
  · rename_i h
    exact (if_neg (Nat.not_lt.2 h)).symm
  · rename_i h
    rw [Reserve.doubling, Nat.add_sub_of_le (Nat.le_trans hroom (Nat.le_of_not_le h))]

/-- **The buffers of the bus** are those whose room doubles. -/
theorem step_eq_use (hroom : b.size ≤ b.capacity) (op : BufferOp) : b.step op = b.use ⟨.doubling, op⟩ := by
  have hensure : ∀ wanted, b.ensure wanted = b.ensureBy .doubling wanted := fun wanted => by
    rw [ensure, ← roomBy_doubling hroom]
    rfl
  cases op with
  | ensure wanted => exact congrArg b.attempt (hensure wanted)
  | fill src =>
    refine congrArg b.attempt ?_
    rw [fill, hensure]
    exact (fillBy_eq Reserve.provides_doubling hroom src).symm
  | extend src =>
    refine congrArg b.attempt ?_
    rw [extendBy_eq Reserve.provides_doubling hroom, extend, hensure]
    unfold ensureBy
    cases checkLimit b.limit (b.size + src.length) <;> rfl
  | take | split | copy | clear => rfl

/-! ## Many uses -/

theorem fits_inTurn {uses : List BufferUse} (hb : b.Fits limit) (hr : ∀ u ∈ uses, u.reserve.Provides) :
    (inTurn use b uses).1.Fits limit := by
  induction uses generalizing b with
  | nil => exact hb
  | cons u uses ih =>
    obtain ⟨hu, hrest⟩ := List.forall_mem_cons.1 hr
    exact ih (mirrors_use hb hu).fits hrest

theorem inTurn_eq_bounded {uses : List BufferUse} (hb : b.Fits limit) (hr : ∀ u ∈ uses, u.reserve.Provides) :
    ((inTurn use b uses).1.data, (inTurn use b uses).2) =
      inTurn (fun data op => op.bounded limit data) b.data (uses.map BufferUse.op) := by
  induction uses generalizing b with
  | nil => rfl
  | cons u uses ih =>
    obtain ⟨hu, hrest⟩ := List.forall_mem_cons.1 hr
    have hone := mirrors_use hb hu
    have hall := ih hone.fits hrest
    obtain ⟨hdata, hanswer⟩ := Prod.ext_iff.1 hone.bytes
    simp only [List.map_cons, inTurn, ← hdata, ← hanswer, ← hall]

/-- **A buffer is a list of bytes with a limit.**  Whatever is done with a new buffer, and by whatever rules room is
made for it, the contents and all answers are those of the list of bytes that began empty.  Every use on the way mirrors
the same use of the list: it fails if and only if it needs more than the limit, and then changes nothing; and the buffer
always has room for its contents and for the size just made sure of.  The step by which the room doubles is such a
use. -/
theorem refines_bounded_bytes (hb : withCapacity capacity limit = .ok b) (uses : List BufferUse)
    (hr : ∀ u ∈ uses, u.reserve.Provides) :
    ((inTurn use b uses).1.data, (inTurn use b uses).2) =
      inTurn (fun data op => op.bounded limit data) [] (uses.map BufferUse.op) ∧
    ∀ before u after, uses = before ++ u :: after →
      let held := (inTurn use b before).1
      held.Mirrors limit u.op (held.use u) ∧ ∀ op, held.step op = held.use ⟨.doubling, op⟩ := by
  obtain ⟨-, rfl⟩ := withCapacity_eq_ok_iff.1 hb
  have hfits := fits_new capacity limit
  refine ⟨inTurn_eq_bounded hfits hr, ?_⟩
  rintro before u after rfl
  obtain ⟨hbefore, hrest⟩ := List.forall_mem_append.1 hr
  have hheld := fits_inTurn hfits hbefore
  exact ⟨mirrors_use hheld (hrest u (List.mem_cons_self ..)), step_eq_use hheld.room⟩

/-- Room is lost by a split and made anew, by two rules in turn; one append is refused on the way. -/
theorem refines_bounded_bytes_after_split :
    let uses : List BufferUse := [⟨.exact, .fill [1, 2, 3, 4, 5]⟩, ⟨.doubling, .extend [6, 7, 8, 9]⟩,
      ⟨.doubling, .extend [6]⟩, ⟨.exact, .split⟩, ⟨.exact, .extend [7, 8]⟩, ⟨.exact, .copy⟩]
    withCapacity 4 (some 8) = .ok ⟨[], 4, some 8⟩ ∧ (∀ u ∈ uses, u.reserve.Provides) ∧
    (inTurn use ⟨[], 4, some 8⟩ uses).2 =
      [.ok [], .error ⟨9, 8⟩, .ok [], .ok [1, 2, 3, 4, 5, 6], .ok [], .ok [7, 8]] := by
  intro uses
  have hr : ∀ u ∈ uses, u.reserve.Provides := by
    simp [uses, Reserve.provides_exact, Reserve.provides_doubling]
  have hnew : withCapacity 4 (some 8) = .ok ⟨[], 4, some 8⟩ := rfl
  exact ⟨hnew, hr, congrArg Prod.snd (refines_bounded_bytes hnew uses hr).1⟩

end Buffer
end TopicBus
