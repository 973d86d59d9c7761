import Mathlib.Algebra.GroupWithZero.Nat
import TopicBus.Proofs.Contents
/-!
# How far the room of a buffer grows

A buffer that is never split keeps its room, and its room follows the sizes that were made sure of: it covers the
largest of them and passes it by less than doubling (`Growth.Bounded`).  So a limit, though it is checked on the sizes
only, is a limit on the room as well, at twice its own.  As every move to more room at least doubles it, moves are few:
their number is logarithmic in the largest size.
-/
namespace TopicBus

/-! ## Growing once, and several times -/

theorem grown_le (capacity wanted : Nat) :
    grown capacity wanted ≤ max capacity (max 8 (max wanted (2 * (wanted - 1)))) := by
  unfold grown
  split <;> omega

/-- A larger size lets the room grow further. -/
theorem furthest_mono (first : Nat) {m n : Nat} (h : m ≤ n) :
    max first (max 8 (max m (2 * (m - 1)))) ≤ max first (max 8 (max n (2 * (n - 1)))) := by
  omega

/-- The most room there is under a limit. -/
def roomUnder (most : Nat) : Nat := max most (max 8 (2 * (most - 1)))

theorem grown_le_roomUnder {capacity wanted most : Nat} (hc : capacity ≤ roomUnder most) (hw : wanted ≤ most) :
    grown capacity wanted ≤ roomUnder most := by
  have hgrown := grown_le capacity wanted
  unfold roomUnder at hc ⊢
  omega

theorem le_foldl_grown (capacity : Nat) (sizes : List Nat) : capacity ≤ sizes.foldl grown capacity := by
  induction sizes generalizing capacity with
  | nil => exact Nat.le_refl capacity
  | cons size sizes ih => exact Nat.le_trans (le_grown capacity size) (ih _)

theorem foldl_grown_le_roomUnder {capacity most : Nat} {sizes : List Nat} (hc : capacity ≤ roomUnder most)
    (hs : ∀ size ∈ sizes, size ≤ most) : sizes.foldl grown capacity ≤ roomUnder most := by
  induction sizes generalizing capacity with
  | nil => exact hc
  | cons size sizes ih =>
    obtain ⟨hsize, hrest⟩ := List.forall_mem_cons.1 hs
    exact ih (grown_le_roomUnder hc hsize) hrest

namespace Buffer

/-- The size that an operation makes sure of: none, if it needs none or is refused. -/
def ensured (b : Buffer) (op : BufferOp) : Nat :=
  match (b.step op).2 with
  | .ok _ => (op.needs b.size).getD 0
  | .error _ => 0

variable {b : Buffer} {op : BufferOp} {ops : List BufferOp} {first : Nat} {limit : Option Nat}

/-- **One operation, by the size it makes sure of**: the room grows for that size, which is within the limit. -/
theorem capacity_step (hb : b.Fits limit) (hs : op ≠ .split) :
    (b.step op).1.capacity = grown b.capacity (b.ensured op) ∧ Within limit (b.ensured op) := by
  have hstep : b.step op = b.use ⟨.doubling, op⟩ := step_eq_use hb.room op
  rw [use_eq Reserve.provides_doubling hb.room, hb.limited] at hstep
  cases hrefusal : op.refusal limit b.size with
  | some cause =>
    rw [hrefusal] at hstep
    rw [ensured, hstep]
    exact ⟨(if_neg (Nat.not_lt_zero _)).symm, fun most _ => Nat.zero_le most⟩
  | none =>
    rw [hrefusal] at hstep
    rw [ensured, hstep]
    cases hneeds : op.needs b.size with
    | some wanted =>
      have hroom : b.roomAfter ⟨.doubling, op⟩ = b.roomBy .doubling wanted := by
        cases op <;> cases hneeds <;> rfl
      exact ⟨hroom.trans (roomBy_doubling hb.room wanted), BufferOp.within_of_refusal hrefusal hneeds⟩
    | none =>
      have hroom : b.roomAfter ⟨.doubling, op⟩ = b.capacity := by
        cases op with
        | split => exact absurd rfl hs
        | take | copy | clear => rfl
        | ensure | fill | extend => cases hneeds
      exact ⟨hroom.trans (if_neg (Nat.not_lt_zero _)).symm, fun most _ => Nat.zero_le most⟩

theorem fits_step (hb : b.Fits limit) (op : BufferOp) : (b.step op).1.Fits limit := by
  rw [step_eq_use hb.room]
  exact (mirrors_use hb (u := ⟨.doubling, op⟩) Reserve.provides_doubling).fits

end Buffer

/-! ## All operations -/

/-- A buffer after some operations, with the largest size made sure of by then and the number of moves to another
room. -/
structure Growth where
  buffer : Buffer
  largest : Nat
  moves : Nat

namespace Growth

def step (g : Growth) (op : BufferOp) : Growth where
  buffer := (g.buffer.step op).1
  largest := max g.largest (g.buffer.ensured op)
  moves := if (g.buffer.step op).1.capacity = g.buffer.capacity then g.moves else g.moves + 1

/-- What is so of a buffer whose room was `first` at first, under a limit. -/
structure Bounded (first : Nat) (limit : Option Nat) (g : Growth) : Prop where
  fits : g.buffer.Fits limit
  within : Within limit g.largest
  kept : first ≤ g.buffer.capacity
  covered : g.largest ≤ g.buffer.capacity
  most : g.buffer.capacity ≤ max first (max 8 (max g.largest (2 * (g.largest - 1))))
  /-- After a move there is room for eight bytes, and for twice as many after each further one. -/
  doubled : 0 < g.moves → 2 ^ (g.moves + 2) ≤ g.buffer.capacity
  /-- The last move but the first was asked for by more than the room there was. -/
  asked : 2 ≤ g.moves → 2 ^ (g.moves + 1) < g.largest

variable {g : Growth} {first : Nat} {limit : Option Nat} {op : BufferOp} {ops : List BufferOp}

theorem bounded_new (first : Nat) (limit : Option Nat) : Bounded first limit ⟨⟨[], first, limit⟩, 0, 0⟩ where
  fits := Buffer.fits_new first limit
  within := fun most _ => Nat.zero_le most
  kept := Nat.le_refl _
  covered := Nat.zero_le _
  most := Nat.le_max_left _ _
  doubled := fun h => absurd h (Nat.lt_irrefl 0)
  asked := fun h => absurd h (Nat.not_le.2 (Nat.zero_lt_succ 1))

/-- The size asked for either has room already, or moves the buffer to the room it grows to. -/
theorem step_cases (hb : g.buffer.Fits limit) (hs : op ≠ .split) :
    (g.buffer.ensured op ≤ g.buffer.capacity ∧
      (g.step op).buffer.capacity = g.buffer.capacity ∧ (g.step op).moves = g.moves) ∨
    (g.buffer.capacity < g.buffer.ensured op ∧ (g.step op).moves = g.moves + 1 ∧
      (g.step op).buffer.capacity = max (2 * g.buffer.capacity) (max (g.buffer.ensured op) 8)) := by
  have hcap : (g.step op).buffer.capacity = grown g.buffer.capacity (g.buffer.ensured op) :=
    (Buffer.capacity_step hb hs).1
  rcases Nat.lt_or_ge g.buffer.capacity (g.buffer.ensured op) with hlt | hle
  · rw [grown, if_pos hlt] at hcap
    have hmoved : (g.step op).buffer.capacity ≠ g.buffer.capacity := by omega
    exact .inr ⟨hlt, if_neg hmoved, hcap⟩
  · rw [grown, if_neg (Nat.not_lt.2 hle)] at hcap
    exact .inl ⟨hle, hcap, if_pos hcap⟩

theorem capacity_le_step (hb : g.buffer.Fits limit) (hs : op ≠ .split) :
    g.buffer.capacity ≤ (g.step op).buffer.capacity := by
  rcases step_cases hb hs with ⟨-, hcap, -⟩ | ⟨-, -, hcap⟩ <;> omega

theorem Bounded.step (h : g.Bounded first limit) (hs : op ≠ .split) : (g.step op).Bounded first limit := by
  obtain ⟨hgrown, hensured⟩ : (g.step op).buffer.capacity = grown g.buffer.capacity (g.buffer.ensured op) ∧
      Within limit (g.buffer.ensured op) := Buffer.capacity_step h.fits hs
  have hwithin : Within limit (g.step op).largest :=
    fun most hm => Nat.max_le.2 ⟨h.within most hm, hensured most hm⟩
  have hgrows := capacity_le_step h.fits hs
  have hcases := step_cases h.fits hs
  obtain ⟨hfits, -, hkept, hcovered, hmost, hdoubled, hasked⟩ := h
  refine ⟨Buffer.fits_step hfits op, hwithin, ?kept, ?covered, ?most, ?doubled, ?asked⟩
  case kept => exact Nat.le_trans hkept hgrows
  case covered => exact Nat.max_le.2 ⟨Nat.le_trans hcovered hgrows, hgrown ▸ wanted_le_grown _ _⟩
  case most =>
    calc (g.step op).buffer.capacity
        ≤ max g.buffer.capacity (max 8 (max (g.buffer.ensured op) (2 * (g.buffer.ensured op - 1)))) :=
          hgrown ▸ grown_le _ _
      _ ≤ _ := Nat.max_le.2
          ⟨Nat.le_trans hmost (furthest_mono first (Nat.le_max_left _ _)),
            Nat.le_trans (Nat.le_max_right first _) (furthest_mono first (Nat.le_max_right _ _))⟩
  case doubled =>
    intro hmoved
    rcases hcases with ⟨-, hcap, hmoves⟩ | ⟨-, hmoves, hcap⟩
    · rw [hmoves] at hmoved ⊢
      exact hcap ▸ hdoubled hmoved
    · rw [hmoves, hcap]
      rcases Nat.eq_zero_or_pos g.moves with hfirst | hagain
      · rw [hfirst]
        omega
      · have htwice : 2 ^ (g.moves + 1 + 2) = 2 * 2 ^ (g.moves + 2) := Nat.pow_succ'
        have hbefore := hdoubled hagain
        omega
  case asked =>
    intro htwo
    rcases hcases with ⟨-, -, hmoves⟩ | ⟨hlt, hmoves, -⟩
    · rw [hmoves] at htwo ⊢
      exact Nat.lt_of_lt_of_le (hasked htwo) (Nat.le_max_left _ _)
    · rw [hmoves] at htwo ⊢
      calc 2 ^ (g.moves + 1 + 1) ≤ g.buffer.capacity := hdoubled (Nat.le_of_succ_le_succ htwo)
        _ < g.buffer.ensured op := hlt
        _ ≤ _ := Nat.le_max_right _ _

theorem bounded_foldl (h : g.Bounded first limit) (hs : ∀ op ∈ ops, op ≠ .split) :
    (ops.foldl step g).Bounded first limit := by
  induction ops generalizing g with
  | nil => exact h
  | cons op ops ih =>
    obtain ⟨hop, hrest⟩ := List.forall_mem_cons.1 hs
    exact ih (h.step hop) hrest

theorem capacity_le_foldl (h : g.Bounded first limit) (hs : ∀ op ∈ ops, op ≠ .split) :
    g.buffer.capacity ≤ (ops.foldl step g).buffer.capacity := by
  induction ops generalizing g with
  | nil => exact Nat.le_refl _
  | cons op ops ih =>
    obtain ⟨hop, hrest⟩ := List.forall_mem_cons.1 hs
    exact Nat.le_trans (capacity_le_step h.fits hop) (ih (h.step hop) hrest)

end Growth

namespace Buffer

/-- A buffer after operations on it. -/
def growth (b : Buffer) (ops : List BufferOp) : Growth := ops.foldl Growth.step ⟨b, 0, 0⟩

variable {b : Buffer} {first : Nat} {limit : Option Nat}

/-- **The room of a buffer that is never split** never shrinks, covers the size it began with and the largest size that
was made sure of, and exceeds them by less than doubling; under a limit it stays below twice the limit, except for the
eight bytes that any buffer may have.  After two moves or more the largest size exceeds a power of two which each move
doubles, so that the moves are logarithmic in it. -/
theorem growth_bounds (hb : withCapacity first limit = .ok b) (ops : List BufferOp) (hs : ∀ op ∈ ops, op ≠ .split) :
    let g := b.growth ops
    (∀ before after, ops = before ++ after → (b.growth before).buffer.capacity ≤ g.buffer.capacity) ∧
    max first g.largest ≤ g.buffer.capacity ∧
    g.buffer.capacity ≤ max first (max 8 (max g.largest (2 * (g.largest - 1)))) ∧
    (∀ most, limit = some most → g.buffer.capacity ≤ max most (max 8 (2 * (most - 1)))) ∧
    (2 ≤ g.moves → 2 ^ (g.moves + 1) < g.largest) ∧ g.moves ≤ max 1 (g.largest.log2 - 1) := by
  intro g
  obtain ⟨hlimit, rfl⟩ := withCapacity_eq_ok_iff.1 hb
  have hnew := Growth.bounded_new first limit
  have hg : g.Bounded first limit := Growth.bounded_foldl hnew hs
  refine ⟨?shrinks, Nat.max_le.2 ⟨hg.kept, hg.covered⟩, hg.most, ?limited, hg.asked, ?few⟩
  case shrinks =>
    rintro before after rfl
    obtain ⟨hbefore, hafter⟩ := List.forall_mem_append.1 hs
    show _ ≤ (List.foldl Growth.step _ _).buffer.capacity
    rw [List.foldl_append]
    exact Growth.capacity_le_foldl (Growth.bounded_foldl hnew hbefore) hafter
  case limited =>
    intro most hm
    have hfirst : first ≤ most := hlimit most hm
    have hlargest : g.largest ≤ most := hg.within most hm
    have hmost := hg.most
    omega
  case few =>
    rcases Nat.lt_or_ge g.moves 2 with hone | htwo
    · exact Nat.le_trans (Nat.le_of_lt_succ hone) (Nat.le_max_left _ _)
    · have hlarge : 2 ^ (g.moves + 1) < g.largest := hg.asked htwo
      have hlog : g.moves + 1 ≤ g.largest.log2 := (Nat.le_log2 (Nat.ne_zero_of_lt hlarge)).2 (Nat.le_of_lt hlarge)
      omega

/-- From no room at all, in two moves: under a limit of ten there is room for sixteen in the end. -/
theorem growth_bounds_two_moves :
    let ops := [.extend [1], .ensure 11, .ensure 9, .take, .fill [1, 2], .copy]
    withCapacity 0 (some 10) = .ok ⟨[], 0, some 10⟩ ∧
    (growth ⟨[], 0, some 10⟩ ops).moves = 2 ∧ (growth ⟨[], 0, some 10⟩ ops).buffer.capacity = 16 ∧
    2 ^ 3 < (growth ⟨[], 0, some 10⟩ ops).largest ∧ (growth ⟨[], 0, some 10⟩ ops).buffer.capacity ≤ 18 := by
  intro ops
  have hnew : withCapacity 0 (some 10) = .ok ⟨[], 0, some 10⟩ := rfl
  obtain ⟨-, -, -, hunder, hasked, -⟩ := growth_bounds hnew ops (by decide)
  exact ⟨hnew, rfl, rfl, hasked (by decide), hunder 10 rfl⟩

end Buffer
end TopicBus
