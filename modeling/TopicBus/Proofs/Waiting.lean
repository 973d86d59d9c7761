import TopicBus.Bus
import TopicBus.Proofs.Sides
/-!
# Reads in one go and from poll to poll

A call reads in one go, a future from poll to poll.  Begun on the same binding they take the same bytes and come to the
same end (`beginRead_as_read`, `run_beginRead_as_readAll`); they differ in what is left of the line.  So a call that
cannot finish can go on as a suspended read: begun anew in that form the read waits as well (`pending_startUpTo`,
`pending_startExact`).
-/
namespace TopicBus
namespace Binding

variable {limit : Option Nat} {b : Binding} {wanted : Nat}

/-! ## The line has no part in a read -/

theorem releaseReadSide_withLine (b : Binding) (line : List ReadName) :
    { b with line }.releaseReadSide = { b.releaseReadSide with line } := by
  rw [releaseReadSide_eq, releaseReadSide_eq]

theorem prepare_withLine (b : Binding) (line : List ReadName) (wanted : Nat) :
    { b with line }.prepare wanted = ({ (b.prepare wanted).1 with line }, (b.prepare wanted).2) := by
  simp only [prepare]
  split
  · rw [releaseReadSide_withLine]
  · split
    · rfl
    · split <;> rfl

theorem collect_withLine (b : Binding) (line : List ReadName) (wanted received : Nat) :
    { b with line }.collect wanted received =
      ({ (b.collect wanted received).1 with line }, (b.collect wanted received).2) := by
  simp only [collect]
  split
  · rw [releaseReadSide_withLine]
  · split
    · rfl
    · split <;> rfl

theorem receive_withLine (b : Binding) (line : List ReadName) :
    { b with line }.receive = ({ b.receive.1 with line }, b.receive.2) := by
  simp only [receive]
  split <;> rfl

theorem await_withLine (b : Binding) (line : List ReadName) (wanted : Nat) :
    { b with line }.await wanted = ({ (b.await wanted).1 with line }, (b.await wanted).2) := by
  simp only [await, receive_withLine b line]
  rcases b.receive with ⟨b₁, arrival⟩
  cases arrival with
  | chunk data =>
    simp only [show { b₁ with line }.hold data = { b₁.hold data with line } from rfl, collect_withLine]
    rfl
  | nothingYet => rfl
  | disconnected => simp only [releaseReadSide_withLine]

/-- Where a reader stands in the line makes no difference to what it finds. -/
theorem fetch_withLine (b : Binding) (line : List ReadName) (wanted : Nat) :
    { b with line }.fetch wanted = ({ (b.fetch wanted).1 with line }, (b.fetch wanted).2) := by
  simp only [fetch, prepare_withLine b line]
  rcases b.prepare wanted with ⟨b₁, fault | dry⟩
  · rfl
  · cases dry with
    | true => exact await_withLine b₁ line wanted
    | false =>
      simp only [collect_withLine b₁ line]
      rfl

theorem withLine_self {line : List ReadName} (h : b.line = line) : { b with line } = b := by
  cases b
  obtain rfl := h
  rfl

/-- A read leaves the line as it was. -/
theorem fetch_line (b : Binding) (wanted : Nat) : (b.fetch wanted).1.line = b.line := by
  have h := fetch_withLine b b.line wanted
  rw [withLine_self rfl] at h
  exact congrArg (fun out => out.1.line) h

/-! ## A single read -/

/-- Alone in the line and gone again. -/
theorem leave_alone (name : ReadName) (hl : b.line = []) : { b with line := [name] }.leave name = b.releaseIfClosed := by
  have he : { b with line := [name] }.cancel name = b := by
    cases b
    obtain rfl := hl
    simp [cancel]
  rw [leave, he]

/-- **A read of a future is answered as that of a call**, and has the same effect unless it waits. -/
theorem beginRead_as_read (b : Binding) (limit : Option Nat) (name : ReadName) (wanted : Nat) :
    (b.beginRead limit name wanted).2 = (b.read limit wanted).2 ∧
      ((∀ phase, (b.read limit wanted).2 ≠ .error (.waits phase)) →
        (b.beginRead limit name wanted).1 = (b.read limit wanted).1) := by
  unfold beginRead read readOnce
  split
  · exact ⟨rfl, fun _ => rfl⟩
  rename_i ho
  split
  · exact ⟨rfl, fun _ => (releaseIfClosed_of_isOpen (by simpa using ho)).symm⟩
  cases hl : b.line with
  | cons first rest => exact ⟨rfl, fun h => absurd rfl (h .inLine)⟩
  | nil =>
    have hleft : ({ (b.fetch (clampRead limit wanted)).1 with line := [name] } : Binding).leave name =
        (b.fetch (clampRead limit wanted)).1.releaseIfClosed :=
      leave_alone name ((fetch_line b _).trans hl)
    simp only [List.isEmpty_nil, Bool.not_true, Bool.false_eq_true, if_false, if_true, fetch_withLine]
    rcases (b.fetch (clampRead limit wanted)).2 with (fault | phase) | data
    · exact ⟨rfl, fun _ => hleft⟩
    · exact ⟨rfl, fun h => absurd rfl (h phase)⟩
    · exact ⟨rfl, fun _ => hleft⟩

theorem beginRead_eq_read (h : ∀ phase, (b.read limit wanted).2 ≠ .error (.waits phase)) (name : ReadName) :
    b.beginRead limit name wanted = b.read limit wanted := by
  obtain ⟨hanswer, hafter⟩ := b.beginRead_as_read limit name wanted
  exact Prod.ext (hafter h) hanswer

/-- A call that waits in a read of up to `wanted` bytes can be polled. -/
theorem pending_startUpTo {phase : Phase} (h : (b.read limit wanted).2 = .error (.waits phase)) (name : ReadName) :
    (b.startUpTo limit name wanted).progress = .pending ⟨.upTo, wanted, phase⟩ := by
  have hwaits := (b.beginRead_as_read limit name wanted).1.trans h
  unfold startUpTo
  rcases hout : b.beginRead limit name wanted with ⟨after, answer⟩
  obtain rfl : answer = .error (.waits phase) := (congrArg Prod.snd hout).symm.trans hwaits
  rfl

/-! ## An exact read -/

/-- **An exact read of a future takes the parts that one of a call takes**, and ends as that does. -/
theorem run_beginRead_as_readAll (b : Binding) (limit : Option Nat) (name : ReadName) (wanted : Nat) :
    (ExactRead.run (beginRead limit name) b wanted).parts = (b.readAll limit wanted).parts ∧
      (ExactRead.run (beginRead limit name) b wanted).ending = (b.readAll limit wanted).ending := by
  unfold readAll
  -- on the bytes still missing, of which each part that comes leaves fewer
  induction wanted using Nat.strongRecOn generalizing b with
  | ind wanted ih =>
    by_cases hw : wanted = 0
    · rw [hw, ExactRead.run_zero, ExactRead.run_zero]
      exact ⟨rfl, rfl⟩
    rw [ExactRead.run_of_pos _ _ hw, ExactRead.run_of_pos _ _ hw]
    obtain ⟨hanswer, hafter⟩ := b.beginRead_as_read limit name wanted
    rcases hout : b.beginRead limit name wanted with ⟨after, answer⟩
    rcases hread : b.read limit wanted with ⟨after', answer'⟩
    rw [hout, hread] at hanswer hafter
    obtain rfl : answer = answer' := hanswer
    rcases answer with halt | data
    · exact ⟨rfl, rfl⟩
    · obtain rfl : after = after' := hafter nofun
      cases data with
      | nil => exact ⟨rfl, rfl⟩
      | cons x xs =>
        obtain ⟨hparts, hending⟩ := ih (wanted - (xs.length + 1)) (by omega) after
        exact ⟨congrArg (List.cons (x :: xs)) hparts, hending⟩

/-- A call that waits in an exact read can be polled; it keeps what it has gathered. -/
theorem pending_startExact {phase : Phase} (h : (b.readAll limit wanted).ending = .stopped (.waits phase))
    (name : ReadName) : (b.startExact limit name wanted).progress =
      .pending ⟨.exactly (b.readAll limit wanted).bytes, wanted - (b.readAll limit wanted).bytes.length, phase⟩ := by
  obtain ⟨hparts, hending⟩ := run_beginRead_as_readAll b limit name wanted
  simp only [startExact, settleExact, ExactRead.Outcome.bytes, hparts, hending, h, List.nil_append]

end Binding

/-! ## On a bus -/

namespace Bus

variable {bus : Bus} {id : BindingId} {wanted : Nat} {phase : Phase}

theorem of_waits {f : Binding → Binding × Except Halt Bytes}
    (h : (bus.onBinding id (.error (.failed .closed)) f).2 = .error (.waits phase)) :
    ∃ b, bus.bindings.get? id = some b ∧ (f b).2 = .error (.waits phase) := by
  unfold onBinding at h
  split at h
  · cases h
  · rename_i b hb
    exact ⟨b, hb, h⟩

/-- **A call that waits in a read** waits in that read when it is begun as a suspended one. -/
theorem pending_of_read (h : (bus.read id wanted).2 = .error (.waits phase)) :
    ∃ b, bus.bindings.get? id = some b ∧
      ∀ name, (b.startUpTo bus.config.chunkLimit name wanted).progress = .pending ⟨.upTo, wanted, phase⟩ := by
  obtain ⟨b, hb, hwaits⟩ := of_waits h
  exact ⟨b, hb, Binding.pending_startUpTo hwaits⟩

/-- **A call that waits in an exact read** waits in that read when it is begun as a suspended one. -/
theorem pending_of_readAll (h : (bus.readAll id wanted).2 = .error (.waits phase)) :
    ∃ b, bus.bindings.get? id = some b ∧
      let bytes := (b.readAll bus.config.chunkLimit wanted).bytes
      ∀ name, (b.startExact bus.config.chunkLimit name wanted).progress =
        .pending ⟨.exactly bytes, wanted - bytes.length, phase⟩ := by
  obtain ⟨b, hb, hwaits⟩ := of_waits h
  refine ⟨b, hb, Binding.pending_startExact ?_⟩
  simp only [ExactRead.Outcome.result, ExactRead.Outcome.toExcept] at hwaits
  split at hwaits
  · cases hwaits
  · cases hwaits
  · rename_i hending
    rw [hending, Except.error.inj hwaits]

end Bus
end TopicBus
