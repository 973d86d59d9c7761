import Mathlib.Data.List.Induction
import TopicBus.Proofs.Shutdown
/-!
# How much a read gives

No chunk in an inbox is empty.  So a read that gets bytes gets at least one, and as it asks for no more than it may it
gets no more than that (`Sized`).  The rest follows.  An exact read asks again only after it got something, hence it
never runs into the end of a stream (`Binding.Gathers`); a buffer that is read into is never overrun; and a tagged
outcome says what really happened.  All of it holds of every form of read, in every state that a run can come to
(`reads_bounded`).
-/
namespace TopicBus

/-- A read of up to `wanted` bytes may give `n` of them. -/
structure Sized (limit : Option Nat) (wanted n : Nat) : Prop where
  le : n ≤ wanted
  within : Within limit n
  pos : 0 < wanted → 1 ≤ n

theorem sized_zero (limit : Option Nat) : Sized limit 0 0 := ⟨Nat.le_refl 0, fun _ _ => Nat.zero_le _, id⟩

namespace Binding

variable {limit : Option Nat} {down : Bool} {b b' : Binding} {wanted : Nat} {name : ReadName} {data : Bytes}

/-! ## Reads of up to some bytes -/

/-- What a read of up to `wanted` bytes may come to. -/
def Gives (limit : Option Nat) (wanted : Nat) : Except Halt Bytes → Prop
  | .ok data => Sized limit wanted data.length
  | .error (.failed fault) => fault ≠ .endOfStream
  | .error (.waits _) => True

/-- To ask for less is to be given no more. -/
theorem Gives.mono {n : Nat} {result : Except Halt Bytes} (h : Gives limit n result) (hn : 0 < n) (hle : n ≤ wanted) :
    Gives limit wanted result := by
  rcases result with (fault | phase) | data
  · exact h
  · exact h
  · exact ⟨Nat.le_trans h.le hle, h.within, fun _ => h.pos hn⟩

/-- A read that has the read side, of a size that the limit allows if it is served. -/
theorem Fetched.gives {out : Binding × Except Halt Bytes} (h : Fetched limit wanted b out) (hw : 0 < wanted)
    (hl : ∀ data, out.2 = .ok data → Within limit wanted) : Gives limit wanted out.2 := by
  cases h with
  | closed | released | refused | drained => exact nofun
  | waits => trivial
  | @served s taken ho hr hne ht =>
    have hle : (s.stream.take wanted).length ≤ wanted := List.length_take_le ..
    have hpos : 0 < s.stream.length := List.length_pos_iff.2 hne
    refine ⟨hle, (hl _ rfl).mono hle, fun _ => ?_⟩
    rw [List.length_take]
    omega

theorem within_of_prepare (hs : b.Sound limit down) {needs : Bool} (h : (b.prepare wanted).2 = .ok needs) :
    Within limit wanted := by
  unfold prepare at h
  split at h
  · cases h
  split at h
  · cases h
  rename_i side hside
  unfold Buffer.ensure at h
  cases hc : checkLimit side.buffer.limit wanted with
  | ok _ => exact (hs.idle side hside).limit ▸ checkLimit_eq_ok_iff.1 hc
  | error cause => simp [hc] at h

theorem gives_fetch (hs : b.Sound limit down) (hw : 0 < wanted) : Gives limit wanted (b.fetch wanted).2 := by
  refine (fetched_fetch hs hw).gives hw (fun data hdata => ?_)
  unfold fetch at hdata
  rcases hp : b.prepare wanted with ⟨b', fault | needs⟩
  · rw [hp] at hdata
    cases hdata
  · exact within_of_prepare hs (congrArg Prod.snd hp)

theorem gives_await (hs : b.Sound limit down) (hw : 0 < wanted) (hready : b.Ready limit wanted) :
    Gives limit wanted (b.await wanted).2 := by
  refine (fetched_await hs hw hready).gives hw (fun data hdata => ?_)
  cases hr : b.readSide with
  | none =>
    simp only [await, receive, hr] at hdata
    cases hdata
  | some s => exact (hready s hr).2.1

/-- A read asks for no more than it may fetch at once. -/
theorem gives_fetch_clamped (hs : b.Sound limit down) (hw : 0 < wanted) :
    Gives limit wanted (b.fetch (clampRead limit wanted)).2 := by
  have hw' := clampRead_pos limit hw
  exact (gives_fetch hs hw').mono hw' (clampRead_le limit wanted)

theorem gives_read (hs : b.Sound limit down) (wanted : Nat) : Gives limit wanted (b.read limit wanted).2 := by
  change Gives limit wanted (b.readOnce limit wanted).2
  unfold readOnce
  split
  · exact nofun
  split
  · rename_i hw
    exact hw ▸ sized_zero limit
  split
  · trivial
  · rename_i hw _
    exact gives_fetch_clamped hs (Nat.pos_of_ne_zero hw)

theorem gives_leaveUnlessWaiting {out : Binding × Except Halt Bytes} (name : ReadName) (h : Gives limit wanted out.2) :
    Gives limit wanted (leaveUnlessWaiting name out).2 := by
  obtain ⟨b, (fault | phase) | data⟩ := out <;> exact h

theorem gives_beginRead (hs : b.Sound limit down) (name : ReadName) (wanted : Nat) :
    Gives limit wanted (b.beginRead limit name wanted).2 := by
  unfold beginRead
  split
  · exact nofun
  split
  · rename_i hw
    exact hw ▸ sized_zero limit
  split
  · rename_i hw _
    exact gives_leaveUnlessWaiting name (gives_fetch_clamped (sound_line hs [name]) (Nat.pos_of_ne_zero hw))
  · trivial

theorem gives_resumeRead {phase : Phase} (hs : b.Sound limit down) (name : ReadName) (hw : 0 < wanted)
    (hready : phase = .atInbox → b.Ready limit (clampRead limit wanted)) :
    Gives limit wanted (b.resumeRead limit name phase wanted).2 := by
  cases phase with
  | inLine =>
    simp only [resumeRead]
    split
    · exact gives_leaveUnlessWaiting name (gives_fetch_clamped hs hw)
    · trivial
  | atInbox =>
    have hw' := clampRead_pos limit hw
    exact gives_leaveUnlessWaiting name ((gives_await hs hw' (hready rfl)).mono hw' (clampRead_le limit wanted))

/-! ## Exact reads -/

/-- What an exact read of `wanted` bytes may have come to: it never ran into the end of the stream. -/
structure Gathers (wanted : Nat) (o : ExactRead.Outcome Binding Halt) : Prop where
  le : o.bytes.length ≤ wanted
  filled : o.ending = .filled → o.bytes.length = wanted
  progress : o.ending ≠ .noProgress
  fault : o.ending ≠ .stopped (.failed .endOfStream)

theorem gathers_resume {read : Binding → Nat → Binding × Except Halt Bytes} {out : Binding × Except Halt Bytes}
    (hw : 0 < wanted) (h : Gives limit wanted out.2)
    (hrest : ∀ t data, out = (t, .ok data) →
      Gathers (wanted - data.length) (ExactRead.run read t (wanted - data.length))) :
    Gathers wanted (ExactRead.resume read wanted out) := by
  obtain ⟨t, cause | _ | ⟨x, xs⟩⟩ := out
  · refine ⟨Nat.zero_le _, nofun, nofun, fun he => ?_⟩
    obtain rfl := ExactRead.Ending.stopped.inj he
    exact h rfl
  · exact absurd (h.pos hw) (Nat.not_succ_le_zero 0)
  · have hg := hrest t (x :: xs) rfl
    have hle : (x :: xs).length ≤ wanted := h.le
    have hlength : (ExactRead.resume read wanted (t, .ok (x :: xs))).bytes.length = (x :: xs).length +
        (ExactRead.run read t (wanted - (x :: xs).length)).bytes.length := List.length_append
    refine ⟨?_, fun he => ?_, hg.progress, hg.fault⟩
    · have := hg.le
      omega
    · have := hg.filled he
      omega

/-- **An exact read goes on as long as its reads give something.** -/
theorem gathers_run {read : Binding → Nat → Binding × Except Halt Bytes} (Inv : Binding → Prop)
    (hread : ∀ t n, Inv t → n ≠ 0 → Gives limit n (read t n).2)
    (hinv : ∀ t n data t', Inv t → n ≠ 0 → read t n = (t', .ok data) → Inv t') (h : Inv b) (wanted : Nat) :
    Gathers wanted (ExactRead.run read b wanted) := by
  induction wanted using Nat.strongRecOn generalizing b with
  | ind wanted ih =>
    by_cases hw : wanted = 0
    · rw [hw, ExactRead.run_zero]
      exact ⟨Nat.le_refl 0, fun _ => rfl, nofun, nofun⟩
    · -- less is missing after each read, as none gives nothing
      have hgives := hread b wanted h hw
      rw [ExactRead.run_of_pos read b hw]
      refine gathers_resume (Nat.pos_of_ne_zero hw) hgives (fun t data hr => ih _ ?_ (hinv b wanted data t h hw hr))
      rw [hr] at hgives
      have := hgives.pos (Nat.pos_of_ne_zero hw)
      omega

theorem gathers_readAll (hs : b.Sound limit down) (wanted : Nat) : Gathers wanted (b.readAll limit wanted) :=
  gathers_run (fun t => t.Sound limit down) (fun _ n ht _ => gives_read ht n)
    (fun t n data t' ht _ hr => by
      have hadvance := (read_advance ht n).1
      rw [hr] at hadvance
      exact hadvance.sound)
    hs wanted

theorem gathers_begin (hs : b.Sound limit down) (hn : name ∉ b.line) (wanted : Nat) :
    Gathers wanted (ExactRead.run (beginRead limit name) b wanted) :=
  gathers_run (fun t => t.Sound limit down ∧ name ∉ t.line) (fun _ n ht _ => gives_beginRead ht.1 name n)
    (fun t n data t' ht hn' hr => by
      have hturn := turn_beginRead ht.1 (Nat.pos_of_ne_zero hn') ht.2
      rw [hr] at hturn
      have hline := hturn.left (fun _ hp => (nomatch hp))
      exact ⟨hturn.advance.sound, hline ▸ (List.erase_of_not_mem ht.2).symm ▸ ht.2⟩)
    ⟨hs, hn⟩ wanted

/-- What an exact read of `wanted` bytes may be answered. -/
def GivesAll (wanted : Nat) : Except Halt Bytes → Prop
  | .ok data => data.length = wanted
  | .error (.failed fault) => fault ≠ .endOfStream
  | .error (.waits _) => True

theorem Gathers.givesAll {o : ExactRead.Outcome Binding Halt} (h : Gathers wanted o) :
    GivesAll wanted (o.toExcept (.failed .endOfStream)) := by
  obtain ⟨reader, parts, _ | _ | fault | phase⟩ := o
  · exact h.filled rfl
  · exact absurd rfl h.progress
  · rintro rfl
    exact h.fault rfl
  · trivial

end Binding

/-! ## Suspended reads -/

/-- What a read is to get. -/
inductive Aim
  | upTo (wanted : Nat)
  | exactly (wanted : Nat)
deriving DecidableEq

def BindingOp.aim? : BindingOp → Option Aim
  | .read wanted | .readTagged wanted => some (.upTo wanted)
  | .readAll wanted => some (.exactly wanted)
  | _ => none

/-- What the read is to get that an operation begins, if it begins one that may have to wait. -/
def Op.aim? : Op → Option Aim
  | .start _ _ wanted => some (.upTo wanted)
  | .startAll _ _ wanted => some (.exactly wanted)
  | .onBinding _ op | .endCall op => op.aim?
  | .onTransport _ op => op.passes?.bind BindingOp.aim?
  | _ => none

/-- `read` is what a read has come to that is to get so much. -/
inductive Aim.Begins : Aim → SuspendedRead → Prop
  | upTo {read : SuspendedRead} {wanted : Nat} : read.goal = .upTo → read.wanted = wanted → Begins (.upTo wanted) read
  | exactly {read : SuspendedRead} {wanted : Nat} {gathered : Bytes} : read.goal = .exactly gathered →
      gathered.length + read.wanted = wanted → Begins (.exactly wanted) read

/-- What a read may finish with that is to get so much. -/
inductive Aim.Finishes (limit : Option Nat) : Aim → Except Fault Bytes → Prop
  | upTo {wanted : Nat} {data : Bytes} : Sized limit wanted data.length → Finishes limit (.upTo wanted) (.ok data)
  | failed {wanted : Nat} {fault : Fault} : Finishes limit (.upTo wanted) (.error fault)
  | exactly {wanted : Nat} {data : Bytes} : data.length = wanted → Finishes limit (.exactly wanted) (.ok data)
  | notExactly {wanted : Nat} {fault : Fault} : fault ≠ .endOfStream →
      Finishes limit (.exactly wanted) (.error fault)

/-- How far a read may be that is to get so much. -/
def Aim.Allows (limit : Option Nat) (aim : Aim) : Progress → Prop
  | .ready result => aim.Finishes limit result
  | .pending read => aim.Begins read

namespace Binding

variable {limit : Option Nat} {down : Bool} {b : Binding} {wanted : Nat} {name : ReadName}

theorem allows_settleUpTo {out : Binding × Except Halt Bytes} (h : Gives limit wanted out.2) :
    (Aim.upTo wanted).Allows limit (settleUpTo wanted out).progress := by
  obtain ⟨b, (fault | phase) | data⟩ := out
  · exact .failed
  · exact .upTo rfl rfl
  · exact .upTo h

theorem allows_settleExact {o : ExactRead.Outcome Binding Halt} (h : Gathers wanted o) (gathered : Bytes) :
    (Aim.exactly (gathered.length + wanted)).Allows limit (settleExact gathered wanted o).progress := by
  have hlength : (gathered ++ o.bytes).length = gathered.length + o.bytes.length := List.length_append
  have hle := h.le
  obtain ⟨reader, parts, _ | _ | fault | phase⟩ := o
  · exact .exactly (hlength.trans (congrArg (gathered.length + ·) (h.filled rfl)))
  · exact absurd rfl h.progress
  · refine .notExactly ?_
    rintro rfl
    exact h.fault rfl
  · refine .exactly rfl ?_
    change (gathered ++ _).length + (wanted - _) = _
    omega

theorem allows_startUpTo (hs : b.Sound limit down) (name : ReadName) (wanted : Nat) :
    (Aim.upTo wanted).Allows limit (b.startUpTo limit name wanted).progress :=
  allows_settleUpTo (gives_beginRead hs name wanted)

theorem allows_startExact (hs : b.Sound limit down) (hn : name ∉ b.line) (wanted : Nat) :
    (Aim.exactly wanted).Allows limit (b.startExact limit name wanted).progress := by
  have hallows : (Aim.exactly (0 + wanted)).Allows limit (b.startExact limit name wanted).progress :=
    allows_settleExact (gathers_begin hs hn wanted) []
  rwa [Nat.zero_add] at hallows

/-- **A poll** leaves a read what it was, or finishes it with what it may finish with. -/
theorem allows_poll {read : SuspendedRead} {aim : Aim} (haim : aim.Begins read) (hs : b.Sound limit down)
    (hnd : b.line.Nodup) (hmem : name ∈ b.line) (hw : 0 < read.wanted)
    (hready : read.phase = .atInbox → b.line.head? = some name ∧ b.Ready limit (clampRead limit read.wanted)) :
    aim.Allows limit (b.poll limit name read).progress := by
  have hgives := gives_resumeRead hs name hw (fun hp => (hready hp).2)
  unfold poll
  cases haim with
  | upTo hgoal hwanted =>
    obtain rfl := hwanted
    simp only [hgoal]
    exact allows_settleUpTo hgives
  | exactly hgoal htotal =>
    obtain rfl := htotal
    simp only [hgoal]
    refine allows_settleExact (gathers_resume hw hgives (fun t data hout => ?_)) _
    -- what is still missing is read anew, from the end of the line
    have hturn := turn_resumeRead hs hw hmem hready
    rw [hout] at hturn
    have hline : t.line = b.line.erase name := hturn.left (fun _ hp => (nomatch hp))
    exact gathers_begin hturn.advance.sound (hline ▸ hnd.not_mem_erase) _

theorem sized_tryRead (hs : b.Sound limit down) {data : Bytes} (h : (b.tryRead limit wanted).2 = .ok (some data)) :
    Sized limit wanted data.length := by
  have hgives := gives_read hs wanted
  unfold tryRead at h
  rcases hr : b.read limit wanted with ⟨b', (fault | phase) | data'⟩
  · simp [hr] at h
  · simp [hr] at h
  · simp only [hr, Except.ok.injEq, Option.some.injEq] at h
    rw [hr, h] at hgives
    exact hgives

end Binding

/-! ## Reads and writes on the bus -/

namespace Bus

variable {bus : Bus} {id : BindingId} {wanted : Nat} {data : Bytes}

/-- What is answered by a binding, or for want of one. -/
theorem answer_onBinding {α : Type} {P : α → Prop} {absent : α} {f : Binding → Binding × α} (habsent : P absent)
    (hf : ∀ b, bus.bindings.get? id = some b → P (f b).2) : P (bus.onBinding id absent f).2 := by
  unfold onBinding
  split
  · exact habsent
  · exact hf _ ‹_›

section

variable (hs : ∀ b, bus.bindings.get? id = some b → b.Sound bus.config.chunkLimit bus.isShutDown)
include hs

theorem gives_read (wanted : Nat) : Binding.Gives bus.config.chunkLimit wanted (bus.read id wanted).2 :=
  answer_onBinding nofun (fun b hb => Binding.gives_read (hs b hb) wanted)

theorem givesAll_readAll (wanted : Nat) : Binding.GivesAll wanted (bus.readAll id wanted).2 :=
  answer_onBinding nofun (fun b hb => (Binding.gathers_readAll (hs b hb) wanted).givesAll)

theorem sized_tryRead (h : (bus.tryRead id wanted).2 = .ok (some data)) :
    Sized bus.config.chunkLimit wanted data.length := by
  unfold tryRead onBinding at h
  cases hb : bus.bindings.get? id with
  | none => simp [hb] at h
  | some b =>
    simp only [hb] at h
    exact Binding.sized_tryRead (hs b hb) h

end

end Bus

/-! ## What is told of them -/

/-- Whether an operation on a binding moves bytes. -/
def BindingOp.transfers : BindingOp → Bool
  | .read _ | .readAll _ | .tryRead _ | .readTagged _ | .write _ | .writeTagged _ => true
  | _ => false

/-- What an operation on a binding may be answered.  An outcome that is tagged as complete is complete, and only a read
may fall short. -/
inductive BindingOp.Tells (limit : Option Nat) : BindingOp → Answer → Prop
  | bytes {wanted : Nat} {data : Bytes} : Sized limit wanted data.length → Tells limit (.read wanted) (.bytes data)
  | failed {wanted : Nat} {fault : Fault} : Tells limit (.read wanted) (.failed fault)
  | waits {wanted : Nat} : Tells limit (.read wanted) .blocked
  | all {wanted : Nat} {data : Bytes} : data.length = wanted → Tells limit (.readAll wanted) (.bytes data)
  | notAll {wanted : Nat} {fault : Fault} : fault ≠ .endOfStream → Tells limit (.readAll wanted) (.failed fault)
  | allWaits {wanted : Nat} : Tells limit (.readAll wanted) .blocked
  | some {wanted : Nat} {data : Bytes} : Sized limit wanted data.length →
      Tells limit (.tryRead wanted) (.perhaps (some data))
  | none {wanted : Nat} : Tells limit (.tryRead wanted) (.perhaps none)
  | notTried {wanted : Nat} {fault : Fault} : Tells limit (.tryRead wanted) (.failed fault)
  | complete {wanted : Nat} {data : Bytes} : data.length = wanted → Within limit wanted →
      Tells limit (.readTagged wanted) (.taggedRead (.complete wanted) data)
  | short {wanted : Nat} {data : Bytes} : 1 ≤ data.length → data.length < wanted → Within limit data.length →
      Tells limit (.readTagged wanted) (.taggedRead (.short data.length wanted) data)
  | taggedFailed {wanted : Nat} {fault : Fault} : Tells limit (.readTagged wanted) (.taggedRead (.failed fault) [])
  | taggedWaits {wanted : Nat} : Tells limit (.readTagged wanted) .blocked
  | sent {data : Bytes} : Tells limit (.write data) (.count data.length)
  | notSent {data : Bytes} {fault : Fault} : Tells limit (.write data) (.failed fault)
  | completed {data : Bytes} : Tells limit (.writeTagged data) (.transfer (.complete data.length))
  | notCompleted {data : Bytes} {fault : Fault} : Tells limit (.writeTagged data) (.transfer (.failed fault))
  | other {op : BindingOp} {answer : Answer} : op.transfers = false → Tells limit op answer

/-- What an operation on a transport may be answered.  Its byte-stream face reads into a buffer of `size` bytes. -/
inductive TransportOp.Tells (limit : Option Nat) : TransportOp → Answer → Prop
  | read {wanted : Nat} {answer : Answer} : (BindingOp.read wanted).Tells limit answer →
      Tells limit (.read wanted) answer
  | readAll {wanted : Nat} {answer : Answer} : (BindingOp.readAll wanted).Tells limit answer →
      Tells limit (.readAll wanted) answer
  | write {data : Bytes} {answer : Answer} : (BindingOp.write data).Tells limit answer →
      Tells limit (.write data) answer
  | filled {size count : Nat} {buffer : Bytes} : Sized limit size count → buffer.length = size →
      Tells limit (.ioRead size) (.filled count buffer)
  | notFilled {size : Nat} {fault : Fault} : Tells limit (.ioRead size) (.ioFailed fault)
  | fillWaits {size : Nat} : Tells limit (.ioRead size) .blocked
  | exactly {size : Nat} {data : Bytes} : data.length = size → Tells limit (.ioReadExact size) (.bytes data)
  | notExactly {size : Nat} {fault : Fault} : fault ≠ .endOfStream →
      Tells limit (.ioReadExact size) (.ioFailed fault)
  | exactlyWaits {size : Nat} : Tells limit (.ioReadExact size) .blocked
  | sent {data : Bytes} : Tells limit (.ioWrite data) (.count data.length)
  | notSent {data : Bytes} {fault : Fault} : Tells limit (.ioWrite data) (.ioFailed fault)
  | other {op : TransportOp} {answer : Answer} : op.passes? = none → Tells limit op answer

theorem length_overwrite {size : Nat} {data : Bytes} (h : data.length ≤ size) :
    (overwrite size data).length = size := by
  rw [overwrite, List.length_append, List.length_replicate]
  omega

namespace Session

variable {s : Session} {id : BindingId} {name : ReadName} {op : Op}

theorem answer_afterRead {P : Answer → Prop} {Q : Except Halt Bytes → Prop} {answer : Except Fault Bytes → Answer}
    {begin : Binding → Option Nat → ReadName → Polled} {out : Bus × Except Halt Bytes} (h : Q out.2)
    (hok : ∀ data, Q (.ok data) → P (answer (.ok data)))
    (hfailed : ∀ fault, Q (.error (.failed fault)) → P (answer (.error fault))) (hwaits : P .blocked) :
    P (s.afterRead id begin answer out).2 := by
  obtain ⟨bus, (fault | phase) | data⟩ := out
  · exact hfailed fault h
  · exact hwaits
  · exact hok data h

/-- The tag of a read says what it got. -/
theorem tells_of_sized {limit : Option Nat} {wanted : Nat} {data : Bytes} (h : Sized limit wanted data.length) :
    (BindingOp.readTagged wanted).Tells limit (taggedRead wanted (.ok data)) := by
  simp only [taggedRead, Transfer.of]
  by_cases hle : wanted ≤ data.length
  · have hlength : data.length = wanted := Nat.le_antisymm h.le hle
    rw [if_pos hle, hlength]
    exact .complete hlength (hlength ▸ h.within)
  · rw [if_neg hle]
    exact .short (h.pos (by omega)) (by omega) h.within

/-- **What is asked of a binding.** -/
theorem tells_stepBinding (h : s.desk.Good) (id : BindingId) (op : BindingOp) :
    op.Tells s.bus.config.chunkLimit (s.stepBinding id op).2 := by
  have hs : ∀ b, s.bus.bindings.get? id = some b → b.Sound s.bus.config.chunkLimit s.bus.isShutDown := h.sound id
  cases op with
  | read wanted =>
    exact answer_afterRead (Bus.gives_read hs wanted) (fun _ hdata => .bytes hdata) (fun _ _ => .failed) .waits
  | readAll wanted =>
    exact answer_afterRead (Bus.givesAll_readAll hs wanted) (fun _ hdata => .all hdata) (fun _ hf => .notAll hf)
      .allWaits
  | tryRead wanted =>
    simp only [stepBinding]
    rcases hr : (s.bus.tryRead id wanted).2 with fault | _ | data
    · exact .notTried
    · exact .none
    · exact .some (Bus.sized_tryRead hs hr)
  | readTagged wanted =>
    exact answer_afterRead (Bus.gives_read hs wanted) (fun _ hdata => tells_of_sized hdata) (fun _ _ => .taggedFailed)
      .taggedWaits
  | write data =>
    simp only [stepBinding]
    cases hw : (s.bus.write id data).2 with
    | error fault => exact .notSent
    | ok n =>
      rw [Bus.eq_length_of_write_ok hw]
      exact .sent
  | writeTagged data =>
    simp only [stepBinding]
    cases hw : (s.bus.write id data).2 with
    | error fault => exact .notCompleted
    | ok n =>
      rw [Bus.eq_length_of_write_ok hw, Transfer.ofExcept, Transfer.of, if_pos (Nat.le_refl _)]
      exact .completed
  | flush | close | isOpen | info | traffic | readCapacity | writeCapacity => exact .other rfl

theorem answer_onLive {P : Answer → Prop} {t : Transport} {closed : Answer} {f : BindingId → Session × Answer}
    (hclosed : P closed) (hlive : ∀ id, P (f id).2) : P (s.onLive t closed f).2 := by
  unfold onLive
  split
  · exact hclosed
  · exact hlive _

/-- **What is asked of a transport.** -/
theorem tells_stepTransport (h : s.desk.Good) (name : String) (t : Transport) (op : TransportOp) :
    op.Tells s.bus.config.chunkLimit (s.stepTransport name t op).2 := by
  have hs : ∀ id b, s.bus.bindings.get? id = some b → b.Sound s.bus.config.chunkLimit s.bus.isShutDown := h.sound
  cases op with
  | read wanted => exact .read (answer_onLive .failed (fun id => tells_stepBinding h id _))
  | readAll wanted => exact .readAll (answer_onLive (.notAll nofun) (fun id => tells_stepBinding h id _))
  | write data => exact .write (answer_onLive .notSent (fun id => tells_stepBinding h id _))
  | ioRead size =>
    simp only [stepTransport]
    split
    · rename_i hsize
      obtain rfl := hsize
      exact .filled (sized_zero _) rfl
    · exact answer_onLive .notFilled (fun id => answer_afterRead (Bus.gives_read (hs id) size)
        (fun _ hdata => .filled hdata (length_overwrite hdata.le)) (fun _ _ => .notFilled) .fillWaits)
  | ioReadExact size =>
    simp only [stepTransport]
    split
    · rename_i hsize
      exact .exactly hsize.symm
    · exact answer_onLive (.notExactly nofun) (fun id => answer_afterRead (Bus.givesAll_readAll (hs id) size)
        (fun _ hdata => .exactly hdata) (fun _ hf => .notExactly hf) .exactlyWaits)
  | ioWrite data =>
    refine answer_onLive .notSent (fun id => ?_)
    cases hw : (s.bus.write id data).2 with
    | error fault => exact .notSent
    | ok n =>
      rw [Bus.eq_length_of_write_ok hw]
      exact .sent
  | openBinding | closeBinding | isOpen | options | flush | ioFlush => exact .other rfl

/-! ## What suspended reads come to -/

/-- A read that is still there was left so by the poll. -/
theorem of_get?_reads_keep {id : BindingId} {polled : Polled} {r : Reader}
    (hr : (s.keep name id polled).reads.get? name = some r) : polled.progress = .pending r.read := by
  cases hprog : polled.progress with
  | ready result => simp [keep, hprog, reads_settle, Table.get?_erase] at hr
  | pending read =>
    simp only [keep, hprog, Table.get?_insert_self] at hr
    rw [← Option.some.inj hr]

/-- A poll is answered, and the read kept, as far as the poll got. -/
theorem allows_keep {limit : Option Nat} {aim : Aim} {id : BindingId} {polled : Polled}
    (h : aim.Allows limit polled.progress) :
    (∀ result, Answer.ofProgress polled.progress = .ready result → aim.Finishes limit result) ∧
      ∀ r, (s.keep name id polled).reads.get? name = some r → aim.Begins r.read := by
  refine ⟨fun result hresult => ?_, fun r hr => ?_⟩
  · cases hprog : polled.progress with
    | ready result' =>
      rw [hprog] at h hresult
      exact Answer.ready.inj hresult ▸ h
    | pending read =>
      rw [hprog] at hresult
      cases hresult
  · rwa [of_get?_reads_keep hr] at h

/-- The read that is begun under `name` is finished at once, or kept; if it cannot be begun, nothing is changed. -/
structure Starts (s : Session) (aim : Aim) (name : ReadName) (out : Session × Answer) : Prop where
  finishes : ∀ result, out.2 = .ready result → aim.Finishes s.bus.config.chunkLimit result
  begins : ∀ r, out.1.reads.get? name = some r → aim.Begins r.read ∨ s.reads.get? name = some r

theorem starts_named (h : s.desk.Good) {aim : Aim} (holder : String) {poll : Binding → Polled}
    (hpoll : ∀ down b, b.Sound s.bus.config.chunkLimit down → name ∉ b.line →
      aim.Allows s.bus.config.chunkLimit (poll b).progress) :
    s.Starts aim name (s.named s.names holder (fun id => (s.cancel name).advance name id poll)) := by
  unfold named
  split
  · refine ⟨fun result hr => ?_, fun r hr => Or.inr hr⟩
    cases hr
  · rename_i id _
    have hgood := good_cancel h name
    have hfree : ∀ r, (s.cancel name).reads.get? name ≠ some r := fun r hr =>
      Option.some_ne_none r (hr.symm.trans (get?_reads_cancel s name))
    simp only [advance]
    split
    · refine ⟨fun result hr => ?_, fun r hr => absurd hr (hfree r)⟩
      cases hr
    · rename_i b hb
      have hsound : b.Sound s.bus.config.chunkLimit (s.cancel name).bus.isShutDown :=
        config_cancel s name ▸ hgood.sound id b hb
      have hn : name ∉ b.line := fun hmem => by
        obtain ⟨r, hr, -⟩ := (hgood.line id b hb name).1 hmem
        exact hfree r hr
      obtain ⟨hfinishes, hbegins⟩ := allows_keep (hpoll _ b hsound hn)
      exact ⟨hfinishes, fun r hr => Or.inl (hbegins r hr)⟩

theorem starts_start (h : s.desk.Good) (holder read : String) (wanted : Nat) :
    s.Starts (.upTo wanted) read (s.step (.start holder read wanted)) :=
  starts_named h holder (fun _ _ hs _ => Binding.allows_startUpTo hs read wanted)

theorem starts_startAll (h : s.desk.Good) (holder read : String) (wanted : Nat) :
    s.Starts (.exactly wanted) read (s.step (.startAll holder read wanted)) :=
  starts_named h holder (fun _ _ hs hn => Binding.allows_startExact hs hn wanted)

/-- If a call has to wait now, then in a read that is to get `aim`. -/
def WaitsFor (s : Session) (aim : Option Aim) (s' : Session) : Prop :=
  ∀ r, s'.reads.get? s.nextCall = some r → ∃ a, aim = some a ∧ a.Begins r.read

theorem waitsFor_of_reads {aim : Option Aim} {s' : Session} (h : s'.reads = s.reads) : s.WaitsFor aim s' := fun r hr => by
  rw [h, get?_nextCall] at hr
  cases hr

theorem waitsFor_afterRead {aim : Aim} {begin : Binding → Option Nat → ReadName → Polled}
    {answer : Except Fault Bytes → Answer} {out : Bus × Except Halt Bytes}
    (hbegin : ∀ b, s.bus.bindings.get? id = some b →
      aim.Allows s.bus.config.chunkLimit (begin b s.bus.config.chunkLimit s.nextCall).progress) :
    s.WaitsFor (some aim) (s.afterRead id begin answer out).1 := by
  obtain ⟨bus, (fault | phase) | data⟩ := out
  · exact waitsFor_of_reads rfl
  · simp only [afterRead, advance]
    split
    · exact waitsFor_of_reads rfl
    · exact fun r hr => ⟨aim, rfl, (allows_keep (hbegin _ ‹_›)).2 r hr⟩
  · exact waitsFor_of_reads rfl

theorem waitsFor_read (h : s.desk.Good) (id : BindingId) (wanted : Nat) (answer : Except Fault Bytes → Answer) :
    s.WaitsFor (some (.upTo wanted)) (s.read id wanted answer).1 :=
  waitsFor_afterRead (fun b hb => Binding.allows_startUpTo (h.sound id b hb) _ wanted)

theorem waitsFor_readAll (h : s.desk.Good) (id : BindingId) (wanted : Nat) (answer : Except Fault Bytes → Answer) :
    s.WaitsFor (some (.exactly wanted)) (s.readAll id wanted answer).1 :=
  waitsFor_afterRead (fun b hb => Binding.allows_startExact (h.sound id b hb) (fun hmem => by
    obtain ⟨r, hr, -⟩ := (h.line id b hb _).1 hmem
    exact Option.some_ne_none r (hr.symm.trans s.get?_nextCall)) wanted)

theorem waitsFor_stepBinding (h : s.desk.Good) (id : BindingId) (op : BindingOp) :
    s.WaitsFor op.aim? (s.stepBinding id op).1 := by
  cases op with
  | read wanted | readTagged wanted => exact waitsFor_read h id wanted _
  | readAll wanted => exact waitsFor_readAll h id wanted _
  | _ => exact waitsFor_of_reads rfl

theorem waitsFor_onLive {aim : Option Aim} {t : Transport} {closed : Answer} {f : BindingId → Session × Answer}
    (hlive : ∀ id, s.WaitsFor aim (f id).1) : s.WaitsFor aim (s.onLive t closed f).1 := by
  unfold onLive
  split
  · exact waitsFor_of_reads rfl
  · exact hlive _

theorem waitsFor_stepTransport (h : s.desk.Good) (name : String) (t : Transport) (op : TransportOp) :
    s.WaitsFor (op.passes?.bind BindingOp.aim?) (s.stepTransport name t op).1 := by
  cases op with
  | read _ | readAll _ | write _ => exact waitsFor_onLive (fun id => waitsFor_stepBinding h id _)
  | ioRead size =>
    simp only [stepTransport]
    split
    · exact waitsFor_of_reads rfl
    · exact waitsFor_onLive (fun id => waitsFor_read h id size _)
  | ioReadExact size =>
    simp only [stepTransport]
    split
    · exact waitsFor_of_reads rfl
    · exact waitsFor_onLive (fun id => waitsFor_readAll h id size _)
  | openBinding =>
    refine waitsFor_of_reads ?_
    simp only [stepTransport, openTransport]
    split
    · rfl
    · split <;> rfl
  | closeBinding =>
    refine waitsFor_of_reads ?_
    simp only [stepTransport, closeTransport]
    split <;> rfl
  | ioWrite _ => exact waitsFor_onLive (fun id => waitsFor_of_reads rfl)
  | flush | ioFlush => exact waitsFor_onLive (fun id => waitsFor_of_reads rfl)
  | isOpen | options => exact waitsFor_of_reads rfl

/-- **A poll of a suspended read.** -/
theorem allows_polling (h : s.desk.Good) {r : Reader} (hr : s.reads.get? name = some r) {aim : Aim}
    (haim : aim.Begins r.read) :
    (∀ result, (s.step (.poll name)).2 = .ready result → aim.Finishes s.bus.config.chunkLimit result) ∧
      ∀ r', (s.step (.poll name)).1.reads.get? name = some r' → aim.Begins r'.read := by
  obtain ⟨hw, b, hb, hready⟩ := h.reads name r hr
  rw [step_poll hr hb]
  exact allows_keep (Binding.allows_poll haim (h.sound _ b hb) (h.nodup _ b hb)
    ((h.line _ b hb name).2 ⟨r, hr, rfl⟩) hw hready)

/-- A read that an operation leaves suspended was begun by it, or was there before. -/
theorem begun_step (h : s.desk.Good) {r : Reader} (hr : (s.step op).1.reads.get? name = some r) :
    (s.reader? op = some name ∧ ∃ aim, op.aim? = some aim ∧ aim.Begins r.read) ∨
      ∃ r', s.reads.get? name = some r' ∧ ∀ aim : Aim, aim.Begins r'.read → aim.Begins r.read := by
  have hsame : s.reads.get? name = some r → ∃ r', s.reads.get? name = some r' ∧
      ∀ aim : Aim, aim.Begins r'.read → aim.Begins r.read := fun hr' => ⟨r, hr', fun _ hb => hb⟩
  by_cases hop : s.reader? op = some name
  · cases op with
    | start holder read wanted =>
      obtain rfl := Option.some.inj hop
      exact ((starts_start h holder read wanted).begins r hr).imp (fun hb => ⟨rfl, _, rfl, hb⟩) hsame
    | startAll holder read wanted =>
      obtain rfl := Option.some.inj hop
      exact ((starts_startAll h holder read wanted).begins r hr).imp (fun hb => ⟨rfl, _, rfl, hb⟩) hsame
    | poll read =>
      obtain rfl := Option.some.inj hop
      cases hr' : s.reads.get? read with
      | none =>
        simp only [step, named, hr'] at hr
        cases hr
      | some r' => exact Or.inr ⟨r', rfl, fun begun hb => (allows_polling h hr' hb).2 r hr⟩
    | cancel read =>
      obtain rfl := Option.some.inj hop
      exact absurd (hr.symm.trans (get?_reads_step_cancel s read)) (Option.some_ne_none r)
    | onBinding holder bop =>
      obtain rfl := Option.some.inj hop
      refine Or.inl ⟨rfl, ?_⟩
      simp only [step, named] at hr
      split at hr
      · exact waitsFor_of_reads rfl r hr
      · exact waitsFor_stepBinding h _ bop r hr
    | endCall bop =>
      obtain rfl := Option.some.inj hop
      refine Or.inl ⟨rfl, ?_⟩
      simp only [step] at hr
      split at hr
      · exact waitsFor_of_reads rfl r hr
      · rw [endCall, reads_settle] at hr
        exact waitsFor_stepBinding h _ bop r hr
    | onTransport transport top =>
      obtain rfl := Option.some.inj hop
      refine Or.inl ⟨rfl, ?_⟩
      simp only [step, named] at hr
      split at hr
      · exact waitsFor_of_reads rfl r hr
      · exact waitsFor_stepTransport h transport _ top r hr
    | _ => cases hop
  · -- no act is about it
    have hne : ∀ act ∈ s.acts op, act.read? ≠ some name := fun act ha he => by
      rcases read?_of_mem_acts ha with hn | hn
      · cases hn.symm.trans he
      · exact hop (hn.symm.trans he)
    have hafter := Desk.get?_reads_after (d := s.desk) hne
    rw [← desk_step] at hafter
    exact Or.inr (hsame (hafter.symm.trans hr))

/-- **A run**: every suspended read was begun by an operation, and has been suspended since then. -/
theorem begun_run (config : Config) (ops : List Op) {r : Reader}
    (hr : ((new config).run ops).reads.get? name = some r) : ∃ before op after aim, ops = before ++ op :: after ∧
      op.aim? = some aim ∧ ((new config).run before).reader? op = some name ∧
      ∀ mid, mid <+: after → ∃ r', ((new config).run (before ++ op :: mid)).reads.get? name = some r' ∧
        aim.Begins r'.read := by
  induction ops using List.reverseRecOn generalizing r with
  | nil => cases hr
  | append_singleton ops op ih =>
    have hstep : ((new config).run (ops ++ [op])) = (((new config).run ops).step op).1 := run_append _ _ _
    -- the last operation began the read, or it was there and has stayed the read of the same operation
    rcases begun_step (good_run config ops) (hstep ▸ hr) with ⟨hreader, aim, haim, hbegins⟩ | ⟨r₁, hr₁, hkeeps⟩
    · refine ⟨ops, op, [], aim, rfl, haim, hreader, fun mid hmid => ⟨r, ?_, hbegins⟩⟩
      rw [List.prefix_nil.1 hmid]
      exact hr
    · obtain ⟨before, begun, after, aim, rfl, haim, hreader, hsince⟩ := ih hr₁
      refine ⟨before, begun, after ++ [op], aim, by simp, haim, hreader, fun mid hmid => ?_⟩
      rcases List.prefix_concat_iff.1 hmid with rfl | hmid
      · obtain ⟨r₂, hr₂, hbegins⟩ := hsince after (List.prefix_refl after)
        obtain rfl := Option.some.inj (hr₁.symm.trans hr₂)
        refine ⟨r, ?_, hkeeps aim hbegins⟩
        rw [← List.cons_append, ← List.append_assoc]
        exact hr
      · exact hsince mid hmid

/-! ## In every state of a run -/

/-- How much every read of a session gives, and what its writes say. -/
structure Bounded (s : Session) (limit : Option Nat) : Prop where
  chunks : ∀ id b side, s.bus.bindings.get? id = some b → b.readSide = some side →
    ∀ chunk ∈ side.queue, 1 ≤ chunk.length
  asked : ∀ name id (op : BindingOp), s.names.get? name = some id → op.Tells limit (s.step (.onBinding name op)).2
  ended : ∀ id earlier (op : BindingOp), s.calls = id :: earlier → op.Tells limit (s.step (.endCall op)).2
  transported : ∀ transport t (op : TransportOp), s.transports.get? transport = some t →
    op.Tells limit (s.step (.onTransport transport op)).2
  started : ∀ holder name wanted result, (s.step (.start holder name wanted)).2 = .ready result →
    (Aim.upTo wanted).Finishes limit result
  startedAll : ∀ holder name wanted result, (s.step (.startAll holder name wanted)).2 = .ready result →
    (Aim.exactly wanted).Finishes limit result

theorem bounded_of_good (h : s.desk.Good) : s.Bounded s.bus.config.chunkLimit where
  chunks id b side hb hside chunk hc :=
    List.length_pos_iff.2 (((h.sound id b hb).idle side hside).chunks chunk hc)
  asked name id op hn := by
    simp only [step, named, hn]
    exact tells_stepBinding h id op
  ended id earlier op hcalls := by
    simp only [step, hcalls]
    exact tells_stepBinding h id op
  transported transport t op ht := by
    simp only [step, named, ht]
    exact tells_stepTransport h transport t op
  started holder name wanted := (starts_start h holder name wanted).finishes
  startedAll holder name wanted := (starts_startAll h holder name wanted).finishes

/-- **Reads give what they may, and say so.**  After any run no inbox has an empty chunk.  Hence a read of up to some
bytes, at least one, gives at least one of them if it is answered with success, and no more than it asked for or than
the limit: a waiting read and an immediate one, through a name of the binding, a call on it or a transport, and one that
is read into a buffer, which is never overrun.  An exact read gives exactly what it asked for, and is never told that
the stream has ended.  A tagged read is complete with all the bytes it asked for, or short with at least one of them; a
tagged write is never short.  A suspended read that is begun, or that a poll finishes, be it that of a call that had to
wait, comes to what the operation that it was begun by may come to; it has been suspended since then. -/
theorem reads_bounded (config : Config) (ops : List Op) :
    let s := (new config).run ops
    s.Bounded config.chunkLimit ∧
    ∀ name result, (s.step (.poll name)).2 = .ready result → ∃ before op after aim, ops = before ++ op :: after ∧
      op.aim? = some aim ∧ ((new config).run before).reader? op = some name ∧
      aim.Finishes config.chunkLimit result ∧
      ∀ mid, mid <+: after → ∃ r, ((new config).run (before ++ op :: mid)).reads.get? name = some r ∧
        aim.Begins r.read := by
  intro s
  have hgood : s.desk.Good := good_run config ops
  have hconfig : s.bus.config = config := config_run config ops
  refine ⟨hconfig ▸ bounded_of_good hgood, fun name result hresult => ?_⟩
  cases hr : s.reads.get? name with
  | none =>
    simp only [step, named, hr] at hresult
    cases hresult
  | some r =>
    obtain ⟨before, op, after, aim, rfl, haim, hreader, hsince⟩ := begun_run config ops hr
    obtain ⟨r', hr', hbegins⟩ := hsince after (List.prefix_refl after)
    obtain rfl := Option.some.inj (hr.symm.trans hr')
    exact ⟨before, op, after, aim, rfl, haim, hreader, hconfig ▸ (allows_polling hgood hr hbegins).1 result hresult,
      hsince⟩

/-- A read of up to nine bytes is suspended when three come. -/
theorem reads_bounded_three :
    let ops := twoPeers ++ [.start "b" "read" 9, .onBinding "a" (.write [1, 2, 3])]
    (((new {}).run ops).step (.poll "read")).2 = .ready (.ok [1, 2, 3]) ∧
      ∃ before op after aim, ops = before ++ op :: after ∧ op.aim? = some aim ∧
        aim.Finishes none (.ok [1, 2, 3]) := by
  intro ops
  have hready : (((new {}).run ops).step (.poll "read")).2 = .ready (.ok [1, 2, 3]) := rfl
  obtain ⟨-, hpolled⟩ := reads_bounded {} ops
  obtain ⟨before, op, after, aim, hops, haim, -, hfinishes, -⟩ := hpolled "read" _ hready
  exact ⟨hready, before, op, after, aim, hops, haim, hfinishes⟩

end Session
end TopicBus
