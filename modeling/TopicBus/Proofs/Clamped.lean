import TopicBus.Proofs.Sizes
/-!
# Reads fit under the limit

A read asks its buffer for no more than the limit allows, unless the limit is nothing at all (`within_clampRead`), and
gathers only after the buffer was emptied.  So under a limit of at least one byte the buffer refuses no read: what a
read gathers out of the read side it always gets in full (`exists_gather_of_gathersAt`), and a read that fails, of
whatever form, fails because the binding is closed (`Session.failsClosed_step`).
-/
namespace TopicBus

namespace Binding

variable {limit : Option Nat} {down : Bool} {b b' : Binding} {parts : List Bytes} {wanted n : Nat} {name : ReadName}

/-! ## Gathering -/

theorem Move.sound (hs : b.Sound limit down) (h : Move limit b parts b') : b'.Sound limit down := by
  cases h with
  | line line => exact sound_line hs line
  | left => exact sound_releaseIfClosed hs
  | nothing => exact hs
  | fetched _ hf => exact (hf.advance hs).sound

theorem Moves.sound (hs : b.Sound limit down) (h : Moves limit b parts b') : b'.Sound limit down := by
  induction h with
  | refl => exact hs
  | more hm _ ih => exact ih (hm.sound hs)

/-- The read sides out of which a read of `wanted` bytes gathers that has the read side of `b`: something is pending, or
else a chunk has come for it, at once or while it waited. -/
inductive GathersAt (b : Binding) (wanted : Nat) : ReadSide → Prop
  | pending {b₁ : Binding} {side : ReadSide} : b.prepare wanted = (b₁, .ok false) → b₁.readSide = some side →
      GathersAt b wanted side
  | arrived {b₁ b₂ : Binding} {chunk : Bytes} {side : ReadSide} : b.prepare wanted = (b₁, .ok true) →
      b₁.receive = (b₂, .chunk chunk) → (b₂.hold chunk).readSide = some side → GathersAt b wanted side
  | resumed {b₁ : Binding} {chunk : Bytes} {side : ReadSide} : b.receive = (b₁, .chunk chunk) →
      (b₁.hold chunk).readSide = some side → GathersAt b wanted side

/-- Every buffer that reads of the binding are served through has the limit. -/
def Limited (limit : Option Nat) (b : Binding) : Prop := ∀ side, b.readSide = some side → side.buffer.limit = limit

theorem Sound.limited (hs : b.Sound limit down) : b.Limited limit := fun side hside => (hs.idle side hside).limit

theorem limited_prepare (h : b.Limited limit) {needs : Bool} (hp : b.prepare wanted = (b', .ok needs)) :
    b'.Limited limit := by
  unfold prepare at hp
  split at hp
  · cases hp
  split at hp
  · cases hp
  rename_i side hside
  unfold Buffer.ensure at hp
  cases hc : checkLimit side.buffer.limit wanted with
  | error cause => simp [hc] at hp
  | ok _ =>
    simp only [hc, Prod.mk.injEq] at hp
    obtain ⟨rfl, -⟩ := hp
    rintro _ ⟨⟩
    exact h side hside

theorem limited_receive (h : b.Limited limit) {arrival : Arrival} (hr : b.receive = (b', arrival)) :
    b'.Limited limit := by
  unfold receive at hr
  split at hr <;> cases hr
  · exact h
  · rename_i side hside
    rintro _ ⟨⟩
    have hlimit : side.receive.1.buffer = side.buffer := by
      unfold ReadSide.receive
      split <;> rfl
    exact hlimit ▸ h side hside

theorem limited_hold (h : b.Limited limit) (chunk : Bytes) : (b.hold chunk).Limited limit := by
  intro side hside
  obtain ⟨before, hbefore, rfl⟩ := Option.map_eq_some_iff.1 hside
  exact h before hbefore

/-- **A read gathers in full**: nothing that it moves out of the pending bytes is refused by the buffer. -/
theorem exists_gather_of_gathersAt (hs : b.Sound limit down) (hl : limit ≠ some 0) {side : ReadSide}
    (h : b.GathersAt (clampRead limit n) side) : ∃ after taken,
      side.gather (clampRead limit n) = (after, .ok taken) ∧
        after.buffer.data ++ after.stream = side.buffer.data ++ side.stream := by
  have hlimit : side.buffer.limit = limit := by
    cases h with
    | pending hp hside => exact limited_prepare hs.limited hp side hside
    | arrived hp hr hside => exact limited_hold (limited_receive (limited_prepare hs.limited hp) hr) _ side hside
    | resumed hr hside => exact limited_hold (limited_receive hs.limited hr) _ side hside
  have hwithin : Within side.buffer.limit (clampRead limit n) := hlimit.symm ▸ within_clampRead hl n
  obtain ⟨after, taken, hg, hgathered⟩ := ReadSide.exists_gather hwithin
  exact ⟨after, taken, hg, hgathered.bytes⟩

/-! ## Failing -/

/-- A read that comes to `result` fails, if at all, because the binding is closed. -/
def FailsClosed (result : Except Halt Bytes) : Prop := ∀ fault, result = .error (.failed fault) → fault = .closed

theorem failsClosed_closed : FailsClosed (.error (.failed .closed)) := by
  rintro _ ⟨⟩
  rfl

theorem failsClosed_leaveUnlessWaiting {out : Binding × Except Halt Bytes} (name : ReadName) (h : FailsClosed out.2) :
    FailsClosed (leaveUnlessWaiting name out).2 := by
  obtain ⟨b, (fault | phase) | data⟩ := out <;> exact h

theorem Fetched.failsClosed {out : Binding × Except Halt Bytes} (h : Fetched limit wanted b out)
    (hl : Within limit wanted) : FailsClosed out.2 := by
  cases h with
  | closed | released | drained => exact failsClosed_closed
  | refused _ hn => exact absurd hl hn
  | served | waits => exact nofun

section

variable (hs : b.Sound limit down) (hl : limit ≠ some 0)
include hs hl

theorem failsClosed_fetch (hw : 0 < wanted) : FailsClosed (b.fetch (clampRead limit wanted)).2 :=
  (fetched_fetch hs (clampRead_pos limit hw)).failsClosed (within_clampRead hl wanted)

theorem failsClosed_read (wanted : Nat) : FailsClosed (b.read limit wanted).2 := by
  change FailsClosed (b.readOnce limit wanted).2
  unfold readOnce
  split
  · exact failsClosed_closed
  split
  · exact nofun
  split
  · exact nofun
  · rename_i hw _
    exact failsClosed_fetch hs hl (Nat.pos_of_ne_zero hw)

theorem failsClosed_beginRead (name : ReadName) (wanted : Nat) : FailsClosed (b.beginRead limit name wanted).2 := by
  unfold beginRead
  split
  · exact failsClosed_closed
  split
  · exact nofun
  split
  · rename_i hw _
    exact failsClosed_leaveUnlessWaiting name
      (failsClosed_fetch (sound_line hs [name]) hl (Nat.pos_of_ne_zero hw))
  · exact nofun

theorem failsClosed_resumeRead {phase : Phase} (name : ReadName) (hw : 0 < wanted)
    (hready : phase = .atInbox → b.Ready limit (clampRead limit wanted)) :
    FailsClosed (b.resumeRead limit name phase wanted).2 := by
  cases phase with
  | inLine =>
    simp only [resumeRead]
    split
    · exact failsClosed_leaveUnlessWaiting name (failsClosed_fetch hs hl hw)
    · rintro _ ⟨⟩
  | atInbox =>
    exact failsClosed_leaveUnlessWaiting name
      ((fetched_await hs (clampRead_pos limit hw) (hready rfl)).failsClosed (within_clampRead hl wanted))

end

/-! ### Exact reads -/

/-- An exact read ended, if it failed, because the binding is closed. -/
def EndsClosed (o : ExactRead.Outcome Binding Halt) : Prop :=
  o.ending ≠ .noProgress ∧ ∀ fault, o.ending = .stopped (.failed fault) → fault = .closed

/-- **An exact read fails as its reads do.** -/
theorem endsClosed_run {read : Binding → Nat → Binding × Except Halt Bytes} (Inv : Binding → Prop)
    (hfails : ∀ t n, Inv t → n ≠ 0 → FailsClosed (read t n).2)
    (hinv : ∀ t n data t', Inv t → n ≠ 0 → read t n = (t', .ok data) → data ≠ [] ∧ Inv t') (h : Inv b)
    (wanted : Nat) : EndsClosed (ExactRead.run read b wanted) := by
  obtain ⟨-, hend⟩ := ExactRead.run_spec read Inv (fun _ _ _ => True)
    (fun _ _ cause => ∀ fault, cause = .failed fault → fault = .closed) (fun _ _ => trivial) (fun _ _ => trivial)
    (fun t n data t' ht hn hr => ⟨(hinv t n data t' ht hn hr).1, (hinv t n data t' ht hn hr).2, trivial⟩)
    (fun t n cause t' ht hn hr => ⟨trivial, fun fault hf => hfails t n ht hn fault (by rw [hr, hf])⟩) wanted b h
  refine ⟨fun he => ?_, fun fault he => ?_⟩
  · rw [he] at hend
    exact hend
  · rw [he] at hend
    exact hend fault rfl

theorem EndsClosed.toExcept {o : ExactRead.Outcome Binding Halt} (h : EndsClosed o) (atEnd : Halt) :
    FailsClosed (o.toExcept atEnd) := by
  obtain ⟨reader, parts, _ | _ | cause⟩ := o
  · exact nofun
  · exact absurd rfl h.1
  · rintro fault ⟨⟩
    exact h.2 fault rfl

theorem endsClosed_readAll (hs : b.Sound limit down) (hl : limit ≠ some 0) (wanted : Nat) :
    EndsClosed (b.readAll limit wanted) :=
  endsClosed_run (fun t => t.Sound limit down) (fun _ n ht _ => failsClosed_read ht hl n)
    (fun t n data t' ht hn hr => by
      have hadvance := (read_advance ht n).1
      rw [hr] at hadvance
      exact ⟨read_ok_ne_nil ht hn hr, hadvance.sound⟩)
    hs wanted

theorem endsClosed_begin (hs : b.Sound limit down) (hl : limit ≠ some 0) (hn : name ∉ b.line) (wanted : Nat) :
    EndsClosed (ExactRead.run (beginRead limit name) b wanted) :=
  endsClosed_run (fun t => t.Sound limit down ∧ name ∉ t.line) (fun _ n ht _ => failsClosed_beginRead ht.1 hl name n)
    (fun t n data t' ht hn' hr => by
      have hturn := turn_beginRead ht.1 (Nat.pos_of_ne_zero hn') ht.2
      rw [hr] at hturn
      have hline := hturn.left (fun _ hp => (nomatch hp))
      exact ⟨hturn.data data rfl, hturn.advance.sound, hline ▸ (List.erase_of_not_mem ht.2).symm ▸ ht.2⟩)
    ⟨hs, hn⟩ wanted

/-! ### Suspended reads -/

theorem closed_of_settleUpTo {out : Binding × Except Halt Bytes} (h : FailsClosed out.2) {fault : Fault}
    (hf : (settleUpTo wanted out).progress = .ready (.error fault)) : fault = .closed := by
  obtain ⟨b, (cause | phase) | data⟩ := out <;> cases hf
  exact h fault rfl

theorem closed_of_settleExact {gathered : Bytes} {o : ExactRead.Outcome Binding Halt} (h : EndsClosed o) {fault : Fault}
    (hf : (settleExact gathered wanted o).progress = .ready (.error fault)) : fault = .closed := by
  obtain ⟨reader, parts, _ | _ | cause | phase⟩ := o
  · cases hf
  · exact absurd rfl h.1
  · cases hf
    exact h.2 fault rfl
  · cases hf

theorem closed_of_startUpTo (hs : b.Sound limit down) (hl : limit ≠ some 0) {fault : Fault}
    (hf : (b.startUpTo limit name wanted).progress = .ready (.error fault)) : fault = .closed :=
  closed_of_settleUpTo (failsClosed_beginRead hs hl name wanted) hf

theorem closed_of_startExact (hs : b.Sound limit down) (hl : limit ≠ some 0) (hn : name ∉ b.line) {fault : Fault}
    (hf : (b.startExact limit name wanted).progress = .ready (.error fault)) : fault = .closed :=
  closed_of_settleExact (endsClosed_begin hs hl hn wanted) hf

theorem closed_of_poll {read : SuspendedRead} (hs : b.Sound limit down) (hl : limit ≠ some 0) (hnd : b.line.Nodup)
    (hmem : name ∈ b.line) (hw : 0 < read.wanted)
    (hready : read.phase = .atInbox → b.line.head? = some name ∧ b.Ready limit (clampRead limit read.wanted))
    {fault : Fault} (hf : (b.poll limit name read).progress = .ready (.error fault)) : fault = .closed := by
  have hfails := failsClosed_resumeRead hs hl name hw (fun hp => (hready hp).2)
  have hturn := turn_resumeRead hs hw hmem hready
  unfold poll at hf
  cases hgoal : read.goal with
  | upTo =>
    simp only [hgoal] at hf
    exact closed_of_settleUpTo hfails hf
  | exactly gathered =>
    simp only [hgoal] at hf
    refine closed_of_settleExact ?_ hf
    rcases hout : b.resumeRead limit name read.phase read.wanted with ⟨t, cause | _ | ⟨x, xs⟩⟩
    · refine ⟨nofun, ?_⟩
      rintro fault ⟨⟩
      exact hfails fault (by rw [hout])
    · rw [hout] at hturn
      exact absurd rfl (hturn.data [] rfl)
    · -- what is still missing is read anew, from the end of the line
      rw [hout] at hturn
      have hline : t.line = b.line.erase name := hturn.left (fun _ hp => (nomatch hp))
      exact endsClosed_begin hturn.advance.sound hl (hline ▸ hnd.not_mem_erase) _

end Binding

/-! ## Every operation that reads -/

/-- Whether an operation on a binding reads. -/
def BindingOp.isRead : BindingOp → Bool
  | .read _ | .readAll _ | .tryRead _ | .readTagged _ => true
  | _ => false

/-- Whether an operation reads, in whatever form. -/
def Op.isRead : Op → Bool
  | .onBinding _ op | .endCall op => op.isRead
  | .onTransport _ op => op.passes?.any BindingOp.isRead
  | .start _ _ _ | .startAll _ _ _ | .poll _ => true
  | _ => false

/-- The failure that an answer tells of, if it does. -/
def Answer.fault? : Answer → Option Fault
  | .failed fault | .ioFailed fault | .ready (.error fault) | .taggedRead (.failed fault) _
  | .transfer (.failed fault) | .created (.failed fault) | .destroyed (.failed fault) => some fault
  | .registryFailed cause => some (.registry cause)
  | _ => none

/-- An answer that tells of a failure, if at all, because a binding is closed. -/
def Answer.FailsClosed (answer : Answer) : Prop := ∀ fault, answer.fault? = some fault → fault = .closed

theorem Answer.failsClosed_of_none {answer : Answer} (h : answer.fault? = none) : answer.FailsClosed :=
  fun _ hf => absurd (h.symm.trans hf) (Option.some_ne_none _).symm

namespace Session

variable {s : Session} {id : BindingId} {name : ReadName} {op : Op}

theorem failsClosed_named {κ α : Type} [DecidableEq κ] {table : Table κ α} {name : κ} {f : α → Session × Answer}
    (h : ∀ a, table.get? name = some a → (f a).2.FailsClosed) : (s.named table name f).2.FailsClosed := by
  unfold named
  split
  · exact Answer.failsClosed_of_none rfl
  · exact h _ ‹_›

/-- A poll is answered with a failure if it finished with one. -/
theorem failsClosed_ofProgress {progress : Progress}
    (h : ∀ fault, progress = .ready (.error fault) → fault = .closed) : (Answer.ofProgress progress).FailsClosed := by
  obtain (fault | data) | read := progress
  · rintro _ ⟨⟩
    exact h fault rfl
  · exact Answer.failsClosed_of_none rfl
  · exact Answer.failsClosed_of_none rfl

/-- A failure of a read is told as it is, whatever form the answer has. -/
theorem failsClosed_afterRead {begin : Binding → Option Nat → ReadName → Polled}
    {answer : Except Fault Bytes → Answer} {out : Bus × Except Halt Bytes} (h : Binding.FailsClosed out.2)
    (hok : ∀ data, (answer (.ok data)).fault? = none)
    (hfailed : ∀ fault, (answer (.error fault)).fault? = some fault) :
    (s.afterRead id begin answer out).2.FailsClosed := by
  refine answer_afterRead h (fun data _ fault hf => ?_) (fun fault hq f hf => ?_) nofun
  · rw [hok] at hf
    cases hf
  · rw [hfailed] at hf
    exact Option.some.inj hf ▸ hq fault rfl

theorem fault?_taggedRead (wanted : Nat) (data : Bytes) : (taggedRead wanted (.ok data)).fault? = none := by
  simp only [taggedRead, Transfer.of]
  split <;> rfl

section

variable (h : s.desk.Good) (hl : s.bus.config.chunkLimit ≠ some 0)
include h hl

theorem failsClosed_read (id : BindingId) (wanted : Nat) : Binding.FailsClosed (s.bus.read id wanted).2 :=
  Bus.answer_onBinding Binding.failsClosed_closed (fun b hb => Binding.failsClosed_read (h.sound id b hb) hl wanted)

theorem failsClosed_readAll (id : BindingId) (wanted : Nat) : Binding.FailsClosed (s.bus.readAll id wanted).2 :=
  Bus.answer_onBinding Binding.failsClosed_closed (fun b hb =>
    (Binding.endsClosed_readAll (h.sound id b hb) hl wanted).toExcept _)

theorem failsClosed_tryRead (id : BindingId) (wanted : Nat) :
    (Answer.ofExcept .perhaps (s.bus.tryRead id wanted).2).FailsClosed := by
  cases hb : s.bus.bindings.get? id with
  | none =>
    simp only [Bus.tryRead, Bus.onBinding, hb]
    rintro _ ⟨⟩
    rfl
  | some b =>
    have hfails : Binding.FailsClosed (b.read s.bus.config.chunkLimit wanted).2 :=
      Binding.failsClosed_read (h.sound id b hb) hl wanted
    simp only [Bus.tryRead, Bus.onBinding, hb, Binding.tryRead]
    rcases hr : b.read s.bus.config.chunkLimit wanted with ⟨b', (fault | phase) | data⟩
    · rintro _ ⟨⟩
      exact hfails fault (by rw [hr])
    · exact Answer.failsClosed_of_none rfl
    · exact Answer.failsClosed_of_none rfl

theorem failsClosed_stepBinding {op : BindingOp} (hop : op.isRead = true) (id : BindingId) :
    (s.stepBinding id op).2.FailsClosed := by
  cases op with
  | read wanted => exact failsClosed_afterRead (failsClosed_read h hl id wanted) (fun _ => rfl) (fun _ => rfl)
  | readAll wanted => exact failsClosed_afterRead (failsClosed_readAll h hl id wanted) (fun _ => rfl) (fun _ => rfl)
  | tryRead wanted => exact failsClosed_tryRead h hl id wanted
  | readTagged wanted =>
    exact failsClosed_afterRead (failsClosed_read h hl id wanted) (fun data => fault?_taggedRead wanted data)
      (fun _ => rfl)
  | _ => cases hop

theorem failsClosed_stepTransport {op : TransportOp} (hop : op.passes?.any BindingOp.isRead = true) (name : String)
    (t : Transport) : (s.stepTransport name t op).2.FailsClosed := by
  have hclosed : (Answer.failed .closed).FailsClosed ∧ (Answer.ioFailed .closed).FailsClosed := by
    constructor <;> (rintro _ ⟨⟩; rfl)
  cases op with
  | read wanted => exact answer_onLive hclosed.1 (fun id => failsClosed_stepBinding h hl rfl id)
  | readAll wanted => exact answer_onLive hclosed.1 (fun id => failsClosed_stepBinding h hl rfl id)
  | ioRead size =>
    simp only [stepTransport]
    split
    · exact Answer.failsClosed_of_none rfl
    · exact answer_onLive hclosed.2 (fun id =>
        failsClosed_afterRead (failsClosed_read h hl id size) (fun _ => rfl) (fun _ => rfl))
  | ioReadExact size =>
    simp only [stepTransport]
    split
    · exact Answer.failsClosed_of_none rfl
    · exact answer_onLive hclosed.2 (fun id =>
        failsClosed_afterRead (failsClosed_readAll h hl id size) (fun _ => rfl) (fun _ => rfl))
  | _ => cases hop

omit hl in
/-- Beginning a read under a name of which a read has just been cancelled. -/
theorem failsClosed_starting {holder : String} {poll : Binding → Polled}
    (hpoll : ∀ down b, b.Sound s.bus.config.chunkLimit down → name ∉ b.line →
      ∀ fault, (poll b).progress = .ready (.error fault) → fault = .closed) :
    (s.named s.names holder (fun id => (s.cancel name).advance name id poll)).2.FailsClosed := by
  refine failsClosed_named (fun id _ => ?_)
  have hgood := good_cancel h name
  simp only [advance]
  split
  · exact Answer.failsClosed_of_none rfl
  · rename_i b hb
    have hsound : b.Sound s.bus.config.chunkLimit (s.cancel name).bus.isShutDown :=
      config_cancel s name ▸ hgood.sound id b hb
    have hn : name ∉ b.line := fun hmem => by
      obtain ⟨r, hr, -⟩ := (hgood.line id b hb name).1 hmem
      exact Option.some_ne_none r (hr.symm.trans (get?_reads_cancel s name))
    exact failsClosed_ofProgress (hpoll _ b hsound hn)

/-- **A read fails, in whatever form, only because the binding is closed.** -/
theorem failsClosed_step (hop : op.isRead = true) : (s.step op).2.FailsClosed := by
  cases op with
  | onBinding holder op => exact failsClosed_named (fun id _ => failsClosed_stepBinding h hl hop id)
  | endCall op =>
    cases hcalls : s.calls with
    | nil =>
      simp only [step, hcalls]
      exact Answer.failsClosed_of_none rfl
    | cons id earlier =>
      simp only [step, hcalls]
      exact failsClosed_stepBinding h hl hop id
  | onTransport transport op => exact failsClosed_named (fun t _ => failsClosed_stepTransport h hl hop transport t)
  | start holder name wanted =>
    exact failsClosed_starting h (fun _ _ hs _ _ => Binding.closed_of_startUpTo hs hl)
  | startAll holder name wanted =>
    exact failsClosed_starting h (fun _ _ hs hn _ => Binding.closed_of_startExact hs hl hn)
  | poll name =>
    refine failsClosed_named (fun r hr => ?_)
    obtain ⟨hw, b, hb, hready⟩ := h.reads name r hr
    have hb' : s.bus.bindings.get? r.binding = some b := hb
    simp only [advance, hb']
    exact failsClosed_ofProgress (fun fault => Binding.closed_of_poll (h.sound _ b hb) hl (h.nodup _ b hb)
      ((h.line _ b hb name).2 ⟨r, hr, rfl⟩) hw hready)
  | _ => cases hop

end

end Session
end TopicBus
