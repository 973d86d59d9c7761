import TopicBus.Proofs.ReadForms
import TopicBus.Proofs.Release
/-!
# Reading an inbox to its end

Once the bus is shut down nothing comes into an inbox any more.  A read of an open binding that has the read side to
itself does not wait then: it is given bytes as long as there are any, and is told that the binding is closed when there
are none, upon which the read side is given up though the binding stays open (`Binding.Drains`).  This is what every form
of read comes to that finds the line empty (`Binding.RunsDry`), and what a suspended read comes to as soon as it is
polled with the read side in hand (`Binding.Finishes`).

An exact read makes such reads one after another (`Binding.DrainsAll`).  Only when others stand in the line behind it
does it let them in between.
-/
namespace TopicBus

theorem clampRead_le (limit : Option Nat) (wanted : Nat) : clampRead limit wanted ≤ wanted := by
  unfold clampRead
  split <;> omega

namespace Binding

variable {limit : Option Nat} {b b' b₁ : Binding} {name : ReadName} {wanted n m : Nat} {result : Except Fault Bytes}

/-- What a read of up to `m` bytes comes to when no more chunks will come. -/
structure Drains (m : Nat) (b : Binding) (result : Except Fault Bytes) (b' : Binding) : Prop where
  bytes : b.stream ≠ [] → result = .ok (b.stream.take m) ∧ b.stream.take m ≠ [] ∧ b'.stream = b.stream.drop m
  dry : b.stream = [] → result = .error .closed ∧ b'.readSide = none ∧ b'.readCapacity = 0
  isOpen : b'.isOpen = true

/-- What a read of exactly `n` bytes comes to when no more chunks will come. -/
structure DrainsAll (n : Nat) (b : Binding) (result : Except Fault Bytes) (b' : Binding) : Prop where
  enough : n ≤ b.stream.length → result = .ok (b.stream.take n) ∧ b'.stream = b.stream.drop n
  short : b.stream.length < n → result = .error .closed ∧ b'.readSide = none ∧ b'.readCapacity = 0
  isOpen : b'.isOpen = true

theorem stream_of_some {s : ReadSide} (h : b.readSide = some s) : b.stream = s.stream := by
  rw [stream, h]

theorem stream_of_none (h : b.readSide = none) : b.stream = [] := by
  rw [stream, h]

/-- Nothing of it depends on the line. -/
theorem Drains.line (h : Drains m b result b') (line : List ReadName) : Drains m b result { b' with line } :=
  ⟨h.bytes, h.dry, h.isOpen⟩

/-- **A read that has the read side** of an open binding finds bytes or the end. -/
theorem Fetched.drains (hs : b.Sound limit true) (ho : b.isOpen = true) (hw : 0 < wanted) (hl : Within limit wanted)
    {out : Binding × Except Halt Bytes} (h : Fetched limit wanted b out) :
    ∃ result, out.2 = result.mapError .failed ∧ b.Drains wanted result out.1 := by
  cases h with
  | closed hc => exact absurd (ho.symm.trans hc) nofun
  | released _ hn =>
    refine ⟨.error .closed, rfl, fun hne => absurd (stream_of_none hn) hne, fun _ => ⟨rfl, hn, ?_⟩, ho⟩
    have hcap := hs.capacity
    rwa [hn] at hcap
  | refused _ hn => exact absurd hl hn
  | @served s taken _ hr hne ht =>
    have hstream := stream_of_some hr
    have htake : s.stream.take wanted ≠ [] := fun he => by
      rcases List.take_eq_nil_iff.1 he with hz | hz
      · exact Nat.ne_of_gt hw hz
      · exact hne hz
    refine ⟨.ok (s.stream.take wanted), rfl, fun _ => ⟨by rw [hstream], by rwa [hstream], ?_⟩,
      fun he => absurd (hstream.symm.trans he) hne, ho⟩
    rw [hstream, ← ht.stream_served]
    rfl
  | waits _ hr _ hc _ =>
    have hcon := hs.connected _ hr
    rw [hc, ho] at hcon
    exact absurd hcon nofun
  | drained _ hr he _ =>
    refine ⟨.error .closed, rfl, fun hne => absurd ((stream_of_some hr).trans he) hne, fun _ => ⟨rfl, ?_⟩, ?_⟩
    · rw [releaseReadSide_of_sound hs]
      exact ⟨rfl, rfl⟩
    · rw [releaseReadSide_eq]
      exact ho

/-- The reader that has its answer leaves; the binding stays open. -/
theorem leave_drains (name : ReadName) (h : b.Drains m result b') :
    leaveUnlessWaiting name (b', result.mapError .failed) =
      ({ b' with line := b'.line.erase name }, result.mapError .failed) := by
  have hleave : b'.leave name = { b' with line := b'.line.erase name } := releaseIfClosed_of_isOpen h.isOpen
  rw [leaveUnlessWaiting_eq name b' (fun phase hp => by cases result <;> cases hp), hleave]

/-- One read after another. -/
theorem Drains.all {data : Bytes} (h : b.Drains m (.ok data) b₁) (hm : m ≤ n)
    (h' : b₁.DrainsAll (n - data.length) result b') : b.DrainsAll n (result.map (data ++ ·)) b' := by
  have hne : b.stream ≠ [] := fun he => nomatch (h.dry he).1
  obtain ⟨hdata, -, hrest⟩ := h.bytes hne
  obtain rfl := Except.ok.inj hdata
  have hlen : (b.stream.take m).length = min m b.stream.length := List.length_take
  have hlen' : b₁.stream.length = b.stream.length - m := by rw [hrest, List.length_drop]
  refine ⟨fun hn => ?_, fun hn => ?_, h'.isOpen⟩
  · have hmn : n - (b.stream.take m).length = n - m := by omega
    obtain ⟨rfl, hrest'⟩ := h'.enough (by omega)
    rw [hmn] at hrest'
    refine ⟨congrArg Except.ok ?_, ?_⟩
    · rw [hmn, hrest]
      exact List.take_add.symm.trans (by rw [Nat.add_sub_of_le hm])
    · rw [hrest', hrest, List.drop_drop, Nat.add_sub_of_le hm]
  · obtain ⟨rfl, hreleased⟩ := h'.short (by omega)
    exact ⟨rfl, hreleased⟩

/-- An exact read for nothing. -/
theorem drainsAll_zero (ho : b.isOpen = true) : b.DrainsAll 0 (.ok []) b :=
  ⟨fun _ => ⟨rfl, rfl⟩, fun h => absurd h (Nat.not_lt_zero _), ho⟩

theorem Drains.all_of_dry (h : b.Drains m (.error .closed) b') (hn : 0 < n) : b.DrainsAll n (.error .closed) b' := by
  have he : b.stream = [] := by
    by_contra hne
    exact nomatch (h.bytes hne).1
  refine ⟨fun hle => ?_, fun _ => h.dry he, h.isOpen⟩
  rw [he] at hle
  exact absurd hn (Nat.not_lt.2 hle)

/-! ## Reads that find the line empty -/

/-- How an exact read ended, as its user is told. -/
def Ends (o : ExactRead.Outcome Binding Halt) : Except Fault Bytes → Prop
  | .ok data => o.ending = .filled ∧ o.bytes = data
  | .error fault => o.ending = .stopped (.failed fault)

theorem Ends.result_eq {o : ExactRead.Outcome Binding Halt} (h : Ends o result) :
    o.result (.failed .endOfStream) = (o.reader, result.mapError .failed) := by
  obtain ⟨reader, parts, ending⟩ := o
  cases result with
  | ok data =>
    obtain ⟨rfl, rfl⟩ := h
    rfl
  | error fault =>
    obtain rfl := h
    rfl

theorem Ends.settleExact {o : ExactRead.Outcome Binding Halt} (h : Ends o result) (gathered : Bytes) (wanted : Nat) :
    (settleExact gathered wanted o).binding = o.reader ∧
      (Binding.settleExact gathered wanted o).progress = .ready (result.map (gathered ++ ·)) := by
  obtain ⟨reader, parts, ending⟩ := o
  cases result with
  | ok data =>
    obtain ⟨rfl, rfl⟩ := h
    exact ⟨rfl, rfl⟩
  | error fault =>
    obtain rfl := h
    exact ⟨rfl, rfl⟩

theorem Ends.cons {o : ExactRead.Outcome Binding Halt} (h : Ends o result) (part : Bytes) :
    Ends (o.cons part) (result.map (part ++ ·)) := by
  cases result with
  | ok data =>
    obtain ⟨he, rfl⟩ := h
    exact ⟨he, by simp [ExactRead.Outcome.bytes, ExactRead.Outcome.cons]⟩
  | error fault => exact h

/-- **A read that finds the line empty**, whether it may stay suspended or not. -/
theorem read_drains (hs : b.Sound limit true) (ho : b.isOpen = true) (hline : b.line = []) (hl : limit ≠ some 0)
    (hn : 0 < n) : ∃ result b', b.Drains (clampRead limit n) result b' ∧ b'.Sound limit true ∧ b'.line = [] ∧
      b.read limit n = (b', result.mapError .failed) ∧
        ∀ name, b.beginRead limit name n = (b', result.mapError .failed) := by
  have hw := clampRead_pos limit hn
  have hwithin := within_clampRead hl n
  have hf := fetched_fetch hs hw
  obtain ⟨result, hresult, hdrains⟩ := hf.drains hs ho hw hwithin
  have hline' : (b.fetch (clampRead limit n)).1.line = [] := hf.line_eq.trans hline
  have hread : b.read limit n = ((b.fetch (clampRead limit n)).1, result.mapError .failed) := by
    rw [read_eq_fetch ho hline hn, hresult, releaseIfClosed_of_isOpen hdrains.isOpen]
  refine ⟨result, (b.fetch (clampRead limit n)).1, hdrains, (hf.advance hs).sound, hline', hread, fun name => ?_⟩
  refine (beginRead_eq_read (fun phase hp => ?_) name).trans hread
  rw [hread] at hp
  cases result <;> cases hp

theorem Drains.eq_closed {fault : Fault} (h : b.Drains m (.error fault) b') : fault = .closed := by
  by_cases he : b.stream = []
  · exact Except.error.inj (h.dry he).1
  · exact nomatch (h.bytes he).1

theorem Drains.ne_nil {data : Bytes} (h : b.Drains m (.ok data) b') : data ≠ [] := by
  by_cases he : b.stream = []
  · exact nomatch (h.dry he).1
  · obtain ⟨hdata, hne, -⟩ := h.bytes he
    exact Except.ok.inj hdata ▸ hne

/-- **An exact read that finds the line empty**, whether it may stay suspended or not. -/
theorem readAll_drains (hs : b.Sound limit true) (ho : b.isOpen = true) (hline : b.line = []) (hl : limit ≠ some 0)
    (n : Nat) : ∃ result o, b.DrainsAll n result o.reader ∧ Ends o result ∧ b.readAll limit n = o ∧
      ∀ name, ExactRead.run (beginRead limit name) b n = o := by
  -- on the bytes still missing: a read that gives any leaves fewer, and a read that gives none ends the matter
  induction n using Nat.strongRecOn generalizing b with
  | ind n ih =>
    rcases Nat.eq_zero_or_pos n with rfl | hn
    · exact ⟨.ok [], ⟨b, [], .filled⟩, drainsAll_zero ho, ⟨rfl, rfl⟩, ExactRead.run_zero _ b,
        fun name => ExactRead.run_zero _ b⟩
    · have hn' : n ≠ 0 := Nat.pos_iff_ne_zero.1 hn
      obtain ⟨first, b₁, hdrains, hs₁, hline₁, hread, hbegin⟩ := read_drains hs ho hline hl hn
      have hrun : b.readAll limit n = ExactRead.resume (fun b n => b.read limit n) n (b₁, first.mapError .failed) :=
        (ExactRead.run_of_pos _ b hn').trans (congrArg _ hread)
      have hrun' : ∀ name, ExactRead.run (beginRead limit name) b n =
          ExactRead.resume (beginRead limit name) n (b₁, first.mapError .failed) := fun name =>
        (ExactRead.run_of_pos _ b hn').trans (congrArg _ (hbegin name))
      cases first with
      | error fault =>
        obtain rfl := hdrains.eq_closed
        exact ⟨.error .closed, ⟨b₁, [], .stopped (.failed .closed)⟩, hdrains.all_of_dry hn, rfl, hrun, hrun'⟩
      | ok data =>
        obtain ⟨x, xs, rfl⟩ := List.exists_cons_of_ne_nil hdrains.ne_nil
        obtain ⟨result, o, hall, hends, hread₁, hbegin₁⟩ :=
          ih (n - (xs.length + 1)) (by omega) hs₁ hdrains.isOpen hline₁
        refine ⟨result.map ((x :: xs) ++ ·), o.cons (x :: xs), hdrains.all (clampRead_le limit n) hall, hends.cons _, ?_,
          fun name => ?_⟩
        · exact hrun.trans (congrArg (ExactRead.Outcome.cons (x :: xs)) hread₁)
        · exact (hrun' name).trans (congrArg (ExactRead.Outcome.cons (x :: xs)) (hbegin₁ name))

/-- **A read that finished at once**, as a poll tells it. -/
theorem settleUpTo_result (wanted : Nat) (b' : Binding) (result : Except Fault Bytes) :
    (settleUpTo wanted (b', result.mapError .failed)).binding = b' ∧
      (settleUpTo wanted (b', result.mapError .failed)).progress = .ready result := by
  cases result <;> exact ⟨rfl, rfl⟩

/-- No more chunks will come: every form of read that finds the line empty finishes at once. -/
structure RunsDry (limit : Option Nat) (b : Binding) : Prop where
  upTo : ∀ n, 0 < n → ∃ result b', b.Drains (clampRead limit n) result b' ∧
    b.read limit n = (b', result.mapError .failed) ∧ b.tryRead limit n = (b', result.map some) ∧
    ∀ name, (b.startUpTo limit name n).binding = b' ∧ (b.startUpTo limit name n).progress = .ready result
  exactly : ∀ n, ∃ result b', b.DrainsAll n result b' ∧
    (b.readAll limit n).result (.failed .endOfStream) = (b', result.mapError .failed) ∧
    ∀ name, (b.startExact limit name n).binding = b' ∧ (b.startExact limit name n).progress = .ready result

/-- **An open binding of a bus that is shut down runs dry.** -/
theorem runsDry (hs : b.Sound limit true) (ho : b.isOpen = true) (hline : b.line = []) (hl : limit ≠ some 0) :
    b.RunsDry limit where
  upTo n hn := by
    obtain ⟨result, b', hdrains, -, -, hread, hbegin⟩ := read_drains hs ho hline hl hn
    refine ⟨result, b', hdrains, hread, ?_, fun name => ?_⟩
    · rw [tryRead, hread]
      cases result <;> rfl
    · rw [startUpTo, hbegin]
      exact settleUpTo_result n b' result
  exactly n := by
    obtain ⟨result, o, hdrains, hends, hread, hbegin⟩ := readAll_drains hs ho hline hl n
    refine ⟨result, o.reader, hdrains, hread ▸ hends.result_eq, fun name => ?_⟩
    obtain ⟨hbinding, hprogress⟩ := hends.settleExact [] n
    rw [startExact, hbegin]
    refine ⟨hbinding, hprogress.trans ?_⟩
    cases result <;> rfl

/-! ## Later polls of a read that holds the read side -/

/-- How an exact read stands when its turn at the read side came to `result` and left `b`, with others in the line. -/
def takenTurn (b : Binding) (name : ReadName) (gathered : Bytes) (wanted : Nat) : Except Fault Bytes → Polled
  | .error fault => ⟨b, [], .ready (.error fault)⟩
  | .ok data =>
    if wanted ≤ data.length then ⟨b, [data], .ready (.ok (gathered ++ data))⟩
    else ⟨{ b with line := b.line ++ [name] }, [data],
      .pending ⟨.exactly (gathered ++ data), wanted - data.length, .inLine⟩⟩

/-- No more chunks will come: the suspended read `name` that holds the read side finishes when it is polled, but that an
exact read lets in those that stand behind it. -/
structure Finishes (limit : Option Nat) (name : ReadName) (read : SuspendedRead) (b : Binding) : Prop where
  upTo : read.goal = .upTo → ∃ result, (b.poll limit name read).progress = .ready result ∧
    b.Drains (clampRead limit read.wanted) result (b.poll limit name read).binding
  alone : ∀ gathered, read.goal = .exactly gathered → b.line = [name] → ∃ result,
    (b.poll limit name read).progress = .ready (result.map (gathered ++ ·)) ∧
      b.DrainsAll read.wanted result (b.poll limit name read).binding
  among : ∀ gathered queue, read.goal = .exactly gathered → b.line = name :: queue → queue ≠ [] → ∃ result b₁,
    b.Drains (clampRead limit read.wanted) result b₁ ∧ b₁.line = queue ∧
      b.poll limit name read = b₁.takenTurn name gathered read.wanted result

section

variable {read : SuspendedRead}

/-- **A later poll** of a read that holds the read side, up to the point where the reader has left. -/
theorem resumeRead_drains {phase : Phase} (hs : b.Sound limit true) (ho : b.isOpen = true) (hl : limit ≠ some 0)
    (hw : 0 < wanted) (hhead : b.line.head? = some name)
    (hready : phase = .atInbox → b.Ready limit (clampRead limit wanted)) :
    ∃ result b', b.Drains (clampRead limit wanted) result b' ∧ b'.Sound limit true ∧
      b'.line = b.line.erase name ∧ b.resumeRead limit name phase wanted = (b', result.mapError .failed) := by
  have hw' := clampRead_pos limit hw
  obtain ⟨out, hf, hresume⟩ := resumeRead_of_head hs hw hhead hready
  obtain ⟨result, hresult, hdrains⟩ := hf.drains hs ho hw' (within_clampRead hl wanted)
  refine ⟨result, { out.1 with line := out.1.line.erase name }, hdrains.line _, sound_line (hf.advance hs).sound _,
    congrArg (List.erase · name) hf.line_eq, ?_⟩
  rw [hresume, ← leave_drains name hdrains, ← hresult]

variable (hs : b.Sound limit true) (ho : b.isOpen = true) (hl : limit ≠ some 0) (hw : 0 < read.wanted)
  (hready : read.phase = .atInbox → b.Ready limit (clampRead limit read.wanted))

include hs ho hl hw hready

/-- **A read of up to some bytes** finishes as soon as it is polled with the read side in hand. -/
theorem poll_drains (hhead : b.line.head? = some name) (hgoal : read.goal = .upTo) :
    ∃ result, (b.poll limit name read).progress = .ready result ∧
      b.Drains (clampRead limit read.wanted) result (b.poll limit name read).binding := by
  obtain ⟨result, b', hdrains, -, -, hresume⟩ := resumeRead_drains hs ho hl hw hhead hready
  obtain ⟨hbinding, hprogress⟩ := settleUpTo_result read.wanted b' result
  simp only [poll, hgoal, hresume]
  refine ⟨result, hprogress, ?_⟩
  rw [hbinding]
  exact hdrains

/-- **An exact read that is alone in the line** finishes likewise. -/
theorem poll_exact_alone (hline : b.line = [name]) {gathered : Bytes} (hgoal : read.goal = .exactly gathered) :
    ∃ result, (b.poll limit name read).progress = .ready (result.map (gathered ++ ·)) ∧
      b.DrainsAll read.wanted result (b.poll limit name read).binding := by
  have hhead : b.line.head? = some name := by rw [hline, List.head?_cons]
  obtain ⟨first, b₁, hdrains, hs₁, hline₁, hresume⟩ := resumeRead_drains hs ho hl hw hhead hready
  rw [hline, List.erase_cons_head] at hline₁
  simp only [poll, hgoal, hresume]
  cases first with
  | error fault =>
    obtain rfl := hdrains.eq_closed
    exact ⟨.error .closed, rfl, hdrains.all_of_dry hw⟩
  | ok data =>
    obtain ⟨x, xs, rfl⟩ := List.exists_cons_of_ne_nil hdrains.ne_nil
    obtain ⟨result, o, hall, hends, -, hbegin⟩ :=
      readAll_drains hs₁ hdrains.isOpen hline₁ hl (read.wanted - (xs.length + 1))
    obtain ⟨hbinding, hprogress⟩ := (hends.cons (x :: xs)).settleExact gathered read.wanted
    refine ⟨result.map ((x :: xs) ++ ·), ?_, ?_⟩
    · rw [← hprogress]
      simp only [Except.mapError, ExactRead.resume, hbegin]
    · have hall' := hdrains.all (clampRead_le limit read.wanted) hall
      simp only [Except.mapError, ExactRead.resume, hbegin, hbinding]
      exact hall'

/-- **An exact read with others behind it** takes what it can at once, and if that is not all goes to the end of the
line. -/
theorem poll_exact_among_others {queue : List ReadName} (hline : b.line = name :: queue) (hq : queue ≠ [])
    {gathered : Bytes} (hgoal : read.goal = .exactly gathered) :
    ∃ result b₁, b.Drains (clampRead limit read.wanted) result b₁ ∧ b₁.line = queue ∧
      b.poll limit name read = b₁.takenTurn name gathered read.wanted result := by
  have hhead : b.line.head? = some name := by rw [hline, List.head?_cons]
  obtain ⟨result, b₁, hdrains, -, hline₁, hresume⟩ := resumeRead_drains hs ho hl hw hhead hready
  rw [hline, List.erase_cons_head] at hline₁
  refine ⟨result, b₁, hdrains, hline₁, ?_⟩
  simp only [poll, hgoal, hresume]
  cases result with
  | error fault => rfl
  | ok data =>
    obtain ⟨x, xs, rfl⟩ := List.exists_cons_of_ne_nil hdrains.ne_nil
    simp only [takenTurn, Except.mapError, ExactRead.resume, List.length_cons, hline₁]
    by_cases hle : read.wanted ≤ xs.length + 1
    · rw [if_pos hle, Nat.sub_eq_zero_of_le hle, ExactRead.run_zero]
      simp [settleExact, ExactRead.Outcome.cons, ExactRead.Outcome.bytes]
    · -- the read that follows finds the line taken, and goes to its end
      have hrest : read.wanted - (xs.length + 1) ≠ 0 := by omega
      have hq' : queue.isEmpty = false := List.isEmpty_eq_false_iff.2 hq
      have hbegin : b₁.beginRead limit name (read.wanted - (xs.length + 1)) =
          ({ b₁ with line := queue ++ [name] }, .error (.waits .inLine)) := by
        simp only [beginRead, hdrains.isOpen, hq', if_neg hrest, hline₁, Bool.not_true, Bool.false_eq_true, if_false]
      rw [if_neg hle, ExactRead.run_of_pos _ b₁ hrest, hbegin]
      simp [settleExact, ExactRead.resume, ExactRead.Outcome.cons, ExactRead.Outcome.bytes]

/-- **The read that holds the read side** of an open binding finishes when it is polled after shutdown. -/
theorem finishes (hhead : b.line.head? = some name) : b.Finishes limit name read where
  upTo hgoal := poll_drains hs ho hl hw hready hhead hgoal
  alone _ hgoal hline := poll_exact_alone hs ho hl hw hready hline hgoal
  among _ _ hgoal hline hq := poll_exact_among_others hs ho hl hw hready hline hq hgoal

end

end Binding
end TopicBus
