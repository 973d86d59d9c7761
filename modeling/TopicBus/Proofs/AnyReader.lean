import TopicBus.ExactRead.Script
/-!
# Exact reads of any reader

What an exact read asks of its reader, and what it makes of the answers, whatever the reader is.  `Call` is one read
that was made, and `recorded` turns a reader into one that remembers its calls; the loop cannot tell the two apart, so
the record that it leaves (`calls`) is of the very reads that it makes of the reader itself (`run_recorded`).

`Course` is how such a record comes about, call after call.  Every property is an induction over it: each call asks for
what is still missing (`Course.asks`), so the sizes fall and the calls are no more than the bytes (`Course.falls`,
`Course.few`); the ending is decided by the answers alone (`Course.filled_iff`, `Course.dry_iff`, `Course.stopped_iff`);
and of a stream that is served in pieces the front is taken and the rest left (`Course.serves`).
-/
namespace TopicBus
namespace ExactRead

/-- A read that was made: the size asked for and the answer. -/
structure Call (ε : Type) where
  asked : Nat
  answer : Except ε Bytes

/-- The bytes that the reader gave in a call. -/
def Call.data {ε : Type} (call : Call ε) : Bytes :=
  match call.answer with
  | .ok data => data
  | .error _ => []

variable {σ ε : Type}

/-- All the bytes that the reader gave, in the order of the calls. -/
def gathered (calls : List (Call ε)) : Bytes := calls.flatMap Call.data

/-- The reader with a record of the calls made to it. -/
def recorded (read : σ → Nat → σ × Except ε Bytes) (r : σ × List (Call ε)) (asked : Nat) :
    (σ × List (Call ε)) × Except ε Bytes :=
  (((read r.1 asked).1, r.2 ++ [⟨asked, (read r.1 asked).2⟩]), (read r.1 asked).2)

/-- The calls that an exact read makes. -/
def calls (read : σ → Nat → σ × Except ε Bytes) (reader : σ) (wanted : Nat) : List (Call ε) :=
  (run (recorded read) (reader, []) wanted).reader.2

/-! ## The course of an exact read -/

/-- The calls of an exact read of `wanted` bytes, and its outcome. -/
inductive Course (read : σ → Nat → σ × Except ε Bytes) : σ → Nat → List (Call ε) → Outcome σ ε → Prop
  | filled (reader : σ) : Course read reader 0 [] ⟨reader, [], .filled⟩
  | dry {reader after : σ} {wanted : Nat} : wanted ≠ 0 → read reader wanted = (after, .ok []) →
      Course read reader wanted [⟨wanted, .ok []⟩] ⟨after, [], .noProgress⟩
  | stopped {reader after : σ} {wanted : Nat} {cause : ε} : wanted ≠ 0 → read reader wanted = (after, .error cause) →
      Course read reader wanted [⟨wanted, .error cause⟩] ⟨after, [], .stopped cause⟩
  | more {reader after : σ} {wanted : Nat} {data : Bytes} {calls : List (Call ε)} {out : Outcome σ ε} : wanted ≠ 0 →
      data ≠ [] → read reader wanted = (after, .ok data) → Course read after (wanted - data.length) calls out →
      Course read reader wanted (⟨wanted, .ok data⟩ :: calls) (out.cons data)

variable {read : σ → Nat → σ × Except ε Bytes} {reader : σ} {wanted : Nat} {out : Outcome σ ε} {made : List (Call ε)}

/-- **The loop takes its course**, and its record is of that course. -/
theorem exists_course (read : σ → Nat → σ × Except ε Bytes) (reader : σ) (wanted : Nat) :
    ∃ made, Course read reader wanted made (run read reader wanted) ∧ ∀ before,
      run (recorded read) (reader, before) wanted =
        ⟨((run read reader wanted).reader, before ++ made), (run read reader wanted).parts,
          (run read reader wanted).ending⟩ := by
  induction wanted using Nat.strongRecOn generalizing reader with
  | ind wanted ih =>
    by_cases hw : wanted = 0
    · subst hw
      rw [run_zero]
      exact ⟨[], .filled reader, fun before => by rw [run_zero, List.append_nil]⟩
    · have hrecorded : ∀ before, run (recorded read) (reader, before) wanted = resume (recorded read) wanted
          (((read reader wanted).1, before ++ [⟨wanted, (read reader wanted).2⟩]), (read reader wanted).2) :=
        fun before => run_of_pos (recorded read) (reader, before) hw
      rw [run_of_pos read reader hw]
      rcases hr : read reader wanted with ⟨after, cause | _ | ⟨x, xs⟩⟩
      · rw [hr] at hrecorded
        exact ⟨_, .stopped hw hr, hrecorded⟩
      · rw [hr] at hrecorded
        exact ⟨_, .dry hw hr, hrecorded⟩
      · rw [hr] at hrecorded
        obtain ⟨made, hcourse, hmade⟩ := ih (wanted - (xs.length + 1)) (by omega) after
        refine ⟨⟨wanted, .ok (x :: xs)⟩ :: made, .more hw nofun hr hcourse, fun before => ?_⟩
        rw [hrecorded before]
        simp only [resume, hmade, Outcome.cons, List.append_assoc, List.singleton_append]

theorem course_run (read : σ → Nat → σ × Except ε Bytes) (reader : σ) (wanted : Nat) :
    Course read reader wanted (calls read reader wanted) (run read reader wanted) := by
  obtain ⟨made, hcourse, hmade⟩ := exists_course read reader wanted
  rw [calls, hmade []]
  exact hcourse

/-- **Recording changes nothing** but that there is a record. -/
theorem run_recorded (read : σ → Nat → σ × Except ε Bytes) (reader : σ) (wanted : Nat) :
    run (recorded read) (reader, []) wanted = ⟨((run read reader wanted).reader, calls read reader wanted),
      (run read reader wanted).parts, (run read reader wanted).ending⟩ := by
  obtain ⟨made, -, hmade⟩ := exists_course read reader wanted
  rw [calls, hmade []]

/-! ## What is asked -/

theorem gathered_cons (call : Call ε) (rest : List (Call ε)) : gathered (call :: rest) = call.data ++ gathered rest :=
  List.flatMap_cons

/-- **Each call asks for what is still missing**, which is something, and was made after calls that gave something. -/
theorem Course.asks (h : Course read reader wanted made out) :
    ∀ before call after, made = before ++ call :: after → call.asked = wanted - (gathered before).length ∧
      (gathered before).length < wanted ∧ ∀ earlier ∈ before, ∃ data, earlier.answer = .ok data ∧ data ≠ [] := by
  -- the first call of any course
  have hfirst : ∀ {wanted : Nat}, wanted ≠ 0 → wanted = wanted - (gathered ([] : List (Call ε))).length ∧
      (gathered ([] : List (Call ε))).length < wanted ∧
      ∀ earlier ∈ ([] : List (Call ε)), ∃ data, earlier.answer = .ok data ∧ data ≠ [] :=
    fun hw => ⟨rfl, Nat.pos_of_ne_zero hw, nofun⟩
  induction h with
  | filled => exact fun before call after he => absurd he (by simp)
  | dry hw _ | stopped hw _ =>
    rintro (_ | ⟨earlier, before⟩) call after he
    · obtain ⟨rfl, -⟩ := List.cons.inj he
      exact hfirst hw
    · exact absurd he (by simp)
  | @more reader next wanted data made out hw hne hr hcourse ih =>
    rintro (_ | ⟨earlier, before⟩) call after he
    · obtain ⟨rfl, -⟩ := List.cons.inj he
      exact hfirst hw
    · obtain ⟨rfl, hrest⟩ := List.cons.inj he
      obtain ⟨hasked, hlt, hgave⟩ := ih before call after hrest
      have hlength : (gathered (⟨wanted, .ok data⟩ :: before)).length = data.length + (gathered before).length := by
        rw [gathered_cons, List.length_append]
        rfl
      refine ⟨by omega, by omega, fun c hc => ?_⟩
      rcases List.mem_cons.1 hc with rfl | hc
      · exact ⟨data, rfl, hne⟩
      · exact hgave c hc

/-- **The sizes asked for fall** from one call to the next. -/
theorem Course.falls (h : Course read reader wanted made out) :
    (made.map Call.asked).Pairwise (· > ·) ∧ ∀ call ∈ made, call.asked ≤ wanted := by
  induction h with
  | filled => exact ⟨.nil, nofun⟩
  | dry | stopped => exact ⟨List.pairwise_singleton _ _, fun call hc => List.mem_singleton.1 hc ▸ Nat.le_refl _⟩
  | @more reader next wanted data made out hw hne hr hcourse ih =>
    obtain ⟨hfalls, hle⟩ := ih
    have hpos : 0 < data.length := List.length_pos_iff.2 hne
    constructor
    · refine List.pairwise_cons.2 ⟨fun asked hasked => ?_, hfalls⟩
      obtain ⟨call, hc, rfl⟩ := List.mem_map.1 hasked
      have := hle call hc
      change call.asked < wanted
      omega
    · intro call hc
      rcases List.mem_cons.1 hc with rfl | hc
      · exact Nat.le_refl _
      · exact Nat.le_trans (hle call hc) (Nat.sub_le _ _)

/-- **There are no more calls than bytes.** -/
theorem Course.few (h : Course read reader wanted made out) : made.length ≤ wanted := by
  induction h with
  | filled => exact Nat.le_refl 0
  | dry hw | stopped hw => exact Nat.pos_of_ne_zero hw
  | more hw hne _ _ ih =>
    have := List.length_pos_iff.2 hne
    rw [List.length_cons]
    omega

/-! ## How it ends -/

/-- What the reader gave is what the read has. -/
theorem Course.bytes (h : Course read reader wanted made out) : out.bytes = gathered made := by
  induction h with
  | filled | dry | stopped => rfl
  | more _ _ _ _ ih =>
    rw [gathered_cons, ← ih]
    rfl

/-- **It ends well** exactly if the answers come to all the bytes that were wanted. -/
theorem Course.filled_iff (h : Course read reader wanted made out) :
    out.ending = .filled ↔ wanted ≤ (gathered made).length := by
  induction h with
  | filled => exact ⟨fun _ => Nat.le_refl 0, fun _ => rfl⟩
  | dry hw | stopped hw => exact ⟨nofun, fun hle => absurd (Nat.le_zero.1 hle) hw⟩
  | more _ _ _ _ ih =>
    rw [gathered_cons, List.length_append]
    exact ih.trans Nat.sub_le_iff_le_add'

/-- **It comes to nothing** exactly if a call gave nothing. -/
theorem Course.dry_iff (h : Course read reader wanted made out) :
    out.ending = .noProgress ↔ ∃ call ∈ made, call.answer = .ok [] := by
  induction h with
  | filled => exact ⟨nofun, fun ⟨_, hc, _⟩ => nomatch hc⟩
  | dry => exact ⟨fun _ => ⟨_, List.mem_singleton_self _, rfl⟩, fun _ => rfl⟩
  | stopped =>
    refine ⟨nofun, fun ⟨call, hc, ha⟩ => ?_⟩
    obtain rfl := List.mem_singleton.1 hc
    cases ha
  | more _ hne _ _ ih =>
    refine ih.trans ⟨fun ⟨call, hc, ha⟩ => ⟨call, List.mem_cons_of_mem _ hc, ha⟩, fun ⟨call, hc, ha⟩ => ?_⟩
    rcases List.mem_cons.1 hc with rfl | hc
    · exact absurd (Except.ok.inj ha) hne
    · exact ⟨call, hc, ha⟩

/-- **It is stopped** exactly by a call that fails. -/
theorem Course.stopped_iff (h : Course read reader wanted made out) (cause : ε) :
    out.ending = .stopped cause ↔ ∃ call ∈ made, call.answer = .error cause := by
  induction h with
  | filled => exact ⟨nofun, fun ⟨_, hc, _⟩ => nomatch hc⟩
  | dry =>
    refine ⟨nofun, fun ⟨call, hc, ha⟩ => ?_⟩
    obtain rfl := List.mem_singleton.1 hc
    cases ha
  | stopped =>
    refine ⟨fun he => ⟨_, List.mem_singleton_self _, congrArg _ (Ending.stopped.inj he)⟩, fun ⟨call, hc, ha⟩ => ?_⟩
    obtain rfl := List.mem_singleton.1 hc
    exact congrArg _ (Except.error.inj ha)
  | more _ _ _ _ ih =>
    refine ih.trans ⟨fun ⟨call, hc, ha⟩ => ⟨call, List.mem_cons_of_mem _ hc, ha⟩, fun ⟨call, hc, ha⟩ => ?_⟩
    rcases List.mem_cons.1 hc with rfl | hc
    · cases ha
    · exact ⟨call, hc, ha⟩

/-- Answers that are no longer than asked come to no more than was wanted. -/
theorem Course.length_le (h : Course read reader wanted made out)
    (hfit : ∀ call ∈ made, call.data.length ≤ call.asked) : (gathered made).length ≤ wanted := by
  induction h with
  | filled | dry | stopped => exact Nat.zero_le _
  | @more reader next wanted data made out hw hne hr hcourse ih =>
    have hlength := ih (fun call hc => hfit call (List.mem_cons_of_mem _ hc))
    have hdata : data.length ≤ wanted := hfit _ List.mem_cons_self
    rw [gathered_cons, List.length_append]
    change data.length + (gathered made).length ≤ wanted
    omega

/-! ## Readers of a stream -/

/-- The reader serves a stream in pieces, of which `rest` is what is still to be served; `Inv` holds of it all along. -/
structure Serves (read : σ → Nat → σ × Except ε Bytes) (Inv : σ → Prop) (rest : σ → Bytes) : Prop where
  fits : ∀ {reader after : σ} {asked : Nat} {data : Bytes}, Inv reader → read reader asked = (after, .ok data) →
    data.length ≤ asked
  keeps : ∀ {reader after : σ} {asked : Nat} {data : Bytes}, Inv reader → read reader asked = (after, .ok data) →
    Inv after
  piece : ∀ {reader after : σ} {asked : Nat} {data : Bytes}, Inv reader → read reader asked = (after, .ok data) →
    rest reader = data ++ rest after

/-- The reader gives something as long as there is something to serve. -/
def Flows (read : σ → Nat → σ × Except ε Bytes) (Inv : σ → Prop) (rest : σ → Bytes) : Prop :=
  ∀ reader asked, Inv reader → asked ≠ 0 → rest reader ≠ [] →
    ∃ after data, read reader asked = (after, .ok data) ∧ data ≠ []

variable {Inv : σ → Prop} {rest : σ → Bytes}

/-- **An exact read of a stream** takes its front and leaves the rest. -/
theorem Course.serves (h : Course read reader wanted made out) (hs : Serves read Inv rest) (hi : Inv reader)
    (hf : out.ending = .filled) :
    out.bytes = (rest reader).take wanted ∧ rest out.reader = (rest reader).drop wanted := by
  induction h with
  | filled => exact ⟨rfl, rfl⟩
  | dry | stopped => cases hf
  | @more reader next wanted data made out hw hne hr hcourse ih =>
    obtain ⟨hbytes, hrest⟩ := ih (hs.keeps hi hr) hf
    have hle := hs.fits hi hr
    rw [hs.piece hi hr, List.take_append, List.drop_append, List.take_of_length_le hle, List.drop_of_length_le hle,
      List.nil_append, ← hbytes, ← hrest]
    exact ⟨rfl, rfl⟩

/-- **An exact read of a stream that flows** ends well if there is enough of it. -/
theorem Course.filled_of_flows (h : Course read reader wanted made out) (hs : Serves read Inv rest)
    (hflows : Flows read Inv rest) (hi : Inv reader) (hle : wanted ≤ (rest reader).length) : out.ending = .filled := by
  have hgives : ∀ {reader : σ} {wanted : Nat}, Inv reader → wanted ≠ 0 → wanted ≤ (rest reader).length →
      ∃ after data, read reader wanted = (after, .ok data) ∧ data ≠ [] :=
    fun hi hw hle => hflows _ _ hi hw (List.ne_nil_of_length_pos (Nat.lt_of_lt_of_le (Nat.pos_of_ne_zero hw) hle))
  induction h with
  | filled => rfl
  | dry hw hr =>
    obtain ⟨after, data, hr', hne⟩ := hgives hi hw hle
    rw [hr] at hr'
    cases hr'
    exact absurd rfl hne
  | stopped hw hr =>
    obtain ⟨after, data, hr', -⟩ := hgives hi hw hle
    rw [hr] at hr'
    cases hr'
  | more hw hne hr _ ih =>
    refine ih (hs.keeps hi hr) ?_
    rw [hs.piece hi hr, List.length_append] at hle
    omega

/-- **Exact reads of any reader.**  An exact read makes the same calls of a reader whether they are recorded or not.
Each call asks for what the earlier ones have left to be gathered, at least one byte, so the sizes asked for fall and
there are no more calls than bytes, none if no bytes are wanted; and it is made only while bytes are missing and every
earlier call has given some.  The read is answered with all that was given as soon as that is enough; that the stream
has ended exactly if a call gave nothing; and with the fault of a call exactly if it failed.  If no call gave more than
it was asked for, success means exactly the bytes wanted; and if the reader serves a stream in pieces, those are the
front of the stream and the rest of it is left, and a stream that flows and has enough bytes is read with success. -/
theorem any_reader (read : σ → Nat → σ × Except ε Bytes) (reader : σ) (wanted : Nat) (atEnd : ε) :
    let out := run read reader wanted
    let made := calls read reader wanted
    run (recorded read) (reader, []) wanted = ⟨(out.reader, made), out.parts, out.ending⟩ ∧
    (∀ before call after, made = before ++ call :: after →
      call.asked = wanted - (gathered before).length ∧ 1 ≤ call.asked ∧ (gathered before).length < wanted ∧
      ∀ earlier ∈ before, ∃ data, earlier.answer = .ok data ∧ data ≠ []) ∧
    (made.map Call.asked).Pairwise (· > ·) ∧ made.length ≤ wanted ∧
    ((out.ending = .filled ↔ wanted ≤ (gathered made).length) ∧
      (wanted ≤ (gathered made).length → out.toExcept atEnd = .ok (gathered made))) ∧
    ((out.ending = .noProgress ↔ ∃ call ∈ made, call.answer = .ok []) ∧
      ((∃ call ∈ made, call.answer = .ok []) → out.toExcept atEnd = .error atEnd)) ∧
    (∀ cause, (out.ending = .stopped cause ↔ ∃ call ∈ made, call.answer = .error cause) ∧
      ((∃ call ∈ made, call.answer = .error cause) → out.toExcept atEnd = .error cause)) ∧
    ((∀ call ∈ made, call.data.length ≤ call.asked) → ∀ data, out.toExcept atEnd = .ok data → data.length = wanted) ∧
    ∀ Inv rest, Serves read Inv rest → Inv reader →
      (∀ data, out.toExcept atEnd = .ok data →
        data = (rest reader).take wanted ∧ data.length = wanted ∧ rest out.reader = (rest reader).drop wanted) ∧
      (Flows read Inv rest → wanted ≤ (rest reader).length → ∃ data, out.toExcept atEnd = .ok data) := by
  intro out made
  have hcourse : Course read reader wanted made out := course_run read reader wanted
  have hok : out.ending = .filled → out.toExcept atEnd = .ok (gathered made) := fun he => by
    rw [Outcome.toExcept, he, hcourse.bytes]
  have hfilled : ∀ data, out.toExcept atEnd = .ok data → out.ending = .filled ∧ data = gathered made := by
    intro data hdata
    cases he : out.ending with
    | filled => exact ⟨rfl, (Except.ok.inj ((hok he).symm.trans hdata)).symm⟩
    | noProgress | stopped => simp only [Outcome.toExcept, he, reduceCtorEq] at hdata
  refine ⟨run_recorded read reader wanted, fun before call after he => ?_, hcourse.falls.1, hcourse.few,
    ⟨hcourse.filled_iff, fun hle => hok (hcourse.filled_iff.2 hle)⟩,
    ⟨hcourse.dry_iff, fun hdry => by rw [Outcome.toExcept, hcourse.dry_iff.2 hdry]⟩,
    fun cause => ⟨hcourse.stopped_iff cause, fun hstopped => by
      rw [Outcome.toExcept, (hcourse.stopped_iff cause).2 hstopped]⟩,
    fun hfit data hdata => ?_, fun Inv rest hs hi => ⟨fun data hdata => ?_, fun hflows hle => ?_⟩⟩
  · obtain ⟨hasked, hlt, hgave⟩ := hcourse.asks before call after he
    exact ⟨hasked, by omega, hlt, hgave⟩
  · obtain ⟨he, rfl⟩ := hfilled data hdata
    exact Nat.le_antisymm (hcourse.length_le hfit) (hcourse.filled_iff.1 he)
  · obtain ⟨he, rfl⟩ := hfilled data hdata
    obtain ⟨hbytes, hrest⟩ := hcourse.serves hs hi he
    rw [hcourse.bytes] at hbytes
    refine ⟨hbytes, Nat.le_antisymm ?_ (hcourse.filled_iff.1 he), hrest⟩
    rw [hbytes]
    exact List.length_take_le ..
  · exact ⟨_, hok (hcourse.filled_of_flows hs hflows hi hle)⟩

end ExactRead

/-! ## Scripts -/

namespace Script

open ExactRead

/-- The bytes that a script has still to serve. -/
def rest (s : Script) : Bytes := s.items.flatMap (fun | .ok data => data | .error _ => [])

/-- **A patient script serves a stream in pieces.** -/
theorem serves_rest : Serves read (fun s => s.greedy = false) rest := by
  -- the three ways in which a patient script serves bytes
  have hserve : ∀ {s t : Script} {asked : Nat} {data : Bytes}, s.greedy = false → s.read asked = (t, .ok data) →
      data.length ≤ asked ∧ t.greedy = false ∧ s.rest = data ++ t.rest := by
    rintro ⟨greedy, items, log⟩ t asked data rfl h
    rcases items with _ | ⟨fault | chunk, items⟩
    · cases h
      exact ⟨Nat.zero_le _, rfl, rfl⟩
    · cases h
    · simp only [read, serve, Bool.false_or, decide_eq_true_eq] at h
      split at h
      · rename_i hle
        cases h
        exact ⟨hle, rfl, rfl⟩
      · cases h
        refine ⟨List.length_take_le .., rfl, ?_⟩
        simp only [rest, List.flatMap_cons, ← List.append_assoc, List.take_append_drop]
  exact ⟨fun hi h => (hserve hi h).1, fun hi h => (hserve hi h).2.1, fun hi h => (hserve hi h).2.2⟩

end Script

namespace ExactRead

/-- Five bytes of a script whose second item is longer than what is missing then. -/
theorem any_reader_script :
    let script : Script := ⟨false, [.ok [1, 2], .ok [3, 4, 5, 6]], []⟩
    let out := run Script.read script 5
    (calls Script.read script 5).map Call.asked = [5, 3] ∧ out.toExcept .endOfStream = .ok [1, 2, 3, 4, 5] ∧
      ([1, 2, 3, 4, 5] : Bytes) = script.rest.take 5 ∧ out.reader.rest = script.rest.drop 5 := by
  have hok : (run Script.read ⟨false, [.ok [1, 2], .ok [3, 4, 5, 6]], []⟩ 5).toExcept .endOfStream =
      .ok [1, 2, 3, 4, 5] := by cbv
  intro script out
  obtain ⟨-, -, -, -, -, -, -, -, hstream⟩ := any_reader Script.read script 5 Fault.endOfStream
  obtain ⟨hfront, -, hrest⟩ := (hstream _ _ Script.serves_rest rfl).1 _ hok
  exact ⟨by decide +kernel, hok, hfront, hrest⟩

end ExactRead
end TopicBus
