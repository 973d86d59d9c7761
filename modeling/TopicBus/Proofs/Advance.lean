import TopicBus.Proofs.Reading
/-!
# What a reader leaves behind

Reads differ in how they wait and in how much they insist on; what they do to the binding is the same.  `Advance` says
it: the terms stay, the sides are at rest again, and on an open binding the parts that were taken followed by what is
still to be read are what was to be read before.

A suspended read also has its place in the line.  A poll that ends the read takes it out of the line and a poll that
does not keeps it there; no poll touches the read side while another read holds it (`Poll`).
-/
namespace TopicBus

namespace ExactRead

variable {σ ε : Type}

/-- **What every read keeps, an exact read keeps**: `Inv` holds before each of its reads, `R` relates the reader before
and after with the parts it gave, and `Q` is what is known of a read that stops it, with the bytes then missing. -/
theorem run_spec (read : σ → Nat → σ × Except ε Bytes) (Inv : σ → Prop) (R : σ → List Bytes → σ → Prop)
    (Q : Nat → σ → ε → Prop)
    (refl : ∀ s, Inv s → R s [] s) (trans : ∀ {s t u p q}, R s p t → R t q u → R s (p ++ q) u)
    (ok : ∀ s n data t, Inv s → n ≠ 0 → read s n = (t, .ok data) → data ≠ [] ∧ Inv t ∧ R s [data] t)
    (error : ∀ s n cause t, Inv s → n ≠ 0 → read s n = (t, .error cause) → R s [] t ∧ Q n t cause)
    (n : Nat) (s : σ) (h : Inv s) :
    R s (run read s n).parts (run read s n).reader ∧
      match (run read s n).ending with
      | .filled => Inv (run read s n).reader
      | .noProgress => False
      | .stopped cause => Q (n - (run read s n).bytes.length) (run read s n).reader cause := by
  induction n using Nat.strongRecOn generalizing s with
  | ind n ih =>
    by_cases hn : n = 0
    · subst hn
      rw [run_zero]
      exact ⟨refl s h, h⟩
    · rw [run_of_pos read s hn]
      rcases hr : read s n with ⟨t, cause | data⟩
      · exact error s n cause t h hn hr
      · obtain ⟨hne, hinv, hrel⟩ := ok s n data t h hn hr
        cases data with
        | nil => exact absurd rfl hne
        | cons x xs =>
          obtain ⟨h1, h2⟩ := ih (n - (xs.length + 1)) (by omega) t hinv
          refine ⟨trans hrel h1, ?_⟩
          simp only [resume, Outcome.cons, Outcome.bytes, List.flatten_cons, List.length_append, List.length_cons,
            ← Nat.sub_sub] at h2 ⊢
          exact h2

end ExactRead

namespace Binding

/-- The parts that an answer gives. -/
def partsOf : Except Halt Bytes → List Bytes
  | .ok data => [data]
  | .error _ => []

structure Advance (limit : Option Nat) (down : Bool) (b : Binding) (parts : List Bytes) (b' : Binding) : Prop where
  terms : b'.toTerms = b.toTerms
  isOpen : b'.isOpen = b.isOpen
  sound : b'.Sound limit down
  bytes : b.isOpen = true → parts.flatten ++ b'.stream = b.stream

variable {limit : Option Nat} {down : Bool} {b b' b'' : Binding} {p q : List Bytes} {wanted : Nat}

theorem Advance.refl (hs : b.Sound limit down) : Advance limit down b [] b := ⟨rfl, rfl, hs, fun _ => rfl⟩

theorem Advance.trans (h : Advance limit down b p b') (h' : Advance limit down b' q b'') :
    Advance limit down b (p ++ q) b'' where
  terms := h'.terms.trans h.terms
  isOpen := h'.isOpen.trans h.isOpen
  sound := h'.sound
  bytes ho := by
    rw [List.flatten_append, List.append_assoc, h'.bytes (h.isOpen.trans ho), h.bytes ho]

/-- Standing in line takes nothing. -/
theorem Advance.line (h : Advance limit down b p b') (line : List ReadName) :
    Advance limit down b p { b' with line } :=
  ⟨h.terms, h.isOpen, sound_line h.sound line, h.bytes⟩

theorem Advance.of_line {line : List ReadName} (h : Advance limit down { b with line } p b') :
    Advance limit down b p b' :=
  ⟨h.terms, h.isOpen, h.sound, h.bytes⟩

theorem Advance.releaseIfClosed (h : Advance limit down b p b') : Advance limit down b p b'.releaseIfClosed where
  terms := by rw [releaseIfClosed_toTerms]; exact h.terms
  isOpen := by rw [releaseIfClosed_isOpen]; exact h.isOpen
  sound := sound_releaseIfClosed h.sound
  bytes ho := by
    rw [releaseIfClosed_of_isOpen (h.isOpen.trans ho)]
    exact h.bytes ho

/-! ## A read that has the read side -/

theorem Fetched.advance (hs : b.Sound limit down) {out : Binding × Except Halt Bytes}
    (h : Fetched limit wanted b out) : Advance limit down b (partsOf out.2) out.1 := by
  cases h with
  | closed ho =>
    refine ⟨by rw [releaseReadSide_eq], by rw [releaseReadSide_eq], sound_releaseReadSide hs (fun ho' => ?_),
      fun ho' => ?_⟩
    · rw [ho] at ho'
      cases ho'
    · rw [ho] at ho'
      cases ho'
  | released ho hn => exact .refl hs
  | refused ho hl => exact .refl hs
  | @served s taken ho hr hne ht =>
    refine ⟨rfl, rfl, ?_, fun _ => ?_⟩
    · have hz : (b.sized s wanted).Sound limit down := sound_sized hs hr
      refine ⟨fun s' hs' => ?_, fun s' hs' => ?_, rfl, fun _ _ => ⟨_, rfl⟩, hz.writes, hz.closed⟩
      · obtain rfl := Option.some.inj hs'
        exact (hs.idle s hr).served wanted taken
      · obtain rfl := Option.some.inj hs'
        exact hs.connected s hr
    · simp only [partsOf, List.flatten_cons, List.flatten_nil, List.append_nil, Binding.stream, Binding.served, hr,
        ht.stream_served, List.take_append_drop]
  | @waits s ho hr he hc hl =>
    refine ⟨rfl, rfl, sound_sized hs hr, fun _ => ?_⟩
    simp only [Binding.stream, Binding.sized, hr]
    rfl
  | @drained s ho hr he hc =>
    have hd : down = true := by
      have := hs.connected s hr
      rw [hc, ho] at this
      simpa using this.symm
    refine ⟨by rw [releaseReadSide_eq], by rw [releaseReadSide_eq], sound_releaseReadSide hs (fun _ => hd), fun _ => ?_⟩
    simp only [partsOf, releaseReadSide_eq, Binding.stream, hr, he, List.flatten_nil, List.append_nil]

/-- It stays in the line wherever it stood. -/
theorem Fetched.line_eq {out : Binding × Except Halt Bytes} (h : Fetched limit wanted b out) :
    out.1.line = b.line := by
  cases h with
  | closed ho => rw [releaseReadSide_eq]
  | released ho hn => rfl
  | refused ho hl => rfl
  | served ho hr hne ht => rfl
  | waits ho hr he hc hl => rfl
  | drained ho hr he hc => rw [releaseReadSide_eq]

/-- Bytes are given by open bindings only, and never none. -/
theorem Fetched.of_ok {data : Bytes} (h : Fetched limit wanted b (b', .ok data)) (hw : 0 < wanted) :
    data ≠ [] ∧ b.isOpen = true := by
  cases h with
  | @served s taken ho hr hne ht =>
    refine ⟨fun he => ?_, ho⟩
    rcases List.take_eq_nil_iff.1 he with hz | hz
    · omega
    · exact hne hz

/-- It waits at the inbox only, with the buffer sized and nothing pending. -/
theorem Fetched.of_waits (hs : b.Sound limit down) {phase : Phase}
    (h : Fetched limit wanted b (b', .error (.waits phase))) : phase = .atInbox ∧ b'.Ready limit wanted := by
  cases h with
  | @waits s ho hr he hc hl =>
    refine ⟨rfl, fun s' hs' => ?_⟩
    obtain rfl := Option.some.inj hs'
    exact ⟨((hs.idle s hr).stream_eq_nil_iff.1 he).1, hl, wanted_le_grown _ _⟩

/-! ## Reads that do not stay suspended -/

theorem readOnce_spec (hs : b.Sound limit down) (wanted : Nat) :
    Advance limit down b (partsOf (b.readOnce limit wanted).2) (b.readOnce limit wanted).1 ∧
      (b.readOnce limit wanted).1.line = b.line := by
  unfold readOnce
  split
  · exact ⟨.refl hs, rfl⟩
  · split
    · exact ⟨⟨rfl, rfl, hs, fun _ => rfl⟩, rfl⟩
    · split
      · exact ⟨.refl hs, rfl⟩
      · rename_i hn _
        have hf := fetched_fetch hs (clampRead_pos limit (Nat.pos_of_ne_zero hn))
        exact ⟨hf.advance hs, hf.line_eq⟩

/-- **An immediate or blocking read.** -/
theorem read_advance (hs : b.Sound limit down) (wanted : Nat) :
    Advance limit down b (partsOf (b.read limit wanted).2) (b.read limit wanted).1 ∧
      (b.read limit wanted).1.line = b.line := by
  obtain ⟨ha, hl⟩ := readOnce_spec hs wanted
  exact ⟨ha.releaseIfClosed, (releaseIfClosed_line _).trans hl⟩

/-- A read that finds the read side held does nothing. -/
theorem read_of_line (limit : Option Nat) (wanted : Nat) (hl : b.line ≠ []) : (b.read limit wanted).1 = b := by
  unfold read readOnce
  split
  · exact releaseIfClosed_of_line hl
  · split
    · exact releaseIfClosed_of_line hl
    · rw [if_pos (by simp [hl])]
      exact releaseIfClosed_of_line hl

theorem read_ok_ne_nil (hs : b.Sound limit down) (hn : wanted ≠ 0) {data : Bytes}
    (h : b.read limit wanted = (b', .ok data)) : data ≠ [] := by
  have hd : (b.readOnce limit wanted).2 = .ok data := congrArg Prod.snd h
  unfold readOnce at hd
  rw [if_neg hn] at hd
  split at hd
  · cases hd
  · split at hd
    · cases hd
    · have hw := clampRead_pos limit (Nat.pos_of_ne_zero hn)
      have hf := fetched_fetch hs hw
      rcases hout : b.fetch (clampRead limit wanted) with ⟨b'', r⟩
      rw [hout] at hf hd
      obtain rfl : r = .ok data := hd
      exact (hf.of_ok hw).1

/-- **An exact read that does not stay suspended**: as its reads, and nothing at all while the read side is held. -/
theorem readAll_advance (hs : b.Sound limit down) (wanted : Nat) :
    Advance limit down b (b.readAll limit wanted).parts (b.readAll limit wanted).reader ∧
      (b.readAll limit wanted).reader.line = b.line ∧ (b.line ≠ [] → (b.readAll limit wanted).reader = b) := by
  have hspec := ExactRead.run_spec (fun b wanted => b.read limit wanted)
    (fun t => t.Sound limit down ∧ t.line = b.line)
    (fun s p t => Advance limit down s p t ∧ (b.line ≠ [] → t = s))
    (fun _ t _ => t.line = b.line)
    (fun s h => ⟨.refl h.1, fun _ => rfl⟩)
    (fun h h' => ⟨h.1.trans h'.1, fun hl => (h'.2 hl).trans (h.2 hl)⟩)
    (fun s n data t h hn hr => by
      obtain ⟨ha, hl⟩ := read_advance h.1 n
      rw [hr] at ha hl
      exact ⟨read_ok_ne_nil h.1 hn hr, ⟨ha.sound, hl.trans h.2⟩, ha, fun hne => by
        have := read_of_line limit n (h.2 ▸ hne)
        rwa [hr] at this⟩)
    (fun s n cause t h hn hr => by
      obtain ⟨ha, hl⟩ := read_advance h.1 n
      rw [hr] at ha hl
      exact ⟨⟨ha, fun hne => by
        have := read_of_line limit n (h.2 ▸ hne)
        rwa [hr] at this⟩, hl.trans h.2⟩)
    wanted b ⟨hs, rfl⟩
  obtain ⟨⟨ha, hf⟩, hend⟩ := hspec
  refine ⟨ha, ?_, hf⟩
  change (ExactRead.run (fun b wanted => b.read limit wanted) b wanted).reader.line = b.line
  split at hend
  · exact hend.2
  · exact hend.elim
  · exact hend

/-! ## Suspended reads

`line.erase name` is the line without the read `name`, and `joined line name` the line with it. -/

/-- The line with `name` in it: in its old place, or else at the end. -/
def joined (line : List ReadName) (name : ReadName) : List ReadName := if name ∈ line then line else line ++ [name]

theorem mem_joined {line : List ReadName} {name other : ReadName} :
    other ∈ joined line name ↔ other = name ∨ other ∈ line := by
  unfold joined
  split
  · rename_i h
    exact ⟨Or.inr, fun h' => h'.elim (fun he => he ▸ h) id⟩
  · simp [or_comm]

theorem nodup_joined {line : List ReadName} (h : line.Nodup) (name : ReadName) : (joined line name).Nodup := by
  unfold joined
  split
  · exact h
  · rename_i hn
    refine List.nodup_append.2 ⟨h, by simp, fun x hx y hy => ?_⟩
    rw [List.mem_singleton.1 hy]
    rintro rfl
    exact hn hx

theorem head?_joined {line : List ReadName} {name other : ReadName} (h : line.head? = some other) :
    (joined line name).head? = some other := by
  unfold joined
  split
  · exact h
  · cases line with
    | nil => cases h
    | cons x xs => exact h

theorem head?_erase {line : List ReadName} {name other : ReadName} (h : line.head? = some other) (hne : other ≠ name) :
    (line.erase name).head? = some other := by
  cases line with
  | nil => cases h
  | cons x xs =>
    obtain rfl := Option.some.inj h
    rw [List.erase_cons_tail (by simpa using hne)]
    rfl

/-- What one poll of one read leaves behind, `wanted` bytes having been missing. -/
structure Turn (limit : Option Nat) (down : Bool) (name : ReadName) (wanted : Nat) (b : Binding)
    (out : Binding × Except Halt Bytes) : Prop where
  advance : Advance limit down b (partsOf out.2) out.1
  data : ∀ data, out.2 = .ok data → data ≠ []
  left : (∀ phase, out.2 ≠ .error (.waits phase)) → out.1.line = b.line.erase name
  stays : ∀ phase, out.2 = .error (.waits phase) → out.1.line = joined b.line name ∧
    (phase = .atInbox → out.1.line.head? = some name ∧ out.1.Ready limit (clampRead limit wanted))
  others : ∀ other, b.line.head? = some other → other ≠ name → out.1.readSide = b.readSide

theorem leave_eq (b : Binding) (name : ReadName) :
    b.leave name = { b with line := b.line.erase name }.releaseIfClosed := rfl

theorem leaveUnlessWaiting_eq (name : ReadName) (b : Binding) {r : Except Halt Bytes}
    (h : ∀ phase, r ≠ .error (.waits phase)) : leaveUnlessWaiting name (b, r) = (b.leave name, r) := by
  rcases r with (fault | phase) | data
  · rfl
  · exact absurd rfl (h phase)
  · rfl

/-- **A later poll of a read that holds the read side**: the reader leaves unless it has to wait. -/
theorem resumeRead_of_head {name : ReadName} {phase : Phase} (hs : b.Sound limit down) (hw : 0 < wanted)
    (hhead : b.line.head? = some name) (hready : phase = .atInbox → b.Ready limit (clampRead limit wanted)) :
    ∃ out, Fetched limit (clampRead limit wanted) b out ∧
      b.resumeRead limit name phase wanted = leaveUnlessWaiting name out := by
  have hw' := clampRead_pos limit hw
  cases phase with
  | inLine => exact ⟨_, fetched_fetch hs hw', by simp only [resumeRead, if_pos hhead]⟩
  | atInbox => exact ⟨_, fetched_await hs hw' (hready rfl), rfl⟩

/-- **The turn of a read that holds the read side.** -/
theorem turn_of_fetched {name : ReadName} (hs : b.Sound limit down) (hw : 0 < wanted)
    (hhead : b.line.head? = some name) {out : Binding × Except Halt Bytes}
    (hf : Fetched limit (clampRead limit wanted) b out) :
    Turn limit down name wanted b (leaveUnlessWaiting name out) := by
  obtain ⟨b', r⟩ := out
  have ha := hf.advance hs
  have hl := hf.line_eq
  have hmem : name ∈ b.line := List.mem_of_mem_head? hhead
  have hothers : ∀ other, b.line.head? = some other → other ≠ name → False := fun other ho hne => by
    rw [hhead] at ho
    exact hne (Option.some.inj ho).symm
  by_cases hwait : ∃ phase, r = .error (.waits phase)
  · obtain ⟨phase, rfl⟩ := hwait
    obtain ⟨rfl, hready⟩ := hf.of_waits hs
    refine ⟨ha, fun _ h => (nomatch h), fun h => absurd rfl (h _), fun phase hp => ?_, fun o ho hne => ?_⟩
    · refine ⟨?_, fun _ => ⟨?_, hready⟩⟩
      · simp only [leaveUnlessWaiting, joined, if_pos hmem]
        exact hl
      · simp only [leaveUnlessWaiting]
        rw [show b'.line = b.line from hl]
        exact hhead
    · exact (hothers o ho hne).elim
  · have hnot : ∀ phase, r ≠ .error (.waits phase) := fun phase hp => hwait ⟨phase, hp⟩
    rw [leaveUnlessWaiting_eq name b' hnot]
    refine ⟨(ha.line _).releaseIfClosed, ?_, fun _ => ?_, fun phase hp => absurd hp (hnot phase), ?_⟩
    · rintro data rfl
      exact (hf.of_ok (clampRead_pos limit hw)).1
    · rw [leave_eq, releaseIfClosed_line]
      exact congrArg (List.erase · name) hl
    · exact fun o ho hne => (hothers o ho hne).elim

/-- **The first poll of a read** whose name is not in the line. -/
theorem turn_beginRead {name : ReadName} (hs : b.Sound limit down) (hw : 0 < wanted) (hn : name ∉ b.line) :
    Turn limit down name wanted b (b.beginRead limit name wanted) := by
  have herase : b.line.erase name = b.line := List.erase_of_not_mem hn
  unfold beginRead
  split
  · refine ⟨(Advance.refl hs).releaseIfClosed, fun _ h => (nomatch h), fun _ => ?_, fun _ h => (nomatch h),
      fun o ho _ => ?_⟩
    · rw [releaseIfClosed_line, herase]
    · rw [releaseIfClosed_of_line (fun hl => by rw [hl] at ho; cases ho)]
  rw [if_neg (Nat.pos_iff_ne_zero.1 hw)]
  split
  · rename_i hempty
    have hline : b.line = [] := List.isEmpty_iff.1 hempty
    have hs' := sound_line hs [name]
    obtain ⟨ha, hd, hleft, hstays, -⟩ :=
      turn_of_fetched hs' hw rfl (fetched_fetch hs' (clampRead_pos limit hw))
    refine ⟨ha.of_line, hd, fun h => ?_, fun phase hp => ?_, fun o ho _ => ?_⟩
    · rw [hleft h, hline]
      simp
    · obtain ⟨hj, hr⟩ := hstays phase hp
      refine ⟨?_, hr⟩
      rw [hj, hline]
      simp [joined]
    · rw [hline] at ho
      cases ho
  · refine ⟨(Advance.refl hs).line _, fun _ h => (nomatch h), fun h => absurd rfl (h _), fun phase hp => ?_,
      fun _ _ _ => rfl⟩
    refine ⟨by simp [joined, hn], ?_⟩
    rintro rfl
    cases hp

/-- **A later poll of a read** that stands in the line. -/
theorem turn_resumeRead {name : ReadName} {phase : Phase} (hs : b.Sound limit down) (hw : 0 < wanted)
    (hmem : name ∈ b.line)
    (hready : phase = .atInbox → b.line.head? = some name ∧ b.Ready limit (clampRead limit wanted)) :
    Turn limit down name wanted b (b.resumeRead limit name phase wanted) := by
  cases phase with
  | inLine =>
    simp only [resumeRead]
    split
    · rename_i hhead
      exact turn_of_fetched hs hw hhead (fetched_fetch hs (clampRead_pos limit hw))
    · refine ⟨.refl hs, fun _ h => (nomatch h), fun h => absurd rfl (h _), fun phase hp => ?_, fun _ _ _ => rfl⟩
      refine ⟨by simp [joined, hmem], ?_⟩
      rintro rfl
      cases hp
  | atInbox =>
    obtain ⟨hhead, hr⟩ := hready rfl
    exact turn_of_fetched hs hw hhead (fetched_await hs (clampRead_pos limit hw) hr)

/-- What a poll of a suspended read, or of one that is just begun, leaves behind. -/
structure Poll (limit : Option Nat) (down : Bool) (name : ReadName) (b : Binding) (p : Polled) : Prop where
  advance : Advance limit down b p.parts p.binding
  ready : ∀ r, p.progress = .ready r → p.binding.line = b.line.erase name
  pending : ∀ r, p.progress = .pending r → 0 < r.wanted ∧
    (p.binding.line = joined b.line name ∨ p.binding.line = b.line.erase name ++ [name]) ∧
    (r.phase = .atInbox → p.binding.line.head? = some name ∧ p.binding.Ready limit (clampRead limit r.wanted))
  others : ∀ other, b.line.head? = some other → other ≠ name → p.binding.readSide = b.readSide

theorem poll_settleUpTo {name : ReadName} (hw : 0 < wanted) {out : Binding × Except Halt Bytes}
    (h : Turn limit down name wanted b out) : Poll limit down name b (settleUpTo wanted out) := by
  obtain ⟨b', (fault | phase) | data⟩ := out
  · exact ⟨h.advance, fun _ _ => h.left (fun _ hp => (nomatch hp)), fun _ hp => (nomatch hp), h.others⟩
  · refine ⟨h.advance, fun _ hr => (nomatch hr), fun r hr => ?_, h.others⟩
    cases hr
    obtain ⟨hj, hr⟩ := h.stays phase rfl
    exact ⟨hw, Or.inl hj, hr⟩
  · exact ⟨h.advance, fun _ _ => h.left (fun _ hp => (nomatch hp)), fun _ hp => (nomatch hp), h.others⟩

/-- The reads of an exact read, one after another, each with a place of its own at the end of the line. -/
theorem run_beginRead {name : ReadName} (hs : b.Sound limit down) (hn : name ∉ b.line) (wanted : Nat) :
    let o := ExactRead.run (beginRead limit name) b wanted
    Advance limit down b o.parts o.reader ∧
      (∀ other, b.line.head? = some other → o.reader.readSide = b.readSide) ∧
      match o.ending with
      | .filled => o.reader.line = b.line
      | .noProgress => False
      | .stopped (.failed _) => o.reader.line = b.line
      | .stopped (.waits phase) => 0 < wanted - o.bytes.length ∧ o.reader.line = b.line ++ [name] ∧
        (phase = .atInbox → o.reader.line.head? = some name ∧
          o.reader.Ready limit (clampRead limit (wanted - o.bytes.length))) := by
  have herase : b.line.erase name = b.line := List.erase_of_not_mem hn
  have hjoined : joined b.line name = b.line ++ [name] := if_neg hn
  have hne : ∀ other, b.line.head? = some other → other ≠ name := fun other ho he =>
    hn (he ▸ List.mem_of_mem_head? ho)
  have hspec := ExactRead.run_spec (beginRead limit name)
    (fun t => t.Sound limit down ∧ t.line = b.line)
    (fun s p t => Advance limit down s p t ∧ (∀ other, b.line.head? = some other → t.readSide = s.readSide))
    (fun n t halt => match halt with
      | .failed _ => t.line = b.line
      | .waits phase => 0 < n ∧ t.line = b.line ++ [name] ∧
        (phase = .atInbox → t.line.head? = some name ∧ t.Ready limit (clampRead limit n)))
    (fun s h => ⟨.refl h.1, fun _ _ => rfl⟩)
    (fun h h' => ⟨h.1.trans h'.1, fun o ho => (h'.2 o ho).trans (h.2 o ho)⟩)
    (fun s n data t h hn' hr => by
      have ht := turn_beginRead h.1 (Nat.pos_of_ne_zero hn') (h.2 ▸ hn)
      rw [hr] at ht
      refine ⟨ht.data data rfl, ⟨ht.advance.sound, ?_⟩, ht.advance, fun o ho => ht.others o (h.2 ▸ ho) (hne o ho)⟩
      rw [ht.left (fun _ hp => (nomatch hp)), h.2, herase])
    (fun s n cause t h hn' hr => by
      have ht := turn_beginRead h.1 (Nat.pos_of_ne_zero hn') (h.2 ▸ hn)
      rw [hr] at ht
      refine ⟨⟨ht.advance, fun o ho => ht.others o (h.2 ▸ ho) (hne o ho)⟩, ?_⟩
      cases cause with
      | failed fault =>
        change t.line = b.line
        rw [ht.left (fun _ hp => (nomatch hp)), h.2, herase]
      | waits phase =>
        obtain ⟨hj, hr⟩ := ht.stays phase rfl
        exact ⟨Nat.pos_of_ne_zero hn', by rw [hj, h.2, hjoined], hr⟩)
    wanted b ⟨hs, rfl⟩
  obtain ⟨⟨ha, hf⟩, hend⟩ := hspec
  refine ⟨ha, hf, ?_⟩
  split at hend
  · rename_i he
    rw [he]
    exact hend.2
  · exact hend.elim
  · rename_i cause he
    rw [he]
    cases cause with
    | failed fault => exact hend
    | waits phase => exact hend

theorem poll_settleExact {name : ReadName} {gathered : Bytes} {o : ExactRead.Outcome Binding Halt}
    (ha : Advance limit down b o.parts o.reader)
    (hothers : ∀ other, b.line.head? = some other → other ≠ name → o.reader.readSide = b.readSide)
    (hend : match o.ending with
      | .filled => o.reader.line = b.line.erase name
      | .noProgress => False
      | .stopped (.failed _) => o.reader.line = b.line.erase name
      | .stopped (.waits phase) => 0 < wanted - o.bytes.length ∧
        (o.reader.line = joined b.line name ∨ o.reader.line = b.line.erase name ++ [name]) ∧
        (phase = .atInbox → o.reader.line.head? = some name ∧
          o.reader.Ready limit (clampRead limit (wanted - o.bytes.length)))) :
    Poll limit down name b (settleExact gathered wanted o) := by
  obtain ⟨reader, parts, ending⟩ := o
  rcases ending with _ | _ | fault | phase
  · exact ⟨ha, fun _ _ => hend, fun _ hp => (nomatch hp), hothers⟩
  · exact hend.elim
  · exact ⟨ha, fun _ _ => hend, fun _ hp => (nomatch hp), hothers⟩
  · refine ⟨ha, fun _ hr => (nomatch hr), fun r hr => ?_, hothers⟩
    cases hr
    exact hend

/-- **Beginning a read of up to `wanted` bytes.** -/
theorem poll_startUpTo {name : ReadName} (hs : b.Sound limit down) (hn : name ∉ b.line) :
    Poll limit down name b (b.startUpTo limit name wanted) := by
  by_cases hw : wanted = 0
  · have herase : b.line.erase name = b.line := List.erase_of_not_mem hn
    rw [startUpTo, beginRead]
    split
    · refine ⟨(Advance.refl hs).releaseIfClosed, fun _ _ => ?_, fun _ hp => (nomatch hp), fun o ho _ => ?_⟩
      · exact (releaseIfClosed_line b).trans herase.symm
      · exact congrArg readSide (releaseIfClosed_of_line (fun hl => by rw [hl] at ho; cases ho))
    · exact ⟨⟨rfl, rfl, hs, fun _ => rfl⟩, fun _ _ => herase.symm, fun _ hp => (nomatch hp), fun _ _ _ => rfl⟩
  · have hw' := Nat.pos_of_ne_zero hw
    exact poll_settleUpTo hw' (turn_beginRead hs hw' hn)

/-- **Beginning a read of exactly `wanted` bytes.** -/
theorem poll_startExact {name : ReadName} (hs : b.Sound limit down) (hn : name ∉ b.line) :
    Poll limit down name b (b.startExact limit name wanted) := by
  have herase : b.line.erase name = b.line := List.erase_of_not_mem hn
  obtain ⟨ha, hf, hend⟩ := run_beginRead hs hn wanted
  refine poll_settleExact ha (fun o ho _ => hf o ho) ?_
  rw [herase]
  split at hend
  · exact hend
  · exact hend.elim
  · exact hend
  · exact ⟨hend.1, Or.inr hend.2.1, hend.2.2⟩

/-- **Polling a suspended read** that stands in the line, and first in it if it waits at the inbox. -/
theorem poll_poll {name : ReadName} {read : SuspendedRead} (hs : b.Sound limit down) (hnd : b.line.Nodup)
    (hmem : name ∈ b.line) (hw : 0 < read.wanted)
    (hready : read.phase = .atInbox → b.line.head? = some name ∧ b.Ready limit (clampRead limit read.wanted)) :
    Poll limit down name b (b.poll limit name read) := by
  have hturn := turn_resumeRead hs hw hmem hready
  unfold poll
  cases read.goal with
  | upTo => exact poll_settleUpTo hw hturn
  | exactly gathered =>
    rcases hout : b.resumeRead limit name read.phase read.wanted with ⟨t, (fault | phase) | data⟩
    · rw [hout] at hturn
      exact poll_settleExact hturn.advance hturn.others (hturn.left (fun _ hp => (nomatch hp)))
    · rw [hout] at hturn
      obtain ⟨hj, hr⟩ := hturn.stays phase rfl
      exact poll_settleExact hturn.advance hturn.others ⟨hw, Or.inl hj, hr⟩
    · rw [hout] at hturn
      have hline : t.line = b.line.erase name := hturn.left (fun _ hp => (nomatch hp))
      cases data with
      | nil => exact absurd rfl (hturn.data [] rfl)
      | cons x xs =>
        have hn : name ∉ t.line := hline ▸ hnd.not_mem_erase
        obtain ⟨ha, hf, hend⟩ :=
          run_beginRead hturn.advance.sound hn (read.wanted - (xs.length + 1))
        refine poll_settleExact (hturn.advance.trans ha) (fun o ho hne => ?_) ?_
        · rw [← hturn.others o ho hne]
          exact hf o (hline ▸ head?_erase ho hne)
        · simp only [ExactRead.resume, ExactRead.Outcome.cons, ExactRead.Outcome.bytes, List.flatten_cons,
            List.length_append, List.length_cons, ← Nat.sub_sub, hline] at hend ⊢
          split at hend
          · exact hend
          · exact hend.elim
          · exact hend
          · exact ⟨hend.1, Or.inr hend.2.1, hend.2.2⟩

end Binding
end TopicBus
