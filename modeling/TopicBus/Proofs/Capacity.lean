import TopicBus.Proofs.Growth
import TopicBus.Proofs.Moves
import TopicBus.Proofs.Shutdown
/-!
# The read capacity of a binding

What a binding tells as its read capacity is the room of its read buffer, for as long as it has its read side, and
nothing afterwards.  That room is the one it was opened with, grown for every size that a read asked for in its turn,
that is, when it first came to hold the read side of the open binding (`Binding.asks`).  It does not matter what became
of the read then; and a read that stands in the line behind another has not asked yet, be it that of a future or that of
a call.

`Binding.Grows` relates a binding before and after with the sizes asked for in between.  Each form of read has its
lemma, and whatever else is done to a binding asks for nothing (`Desk.Aside.grows`).  So there is one for every act, and
for runs from the opening of the binding on (`Desk.exists_grown`).
-/
namespace TopicBus

/-! ## Notes on an exact read -/

namespace ExactRead

variable {σ ε α : Type}

/-- What `note` has on every read that an exact read makes, in order. -/
def noted (read : σ → Nat → σ × Except ε Bytes) (note : σ → Nat → List α) (reader : σ) (wanted : Nat) : List α :=
  if wanted = 0 then []
  else note reader wanted ++ match read reader wanted with
    | (after, .ok (_ :: xs)) => noted read note after (wanted - (xs.length + 1))
    | _ => []
termination_by wanted

/-- The same for the reads that follow a first answer. -/
def notedAfter (read : σ → Nat → σ × Except ε Bytes) (note : σ → Nat → List α) (wanted : Nat) :
    σ × Except ε Bytes → List α
  | (after, .ok (_ :: xs)) => noted read note after (wanted - (xs.length + 1))
  | _ => []

variable {read : σ → Nat → σ × Except ε Bytes} {note : σ → Nat → List α} {reader : σ} {wanted : Nat}

@[simp] theorem noted_zero : noted read note reader 0 = [] := by
  rw [noted, if_pos rfl]

theorem noted_of_pos (h : wanted ≠ 0) :
    noted read note reader wanted = note reader wanted ++ notedAfter read note wanted (read reader wanted) := by
  rw [noted, if_neg h]
  rfl

variable {R : σ → List α → σ → Prop}

/-- A first answer, and the reads that follow it. -/
theorem resume_noted (trans : ∀ {s t u p q}, R s p t → R t q u → R s (p ++ q) u) {first : σ × Except ε Bytes}
    {notes : List α} (hfirst : R reader notes first.1)
    (hrest : ∀ after x xs, first = (after, .ok (x :: xs)) →
      R after (noted read note after (wanted - (xs.length + 1))) (run read after (wanted - (xs.length + 1))).reader) :
    R reader (notes ++ notedAfter read note wanted first) (resume read wanted first).reader := by
  rcases first with ⟨after, cause | _ | ⟨x, xs⟩⟩
  · exact (List.append_nil notes).symm ▸ hfirst
  · exact (List.append_nil notes).symm ▸ hfirst
  · exact trans hfirst (hrest after x xs rfl)

/-- **What every read keeps with its note, an exact read keeps with its notes.** -/
theorem run_noted (Inv : σ → Prop) (refl : ∀ s, R s [] s) (trans : ∀ {s t u p q}, R s p t → R t q u → R s (p ++ q) u)
    (each : ∀ s n, Inv s → n ≠ 0 →
      R s (note s n) (read s n).1 ∧ ∀ data, (read s n).2 = .ok data → Inv (read s n).1)
    (wanted : Nat) (reader : σ) (h : Inv reader) :
    R reader (noted read note reader wanted) (run read reader wanted).reader := by
  induction wanted using Nat.strongRecOn generalizing reader with
  | ind wanted ih =>
    by_cases hw : wanted = 0
    · subst hw
      rw [noted_zero, run_zero]
      exact refl reader
    · rw [noted_of_pos hw, run_of_pos read reader hw]
      obtain ⟨hfirst, hinv⟩ := each reader wanted h hw
      refine resume_noted trans hfirst (fun after x xs hout => ?_)
      rw [hout] at hinv
      exact ih _ (by omega) after (hinv _ rfl)

end ExactRead

namespace Binding

/-! ## What reads ask for -/

/-- What a read of up to `wanted` bytes asks for in its turn: a size, or none if it wants nothing or there is nothing to
read from. -/
def asks (limit : Option Nat) (b : Binding) (wanted : Nat) : List Nat :=
  if b.isOpen && b.readSide.isSome && wanted != 0 then [clampRead limit wanted] else []

/-- What it asks for at its beginning, which is its turn if nobody stands in the line. -/
def asksNow (limit : Option Nat) (b : Binding) (wanted : Nat) : List Nat :=
  if b.line.isEmpty then b.asks limit wanted else []

/-- What the read `name` asks for when it goes on: in the line it has not had its turn, at the inbox it has. -/
def asksLater (limit : Option Nat) (name : ReadName) (phase : Phase) (b : Binding) (wanted : Nat) : List Nat :=
  match phase with
  | .inLine => if b.line.head? = some name then b.asks limit wanted else []
  | .atInbox => []

/-- What a blocking exact read asks for. -/
def asksAll (limit : Option Nat) (b : Binding) (wanted : Nat) : List Nat :=
  ExactRead.noted (fun b wanted => b.read limit wanted) (asksNow limit) b wanted

/-- What an exact read that can be suspended asks for when it begins. -/
def asksExact (limit : Option Nat) (name : ReadName) (b : Binding) (wanted : Nat) : List Nat :=
  ExactRead.noted (beginRead limit name) (asksNow limit) b wanted

/-- What the read `name` asks for when it is polled. -/
def asksPoll (limit : Option Nat) (name : ReadName) (b : Binding) (read : SuspendedRead) : List Nat :=
  b.asksLater limit name read.phase read.wanted ++
    match read.goal with
    | .upTo => []
    | .exactly _ =>
      ExactRead.notedAfter (beginRead limit name) (asksNow limit) read.wanted
        (b.resumeRead limit name read.phase read.wanted)

/-! ## Growing -/

/-- The room of the read buffer that the binding has. -/
def readRoom (b : Binding) : Option Nat := b.readSide.map (·.buffer.capacity)

/-- Unless the read side is gone, `b'` has the read buffer of `b`, grown for `sizes` in order; they are all within the
limit. -/
structure Grows (limit : Option Nat) (b : Binding) (sizes : List Nat) (b' : Binding) : Prop where
  within : ∀ size ∈ sizes, Within limit size
  room : ∀ room', b'.readRoom = some room' → ∃ room, b.readRoom = some room ∧ room' = sizes.foldl grown room

variable {limit : Option Nat} {down : Bool} {b b' b'' : Binding} {sizes sizes' : List Nat} {wanted : Nat}
  {name : ReadName}

theorem Grows.of_room (h : b'.readRoom = b.readRoom) : Grows limit b [] b' :=
  ⟨fun _ hsize => absurd hsize List.not_mem_nil, fun room' hroom' => ⟨room', h ▸ hroom', rfl⟩⟩

theorem Grows.refl (b : Binding) : Grows limit b [] b := .of_room rfl

theorem Grows.of_released (hw : ∀ size ∈ sizes, Within limit size) (h : b'.readRoom = none) : Grows limit b sizes b' :=
  ⟨hw, fun _ hroom' => nomatch h.symm.trans hroom'⟩

theorem Grows.trans (h : Grows limit b sizes b') (h' : Grows limit b' sizes' b'') :
    Grows limit b (sizes ++ sizes') b'' := by
  refine ⟨List.forall_mem_append.2 ⟨h.within, h'.within⟩, fun room'' hroom'' => ?_⟩
  obtain ⟨room', hroom', rfl⟩ := h'.room room'' hroom''
  obtain ⟨room, hroom, rfl⟩ := h.room room' hroom'
  exact ⟨room, hroom, List.foldl_append.symm⟩

theorem readRoom_releaseReadSide (b : Binding) : b.releaseReadSide.readRoom = none := by
  rw [releaseReadSide_eq]
  rfl

theorem grows_releaseIfClosed (b : Binding) : Grows limit b [] b.releaseIfClosed := by
  rcases b.releaseIfClosed_cases with he | ⟨-, -, he⟩
  · exact .of_room (by rw [he])
  · exact .of_released nofun (by rw [he, readRoom_releaseReadSide])

/-- Whether anything more can come does not matter. -/
theorem Grows.of_disconnected (h : b'.readSide = b.readSide.map ReadSide.disconnect) : Grows limit b [] b' := by
  refine .of_room ?_
  rw [readRoom, h, Option.map_map]
  rfl

/-- Emptying the line, or joining it, leaves the read side alone. -/
theorem grows_line (b : Binding) (line : List ReadName) : Grows limit b [] { b with line } := .of_room rfl

/-! ### One read -/

/-- **A read that has its turn** grows the read buffer for its size. -/
theorem grows_fetch (hs : b.Sound limit down) (hl : limit ≠ some 0) (hw : wanted ≠ 0) :
    Grows limit b (b.asks limit wanted) (b.fetch (clampRead limit wanted)).1 := by
  have hwithin : ∀ size ∈ b.asks limit wanted, Within limit size := fun size hsize => by
    unfold asks at hsize
    split at hsize
    · exact List.mem_singleton.1 hsize ▸ within_clampRead hl wanted
    · exact absurd hsize List.not_mem_nil
  have hasks : ∀ {side}, b.isOpen = true → b.readSide = some side → b.asks limit wanted = [clampRead limit wanted] :=
    fun ho hr => by simp [asks, ho, hr, hw]
  have hf := fetched_fetch hs (clampRead_pos limit (Nat.pos_of_ne_zero hw))
  generalize b.fetch (clampRead limit wanted) = out at hf
  cases hf with
  | closed | drained => exact .of_released hwithin (readRoom_releaseReadSide b)
  | released _ hr => exact .of_released hwithin (by rw [readRoom, hr]; rfl)
  | refused _ hbeyond => exact absurd (within_clampRead hl wanted) hbeyond
  | served ho hr _ _ | waits ho hr _ _ _ =>
    rw [hasks ho hr] at hwithin ⊢
    refine ⟨hwithin, ?_⟩
    rintro _ ⟨⟩
    exact ⟨_, by rw [readRoom, hr]; rfl, rfl⟩

/-- A read that waited at the inbox asked before. -/
theorem grows_await (hs : b.Sound limit down) (hw : 0 < wanted) (hready : b.Ready limit wanted) :
    Grows limit b [] (b.await wanted).1 := by
  have hf := fetched_await hs hw hready
  generalize b.await wanted = out at hf
  cases hf with
  | closed | drained => exact .of_released nofun (readRoom_releaseReadSide b)
  | released _ _ | refused _ _ => exact .refl b
  | served _ hr _ _ | waits _ hr _ _ _ =>
    obtain ⟨-, -, hroom⟩ := hready _ hr
    refine .of_room ?_
    rw [readRoom, readRoom, hr]
    exact congrArg some (grown_of_le hroom)

theorem grows_leaveUnlessWaiting {out : Binding × Except Halt Bytes} (name : ReadName) (h : Grows limit b sizes out.1) :
    Grows limit b sizes (leaveUnlessWaiting name out).1 := by
  have hleave : ∀ {t : Binding}, Grows limit b sizes t → Grows limit b sizes (t.leave name) := fun {t} ht => by
    have hgone := (ht.trans (grows_line t (t.line.erase name))).trans (grows_releaseIfClosed _)
    rwa [List.append_nil, List.append_nil] at hgone
  obtain ⟨t, (fault | phase) | data⟩ := out
  · exact hleave h
  · exact h
  · exact hleave h

theorem asks_of_closed (hc : b.isOpen = false) : b.asksNow limit wanted = [] := by
  simp [asksNow, asks, hc]

theorem asks_zero : b.asksNow limit 0 = [] := by
  simp [asksNow, asks]

theorem grows_read (hs : b.Sound limit down) (hl : limit ≠ some 0) (wanted : Nat) :
    Grows limit b (b.asksNow limit wanted) (b.read limit wanted).1 := by
  have honce : Grows limit b (b.asksNow limit wanted) (b.readOnce limit wanted).1 := by
    unfold readOnce
    split
    · rename_i hc
      rw [asks_of_closed (by simpa using hc)]
      exact .refl b
    · split
      · rename_i hw
        rw [hw, asks_zero]
        exact .refl b
      · rename_i hw
        split
        · rename_i hline
          rw [asksNow, if_neg (by simpa using hline)]
          exact .refl b
        · rename_i hline
          rw [asksNow, if_pos (by simpa using hline)]
          exact grows_fetch hs hl hw
  have hall := honce.trans (grows_releaseIfClosed _)
  rwa [List.append_nil] at hall

theorem grows_readAll (hs : b.Sound limit down) (hl : limit ≠ some 0) (wanted : Nat) :
    Grows limit b (b.asksAll limit wanted) (b.readAll limit wanted).reader :=
  ExactRead.run_noted (fun t => t.Sound limit down) Grows.refl Grows.trans
    (fun _ n ht _ => ⟨grows_read ht hl n, fun _ _ => (read_advance ht n).1.sound⟩) wanted b hs

theorem grows_beginRead (hs : b.Sound limit down) (hl : limit ≠ some 0) (name : ReadName) (wanted : Nat) :
    Grows limit b (b.asksNow limit wanted) (b.beginRead limit name wanted).1 := by
  unfold beginRead
  split
  · rename_i hc
    rw [asks_of_closed (by simpa using hc)]
    exact grows_releaseIfClosed b
  · split
    · rename_i hw
      rw [hw, asks_zero]
      exact .refl b
    · rename_i hw
      split
      · rename_i hline
        rw [asksNow, if_pos hline]
        exact grows_leaveUnlessWaiting name
          ((grows_line b [name]).trans (grows_fetch (b := { b with line := [name] }) (sound_line hs [name]) hl hw))
      · rename_i hline
        rw [asksNow, if_neg hline]
        exact grows_line b _

theorem grows_resumeRead {phase : Phase} (hs : b.Sound limit down) (hl : limit ≠ some 0) (name : ReadName)
    (hw : 0 < wanted) (hready : phase = .atInbox → b.Ready limit (clampRead limit wanted)) :
    Grows limit b (b.asksLater limit name phase wanted) (b.resumeRead limit name phase wanted).1 := by
  cases phase with
  | inLine =>
    simp only [resumeRead, asksLater]
    split
    · exact grows_leaveUnlessWaiting name (grows_fetch hs hl (Nat.ne_zero_of_lt hw))
    · exact .refl b
  | atInbox => exact grows_leaveUnlessWaiting name (grows_await hs (clampRead_pos limit hw) (hready rfl))

theorem grows_run (hs : b.Sound limit down) (hl : limit ≠ some 0) (hn : name ∉ b.line) (wanted : Nat) :
    Grows limit b (b.asksExact limit name wanted) (ExactRead.run (beginRead limit name) b wanted).reader :=
  ExactRead.run_noted (fun t => t.Sound limit down ∧ name ∉ t.line) Grows.refl Grows.trans
    (fun t n ht hn' => by
      refine ⟨grows_beginRead ht.1 hl name n, fun data hdata => ?_⟩
      have hturn := turn_beginRead ht.1 (Nat.pos_of_ne_zero hn') ht.2
      have hline := hturn.left (fun _ hp => nomatch hdata.symm.trans hp)
      exact ⟨hturn.advance.sound, hline ▸ (List.erase_of_not_mem ht.2).symm ▸ ht.2⟩)
    wanted b ⟨hs, hn⟩

theorem settleUpTo_binding (wanted : Nat) (out : Binding × Except Halt Bytes) :
    (settleUpTo wanted out).binding = out.1 := by
  obtain ⟨t, (fault | phase) | data⟩ := out <;> rfl

theorem grows_poll {read : SuspendedRead} (hs : b.Sound limit down) (hl : limit ≠ some 0) (hnd : b.line.Nodup)
    (hmem : name ∈ b.line) (hw : 0 < read.wanted)
    (hready : read.phase = .atInbox → b.line.head? = some name ∧ b.Ready limit (clampRead limit read.wanted)) :
    Grows limit b (b.asksPoll limit name read) (b.poll limit name read).binding := by
  have hfirst := grows_resumeRead hs hl name hw (fun hp => (hready hp).2)
  have hturn := turn_resumeRead hs hw hmem hready
  unfold poll asksPoll
  cases read.goal with
  | upTo =>
    simp only [settleUpTo_binding, List.append_nil]
    exact hfirst
  | exactly gathered =>
    refine ExactRead.resume_noted Grows.trans hfirst (fun after x xs hout => ?_)
    rw [hout] at hturn
    have hline : after.line = b.line.erase name := hturn.left (fun _ hp => nomatch hp)
    exact grows_run hturn.advance.sound hl (hline ▸ hnd.not_mem_erase) _

end Binding

/-! ## Acts -/

namespace Desk

open Binding (Grows)

/-- The sizes that the reads of an act ask of the binding `id`, which is `b`. -/
def askedOf (d : Desk) (id : BindingId) (b : Binding) : Act → List Nat
  | .read i wanted | .tryRead i wanted => if i = id then b.asksNow d.bus.config.chunkLimit wanted else []
  | .readAll i wanted => if i = id then b.asksAll d.bus.config.chunkLimit wanted else []
  | .start name i wanted =>
    if i = id ∧ d.reads.get? name = none then b.asksNow d.bus.config.chunkLimit wanted else []
  | .startAll name i wanted =>
    if i = id ∧ d.reads.get? name = none then b.asksExact d.bus.config.chunkLimit name wanted else []
  | .poll name =>
    match d.reads.get? name with
    | none => []
    | some r => if r.binding = id then b.asksPoll d.bus.config.chunkLimit name r.read else []
  | _ => []

/-- The same for a binding that need not be there. -/
def asked (d : Desk) (id : BindingId) (act : Act) : List Nat :=
  match d.bus.bindings.get? id with
  | none => []
  | some b => d.askedOf id b act

/-- The sizes that acts ask of a binding, in order. -/
def askedIn (d : Desk) (id : BindingId) : List Act → List Nat
  | [] => []
  | act :: rest => d.asked id act ++ (d.apply act).askedIn id rest

variable {d : Desk} {id i : BindingId} {b b' : Binding} {act : Act} {sizes : List Nat}

/-- Something was done to the binding `i`, which may be the one in question. -/
theorem grows_insert {b₁ b₁' : Binding} (hb : d.bus.bindings.get? id = some b) (hi : d.bus.bindings.get? i = some b₁)
    (hg : i = id → Grows d.bus.config.chunkLimit b₁ sizes b₁') :
    ∃ b', (d.bus.bindings.insert i b₁').get? id = some b' ∧
      Grows d.bus.config.chunkLimit b (if i = id then sizes else []) b' := by
  by_cases hid : i = id
  · subst hid
    obtain rfl := Option.some.inj (hb.symm.trans hi)
    rw [if_pos rfl]
    exact ⟨b₁', Table.get?_insert_self .., hg rfl⟩
  · rw [if_neg hid]
    exact ⟨b, (Table.get?_insert_of_ne _ (Ne.symm hid) _).trans hb, .refl b⟩

theorem grows_onBinding {α : Type} {absent : α} {f : Binding → Binding × α} (hb : d.bus.bindings.get? id = some b)
    (hg : Grows d.bus.config.chunkLimit b sizes (f b).1) :
    ∃ b', (d.bus.onBinding i absent f).1.bindings.get? id = some b' ∧
      Grows d.bus.config.chunkLimit b (if i = id then sizes else []) b' := by
  unfold Bus.onBinding
  cases hi : d.bus.bindings.get? i with
  | none =>
    rw [if_neg (Table.ne_of_get? hi hb)]
    exact ⟨b, hb, .refl b⟩
  | some b₁ =>
    refine grows_insert hb hi (fun hid => ?_)
    subst hid
    obtain rfl := Option.some.inj (hb.symm.trans hi)
    exact hg

/-- A name that no read has stands in no line. -/
theorem Good.not_mem_line (h : d.Good) (hb : d.bus.bindings.get? id = some b) {name : ReadName}
    (hn : d.reads.get? name = none) : name ∉ b.line := fun hm => by
  obtain ⟨r, hr, -⟩ := (h.line id b hb name).1 hm
  exact nomatch hn.symm.trans hr

/-- **A read that begins** asks the binding that it is begun on, unless its name is in use. -/
theorem grows_begun {name : ReadName} {poll : Binding → Polled} (h : d.Good) (hb : d.bus.bindings.get? id = some b)
    (hpolled : d.polled? act = if (d.reads.get? name).isSome then none
      else (d.bus.bindings.get? i).map (fun b => (name, i, poll b)))
    (hg : name ∉ b.line → Grows d.bus.config.chunkLimit b sizes (poll b).binding) :
    ∃ b', (d.advance (d.polled? act)).bus.bindings.get? id = some b' ∧
      Grows d.bus.config.chunkLimit b (if i = id ∧ d.reads.get? name = none then sizes else []) b' := by
  rw [hpolled]
  cases hn : d.reads.get? name with
  | some r =>
    simp only [Option.isSome_some, if_true, reduceCtorEq, and_false, if_false]
    exact ⟨b, hb, .refl b⟩
  | none =>
    simp only [Option.isSome_none, Bool.false_eq_true, if_false, and_true]
    cases hi : d.bus.bindings.get? i with
    | none =>
      rw [if_neg (Table.ne_of_get? hi hb)]
      exact ⟨b, hb, .refl b⟩
    | some b₁ =>
      refine grows_insert hb hi (fun hid => ?_)
      subst hid
      obtain rfl := Option.some.inj (hb.symm.trans hi)
      exact hg (h.not_mem_line hb hn)

theorem grows_polled (h : d.Good) (hl : d.bus.config.chunkLimit ≠ some 0) (hb : d.bus.bindings.get? id = some b)
    (name : ReadName) :
    ∃ b', (d.advance (d.polled? (.poll name))).bus.bindings.get? id = some b' ∧
      Grows d.bus.config.chunkLimit b (d.askedOf id b (.poll name)) b' := by
  cases hr : d.reads.get? name with
  | none =>
    simp only [polled?, askedOf, hr]
    exact ⟨b, hb, .refl b⟩
  | some r =>
    obtain ⟨hw, b₁, hb₁, hphase⟩ := h.reads name r hr
    simp only [polled?, askedOf, hr, Option.bind_some, hb₁, Option.map_some]
    refine grows_insert hb hb₁ (fun hid => ?_)
    subst hid
    obtain rfl := Option.some.inj (hb.symm.trans hb₁)
    exact Binding.grows_poll (h.sound _ b hb) hl (h.nodup _ b hb) ((h.line _ b hb name).2 ⟨r, hr, rfl⟩) hw hphase

/-- **What is no read** asks for nothing. -/
theorem Aside.grows (h : Aside id b act b') : Grows d.bus.config.chunkLimit b [] b' := by
  cases h with
  | same | cancelled => exact .of_room rfl
  | ended => exact .of_disconnected rfl
  | closed _ =>
    rw [Binding.shut_eq]
    exact (Grows.of_disconnected rfl).trans (Binding.grows_releaseIfClosed _)
  | passed hp _ =>
    refine .of_room ?_
    rw [Binding.readRoom, hp.readSide]
    split
    · rw [Option.map_map]
      rfl
    · rfl

/-- **Every act** grows the read buffer of a binding for the sizes that its reads ask for. -/
theorem grows_apply (h : d.Good) (hl : d.bus.config.chunkLimit ≠ some 0) (hb : d.bus.bindings.get? id = some b)
    (act : Act) : ∃ b', (d.apply act).bus.bindings.get? id = some b' ∧
      Grows d.bus.config.chunkLimit b (d.asked id act) b' := by
  have hs := h.sound id b hb
  have hasked : d.asked id act = d.askedOf id b act := by rw [asked, hb]
  rw [hasked]
  have hother : act.reads = false → d.askedOf id b act = [] →
      ∃ b', (d.apply act).bus.bindings.get? id = some b' ∧
        Grows d.bus.config.chunkLimit b (d.askedOf id b act) b' := fun hr hnone => by
    obtain ⟨b', hb', haside⟩ := aside_apply h hb hr
    exact ⟨b', hb', hnone ▸ haside.grows⟩
  cases act with
  | read i wanted => exact grows_onBinding hb (Binding.grows_read hs hl wanted)
  | tryRead i wanted =>
    refine grows_onBinding hb ?_
    rw [tryRead_fst]
    exact Binding.grows_read hs hl wanted
  | readAll i wanted => exact grows_onBinding hb (Binding.grows_readAll hs hl wanted)
  | start name i wanted =>
    refine grows_begun h hb rfl (fun _ => ?_)
    rw [Binding.startUpTo, Binding.settleUpTo_binding]
    exact Binding.grows_beginRead hs hl name wanted
  | startAll name i wanted => exact grows_begun h hb rfl (fun hn => Binding.grows_run hs hl hn wanted)
  | poll name => exact grows_polled h hl hb name
  | create _ | destroy _ | shutdown | openBinding _ | close _ | write _ _ | cancel _ => exact hother rfl rfl

theorem grows_after (h : d.Good) (hl : d.bus.config.chunkLimit ≠ some 0) (hb : d.bus.bindings.get? id = some b)
    (acts : List Act) : ∃ b', (d.after acts).bus.bindings.get? id = some b' ∧
      Grows d.bus.config.chunkLimit b (d.askedIn id acts) b' := by
  induction acts generalizing d b with
  | nil => exact ⟨b, hb, .refl b⟩
  | cons act acts ih =>
    obtain ⟨b₁, hb₁, hfirst⟩ := grows_apply h hl hb act
    have hconfig : (d.apply act).bus.config = d.bus.config := (frame_apply d act).1
    obtain ⟨b₂, hb₂, hrest⟩ := ih (good_apply h act) (hconfig.symm ▸ hl) hb₁
    rw [hconfig] at hrest
    exact ⟨b₂, hb₂, hfirst.trans hrest⟩

/-! ## From the opening on -/

/-- **The read buffer of a binding** has the room that the binding was opened with, grown for every size that its reads
have asked for since. -/
theorem exists_grown (h : d.Good) (hl : d.bus.config.chunkLimit ≠ some 0) (hn : d.bus.bindings.get? id = none)
    {acts : List Act} (hb : (d.after acts).bus.bindings.get? id = some b) :
    ∃ before o rest, acts = before ++ .openBinding o :: rest ∧ ((d.after before).bus.openBinding o).2 = .ok id ∧
      Within d.bus.config.chunkLimit o.readCapacity ∧ ∃ b₀ : Binding, b₀.readRoom = some o.readCapacity ∧
      Grows d.bus.config.chunkLimit b₀ ((d.after (before ++ [.openBinding o])).askedIn id rest) b := by
  induction acts generalizing d with
  | nil => cases hn.symm.trans hb
  | cons act acts ih =>
    have hconfig : (d.apply act).bus.config = d.bus.config := (frame_apply d act).1
    cases hb₀ : (d.apply act).bus.bindings.get? id with
    | none =>
      obtain ⟨before, o, rest, rfl, hrest⟩ := ih (good_apply h act) (hconfig.symm ▸ hl) hb₀ hb
      rw [hconfig] at hrest
      exact ⟨act :: before, o, rest, rfl, hrest⟩
    | some b₀ =>
      obtain ⟨b', hb', hg⟩ := grows_after (good_apply h act) (hconfig.symm ▸ hl) hb₀ acts
      obtain rfl := Option.some.inj (hb'.symm.trans hb)
      obtain ⟨o, _, _, _, rfl, -, hanswer, hbuffers, rfl⟩ := exists_fresh h hn hb₀
      obtain ⟨⟨hwithin, rfl⟩, -⟩ := Bus.buffers_eq_ok hbuffers
      rw [hconfig] at hg
      exact ⟨[], o, acts, rfl, hanswer, hwithin, _, rfl, hg⟩

end Desk

/-! ## Runs -/

namespace Session

open Binding (readRoom)

/-- **The read capacity from one point of a run to a later one**: once the read side is gone it stays gone, and as long
as there is one, the capacity grows for what reads ask. -/
theorem readCapacity_later {s : Session} (hgood : s.desk.Good) (hl : s.bus.config.chunkLimit ≠ some 0) {id : BindingId}
    {b : Binding} (hb : s.bus.bindings.get? id = some b) (more : List Op) :
    ∃ b', (s.run more).bus.bindings.get? id = some b' ∧
      (b.readSide = none → b'.readSide = none ∧ b'.readCapacity = 0) ∧
      (b'.readSide ≠ none → b'.readCapacity = (s.desk.askedIn id (s.trail more)).foldl grown b.readCapacity) := by
  obtain ⟨b', hb', hg⟩ := Desk.grows_after hgood hl hb (s.trail more)
  rw [← desk_run] at hb'
  have hcapacity : b.readCapacity = b.readRoom.getD 0 := (hgood.sound id b hb).capacity
  have hcapacity' : b'.readCapacity = b'.readRoom.getD 0 := ((good_later hgood more).sound id b' hb').capacity
  refine ⟨b', hb', fun hnone => ?_, fun hsome => ?_⟩
  · have hgone : b'.readSide = none := Option.eq_none_iff_forall_ne_some.2 (fun side hside => by
      obtain ⟨room, hroom, -⟩ := hg.room side.buffer.capacity (by rw [readRoom, hside]; rfl)
      rw [readRoom, hnone] at hroom
      cases hroom)
    exact ⟨hgone, by rw [hcapacity', readRoom, hgone]; rfl⟩
  · obtain ⟨side, hside⟩ := Option.ne_none_iff_exists'.1 hsome
    have hroom' : b'.readRoom = some side.buffer.capacity := by rw [readRoom, hside]; rfl
    obtain ⟨room, hroom, hgrown⟩ := hg.room _ hroom'
    rw [hcapacity', hroom', hcapacity, hroom]
    exact hgrown

/-- **The read capacity of a binding**, after every run on a bus that does not cap chunks at nothing.  It is that of the
read buffer the binding has, and nothing once the read side was given up, which stays so.  Until then it is the capacity
asked for at the opening, grown in order for the size of every read in its turn, whether that was over at once or had to
wait, so that it never falls; and a cap is passed by less than doubling it. -/
theorem read_capacity_published (config : Config) (hl : config.chunkLimit ≠ some 0) (ops : List Op) {id : BindingId}
    {b : Binding} (hb : ((new config).run ops).bus.bindings.get? id = some b) :
    let s := (new config).run ops
    (s.stepBinding id .readCapacity).2 = .count b.readCapacity ∧
    (∀ side, b.readSide = some side → b.readCapacity = side.buffer.capacity) ∧
    (b.readCapacity = 0 ↔ b.readSide = none ∨ ∃ side, b.readSide = some side ∧ side.buffer.capacity = 0) ∧
    (∃ before o after, (new config).trail ops = before ++ .openBinding o :: after ∧
      (((Desk.new config).after before).bus.openBinding o).2 = .ok id ∧
      (b.readSide ≠ none → b.readCapacity =
        (((Desk.new config).after (before ++ [.openBinding o])).askedIn id after).foldl grown o.readCapacity)) ∧
    (∀ more, ∃ b', (s.run more).bus.bindings.get? id = some b' ∧
      (b.readSide = none → b'.readSide = none ∧ b'.readCapacity = 0) ∧
      (b'.readSide ≠ none → b.readCapacity ≤ b'.readCapacity)) ∧
    ∀ most, config.chunkLimit = some most → b.readCapacity ≤ max most (max 8 (2 * (most - 1))) := by
  intro s
  have hgood : s.desk.Good := good_run config ops
  have hconfig : s.bus.config = config := config_run config ops
  have hcapacity : b.readCapacity = b.readRoom.getD 0 := (hgood.sound id b hb).capacity
  have hafter : ((Desk.new config).after ((new config).trail ops)).bus.bindings.get? id = some b := by
    rw [show Desk.new config = (new config).desk from rfl, ← desk_run]
    exact hb
  obtain ⟨before, o, after, htrail, hopened, hwithin, b₀, hroom₀, hg⟩ :=
    Desk.exists_grown (Desk.good_new config) hl rfl hafter
  have hfold : ∀ room, b.readRoom = some room → room =
      (((Desk.new config).after (before ++ [.openBinding o])).askedIn id after).foldl grown o.readCapacity := by
    intro room hroom
    obtain ⟨room₀, hroom₀', hgrown⟩ := hg.room room hroom
    obtain rfl := Option.some.inj (hroom₀.symm.trans hroom₀')
    exact hgrown
  have hroom : ∀ {side}, b.readSide = some side → b.readRoom = some side.buffer.capacity := fun hside => by
    rw [readRoom, hside]
    rfl
  refine ⟨?answer, fun side hside => ?held, ?zero, ⟨before, o, after, htrail, hopened, ?fold⟩, fun more => ?later,
    fun most hmost => ?cap⟩
  case answer =>
    rw [stepBinding, hb]
    rfl
  case held =>
    rw [hcapacity, hroom hside]
    rfl
  case zero =>
    cases hside : b.readSide with
    | none => simp [hcapacity, readRoom, hside]
    | some side => simp [hcapacity, readRoom, hside]
  case fold =>
    intro hsome
    obtain ⟨side, hside⟩ := Option.ne_none_iff_exists'.1 hsome
    rw [hcapacity, hroom hside]
    exact hfold _ (hroom hside)
  case later =>
    obtain ⟨b', hb', hgone, hgrown⟩ := readCapacity_later hgood (hconfig.symm ▸ hl) hb more
    exact ⟨b', hb', hgone, fun hsome => hgrown hsome ▸ le_foldl_grown _ _⟩
  case cap =>
    rw [hcapacity]
    cases hside : b.readSide with
    | none => simp [readRoom, hside]
    | some side =>
      rw [hroom hside]
      have hopening : o.readCapacity ≤ roomUnder most :=
        Nat.le_trans (hwithin most hmost) (Nat.le_max_left _ _)
      have hsizes := fun size hsize => hg.within size hsize most hmost
      exact Nat.le_trans (Nat.le_of_eq (hfold _ (hroom hside))) (foldl_grown_le_roomUnder hopening hsizes)

/-- The read that is dropped has asked, and the one behind it asks when it is polled in its turn; the immediate read
that finds the read side taken asks for nothing. -/
example : (new { chunkLimit := some 7000 }).desk.askedIn ⟨6⟩ ((new { chunkLimit := some 7000 }).trail (twoPeers ++
    [.start "b" "first" 9000, .start "b" "second" 6000, .onBinding "b" (.tryRead 5000), .cancel "first",
      .poll "second"])) = [7000, 6000] := by
  decide +kernel

/-- Under a cap of 7000 the read that is dropped leaves more room than the cap. -/
theorem read_capacity_published_dropped :
    let config : Config := { chunkLimit := some 7000 }
    let ops := twoPeers ++ [.start "b" "first" 9000, .start "b" "second" 6000, .onBinding "b" (.tryRead 5000),
      .cancel "first", .poll "second"]
    ∃ b, ((new config).run ops).bus.bindings.get? ⟨6⟩ = some b ∧ b.readCapacity = 8192 ∧
      (((new config).run ops).stepBinding ⟨6⟩ .readCapacity).2 = .count 8192 ∧
      8192 ≤ max 7000 (max 8 (2 * (7000 - 1))) := by
  intro config ops
  obtain ⟨b, hb, hcapacity⟩ := Option.map_eq_some_iff.1
    (show (((new config).run ops).bus.bindings.get? ⟨6⟩).map (·.readCapacity) = some 8192 by decide +kernel)
  obtain ⟨hanswer, -, -, -, -, hcap⟩ := read_capacity_published config (by decide) ops hb
  rw [hcapacity] at hanswer hcap
  exact ⟨b, hb, hcapacity, hanswer, hcap 7000 rfl⟩

end Session
end TopicBus
