import TopicBus.Proofs.Line
/-!
# What every read comes down to

Whatever its form, a read makes a few kinds of moves: it goes to another place in the line, it leaves, it asks for no
bytes and gets them, or it has the read side and fetches (`Binding.Move`).  So a fact about reads of all forms is a fact
about each move, carried along the moves in order (`Binding.Moves`): the inbox only gets shorter (`Moves.dwindles`), and
a closed binding gives no bytes (`Moves.parts_of_closed`).
-/
namespace TopicBus

namespace Binding

/-- One thing that a reader does, with the parts that it takes. -/
inductive Move (limit : Option Nat) : Binding → List Bytes → Binding → Prop
  | line (b : Binding) (line : List ReadName) : Move limit b [] { b with line }
  | left (b : Binding) : Move limit b [] b.releaseIfClosed
  | nothing {b : Binding} : b.isOpen = true → Move limit b [[]] b
  | fetched {b : Binding} {wanted : Nat} {out : Binding × Except Halt Bytes} : 0 < wanted →
      Fetched limit wanted b out → Move limit b (partsOf out.2) out.1

/-- Moves in order. -/
inductive Moves (limit : Option Nat) : Binding → List Bytes → Binding → Prop
  | refl (b : Binding) : Moves limit b [] b
  | more {b b' b'' : Binding} {p q : List Bytes} : Move limit b p b' → Moves limit b' q b'' → Moves limit b (p ++ q) b''

variable {limit : Option Nat} {down : Bool} {b b' b'' : Binding} {p q : List Bytes} {wanted : Nat} {name : ReadName}

theorem Move.moves (h : Move limit b p b') : Moves limit b p b' := by
  have hm := Moves.more h (.refl b')
  rwa [List.append_nil] at hm

theorem Moves.trans (h : Moves limit b p b') (h' : Moves limit b' q b'') : Moves limit b (p ++ q) b'' := by
  induction h with
  | refl => exact h'
  | more hm _ ih =>
    rw [List.append_assoc]
    exact .more hm (ih h')

/-! ## What a move keeps -/

theorem Move.isOpen (h : Move limit b p b') : b'.isOpen = b.isOpen := by
  cases h with
  | line => rfl
  | left => exact releaseIfClosed_isOpen b
  | nothing => rfl
  | fetched _ hf =>
    cases hf with
    | closed | drained => rw [releaseReadSide_eq]
    | released | refused | served | waits => rfl

theorem Move.parts_of_closed (h : Move limit b p b') (hc : b.isOpen = false) : p = [] := by
  have habsurd : b.isOpen = true → p = [] := fun ho => absurd (ho.symm.trans hc) nofun
  cases h with
  | line | left => rfl
  | nothing ho => exact habsurd ho
  | fetched _ hf =>
    cases hf with
    | closed | released | refused | waits | drained => rfl
    | served ho => exact habsurd ho

/-- The inbox that `b'` has is a rest of the one that `b` had. -/
def Dwindles (b b' : Binding) : Prop :=
  ∀ s', b'.readSide = some s' → ∃ s, b.readSide = some s ∧ s'.queue <:+ s.queue

theorem Dwindles.of_readSide (h : b'.readSide = b.readSide) : b.Dwindles b' :=
  fun s' hs' => ⟨s', h ▸ hs', List.suffix_rfl⟩

theorem Dwindles.trans (h : b.Dwindles b') (h' : b'.Dwindles b'') : b.Dwindles b'' := by
  intro s'' hs''
  obtain ⟨s', hs', hsuffix'⟩ := h' s'' hs''
  obtain ⟨s, hs, hsuffix⟩ := h s' hs'
  exact ⟨s, hs, hsuffix'.trans hsuffix⟩

theorem dwindles_releaseReadSide (b : Binding) : b.Dwindles b.releaseReadSide := by
  intro s' hs'
  rw [releaseReadSide_eq] at hs'
  cases hs'

theorem dwindles_releaseIfClosed (b : Binding) : b.Dwindles b.releaseIfClosed := by
  rcases b.releaseIfClosed_cases with he | ⟨-, -, he⟩
  · exact .of_readSide (congrArg readSide he)
  · exact he ▸ dwindles_releaseReadSide b

theorem Move.dwindles (h : Move limit b p b') : b.Dwindles b' := by
  cases h with
  | line | nothing => exact .of_readSide rfl
  | left => exact dwindles_releaseIfClosed b
  | fetched _ hf =>
    cases hf with
    | closed | drained => exact dwindles_releaseReadSide b
    | released | refused => exact .of_readSide rfl
    | served _ hs =>
      intro s' hs'
      cases hs'
      exact ⟨_, hs, List.drop_suffix _ _⟩
    | waits _ hs =>
      intro s' hs'
      cases hs'
      exact ⟨_, hs, List.suffix_rfl⟩

theorem Moves.isOpen (h : Moves limit b p b') : b'.isOpen = b.isOpen := by
  induction h with
  | refl => rfl
  | more hm _ ih => exact ih.trans hm.isOpen

/-- **A closed binding gives no bytes.** -/
theorem Moves.parts_of_closed (h : Moves limit b p b') (hc : b.isOpen = false) : p = [] := by
  induction h with
  | refl => rfl
  | more hm _ ih => rw [hm.parts_of_closed hc, ih (hm.isOpen.trans hc), List.append_nil]

/-- **Reads only shorten the inbox.** -/
theorem Moves.dwindles (h : Moves limit b p b') : b.Dwindles b' := by
  induction h with
  | refl => exact .of_readSide rfl
  | more hm _ ih => exact hm.dwindles.trans ih

/-! ## The moves of each form of read -/

theorem moves_read (hs : b.Sound limit down) (wanted : Nat) :
    Moves limit b (partsOf (b.read limit wanted).2) (b.read limit wanted).1 := by
  have honce : Moves limit b (partsOf (b.readOnce limit wanted).2) (b.readOnce limit wanted).1 := by
    unfold readOnce
    split
    · exact .refl b
    · rename_i ho
      split
      · exact (Move.nothing (by simpa using ho)).moves
      · rename_i hw
        have hw' := clampRead_pos limit (Nat.pos_of_ne_zero hw)
        split
        · exact .refl b
        · exact (Move.fetched hw' (fetched_fetch hs hw')).moves
  have hleft : Moves limit (b.readOnce limit wanted).1 [] (b.read limit wanted).1 := (Move.left _).moves
  have hm := honce.trans hleft
  rwa [List.append_nil] at hm

theorem moves_readAll (hs : b.Sound limit down) (wanted : Nat) :
    Moves limit b (b.readAll limit wanted).parts (b.readAll limit wanted).reader := by
  have hspec := ExactRead.run_spec (fun b wanted => b.read limit wanted) (fun t => t.Sound limit down) (Moves limit)
    (fun _ _ _ => True) (fun t _ => .refl t) Moves.trans
    (fun t n data t' ht hn hr => by
      have hm := moves_read ht n
      have ha := (read_advance ht n).1
      rw [hr] at hm ha
      exact ⟨read_ok_ne_nil ht hn hr, ha.sound, hm⟩)
    (fun t n cause t' ht _ hr => by
      have hm := moves_read ht n
      rw [hr] at hm
      exact ⟨hm, trivial⟩)
    wanted b hs
  exact hspec.1

/-- A read that has fetched leaves or stays. -/
theorem moves_leaveUnlessWaiting {out : Binding × Except Halt Bytes} (name : ReadName) (hw : 0 < wanted)
    (hf : Fetched limit wanted b out) :
    Moves limit b (partsOf (leaveUnlessWaiting name out).2) (leaveUnlessWaiting name out).1 := by
  have hm := (Move.fetched hw hf).moves
  have hleave : ∀ {t : Binding} {p : List Bytes}, Moves limit b p t → Moves limit b p (t.leave name) := fun {t p} ht => by
    have hl := ht.trans ((Move.line t (t.line.erase name)).moves.trans (Move.left _).moves)
    rwa [List.append_nil, List.append_nil] at hl
  obtain ⟨t, (fault | phase) | data⟩ := out
  · exact hleave hm
  · exact hm
  · exact hleave hm

theorem moves_beginRead (hs : b.Sound limit down) (name : ReadName) (wanted : Nat) :
    Moves limit b (partsOf (b.beginRead limit name wanted).2) (b.beginRead limit name wanted).1 := by
  unfold beginRead
  split
  · exact (Move.left b).moves
  · rename_i ho
    split
    · exact (Move.nothing (by simpa using ho)).moves
    · rename_i hw
      have hw' := clampRead_pos limit (Nat.pos_of_ne_zero hw)
      split
      · exact .more (.line b [name]) (moves_leaveUnlessWaiting name hw' (fetched_fetch (sound_line hs [name]) hw'))
      · exact (Move.line b _).moves

theorem moves_resumeRead {phase : Phase} (hs : b.Sound limit down) (name : ReadName) (hw : 0 < wanted)
    (hready : phase = .atInbox → b.Ready limit (clampRead limit wanted)) :
    Moves limit b (partsOf (b.resumeRead limit name phase wanted).2) (b.resumeRead limit name phase wanted).1 := by
  have hw' := clampRead_pos limit hw
  cases phase with
  | inLine =>
    simp only [resumeRead]
    split
    · exact moves_leaveUnlessWaiting name hw' (fetched_fetch hs hw')
    · exact .refl b
  | atInbox => exact moves_leaveUnlessWaiting name hw' (fetched_await hs hw' (hready rfl))

theorem moves_run (hs : b.Sound limit down) (hn : name ∉ b.line) (wanted : Nat) :
    Moves limit b (ExactRead.run (beginRead limit name) b wanted).parts
      (ExactRead.run (beginRead limit name) b wanted).reader :=
  (ExactRead.run_spec (beginRead limit name) (fun t => t.Sound limit down ∧ name ∉ t.line) (Moves limit)
    (fun _ _ _ => True) (fun t _ => .refl t) Moves.trans
    (fun t n data t' ht hn' hr => by
      have hm := moves_beginRead ht.1 name n
      have hturn := turn_beginRead ht.1 (Nat.pos_of_ne_zero hn') ht.2
      rw [hr] at hm hturn
      have hline := hturn.left (fun _ hp => (nomatch hp))
      exact ⟨hturn.data data rfl, ⟨hturn.advance.sound, hline ▸ (List.erase_of_not_mem ht.2).symm ▸ ht.2⟩, hm⟩)
    (fun t n cause t' ht _ hr => by
      have hm := moves_beginRead ht.1 name n
      rw [hr] at hm
      exact ⟨hm, trivial⟩)
    wanted b ⟨hs, hn⟩).1

theorem moves_settleUpTo {out : Binding × Except Halt Bytes} (h : Moves limit b (partsOf out.2) out.1) :
    Moves limit b (settleUpTo wanted out).parts (settleUpTo wanted out).binding := by
  obtain ⟨t, (fault | phase) | data⟩ := out <;> exact h

theorem moves_poll {read : SuspendedRead} (hs : b.Sound limit down) (hnd : b.line.Nodup) (hmem : name ∈ b.line)
    (hw : 0 < read.wanted)
    (hready : read.phase = .atInbox → b.line.head? = some name ∧ b.Ready limit (clampRead limit read.wanted)) :
    Moves limit b (b.poll limit name read).parts (b.poll limit name read).binding := by
  have hm := moves_resumeRead hs name hw (fun hp => (hready hp).2)
  have hturn := turn_resumeRead hs hw hmem hready
  unfold poll
  cases read.goal with
  | upTo => exact moves_settleUpTo hm
  | exactly gathered =>
    rcases hout : b.resumeRead limit name read.phase read.wanted with ⟨t, cause | _ | ⟨x, xs⟩⟩
    · rw [hout] at hm
      exact hm
    · rw [hout] at hturn
      exact absurd rfl (hturn.data [] rfl)
    · rw [hout] at hm hturn
      have hline : t.line = b.line.erase name := hturn.left (fun _ hp => (nomatch hp))
      exact hm.trans (moves_run hturn.advance.sound (hline ▸ hnd.not_mem_erase) _)

end Binding

/-! ## The acts that read -/

/-- Whether an act is a read of some form. -/
def Act.reads : Act → Bool
  | .read _ _ | .tryRead _ _ | .readAll _ _ | .start _ _ _ | .startAll _ _ _ | .poll _ => true
  | _ => false

namespace Desk

variable {d : Desk} {id : BindingId} {b : Binding} {act : Act}

theorem Good.polled_moves (h : d.Good) {name : ReadName} {p : Polled} (hp : d.polled? act = some (name, id, p)) :
    ∃ b, d.bus.bindings.get? id = some b ∧ b.Moves d.bus.config.chunkLimit p.parts p.binding := by
  obtain ⟨b, hb, hpolling⟩ := h.polling hp
  have hs := h.sound id b hb
  refine ⟨b, hb, ?_⟩
  cases hpolling with
  | start _ => exact Binding.moves_settleUpTo (Binding.moves_beginRead hs _ _)
  | startAll hn => exact Binding.moves_run hs hn _
  | poll _ hmem hw hready => exact Binding.moves_poll hs (h.nodup id b hb) hmem hw hready

/-- What moves of the binding `id'` are to the binding `id`: moves, or nothing. -/
theorem moves_insert {id' : BindingId} {b₁ b₁' : Binding} {parts : List Bytes}
    (hb : d.bus.bindings.get? id = some b) (hb₁ : d.bus.bindings.get? id' = some b₁)
    (hm : b₁.Moves d.bus.config.chunkLimit parts b₁') :
    ∃ parts' b', (d.bus.bindings.insert id' b₁').get? id = some b' ∧ b.Moves d.bus.config.chunkLimit parts' b' ∧
      takenFrom id (parts.map (.took id')) = parts'.flatten := by
  by_cases hid : id = id'
  · subst hid
    obtain rfl := Option.some.inj (hb.symm.trans hb₁)
    exact ⟨parts, b₁', Table.get?_insert_self .., hm, takenFrom_took id parts⟩
  · refine ⟨[], b, (Table.get?_insert_of_ne _ hid _).trans hb, .refl b, ?_⟩
    exact takenFrom_of_others (fun e he => by rw [Binding.binding?_took he]; simpa using Ne.symm hid)

theorem moves_onBinding {α : Type} {id' : BindingId} {absent : α} {f : Binding → Binding × α}
    (hb : d.bus.bindings.get? id = some b) (hread : ∀ b, d.bus.bindings.get? id' = some b →
      ∃ parts, d.events act = parts.map (.took id') ∧ b.Moves d.bus.config.chunkLimit parts (f b).1)
    (hnone : d.bus.bindings.get? id' = none → d.events act = []) :
    ∃ parts b', (d.bus.onBinding id' absent f).1.bindings.get? id = some b' ∧
      b.Moves d.bus.config.chunkLimit parts b' ∧ takenFrom id (d.events act) = parts.flatten := by
  unfold Bus.onBinding
  cases hb₁ : d.bus.bindings.get? id' with
  | none => exact ⟨[], b, hb, .refl b, by rw [hnone hb₁]; rfl⟩
  | some b₁ =>
    obtain ⟨parts, hevents, hm⟩ := hread b₁ hb₁
    rw [hevents]
    exact moves_insert hb hb₁ hm

theorem moves_advance (h : d.Good) (hb : d.bus.bindings.get? id = some b) :
    ∃ parts b', (d.advance (d.polled? act)).bus.bindings.get? id = some b' ∧
      b.Moves d.bus.config.chunkLimit parts b' ∧ takenFrom id (tookOf (d.polled? act)) = parts.flatten := by
  rcases hp : d.polled? act with _ | ⟨name, id', p⟩
  · exact ⟨[], b, hb, .refl b, rfl⟩
  · obtain ⟨b₁, hb₁, hm⟩ := h.polled_moves hp
    exact moves_insert hb hb₁ hm

/-- **Every act that reads makes moves** and takes their parts. -/
theorem moves_apply (h : d.Good) (hb : d.bus.bindings.get? id = some b) (hr : act.reads = true) :
    ∃ parts b', (d.apply act).bus.bindings.get? id = some b' ∧ b.Moves d.bus.config.chunkLimit parts b' ∧
      takenFrom id (d.events act) = parts.flatten := by
  cases act with
  | read id' wanted =>
    refine moves_onBinding hb (fun b hb' => ⟨_, ?_, Binding.moves_read (h.sound id' b hb') wanted⟩) (fun hn => ?_)
    · simp only [events, Bus.read, Bus.onBinding, hb']
      cases (b.read d.bus.config.chunkLimit wanted).2 <;> rfl
    · simp only [events, Bus.read, Bus.onBinding, hn]
  | tryRead id' wanted =>
    refine moves_onBinding hb (fun b hb' => ⟨Binding.partsOf (b.read d.bus.config.chunkLimit wanted).2, ?_, ?_⟩)
      (fun hn => ?_)
    · simp only [events, Bus.tryRead, Bus.onBinding, hb', Binding.tryRead]
      rcases b.read d.bus.config.chunkLimit wanted with ⟨b', (fault | phase) | data⟩ <;> rfl
    · rw [tryRead_fst]
      exact Binding.moves_read (h.sound id' b hb') wanted
    · simp only [events, Bus.tryRead, Bus.onBinding, hn]
  | readAll id' wanted =>
    refine moves_onBinding hb (fun b hb' => ⟨_, ?_, Binding.moves_readAll (h.sound id' b hb') wanted⟩) (fun hn => ?_)
    · simp only [events, hb']
    · simp only [events, hn]
  | start _ _ _ | startAll _ _ _ | poll _ => exact moves_advance h hb
  | _ => cases hr

/-! ## The acts that do not read -/

/-- Only reads take anything. -/
theorem takenFrom_of_not_reads (hr : act.reads = false) (id : BindingId) : takenFrom id (d.events act) = [] := by
  cases act with
  | read _ _ | tryRead _ _ | readAll _ _ | start _ _ _ | startAll _ _ _ | poll _ => cases hr
  | create _ | destroy _ | shutdown | cancel _ => rfl
  | openBinding _ | close _ | write _ _ =>
    simp only [events]
    split <;> rfl

/-- A read sends nothing. -/
theorem sentTo_of_reads (hreads : act.reads = true) (id : BindingId) (topic : Topic) (kind : Kind) :
    sentTo id topic kind (d.events act) = [] := by
  refine sentTo_of_binding (fun e he hnone => ?_)
  cases leaves_of_mem_events he with
  | wrote => cases hreads
  | opened | closed | took => cases hnone

/-- What an act that does not read makes of the binding `id`. -/
inductive Aside (id : BindingId) (b : Binding) : Act → Binding → Prop
  | same (act : Act) : Aside id b act b
  | ended : Aside id b .shutdown b.disconnect
  | closed : b.isOpen = true → Aside id b (.close id) b.shut
  /-- Nothing that is written gets to a closed binding. -/
  | passed {i : BindingId} {data : Bytes} {received : Bool} {b' : Binding} : b.Passed received data b' →
      (b.isOpen = false → b' = b) → Aside id b (.write i data) b'
  | cancelled (name : ReadName) : Aside id b (.cancel name) (b.cancel name)

/-- **Every act that does not read** leaves a binding as it is, or does to it what the act is there for. -/
theorem aside_apply (h : d.Good) (hb : d.bus.bindings.get? id = some b) (hr : act.reads = false) :
    ∃ b', (d.apply act).bus.bindings.get? id = some b' ∧ Aside id b act b' := by
  cases act with
  | read _ _ | tryRead _ _ | readAll _ _ | start _ _ _ | startAll _ _ _ | poll _ => cases hr
  | create _ | destroy _ => exact ⟨b, hb, .same _⟩
  | shutdown => exact ⟨b.disconnect, by simp only [apply, Bus.shutdown, Table.get?_mapValues, hb, Option.map_some], .ended⟩
  | openBinding o =>
    have hout := Bus.opened_openBinding d.bus o
    simp only [apply]
    generalize d.bus.openBinding o = result at hout ⊢
    cases hout with
    | refused _ => exact ⟨b, hb, .same _⟩
    | opened _ _ ha =>
      obtain ⟨_, _, -, -, -, rfl, -, -⟩ := Registry.acquire_eq_ok ha
      have hid : id ≠ ⟨d.bus.registry.nextKey⟩ := fun he => by
        rw [he, h.agrees.get?_opened_next] at hb
        cases hb
      exact ⟨b, (Table.get?_insert_of_ne _ hid _).trans hb, .same _⟩
  | close i =>
    simp only [apply]
    rcases Bus.close_cases d.bus i with ⟨-, he⟩ | ⟨b₁, hb₁, ho, he⟩
    · rw [he]
      exact ⟨b, hb, .same _⟩
    · rw [he]
      refine Table.exists_get?_insert hb (.same _) (fun hid => ?_)
      subst hid
      obtain rfl := Option.some.inj (hb.symm.trans hb₁)
      exact .closed ho
  | write i data =>
    obtain ⟨_, hsome, -⟩ := Bus.write_passed d.bus i data
    obtain ⟨b', hb', hp⟩ := hsome id b hb
    refine ⟨b', hb', .passed hp (fun hc => ?_)⟩
    exact Option.some.inj (hb'.symm.trans (h.agrees.get?_write_of_closed hb hc))
  | cancel name =>
    simp only [apply, cancel]
    cases hreader : d.reads.get? name with
    | none => exact ⟨b, hb, .same _⟩
    | some reader =>
      simp only [Bus.onBinding]
      cases hb₁ : d.bus.bindings.get? reader.binding with
      | none => exact ⟨b, hb, .same _⟩
      | some b₁ =>
        refine Table.exists_get?_insert hb (.same _) (fun hid => ?_)
        subst hid
        obtain rfl := Option.some.inj (hb.symm.trans hb₁)
        exact .cancelled name

end Desk
end TopicBus
