import TopicBus.Proofs.Deeds
/-!
# How the line of a binding moves

An act is about one suspended read at most (`Act.read?`), and that is the only read whose place in a line it changes:
`Desk.Shift` has the three things that an act can do to the line of a binding, and `Desk.shift_apply` says that it does
one of them.  So those that an act is not about keep their order (`Shift.sublist`), and a read that holds the read side
of its binding finds it as it was, apart from chunks that have come (`Shift.holder`).

A read that a poll leaves waiting is at the inbox exactly if it is the first in the line (`Stands`).
-/
namespace TopicBus

/-- The suspended read that an act is about. -/
def Act.read? : Act → Option ReadName
  | .start name _ _ | .startAll name _ _ | .poll name | .cancel name => some name
  | _ => none

/-- Chunks may have come, and nothing was taken. -/
structure ReadSide.Unread (s s' : ReadSide) : Prop where
  buffer : s'.buffer = s.buffer
  pending : s'.pending = s.pending
  queue : s.queue <+: s'.queue

namespace Binding

/-- The read side is still there, and nobody read from it. -/
def Unread (b b' : Binding) : Prop := ∀ s, b.readSide = some s → ∃ s', b'.readSide = some s' ∧ s.Unread s'

variable {b b' b'' : Binding}

theorem Unread.of_readSide (h : b'.readSide = b.readSide) : b.Unread b' :=
  fun s hs => ⟨s, h.trans hs, rfl, rfl, List.prefix_rfl⟩

theorem Unread.trans (h : b.Unread b') (h' : b'.Unread b'') : b.Unread b'' := fun s hs => by
  obtain ⟨s', hs', hb, hp, hq⟩ := h s hs
  obtain ⟨s'', hs'', hb', hp', hq'⟩ := h' s' hs'
  exact ⟨s'', hs'', hb'.trans hb, hp'.trans hp, hq.trans hq'⟩

theorem unread_disconnect (b : Binding) : b.Unread b.disconnect := fun s hs =>
  ⟨s.disconnect, by rw [disconnect, hs]; rfl, rfl, rfl, List.prefix_rfl⟩

theorem unread_shut (hl : b.line ≠ []) : b.Unread b.shut := fun s hs => by
  rw [shut_eq, releaseIfClosed_of_line (by exact hl)]
  exact ⟨s.disconnect, by rw [hs]; rfl, rfl, rfl, List.prefix_rfl⟩

theorem Passed.unread {received : Bool} {data : Bytes} (h : b.Passed received data b') : b.Unread b' := fun s hs => by
  cases received with
  | false => exact ⟨s, by rw [h.readSide]; exact hs, rfl, rfl, List.prefix_rfl⟩
  | true => exact ⟨s.enqueue data, by rw [h.readSide, hs]; rfl, rfl, rfl, List.prefix_append _ _⟩

/-! ## A poll that leaves a read waiting -/

/-- A read that has to wait does so at the inbox exactly if it is first in the line. -/
structure Stands (name : ReadName) (b : Binding) (phase : Phase) : Prop where
  head : phase = .atInbox ↔ b.line.head? = some name
  side : phase = .atInbox → ∃ s, b.readSide = some s

variable {limit : Option Nat} {down : Bool} {wanted : Nat} {name : ReadName} {phase : Phase}

theorem Fetched.stands (h : Fetched limit wanted b (b', .error (.waits phase))) (hhead : b.line.head? = some name) :
    b'.Stands name phase := by
  cases h with
  | waits => exact ⟨iff_of_true rfl hhead, fun _ => ⟨_, rfl⟩⟩

/-- A read that only takes its place in the line. -/
theorem stands_inLine (h : b.line.head? ≠ some name) : b.Stands name .inLine :=
  ⟨iff_of_false nofun h, nofun⟩

theorem eq_of_leaveUnlessWaiting {out : Binding × Except Halt Bytes}
    (h : leaveUnlessWaiting name out = (b', .error (.waits phase))) : out = (b', .error (.waits phase)) := by
  obtain ⟨b₁, (fault | p) | data⟩ := out
  · cases h
  · exact h
  · cases h

theorem stands_beginRead (hs : b.Sound limit down) (hw : wanted ≠ 0) (hn : name ∉ b.line)
    (h : b.beginRead limit name wanted = (b', .error (.waits phase))) : b'.Stands name phase := by
  unfold beginRead at h
  split at h
  · cases h
  split at h
  · have hf := fetched_fetch (sound_line hs [name]) (clampRead_pos limit (Nat.pos_of_ne_zero hw))
    rw [eq_of_leaveUnlessWaiting h] at hf
    exact hf.stands rfl
  · rename_i hne
    cases h
    refine stands_inLine (fun hhead => hn ?_)
    rw [List.head?_append_of_ne_nil _ (by simpa using hne)] at hhead
    exact List.mem_of_mem_head? hhead

theorem stands_resumeRead {before : Phase} (hs : b.Sound limit down) (hw : 0 < wanted)
    (hready : before = .atInbox → b.line.head? = some name ∧ b.Ready limit (clampRead limit wanted))
    (h : b.resumeRead limit name before wanted = (b', .error (.waits phase))) : b'.Stands name phase := by
  have hw' := clampRead_pos limit hw
  unfold resumeRead at h
  cases before with
  | inLine =>
    simp only at h
    split at h
    · rename_i hhead
      have hf := fetched_fetch hs hw'
      rw [eq_of_leaveUnlessWaiting h] at hf
      exact hf.stands hhead
    · rename_i hhead
      cases h
      exact stands_inLine hhead
  | atInbox =>
    obtain ⟨hhead, hr⟩ := hready rfl
    have hf := fetched_await hs hw' hr
    rw [eq_of_leaveUnlessWaiting h] at hf
    exact hf.stands hhead

/-- A read that an exact read stopped at, after others that gave bytes, is a read of its own. -/
theorem stands_run (hs : b.Sound limit down) (hn : name ∉ b.line)
    (h : (ExactRead.run (beginRead limit name) b wanted).ending = .stopped (.waits phase)) :
    (ExactRead.run (beginRead limit name) b wanted).reader.Stands name phase := by
  have hspec := ExactRead.run_spec (beginRead limit name) (fun t => t.Sound limit down ∧ name ∉ t.line)
    (fun _ _ _ => True) (fun _ t halt => ∀ phase, halt = .waits phase → t.Stands name phase)
    (fun _ _ => trivial) (fun _ _ => trivial)
    (fun t n data t' ht hn' hr => by
      have hturn := turn_beginRead ht.1 (Nat.pos_of_ne_zero hn') ht.2
      rw [hr] at hturn
      refine ⟨hturn.data data rfl, ⟨hturn.advance.sound, ?_⟩, trivial⟩
      rw [hturn.left (fun _ hp => (nomatch hp)), List.erase_of_not_mem ht.2]
      exact ht.2)
    (fun t n halt t' ht hn' hr => by
      refine ⟨trivial, fun phase hp => ?_⟩
      rw [hp] at hr
      exact stands_beginRead ht.1 hn' ht.2 hr)
    wanted b ⟨hs, hn⟩
  have hend := hspec.2
  rw [h] at hend
  exact hend phase rfl

theorem stands_settleUpTo {out : Binding × Except Halt Bytes} {r : SuspendedRead}
    (h : ∀ b' phase, out = (b', .error (.waits phase)) → b'.Stands name phase)
    (hr : (settleUpTo wanted out).progress = .pending r) : (settleUpTo wanted out).binding.Stands name r.phase := by
  obtain ⟨b', (fault | phase) | data⟩ := out
  · cases hr
  · cases hr
    exact h b' phase rfl
  · cases hr

theorem stands_settleExact {gathered : Bytes} {out : ExactRead.Outcome Binding Halt} {r : SuspendedRead}
    (h : ∀ phase, out.ending = .stopped (.waits phase) → out.reader.Stands name phase)
    (hr : (settleExact gathered wanted out).progress = .pending r) :
    (settleExact gathered wanted out).binding.Stands name r.phase := by
  obtain ⟨b', parts, _ | _ | fault | phase⟩ := out
  · cases hr
  · cases hr
  · cases hr
  · cases hr
    exact h phase rfl

theorem stands_startUpTo (hs : b.Sound limit down) (hn : name ∉ b.line) {r : SuspendedRead}
    (hr : (b.startUpTo limit name wanted).progress = .pending r) :
    (b.startUpTo limit name wanted).binding.Stands name r.phase := by
  refine stands_settleUpTo (fun b' phase hb => stands_beginRead hs (fun hw => ?_) hn hb) hr
  subst hw
  unfold beginRead at hb
  split at hb
  · cases hb
  · cases hb

theorem stands_poll (hs : b.Sound limit down) (hnd : b.line.Nodup) (hmem : name ∈ b.line) {read r : SuspendedRead}
    (hw : 0 < read.wanted)
    (hready : read.phase = .atInbox → b.line.head? = some name ∧ b.Ready limit (clampRead limit read.wanted))
    (hr : (b.poll limit name read).progress = .pending r) : (b.poll limit name read).binding.Stands name r.phase := by
  have hstands : ∀ b' phase, b.resumeRead limit name read.phase read.wanted = (b', .error (.waits phase)) →
      b'.Stands name phase := fun _ _ => stands_resumeRead hs hw hready
  have hturn := turn_resumeRead hs hw hmem hready
  unfold poll at hr ⊢
  cases hgoal : read.goal with
  | upTo =>
    rw [hgoal] at hr
    exact stands_settleUpTo hstands hr
  | exactly gathered =>
    rw [hgoal] at hr
    refine stands_settleExact (fun phase hend => ?_) hr
    rcases hout : b.resumeRead limit name read.phase read.wanted with ⟨t, cause | _ | ⟨x, xs⟩⟩
    · rw [hout] at hend
      exact hstands t phase (by rw [hout]; exact congrArg _ (congrArg _ (ExactRead.Ending.stopped.inj hend)))
    · rw [hout] at hend
      cases hend
    · rw [hout] at hturn hend
      have hline : t.line = b.line.erase name := hturn.left (fun _ hp => (nomatch hp))
      exact stands_run hturn.advance.sound (hline ▸ hnd.not_mem_erase) hend

end Binding

/-! ## One act -/

namespace Desk

variable {d : Desk} {id : BindingId} {b b' : Binding} {act : Act} {name : ReadName}

theorem polled?_name {id : BindingId} {p : Polled} (h : d.polled? act = some (name, id, p)) :
    act.read? = some name := by
  cases act with
  | start n i w =>
    simp only [polled?, Option.ite_none_left_eq_some, Option.map_eq_some_iff, Prod.mk.injEq] at h
    obtain ⟨-, _, -, rfl, -⟩ := h
    rfl
  | startAll n i w =>
    simp only [polled?, Option.ite_none_left_eq_some, Option.map_eq_some_iff, Prod.mk.injEq] at h
    obtain ⟨-, _, -, rfl, -⟩ := h
    rfl
  | poll n =>
    simp only [polled?, Option.bind_eq_some_iff, Option.map_eq_some_iff, Prod.mk.injEq] at h
    obtain ⟨_, -, _, -, rfl, -⟩ := h
    rfl
  | _ => cases h

/-- A poll by an act, of a read that is just begun or that stands in the line. -/
inductive Polling (d : Desk) (b : Binding) : Act → ReadName → Polled → Prop
  | start {name : ReadName} {id : BindingId} {wanted : Nat} : name ∉ b.line →
      Polling d b (.start name id wanted) name (b.startUpTo d.bus.config.chunkLimit name wanted)
  | startAll {name : ReadName} {id : BindingId} {wanted : Nat} : name ∉ b.line →
      Polling d b (.startAll name id wanted) name (b.startExact d.bus.config.chunkLimit name wanted)
  | poll {name : ReadName} {r : Reader} : d.reads.get? name = some r → name ∈ b.line → 0 < r.read.wanted →
      (r.read.phase = .atInbox → b.line.head? = some name ∧
        b.Ready d.bus.config.chunkLimit (clampRead d.bus.config.chunkLimit r.read.wanted)) →
      Polling d b (.poll name) name (b.poll d.bus.config.chunkLimit name r.read)

theorem Good.polling (h : d.Good) {p : Polled} (hp : d.polled? act = some (name, id, p)) :
    ∃ b, d.bus.bindings.get? id = some b ∧ Polling d b act name p := by
  have hfree : ∀ {n : ReadName} {i : BindingId} {b : Binding}, ¬ (d.reads.get? n).isSome = true →
      d.bus.bindings.get? i = some b → n ∉ b.line := fun hn hb hm => by
    obtain ⟨r, hr, -⟩ := (h.line _ _ hb _).1 hm
    exact hn (by rw [hr]; rfl)
  cases act with
  | start n i w =>
    simp only [polled?, Option.ite_none_left_eq_some, Option.map_eq_some_iff, Prod.mk.injEq] at hp
    obtain ⟨hn, b, hb, rfl, rfl, rfl⟩ := hp
    exact ⟨b, hb, .start (hfree hn hb)⟩
  | startAll n i w =>
    simp only [polled?, Option.ite_none_left_eq_some, Option.map_eq_some_iff, Prod.mk.injEq] at hp
    obtain ⟨hn, b, hb, rfl, rfl, rfl⟩ := hp
    exact ⟨b, hb, .startAll (hfree hn hb)⟩
  | poll n =>
    simp only [polled?, Option.bind_eq_some_iff, Option.map_eq_some_iff, Prod.mk.injEq] at hp
    obtain ⟨r, hr, b, hb, rfl, rfl, rfl⟩ := hp
    obtain ⟨hw, b', hb', hphase⟩ := h.reads n r hr
    obtain rfl := Option.some.inj (hb.symm.trans hb')
    exact ⟨b, hb, .poll hr ((h.line _ b hb n).2 ⟨r, hr, rfl⟩) hw hphase⟩
  | _ => cases hp

/-- **A read that a poll leaves waiting** is at the inbox exactly if it is the first in the line. -/
theorem Good.stands (h : d.Good) {p : Polled} (hp : d.polled? act = some (name, id, p)) {r : SuspendedRead}
    (hr : p.progress = .pending r) : p.binding.Stands name r.phase := by
  obtain ⟨b, hb, hpolling⟩ := h.polling hp
  have hs := h.sound id b hb
  cases hpolling with
  | start hn => exact Binding.stands_startUpTo hs hn hr
  | startAll hn => exact Binding.stands_settleExact (fun _ => Binding.stands_run hs hn) hr
  | poll _ hmem hw hready => exact Binding.stands_poll hs (h.nodup id b hb) hmem hw hready hr

/-- What an act makes of the line of the binding `id`. -/
inductive Shift (d : Desk) (id : BindingId) (b : Binding) : Act → Binding → Prop
  /-- It is about no read of the binding, and takes nothing from under a read that holds the read side. -/
  | apart {act : Act} {b' : Binding} : b'.line = b.line → (b.line ≠ [] → b.Unread b') → Shift d id b act b'
  | polled {act : Act} {name : ReadName} {p : Polled} : d.polled? act = some (name, id, p) →
      b.Poll d.bus.config.chunkLimit d.bus.isShutDown name p → Shift d id b act p.binding
  | cancelled {name : ReadName} : Shift d id b (.cancel name) (b.cancel name)

theorem Shift.same {act : Act} : Shift d id b act b := .apart rfl (fun _ => .of_readSide rfl)

theorem shift_onBinding {α : Type} {id' : BindingId} {absent : α} {f : Binding → Binding × α}
    (hb : d.bus.bindings.get? id = some b) (hl : (f b).1.line = b.line) (hf : b.line ≠ [] → (f b).1 = b) :
    ∃ b', (d.bus.onBinding id' absent f).1.bindings.get? id = some b' ∧ Shift d id b act b' := by
  unfold Bus.onBinding
  by_cases hid : id = id'
  · subst hid
    rw [hb]
    exact ⟨_, Table.get?_insert_self .., .apart hl (fun hne => by rw [hf hne]; exact .of_readSide rfl)⟩
  · split
    · exact ⟨b, hb, .same⟩
    · exact ⟨b, (Table.get?_insert_of_ne _ hid _).trans hb, .same⟩

theorem shift_advance (h : d.Good) (hb : d.bus.bindings.get? id = some b) :
    ∃ b', (d.advance (d.polled? act)).bus.bindings.get? id = some b' ∧ Shift d id b act b' := by
  rcases hp : d.polled? act with _ | ⟨name, id', p⟩
  · exact ⟨b, hb, .same⟩
  · obtain ⟨b₁, hb₁, -, hpoll⟩ := h.polled hp
    refine Table.exists_get?_insert hb .same (fun hid => ?_)
    subst hid
    obtain rfl := Option.some.inj (hb.symm.trans hb₁)
    exact .polled hp hpoll

/-- **What an act does to a line.** -/
theorem shift_apply (h : d.Good) (hb : d.bus.bindings.get? id = some b) (act : Act) :
    ∃ b', (d.apply act).bus.bindings.get? id = some b' ∧ Shift d id b act b' := by
  have hsound := h.sound id b hb
  cases act with
  | create what => exact ⟨b, hb, .same⟩
  | destroy object => exact ⟨b, hb, .same⟩
  | shutdown =>
    refine ⟨b.disconnect, ?_, .apart rfl (fun _ => b.unread_disconnect)⟩
    simp only [apply, Bus.shutdown, Table.get?_mapValues, hb, Option.map_some]
  | openBinding options =>
    have hout := Bus.opened_openBinding d.bus options
    simp only [apply]
    generalize d.bus.openBinding options = result at hout ⊢
    cases hout with
    | refused fault => exact ⟨b, hb, .same⟩
    | opened _ _ ha =>
      obtain ⟨_, _, -, -, -, rfl, -, -⟩ := Registry.acquire_eq_ok ha
      -- the new binding has an id that no binding had before
      have hid : id ≠ ⟨d.bus.registry.nextKey⟩ := fun he => by
        rw [he, h.agrees.get?_opened_next] at hb
        cases hb
      exact ⟨b, (Table.get?_insert_of_ne _ hid _).trans hb, .same⟩
  | close id' =>
    simp only [apply]
    rcases Bus.close_cases d.bus id' with ⟨-, he⟩ | ⟨b₁, hb₁, -, he⟩
    · rw [he]
      exact ⟨b, hb, .same⟩
    · rw [he]
      refine Table.exists_get?_insert hb .same (fun hid => ?_)
      subst hid
      obtain rfl := Option.some.inj (hb.symm.trans hb₁)
      exact .apart b.shut_line Binding.unread_shut
  | write id' data =>
    obtain ⟨receivers, hsome, -⟩ := Bus.write_passed d.bus id' data
    obtain ⟨b', hb', hp⟩ := hsome id b hb
    exact ⟨b', hb', .apart hp.line (fun _ => hp.unread)⟩
  | read id' wanted =>
    exact shift_onBinding hb (Binding.read_advance hsound wanted).2 (Binding.read_of_line _ wanted)
  | tryRead id' wanted =>
    refine shift_onBinding hb ?_ (fun hne => ?_)
    · rw [tryRead_fst]
      exact (Binding.read_advance hsound wanted).2
    · rw [tryRead_fst]
      exact Binding.read_of_line _ wanted hne
  | readAll id' wanted =>
    obtain ⟨-, hl, hsame⟩ := Binding.readAll_advance hsound wanted
    exact shift_onBinding hb hl hsame
  | start name id' wanted => exact shift_advance h hb
  | startAll name id' wanted => exact shift_advance h hb
  | poll name => exact shift_advance h hb
  | cancel name =>
    simp only [apply, cancel]
    split
    · exact ⟨b, hb, .same⟩
    · rename_i reader _
      unfold Bus.onBinding
      by_cases hid : id = reader.binding
      · rw [← hid, hb]
        exact ⟨b.cancel name, Table.get?_insert_self .., .cancelled⟩
      · split
        · exact ⟨b, hb, .same⟩
        · exact ⟨b, (Table.get?_insert_of_ne _ hid _).trans hb, .same⟩

/-- **The read that holds the read side** keeps it while acts are about others, and nothing is taken from under it. -/
theorem Shift.holder (h : Shift d id b act b') (hnd : b.line.Nodup) (hhead : b.line.head? = some name)
    (hr : act.read? ≠ some name) : b'.line.head? = some name ∧ b.Unread b' := by
  have hne : b.line ≠ [] := fun he => by
    rw [he] at hhead
    cases hhead
  cases h with
  | apart hl hu => exact ⟨hl ▸ hhead, hu hne⟩
  | @polled _ n p hp hpoll =>
    have hn : name ≠ n := fun he => hr (he ▸ polled?_name hp)
    refine ⟨?_, .of_readSide (hpoll.others name hhead hn)⟩
    cases hprog : p.progress with
    | ready result =>
      rw [hpoll.ready result hprog]
      exact Binding.head?_erase hhead hn
    | pending read => exact (hpoll.pending_line hprog hnd).2.2 name hhead hn
  | cancelled => exact ⟨Binding.head?_erase hhead (fun he => hr (congrArg some he.symm)), .of_readSide rfl⟩

/-- **Reads that an act is not about** keep their order. -/
theorem Shift.sublist {names : List ReadName} (h : Shift d id b act b') (hs : names.Sublist b.line)
    (hr : ∀ n ∈ names, act.read? ≠ some n) : names.Sublist b'.line := by
  have herase : ∀ n, act.read? = some n → names.Sublist (b.line.erase n) := fun n hn => by
    have hsub := hs.erase n
    rwa [List.erase_of_not_mem (fun hm => hr n hm hn)] at hsub
  cases h with
  | apart hl _ => exact hl ▸ hs
  | @polled _ n p hp hpoll =>
    have hn := polled?_name hp
    cases hprog : p.progress with
    | ready result => exact hpoll.ready result hprog ▸ herase n hn
    | pending read =>
      rcases (hpoll.pending read hprog).2.1 with hl | hl
      · rw [hl, Binding.joined]
        split
        · exact hs
        · exact hs.trans (List.sublist_append_left _ _)
      · exact hl ▸ (herase n hn).trans (List.sublist_append_left _ _)
  | cancelled => exact herase _ rfl

/-- A read is left as it is by the acts about others. -/
theorem get?_reads_apply (hr : act.read? ≠ some name) : (d.apply act).reads.get? name = d.reads.get? name := by
  have hadvance : ∀ n, act.read? = some n → (d.advance (d.polled? act)).reads.get? name = d.reads.get? name :=
    fun n hn => by
      rcases hp : d.polled? act with _ | ⟨n', id, p⟩
      · rfl
      · have hne : name ≠ n' := fun he => hr (he ▸ polled?_name hp)
        simp only [advance, keep]
        split
        · exact Table.get?_erase_of_ne _ hne
        · exact Table.get?_insert_of_ne _ hne _
  cases act with
  | start n id wanted => exact hadvance n rfl
  | startAll n id wanted => exact hadvance n rfl
  | poll n => exact hadvance n rfl
  | cancel n =>
    simp only [apply, cancel]
    split
    · rfl
    · exact Table.get?_erase_of_ne _ (fun he => hr (congrArg some he.symm))
  | _ => rfl

/-! ## Acts in order -/

theorem get?_reads_after {acts : List Act} (hr : ∀ act ∈ acts, act.read? ≠ some name) :
    (d.after acts).reads.get? name = d.reads.get? name := by
  induction acts generalizing d with
  | nil => rfl
  | cons act acts ih =>
    rw [after_cons, ih (fun a ha => hr a (List.mem_cons_of_mem _ ha))]
    exact get?_reads_apply (hr act List.mem_cons_self)

theorem holder_after (h : d.Good) (hb : d.bus.bindings.get? id = some b) (hhead : b.line.head? = some name)
    {acts : List Act} (hr : ∀ act ∈ acts, act.read? ≠ some name) :
    ∃ b', (d.after acts).bus.bindings.get? id = some b' ∧ b'.line.head? = some name ∧ b.Unread b' := by
  induction acts generalizing d b with
  | nil => exact ⟨b, hb, hhead, .of_readSide rfl⟩
  | cons act acts ih =>
    obtain ⟨b₁, hb₁, hshift⟩ := shift_apply h hb act
    obtain ⟨hhead₁, hu₁⟩ := hshift.holder (h.nodup id b hb) hhead (hr act List.mem_cons_self)
    obtain ⟨b₂, hb₂, hhead₂, hu₂⟩ :=
      ih (good_apply h act) hb₁ hhead₁ (fun a ha => hr a (List.mem_cons_of_mem _ ha))
    exact ⟨b₂, hb₂, hhead₂, hu₁.trans hu₂⟩

theorem sublist_after (h : d.Good) (hb : d.bus.bindings.get? id = some b) {names : List ReadName}
    (hs : names.Sublist b.line) {acts : List Act} (hr : ∀ act ∈ acts, ∀ n ∈ names, act.read? ≠ some n) :
    ∃ b', (d.after acts).bus.bindings.get? id = some b' ∧ names.Sublist b'.line := by
  induction acts generalizing d b with
  | nil => exact ⟨b, hb, hs⟩
  | cons act acts ih =>
    obtain ⟨b₁, hb₁, hshift⟩ := shift_apply h hb act
    exact ih (good_apply h act) hb₁ (hshift.sublist hs (hr act List.mem_cons_self))
      (fun a ha => hr a (List.mem_cons_of_mem _ ha))

end Desk

/-! ## The acts of an operation -/

namespace Session

variable {s : Session} {act : Act} {name : ReadName} {id : BindingId}

theorem good_step (h : s.desk.Good) (op : Op) : (s.step op).1.desk.Good := by
  rw [desk_step]
  exact Desk.good_after h _

theorem good_later (h : s.desk.Good) (ops : List Op) : (s.run ops).desk.Good := by
  rw [desk_run]
  exact Desk.good_after h _

theorem good_cancel (h : s.desk.Good) (name : ReadName) : (s.cancel name).desk.Good := by
  rw [desk_cancel]
  exact Desk.good_after h _

/-- No read of a name is left when it has been dropped. -/
theorem get?_reads_step_cancel (s : Session) (name : String) : (s.step (.cancel name)).1.reads.get? name = none := by
  simp only [step, named]
  cases hr : s.reads.get? name with
  | none => exact hr
  | some r => exact get?_reads_cancel s name

/-- A poll of a suspended read. -/
theorem step_poll {r : Reader} {b : Binding} (hr : s.reads.get? name = some r)
    (hb : s.bus.bindings.get? r.binding = some b) : s.step (.poll name) =
      (s.keep name r.binding (b.poll s.bus.config.chunkLimit name r.read),
        .ofProgress (b.poll s.bus.config.chunkLimit name r.read).progress) := by
  simp only [step, named, hr, advance, hb]

theorem read?_of_makes {op : BindingOp} {call : ReadName} (h : op.Makes call id act) :
    act.read? = none ∨ act.read? = some call := by
  cases h with
  | once h =>
    left
    cases op <;> cases h <;> rfl
  | waiting h =>
    right
    cases op <;> cases h <;> rfl

theorem read?_of_cancelling (h : act ∈ s.cancelling name) : act.read? = none ∨ act.read? = some name := by
  rcases of_mem_cancelling h with rfl | ⟨id, rfl⟩
  · exact Or.inr rfl
  · exact Or.inl rfl

/-- **The acts of an operation are about the read that the operation is about**, or about none. -/
theorem read?_of_mem_acts {op : Op} (h : act ∈ s.acts op) : act.read? = none ∨ act.read? = s.reader? op := by
  rcases of_mem_acts h with ⟨id, rfl⟩ | hentails
  · exact Or.inl rfl
  cases hentails with
  | create _ | createTagged _ | destroy _ | destroyTagged _ | shutdown => exact Or.inl rfl
  | openBinding _ _ | connect _ _ | openTransport _ _ => exact Or.inl rfl
  | onBinding _ hact | endCall hact | onTransport _ _ hact => exact read?_of_makes hact
  | start _ _ _ _ | startAll _ _ _ _ | cancelToStart _ _ _ | cancelToStartAll _ _ _ | poll _ | cancel _ => exact Or.inr rfl

/-- A suspended read does not have the name that is for the next call. -/
theorem ne_nextCall {r : Reader} (hr : s.reads.get? name = some r) : name ≠ s.nextCall := by
  rintro rfl
  cases (get?_nextCall s).symm.trans hr

/-- What an operation does that is not about a suspended read is not about it either. -/
theorem read?_ne_of_mem_acts {op : Op} (h : act ∈ s.acts op) (hop : op.read? ≠ some name) {r : Reader}
    (hr : s.reads.get? name = some r) : act.read? ≠ some name := by
  intro he
  rcases read?_of_mem_acts h with hn | hn
  · exact nomatch hn.symm.trans he
  · rcases reader?_cases s op with hreader | hreader
    · exact hop (hreader.symm.trans (hn.symm.trans he))
    · exact ne_nextCall hr (Option.some.inj (he.symm.trans (hn.trans hreader)))

end Session
end TopicBus
