import TopicBus.Proofs.Conservation
import TopicBus.Proofs.Moves
import TopicBus.Proofs.ReadLock
/-!
# No read overtakes another

Of two reads of up to some bytes on one binding, the one that stands further back in the line does not finish before the
other has ended (`exists_earlier_ending`).  While both are suspended they keep their order, whatever happens to others
(`behind_step`), and a poll of the one behind finds somebody else at the head of the line and changes nothing
(`poll_behind`).  So what the first is given was taken out of the stream before what the second is given.

Where a read ends in a run is told by `Session.ending?`; the name of a read that has ended can be used again, so only the
first end under the name counts.
-/
namespace TopicBus

/-- How a suspended read comes to its end. -/
inductive ReadEnd
  | finished (result : Except Fault Bytes)
  /-- It was cancelled, or another read was begun under its name. -/
  | dropped
deriving DecidableEq

namespace Session

/-- The end of the read `name`, if an operation brings it about. -/
def endOf? (s : Session) (name : ReadName) : Op → Option ReadEnd
  | .poll read =>
    if read = name then
      match (s.step (.poll read)).2 with
      | .ready result => some (.finished result)
      | _ => none
    else none
  | .cancel read => if read = name then some .dropped else none
  | .start other read _ | .startAll other read _ =>
    if read = name ∧ (s.names.get? other).isSome then some .dropped else none
  | _ => none

/-- The first end that a read of the name comes to in a run, with the number of operations before it. -/
def ending? (s : Session) (name : ReadName) : List Op → Option (Nat × ReadEnd)
  | [] => none
  | op :: rest =>
    match s.endOf? name op with
    | some e => some (0, e)
    | none => ((s.step op).1.ending? name rest).map (fun e => (e.1 + 1, e.2))

end Session

namespace Binding

variable {limit : Option Nat} {down : Bool} {b : Binding} {name : ReadName} {read r : SuspendedRead} {n : Nat}

/-- A read of up to some bytes that goes on waiting stays in its place. -/
theorem poll_upTo_pending (hs : b.Sound limit down) (hmem : name ∈ b.line) (hw : 0 < read.wanted)
    (hready : read.phase = .atInbox → b.line.head? = some name ∧ b.Ready limit (clampRead limit read.wanted))
    (hgoal : read.goal = .upTo) (hr : (b.poll limit name read).progress = .pending r) :
    (b.poll limit name read).binding.line = b.line ∧ r.goal = .upTo := by
  have hturn := turn_resumeRead hs hw hmem hready
  unfold poll at hr ⊢
  rw [hgoal] at hr ⊢
  rcases hout : b.resumeRead limit name read.phase read.wanted with ⟨t, (fault | phase) | data⟩
  · rw [hout] at hr
    cases hr
  · rw [hout] at hr hturn
    cases hr
    exact ⟨(hturn.stays phase rfl).1.trans (if_pos hmem), rfl⟩
  · rw [hout] at hr
    cases hr

theorem poll_upTo_ok (hgoal : read.goal = .upTo) {data : Bytes}
    (hr : (b.poll limit name read).progress = .ready (.ok data)) : (b.poll limit name read).parts = [data] := by
  unfold poll at hr ⊢
  rw [hgoal] at hr ⊢
  rcases hout : b.resumeRead limit name read.phase read.wanted with ⟨t, (fault | phase) | data'⟩
  · rw [hout] at hr
    cases hr
  · rw [hout] at hr
    cases hr
  · rw [hout] at hr
    cases hr
    rfl

/-- A poll of a read that waits for another to leave. -/
theorem poll_behind (hphase : read.phase = .inLine) (hhead : b.line.head? ≠ some name) :
    b.poll limit name read = ⟨b, [], .pending read⟩ := by
  obtain ⟨goal, wanted, phase⟩ := read
  obtain rfl : phase = .inLine := hphase
  cases goal with
  | upTo => simp only [poll, resumeRead, if_neg hhead, settleUpTo]
  | exactly gathered =>
    simp only [poll, resumeRead, if_neg hhead, ExactRead.resume, settleExact, ExactRead.Outcome.bytes,
      List.flatten_nil, List.append_nil, List.length_nil, Nat.sub_zero]

/-- A read that begins while others stand in the line. -/
theorem startUpTo_of_line (ho : b.isOpen = true) (hl : b.line ≠ []) (hn : 0 < n) :
    b.startUpTo limit name n = ⟨{ b with line := b.line ++ [name] }, [], .pending ⟨.upTo, n, .inLine⟩⟩ := by
  have hl' : b.line.isEmpty = false := List.isEmpty_eq_false_iff.2 hl
  simp only [startUpTo, beginRead, ho, hl', if_neg (Nat.pos_iff_ne_zero.1 hn), Bool.not_true, Bool.false_eq_true,
    if_false, settleUpTo]

/-- An immediate read finds the read side held. -/
theorem tryRead_of_line (ho : b.isOpen = true) (hl : b.line ≠ []) (hn : 0 < n) : b.tryRead limit n = (b, .ok none) := by
  have hl' : b.line.isEmpty = false := List.isEmpty_eq_false_iff.2 hl
  simp only [tryRead, Binding.read, readOnce, ho, hl', if_neg (Nat.pos_iff_ne_zero.1 hn), Bool.not_true,
    Bool.false_eq_true, if_false, Bool.not_false, if_true, releaseIfClosed_of_line hl]

end Binding

/-- A suspended read that is not at the head of the line is still waiting for its turn there. -/
theorem Desk.Good.poll_behind {d : Desk} (h : d.Good) {name : ReadName} {r : Reader} {b : Binding}
    (hr : d.reads.get? name = some r) (hb : d.bus.bindings.get? r.binding = some b) (hhead : b.line.head? ≠ some name) :
    b.poll d.bus.config.chunkLimit name r.read = ⟨b, [], .pending r.read⟩ := by
  obtain ⟨-, b', hb', hready⟩ := h.reads name r hr
  obtain rfl := Option.some.inj (hb.symm.trans hb')
  refine Binding.poll_behind ?_ hhead
  cases hp : r.read.phase with
  | inLine => rfl
  | atInbox => exact absurd (hready hp).1 hhead

namespace Session

variable {s : Session} {id : BindingId} {b : Binding} {name f g : ReadName} {op : Op}

/-- The read `name`, of up to some bytes, is suspended on the binding `id`. -/
def UpTo (s : Session) (id : BindingId) (name : ReadName) : Prop :=
  ∃ r, s.reads.get? name = some r ∧ r.binding = id ∧ r.read.goal = .upTo

/-- Two such reads, `g` further back in the line than `f`. -/
structure Behind (s : Session) (id : BindingId) (f g : ReadName) : Prop where
  front : s.UpTo id f
  back : s.UpTo id g
  line : ∃ b, s.bus.bindings.get? id = some b ∧ [f, g].Sublist b.line

/-- Somebody else is at the head of the line. -/
theorem Behind.head?_ne (hs : s.desk.Good) (h : s.Behind id f g) (hb : s.bus.bindings.get? id = some b) :
    b.line.head? ≠ some g := by
  obtain ⟨b', hb', hsub⟩ := h.line
  obtain rfl := Option.some.inj (hb.symm.trans hb')
  have hnd := hs.nodup id b hb
  intro hhead
  cases hl : b.line with
  | nil =>
    rw [hl] at hhead
    cases hhead
  | cons x xs =>
    rw [hl] at hhead hnd hsub
    obtain rfl := Option.some.inj hhead
    have hmem : x ∈ xs := by
      cases hsub with
      | cons _ hsub => exact hsub.subset (List.mem_cons_of_mem _ List.mem_cons_self)
      | cons_cons _ hsub => exact hsub.subset List.mem_cons_self
    exact (List.nodup_cons.1 hnd).1 hmem

/-! ## While they are suspended -/

/-- An operation that is about a read of up to some bytes and does not end it leaves it where it is. -/
theorem upTo_kept (h : s.desk.Good) (hu : s.UpTo id name) (hb : s.bus.bindings.get? id = some b)
    (hop : op.read? = some name) (he : s.endOf? name op = none) :
    (s.step op).1.UpTo id name ∧ (∀ other, other ≠ name → (s.step op).1.reads.get? other = s.reads.get? other) ∧
      ∃ b', (s.step op).1.bus.bindings.get? id = some b' ∧ b'.line = b.line := by
  -- a read that is to be begun under its name is begun on no binding
  have hstart : ∀ {other : String} {f : BindingId → Session × Answer},
      (if name = name ∧ (s.names.get? other).isSome = true then some ReadEnd.dropped else none) = none →
        (s.named s.names other f).1 = s := fun {other f} hn => by
    cases hname : s.names.get? other with
    | none => simp only [named, hname]
    | some i => simp [hname] at hn
  cases op with
  | start other read wanted =>
    obtain rfl := Option.some.inj hop
    rw [show (s.step (.start other read wanted)).1 = s from hstart he]
    exact ⟨hu, fun _ _ => rfl, b, hb, rfl⟩
  | startAll other read wanted =>
    obtain rfl := Option.some.inj hop
    rw [show (s.step (.startAll other read wanted)).1 = s from hstart he]
    exact ⟨hu, fun _ _ => rfl, b, hb, rfl⟩
  | cancel read =>
    obtain rfl := Option.some.inj hop
    simp [endOf?] at he
  | poll read =>
    obtain rfl := Option.some.inj hop
    obtain ⟨r, hr, rfl, hgoal⟩ := hu
    obtain ⟨hw, b', hb', hready⟩ := h.reads read r hr
    obtain rfl := Option.some.inj (hb.symm.trans hb')
    have hmem : read ∈ b.line := (h.line _ b hb read).2 ⟨r, hr, rfl⟩
    simp only [endOf?, step_poll hr hb] at he
    rw [step_poll hr hb]
    cases hprog : (b.poll s.bus.config.chunkLimit read r.read).progress with
    | ready result => simp [hprog, Answer.ofProgress] at he
    | pending r' =>
      obtain ⟨hline, hgoal'⟩ := Binding.poll_upTo_pending (h.sound _ b hb) hmem hw hready hgoal hprog
      simp only [keep, hprog]
      exact ⟨⟨⟨r.binding, r'⟩, Table.get?_insert_self .., rfl, hgoal'⟩, fun _ hne => Table.get?_insert_of_ne _ hne _,
        _, Table.get?_insert_self .., hline⟩
  | _ => cases hop

/-- An operation about another read leaves a read as it is. -/
theorem get?_reads_step (hop : op.read? ≠ some name) {r : Reader} (hr : s.reads.get? name = some r) :
    (s.step op).1.reads.get? name = some r := by
  have hne : ∀ act ∈ s.acts op, act.read? ≠ some name := fun act ha => read?_ne_of_mem_acts ha hop hr
  have hafter := Desk.get?_reads_after (d := s.desk) hne
  rw [← desk_step] at hafter
  exact hafter.trans hr

theorem exists_binding (h : s.desk.Good) (hu : s.UpTo id name) : ∃ b, s.bus.bindings.get? id = some b := by
  obtain ⟨r, hr, rfl, -⟩ := hu
  obtain ⟨-, b, hb, -⟩ := h.reads name r hr
  exact ⟨b, hb⟩

theorem upTo_step (h : s.desk.Good) (hu : s.UpTo id name) (he : s.endOf? name op = none) :
    (s.step op).1.UpTo id name := by
  by_cases hop : op.read? = some name
  · obtain ⟨b, hb⟩ := exists_binding h hu
    exact (upTo_kept h hu hb hop he).1
  · obtain ⟨r, hr, hid, hgoal⟩ := hu
    exact ⟨r, get?_reads_step hop hr, hid, hgoal⟩

/-- **Two suspended reads keep their order** until one of them ends. -/
theorem behind_step (h : s.desk.Good) (hb : s.Behind id f g) (hf : s.endOf? f op = none)
    (hg : s.endOf? g op = none) : (s.step op).1.Behind id f g := by
  refine ⟨upTo_step h hb.front hf, upTo_step h hb.back hg, ?_⟩
  obtain ⟨b, hbind, hsub⟩ := hb.line
  by_cases hop : op.read? = some f ∨ op.read? = some g
  · have hline : ∃ b', (s.step op).1.bus.bindings.get? id = some b' ∧ b'.line = b.line := by
      rcases hop with hop | hop
      · exact (upTo_kept h hb.front hbind hop hf).2.2
      · exact (upTo_kept h hb.back hbind hop hg).2.2
    obtain ⟨b', hb', hl⟩ := hline
    exact ⟨b', hb', hl ▸ hsub⟩
  · rw [not_or] at hop
    obtain ⟨rf, hrf, -⟩ := hb.front
    obtain ⟨rg, hrg, -⟩ := hb.back
    have hne : ∀ act ∈ s.acts op, ∀ n ∈ [f, g], act.read? ≠ some n := fun act ha n hn => by
      simp only [List.mem_cons, List.not_mem_nil, or_false] at hn
      rcases hn with rfl | rfl
      · exact read?_ne_of_mem_acts ha hop.1 hrf
      · exact read?_ne_of_mem_acts ha hop.2 hrg
    have hafter := Desk.sublist_after h hbind hsub hne
    rw [← desk_step] at hafter
    exact hafter

/-- The read behind does not finish. -/
theorem pending_of_behind (h : s.desk.Good) (hb : s.Behind id f g) : (s.step (.poll g)).2 = .pending := by
  obtain ⟨r, hr, rfl, -⟩ := hb.back
  obtain ⟨-, b, hbind, -⟩ := h.reads g r hr
  rw [step_poll hr hbind]
  exact congrArg Answer.ofProgress (congrArg Polled.progress (h.poll_behind hr hbind (hb.head?_ne h hbind)))

/-- An end by finishing is an answer to a poll. -/
theorem eq_poll_of_finished {result : Except Fault Bytes} (he : s.endOf? name op = some (.finished result)) :
    op = .poll name ∧ (s.step (.poll name)).2 = .ready result := by
  unfold endOf? at he
  split at he
  · rename_i read
    split at he
    · rename_i hread
      subst hread
      split at he
      · rename_i hanswer
        cases he
        exact ⟨rfl, hanswer⟩
      · cases he
    · cases he
  · split at he <;> cases he
  · split at he <;> cases he
  · split at he <;> cases he
  · cases he

theorem ending?_of_none {rest : List Op} (he : s.endOf? name op = none) : s.ending? name (op :: rest) =
    ((s.step op).1.ending? name rest).map (fun e => (e.1 + 1, e.2)) := by
  rw [ending?, he]

theorem ending?_of_some {rest : List Op} {e : ReadEnd} (he : s.endOf? name op = some e) :
    s.ending? name (op :: rest) = some (0, e) := by
  rw [ending?, he]

/-- **The read in front ends first.**  If the read behind finishes, and the one in front was not dropped before, then
that one has finished before. -/
theorem exists_earlier_ending (h : s.desk.Good) (hb : s.Behind id f g) {rest : List Op} {j : Nat}
    {result : Except Fault Bytes} (hg : s.ending? g rest = some (j, .finished result))
    (hf : ∀ i < j, s.ending? f rest ≠ some (i, .dropped)) :
    ∃ i result, i < j ∧ s.ending? f rest = some (i, .finished result) := by
  -- as long as neither has ended they keep their order, so the one behind is not the first to finish
  induction rest generalizing s j with
  | nil => cases hg
  | cons op rest ih =>
    cases hge : s.endOf? g op with
    | some e =>
      rw [ending?_of_some hge] at hg
      cases hg
      obtain ⟨rfl, hanswer⟩ := eq_poll_of_finished hge
      rw [pending_of_behind h hb] at hanswer
      cases hanswer
    | none =>
      rw [ending?_of_none hge] at hg
      obtain ⟨⟨j', e⟩, hj', he⟩ := Option.map_eq_some_iff.1 hg
      obtain ⟨rfl, rfl⟩ := Prod.mk.inj he
      cases hfe : s.endOf? f op with
      | some e =>
        cases e with
        | finished result => exact ⟨0, result, Nat.succ_pos _, ending?_of_some hfe⟩
        | dropped => exact absurd (ending?_of_some hfe) (hf 0 (Nat.succ_pos _))
      | none =>
        obtain ⟨i, result', hi, hend⟩ := ih (good_step h op) (behind_step h hb hfe hge) hj' (fun i hi hd => by
          refine hf (i + 1) (Nat.succ_lt_succ hi) ?_
          rw [ending?_of_none hfe, hd]
          rfl)
        refine ⟨i + 1, result', Nat.succ_lt_succ hi, ?_⟩
        rw [ending?_of_none hfe, hend]
        rfl

/-- Until its end a read is suspended, and it finishes by a poll. -/
theorem of_ending? (h : s.desk.Good) (hu : s.UpTo id name) {rest : List Op} {i : Nat}
    {result : Except Fault Bytes} (he : s.ending? name rest = some (i, .finished result)) :
    ∃ post, rest.drop i = .poll name :: post ∧ (s.run (rest.take i)).UpTo id name ∧
      ((s.run (rest.take i)).step (.poll name)).2 = .ready result := by
  induction rest generalizing s i with
  | nil => cases he
  | cons op rest ih =>
    cases hend : s.endOf? name op with
    | some e =>
      rw [ending?_of_some hend] at he
      cases he
      obtain ⟨rfl, hanswer⟩ := eq_poll_of_finished hend
      exact ⟨rest, rfl, hu, hanswer⟩
    | none =>
      rw [ending?_of_none hend] at he
      obtain ⟨⟨i', e⟩, hi', heq⟩ := Option.map_eq_some_iff.1 he
      obtain ⟨rfl, rfl⟩ := Prod.mk.inj heq
      exact ih (good_step h op) (upTo_step h hu hend) hi'

/-! ## What they are given -/

/-- A read that gives bytes has just taken them, from the front of the stream of an open binding. -/
theorem taken_of_ready (h : s.desk.Good) (hu : s.UpTo id name) {data : Bytes}
    (hr : (s.step (.poll name)).2 = .ready (.ok data)) :
    takenFrom id (s.desk.history (s.acts (.poll name))) = data ∧
      ∃ b, s.bus.bindings.get? id = some b ∧ b.isOpen = true ∧ data <+: b.stream := by
  obtain ⟨r, hread, rfl, hgoal⟩ := hu
  obtain ⟨-, b, hb, -⟩ := h.reads name r hread
  have hasks : s.asks? (.poll name) = some r.binding := by rw [asks?, hread, Option.map_some]
  have hpoll := polled?_poll hread hb
  have hprog : (b.poll s.bus.config.chunkLimit name r.read).progress = .ready (.ok data) := by
    rw [step_poll hread hb] at hr
    cases hp : (b.poll s.bus.config.chunkLimit name r.read).progress with
    | ready result =>
      simp only [hp, Answer.ofProgress, Answer.ready.injEq] at hr
      rw [hr]
    | pending r' =>
      simp only [hp] at hr
      cases hr
  have hparts := Binding.poll_upTo_ok hgoal hprog
  have hopen : b.isOpen = true := by
    obtain ⟨b', hb', hm⟩ := h.polled_moves hpoll
    obtain rfl := Option.some.inj (hb.symm.trans hb')
    by_contra hc
    have hnil := hparts.symm.trans (hm.parts_of_closed (Bool.not_eq_true _ ▸ hc))
    cases hnil
  refine ⟨?_, b, hb, hopen, ?_⟩
  · have hbooks := takenFrom_acts s hasks (by rw [hr]; rfl)
    have hkept : s.gathered (some name) = [] := by
      rw [gathered, Option.bind_some, hread, Option.elim_some, SuspendedRead.gathered, hgoal]
    have hleft : (s.step (.poll name)).1.gathered (some name) = [] := by
      rw [step_poll hread hb, gathered_keep, hprog]
      rfl
    rw [Op.resumes?, hkept, show s.reader? (.poll name) = some name from rfl, hleft, hr, List.nil_append,
      List.append_nil] at hbooks
    exact hbooks
  · obtain ⟨b', hb', -, hp⟩ := h.polled hpoll
    obtain rfl := Option.some.inj (hb.symm.trans hb')
    have hbytes := hp.advance.bytes hopen
    rw [hparts, List.flatten_cons, List.flatten_nil, List.append_nil] at hbytes
    exact ⟨_, hbytes⟩

/-! ## Taking a place behind another -/

/-- Cancelling another read leaves an open binding open, with a read in its line that is suspended on it. -/
theorem open_of_cancel (h : s.desk.Good) (hu : s.UpTo id f) (hb : s.bus.bindings.get? id = some b)
    (ho : b.isOpen = true) (hne : g ≠ f) :
    (s.cancel g).UpTo id f ∧ ∃ b', (s.cancel g).bus.bindings.get? id = some b' ∧ b'.isOpen = true ∧ f ∈ b'.line := by
  obtain ⟨r, hr, hid, hgoal⟩ := hu
  have hacts : ∀ act ∈ s.cancelling g, act.read? ≠ some f := fun act ha he => by
    rcases read?_of_cancelling ha with hn | hn
    · exact nomatch hn.symm.trans he
    · exact hne (Option.some.inj (hn.symm.trans he))
  have hr' : (s.cancel g).reads.get? f = some r := by
    have hafter := Desk.get?_reads_after (d := s.desk) hacts
    rw [← desk_cancel] at hafter
    exact hafter.trans hr
  obtain ⟨b', hb', hmet⟩ := Desk.met_after h hb (s.cancelling g)
  rw [← desk_cancel] at hb'
  refine ⟨⟨r, hr', hid, hgoal⟩, b', hb', ?_, ((good_cancel h g).line id b' hb' f).2 ⟨r, hr', hid⟩⟩
  -- it is held by the read that stays, so nothing closes it
  cases hc : b'.isOpen with
  | true => rfl
  | false =>
    have hcount := hmet.closings
    rw [ho, hc, Bool.toNat_true, Bool.toNat_false, Nat.add_zero] at hcount
    have hclose : .close id ∈ s.cancelling g :=
      Desk.close_mem_of_mem_history (List.count_pos_iff.1 (by rw [hcount]; exact Nat.one_pos))
    have hheld : (s.cancel g).isHeld id = true := isHeld_iff.2 (.read hr' hid)
    rw [unheld_of_cancelling hclose] at hheld
    cases hheld

/-- **A read that begins while another is suspended** takes its place behind it and waits. -/
theorem start_behind {holder g : String} (h : s.desk.Good) (hu : s.UpTo id f) (hb : s.bus.bindings.get? id = some b)
    (ho : b.isOpen = true) (hname : s.names.get? holder = some id) (hne : g ≠ f) {n : Nat} (hn : 0 < n) :
    (s.step (.start holder g n)).2 = .pending ∧ (s.step (.start holder g n)).1.Behind id f g := by
  obtain ⟨⟨r, hr, hid, hgoal⟩, b', hb', ho', hmem⟩ := open_of_cancel h hu hb ho hne
  simp only [step, named, hname, advance, hb', Binding.startUpTo_of_line ho' (List.ne_nil_of_mem hmem) hn, keep]
  refine ⟨rfl, ⟨r, ?_, hid, hgoal⟩, ⟨_, Table.get?_insert_self .., rfl, rfl⟩, _, Table.get?_insert_self .., ?_⟩
  · exact (Table.get?_insert_of_ne _ hne.symm _).trans hr
  · exact (List.singleton_sublist.2 hmem).append (List.Sublist.refl [ReadName.given g])

/-! ## In the history of a run -/

section

variable {config : Config} {ops rest : List Op} {k : Nat}

/-- What was taken up to an operation, and by it. -/
theorem takenFrom_take_succ (config : Config) (ops : List Op) {post : List Op} (id : BindingId)
    (hk : rest.drop k = op :: post) :
    takenFrom id (historyOf config (ops ++ rest.take (k + 1))) =
      takenFrom id (historyOf config (ops ++ rest.take k)) ++
        takenFrom id (((new config).run (ops ++ rest.take k)).desk.history
          (((new config).run (ops ++ rest.take k)).acts op)) := by
  have hop : rest[k]? = some op := by
    rw [← List.head?_drop, hk]
    rfl
  rw [List.take_add_one, hop, Option.toList_some, ← List.append_assoc, historyOf_concat, takenFrom_append]

/-- What was taken earlier comes first. -/
theorem takenFrom_prefix (config : Config) (id : BindingId) {ops ops' : List Op} (h : ops <+: ops') :
    takenFrom id (historyOf config ops) <+: takenFrom id (historyOf config ops') := by
  obtain ⟨rest, rfl⟩ := h
  rw [historyOf_append, takenFrom_append]
  exact List.prefix_append _ _

end

/-- **The bytes of two reads that finished one after the other** are in that order in the stream of their binding. -/
theorem taken_in_order {config : Config} {ops rest : List Op} (hb : ((new config).run ops).bus.bindings.get? id = some b)
    (hf : ((new config).run ops).UpTo id f) (hg : ((new config).run ops).UpTo id g) {i j : Nat} (hij : i < j)
    {df dg : Bytes} (hfi : ((new config).run ops).ending? f rest = some (i, .finished (.ok df)))
    (hgj : ((new config).run ops).ending? g rest = some (j, .finished (.ok dg))) :
    let history := fun k => historyOf config (ops ++ rest.take k)
    ∃ between, takenFrom id (history (i + 1)) = takenFrom id (history i) ++ df ∧
      takenFrom id (history j) = takenFrom id (history (i + 1)) ++ between ∧
      takenFrom id (history (j + 1)) = takenFrom id (history j) ++ dg ∧
      takenFrom id (history (j + 1)) <+: sentTo id b.topic b.kind (since id (history j)) := by
  intro history
  have hgood := good_run config ops
  have hrun : ∀ k, (new config).run (ops ++ rest.take k) = ((new config).run ops).run (rest.take k) := fun k =>
    run_append _ _ _
  obtain ⟨postf, hdropf, hupf, hreadyf⟩ := of_ending? hgood hf hfi
  obtain ⟨postg, hdropg, hupg, hreadyg⟩ := of_ending? hgood hg hgj
  rw [← hrun] at hupf hreadyf hupg hreadyg
  have htakenf := (taken_of_ready (good_run config _) hupf hreadyf).1
  obtain ⟨htakeng, b', hb', ho', hprefix⟩ := taken_of_ready (good_run config _) hupg hreadyg
  have hf1 : takenFrom id (history (i + 1)) = takenFrom id (history i) ++ df := by
    rw [takenFrom_take_succ config ops id hdropf, htakenf]
  have hg1 : takenFrom id (history (j + 1)) = takenFrom id (history j) ++ dg := by
    rw [takenFrom_take_succ config ops id hdropg, htakeng]
  obtain ⟨between, hbetween⟩ : takenFrom id (history (i + 1)) <+: takenFrom id (history j) :=
    takenFrom_prefix config id ((List.prefix_append_right_inj ops).2 (List.take_prefix_take_left hij))
  refine ⟨between, hf1, hbetween.symm, hg1, ?_⟩
  have hterms : b'.toTerms = b.toTerms := terms_run hgood hb (hrun j ▸ hb')
  rw [hg1, show b.topic = b'.topic from (congrArg Terms.topic hterms).symm,
    show b.kind = b'.kind from (congrArg Terms.kind hterms).symm, ← takenFrom_append_stream hb' ho']
  exact (List.prefix_append_right_inj _).2 hprefix

/-- An immediate read of an open binding on which some read is suspended gets nothing and changes nothing. -/
theorem tryRead_of_suspended (h : s.desk.Good) (hb : s.bus.bindings.get? id = some b) (ho : b.isOpen = true)
    (hs : s.Suspended id name) {n : Nat} (hn : 0 < n) : s.stepBinding id (.tryRead n) = (s, .perhaps none) := by
  have hline : b.line ≠ [] := List.ne_nil_of_mem ((h.line id b hb name).2 hs)
  have htry : s.bus.tryRead id n = (s.bus, .ok none) := by
    simp only [Bus.tryRead, Bus.onBinding, hb, Binding.tryRead_of_line ho hline hn, Bus.put, Table.insert_self hb]
  simp only [stepBinding, htry]
  rfl

/-- **No overtaking.**  Let a binding be open.  If a read `f` of up to some bytes is suspended on it when another, `g`,
is begun there, then `g` has to wait; and whatever is done from then on, by whomever and to whichever reads, if `g`
finishes and `f` was not dropped before that, then `f` has finished earlier, and what `f` was given comes before what `g`
was given in the stream of the binding.  And while any read of it at all is suspended, an immediate read of it gets
nothing and changes nothing. -/
theorem no_overtaking (config : Config) (ops : List Op) {id : BindingId} {b : Binding}
    (hb : ((new config).run ops).bus.bindings.get? id = some b) (ho : b.isOpen = true) :
    let s := (new config).run ops
    (∀ (f : ReadName) (g name : String) (n : Nat), s.UpTo id f → s.names.get? name = some id → .given g ≠ f → 0 < n →
      let after := (s.step (.start name g n)).1
      let history := fun rest => historyOf config (ops ++ .start name g n :: rest)
      (s.step (.start name g n)).2 = .pending ∧
      ∀ rest j rg, after.ending? g rest = some (j, .finished rg) →
        (∀ i < j, after.ending? f rest ≠ some (i, .dropped)) →
        ∃ i rf, i < j ∧ after.ending? f rest = some (i, .finished rf) ∧ ∀ df dg, rf = .ok df → rg = .ok dg →
          ∃ between,
            takenFrom id (history (rest.take (i + 1))) = takenFrom id (history (rest.take i)) ++ df ∧
            takenFrom id (history (rest.take j)) = takenFrom id (history (rest.take (i + 1))) ++ between ∧
            takenFrom id (history (rest.take (j + 1))) = takenFrom id (history (rest.take j)) ++ dg ∧
            takenFrom id (history (rest.take (j + 1))) <+:
              sentTo id b.topic b.kind (since id (history (rest.take j)))) ∧
    ∀ other, s.Suspended id other → ∀ m, 0 < m → s.stepBinding id (.tryRead m) = (s, .perhaps none) := by
  intro s
  have hgood : s.desk.Good := good_run config ops
  refine ⟨fun f g name n hf hname hne hn => ?_, fun other hs m hm => tryRead_of_suspended hgood hb ho hs hm⟩
  intro after history
  obtain ⟨hpend, hbehind⟩ := start_behind hgood hf hb ho hname hne hn
  have hrun : (s.step (.start name g n)).1 = (new config).run (ops ++ [.start name g n]) :=
    (run_append (new config) ops [.start name g n]).symm
  have hhistory : ∀ rest, historyOf config (ops ++ [.start name g n] ++ rest) = history rest := fun rest => by
    rw [List.append_assoc]
    rfl
  refine ⟨hpend, fun rest j rg hg hd => ?_⟩
  obtain ⟨i, rf, hij, hfi⟩ := exists_earlier_ending (good_step hgood _) hbehind hg hd
  refine ⟨i, rf, hij, hfi, fun df dg hrf hrg => ?_⟩
  subst hrf hrg
  obtain ⟨b₁, hb₁, hmet⟩ := Desk.met_after hgood hb (s.acts (.start name g n))
  rw [← desk_step, hrun] at hb₁
  rw [hrun] at hbehind
  simp only [after, hrun] at hfi hg
  have horder := taken_in_order hb₁ hbehind.front hbehind.back hij hfi hg
  simp only [hhistory] at horder
  rw [show b₁.topic = b.topic from congrArg Terms.topic hmet.terms,
    show b₁.kind = b.kind from congrArg Terms.kind hmet.terms] at horder
  exact horder

/-- A chunk comes while two reads wait; the second is polled first, and is given what the first leaves.  And while a read
of exactly so many bytes waits, an immediate read does not get past it. -/
theorem no_overtaking_of_two :
    let s := (new {}).run (twoPeers ++ [.start "b" "first" 2])
    let after := (s.step (.start "b" "second" 7)).1
    let rest : List Op := [.onBinding "a" (.write [1, 2, 3]), .poll "second", .poll "first", .poll "second"]
    let gathering := (new {}).run (twoPeers ++ [.startAll "b" "first" 7, .onBinding "a" (.write [1, 2, 3])])
    (after.ending? "second" rest = some (3, .finished (.ok [3])) ∧
      ∃ i result, i < 3 ∧ after.ending? "first" rest = some (i, .finished result)) ∧
    gathering.stepBinding ⟨6⟩ (.tryRead 2) = (gathering, .perhaps none) := by
  intro s after rest gathering
  constructor
  · have hfirst : after.ending? "first" rest = some (2, .finished (.ok [1, 2])) := by decide +kernel
    have hsecond : after.ending? "second" rest = some (3, .finished (.ok [3])) := by decide +kernel
    obtain ⟨b, hb, ho⟩ := Bus.isOpen_iff.1 (show s.bus.isOpen ⟨6⟩ = true by decide +kernel)
    have hf : s.UpTo ⟨6⟩ "first" := ⟨⟨⟨6⟩, .upTo, 2, .atInbox⟩, by decide +kernel, rfl, rfl⟩
    have hname : s.names.get? "b" = some ⟨6⟩ := by decide +kernel
    obtain ⟨-, horder⟩ := (no_overtaking {} _ hb ho).1 "first" "second" "b" 7 hf hname (by decide) (Nat.succ_pos 6)
    obtain ⟨i, result, hi, hend, -⟩ := horder rest 3 _ hsecond (fun i _ => by rw [hfirst]; nofun)
    exact ⟨hsecond, i, result, hi, hend⟩
  · obtain ⟨b, hb, ho⟩ := Bus.isOpen_iff.1 (show gathering.bus.isOpen ⟨6⟩ = true by decide +kernel)
    have hs : gathering.Suspended ⟨6⟩ "first" := ⟨⟨⟨6⟩, .exactly [], 7, .atInbox⟩, by decide +kernel, rfl⟩
    exact (no_overtaking {} _ hb ho).2 "first" hs 2 (Nat.succ_pos 1)

end Session
end TopicBus
