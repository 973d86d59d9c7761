import TopicBus.Proofs.Closed
/-!
# A closed binding gives up its sides

The write side goes with the close.  The read side goes with it too unless a read stands in the line; then the first
read that finishes afterwards gives it up (`released_of_ready`).  The one thing that can empty the line of a closed
binding and leave the read side behind is to drop a suspended read.  So in a run that drops none, every closed binding
that nobody reads from is without its read side (`Desk.Vacated`), whatever way the line went from hand to hand.
-/
namespace TopicBus

namespace Desk

variable {d : Desk} {id : BindingId} {b : Binding} {act : Act}

/-- A closed binding that no read is suspended on has given up its read side. -/
def Vacated (d : Desk) : Prop :=
  ∀ id b, d.bus.bindings.get? id = some b → b.isOpen = false → b.line = [] → b.readSide = none

theorem vacated_new (config : Config) : (new config).Vacated := fun _ _ hb => nomatch hb

/-- A poll of a closed binding's read changes nothing in the line, or gives the read side up. -/
theorem Good.polled_of_closed (h : d.Good) (hb : d.bus.bindings.get? id = some b) (hc : b.isOpen = false)
    {name : ReadName} {p : Polled} (hp : d.polled? act = some (name, id, p)) :
    p.binding.line = b.line ∨ p.binding.readSide = none := by
  obtain ⟨b₁, hb₁, hpolling⟩ := h.polling hp
  obtain rfl := Option.some.inj (hb.symm.trans hb₁)
  cases hpolling with
  | start _ =>
    rw [Binding.startUpTo_of_closed hc]
    exact Or.inl b.releaseIfClosed_line
  | @startAll _ _ wanted _ =>
    by_cases hw : wanted = 0
    · rw [hw, Binding.startExact_zero]
      exact Or.inl rfl
    · rw [Binding.startExact_of_closed hc _ _ _ hw]
      exact Or.inl b.releaseIfClosed_line
  | @poll _ r hr hmem hw hready =>
    by_cases hhead : b.line.head? = some name
    · rw [Binding.poll_of_closed (h.sound id b hb) hc hhead hw (fun hp => (hready hp).2)]
      exact Or.inr rfl
    · obtain ⟨r', hr', hid⟩ := (h.line id b hb name).1 hmem
      obtain rfl := Option.some.inj (hr.symm.trans hr')
      rw [h.poll_behind hr (hid ▸ hb) hhead]
      exact Or.inl rfl

/-- **Every act but the dropping of a read** keeps closed bindings vacated. -/
theorem vacated_apply (h : d.Good) (hv : d.Vacated) (hact : ∀ name, act ≠ .cancel name) : (d.apply act).Vacated := by
  intro id b' hb' hc' hl'
  cases hb : d.bus.bindings.get? id with
  | none =>
    -- a binding that has just been opened is not closed
    rcases (deed_apply h act).unborn hb with ⟨hn, -⟩ | ⟨-, b₁, hb₁, ho, -⟩
    · exact nomatch hn.symm.trans hb'
    · obtain rfl := Option.some.inj (hb'.symm.trans hb₁)
      exact absurd (ho.symm.trans hc') nofun
  | some b =>
    cases hr : act.reads with
    | true =>
      obtain ⟨_, b₁, hb₁, hmoves, -⟩ := moves_apply h hb hr
      obtain rfl := Option.some.inj (hb'.symm.trans hb₁)
      have hc : b.isOpen = false := hmoves.isOpen.symm.trans hc'
      by_cases hl : b.line = []
      · exact (hmoves.spent hc).readSide (hv id b hb hc hl)
      · -- the last read in the line has left it, which only a poll makes it do
        obtain ⟨b₂, hb₂, hshift⟩ := shift_apply h hb act
        obtain rfl := Option.some.inj (hb'.symm.trans hb₂)
        cases hshift with
        | apart hsame _ => exact absurd (hsame.symm.trans hl') hl
        | polled hp _ => exact (h.polled_of_closed hb hc hp).resolve_left (fun hsame => hl (hsame.symm.trans hl'))
        | cancelled => exact absurd rfl (hact _)
    | false =>
      obtain ⟨b₁, hb₁, haside⟩ := aside_apply h hb hr
      obtain rfl := Option.some.inj (hb'.symm.trans hb₁)
      cases haside with
      | same => exact hv id _ hb hc' hl'
      | ended => rw [Binding.disconnect, hv id b hb hc' hl', Option.map_none]
      | closed _ => exact Binding.readSide_shut (b.shut_line.symm.trans hl')
      | passed hp hsame =>
        obtain rfl := hsame (hp.isOpen.symm.trans hc')
        exact hv id b' hb hc' hl'
      | cancelled => exact absurd rfl (hact _)

theorem vacated_after (h : d.Good) (hv : d.Vacated) {acts : List Act} (hacts : ∀ name, .cancel name ∉ acts) :
    (d.after acts).Vacated := by
  induction acts generalizing d with
  | nil => exact hv
  | cons act acts ih =>
    refine ih (good_apply h act) (vacated_apply h hv (fun name he => ?_))
      (fun name hm => hacts name (List.mem_cons_of_mem _ hm))
    exact hacts name (he ▸ List.mem_cons_self)

end Desk

namespace Session

variable {s : Session} {id : BindingId} {b : Binding} {name : ReadName}

/-- No suspended read is dropped: each one that is gone has finished. -/
def DropsNone (s : Session) (ops : List Op) : Prop := ∀ name, .cancel name ∉ s.trail ops

theorem readCapacity_of_none (h : s.desk.Good) (hb : s.bus.bindings.get? id = some b) (hr : b.readSide = none) :
    b.readCapacity = 0 := by
  have hcapacity := (h.sound id b hb).capacity
  rwa [hr] at hcapacity

/-- The line is empty when no read is suspended. -/
theorem line_of_not_suspended (h : s.desk.Good) (hb : s.bus.bindings.get? id = some b)
    (hn : ∀ name, ¬ s.Suspended id name) : b.line = [] :=
  List.eq_nil_iff_forall_not_mem.2 (fun name hm => hn name ((h.line id b hb name).1 hm))

/-- **A read of a closed binding that finishes** has given the read side up, for good. -/
theorem released_of_ready (h : s.desk.Good) (hb : s.bus.bindings.get? id = some b) (hc : b.isOpen = false)
    (hs : s.Suspended id name) {result : Except Fault Bytes} (hr : (s.step (.poll name)).2 = .ready result)
    (more : List Op) :
    ∃ b', ((s.step (.poll name)).1.run more).bus.bindings.get? id = some b' ∧ b'.readSide = none ∧
      b'.readCapacity = 0 := by
  have hpolled := (refused_of_closed h hb hc).polled name hs
  by_cases hhead : b.line.head? = some name
  · obtain ⟨rest, hl⟩ := List.head?_eq_some_iff.1 hhead
    have hb₁ := (step_poll_of_closed h hb hc hl).2
    obtain ⟨b', hb', hspent, -⟩ := spent_run (good_step h _) hb₁ hc more
    have hnone := hspent.readSide rfl
    exact ⟨b', hb', hnone, readCapacity_of_none (good_later (good_step h _) more) hb' hnone⟩
  · rw [hr, if_neg hhead] at hpolled
    cases hpolled

/-- **A closed binding gives up its sides.**  After any run, every closed binding is without its write side, and from
the moment it is closed on.  A read that a call has to wait in is suspended on the binding from then on, as that of a
future is.  If the run has dropped no suspended read, then a closed binding that no read is suspended on is without its
read side too.  Such reads, of futures or of calls, may be left when it is closed; once the first of them has finished,
the read side is gone whatever happens, and it does not come back. -/
theorem closed_gives_up (config : Config) (ops : List Op) :
    let s := (new config).run ops
    (∀ id b, s.bus.bindings.get? id = some b → b.isOpen = false → b.writeSide = none ∧ b.writeCapacity = 0) ∧
    (∀ op id more, s.closes? op = some id → s.bus.isOpen id = true → (s.step op).2 = .done ∧
      ∃ b, ((s.step op).1.run more).bus.bindings.get? id = some b ∧ b.isOpen = false ∧ b.writeSide = none ∧
        b.writeCapacity = 0) ∧
    (∀ op, (s.step op).2 = .blocked → ∃ id, s.asks? op = some id ∧ (s.step op).1.Suspended id s.nextCall) ∧
    ((new config).DropsNone ops → ∀ id b, s.bus.bindings.get? id = some b → b.isOpen = false →
      (∀ name, ¬ s.Suspended id name) → b.readSide = none ∧ b.readCapacity = 0) ∧
    ∀ id b name result more, s.bus.bindings.get? id = some b → b.isOpen = false → s.Suspended id name →
      (s.step (.poll name)).2 = .ready result →
        ∃ b', ((s.step (.poll name)).1.run more).bus.bindings.get? id = some b' ∧ b'.readSide = none ∧
          b'.readCapacity = 0 := by
  intro s
  have hgood : s.desk.Good := good_run config ops
  refine ⟨fun id b hb hc => (hgood.sound id b hb).closed hc, fun op id more hcloses ho => ?_, fun op hblocked => ?_,
    fun hdrops id b hb hc hn => ?_, fun id b name result more hb hc hs hr => released_of_ready hgood hb hc hs hr more⟩
  · obtain ⟨b, hb, hbo⟩ := Bus.isOpen_iff.1 ho
    have hgood₁ := good_step hgood op
    obtain ⟨b', hb', hspent, -⟩ := spent_run hgood₁ (shut_of_closes? hcloses hb hbo) b.shut_isOpen more
    exact ⟨answer_of_closes? hcloses ho, b', hb', hspent.isOpen,
      ((good_later hgood₁ more).sound id b' hb').closed hspent.isOpen⟩
  · obtain ⟨id, hasks, hparks⟩ := parks_step hblocked
    exact ⟨id, hasks, hparks.suspended⟩
  · have hvacated : s.desk.Vacated := by
      rw [desk_run]
      exact Desk.vacated_after (Desk.good_new config) (Desk.vacated_new config) hdrops
    have hnone := hvacated id b hb hc (line_of_not_suspended hgood hb hn)
    exact ⟨hnone, readCapacity_of_none hgood hb hnone⟩

/-- A call waits in a read, and a read that was begun after it is suspended, when the binding is closed.  The call
finishes first and gives the read side up; when the other has finished, no read is left. -/
theorem closed_gives_up_two :
    let ops := twoPeers ++ [.beginCall "b", .endCall (.read 16), .start "b" "second" 4, .onBinding "b" .close]
    let waiting := (new {}).run ops
    let ended := (new {}).run (ops ++ [.poll (.call 0), .poll "second"])
    (waiting.Suspended ⟨6⟩ (.call 0) ∧ waiting.Suspended ⟨6⟩ "second" ∧
      (waiting.step (.poll (.call 0))).2 = .ready (.error .closed) ∧
      ∃ b, (waiting.step (.poll (.call 0))).1.bus.bindings.get? ⟨6⟩ = some b ∧ b.readSide = none ∧
        b.readCapacity = 0) ∧
    ∃ b, ended.bus.bindings.get? ⟨6⟩ = some b ∧ b.isOpen = false ∧ b.readSide = none ∧ b.readCapacity = 0 ∧
      b.writeCapacity = 0 := by
  intro ops waiting ended
  have hcall : waiting.Suspended ⟨6⟩ (.call 0) := suspended_iff.2 (by decide +kernel)
  have hready : (waiting.step (.poll (.call 0))).2 = .ready (.error .closed) := rfl
  obtain ⟨b, hb, hc⟩ := Option.map_eq_some_iff.1
    (show (waiting.bus.bindings.get? ⟨6⟩).map (·.isOpen) = some false by decide +kernel)
  obtain ⟨-, -, -, -, hfirst⟩ := closed_gives_up {} ops
  obtain ⟨hwrite, -, -, hread, -⟩ := closed_gives_up {} (ops ++ [.poll (.call 0), .poll "second"])
  obtain ⟨b', hb', hc'⟩ := Option.map_eq_some_iff.1
    (show (ended.bus.bindings.get? ⟨6⟩).map (·.isOpen) = some false by decide +kernel)
  have hdrops : (new {}).DropsNone (ops ++ [.poll (.call 0), .poll "second"]) := fun name hm => by
    have hany : ((new {}).trail (ops ++ [.poll (.call 0), .poll "second"])).any
        (fun act => act matches .cancel _) = false := by decide +kernel
    exact Bool.false_ne_true (hany.symm.trans (List.any_eq_true.2 ⟨_, hm, rfl⟩))
  have hnone : ended.reads = .empty := by decide +kernel
  obtain ⟨hr, hcapacity⟩ := hread hdrops ⟨6⟩ b' hb' hc' (fun name hs => by
    obtain ⟨r, hr, -⟩ := hs
    rw [show ((new {}).run (ops ++ [.poll (.call 0), .poll "second"])).reads = .empty from hnone] at hr
    cases hr)
  exact ⟨⟨hcall, suspended_iff.2 (by decide +kernel), hready, hfirst ⟨6⟩ b (.call 0) _ [] hb hc hcall hready⟩,
    b', hb', hc', hr, hcapacity, (hwrite ⟨6⟩ b' hb' hc').2⟩

end Session
end TopicBus
