import TopicBus.Proofs.Vacated
/-!
# Dropping the last read of a closed binding

A read that is dropped leaves the line and does nothing else; it does not look whether the binding was closed in the
meantime.  So when the only suspended read of a closed binding is dropped, the read side that it was holding stays
behind with its buffer and its inbox (`dropped_read_keeps`), though nobody stands in the line any more.  It is given up
by whoever next tries to read from the binding, if anybody does.
-/
namespace TopicBus

/-- The only name in a line of reads without repetitions. -/
theorem eq_singleton_of_nodup {line : List ReadName} {name : ReadName} (hnd : line.Nodup)
    (hmem : ∀ other, other ∈ line ↔ other = name) : line = [name] :=
  List.perm_singleton.1 ((List.perm_ext_iff_of_nodup hnd (List.nodup_singleton name)).2
    (fun other => (hmem other).trans List.mem_singleton.symm))

namespace Session

variable {s : Session} {id : BindingId} {b : Binding} {name : ReadName} {op : Op}

/-- The read `name` is suspended on the binding `id`, and no other. -/
def SuspendedAlone (s : Session) (id : BindingId) (name : ReadName) : Prop :=
  ∀ other, s.Suspended id other ↔ other = name

theorem alone_of_keys (hs : s.Suspended id name) (hk : s.reads.keys = [name]) : s.SuspendedAlone id name := by
  refine fun other => ⟨fun ⟨r, hr, _⟩ => ?_, fun he => he ▸ hs⟩
  have hmem : other ∈ s.reads.keys := Table.mem_keys_iff.2 ⟨r, hr⟩
  rwa [hk, List.mem_singleton] at hmem

theorem line_of_alone (h : s.desk.Good) (hb : s.bus.bindings.get? id = some b) (hs : s.SuspendedAlone id name) :
    b.line = [name] :=
  eq_singleton_of_nodup (h.nodup id b hb) (fun other => (h.line id b hb other).trans (hs other))

/-- **Dropping the only suspended read of a closed binding** changes nothing but the line. -/
theorem cancel_of_alone {f : String} (h : s.desk.Good) (hb : s.bus.bindings.get? id = some b) (hc : b.isOpen = false)
    (hs : s.SuspendedAlone id f) : s.step (.cancel f) =
      ({ s with bus := s.bus.put id { b with line := [] }, reads := s.reads.erase f }, .done) := by
  have hline := line_of_alone h hb hs
  obtain ⟨r, hr, rfl⟩ := (hs f).2 rfl
  have hcancel : b.cancel f = { b with line := [] } := by rw [Binding.cancel, hline, List.erase_cons_head]
  simp only [step, named, hr, cancel, Bus.onBinding, hb, hcancel]
  exact congrArg (·, _) (settle_put_of_closed (b := { b with line := [] }) { s with reads := s.reads.erase f }
    r.binding hc)

/-- Of the operations on a closed binding with an empty line, those that would read give its read side up, and the
others leave it as it is. -/
theorem afterAsked_of_idle {limit : Option Nat} {down : Bool} (hs : b.Sound limit down) (hc : b.isOpen = false)
    (hl : b.line = []) (op : BindingOp) :
    b.afterAsked op = if op.reads then { b with readSide := none, readCapacity := 0 } else b := by
  rw [Binding.afterAsked, Binding.releaseIfClosed_of_closed hc hl, Binding.releaseReadSide_of_sound hs]

/-- Closing while a read is suspended leaves it the read side, disconnected. -/
theorem shut_of_line (hl : b.line ≠ []) :
    b.shut.readSide = b.readSide.map (·.disconnect) ∧ b.shut.readCapacity = b.readCapacity := by
  rw [Binding.shut_eq, Binding.releaseIfClosed_of_line (by exact hl)]
  exact ⟨rfl, rfl⟩

theorem alone_of_closes? (h : s.desk.Good) (hb : s.bus.bindings.get? id = some b) (ho : b.isOpen = true)
    (hcloses : s.closes? op = some id) (hs : s.SuspendedAlone id name) :
    (s.step op).1.SuspendedAlone id name := by
  have hshut := shut_of_closes? hcloses hb ho
  intro other
  rw [← hs other]
  refine ((good_step h op).line id _ hshut other).symm.trans (Iff.trans ?_ (h.line id b hb other))
  rw [b.shut_line]

/-- **A dropped read keeps the read side of a closed binding.**  In every state that a run can come to: when the only
suspended read of a closed binding is dropped, the read leaves the line, and nothing else is different.  The read side
and its capacity are what they were, and so they stay until one of the binding's users tries to read again, in whatever
form; that gives them up.  In particular a binding that is closed while its only suspended read waits, the bus not being
shut down, has its read side still after the read is dropped. -/
theorem dropped_read_keeps (config : Config) (ops : List Op) :
    let s := (new config).run ops
    (∀ id b (name : String), s.bus.bindings.get? id = some b → b.isOpen = false → s.SuspendedAlone id name →
      let t := { s with bus := s.bus.put id { b with line := [] }, reads := s.reads.erase name }
      s.step (.cancel name) = (t, .done) ∧
      ∀ holder op, s.names.get? holder = some id → (t.step (.onBinding holder op)).1.bus =
        if op.reads then s.bus.put id { b with line := [], readSide := none, readCapacity := 0 } else t.bus) ∧
    ∀ id b (name : String) op, s.bus.bindings.get? id = some b → b.isOpen = true → s.bus.isShutDown = false →
      s.SuspendedAlone id name → s.closes? op = some id →
      ∃ b', ((s.step op).1.step (.cancel name)).1.bus.bindings.get? id = some b' ∧ b'.isOpen = false ∧ b'.line = [] ∧
        (∃ side, b'.readSide = some side) ∧ b'.readCapacity = b.readCapacity := by
  intro s
  have hgood : s.desk.Good := good_run config ops
  refine ⟨fun id b name hb hc hs => ?_, fun id b name op hb ho hup hs hcloses => ?_⟩
  · intro t
    have hcancel : s.step (.cancel name) = (t, .done) := cancel_of_alone hgood hb hc hs
    refine ⟨hcancel, fun holder op hn => ?_⟩
    have hgood' : t.desk.Good := by
      have hstep := good_step hgood (.cancel name)
      rwa [hcancel] at hstep
    have hb' : t.bus.bindings.get? id = some { b with line := [] } := Bus.get?_put_self ..
    have hn' : t.names.get? holder = some id := hn
    simp only [step, named, hn', stepBinding_of_closed hgood' hb' hc,
      afterAsked_of_idle (hgood'.sound id _ hb') hc rfl]
    cases op.reads with
    | true => exact Bus.put_put hb _ _
    | false => exact Bus.put_put hb _ _
  · have hline : b.line ≠ [] := by
      rw [line_of_alone hgood hb hs]
      exact List.cons_ne_nil _ _
    have hshut := shut_of_closes? hcloses hb ho
    obtain ⟨side, hside⟩ := (hgood.sound id b hb).receives ho hup
    obtain ⟨hreadSide, hcapacity⟩ := shut_of_line hline
    rw [cancel_of_alone (good_step hgood op) hshut b.shut_isOpen (alone_of_closes? hgood hb ho hcloses hs)]
    refine ⟨_, Bus.get?_put_self .., b.shut_isOpen, rfl, ⟨side.disconnect, ?_⟩, hcapacity⟩
    rw [hside] at hreadSide
    exact hreadSide

/-- The buffer of a closed binding is still there when its only read has been dropped. -/
theorem dropped_read_keeps_buffer :
    let s := (new {}).run (twoPeers ++ [.start "b" "first" 16])
    ∃ b, ((s.step (.onBinding "b" .close)).1.step (.cancel "first")).1.bus.bindings.get? ⟨6⟩ = some b ∧
      b.isOpen = false ∧ b.readCapacity = 4096 := by
  intro s
  obtain ⟨-, hkeeps⟩ := dropped_read_keeps {} (twoPeers ++ [.start "b" "first" 16])
  obtain ⟨b, hb, hmap⟩ := Option.map_eq_some_iff.1
    (show (s.bus.bindings.get? ⟨6⟩).map (fun b => (b.isOpen, b.readCapacity)) = some (true, 4096) by decide +kernel)
  obtain ⟨ho, hcapacity⟩ := Prod.mk.inj hmap
  have halone : s.SuspendedAlone ⟨6⟩ "first" := alone_of_keys (suspended_iff.2 (by decide +kernel)) (by decide +kernel)
  obtain ⟨b', hb', hc', -, -, hsame⟩ := hkeeps ⟨6⟩ b "first" (.onBinding "b" .close) hb ho (by decide +kernel) halone
    (by decide +kernel)
  exact ⟨b', hb', hc', hsame.trans hcapacity⟩

/-- Dropping the only suspended read of a closed binding need not leave the read side released. -/
theorem not_released_by_drop :
    ¬ ∀ (config : Config) (ops : List Op) (id : BindingId) (b : Binding) (name holder : String),
      ((new config).run ops).bus.bindings.get? id = some b → b.isOpen = false →
      ((new config).run ops).names.get? holder = some id → ((new config).run ops).SuspendedAlone id name →
      ∃ b', (((new config).run ops).step (.cancel name)).1.bus.bindings.get? id = some b' ∧ b'.readSide = none ∧
        b'.readCapacity = 0 := by
  intro h
  let ops : List Op := twoPeers ++ [.start "b" "first" 16, .onBinding "b" .close]
  obtain ⟨b, hb, hc⟩ := Option.map_eq_some_iff.1
    (show (((new {}).run ops).bus.bindings.get? ⟨6⟩).map (·.isOpen) = some false by decide +kernel)
  have halone : ((new {}).run ops).SuspendedAlone ⟨6⟩ "first" :=
    alone_of_keys (suspended_iff.2 (by decide +kernel)) (by decide +kernel)
  obtain ⟨b', hb', hnone, -⟩ := h {} ops ⟨6⟩ b "first" "b" hb hc (by decide +kernel) halone
  have hkept : ((((new {}).run ops).step (.cancel "first")).1.bus.bindings.get? ⟨6⟩).map (·.readSide.isSome) =
      some true := by decide +kernel
  rw [hb', Option.map_some, hnone] at hkept
  cases hkept

end Session
end TopicBus
