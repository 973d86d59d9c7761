import TopicBus.Proofs.Answers
/-!
# No byte is lost

The bytes that a binding's reads took, followed by those still to be read, are the bytes sent to it since it was opened,
in the order in which they were sent.  It holds after every run of every session, whatever forms of read were mixed and
wherever suspended reads were cancelled: the stream of the binding is a queue, and the history of the run is its record.
The record is what the users were told (`Session.Told`).
-/
namespace TopicBus

namespace Session

variable {config : Config} {ops : List Op} {id : BindingId} {b : Binding}

/-- What was taken from an open binding and what is left are what was sent to it. -/
theorem takenFrom_append_stream (hb : ((new config).run ops).bus.bindings.get? id = some b) (ho : b.isOpen = true) :
    takenFrom id (historyOf config ops) ++ b.stream = sentTo id b.topic b.kind (since id (historyOf config ops)) := by
  have hafter : ((Desk.new config).after ((new config).trail ops)).bus.bindings.get? id = some b := by
    rw [show Desk.new config = (new config).desk from rfl, ← desk_run]
    exact hb
  obtain ⟨pre, post, b₀, hhist, hpre, -, hs₀, hmet⟩ := Desk.exists_opening (Desk.good_new config) rfl hafter
  have hhist' : historyOf config ops = pre ++ .opened id :: post := hhist
  have hbytes := hmet.bytes ho
  rw [hs₀, List.nil_append] at hbytes
  rw [hhist', since_append (not_mem_of_others hpre).1, takenFrom_append, takenFrom_of_others hpre, List.nil_append,
    show b.topic = b₀.topic from congrArg Terms.topic hmet.terms,
    show b.kind = b₀.kind from congrArg Terms.kind hmet.terms, ← hbytes]
  rfl

/-- Cancelling a read moves no byte of any binding. -/
theorem stream_cancel {read : String} {b' : Binding} (hb : ((new config).run ops).bus.bindings.get? id = some b)
    (hb' : ((new config).run (ops ++ [.cancel read])).bus.bindings.get? id = some b') (ho' : b'.isOpen = true) :
    b'.stream = b.stream ∧ b'.toTerms = b.toTerms ∧
      takenFrom id (historyOf config (ops ++ [.cancel read])) = takenFrom id (historyOf config ops) := by
  have hstill : ∀ act ∈ ((new config).run ops).acts (.cancel read), act.moves = false := fun act => still_of_cancelling
  have htaken := Desk.takenFrom_of_still (d := ((new config).run ops).desk) hstill id
  obtain ⟨b₁, hb₁, hmet⟩ := Desk.met_after (good_run config ops) hb (((new config).run ops).acts (.cancel read))
  have hrun : (new config).run (ops ++ [.cancel read]) = (((new config).run ops).step (.cancel read)).1 :=
    run_append ..
  rw [← desk_step, ← hrun] at hb₁
  obtain rfl := Option.some.inj (hb₁.symm.trans hb')
  have hbytes := hmet.bytes ho'
  rw [htaken, Desk.sentTo_of_still hstill, List.nil_append, List.append_nil] at hbytes
  exact ⟨hbytes, hmet.terms, by rw [historyOf_concat, takenFrom_append, htaken, List.append_nil]⟩

/-- **Conservation of the stream.**  At the end of any run, for any binding that is open: the bytes that its reads took
followed by the bytes still to be read are the payloads of the successful writes since it was opened, on its topic, to
the kind of its user and from other bindings, in order.  Cancelling a suspended read moves no byte.  What is said of
reads and writes here is what their users were told. -/
theorem stream_conserved (config : Config) (ops : List Op) {id : BindingId} {b : Binding}
    (hb : ((new config).run ops).bus.bindings.get? id = some b) (ho : b.isOpen = true) :
    (∃ kind, ((new config).run ops).bus.registry.kindOf b.user = .ok kind ∧
      takenFrom id (historyOf config ops) ++ b.stream =
        sentTo id b.topic kind (since id (historyOf config ops))) ∧
    (∀ read b', ((new config).run (ops ++ [.cancel read])).bus.bindings.get? id = some b' → b'.isOpen = true →
      b'.stream = b.stream ∧
        takenFrom id (historyOf config (ops ++ [.cancel read])) = takenFrom id (historyOf config ops) ∧
        sentTo id b.topic b.kind (since id (historyOf config (ops ++ [.cancel read]))) =
          sentTo id b.topic b.kind (since id (historyOf config ops))) ∧
    Told config ops id := by
  have hsent := takenFrom_append_stream hb ho
  refine ⟨⟨b.kind, (good_run config ops).agrees.kindOf_eq hb ho, hsent⟩, fun read b' hb' ho' => ?_, told_historyOf ..⟩
  obtain ⟨hstream, hterms, htaken⟩ := stream_cancel hb hb' ho'
  have hsent' := takenFrom_append_stream hb' ho'
  rw [htaken, hstream, hsent, show b'.topic = b.topic from congrArg Terms.topic hterms,
    show b'.kind = b.kind from congrArg Terms.kind hterms] at hsent'
  exact ⟨hstream, htaken, hsent'.symm⟩

/-- A read that waited is cancelled when its chunk has come: nothing is gone. -/
theorem stream_conserved_cancelled :
    let ops := twoPeers ++ [.onBinding "a" (.write [1, 2, 3]), .start "b" "first" 2, .start "b" "second" 7,
      .start "b" "third" 7, .onBinding "a" (.write [4, 5]), .cancel "third"]
    ∃ b, ((new {}).run ops).bus.bindings.get? ⟨6⟩ = some b ∧ b.isOpen = true ∧ b.stream = [4, 5] ∧
      takenFrom ⟨6⟩ (historyOf {} ops) = [1, 2, 3] ∧
      ∃ kind, ((new {}).run ops).bus.registry.kindOf b.user = .ok kind ∧
        takenFrom ⟨6⟩ (historyOf {} ops) ++ b.stream = sentTo ⟨6⟩ b.topic kind (since ⟨6⟩ (historyOf {} ops)) := by
  intro ops
  exact ⟨_, rfl, rfl, rfl, rfl, (stream_conserved {} ops rfl rfl).1⟩

end Session
end TopicBus
