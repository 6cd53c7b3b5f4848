import Ohara.Embed.BatchingDesk
import Ohara.Library.Execution

/-!
# The coalescer is transparent

Every request gets one reply, an `Ok` reply holds the vectors the inner embedder returned for the
rows of the request, and each row is dispatched once, in the order of arrival.
-/

namespace Ohara

namespace Batching

variable {rows : List Row} {texts : List String}

namespace Coalescer

/-- Every row of the requests, in the order of arrival. -/
def rowsReceived (received : List (List String)) : List Row :=
    (received.mapIdx rowsOf).flatten

/-- The batch sizes that are dispatched. -/
def Sized (batchRows : Nat) (rows : List Row) : Prop :=
    rows ≠ [] ∧ rows.length ≤ max batchRows 1

/-- What the phase of the task says about its queue. -/
def PhaseSound (batchRows : Nat) (s : Coalescer) : Prop :=
    match s.phase with
    | .looping => True
    | .embedding rows last => Sized batchRows rows ∧
        (last = true → s.pending = [] ∧ s.channel = [] ∧ s.closed = true)
    | .stopped => s.pending = [] ∧ s.channel = [] ∧ s.closed = true
    | .panicked => False

/-- The invariant of the coalescing task. -/
structure Inv (batchRows : Nat) (s : Coalescer) : Prop where
  ids : s.nextId = s.received.length
  numbered : s.channel.map Request.reply = List.range' s.received.length s.channel.length
  nonempty : ∀ request ∈ s.channel, request.texts ≠ []
  rows : s.batches.flatMap Batch.rows ++ (s.inFlight ++ s.pending) = rowsReceived s.received
  sized : ∀ batch ∈ s.batches, Sized batchRows batch.rows
  phase : s.PhaseSound batchRows
  desk : DeskSound s.received s.batches (s.inFlight ++ s.pending) s.desk

theorem inv_start (batchRows : Nat) : Inv batchRows start where
  ids := rfl
  numbered := rfl
  nonempty := by simp [start]
  rows := rfl
  sized := by simp [start]
  phase := trivial
  desk := by
    constructor
    all_goals simp [start]

theorem mem_rowsReceived {received : List (List String)} {row : Row} :
    row ∈ rowsReceived received ↔ row.Requested received := by
  simp only [rowsReceived, List.mem_flatten, List.mem_mapIdx, Row.Requested]
  constructor
  · rintro ⟨_, ⟨id, bound, rfl⟩, row_mem⟩
    rcases List.mem_mapIdx.1 row_mem with ⟨idx, idx_bound, rfl⟩
    exact ⟨received[id], List.getElem?_eq_getElem bound, List.getElem?_eq_getElem idx_bound⟩
  · rintro ⟨texts, texts_at, text_at⟩
    rcases List.getElem?_eq_some_iff.1 texts_at with ⟨bound, rfl⟩
    rcases List.getElem?_eq_some_iff.1 text_at with ⟨idx_bound, same⟩
    refine ⟨_, ⟨row.id, bound, rfl⟩, List.mem_mapIdx.2 ⟨row.idx, idx_bound, ?_⟩⟩
    rw [same]

theorem rowsReceived_append (received : List (List String)) (texts : List String) :
    rowsReceived (received ++ [texts]) = rowsReceived received ++ rowsOf received.length texts := by
  simp [rowsReceived, List.mapIdx_append]

variable {batchRows : Nat} {s s' : Coalescer}

theorem Inv.send (inv : Inv batchRows s) (sent : s.send texts = some s') : Inv batchRows s' := by
  simp only [Coalescer.send, Bool.or_eq_true, decide_eq_true_eq] at sent
  split at sent
  · cases sent
  · next free =>
      simp only [not_or, List.isEmpty_iff, Bool.not_eq_true] at free
      cases sent
      constructor
      · exact inv.ids
      · simp only [List.map_append, inv.numbered, List.map_cons, List.map_nil, List.length_append,
          List.length_singleton, accepted, List.length_map, List.range'_concat, Nat.one_mul]
      · intro request request_mem
        rcases List.mem_append.1 request_mem with request_mem | request_mem
        · exact inv.nonempty request request_mem
        · rw [List.mem_singleton.1 request_mem]
          exact free.1.1
      · exact inv.rows
      · exact inv.sized
      · have phase := inv.phase
        simp only [PhaseSound] at phase ⊢
        split
        · trivial
        · next rows last at_phase =>
            simp only [at_phase] at phase
            refine ⟨phase.1, fun is_last => ?_⟩
            rw [(phase.2 is_last).2.2] at free
            exact absurd free.1.2 (by simp)
        · next at_phase =>
            simp only [at_phase] at phase
            rw [phase.2.2] at free
            exact absurd free.1.2 (by simp)
        · next at_phase => simp only [at_phase] at phase
      · exact inv.desk

/-- Receiving takes the first request of the channel and numbers it. -/
theorem receive_cases (received : s.receive batchRows = some s') :
    ∃ request channel, s.channel = request :: channel ∧ s' = { s with
      channel := channel
      pending := s.pending ++ rowsOf s.nextId request.texts
      desk := s.desk.enqueue s.nextId request
      nextId := s.nextId + 1
      received := s.received ++ [request.texts] } := by
  rw [Coalescer.receive] at received
  split at received
  · cases received
  · split at received
    · cases received
    · next request channel on_channel =>
        cases received
        exact ⟨request, channel, on_channel, rfl⟩

theorem Inv.receive (inv : Inv batchRows s) (looping : s.phase = .looping)
    (received : s.receive batchRows = some s') : Inv batchRows s' := by
  rcases receive_cases received with ⟨request, channel, on_channel, rfl⟩
  have numbered := inv.numbered
  have nonempty := inv.nonempty
  rw [on_channel, List.map_cons, List.length_cons, List.range'_succ, List.cons.injEq]
    at numbered
  rw [on_channel, List.forall_mem_cons] at nonempty
  have rows := inv.rows
  have desk := inv.desk
  simp only [inFlight, looping, List.nil_append] at rows desk
  constructor
  · simp [inv.ids]
  · simpa using numbered.2
  · exact nonempty.2
  · simp only [inFlight, looping, List.nil_append, inv.ids]
    rw [rowsReceived_append, ← rows, List.append_assoc]
  · exact inv.sized
  · simp only [PhaseSound, looping]
  · simp only [inFlight, looping, List.nil_append, inv.ids]
    exact desk.enqueue numbered.1 nonempty.1

theorem Inv.dispatch (inv : Inv batchRows s) (looping : s.phase = .looping)
    (dispatched : s.dispatch batchRows = some s') : Inv batchRows s' := by
  have rows := inv.rows
  have desk := inv.desk
  simp only [inFlight, looping, List.nil_append] at rows desk
  rw [Coalescer.dispatch] at dispatched
  split at dispatched
  · next full =>
      cases dispatched
      constructor
      · exact inv.ids
      · exact inv.numbered
      · exact inv.nonempty
      · simpa only [inFlight, List.take_append_drop] using rows
      · exact inv.sized
      · refine ⟨⟨?_, ?_⟩, by simp⟩
        · apply List.ne_nil_of_length_pos
          rw [List.length_take]
          omega
        · rw [List.length_take]
          exact Nat.min_le_left _ _
      · simpa only [inFlight, List.take_append_drop] using desk
  · next partial_batch =>
      split at dispatched
      · cases dispatched
      · next flush =>
          simp only [Bool.or_eq_true, not_or, List.isEmpty_iff, Bool.not_eq_true'] at flush
          cases dispatched
          constructor
          · exact inv.ids
          · exact inv.numbered
          · exact inv.nonempty
          · simpa only [inFlight, List.append_nil] using rows
          · exact inv.sized
          · refine ⟨⟨flush.1, by omega⟩, fun closed => ⟨rfl, ?_, closed⟩⟩
            simpa using flush.2
          · simpa only [inFlight, List.append_nil] using desk

theorem Inv.answer (inv : Inv batchRows s) {last : Bool} {result : Except String (List Vector)}
    (embedding : s.phase = .embedding rows last) : Inv batchRows (s.answer rows last result) := by
  have rows_so_far := inv.rows
  have desk := inv.desk
  have phase := inv.phase
  simp only [inFlight, embedding] at rows_so_far desk
  simp only [PhaseSound, embedding] at phase
  have requested : ∀ row ∈ rows, row.Requested s.received := by
    intro row row_mem
    rw [← mem_rowsReceived, ← rows_so_far]
    simp [row_mem]
  have given : ∃ desk', s.desk.settle ⟨rows, result⟩ = some desk' ∧
      DeskSound s.received (s.batches ++ [⟨rows, result⟩]) s.pending desk' :=
    DeskSound.settle desk requested
  rcases given with ⟨desk', settled, sound⟩
  have rows_after : (s.batches ++ [(⟨rows, result⟩ : Batch)]).flatMap Batch.rows ++ s.pending =
      rowsReceived s.received := by
    rw [← rows_so_far]
    simp
  have sized : ∀ batch ∈ s.batches ++ [(⟨rows, result⟩ : Batch)], Sized batchRows batch.rows := by
    intro batch batch_mem
    rcases List.mem_append.1 batch_mem with batch_mem | batch_mem
    · exact inv.sized batch batch_mem
    · rw [List.mem_singleton.1 batch_mem]
      exact phase.1
  rw [Coalescer.answer, settled]
  cases last with
  | false => exact ⟨inv.ids, inv.numbered, inv.nonempty, rows_after, sized, trivial, sound⟩
  | true => exact ⟨inv.ids, inv.numbered, inv.nonempty, rows_after, sized, phase.2 rfl, sound⟩

theorem Inv.close (inv : Inv batchRows s) : Inv batchRows { s with closed := true } where
  ids := inv.ids
  numbered := inv.numbered
  nonempty := inv.nonempty
  rows := inv.rows
  sized := inv.sized
  phase := by
    have phase := inv.phase
    simp only [PhaseSound] at phase ⊢
    split
    · trivial
    · next rows last at_phase =>
        simp only [at_phase] at phase
        exact ⟨phase.1, fun is_last => ⟨(phase.2 is_last).1, (phase.2 is_last).2.1, trivial⟩⟩
    · next at_phase =>
        simp only [at_phase] at phase
        exact ⟨phase.1, phase.2.1, trivial⟩
    · next at_phase => simp only [at_phase] at phase
  desk := inv.desk

theorem Inv.stop (inv : Inv batchRows s) (looping : s.phase = .looping)
    (drained : s.pending = [] ∧ s.channel = [] ∧ s.closed = true) :
    Inv batchRows { s with phase := .stopped } where
  ids := inv.ids
  numbered := inv.numbered
  nonempty := inv.nonempty
  rows := by
    have rows := inv.rows
    simp only [inFlight, looping] at rows
    exact rows
  sized := inv.sized
  phase := drained
  desk := by
    have desk := inv.desk
    simp only [inFlight, looping] at desk
    exact desk

theorem inv_next (s : Coalescer) (label : Label) (s' : Coalescer) (inv : Inv batchRows s)
    (stepped : next batchRows s label = some s') : Inv batchRows s' := by
  simp only [next] at stepped
  split at stepped
  · exact inv.send stepped
  · split at stepped
    · cases stepped
    · cases stepped
      exact inv.close
  · next looping => exact inv.receive looping stepped
  · next looping => exact inv.dispatch looping stepped
  · next looping =>
      split at stepped
      · next drained =>
          cases stepped
          simp only [Bool.and_eq_true, List.isEmpty_iff] at drained
          exact inv.stop looping ⟨drained.1.1, drained.1.2, drained.2⟩
      · cases stepped
  · next embedding =>
      cases stepped
      exact inv.answer embedding
  · cases stepped

/-! ## What the callers see -/

/-- The steps that the task takes by itself; the others are its callers'. -/
def OfTask : Label → Prop
  | .send _ => False
  | .close => False
  | _ => True

/-- The reply is made of the inner embedder's rows for exactly the texts of the request. -/
def AnswerOf (batches : List Batch) (id : Nat) (texts : List String) : Reply → Prop
  | .ok vectors => vectors.length = texts.length ∧
      ∀ idx text vector, texts[idx]? = some text → vectors[idx]? = some vector →
        ∃ batch ∈ batches, ∃ answered, batch.answer = .ok answered ∧
          answered.length = batch.rows.length ∧ ∃ p : Nat, batch.rows[p]? = some ⟨id, idx, text⟩ ∧
            answered[p]? = some vector
  | .error _ => ∃ batch ∈ batches, batch.Failed ∧ ∃ row ∈ batch.rows, row.id = id

/-- The rows that were given to the inner embedder, in the order they were. -/
def dispatched (s : Coalescer) : List Row :=
    s.batches.flatMap Batch.rows ++ s.inFlight

/-- Every accepted request has been replied to. -/
def AllReplied (s : Coalescer) : Prop :=
    ∀ id < s.accepted.length, id ∈ s.desk.replies.map Prod.fst

/-- What a caller and the inner embedder may rely on. -/
structure Transparent (batchRows : Nat) (s : Coalescer) : Prop where
  no_panic : s.phase ≠ .panicked
  one_reply : (s.desk.replies.map Prod.fst).Nodup
  answers : ∀ id reply, (id, reply) ∈ s.desk.replies →
    ∃ texts, s.accepted[id]? = some texts ∧ AnswerOf s.batches id texts reply
  arrival : s.dispatched <+: rowsReceived s.accepted
  once : (s.dispatched.map fun row => (row.id, row.idx)).Nodup
  batches : ∀ batch ∈ s.batches, Sized batchRows batch.rows
  batch : s.inFlight ≠ [] → Sized batchRows s.inFlight
  drained : s.phase = .stopped ∨ s.phase = .looping ∧ s.pending = [] ∧ s.channel = [] →
    s.AllReplied

theorem mem_rowsOf {id : Nat} {texts : List String} {row : Row} (row_mem : row ∈ rowsOf id texts) :
    row.id = id := by
  rcases List.mem_mapIdx.1 row_mem with ⟨idx, bound, rfl⟩
  rfl

/-- Rows are told apart by their request and their place in it. -/
theorem nodup_rowsReceived (received : List (List String)) :
    ((rowsReceived received).map fun row => (row.id, row.idx)).Nodup := by
  induction received using List.reverseRecOn with
  | nil => simp [rowsReceived]
  | append_singleton received texts ih =>
      rw [rowsReceived_append, List.map_append]
      apply ih.append
      · have keys : (rowsOf received.length texts).map (fun row => (row.id, row.idx)) =
            (List.range texts.length).map fun idx => (received.length, idx) := by
          apply List.ext_getElem
          · simp [rowsOf]
          · intro idx _ _
            simp [rowsOf]
        rw [keys]
        apply List.Nodup.map _ List.nodup_range
        intro idx idx' same
        exact (Prod.mk.inj same).2
      · intro key key_mem key_mem'
        rcases List.mem_map.1 key_mem with ⟨row, row_mem, rfl⟩
        rcases List.mem_map.1 key_mem' with ⟨row', row_mem', same⟩
        rcases mem_rowsReceived.1 row_mem with ⟨_, texts_at, -⟩
        have bound := (List.getElem?_eq_some_iff.1 texts_at).1
        have same_id := (Prod.mk.inj same).1
        rw [mem_rowsOf row_mem'] at same_id
        omega

theorem Inv.transparent (inv : Inv batchRows s) : Transparent batchRows s := by
  have dispatched_rows : s.dispatched <+: rowsReceived s.received :=
    ⟨s.pending, by rw [dispatched, List.append_assoc, inv.rows]⟩
  have accepted_prefix : rowsReceived s.received <+: rowsReceived s.accepted := by
    rw [accepted, rowsReceived, rowsReceived, List.mapIdx_append, List.flatten_append]
    exact List.prefix_append _ _
  constructor
  · intro panicked
    have phase := inv.phase
    simp only [PhaseSound, panicked] at phase
  · exact inv.desk.nodup
  · intro id reply mem
    rcases inv.desk.truthful id reply mem with ⟨texts, requested, truthful⟩
    refine ⟨texts, ?_, ?_⟩
    · rw [accepted, List.getElem?_append_left (List.getElem?_eq_some_iff.1 requested).1, requested]
    · cases reply with
      | error e => exact truthful
      | ok vectors =>
          refine ⟨truthful.1, ?_⟩
          intro idx text vector text_at vector_at
          rcases truthful.2 idx vector vector_at with
            ⟨batch, batch_mem, answered, answer, count, p, row, row_at, rfl, rfl, answered_at⟩
          refine ⟨batch, batch_mem, answered, answer, count, p, ?_, answered_at⟩
          have row_mem : row ∈ rowsReceived s.received := by
            rw [← inv.rows]
            apply List.mem_append_left
            exact List.mem_flatMap.2 ⟨batch, batch_mem, List.mem_of_getElem? row_at⟩
          rcases mem_rowsReceived.1 row_mem with ⟨texts', texts_at, row_text⟩
          rw [requested] at texts_at
          cases texts_at
          rw [text_at] at row_text
          cases row_text
          exact row_at
  · exact dispatched_rows.trans accepted_prefix
  · exact (dispatched_rows.sublist.map _).nodup (nodup_rowsReceived s.received)
  · exact inv.sized
  · intro in_flight
    have phase := inv.phase
    simp only [PhaseSound, inFlight] at phase in_flight ⊢
    split at phase
    · next looping => simp [looping] at in_flight
    · next rows last embedding =>
        simp only [embedding]
        exact phase.1
    · next stopped => simp [stopped] at in_flight
    · exact phase.elim
  · intro drained
    have empty : s.pending = [] ∧ s.channel = [] ∧ s.inFlight = [] := by
      have phase := inv.phase
      rcases drained with stopped | ⟨looping, none_pending, none_sent⟩
      · simp only [PhaseSound, stopped] at phase
        exact ⟨phase.1, phase.2.1, by simp [inFlight, stopped]⟩
      · exact ⟨none_pending, none_sent, by simp [inFlight, looping]⟩
    intro id bound
    rw [accepted, empty.2.1, List.map_nil, List.append_nil] at bound
    apply inv.desk.replied id bound
    cases found : s.desk.reqs id with
    | none => rfl
    | some state =>
        -- a waiting request has an outstanding row, but there is none
        rcases inv.desk.waiting id state found with ⟨texts, requested, waiting⟩
        have positive := waiting.positive
        rw [waiting.remaining, List.count_pos_iff] at positive
        rcases List.getElem?_of_mem positive with ⟨idx, missing⟩
        rcases waiting.missing idx missing with ⟨row, row_mem, -⟩
        rw [empty.1, empty.2.2] at row_mem
        cases row_mem

/-! ## The task gets through its queue -/

/-- What the phase counts for in the measure of the drain. -/
def phaseWork : Phase → Nat
  | .looping => 1
  | .embedding _ _ => 2
  | _ => 0

/-- A bound on the steps the task takes before it needs another request. -/
def workLeft (s : Coalescer) : Nat :=
    (s.channel.map fun request => 2 * request.texts.length + 1).sum + 2 * s.pending.length +
      phaseWork s.phase

theorem workLeft_receive (received : s.receive batchRows = some s') :
    s'.workLeft < s.workLeft := by
  rcases receive_cases received with ⟨request, channel, on_channel, rfl⟩
  simp only [workLeft, on_channel, List.map_cons, List.sum_cons, List.length_append, rowsOf,
    List.length_mapIdx]
  omega

theorem workLeft_dispatch (looping : s.phase = .looping)
    (dispatched : s.dispatch batchRows = some s') : s'.workLeft < s.workLeft := by
  rw [Coalescer.dispatch] at dispatched
  split at dispatched
  · next full =>
      cases dispatched
      simp only [workLeft, looping, phaseWork, List.length_drop]
      omega
  · split at dispatched
    · cases dispatched
    · next flush =>
        simp only [Bool.or_eq_true, not_or, List.isEmpty_iff] at flush
        have some_row := List.length_pos_iff.2 flush.1
        cases dispatched
        simp only [workLeft, looping, phaseWork, List.length_nil]
        omega

/-- Every step of the task uses up work. -/
theorem workLeft_lt {label : Label} (own : OfTask label)
    (stepped : next batchRows s label = some s') : s'.workLeft < s.workLeft := by
  simp only [next] at stepped
  split at stepped
  · exact own.elim
  · exact own.elim
  · exact workLeft_receive stepped
  · next looping => exact workLeft_dispatch looping stepped
  · next looping =>
      split at stepped
      · cases stepped
        simp [workLeft, looping, phaseWork]
      · cases stepped
  · next result rows last embedding =>
      cases stepped
      rw [Coalescer.answer]
      split
      · simp [workLeft, embedding, phaseWork]
      · cases last <;> simp [workLeft, embedding, phaseWork]
  · cases stepped

/-- When the task has no step left it has stopped, or waits for a request with nothing queued. -/
theorem waits_of_no_step (inv : Inv batchRows s)
    (idle : ∀ label, OfTask label → next batchRows s label = none) :
    s.phase = .stopped ∨
      s.phase = .looping ∧ s.pending = [] ∧ s.channel = [] ∧ s.closed = false := by
  cases phase : s.phase with
  | looping =>
      right
      have no_receive := idle .receive trivial
      have no_dispatch := idle .dispatch trivial
      have no_stop := idle .stop trivial
      simp only [next, phase] at no_receive no_dispatch no_stop
      rw [Coalescer.dispatch] at no_dispatch
      split at no_dispatch
      · cases no_dispatch
      · next not_full =>
          rw [Coalescer.receive, if_neg not_full] at no_receive
          have none_sent : s.channel = [] := by
            cases on_channel : s.channel with
            | nil => rfl
            | cons request channel => simp [on_channel] at no_receive
          have none_pending : s.pending = [] := by simpa [none_sent] using no_dispatch
          refine ⟨rfl, none_pending, none_sent, ?_⟩
          simpa [none_pending, none_sent] using no_stop
  | embedding rows last =>
      have answered := idle (.answer (.error "")) trivial
      simp [next, phase] at answered
  | stopped => exact Or.inl rfl
  | panicked =>
      have sound := inv.phase
      simp only [PhaseSound, phase] at sound

/-- A run whose first batch is embedded and whose second one is refused. -/
def secondBatchFails : List Label :=
    [.send ["a"], .send ["b", "c"], .receive, .receive, .dispatch, .send ["d"],
      .answer (.ok [[1], [2]]), .receive, .dispatch, .close, .answer (.error "busy"), .stop]

/-- The coalescer does not show: each request is replied to once, with its own rows or with an error
of a batch that had one of them, and by the time the task waits or ends all requests are. The steps
of the task run out unless a request comes in. -/
theorem batching_transparent (batchRows : Nat) (labels : List Label) (s : Coalescer)
    (ran : Execution.run (next batchRows) start labels = some s) :
    Transparent batchRows s ∧
      (∀ label s', OfTask label → next batchRows s label = some s' → s'.workLeft < s.workLeft) ∧
      ((∀ label, OfTask label → next batchRows s label = none) →
        s.AllReplied ∧ (s.closed = true → s.phase = .stopped)) := by
  have inv := Execution.invariant (Inv batchRows) inv_next (inv_start batchRows) ran
  refine ⟨inv.transparent, fun label s' own => workLeft_lt own, ?_⟩
  intro idle
  rcases waits_of_no_step inv idle with stopped | ⟨looping, none_pending, none_sent, still_open⟩
  · exact ⟨inv.transparent.drained (Or.inl stopped), fun _ => stopped⟩
  · refine ⟨inv.transparent.drained (Or.inr ⟨looping, none_pending, none_sent⟩), ?_⟩
    intro closed
    rw [still_open] at closed
    cases closed

/-- Three requests in batches of two; the first batch goes through and the second one fails. -/
theorem batching_transparent_of_failed_batch : ∃ s,
    Execution.run (next 2) start secondBatchFails = some s ∧
      s.desk.replies = [(0, .ok [[1]]), (1, .error (.embedding "busy")),
        (2, .error (.embedding "busy"))] ∧
      Transparent 2 s := by
  refine ⟨_, rfl, rfl, ?_⟩
  exact (batching_transparent 2 secondBatchFails _ rfl).1

end Coalescer

end Batching

end Ohara
