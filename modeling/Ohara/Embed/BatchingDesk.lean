import Mathlib.Data.List.Nodup
import Ohara.Embed.Batching

/-!
# The requests in flight

Of each request that was received, the desk says that it waits with an empty slot for each of its
outstanding rows, or that it has its reply. What a batch does to the desk keeps it so.
-/

namespace Ohara

namespace Batching

/-- The inner embedder was asked for the row and returned the vector for it. -/
def Delivered (batches : List Batch) (id idx : Nat) (vector : Vector) : Prop :=
    ∃ batch ∈ batches, ∃ vectors, batch.answer = .ok vectors ∧
      vectors.length = batch.rows.length ∧ ∃ (p : Nat) (row : Row), batch.rows[p]? = some row ∧
        row.id = id ∧ row.idx = idx ∧ vectors[p]? = some vector

/-- The inner embedder returned an error or the wrong number of rows. -/
def Batch.Failed (batch : Batch) : Prop :=
    ∀ vectors, batch.answer = .ok vectors → vectors.length ≠ batch.rows.length

/-- The reply is what the batches say about the rows of the request. -/
def Truthful (batches : List Batch) (id : Nat) (texts : List String) : Reply → Prop
  | .ok vectors => vectors.length = texts.length ∧
      ∀ idx vector, vectors[idx]? = some vector → Delivered batches id idx vector
  | .error _ => ∃ batch ∈ batches, batch.Failed ∧ ∃ row ∈ batch.rows, row.id = id

/-- A request waits for its outstanding rows, and for one at least. -/
structure Waiting (batches : List Batch) (outstanding : List Row) (id : Nat) (texts : List String)
    (state : ReqState) : Prop where
  reply : state.reply = id
  length : state.slots.length = texts.length
  remaining : state.remaining = state.slots.count none
  positive : 0 < state.remaining
  missing : ∀ idx, state.slots[idx]? = some none → ∃ row ∈ outstanding, row.id = id ∧ row.idx = idx
  filled : ∀ idx vector, state.slots[idx]? = some (some vector) → Delivered batches id idx vector

/-- Every waiting request lacks the vectors of its outstanding rows, every reply is the right
one. -/
structure DeskSound (received : List (List String)) (batches : List Batch) (outstanding : List Row)
    (desk : Desk) : Prop where
  waiting : ∀ id state, desk.reqs id = some state →
    ∃ texts, received[id]? = some texts ∧ Waiting batches outstanding id texts state
  unreplied : ∀ id state, desk.reqs id = some state → id ∉ desk.replies.map Prod.fst
  replied : ∀ id < received.length, desk.reqs id = none → id ∈ desk.replies.map Prod.fst
  nodup : (desk.replies.map Prod.fst).Nodup
  truthful : ∀ id reply, (id, reply) ∈ desk.replies →
    ∃ texts, received[id]? = some texts ∧ Truthful batches id texts reply

variable {received : List (List String)} {batches : List Batch} {outstanding rows : List Row}
  {desk : Desk} {id idx : Nat} {texts : List String} {state : ReqState} {vector : Vector}
  {row : Row} {result : Reply}

theorem Delivered.append (delivered : Delivered batches id idx vector) (more : List Batch) :
    Delivered (batches ++ more) id idx vector := by
  rcases delivered with ⟨batch, batch_mem, delivered⟩
  exact ⟨batch, List.mem_append_left more batch_mem, delivered⟩

theorem Truthful.append (truthful : Truthful batches id texts result) (more : List Batch) :
    Truthful (batches ++ more) id texts result := by
  cases result with
  | ok vectors =>
      exact ⟨truthful.1, fun idx vector at_idx => (truthful.2 idx vector at_idx).append more⟩
  | error e =>
      rcases truthful with ⟨batch, batch_mem, failed⟩
      exact ⟨batch, List.mem_append_left more batch_mem, failed⟩

theorem DeskSound.append (sound : DeskSound received batches outstanding desk)
    (more : List Batch) : DeskSound received (batches ++ more) outstanding desk where
  waiting := by
    intro id state found
    rcases sound.waiting id state found with ⟨texts, requested, waiting⟩
    exact ⟨texts, requested, waiting.reply, waiting.length, waiting.remaining, waiting.positive,
      waiting.missing, fun idx vector at_idx => (waiting.filled idx vector at_idx).append more⟩
  unreplied := sound.unreplied
  replied := sound.replied
  nodup := sound.nodup
  truthful := by
    intro id reply mem
    rcases sound.truthful id reply mem with ⟨texts, requested, truthful⟩
    exact ⟨texts, requested, truthful.append more⟩

theorem DeskSound.shrink (sound : DeskSound received batches (rows ++ outstanding) desk)
    (settled : ∀ row ∈ rows, desk.reqs row.id = none) :
    DeskSound received batches outstanding desk where
  waiting := by
    intro id state found
    rcases sound.waiting id state found with ⟨texts, requested, waiting⟩
    refine ⟨texts, requested, waiting.reply, waiting.length, waiting.remaining, waiting.positive,
      ?_, waiting.filled⟩
    intro idx empty
    rcases waiting.missing idx empty with ⟨row, row_mem, rfl, rfl⟩
    rcases List.mem_append.1 row_mem with row_mem | row_mem
    · rw [settled row row_mem] at found
      cases found
    · exact ⟨row, row_mem, rfl, rfl⟩
  unreplied := sound.unreplied
  replied := sound.replied
  nodup := sound.nodup
  truthful := sound.truthful

theorem DeskSound.reply (sound : DeskSound received batches outstanding desk)
    (found : desk.reqs id = some state) (requested : received[id]? = some texts)
    (truthful : Truthful batches id texts result) :
    DeskSound received batches outstanding (desk.reply id state result) := by
  rcases sound.waiting id state found with ⟨texts', requested', waiting⟩
  have fresh := sound.unreplied id state found
  constructor
  · intro id' state' found'
    by_cases same : id' = id
    · simp [Desk.reply, same] at found'
    · simp only [Desk.reply, Function.update_of_ne same] at found'
      exact sound.waiting id' state' found'
  · intro id' state' found'
    by_cases same : id' = id
    · simp [Desk.reply, same] at found'
    · simp only [Desk.reply, Function.update_of_ne same] at found'
      simp only [Desk.reply, List.map_append, List.map_cons, List.map_nil, List.mem_append,
        List.mem_singleton, waiting.reply, same, or_false]
      exact sound.unreplied id' state' found'
  · intro id' bound none_left
    simp only [Desk.reply, List.map_append, List.map_cons, List.map_nil, List.mem_append,
      List.mem_singleton, waiting.reply]
    by_cases same : id' = id
    · exact Or.inr same
    · simp only [Desk.reply, Function.update_of_ne same] at none_left
      exact Or.inl (sound.replied id' bound none_left)
  · simp only [Desk.reply, List.map_append, List.map_cons, List.map_nil, waiting.reply]
    exact sound.nodup.append (List.nodup_singleton id) (by simpa using fresh)
  · intro id' reply mem
    rcases List.mem_append.1 mem with mem | mem
    · exact sound.truthful id' reply mem
    · rw [List.mem_singleton, waiting.reply] at mem
      cases mem
      exact ⟨texts, requested, truthful⟩

theorem DeskSound.update (sound : DeskSound received batches (row :: outstanding) desk)
    (found : desk.reqs row.id = some state) (requested : received[row.id]? = some texts)
    {filled : ReqState} (waiting : Waiting batches outstanding row.id texts filled) :
    DeskSound received batches outstanding
      { desk with reqs := Function.update desk.reqs row.id (some filled) } where
  waiting := by
    intro id state' found'
    by_cases same : id = row.id
    · subst same
      simp only [Function.update_self] at found'
      cases found'
      exact ⟨texts, requested, waiting⟩
    · simp only [Function.update_of_ne same] at found'
      rcases sound.waiting id state' found' with ⟨texts', requested', waiting'⟩
      refine ⟨texts', requested', waiting'.reply, waiting'.length, waiting'.remaining,
        waiting'.positive, ?_, waiting'.filled⟩
      intro idx empty
      rcases waiting'.missing idx empty with ⟨other, other_mem, rfl, rfl⟩
      rcases List.mem_cons.1 other_mem with rfl | other_mem
      · exact absurd rfl same
      · exact ⟨other, other_mem, rfl, rfl⟩
  unreplied := by
    intro id state' found'
    by_cases same : id = row.id
    · subst same
      exact sound.unreplied _ state found
    · simp only [Function.update_of_ne same] at found'
      exact sound.unreplied id state' found'
  replied := by
    intro id bound none_left
    by_cases same : id = row.id
    · subst same
      simp only [Function.update_self] at none_left
      cases none_left
    · simp only [Function.update_of_ne same] at none_left
      exact sound.replied id bound none_left
  nodup := sound.nodup
  truthful := sound.truthful

theorem mapM_slots {slots : List (Option Vector)} (full : slots.count none = 0) :
    ∃ vectors, slots.mapM (fun slot => slot) = some vectors ∧ slots = vectors.map some := by
  induction slots with
  | nil => exact ⟨[], rfl, rfl⟩
  | cons slot rest ih =>
      cases slot with
      | none => simp at full
      | some vector =>
          rw [List.count_cons_of_ne (by simp)] at full
          rcases ih full with ⟨vectors, taken, same⟩
          refine ⟨vector :: vectors, ?_, by rw [same, List.map_cons]⟩
          rw [List.mapM_cons, taken]
          rfl

theorem count_fill {slots : List (Option Vector)} (empty : slots[idx]? = some none)
    (vector : Vector) : (slots.set idx (some vector)).count none = slots.count none - 1 := by
  rcases List.getElem?_eq_some_iff.1 empty with ⟨bound, at_idx⟩
  rw [List.count_set bound, at_idx]
  simp

/-- Filling the slot of a row leaves the request waiting for the others, if there are any. -/
theorem Waiting.fill (waiting : Waiting batches (row :: outstanding) row.id texts state)
    (empty : state.slots[row.idx]? = some none)
    (delivered : Delivered batches row.id row.idx vector) (left : 0 < state.remaining - 1) :
    Waiting batches outstanding row.id texts
      { state with
        slots := state.slots.set row.idx (some vector)
        remaining := state.remaining - 1 } where
  reply := waiting.reply
  length := by rw [List.length_set, waiting.length]
  remaining := by rw [count_fill empty, waiting.remaining]
  positive := left
  missing := by
    intro idx still_empty
    by_cases same : row.idx = idx
    · subst same
      rcases List.getElem?_eq_some_iff.1 empty with ⟨bound, -⟩
      rw [List.getElem?_set_self bound] at still_empty
      cases still_empty
    · rw [List.getElem?_set_ne same] at still_empty
      rcases waiting.missing idx still_empty with ⟨other, other_mem, same_id, rfl⟩
      rcases List.mem_cons.1 other_mem with rfl | other_mem
      · exact absurd rfl same
      · exact ⟨other, other_mem, same_id, rfl⟩
  filled := by
    intro idx vector' at_idx
    by_cases same : row.idx = idx
    · subst same
      rcases List.getElem?_eq_some_iff.1 empty with ⟨bound, -⟩
      rw [List.getElem?_set_self bound] at at_idx
      cases at_idx
      exact delivered
    · rw [List.getElem?_set_ne same] at at_idx
      exact waiting.filled idx vector' at_idx

/-- With its last slot filled a request has a reply from the inner embedder. -/
theorem Waiting.full (waiting : Waiting batches (row :: outstanding) row.id texts state)
    (empty : state.slots[row.idx]? = some none)
    (delivered : Delivered batches row.id row.idx vector) (last : state.remaining - 1 = 0) :
    ∃ vectors, (state.slots.set row.idx (some vector)).mapM (fun slot => slot) = some vectors ∧
      Truthful batches row.id texts (.ok vectors) := by
  have full : (state.slots.set row.idx (some vector)).count none = 0 := by
    rw [count_fill empty, ← waiting.remaining, last]
  rcases mapM_slots full with ⟨vectors, taken, same⟩
  refine ⟨vectors, taken, ?_, ?_⟩
  · have same_length := congrArg List.length same
    rw [List.length_set, List.length_map, waiting.length] at same_length
    exact same_length.symm
  · intro idx vector' at_idx
    have slot : (state.slots.set row.idx (some vector))[idx]? = some (some vector') := by
      rw [same, List.getElem?_map, at_idx]
      rfl
    by_cases here : row.idx = idx
    · subst here
      rcases List.getElem?_eq_some_iff.1 empty with ⟨bound, -⟩
      rw [List.getElem?_set_self bound] at slot
      cases slot
      exact delivered
    · rw [List.getElem?_set_ne here] at slot
      exact waiting.filled idx vector' slot

/-- A vector is given out without a panic, and its row is done with. -/
theorem DeskSound.scatter (sound : DeskSound received batches (row :: outstanding) desk)
    (requested : received[row.id]? = some texts) (bound : row.idx < texts.length)
    (delivered : Delivered batches row.id row.idx vector) :
    ∃ desk', desk.scatter row vector = some desk' ∧
      DeskSound received batches outstanding desk' := by
  rw [Desk.scatter]
  cases found : desk.reqs row.id with
  | none =>
      have settled : ∀ other ∈ [row], desk.reqs other.id = none := by
        intro other other_mem
        rw [List.mem_singleton.1 other_mem, found]
      exact ⟨desk, rfl, sound.shrink settled⟩
  | some state =>
      rcases sound.waiting row.id state found with ⟨texts', requested', waiting⟩
      rw [requested] at requested'
      cases requested'
      have slot_bound : row.idx < state.slots.length := by
        rw [waiting.length]
        exact bound
      simp only [Desk.fillSlot]
      cases slot : state.slots[row.idx]? with
      | none =>
          rw [List.getElem?_eq_none_iff] at slot
          omega
      | some content =>
          cases content with
          | some old =>
              -- the slot is full already, so nobody waits for the row
              have positive := waiting.positive
              simp only [if_neg (Nat.ne_of_gt positive)]
              refine ⟨_, rfl, sound.update found requested ?_⟩
              refine ⟨waiting.reply, waiting.length, waiting.remaining, positive, ?_, waiting.filled⟩
              intro idx empty
              rcases waiting.missing idx empty with ⟨other, other_mem, same_id, rfl⟩
              rcases List.mem_cons.1 other_mem with rfl | other_mem
              · rw [slot] at empty
                cases empty
              · exact ⟨other, other_mem, same_id, rfl⟩
          | none =>
              by_cases last : state.remaining - 1 = 0
              · rcases waiting.full slot delivered last with ⟨vectors, taken, truthful⟩
                simp only [last, if_true, Desk.complete, Function.update_self, taken, Desk.reply,
                  Function.update_idem]
                refine ⟨_, rfl, ?_⟩
                have replied := sound.reply found requested truthful
                have settled : ∀ other ∈ [row],
                    (desk.reply row.id state (.ok vectors)).reqs other.id = none := by
                  intro other other_mem
                  rw [List.mem_singleton.1 other_mem]
                  exact Function.update_self _ _ _
                exact replied.shrink settled
              · simp only [last, if_false]
                exact ⟨_, rfl, sound.update found requested
                  (waiting.fill slot delivered (Nat.pos_of_ne_zero last))⟩

theorem DeskSound.scatterAll {pairs : List (Row × Vector)}
    (sound : DeskSound received batches (pairs.map Prod.fst ++ outstanding) desk)
    (requested : ∀ pair ∈ pairs, ∃ texts, received[pair.1.id]? = some texts ∧
      pair.1.idx < texts.length)
    (delivered : ∀ pair ∈ pairs, Delivered batches pair.1.id pair.1.idx pair.2) :
    ∃ desk', pairs.foldlM (fun desk owner => Desk.scatter desk owner.1 owner.2) desk =
      some desk' ∧ DeskSound received batches outstanding desk' := by
  induction pairs generalizing desk with
  | nil => exact ⟨desk, rfl, sound⟩
  | cons pair rest ih =>
      rw [List.forall_mem_cons] at requested delivered
      rcases requested.1 with ⟨texts, texts_at, bound⟩
      rcases sound.scatter texts_at bound delivered.1 with ⟨desk', scattered, sound'⟩
      rcases ih sound' requested.2 delivered.2 with ⟨desk'', scattered_rest, sound''⟩
      refine ⟨desk'', ?_, sound''⟩
      rw [List.foldlM_cons, scattered]
      exact scattered_rest

/-- Every request with a row in a failed batch gets an error, unless it has its reply. -/
theorem DeskSound.failOwners {message : String} {seen : List Nat}
    (sound : DeskSound received batches outstanding desk)
    (seen_settled : ∀ id ∈ seen, desk.reqs id = none)
    (failed : ∀ row ∈ rows, ∃ batch ∈ batches, batch.Failed ∧ row ∈ batch.rows) :
    DeskSound received batches outstanding (desk.failOwners message seen rows) ∧
      ∀ id, desk.reqs id = none ∨ id ∈ rows.map Row.id →
        (desk.failOwners message seen rows).reqs id = none := by
  induction rows generalizing desk seen with
  | nil =>
      refine ⟨sound, ?_⟩
      rintro id (settled | owner)
      · exact settled
      · cases owner
  | cons row rest ih =>
      rw [List.forall_mem_cons] at failed
      have rest_of : ∀ {desk' : Desk} {seen' : List Nat},
          DeskSound received batches outstanding desk' → (∀ id ∈ seen', desk'.reqs id = none) →
          (∀ id, desk.reqs id = none ∨ id = row.id → desk'.reqs id = none) →
          DeskSound received batches outstanding (desk'.failOwners message seen' rest) ∧
            ∀ id, desk.reqs id = none ∨ id ∈ (row :: rest).map Row.id →
              (desk'.failOwners message seen' rest).reqs id = none := by
        intro desk' seen' sound' seen_settled' kept
        rcases ih sound' seen_settled' failed.2 with ⟨sound'', settled''⟩
        refine ⟨sound'', ?_⟩
        rintro id (settled | owner)
        · exact settled'' id (Or.inl (kept id (Or.inl settled)))
        · rw [List.map_cons, List.mem_cons] at owner
          rcases owner with first | owner
          · exact settled'' id (Or.inl (kept id (Or.inr first)))
          · exact settled'' id (Or.inr owner)
      rw [Desk.failOwners]
      split
      · next seen_row =>
          apply rest_of sound seen_settled
          rintro id (settled | rfl)
          · exact settled
          · exact seen_settled _ seen_row
      · cases found : desk.reqs row.id with
        | none =>
            have settled_row : ∀ id, desk.reqs id = none ∨ id = row.id → desk.reqs id = none := by
              rintro id (settled | rfl)
              · exact settled
              · exact found
            apply rest_of sound _ settled_row
            exact List.forall_mem_cons.2 ⟨found, seen_settled⟩
        | some state =>
            rcases sound.waiting row.id state found with ⟨texts, requested, -⟩
            rcases failed.1 with ⟨batch, batch_mem, batch_failed, row_mem⟩
            have truthful : Truthful batches row.id texts (.error (.embedding message)) :=
              ⟨batch, batch_mem, batch_failed, row, row_mem, rfl⟩
            have sound' := sound.reply found requested truthful
            have settled_row : ∀ id, desk.reqs id = none ∨ id = row.id →
                (desk.reply row.id state (.error (.embedding message))).reqs id = none := by
              intro id settled
              by_cases same : id = row.id
              · rw [same]
                exact Function.update_self _ _ _
              · simp only [Desk.reply, Function.update_of_ne same]
                exact settled.resolve_right same
            apply rest_of sound' _ settled_row
            intro id id_mem
            rcases List.mem_cons.1 id_mem with rfl | seen_id
            · exact settled_row _ (Or.inr rfl)
            · exact settled_row id (Or.inl (seen_settled id seen_id))

/-- A row is one of a request that was received. -/
def Row.Requested (received : List (List String)) (row : Row) : Prop :=
    ∃ texts, received[row.id]? = some texts ∧ texts[row.idx]? = some row.text

/-- The answer to a batch is given out without a panic, and the rows of the batch are done with. -/
theorem DeskSound.settle {batch : Batch}
    (sound : DeskSound received batches (batch.rows ++ outstanding) desk)
    (requested : ∀ row ∈ batch.rows, row.Requested received) :
    ∃ desk', desk.settle batch = some desk' ∧
      DeskSound received (batches ++ [batch]) outstanding desk' := by
  have sound' := sound.append [batch]
  have fail : batch.Failed → ∀ message, DeskSound received (batches ++ [batch]) outstanding
      (desk.failOwners message [] batch.rows) := by
    intro failed message
    have owners : ∀ row ∈ batch.rows, ∃ other ∈ batches ++ [batch], other.Failed ∧
        row ∈ other.rows := fun row row_mem => ⟨batch, by simp, failed, row_mem⟩
    rcases sound'.failOwners (List.forall_mem_nil _) owners with ⟨sound'', settled⟩
    apply sound''.shrink
    intro row row_mem
    exact settled row.id (Or.inr (List.mem_map_of_mem row_mem))
  rw [Desk.settle]
  cases answer : batch.answer with
  | error e =>
      refine ⟨_, rfl, fail ?_ e⟩
      intro vectors answered
      rw [answer] at answered
      cases answered
  | ok vectors =>
      by_cases count : vectors.length = batch.rows.length
      · simp only [count, ne_eq, not_true, if_false]
        have rows_of : (batch.rows.zip vectors).map Prod.fst = batch.rows :=
          List.map_fst_zip (Nat.le_of_eq count.symm)
        rw [← rows_of] at sound'
        apply sound'.scatterAll
        · intro pair pair_mem
          rcases requested _ (List.of_mem_zip pair_mem).1 with ⟨texts, texts_at, text_at⟩
          exact ⟨texts, texts_at, (List.getElem?_eq_some_iff.1 text_at).1⟩
        · intro pair pair_mem
          rcases List.getElem?_of_mem pair_mem with ⟨p, pair_at⟩
          rw [List.getElem?_zip_eq_some] at pair_at
          exact ⟨batch, by simp, vectors, answer, count, p, pair.1, pair_at.1, rfl, rfl, pair_at.2⟩
      · simp only [ne_eq, count, not_false_eq_true, if_true]
        refine ⟨_, rfl, fail ?_ _⟩
        intro vectors' answered same
        rw [answer] at answered
        cases answered
        exact count same

theorem DeskSound.enqueue (sound : DeskSound received batches outstanding desk) {request : Request}
    (numbered : request.reply = received.length) (nonempty : request.texts ≠ []) :
    DeskSound (received ++ [request.texts]) batches
      (outstanding ++ rowsOf received.length request.texts)
      (desk.enqueue received.length request) := by
  have fresh : desk.reqs received.length = none := by
    cases found : desk.reqs received.length with
    | none => rfl
    | some state =>
        rcases sound.waiting _ state found with ⟨texts, requested, -⟩
        rw [List.getElem?_eq_none (Nat.le_refl _)] at requested
        cases requested
  have old : ∀ {id : Nat} {texts : List String}, received[id]? = some texts →
      (received ++ [request.texts])[id]? = some texts := by
    intro id texts requested
    rw [List.getElem?_append_left (List.getElem?_eq_some_iff.1 requested).1, requested]
  constructor
  · intro id state found
    by_cases same : id = received.length
    · subst same
      simp only [Desk.enqueue, Function.update_self] at found
      cases found
      refine ⟨request.texts, by simp, numbered, by simp, by simp, ?_, ?_, ?_⟩
      · exact List.length_pos_iff.2 nonempty
      · intro idx empty
        rcases List.getElem?_eq_some_iff.1 empty with ⟨bound, -⟩
        rw [List.length_replicate] at bound
        refine ⟨⟨received.length, idx, request.texts[idx]⟩, ?_, rfl, rfl⟩
        apply List.mem_append_right
        exact List.mem_mapIdx.2 ⟨idx, bound, rfl⟩
      · intro idx vector at_idx
        rcases List.getElem?_eq_some_iff.1 at_idx with ⟨bound, full⟩
        rw [List.getElem_replicate] at full
        cases full
    · simp only [Desk.enqueue, Function.update_of_ne same] at found
      rcases sound.waiting id state found with ⟨texts, requested, waiting⟩
      refine ⟨texts, old requested, waiting.reply, waiting.length, waiting.remaining,
        waiting.positive, ?_, waiting.filled⟩
      intro idx empty
      rcases waiting.missing idx empty with ⟨row, row_mem, same_row⟩
      exact ⟨row, List.mem_append_left _ row_mem, same_row⟩
  · intro id state found replied
    by_cases same : id = received.length
    · rcases List.mem_map.1 replied with ⟨⟨other, reply⟩, reply_mem, rfl⟩
      rcases sound.truthful _ _ reply_mem with ⟨texts, requested, -⟩
      have bound := (List.getElem?_eq_some_iff.1 requested).1
      exact Nat.ne_of_lt bound same
    · simp only [Desk.enqueue, Function.update_of_ne same] at found
      exact sound.unreplied id state found replied
  · intro id bound none_left
    by_cases same : id = received.length
    · subst same
      simp [Desk.enqueue] at none_left
    · simp only [Desk.enqueue, Function.update_of_ne same] at none_left
      simp only [List.length_append, List.length_singleton] at bound
      exact sound.replied id (by omega) none_left
  · exact sound.nodup
  · intro id reply mem
    rcases sound.truthful id reply mem with ⟨texts, requested, truthful⟩
    exact ⟨texts, old requested, truthful⟩

end Batching

end Ohara
