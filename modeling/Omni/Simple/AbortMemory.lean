import Mathlib.Data.Finset.Card
import Omni.Library.Transition

/-!
# The memory of aborted requests

`_record_aborted_request_id` of `Stage` and of `StreamingSimpleScheduler`, `abort` of
`SimpleScheduler` and `close` of `StreamQueue` add an id to a set. When the set is too large they
remove ids in the order in which the set is iterated.
-/

namespace Omni.AbortMemory

open Transition List Finset

variable {ι : Type} [DecidableEq ι]

/-- `10000`, and `_ABORTED_REQUEST_ID_LIMIT`. -/
def limit : ℕ := 10000

/-- `5000`, and `_ABORTED_REQUEST_ID_RETAINED`. -/
def retained : ℕ := 5000

/-- The order in which a set is iterated: each of its elements once. -/
def Iterates (order : List ι) (ids : Finset ι) : Prop := order.Nodup ∧ order.toFinset = ids

instance (order : List ι) (ids : Finset ι) : Decidable (Iterates order ids) :=
  inferInstanceAs (Decidable (_ ∧ _))

/-- `ids -= set(to_remove)` with the first elements. -/
def removeExcess (order : List ι) (ids : Finset ι) : Finset ι :=
  if limit < ids.card then ids \ (order.take (ids.card - retained)).toFinset else ids

/-- `ids.discard(stale_request_id)` for the first elements. -/
def discardExcess (order : List ι) (ids : Finset ι) : Finset ι :=
  if ids.card ≤ limit then ids
  else (order.take (ids.card - retained)).foldl Finset.erase ids

/-- `Stage._record_aborted_request_id`. The set is iterated after the id has been added. -/
def stageRecord (ids : Finset ι) (requestId : ι) (order : List ι) : Finset ι :=
  removeExcess order (insert requestId ids)

/-- `StreamQueue.close`, as far as the closed ids go. -/
def streamQueueClose (ids : Finset ι) (requestId : ι) (order : List ι) : Finset ι :=
  removeExcess order (insert requestId ids)

/-- `StreamingSimpleScheduler._record_aborted_request_id`. -/
def streamingSimpleRecord (ids : Finset ι) (requestId : ι) (order : List ι) : Finset ι :=
  discardExcess order (insert requestId ids)

/-- `SimpleScheduler.abort`, as far as the aborted ids go. -/
def simpleAbort (ids : Finset ι) (requestId : ι) (order : List ι) : Finset ι :=
  discardExcess order (insert requestId ids)

/-- The four memories. -/
inductive Memory
  | stage
  | streamQueue
  | streamingSimple
  | simple

/-- An id is recorded. -/
def Memory.record : Memory → Finset ι → ι → List ι → Finset ι
  | .stage => stageRecord
  | .streamQueue => streamQueueClose
  | .streamingSimple => streamingSimpleRecord
  | .simple => simpleAbort

/-- What happens to a memory: an abort, or an id is discarded, as `open`, `_consume_if_aborted` and
`_clear_request_state` do. -/
inductive Action (ι : Type)
  | record (requestId : ι) (order : List ι)
  | discard (requestId : ι)

/-- One step. -/
def step (memory : Memory) (ids : Finset ι) : Action ι → Option (Finset ι)
  | .record requestId order =>
    if Iterates order (insert requestId ids) then some (memory.record ids requestId order) else none
  | .discard requestId => some (ids.erase requestId)

/-- An abort is remembered after it has been recorded. -/
def Remembers (memory : Memory) (ids : Finset ι) : Action ι → Prop
  | .record requestId order => requestId ∈ memory.record ids requestId order
  | .discard _ => True

/-- The set is not too large, or its iteration comes to the id after the ones that are removed. -/
def Spares (ids : Finset ι) : Action ι → Prop
  | .record requestId order => (insert requestId ids).card ≤ limit ∨
    requestId ∉ order.take ((insert requestId ids).card - retained)
  | .discard _ => True

/-- Discarding elements one after the other. -/
theorem foldl_erase (removed : List ι) (ids : Finset ι) :
    removed.foldl Finset.erase ids = ids \ removed.toFinset := by
  induction removed generalizing ids with
  | nil => simp
  | cons id removed ih =>
    rw [foldl_cons, ih, toFinset_cons, sdiff_insert, erase_sdiff_comm]

theorem discardExcess_eq (order : List ι) (ids : Finset ι) :
    discardExcess order ids = removeExcess order ids := by
  unfold discardExcess removeExcess
  by_cases hcard : limit < ids.card
  · rw [if_neg (Nat.not_le.2 hcard), if_pos hcard, foldl_erase]
  · rw [if_pos (Nat.not_lt.1 hcard), if_neg hcard]

/-- The four memories do the same. -/
theorem record_eq (memory : Memory) (ids : Finset ι) (requestId : ι) (order : List ι) :
    memory.record ids requestId order = removeExcess order (insert requestId ids) := by
  cases memory with
  | stage => rfl
  | streamQueue => rfl
  | streamingSimple => exact discardExcess_eq ..
  | simple => exact discardExcess_eq ..

/-- What is left of a set that is too large. -/
theorem card_removeExcess {order : List ι} {ids : Finset ι} (horder : Iterates order ids) :
    (removeExcess order ids).card ≤ limit := by
  unfold removeExcess
  by_cases hcard : limit < ids.card
  · have hlength : order.length = ids.card := by
      rw [← horder.2, toFinset_card_of_nodup horder.1]
    have hsub : (order.take (ids.card - retained)).toFinset ⊆ ids := by
      intro id hid
      rw [← horder.2]
      exact mem_toFinset.2 (mem_of_mem_take (mem_toFinset.1 hid))
    have hremoved : (order.take (ids.card - retained)).toFinset.card = ids.card - retained := by
      rw [toFinset_card_of_nodup (horder.1.sublist (take_sublist ..)), length_take]
      omega
    rw [if_pos hcard, card_sdiff_of_subset hsub, hremoved]
    unfold limit retained at *
    omega
  · rw [if_neg hcard]
    exact Nat.not_lt.1 hcard

theorem card_step {memory : Memory} {ids ids' : Finset ι} {a : Action ι}
    (hcard : ids.card ≤ limit) (hstep : step memory ids a = some ids') : ids'.card ≤ limit := by
  cases a with
  | record requestId order =>
    obtain ⟨horder, hstep⟩ := Option.ite_none_right_eq_some.1 hstep
    cases hstep
    rw [record_eq]
    exact card_removeExcess horder
  | discard requestId =>
    cases hstep
    exact (card_erase_le).trans hcard

theorem remembers_iff_spares (memory : Memory) (ids : Finset ι) (a : Action ι) :
    Remembers memory ids a ↔ Spares ids a := by
  cases a with
  | record requestId order =>
    rw [Remembers, Spares, record_eq, removeExcess]
    by_cases hcard : limit < (insert requestId ids).card
    · rw [if_pos hcard, mem_sdiff, mem_toFinset, or_iff_right (Nat.not_le.2 hcard)]
      exact and_iff_right (mem_insert_self ..)
    · rw [if_neg hcard]
      exact iff_of_true (mem_insert_self ..) (Or.inl (Nat.not_lt.1 hcard))
  | discard requestId => exact Iff.rfl

/-- A memory never has more ids than the limit. In a run every abort is remembered if and only if
each one finds the memory small enough, or comes late enough in its iteration. -/
theorem newest_abort_remembered_iff (memory : Memory) {as : List (Action ι)} {ids : Finset ι}
    (hrun : Run (step memory) anyAction ∅ as ids) :
    ids.card ≤ limit ∧
      (Run (step memory) (Remembers memory) ∅ as ids ↔ Run (step memory) Spares ∅ as ids) := by
  refine ⟨hrun.invariant (I := fun ids => ids.card ≤ limit)
    (fun _ _ _ hcard _ hstep => card_step hcard hstep) (Nat.zero_le _), ?_⟩
  exact Run.congr (I := fun _ => True) (fun _ _ _ _ _ _ => trivial)
    (fun ids a _ _ _ => remembers_iff_spares memory ids a) trivial

/-- Two aborts. -/
theorem newest_abort_remembered_iff_two :
    ({1, 2} : Finset ℕ).card ≤ limit ∧ Run (step .stage) (Remembers .stage) ∅
      [.record 1 [1], .record 2 [2, 1]] ({1, 2} : Finset ℕ) := by
  have hfirst : step .stage ∅ (.record 1 [1]) = some ({1} : Finset ℕ) := by decide
  have hsecond : step .stage {1} (.record 2 [2, 1]) = some ({1, 2} : Finset ℕ) := by decide
  have hspares : Run (step .stage) Spares ∅ [.record 1 [1], .record 2 [2, 1]] ({1, 2} : Finset ℕ) :=
    .cons (.inl (by decide)) hfirst <| .cons (.inl (by decide)) hsecond <| .nil _
  have hiff := newest_abort_remembered_iff .stage (hspares.mono fun _ _ _ => trivial)
  exact ⟨hiff.1, hiff.2.2 hspares⟩

/-- Aborts in any number up to the limit, each of which comes last in the iteration. -/
theorem run_range (memory : Memory) (n : ℕ) (hn : n ≤ limit) :
    ∃ as : List (Action ℕ), Run (step memory) anyAction ∅ as (Finset.range n) := by
  induction n with
  | zero => exact ⟨[], .nil _⟩
  | succ n ih =>
    obtain ⟨as, hrun⟩ := ih (Nat.le_of_succ_le hn)
    refine ⟨as ++ [.record n (List.range (n + 1))], hrun.snoc trivial ?_⟩
    have horder : Iterates (List.range (n + 1)) (insert n (Finset.range n)) := by
      refine ⟨List.nodup_range, ?_⟩
      ext id
      simp only [List.mem_toFinset, List.mem_range, Finset.mem_insert, Finset.mem_range]
      omega
    have hcard : ¬limit < (insert n (Finset.range n)).card := by
      rw [← Finset.range_add_one, Finset.card_range]
      exact Nat.not_lt.2 hn
    rw [step, if_pos horder, record_eq, removeExcess, if_neg hcard, Finset.range_add_one]

/-- Each of the memories forgets the abort that fills it when the iteration begins with it. -/
theorem newest_abort_forgotten :
    ¬∃ memory : Memory, ∀ (as : List (Action ℕ)) (ids : Finset ℕ),
      Run (step memory) anyAction ∅ as ids → Run (step memory) (Remembers memory) ∅ as ids := by
  rintro ⟨memory, hall⟩
  obtain ⟨n, hn⟩ : ∃ n, n = limit := ⟨_, rfl⟩
  obtain ⟨as, hrun⟩ := run_range memory n hn.le
  have horder : Iterates (n :: List.range n) (insert n (Finset.range n)) := by
    refine ⟨nodup_cons.2 ⟨by simp, nodup_range⟩, ?_⟩
    ext id
    simp
  have hstep : step memory (Finset.range n) (.record n (n :: List.range n)) =
      some (memory.record (Finset.range n) n (n :: List.range n)) := if_pos horder
  have hnext := hrun.snoc trivial hstep
  have hkept := hall _ _ hnext
  obtain ⟨ids, hbefore, hok⟩ := hkept.last
  obtain rfl := hbefore.unique hrun
  rw [remembers_iff_spares] at hok
  rcases hok with hcard | hlate
  · rw [card_insert_of_notMem (by simp), card_range] at hcard
    omega
  · have hretained : retained ≤ n := by
      rw [hn, retained, limit]
      omega
    refine hlate ?_
    rw [card_insert_of_notMem (by simp), card_range, Nat.succ_sub hretained, take_succ_cons]
    exact mem_cons_self ..

end Omni.AbortMemory
