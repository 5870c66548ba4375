import Omni.Scheduler.Effects
import Omni.Scheduler.Loop

/-!
# Which batches the pieces of the loop touch

A piece that only deals with requests keeps all batches and all references to them.
The others filter, merge or make batches.
-/

namespace Omni.Scheduler

variable {V : Type}

/-- The batches and the references to them are as before. -/
structure SameBatches (s t : State V) : Prop where
  batches : t.batches = s.batches
  batchCount : t.batchCount = s.batchCount
  runningBatch : t.runningBatch = s.runningBatch
  curBatch : t.curBatch = s.curBatch
  lastBatch : t.lastBatch = s.lastBatch
  asyncPending : t.asyncPending = s.asyncPending
  point : t.point = s.point

namespace SameBatches

variable {s t u : State V}

theorem refl (s : State V) : SameBatches s s := ⟨rfl, rfl, rfl, rfl, rfl, rfl, rfl⟩

theorem trans (h : SameBatches s t) (k : SameBatches t u) : SameBatches s u :=
  ⟨k.batches.trans h.batches, k.batchCount.trans h.batchCount,
    k.runningBatch.trans h.runningBatch, k.curBatch.trans h.curBatch,
    k.lastBatch.trans h.lastBatch, k.asyncPending.trans h.asyncPending, k.point.trans h.point⟩

/-- Folding operations that keep the batches. -/
theorem foldl {α : Type} {f : State V → α → State V} (hf : ∀ s a, SameBatches s (f s a))
    (s : State V) (as : List α) : SameBatches s (as.foldl f s) := by
  induction as generalizing s with
  | nil => exact .refl s
  | cons a as ih => exact (hf s a).trans (ih (f s a))

end SameBatches

theorem sameBatches_release (s : State V) (q : ℕ) :
    SameBatches s (releaseRequestKvCache s q) := by
  unfold releaseRequestKvCache
  split
  · exact ⟨rfl, rfl, rfl, rfl, rfl, rfl, rfl⟩
  · exact .refl s

theorem sameBatches_finish (s : State V) (q : ℕ) : SameBatches s (finishRequest s q) := by
  have hupdate : SameBatches s (s.updateReq q fun req => { req with finished := true }) :=
    ⟨rfl, rfl, rfl, rfl, rfl, rfl, rfl⟩
  exact hupdate.trans (sameBatches_release _ q)

theorem sameBatches_retract (s : State V) (q : ℕ) : SameBatches s (retractRequest s q) := by
  have hupdate : SameBatches (releaseRequestKvCache s q) (retractRequest s q) :=
    ⟨rfl, rfl, rfl, rfl, rfl, rfl, rfl⟩
  exact (sameBatches_release s q).trans hupdate

theorem sameBatches_emit (s : State V) (r error : String) :
    SameBatches s (emitRequestError s r error) := by
  unfold emitRequestError
  split
  · exact ⟨rfl, rfl, rfl, rfl, rfl, rfl, rfl⟩
  · exact .refl s

theorem sameBatches_discard (s : State V) (r : String) : SameBatches s (discardEvents s r) :=
  ⟨rfl, rfl, rfl, rfl, rfl, rfl, rfl⟩

theorem sameBatches_emitResult (adapterError : ℕ → Option String) (s : State V) (q : ℕ) :
    SameBatches s (emitResult adapterError s q) := by
  unfold emitResult
  split
  · exact sameBatches_emit s _ _
  · exact ⟨rfl, rfl, rfl, rfl, rfl, rfl, rfl⟩

theorem sameBatches_streamOutput (adapterError : ℕ → Option String) (s : State V) (q : ℕ) :
    SameBatches s (streamOutput adapterError s q) := by
  unfold streamOutput
  split
  · split
    · exact sameBatches_discard s _
    · exact (sameBatches_discard s _).trans (sameBatches_emitResult adapterError _ q)
  · exact .refl s

theorem sameBatches_process (s : State V) (reqs finished : List ℕ)
    (adapterError : ℕ → Option String) :
    SameBatches s (processBatchResult s reqs finished adapterError) :=
  (SameBatches.foldl sameBatches_finish s _).trans
    (.foldl (sameBatches_streamOutput adapterError) _ _)

theorem resolve_done (s : State V) (pending : PendingStep) (finished : List ℕ)
    (adapterError : ℕ → Option String) :
    SameBatches (s.updateBatch pending.batch fun batch =>
        { batch with reqs := (handedOver s pending).1 })
      (resolveAndProcess s pending (.done finished adapterError)) := by
  unfold resolveAndProcess
  dsimp only
  split
  · exact .refl _
  · exact sameBatches_process _ _ _ _

end Omni.Scheduler
