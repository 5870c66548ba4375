import Mathlib.Data.List.Nodup
import Omni.Scheduler.Abort

/-!
# What an abort does

Everything that the event loop needs to know about `abort` and `_handle_batch_failure`:
which attributes and fields they leave alone, and which requests they cut.
-/

namespace Omni.Scheduler

variable {V : Type} {r : String} {refs : List ℕ} (batch : Batch) (error : String)

/-- The attributes of the loop, and the fields that say who a request is and whether it
runs, are as before. -/
structure SameFrame (s t : State V) : Prop where
  reqCount : t.reqCount = s.reqCount
  batchCount : t.batchCount = s.batchCount
  runningBatch : t.runningBatch = s.runningBatch
  curBatch : t.curBatch = s.curBatch
  lastBatch : t.lastBatch = s.lastBatch
  asyncPending : t.asyncPending = s.asyncPending
  chunkedReq : t.chunkedReq = s.chunkedReq
  point : t.point = s.point
  isEntryRank : t.isEntryRank = s.isEntryRank
  rid : ∀ q, (t.reqs q).rid = (s.reqs q).rid
  finished : ∀ q, (t.reqs q).finished = (s.reqs q).finished
  isRetracted : ∀ q, (t.reqs q).isRetracted = (s.reqs q).isRetracted

namespace SameFrame

variable {s t u : State V}

theorem refl (s : State V) : SameFrame s s :=
  ⟨rfl, rfl, rfl, rfl, rfl, rfl, rfl, rfl, rfl, fun _ => rfl, fun _ => rfl, fun _ => rfl⟩

theorem trans (h : SameFrame s t) (k : SameFrame t u) : SameFrame s u :=
  ⟨k.reqCount.trans h.reqCount, k.batchCount.trans h.batchCount,
    k.runningBatch.trans h.runningBatch, k.curBatch.trans h.curBatch,
    k.lastBatch.trans h.lastBatch, k.asyncPending.trans h.asyncPending,
    k.chunkedReq.trans h.chunkedReq, k.point.trans h.point, k.isEntryRank.trans h.isEntryRank,
    fun q => (k.rid q).trans (h.rid q), fun q => (k.finished q).trans (h.finished q),
    fun q => (k.isRetracted q).trans (h.isRetracted q)⟩

/-- Folding operations that keep the frame. -/
theorem foldl {α : Type} {f : State V → α → State V} (hf : ∀ s a, SameFrame s (f s a))
    (s : State V) (as : List α) : SameFrame s (as.foldl f s) := by
  induction as generalizing s with
  | nil => exact .refl s
  | cons a as ih => exact (hf s a).trans (ih (f s a))

theorem fourBatches (h : SameFrame s t) : t.fourBatches = s.fourBatches := by
  unfold State.fourBatches
  rw [h.runningBatch, h.curBatch, h.lastBatch, h.asyncPending]

end SameFrame

theorem sameFrame_updateReq (s : State V) (q : ℕ) {f : Req → Req}
    (hrid : (f (s.reqs q)).rid = (s.reqs q).rid)
    (hfinished : (f (s.reqs q)).finished = (s.reqs q).finished)
    (hretracted : (f (s.reqs q)).isRetracted = (s.reqs q).isRetracted) :
    SameFrame s (s.updateReq q f) := by
  refine ⟨rfl, rfl, rfl, rfl, rfl, rfl, rfl, rfl, rfl, fun p => ?_, fun p => ?_, fun p => ?_⟩ <;>
    by_cases hp : p = q
  · subst hp
    simpa [State.updateReq] using hrid
  · simp [State.updateReq, hp]
  · subst hp
    simpa [State.updateReq] using hfinished
  · simp [State.updateReq, hp]
  · subst hp
    simpa [State.updateReq] using hretracted
  · simp [State.updateReq, hp]

theorem sameFrame_release (s : State V) (q : ℕ) : SameFrame s (releaseRequestKvCache s q) := by
  unfold releaseRequestKvCache
  split
  · have hupdate := sameFrame_updateReq s q
      (f := fun req => { req with reqPoolIdx := none, mambaPoolIdx := none }) rfl rfl rfl
    exact ⟨rfl, rfl, rfl, rfl, rfl, rfl, rfl, rfl, rfl, hupdate.rid, hupdate.finished,
      hupdate.isRetracted⟩
  · exact .refl s

@[simp] theorem release_batches (s : State V) (q : ℕ) :
    (releaseRequestKvCache s q).batches = s.batches := by
  unfold releaseRequestKvCache
  split <;> rfl

theorem sameFrame_releaseImmediate (s : State V) (r : String) :
    SameFrame s (releaseImmediateRequestResources s r) :=
  .foldl sameFrame_release s _

theorem releases_batches (s : State V) (qs : List ℕ) :
    (qs.foldl releaseRequestKvCache s).batches = s.batches := by
  induction qs generalizing s with
  | nil => rfl
  | cons q qs ih =>
    rw [List.foldl_cons, ih]
    exact release_batches s q

/-- Cutting reads nothing of the requests but their ids. -/
theorem without_congr {reqs reqs' : ℕ → Req} (hrid : ∀ q, (reqs' q).rid = (reqs q).rid)
    (batch : Batch) (r : String) : batch.without reqs' r = batch.without reqs r := by
  simp only [Batch.without, hrid]

/-- Cutting twice is cutting once. -/
theorem without_without (reqs : ℕ → Req) (r : String) :
    (batch.without reqs r).without reqs r = batch.without reqs r := by
  simp only [Batch.without, List.filter_filter, Bool.and_self]
  split <;> rfl

theorem sameFrame_removeFromBatch (s : State V) (batch : Option ℕ) (r : String) :
    SameFrame s (removeFromBatch s batch r) := by
  unfold removeFromBatch
  split
  · exact .refl s
  · exact ⟨rfl, rfl, rfl, rfl, rfl, rfl, rfl, rfl, rfl, fun _ => rfl, fun _ => rfl, fun _ => rfl⟩

/-- The batches after some of them have been cut. -/
def cutBatches (s : State V) (r : String) (refs : List ℕ) (b : ℕ) : Batch :=
  if b ∈ refs then (s.batches b).without s.reqs r else s.batches b

theorem removeFromBatch_batches {s t : State V} (h : SameFrame s t)
    (ht : t.batches = cutBatches s r refs) (batch : Option ℕ) :
    (removeFromBatch t batch r).batches = cutBatches s r (refs ++ batch.toList) := by
  cases batch with
  | none => simpa [removeFromBatch] using ht
  | some c =>
    funext b
    simp only [removeFromBatch, State.updateBatch, ht, without_congr h.rid]
    by_cases hb : b = c
    · subst hb
      by_cases hmem : b ∈ refs
      · simp [cutBatches, hmem, without_without]
      · simp [cutBatches, hmem]
    · simp [cutBatches, hb]

theorem foldl_removeFromBatch {s t : State V} (h : SameFrame s t)
    (ht : t.batches = cutBatches s r refs) (batches : List (Option ℕ)) :
    (batches.foldl (fun s batch => removeFromBatch s batch r) t).batches =
      cutBatches s r (refs ++ batches.flatMap Option.toList) := by
  induction batches generalizing t refs with
  | nil => simpa using ht
  | cons batch batches ih =>
    rw [List.foldl_cons, ih (h.trans (sameFrame_removeFromBatch t batch r))
      (removeFromBatch_batches h ht batch), List.flatMap_cons, List.append_assoc]

theorem sameFrame_cutOut (s : State V) (r : String) : SameFrame s (cutOut s r) :=
  (sameFrame_releaseImmediate s r).trans
    (.foldl (fun s batch => sameFrame_removeFromBatch s batch r) _ _)

theorem cutOut_batches (s : State V) (r : String) :
    (cutOut s r).batches = cutBatches s r s.fourBatches := by
  have hreleased : (releaseImmediateRequestResources s r).batches = cutBatches s r [] := by
    funext b
    simp [releaseImmediateRequestResources, releases_batches, cutBatches]
  rw [cutOut, foldl_removeFromBatch (sameFrame_releaseImmediate s r) hreleased]
  simp [State.fourBatches]

theorem sameFrame_mark (s : State V) (r : String) :
    SameFrame s (markRunningRequestAborted s r).1 := by
  refine ⟨rfl, rfl, rfl, rfl, rfl, rfl, rfl, rfl, rfl, fun q => ?_, fun q => ?_, fun q => ?_⟩ <;>
    simp only [markRunningRequestAborted] <;> split <;> rfl

theorem sameFrame_forget (s : State V) (r : String) : SameFrame s (forgetRequest s r) :=
  ⟨rfl, rfl, rfl, rfl, rfl, rfl, rfl, rfl, rfl, fun _ => rfl, fun _ => rfl, fun _ => rfl⟩

theorem sameFrame_drain (s : State V) (r : String) : SameFrame s (drainInboxForRequest s r) :=
  ⟨rfl, rfl, rfl, rfl, rfl, rfl, rfl, rfl, rfl, fun _ => rfl, fun _ => rfl, fun _ => rfl⟩

theorem sameFrame_emit (s : State V) (r error : String) :
    SameFrame s (emitRequestError s r error) := by
  unfold emitRequestError
  split
  · exact ⟨rfl, rfl, rfl, rfl, rfl, rfl, rfl, rfl, rfl, fun _ => rfl, fun _ => rfl, fun _ => rfl⟩
  · exact .refl s

@[simp] theorem emit_batches (s : State V) (r error : String) :
    (emitRequestError s r error).batches = s.batches := by
  unfold emitRequestError
  split <;> rfl

/-- The request is unfinished in one of the four batches, so that `abort` marks it. -/
def Marked (s : State V) (r : String) : Prop :=
  ∃ q ∈ s.batched, (s.reqs q).rid = r ∧ (s.reqs q).finished = false

theorem mark_snd_iff (s : State V) (r : String) :
    (markRunningRequestAborted s r).2 = true ↔ Marked s r := by
  simp [markRunningRequestAborted, Marked, List.filter_eq_nil_iff]

theorem sameFrame_abort (s : State V) (r : String) (deferCleanup : Bool) :
    SameFrame s (abort s r deferCleanup) := by
  have hmarked : SameFrame s (if deferCleanup then markRunningRequestAborted s r
      else (s, false)).1 := by
    split
    · exact sameFrame_mark s r
    · exact .refl s
  have hforgot := hmarked.trans (sameFrame_forget _ r)
  refine SameFrame.trans ?_ (sameFrame_drain _ r)
  split
  · exact hforgot
  · exact hforgot.trans (sameFrame_cutOut _ r)

theorem abort_batches_of_marked {s : State V} (h : Marked s r) :
    (abort s r true).batches = s.batches := by
  have hmark := (mark_snd_iff s r).mpr h
  simp only [abort, if_true, hmark]
  rfl

theorem abort_batches_of_not_marked {s : State V} (h : ¬Marked s r) :
    (abort s r true).batches = cutBatches s r s.fourBatches := by
  have hmark : (markRunningRequestAborted s r).2 = false := by
    rw [← Bool.not_eq_true, mark_snd_iff]
    exact h
  have hframe := (sameFrame_mark s r).trans (sameFrame_forget _ r)
  simp only [abort, if_true, hmark]
  change (cutOut (forgetRequest (markRunningRequestAborted s r).1 r) r).batches = _
  rw [cutOut_batches, hframe.fourBatches]
  funext b
  simp only [cutBatches, without_congr hframe.rid]
  rfl

/-- An abort that does not defer always cuts. -/
theorem abort_batches_of_not_deferred (s : State V) (r : String) :
    (abort s r false).batches = cutBatches s r s.fourBatches := by
  change (cutOut (forgetRequest s r) r).batches = _
  rw [cutOut_batches, (sameFrame_forget s r).fourBatches]
  rfl

/-- The ids of the requests of a batch. -/
def State.requestIds (s : State V) (b : ℕ) : List String :=
  (s.batches b).reqs.map fun q => (s.reqs q).rid

/-- Emit an error for one id and cut its requests. -/
def failRequest (error : String) (s : State V) (r : String) : State V :=
  abort (emitRequestError s r error) r false

theorem handleBatchFailure_eq (s : State V) (b : ℕ) (error : String) :
    handleBatchFailure s b error = (s.requestIds b).foldl (failRequest error) s := by
  have hfold : ∀ (qs : List ℕ) (t : State V), SameFrame s t →
      qs.foldl (fun s q => abort (emitRequestError s (s.reqs q).rid error) (s.reqs q).rid false) t =
        (qs.map fun q => (s.reqs q).rid).foldl (failRequest error) t := by
    intro qs
    induction qs with
    | nil => exact fun _ _ => rfl
    | cons q qs ih =>
      intro t ht
      have hnext : SameFrame t (failRequest error t (s.reqs q).rid) :=
        (sameFrame_emit t _ error).trans (sameFrame_abort _ _ false)
      rw [List.foldl_cons, List.map_cons, List.foldl_cons, ht.rid]
      exact ih _ (ht.trans hnext)
  exact hfold _ s (.refl s)

theorem sameFrame_failRequest (s : State V) (r : String) :
    SameFrame s (failRequest error s r) :=
  (sameFrame_emit s r error).trans (sameFrame_abort _ r false)

theorem sameFrame_handleBatchFailure (s : State V) (b : ℕ) (error : String) :
    SameFrame s (handleBatchFailure s b error) := by
  rw [handleBatchFailure_eq]
  exact .foldl (sameFrame_failRequest error) s _

/-- What remains of a batch after the requests of some ids have been cut. -/
structure CutTo (reqs : ℕ → Req) (ids : List String) (before after : Batch) : Prop where
  reqs : after.reqs = before.reqs.filter fun q => (reqs q).rid ∉ ids
  rows : after.rows = before.rows
  isExtend : after.isExtend = before.isExtend
  chunkedReq : after.chunkedReq = before.chunkedReq

theorem cutTo_without (reqs : ℕ → Req) (r : String) :
    CutTo reqs [r] batch (batch.without reqs r) :=
  ⟨by simp [Batch.without], rfl, rfl, rfl⟩

theorem failRequest_batches (s : State V) (r : String) :
    (failRequest error s r).batches = cutBatches s r s.fourBatches := by
  have hframe := sameFrame_emit s r error
  rw [failRequest, abort_batches_of_not_deferred, hframe.fourBatches]
  funext b
  simp only [cutBatches, without_congr hframe.rid, emit_batches]

/-- Cutting one id after another. -/
theorem foldl_failRequest_batches (s : State V) (ids : List String) (b : ℕ) :
    if b ∈ s.fourBatches then
      CutTo s.reqs ids (s.batches b) ((ids.foldl (failRequest error) s).batches b)
    else (ids.foldl (failRequest error) s).batches b = s.batches b := by
  induction ids generalizing s with
  | nil =>
    split
    · exact ⟨by simp, rfl, rfl, rfl⟩
    · rfl
  | cons r ids ih =>
    have hframe := sameFrame_failRequest error s r
    have hrest := ih (failRequest error s r)
    rw [hframe.fourBatches] at hrest
    rw [List.foldl_cons]
    by_cases hb : b ∈ s.fourBatches
    · rw [if_pos hb] at hrest ⊢
      have hfirst : (failRequest error s r).batches b = (s.batches b).without s.reqs r := by
        rw [failRequest_batches, cutBatches, if_pos hb]
      rw [hfirst] at hrest
      refine { hrest with reqs := ?_ }
      rw [hrest.reqs]
      simp only [Batch.without, List.filter_filter, hframe.rid, List.mem_cons, not_or]
      simp [Bool.and_comm]
    · rw [if_neg hb] at hrest ⊢
      rw [hrest, failRequest_batches, cutBatches, if_neg hb]

theorem handleBatchFailure_batches {s : State V} {b : ℕ} (hb : b ∈ s.fourBatches) (failed : ℕ)
    (error : String) :
    CutTo s.reqs (s.requestIds failed) (s.batches b)
      ((handleBatchFailure s failed error).batches b) := by
  have hcut := foldl_failRequest_batches error s (s.requestIds failed) b
  rw [if_pos hb] at hcut
  rwa [handleBatchFailure_eq]

end Omni.Scheduler
