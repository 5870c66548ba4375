import Mathlib.Data.Finset.Basic
import Mathlib.Data.Finset.Erase
import Omni.Library.Transition

/-!
# The queue of prepared requests

`PreparedRequestQueue` of `scheduling/prepared_request_queue.py` hands a prepared request over from
the preprocessing threads to the scheduler. Every method runs under the lock, so the threads
interleave method by method. The log numbers the items that are stored.
-/

namespace Omni.Tts.Handoff

open Transition Function Finset

variable {C P : Type}

/-- `PreparedRequestQueue`. -/
structure PreparedRequestQueue (C P : Type) where
  context : Option C
  prepared : String → Option P
  inflight : Finset String
  aborted : Finset String

namespace PreparedRequestQueue

/-- `__init__`. -/
def init : PreparedRequestQueue C P := ⟨none, fun _ => none, ∅, ∅⟩

/-- `set_context` and, with no context, `clear_context`. -/
def setContext (context : Option C) : PreparedRequestQueue C P := ⟨context, fun _ => none, ∅, ∅⟩

/-- `begin`. -/
def begin (q : PreparedRequestQueue C P) (requestId : String) :
    PreparedRequestQueue C P × Option C :=
  (if q.context.isSome then { q with inflight := insert requestId q.inflight } else q, q.context)

/-- `fail_inflight`. -/
def failInflight (q : PreparedRequestQueue C P) (requestId : String) :
    PreparedRequestQueue C P :=
  { q with inflight := q.inflight.erase requestId, aborted := q.aborted.erase requestId }

/-- `publish`. -/
def publish (q : PreparedRequestQueue C P) (requestId : String) (item : P) :
    PreparedRequestQueue C P × Bool :=
  let next := { q with
    inflight := q.inflight.erase requestId, aborted := q.aborted.erase requestId }
  if requestId ∈ q.inflight ∧ requestId ∉ q.aborted then
    ({ next with prepared := update q.prepared requestId (some item) }, true)
  else (next, false)

/-- `abort`. -/
def abort (q : PreparedRequestQueue C P) (requestId : String) : PreparedRequestQueue C P :=
  if (q.prepared requestId).isSome then
    { q with prepared := update q.prepared requestId none }
  else if requestId ∈ q.inflight then { q with aborted := insert requestId q.aborted }
  else q

/-- `pop`. -/
def pop (q : PreparedRequestQueue C P) (requestId : String) :
    PreparedRequestQueue C P × Option P :=
  ({ q with prepared := update q.prepared requestId none }, q.prepared requestId)

/-- No container has the id. -/
def Forgets (q : PreparedRequestQueue C P) (requestId : String) : Prop :=
  q.prepared requestId = none ∧ requestId ∉ q.inflight ∧ requestId ∉ q.aborted

end PreparedRequestQueue

/-- A call of a method by some thread. -/
inductive HandoffCall (C P : Type)
  | setContext (context : Option C)
  | begin (requestId : String)
  | failInflight (requestId : String)
  | publish (requestId : String) (item : P)
  | abort (requestId : String)
  | pop (requestId : String)

/-- The queue, its items with their numbers, and what has happened. -/
structure HandoffLog (C P : Type) where
  queue : PreparedRequestQueue C (ℕ × P)
  /-- How many items have been stored. -/
  stored : ℕ
  /-- The numbers of the items that have been popped. -/
  popped : List ℕ
  /-- Ids that have been aborted since they were last begun. -/
  aborts : Finset String
  /-- Ids since the last `begin` of which an item was popped, or which failed in flight. -/
  finished : Finset String
  /-- Ids whose preparation has ended since they were last begun. -/
  ended : Finset String

/-- The log of a new queue. -/
def HandoffLog.init : HandoffLog C P := ⟨.init, 0, [], ∅, ∅, ∅⟩

/-- A call. -/
def HandoffLog.call (s : HandoffLog C P) : HandoffCall C P → HandoffLog C P
  | .setContext context => { s with queue := .setContext context }
  | .begin id =>
    let s := { s with queue := (s.queue.begin id).1 }
    if s.queue.context.isSome then
      { s with
        aborts := s.aborts.erase id, finished := s.finished.erase id, ended := s.ended.erase id }
    else s
  | .failInflight id =>
    { s with
      queue := s.queue.failInflight id
      finished := if id ∈ s.queue.inflight then insert id s.finished else s.finished
      ended := insert id s.ended }
  | .publish id item =>
    let (queue, published) := s.queue.publish id (s.stored, item)
    { s with
      queue := queue
      stored := if published then s.stored + 1 else s.stored
      ended := insert id s.ended }
  | .abort id => { s with queue := s.queue.abort id, aborts := insert id s.aborts }
  | .pop id =>
    match s.queue.pop id with
    | (queue, none) => { s with queue := queue }
    | (queue, some item) =>
      { s with queue := queue, popped := item.1 :: s.popped, finished := insert id s.finished }

/-- A call as a step. -/
def step (s : HandoffLog C P) (a : HandoffCall C P) : Option (HandoffLog C P) := some (s.call a)

/-- The id is not begun again while an item of it waits. -/
def Unreused (r : String) (s : HandoffLog C P) : HandoffCall C P → Prop
  | .begin id => id = r → s.queue.prepared r = none
  | _ => True

instance [DecidableEq P] (r : String) (s : HandoffLog C P) (a : HandoffCall C P) :
    Decidable (Unreused r s a) := by
  cases a <;> unfold Unreused <;> infer_instance

variable {s t : HandoffLog C P} {r : String} {a : HandoffCall C P}

/-- Marks are those of ids in flight, and an item that waits has a number of its own, which has not
been popped. -/
structure Sound (s : HandoffLog C P) : Prop where
  marks : s.queue.aborted ⊆ s.queue.inflight
  waiting : ∀ id item, s.queue.prepared id = some item → item.1 < s.stored ∧ item.1 ∉ s.popped
  apart : ∀ id item id' item', s.queue.prepared id = some item →
    s.queue.prepared id' = some item' → item.1 = item'.1 → id = id'
  popped : ∀ i ∈ s.popped, i < s.stored
  once : s.popped.Nodup

theorem sound_init : Sound (.init : HandoffLog C P) where
  marks := Finset.Subset.refl _
  waiting _ _ h := by cases h
  apart _ _ _ _ h := by cases h
  popped _ h := absurd h List.not_mem_nil
  once := List.nodup_nil

/-- Items only go away. -/
theorem Sound.fewer (h : Sound s) {queue : PreparedRequestQueue C (ℕ × P)}
    {aborts finished ended : Finset String} (hmarks : queue.aborted ⊆ queue.inflight)
    (hprepared : ∀ id item, queue.prepared id = some item → s.queue.prepared id = some item) :
    Sound { s with
      queue := queue, aborts := aborts, finished := finished, ended := ended } := { h with
  marks := hmarks
  waiting id item hitem := h.waiting id item (hprepared id item hitem)
  apart id item id' item' hitem hitem' :=
    h.apart id item id' item' (hprepared id item hitem) (hprepared id' item' hitem') }

/-- An item that is taken away leaves the others. -/
theorem prepared_of_update {prepared : String → Option P} {id id' : String} {item : P}
    (hitem : update prepared id none id' = some item) : prepared id' = some item := by
  by_cases heq : id' = id
  · subst heq
    rw [update_self] at hitem
    cases hitem
  · rwa [update_of_ne heq] at hitem

theorem Sound.call (h : Sound s) (a : HandoffCall C P) : Sound (s.call a) := by
  cases a with
  | setContext context => exact h.fewer (Finset.Subset.refl _) nofun
  | begin id =>
    simp only [HandoffLog.call, PreparedRequestQueue.begin]
    split
    · exact h.fewer (h.marks.trans (subset_insert _ _)) fun _ _ hitem => hitem
    · exact h
  | failInflight id => exact h.fewer (erase_subset_erase id h.marks) fun _ _ hitem => hitem
  | publish id item =>
    simp only [HandoffLog.call, PreparedRequestQueue.publish]
    split
    · refine ⟨erase_subset_erase id h.marks, fun id' item' hitem => ?_,
        fun id₁ item₁ id₂ item₂ h₁ h₂ heq => ?_, fun i hi => Nat.lt_succ_of_lt (h.popped i hi),
        h.once⟩
      · dsimp only at hitem ⊢
        by_cases hid : id' = id
        · subst hid
          rw [update_self] at hitem
          cases hitem
          exact ⟨Nat.lt_succ_self _, fun hmem => absurd (h.popped _ hmem) (Nat.lt_irrefl _)⟩
        · rw [update_of_ne hid] at hitem
          obtain ⟨hlt, hnot⟩ := h.waiting id' item' hitem
          exact ⟨Nat.lt_succ_of_lt hlt, hnot⟩
      · dsimp only at h₁ h₂
        by_cases hid₁ : id₁ = id <;> by_cases hid₂ : id₂ = id
        · rw [hid₁, hid₂]
        · subst hid₁
          rw [update_self] at h₁
          rw [update_of_ne hid₂] at h₂
          cases h₁
          exact absurd (h.waiting id₂ item₂ h₂).1 (heq ▸ Nat.lt_irrefl _)
        · subst hid₂
          rw [update_of_ne hid₁] at h₁
          rw [update_self] at h₂
          cases h₂
          exact absurd (h.waiting id₁ item₁ h₁).1 (heq ▸ Nat.lt_irrefl _)
        · rw [update_of_ne hid₁] at h₁
          rw [update_of_ne hid₂] at h₂
          exact h.apart id₁ item₁ id₂ item₂ h₁ h₂ heq
    · exact h.fewer (erase_subset_erase id h.marks) fun _ _ hitem => hitem
  | abort id =>
    simp only [HandoffLog.call, PreparedRequestQueue.abort]
    split
    · exact h.fewer h.marks fun _ _ hitem => prepared_of_update hitem
    · split
      next hinflight =>
        exact h.fewer (insert_subset hinflight h.marks) fun _ _ hitem => hitem
      · exact h.fewer h.marks fun _ _ hitem => hitem
  | pop id =>
    simp only [HandoffLog.call, PreparedRequestQueue.pop]
    cases hitem : s.queue.prepared id with
    | none => exact h.fewer h.marks fun _ _ hother => prepared_of_update hother
    | some item =>
      obtain ⟨hlt, hnot⟩ := h.waiting id item hitem
      refine ⟨h.marks, fun id' item' hother => ?_, fun id₁ item₁ id₂ item₂ h₁ h₂ =>
        h.apart id₁ item₁ id₂ item₂ (prepared_of_update h₁) (prepared_of_update h₂),
        fun i hi => ?_, List.nodup_cons.mpr ⟨hnot, h.once⟩⟩
      · have hold := prepared_of_update hother
        refine ⟨(h.waiting id' item' hold).1, fun hmem => ?_⟩
        rcases List.mem_cons.mp hmem with heq | hmem
        · have hid := h.apart id' item' id item hold hitem heq
          subst hid
          dsimp only at hother
          rw [update_self] at hother
          cases hother
        · exact (h.waiting id' item' hold).2 hmem
      · rcases List.mem_cons.mp hi with rfl | hi
        · exact hlt
        · exact h.popped i hi

/-- An id that is not begun while an item of it waits: the item waits only after the preparation,
and once the id is aborted, popped or has failed, what is left of it is the mark of a preparation
under way. -/
structure Tidy (r : String) (s : HandoffLog C P) : Prop where
  apart : s.queue.prepared r ≠ none → r ∉ s.queue.inflight
  gone : r ∈ s.aborts ∨ r ∈ s.finished →
    s.queue.prepared r = none ∧ (r ∈ s.queue.inflight → r ∈ s.queue.aborted)
  ended : r ∈ s.ended → r ∉ s.queue.inflight

theorem tidy_init (r : String) : Tidy r (.init : HandoffLog C P) where
  apart h := absurd rfl h
  gone _ := ⟨rfl, fun h => absurd h (notMem_empty r)⟩
  ended _ := notMem_empty r

/-- A call for another id. -/
theorem Tidy.congr (h : Tidy r s) (hprepared : t.queue.prepared r = s.queue.prepared r)
    (hinflight : r ∈ t.queue.inflight ↔ r ∈ s.queue.inflight)
    (haborted : r ∈ s.queue.aborted → r ∈ t.queue.aborted)
    (haborts : r ∈ t.aborts → r ∈ s.aborts) (hfinished : r ∈ t.finished → r ∈ s.finished)
    (hended : r ∈ t.ended → r ∈ s.ended) : Tidy r t where
  apart hitem hmem := h.apart (hprepared ▸ hitem) (hinflight.mp hmem)
  gone hgone := by
    obtain ⟨hnone, hmark⟩ := h.gone (hgone.imp haborts hfinished)
    exact ⟨hprepared.trans hnone, fun hmem => haborted (hmark (hinflight.mp hmem))⟩
  ended hmem hflight := h.ended (hended hmem) (hinflight.mp hflight)

/-- The preparation has ended, and no item waits. -/
theorem tidy_of_none (hnone : t.queue.prepared r = none) (hflight : r ∉ t.queue.inflight) :
    Tidy r t where
  apart hitem := absurd hnone hitem
  gone _ := ⟨hnone, fun hmem => absurd hmem hflight⟩
  ended _ := hflight

theorem Tidy.call (h : Tidy r s) (hok : Unreused r s a) : Tidy r (s.call a) := by
  cases a with
  | setContext context => exact tidy_of_none rfl (notMem_empty r)
  | begin id =>
    simp only [HandoffLog.call, PreparedRequestQueue.begin]
    split
    · by_cases heq : id = r
      · subst heq
        refine ⟨fun hitem => absurd (hok rfl) hitem, fun hgone => ?_, fun hended => ?_⟩
        · rcases hgone with hmem | hmem <;> exact absurd hmem (notMem_erase id _)
        · exact absurd hended (notMem_erase id _)
      · exact h.congr rfl (mem_insert.trans (or_iff_right (Ne.symm heq))) (fun hmem => hmem)
          mem_of_mem_erase mem_of_mem_erase mem_of_mem_erase
    · exact h
  | failInflight id =>
    by_cases heq : id = r
    · subst heq
      refine ⟨fun _ => notMem_erase id _, fun hgone => ⟨?_, fun hmem =>
        absurd hmem (notMem_erase id _)⟩, fun _ => notMem_erase id _⟩
      show s.queue.prepared id = none
      by_cases hflight : id ∈ s.queue.inflight
      · exact Classical.byContradiction fun hitem => h.apart hitem hflight
      · refine (h.gone (hgone.imp_right fun hmem => ?_)).1
        simpa only [HandoffLog.call, if_neg hflight] using hmem
    · refine h.congr rfl (mem_erase.trans (and_iff_right (Ne.symm heq)))
        (fun hmem => mem_erase.mpr ⟨Ne.symm heq, hmem⟩) (fun hmem => hmem) (fun hmem => ?_)
        fun hmem => (mem_insert.mp hmem).resolve_left (Ne.symm heq)
      simp only [HandoffLog.call] at hmem
      split at hmem
      · exact (mem_insert.mp hmem).resolve_left (Ne.symm heq)
      · exact hmem
  | publish id item =>
    by_cases heq : id = r
    · subst heq
      simp only [HandoffLog.call, PreparedRequestQueue.publish]
      split
      next hstored =>
        refine ⟨fun _ => notMem_erase id _, fun hgone => ?_, fun _ => notMem_erase id _⟩
        exact absurd ((h.gone hgone).2 hstored.1) hstored.2
      · exact ⟨fun _ => notMem_erase id _, fun hgone => ⟨(h.gone hgone).1, fun hmem =>
          absurd hmem (notMem_erase id _)⟩, fun _ => notMem_erase id _⟩
    · have hflight : r ∈ s.queue.inflight.erase id ↔ r ∈ s.queue.inflight :=
        mem_erase.trans (and_iff_right (Ne.symm heq))
      simp only [HandoffLog.call, PreparedRequestQueue.publish]
      split
      · exact h.congr (update_of_ne (Ne.symm heq) ..) hflight
          (fun hmem => mem_erase.mpr ⟨Ne.symm heq, hmem⟩) (fun hmem => hmem)
          (fun hmem => hmem) fun hmem => (mem_insert.mp hmem).resolve_left (Ne.symm heq)
      · exact h.congr rfl hflight
          (fun hmem => mem_erase.mpr ⟨Ne.symm heq, hmem⟩) (fun hmem => hmem)
          (fun hmem => hmem) fun hmem => (mem_insert.mp hmem).resolve_left (Ne.symm heq)
  | abort id =>
    by_cases heq : id = r
    · subst heq
      simp only [HandoffLog.call, PreparedRequestQueue.abort]
      split
      next hitem =>
        exact tidy_of_none (update_self ..) (h.apart (Option.isSome_iff_ne_none.mp hitem))
      next hitem =>
        have hnone : s.queue.prepared id = none :=
          Option.not_isSome_iff_eq_none.mp hitem
        split
        · exact ⟨fun hsome => absurd hnone hsome, fun _ =>
            ⟨hnone, fun _ => mem_insert_self id _⟩, h.ended⟩
        next hflight => exact tidy_of_none hnone hflight
    · have haborts : r ∈ insert id s.aborts → r ∈ s.aborts :=
        fun hmem => (mem_insert.mp hmem).resolve_left (Ne.symm heq)
      simp only [HandoffLog.call, PreparedRequestQueue.abort]
      split
      · exact h.congr (update_of_ne (Ne.symm heq) ..) Iff.rfl (fun hmem => hmem) haborts
          (fun hmem => hmem) fun hmem => hmem
      · split
        · exact h.congr rfl Iff.rfl mem_insert_of_mem haborts (fun hmem => hmem)
            fun hmem => hmem
        · exact h.congr rfl Iff.rfl (fun hmem => hmem) haborts (fun hmem => hmem) fun hmem => hmem
  | pop id =>
    simp only [HandoffLog.call, PreparedRequestQueue.pop]
    by_cases heq : id = r
    · subst heq
      cases hitem : s.queue.prepared id with
      | none =>
        exact h.congr ((update_self ..).trans hitem.symm) Iff.rfl (fun hmem => hmem)
          (fun hmem => hmem) (fun hmem => hmem) fun hmem => hmem
      | some item =>
        exact tidy_of_none (update_self ..) (h.apart (by rw [hitem]; exact nofun))
    · have hprepared : update s.queue.prepared id none r = s.queue.prepared r :=
        update_of_ne (Ne.symm heq) ..
      cases hitem : s.queue.prepared id with
      | none =>
        exact h.congr hprepared Iff.rfl (fun hmem => hmem) (fun hmem => hmem) (fun hmem => hmem)
          fun hmem => hmem
      | some item =>
        exact h.congr hprepared Iff.rfl (fun hmem => hmem) (fun hmem => hmem)
          (fun hmem => (mem_insert.mp hmem).resolve_left (Ne.symm heq)) fun hmem => hmem

/-- Whatever the threads do: marks are those of ids in flight, and no item is popped twice. An id
that is not begun again while an item of it waits is not popped between an abort and the next
`begin`, and once it has been popped, aborted or has failed since it was begun and its preparation
has ended, the queue has forgotten it. -/
theorem handed_over {as : List (HandoffCall C P)} (hrun : Run step anyAction .init as s) :
    s.queue.aborted ⊆ s.queue.inflight ∧ s.popped.Nodup ∧
    ∀ r, Run step (Unreused r) .init as s →
      (r ∈ s.aborts → (s.queue.pop r).2 = none) ∧
      (r ∈ s.aborts ∨ r ∈ s.finished → r ∈ s.ended → s.queue.Forgets r) := by
  have hsound : Sound s := hrun.invariant (I := Sound)
    (fun s a t h _ hstep => Option.some.inj hstep ▸ h.call a) sound_init
  refine ⟨hsound.marks, hsound.once, fun r hunused => ?_⟩
  have htidy : Tidy r s := hunused.invariant (I := Tidy r)
    (fun s a t h hok hstep => Option.some.inj hstep ▸ h.call hok) (tidy_init r)
  refine ⟨fun hmem => (htidy.gone (Or.inl hmem)).1, fun hgone hended => ?_⟩
  have hflight := htidy.ended hended
  exact ⟨(htidy.gone hgone).1, hflight, fun hmem => hflight (hsound.marks hmem)⟩

/-- Two requests, of which one is aborted in flight and the other is popped. -/
def twoRequests : List (HandoffCall ℕ ℕ) :=
  [.setContext (some 0), .begin "a", .begin "b", .abort "a", .publish "b" 1, .publish "a" 2,
    .pop "b"]

theorem handed_over_twoRequests : ∃ s : HandoffLog ℕ ℕ,
    s.queue.aborted ⊆ s.queue.inflight ∧ s.popped = [0] ∧ (s.queue.pop "a").2 = none ∧
      s.queue.Forgets "a" ∧ s.queue.Forgets "b" := by
  have hrun := run_of_isSome step (.init : HandoffLog ℕ ℕ) twoRequests rfl
  have hrunA : Run step (Unreused "a") (.init : HandoffLog ℕ ℕ) twoRequests _ :=
    run_of_exec_guarded rfl
  have hrunB : Run step (Unreused "b") (.init : HandoffLog ℕ ℕ) twoRequests _ :=
    run_of_exec_guarded rfl
  obtain ⟨hmarks, -, hone⟩ := handed_over hrun
  exact ⟨_, hmarks, rfl, (hone "a" hrunA).1 (by decide +kernel),
    (hone "a" hrunA).2 (Or.inl (by decide +kernel)) (by decide +kernel),
    (hone "b" hrunB).2 (Or.inr (by decide +kernel)) (by decide +kernel)⟩

/-- An abort before `begin` leaves no mark, so that the item waits although its request has been
aborted and its preparation has ended. An abort while an item waits leaves no mark for another
preparation of the same id, so that its item is popped after the abort. -/
theorem aborted_but_kept :
    (∃ s : HandoffLog ℕ ℕ, Run step anyAction .init
        [.setContext (some 0), .abort "a", .begin "a", .publish "a" 1] s ∧
      ¬s.queue.Forgets "a") ∧
    ∃ s : HandoffLog ℕ ℕ, Run step anyAction .init
        [.setContext (some 0), .begin "a", .publish "a" 1, .begin "a", .abort "a",
          .publish "a" 2] s ∧
      "a" ∈ s.aborts ∧ (s.queue.pop "a").2 = some (1, 2) := by
  refine ⟨⟨_, run_of_exec rfl, fun h => ?_⟩, _, run_of_exec rfl, by decide +kernel, rfl⟩
  have hnone := h.1
  cases hnone

end Omni.Tts.Handoff
