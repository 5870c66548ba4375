import Mathlib.Algebra.BigOperators.Group.Finset.Basic
import Mathlib.Algebra.Order.BigOperators.Group.Finset
import Mathlib.Data.List.Basic
import Mathlib.Tactic.Common
import Omni.Dllm.Scheduler

/-!
# Where the requests of a diffusion model are

Every request that is not aborted has been answered once or is held once, in the order of
arrival. Arrivals, aborts, draining and purging keep this.
-/

namespace Omni.Dllm

open Transition State List

variable {P V : Type} {cfg : Config P V} {s t : State P V} {n : ℕ} {rid : String} {payload : P}
  {aborted : List String}

/-- The requests that have got a result, as often as they have got one. -/
def State.answered (s : State P V) : List ℕ := s.outbox.map Outgoing.request

/-- In how many batches a request has been. -/
def State.rounds (s : State P V) (n : ℕ) : ℕ := s.batches.countP (n ∈ ·)

/-- A request was in a batch. -/
def State.Scheduled (s : State P V) (n : ℕ) : Prop := ∃ batch ∈ s.batches, n ∈ batch

/-- The ids by which the two queues are still to be purged after the inbox was empty. -/
def Pc.purges : Pc → List String
  | .purging aborted => aborted
  | _ => []

/-- An abort of the request has not been dealt with. -/
def State.Outstanding (s : State P V) (p : ℕ × String) : Prop :=
  p.2 ∈ s.abortedRequestIds ∨ p.2 ∈ s.pc.skips ∨
    p.2 ∈ s.pc.purges ∧ p.1 ∈ s.stagingQueue ++ s.waitingQueue

/-- The loop is between the forward pass of a batch and the end of `_post_step`. -/
def Pc.busy : Pc → Bool
  | .forwarding _ => true
  | .applied _ => true
  | _ => false

/-- `request_builder` returns if it is called for the message. -/
def Incoming.builds (cfg : Config P V) : Incoming P → Bool
  | .newRequest _ _ data => cfg.requestBuilder data
  | .other _ _ => true

/-- The batch of a forward pass. -/
def Pc.batch : Pc → List ℕ
  | .forwarding batch => batch
  | _ => []

/-- `result_adapter` returns for a request that finishes with these tokens. -/
def State.Adapts (cfg : Config P V) (s : State P V) (n : ℕ) (tokens : List ℕ) : Prop :=
  ∀ data ∈ s.ridToReqData (s.req n).rid, (cfg.appendTokens n (s.req n) tokens).finished →
    (cfg.resultAdapter { data with
      outputIds := cfg.outputIdsThroughStop n (cfg.appendTokens n (s.req n) tokens).outputIds
      finishReason := (cfg.appendTokens n (s.req n) tokens).finishedReason }).isSome

/-- An id is not submitted again while the scheduler has its request, the builder and the
adapter return, and no request of the staging queue is aborted when a round begins. -/
def Smooth (cfg : Config P V) (s : State P V) : Action P → Prop
  | .submit rid _ => ∀ p ∈ s.held, p.2 ≠ rid
  | .takeAborted => ∀ n ∈ s.stagingQueue, (s.req n).rid ∉ s.abortedRequestIds
  | .getMessage => ∀ msg ∈ s.inbox.head?, msg.requestId ∉ s.pc.skips → msg.builds cfg
  | .applyResults tokenIds => ∀ ids ∈ tokenIds, ∀ p ∈ s.pc.batch.zip ids, s.Adapts cfg p.1 p.2
  | _ => True

instance (s : State P V) (n : ℕ) (tokens : List ℕ) : Decidable (s.Adapts cfg n tokens) := by
  unfold Adapts
  infer_instance

instance : ∀ (s : State P V) (a : Action P), Decidable (Smooth cfg s a)
  | s, .submit rid _ => inferInstanceAs (Decidable (∀ p ∈ s.held, p.2 ≠ rid))
  | s, .takeAborted =>
    inferInstanceAs (Decidable (∀ n ∈ s.stagingQueue, (s.req n).rid ∉ s.abortedRequestIds))
  | s, .getMessage => inferInstanceAs (Decidable
      (∀ msg ∈ s.inbox.head?, msg.requestId ∉ s.pc.skips → msg.builds cfg))
  | s, .applyResults tokenIds => inferInstanceAs (Decidable
      (∀ ids ∈ tokenIds, ∀ p ∈ s.pc.batch.zip ids, s.Adapts cfg p.1 p.2))
  | _, .message _ _ => inferInstanceAs (Decidable True)
  | _, .abort _ => inferInstanceAs (Decidable True)
  | _, .purge => inferInstanceAs (Decidable True)
  | _, .scheduleNextBatch _ _ => inferInstanceAs (Decidable True)
  | _, .postStep => inferInstanceAs (Decidable True)

/-- What holds of a scheduler that answers every request once. -/
structure Answers (s : State P V) : Prop where
  /-- The loop goes on. -/
  alive : s.pc ≠ .crashed
  /-- No request is answered twice. -/
  once : ∀ n, s.answered.count n ≤ 1
  /-- A request that is not aborted has been answered, or the scheduler has it. -/
  answered : ∀ n < s.arrived, n ∉ s.aborted → s.answered.count n + (s.held.map Prod.fst).count n = 1
  /-- As long as a request waits, every batch is a round of it or of an earlier one. -/
  served : ∀ p ∈ s.held, s.batches.length ≤ ∑ m ∈ Finset.range (p.1 + 1), s.rounds m
  /-- The KV cache of a request that was scheduled is released once, when it leaves the
  staging queue. -/
  released : ∀ n, n ∉ s.stagingQueue → s.Scheduled n → (s.released.map Prod.fst).count n = 1
  /-- Before, it is not, and never that of another request. -/
  unreleased : ∀ n, n ∈ s.stagingQueue ∨ ¬s.Scheduled n → (s.released.map Prod.fst).count n = 0
  /-- A request that has got its result, or whose abort has been dealt with, is in no
  queue; only until the end of the round it stays in the staging queue. -/
  gone : ∀ n, n ∈ s.answered ∨ n ∈ s.aborted ∧ ¬s.Outstanding (n, (s.req n).rid) →
    n ∉ s.waitingQueue ∧ (s.pc.busy = false → n ∉ s.stagingQueue) ∧
      ∀ rid data, s.ridToReqData rid = some data → data.req ≠ n

/-- What holds of the scheduler whenever no exception has ended the loop. -/
structure Sound (s : State P V) : Prop where
  alive : s.pc ≠ .crashed
  /-- The requests are held in the order of their arrival, under different ids. -/
  order : s.held.Pairwise fun p q => p.1 < q.1 ∧ p.2 ≠ q.2
  recent : ∀ p ∈ s.held, p.1 < s.arrived
  nodup : s.stagingQueue.Nodup
  waiting : ∀ n ∈ s.waitingQueue, (s.req n).finished = false
  settled : s.pc.busy = false →
    ∀ n ∈ s.stagingQueue, (s.req n).finished = false ∧ (s.req n).reqPoolIdx = none
  forwarding : ∀ batch, s.pc = .forwarding batch →
    batch = s.stagingQueue ∧ ∀ n ∈ s.stagingQueue, (s.req n).finished = false
  rows : s.pc.busy → ∀ n ∈ s.stagingQueue, (s.req n).reqPoolIdx.isSome
  applied : ∀ batch, s.pc = .applied batch → batch = s.stagingQueue
  spared : ∀ n ∈ s.stagingQueue, (s.req n).rid ∉ s.pc.skips ∧ (s.req n).rid ∉ s.pc.purges
  known : ∀ n ∈ s.unfinished, ∃ data, s.ridToReqData (s.req n).rid = some data ∧ data.req = n
  data : ∀ rid data, s.ridToReqData rid = some data →
    data.req ∈ s.unfinished ∧ (s.req data.req).rid = rid
  results : s.answered.Nodup
  ended : ∀ n ∈ s.answered, n < s.arrived ∧ n ∉ s.held.map Prod.fst
  total : ∀ n < s.arrived, n ∈ s.aborted ∨ n ∈ s.answered ∨ n ∈ s.held.map Prod.fst
  marks : ∀ p ∈ s.held, p.1 ∈ s.aborted ↔ s.Outstanding p
  past : ∀ n ∈ s.aborted, n < s.arrived
  scheduled : ∀ n ∈ s.stagingQueue, s.Scheduled n
  fresh : ∀ batch ∈ s.batches, ∀ n ∈ batch,
    n < s.arrived ∧ n ∉ s.waitingQueue ∧ n ∉ (s.inbox.filterMap Incoming.request).map Prod.fst
  nonempty : ∀ batch ∈ s.batches, batch ≠ []
  served : ∀ p ∈ s.held, ∀ batch ∈ s.batches, ∃ m ∈ batch, m ≤ p.1
  released : ∀ n, n ∉ s.stagingQueue → s.Scheduled n → (s.released.map Prod.fst).count n = 1
  unreleased : ∀ n, n ∈ s.stagingQueue ∨ ¬s.Scheduled n → (s.released.map Prod.fst).count n = 0

/-- Before the first arrival. -/
theorem sound_init : Sound (init P V) where
  alive := by simp [init]
  order := by simp [init, held, unfinished]
  recent := by simp [init, held, unfinished]
  nodup := by simp [init]
  waiting := by simp [init]
  settled := by simp [init]
  forwarding := by simp [init]
  rows := by simp [init]
  applied := by simp [init]
  spared := by simp [init]
  known := by simp [init, unfinished]
  data := by simp [init]
  results := by simp [init, answered]
  ended := by simp [State.init, State.answered]
  total := by simp [init]
  marks := by simp [init, held, unfinished]
  past := by simp [init]
  scheduled := by simp [init]
  fresh := by simp [init]
  nonempty := by simp [init]
  served := by simp [init]
  released := by simp [init, Scheduled]
  unreleased := by simp [init]

/-! ### What the invariant says -/

/-- The numbers of the held requests are different. -/
theorem Sound.nodup_held (hs : Sound s) : (s.held.map Prod.fst).Nodup := by
  refine List.Pairwise.map _ (fun p q hpq => ?_) hs.order
  exact Nat.ne_of_lt hpq.1

/-- So are the ids of the requests in the queues. -/
theorem Sound.nodup_rids (hs : Sound s) :
    (s.unfinished.map fun n => (s.req n).rid).Nodup := by
  have hqueued := (pairwise_append.mp hs.order).1
  rw [pairwise_map] at hqueued
  exact pairwise_map.mpr (hqueued.imp fun h => h.2)

/-- A request of a queue is held under its id. -/
theorem mem_held_of_unfinished (hn : n ∈ s.unfinished) :
    (n, (s.req n).rid) ∈ s.held :=
  mem_append_left _ (mem_map_of_mem hn)

theorem mem_unfinished_of_waiting (hn : n ∈ s.waitingQueue) : n ∈ s.unfinished :=
  mem_append_right _ hn

/-- If every batch has a member up to `n`, there are no more batches than rounds of these. -/
theorem length_le_sum_rounds {batches : List (List ℕ)} (h : ∀ batch ∈ batches, ∃ m ∈ batch, m ≤ n) :
    batches.length ≤ ∑ m ∈ Finset.range (n + 1), batches.countP (m ∈ ·) := by
  induction batches with
  | nil => simp
  | cons batch batches ih =>
    have hrest := ih fun b hb => h b (mem_cons_of_mem _ hb)
    obtain ⟨m, hm, hle⟩ := h batch (mem_cons_self ..)
    have hone : 1 ≤ ∑ k ∈ Finset.range (n + 1), if k ∈ batch then 1 else 0 := by
      have hterm := Finset.single_le_sum (f := fun k => if k ∈ batch then 1 else 0)
        (fun _ _ => Nat.zero_le _) (Finset.mem_range.mpr (Nat.lt_succ_of_le hle))
      simpa [hm] using hterm
    have hsplit : ∑ k ∈ Finset.range (n + 1), (batch :: batches).countP (k ∈ ·) =
        (∑ k ∈ Finset.range (n + 1), batches.countP (k ∈ ·)) +
          ∑ k ∈ Finset.range (n + 1), if k ∈ batch then 1 else 0 := by
      rw [← Finset.sum_add_distrib]
      refine Finset.sum_congr rfl fun k _ => ?_
      simp [countP_cons]
    rw [hsplit, length_cons]
    exact Nat.add_le_add hrest hone

/-- The invariant gives the property. -/
theorem Sound.answers (hs : Sound s) : Answers s := { hs with
  once n := nodup_iff_count_le_one.mp hs.results n
  answered n hn haborted := by
    rcases (hs.total n hn).resolve_left haborted with hanswered | hheld
    · rw [count_eq_one_of_mem hs.results hanswered,
        count_eq_zero_of_not_mem (hs.ended n hanswered).2]
    · have hfresh : n ∉ s.answered := fun h => (hs.ended n h).2 hheld
      rw [count_eq_one_of_mem hs.nodup_held hheld, count_eq_zero_of_not_mem hfresh]
  served p hp := length_le_sum_rounds fun batch hbatch => hs.served p hp batch hbatch
  gone n hn := by
    have hnot : n ∉ s.unfinished := by
      intro hqueued
      rcases hn with hanswered | ⟨haborted, hdone⟩
      · exact (hs.ended n hanswered).2
          (mem_map_of_mem (f := Prod.fst) (mem_held_of_unfinished hqueued))
      · exact hdone ((hs.marks _ (mem_held_of_unfinished hqueued)).mp haborted)
    refine ⟨fun h => hnot (mem_unfinished_of_waiting h), fun hbusy hstaged => ?_,
      fun rid data hdata heq => hnot (heq ▸ (hs.data rid data hdata).1)⟩
    refine hnot (mem_append_left _ (mem_filter.mpr ⟨hstaged, ?_⟩))
    simp [(hs.settled hbusy n hstaged).1] }

/-- A new request is held last. -/
theorem held_submit :
    (s.submit rid payload).held = s.held ++ [(s.arrived, rid)] := by
  simp [held, submit, unfinished, Incoming.request]

/-- A request arrives under an id that is not in use. -/
theorem Sound.submit (hs : Sound s) (hnew : ∀ p ∈ s.held, p.2 ≠ rid) :
    Sound (s.submit rid payload) := by
  have hlast : ∀ p ∈ (s.submit rid payload).held, p ∈ s.held ∨ p = (s.arrived, rid) := by
    intro p hp
    rw [held_submit] at hp
    simpa using hp
  have hmarked : ∀ p, (s.submit rid payload).Outstanding p ↔ s.Outstanding p := fun _ => Iff.rfl
  have haborted : ∀ n, n ∈ (s.submit rid payload).aborted ↔
      n ∈ s.aborted ∨ n = s.arrived ∧ (rid ∈ s.abortedRequestIds ∨ rid ∈ s.pc.skips) := by
    intro n
    by_cases h : rid ∈ s.abortedRequestIds ∨ rid ∈ s.pc.skips <;> simp [State.submit, h]
  exact { hs with
    order := by
      rw [held_submit]
      refine pairwise_append.mpr ⟨hs.order, pairwise_singleton _ _, ?_⟩
      intro p hp q hq
      rw [mem_singleton.mp hq]
      exact ⟨hs.recent p hp, hnew p hp⟩
    recent := by
      intro p hp
      rcases hlast p hp with h | rfl
      · exact Nat.lt_succ_of_lt (hs.recent p h)
      · exact Nat.lt_succ_self _
    ended := by
      intro n hn
      obtain ⟨hlt, hout⟩ := hs.ended n hn
      refine ⟨Nat.lt_succ_of_lt hlt, fun hin => ?_⟩
      obtain ⟨p, hp, rfl⟩ := mem_map.mp hin
      rcases hlast p hp with h | rfl
      · exact hout (mem_map_of_mem h)
      · exact Nat.lt_irrefl _ hlt
    total := by
      intro n hn
      rw [haborted, held_submit]
      rcases Nat.lt_succ_iff_lt_or_eq.mp hn with hlt | rfl
      · rcases hs.total n hlt with h | h | h
        · exact Or.inl (Or.inl h)
        · exact Or.inr (Or.inl h)
        · refine Or.inr (Or.inr ?_)
          rw [map_append]
          exact mem_append_left _ h
      · refine Or.inr (Or.inr ?_)
        simp
    marks := by
      intro p hp
      rw [haborted, hmarked]
      rcases hlast p hp with h | rfl
      · have hne : p.1 ≠ s.arrived := Nat.ne_of_lt (hs.recent p h)
        simpa [hne] using hs.marks p h
      · have hout : s.arrived ∉ s.aborted := fun h => Nat.lt_irrefl _ (hs.past _ h)
        have hqueues : s.arrived ∉ s.stagingQueue ++ s.waitingQueue := by
          intro h
          rcases mem_append.mp h with h | h
          · obtain ⟨batch, hbatch, hmem⟩ := hs.scheduled _ h
            exact Nat.lt_irrefl _ (hs.fresh batch hbatch _ hmem).1
          · exact Nat.lt_irrefl _
              (hs.recent _ (mem_held_of_unfinished (mem_unfinished_of_waiting h)))
        simp [State.Outstanding, hout, hqueues]
    past := by
      intro n hn
      rcases (haborted n).mp hn with h | ⟨rfl, -⟩
      · exact Nat.lt_succ_of_lt (hs.past n h)
      · exact Nat.lt_succ_self _
    fresh := by
      intro batch hbatch n hn
      obtain ⟨hlt, hwaiting, hinbox⟩ := hs.fresh batch hbatch n hn
      refine ⟨Nat.lt_succ_of_lt hlt, hwaiting, ?_⟩
      simpa [State.submit, Incoming.request, Nat.ne_of_lt hlt] using hinbox
    served := by
      intro p hp batch hbatch
      rcases hlast p hp with h | rfl
      · exact hs.served p h batch hbatch
      · obtain ⟨m, hm⟩ := exists_mem_of_ne_nil _ (hs.nonempty batch hbatch)
        exact ⟨m, hm, Nat.le_of_lt (hs.fresh batch hbatch m hm).1⟩
}

theorem Sound.message {type : String} (hs : Sound s) : Sound (s.message rid type) := by
  have hinbox : (s.message rid type).inbox.filterMap Incoming.request =
      s.inbox.filterMap Incoming.request := by
    simp [State.message, Incoming.request]
  have hheld : (s.message rid type).held = s.held := by
    unfold held
    rw [hinbox]
    rfl
  exact { hs with
    order := hheld ▸ hs.order
    recent := hheld ▸ hs.recent
    ended := hheld ▸ hs.ended
    total := hheld ▸ hs.total
    marks := hheld ▸ hs.marks
    fresh := hinbox ▸ hs.fresh
    served := hheld ▸ hs.served
}

theorem Sound.abort (hs : Sound s) : Sound (s.abort rid) := by
  have haborted : ∀ n, n ∈ (s.abort rid).aborted ↔ n ∈ s.aborted ∨ (n, rid) ∈ s.held := by
    intro n
    simp only [State.abort, mem_append, mem_map, mem_filter, decide_eq_true_eq]
    constructor
    · rintro (h | ⟨⟨m, r⟩, ⟨hp, rfl⟩, rfl⟩)
      · exact Or.inl h
      · exact Or.inr hp
    · rintro (h | h)
      · exact Or.inl h
      · exact Or.inr ⟨(n, rid), ⟨h, rfl⟩, rfl⟩
  exact { hs with
    total := by
      intro n hn
      rw [haborted]
      rcases hs.total n hn with h | h | h
      · exact Or.inl (Or.inl h)
      · exact Or.inr (Or.inl h)
      · exact Or.inr (Or.inr h)
    marks := by
      intro p hp
      have hp' : p ∈ s.held := hp
      rw [haborted, hs.marks p hp']
      have hid : (p.1, rid) ∈ s.held ↔ p.2 = rid := by
        constructor
        · intro h
          exact congrArg Prod.snd (inj_on_of_nodup_map hs.nodup_held hp' h rfl)
        · rintro rfl
          exact hp'
      rw [hid]
      simp only [State.Outstanding, State.abort, mem_append, mem_singleton]
      tauto
    past := by
      intro n hn
      rcases (haborted n).mp hn with h | h
      · exact hs.past n h
      · exact hs.recent _ h
}

theorem Sound.takeAborted (hs : Sound s) (hpc : s.pc = .top)
    (hspared : ∀ n ∈ s.stagingQueue, (s.req n).rid ∉ s.abortedRequestIds) :
    Sound s.takeAborted := by
  have hsettled := hs.settled (by simp [hpc, Pc.busy])
  exact { hs with
    alive := by simp [State.takeAborted]
    settled := fun _ => hsettled
    forwarding := by simp [State.takeAborted]
    rows := by simp [State.takeAborted, Pc.busy]
    applied := by simp [State.takeAborted]
    spared := fun n hn => ⟨hspared n hn, by simp [State.takeAborted, Pc.purges]⟩
    marks := by
      intro p hp
      have hmark := hs.marks p hp
      simp only [Outstanding, hpc, Pc.skips, Pc.purges, not_mem_nil, false_and, or_false] at hmark
      simpa [State.Outstanding, State.takeAborted, Pc.skips, Pc.purges] using hmark
}

theorem Sound.startPurging (hs : Sound s) (hpc : s.pc = .draining aborted) (hinbox : s.inbox = []) :
    Sound { s with pc := .purging aborted } := by
  have hsettled := hs.settled (by simp [hpc, Pc.busy])
  exact { hs with
    alive := by simp
    settled := fun _ => hsettled
    forwarding := by simp
    rows := by simp [Pc.busy]
    applied := by simp
    spared := by
      intro n hn
      have hspared := (hs.spared n hn).1
      simp only [hpc, Pc.skips] at hspared
      simpa [Pc.skips, Pc.purges] using hspared
    marks := by
      intro p hp
      have hp' : p ∈ s.held := hp
      have hqueued : p.1 ∈ s.stagingQueue ∨ p.1 ∈ s.waitingQueue := by
        simp only [held, hinbox, filterMap_nil, append_nil, mem_map] at hp'
        obtain ⟨n, hn, rfl⟩ := hp'
        rcases mem_append.mp hn with h | h
        · exact Or.inl (mem_filter.mp h).1
        · exact Or.inr h
      have hmark := hs.marks p hp'
      simp only [Outstanding, hpc, Pc.skips, Pc.purges, not_mem_nil, false_and, or_false] at hmark
      simpa [Outstanding, Pc.skips, Pc.purges, hqueued] using hmark
}

/-- A message is left out: it is of another type, or an abort of its request is outstanding. -/
theorem Sound.skip {msg : Incoming P} {inbox : List (Incoming P)} (hs : Sound s)
    (hinbox : s.inbox = msg :: inbox)
    (hskip : ∀ p, msg.request = some p → s.Outstanding p) : Sound { s with inbox := inbox } := by
  have hsub : List.Sublist (inbox.filterMap Incoming.request)
      (s.inbox.filterMap Incoming.request) := by
    rw [hinbox]
    exact (sublist_cons_self _ _).filterMap _
  have hheld : List.Sublist (held { s with inbox := inbox }) s.held :=
    (List.Sublist.refl _).append hsub
  have hfewer : ∀ p ∈ held { s with inbox := inbox }, p ∈ s.held := fun p hp =>
    hheld.subset hp
  exact { hs with
    order := hs.order.sublist hheld
    recent := fun p hp => hs.recent p (hfewer p hp)
    ended := by
      intro n hn
      obtain ⟨hlt, hout⟩ := hs.ended n hn
      exact ⟨hlt, fun hin => hout ((hheld.map Prod.fst).subset hin)⟩
    total := by
      intro n hn
      rcases hs.total n hn with h | h | h
      · exact Or.inl h
      · exact Or.inr (Or.inl h)
      · obtain ⟨p, hp, rfl⟩ := mem_map.mp h
        rcases mem_append.mp hp with hqueued | hin
        · exact Or.inr (Or.inr (mem_map_of_mem (mem_append_left _ hqueued)))
        · rw [hinbox] at hin
          obtain ⟨m, hm, hreq⟩ := mem_filterMap.mp hin
          rcases mem_cons.mp hm with rfl | hrest
          · exact Or.inl ((hs.marks p hp).mpr (hskip p hreq))
          · refine Or.inr (Or.inr (mem_map_of_mem (mem_append_right _ ?_)))
            exact mem_filterMap.mpr ⟨m, hrest, hreq⟩
    marks := fun p hp => hs.marks p (hfewer p hp)
    fresh := by
      intro batch hbatch n hn
      obtain ⟨hlt, hwaiting, hout⟩ := hs.fresh batch hbatch n hn
      exact ⟨hlt, hwaiting, fun hin => hout ((hsub.map Prod.fst).subset hin)⟩
    served := fun p hp => hs.served p (hfewer p hp) }

theorem Sound.not_queued_of_inbox {p : ℕ × String} (hs : Sound s)
    (hp : p ∈ s.inbox.filterMap Incoming.request) :
    p.1 ∉ s.stagingQueue ∧ p.1 ∉ s.waitingQueue := by
  constructor
  · intro h
    obtain ⟨batch, hbatch, hmem⟩ := hs.scheduled _ h
    exact (hs.fresh batch hbatch _ hmem).2.2 (mem_map_of_mem hp)
  · intro h
    have hqueued : (p.1, (s.req p.1).rid) ∈ s.unfinished.map fun n => (n, (s.req n).rid) :=
      mem_map_of_mem (f := fun n => (n, (s.req n).rid)) (mem_unfinished_of_waiting h)
    exact Nat.lt_irrefl _ ((pairwise_append.mp hs.order).2.2 _ hqueued p hp).1

/-- A request is built and put into the waiting queue. -/
theorem Sound.register {inbox : List (Incoming P)} (hs : Sound s)
    (hinbox : s.inbox = .newRequest n rid payload :: inbox) (hpc : s.pc = .draining aborted) :
    Sound (State.register { s with inbox := inbox } n rid payload) := by
  have hin : (n, rid) ∈ s.inbox.filterMap Incoming.request := by
    simp [hinbox, Incoming.request]
  obtain ⟨hstaging, hwaiting⟩ := hs.not_queued_of_inbox hin
  have hsettled := hs.settled (by simp [hpc, Pc.busy])
  have hsame : ∀ m, m ≠ n →
      (State.register { s with inbox := inbox } n rid payload).req m = s.req m := by
    intro m hm
    simp [State.register, hm]
  have hself : (State.register { s with inbox := inbox } n rid payload).req n =
      ⟨rid, [], none, none, 0⟩ := by
    simp [State.register]
  have hstaged : ∀ m ∈ s.stagingQueue,
      (State.register { s with inbox := inbox } n rid payload).req m = s.req m := fun m hm =>
    hsame m fun h => hstaging (h ▸ hm)
  have hunfinished : (State.register { s with inbox := inbox } n rid payload).unfinished =
      s.unfinished ++ [n] := by
    have hfilter : s.stagingQueue.filter (fun m =>
        !((State.register { s with inbox := inbox } n rid payload).req m).finished) =
        s.stagingQueue.filter fun m => !(s.req m).finished :=
      filter_congr fun m hm => by rw [hstaged m hm]
    calc (State.register { s with inbox := inbox } n rid payload).unfinished
        = s.stagingQueue.filter (fun m => !(s.req m).finished) ++ (s.waitingQueue ++ [n]) :=
          congrArg (· ++ (s.waitingQueue ++ [n])) hfilter
      _ = s.unfinished ++ [n] := (append_assoc ..).symm
  have hnew : n ∉ s.unfinished := by
    intro h
    rcases mem_append.mp h with h | h
    · exact hstaging (mem_filter.mp h).1
    · exact hwaiting h
  have hheld : (State.register { s with inbox := inbox } n rid payload).held = s.held := by
    have hmap : s.unfinished.map (fun m => (m,
        ((State.register { s with inbox := inbox } n rid payload).req m).rid)) =
        s.unfinished.map fun m => (m, (s.req m).rid) :=
      map_congr_left fun m hm => by rw [hsame m fun h => hnew (h ▸ hm)]
    simp only [State.held, hunfinished, map_append, hmap, map_cons, map_nil, hself]
    simp [State.register, hinbox, Incoming.request]
  have hrid : ∀ m ∈ s.unfinished, (s.req m).rid ≠ rid := fun m hm =>
    ((pairwise_append.mp hs.order).2.2 _
      (mem_map_of_mem (f := fun k => (k, (s.req k).rid)) hm) _ hin).2
  have hdata : ∀ r, r ≠ rid →
      (State.register { s with inbox := inbox } n rid payload).ridToReqData r =
        s.ridToReqData r := by
    intro r hr
    simp [State.register, hr]
  exact { hs with
    order := hheld ▸ hs.order
    recent := hheld ▸ hs.recent
    waiting := by
      intro m hm
      by_cases h : m = n
      · rw [h, hself]
        rfl
      · rw [hsame m h]
        have hold : m ∈ s.waitingQueue := by simpa [State.register, h] using hm
        exact hs.waiting m hold
    settled := by
      intro _ m hm
      rw [hstaged m hm]
      exact hsettled m hm
    forwarding := by simp [State.register, hpc]
    rows := by simp [State.register, hpc, Pc.busy]
    applied := by simp [State.register, hpc]
    spared := by
      intro m hm
      rw [hstaged m hm]
      exact hs.spared m hm
    known := by
      intro m hm
      rw [hunfinished] at hm
      rcases mem_append.mp hm with h | h
      · rw [hsame m fun heq => hnew (heq ▸ h), hdata _ (hrid m h)]
        exact hs.known m h
      · rw [mem_singleton.mp h, hself]
        exact ⟨⟨n, payload, [], none⟩, by simp [State.register], rfl⟩
    data := by
      intro r d hd
      by_cases h : r = rid
      · subst h
        have hd' : some (ReqData.mk n payload [] none) = some d := by
          simpa [State.register] using hd
        cases hd'
        rw [hunfinished]
        exact ⟨by simp, by rw [hself]⟩
      · rw [hdata r h] at hd
        obtain ⟨hmem, heq⟩ := hs.data r d hd
        rw [hunfinished, hsame _ fun h => hnew (h ▸ hmem)]
        exact ⟨mem_append_left _ hmem, heq⟩
    ended := hheld ▸ hs.ended
    total := hheld ▸ hs.total
    marks := by
      intro p hp
      rw [hheld] at hp
      have hmark := hs.marks p hp
      simp only [State.Outstanding, hpc, Pc.purges, not_mem_nil, false_and] at hmark
      simpa [State.Outstanding, State.register, hpc, Pc.purges] using hmark
    fresh := by
      intro batch hbatch m hm
      obtain ⟨hlt, hout, hnot⟩ := hs.fresh batch hbatch m hm
      have hne : m ≠ n := by
        rintro rfl
        exact hnot (mem_map_of_mem (f := Prod.fst) hin)
      refine ⟨hlt, by simpa [State.register, hne] using hout, ?_⟩
      simpa [hinbox, Incoming.request, State.register, hne] using hnot
    served := hheld ▸ hs.served
}

/-- If no request of the staging queue is aborted, the unfinished ones remain. -/
theorem purgeStaging_spared {aborted : List String} :
    ∀ {staging : List ℕ}, (∀ n ∈ staging, (s.req n).rid ∉ aborted) →
      s.purgeStaging aborted staging = .ok (s, staging.filter fun n => !(s.req n).finished)
  | [], _ => rfl
  | n :: ns, h => by
    have hrest := purgeStaging_spared fun m hm => h m (mem_cons_of_mem n hm)
    rw [purgeStaging, if_neg (h n (mem_cons_self ..)), hrest]
    cases hn : (s.req n).finished <;> simp [hn, bind, Except.bind, pure, Except.pure]

/-- What the purge leaves of the waiting queue. -/
def State.purged (s : State P V) (aborted : List String) : State P V :=
  { s with
    waitingQueue := s.waitingQueue.filter fun n =>
      (s.req n).rid ∉ aborted ∧ !(s.req n).finished
    ridToReqData := fun rid => if rid ∈ aborted then none else s.ridToReqData rid
    pc := .scheduling }

/-- The purge leaves the staging queue as it is. -/
theorem Sound.purge_eq (hs : Sound s) (hpc : s.pc = .purging aborted) :
    s.purge aborted = .ok (s.purged aborted) := by
  have hspared : ∀ n ∈ s.stagingQueue, (s.req n).rid ∉ aborted := by
    intro n hn
    have h := (hs.spared n hn).2
    simpa only [hpc, Pc.purges] using h
  have hkept : s.stagingQueue.filter (fun n => !(s.req n).finished) = s.stagingQueue := by
    refine filter_eq_self.mpr fun n hn => ?_
    simp [(hs.settled (by simp [hpc, Pc.busy]) n hn).1]
  have hstaging : purgeStaging aborted { s with
      waitingQueue := s.waitingQueue.filter fun n =>
        (s.req n).rid ∉ aborted ∧ !(s.req n).finished } s.stagingQueue = .ok (_, _) :=
    purgeStaging_spared hspared
  rw [purge, hstaging]
  simp only [bind, Except.bind, pure, Except.pure, hkept, purged]

theorem Sound.purged (hs : Sound s) (hpc : s.pc = .purging aborted) :
    Sound (s.purged aborted) := by
  have hsettled := hs.settled (by simp [hpc, Pc.busy])
  have hspared : ∀ n ∈ s.stagingQueue, (s.req n).rid ∉ aborted := by
    intro n hn
    have h := (hs.spared n hn).2
    simpa only [hpc, Pc.purges] using h
  have hsub : List.Sublist (s.purged aborted).unfinished s.unfinished :=
    (List.Sublist.refl _).append filter_sublist
  have hheld : List.Sublist (s.purged aborted).held s.held :=
    (hsub.map _).append (List.Sublist.refl _)
  have hkeeps : ∀ n, n ∈ (s.purged aborted).unfinished ↔
      n ∈ s.unfinished ∧ (s.req n).rid ∉ aborted := by
    intro n
    simp only [State.unfinished, State.purged, mem_append, mem_filter,
      decide_eq_true_eq, Bool.not_eq_true']
    constructor
    · rintro (⟨h, hn⟩ | ⟨h, hout, -⟩)
      · exact ⟨Or.inl ⟨h, hn⟩, hspared n h⟩
      · exact ⟨Or.inr h, hout⟩
    · rintro ⟨⟨h, hn⟩ | h, hout⟩
      · exact Or.inl ⟨h, hn⟩
      · exact Or.inr ⟨h, hout, hs.waiting n h⟩
  have hmark : ∀ p ∈ s.held, p.1 ∈ s.aborted ↔
      p.2 ∈ s.abortedRequestIds ∨ p.2 ∈ aborted ∧ p.1 ∈ s.stagingQueue ++ s.waitingQueue := by
    intro p hp
    have h := hs.marks p hp
    simpa only [State.Outstanding, hpc, Pc.skips, Pc.purges, not_mem_nil, false_or] using h
  exact { hs with
    alive := by simp [State.purged]
    order := hs.order.sublist hheld
    recent := fun p hp => hs.recent p (hheld.subset hp)
    waiting := fun n hn => hs.waiting n (mem_filter.mp hn).1
    settled := fun _ => hsettled
    forwarding := by simp [State.purged]
    rows := by simp [State.purged, Pc.busy]
    applied := by simp [State.purged]
    spared := by simp [State.purged, Pc.skips, Pc.purges]
    known := by
      intro n hn
      obtain ⟨hmem, hout⟩ := (hkeeps n).mp hn
      have hout' : (s.req n).rid ∉ aborted := hout
      simpa [State.purged, hout'] using hs.known n hmem
    data := by
      intro rid d hd
      obtain ⟨hout, hd⟩ := Option.ite_none_left_eq_some.mp hd
      obtain ⟨hmem, heq⟩ := hs.data rid d hd
      exact ⟨(hkeeps _).mpr ⟨hmem, heq.symm ▸ hout⟩, heq⟩
    ended := by
      intro n hn
      obtain ⟨hlt, hout⟩ := hs.ended n hn
      exact ⟨hlt, fun hin => hout ((hheld.map Prod.fst).subset hin)⟩
    total := by
      intro n hn
      rcases hs.total n hn with h | h | h
      · exact Or.inl h
      · exact Or.inr (Or.inl h)
      · obtain ⟨p, hp, rfl⟩ := mem_map.mp h
        rcases mem_append.mp hp with hqueued | hin
        · obtain ⟨m, hm, rfl⟩ := mem_map.mp hqueued
          by_cases hout : (s.req m).rid ∈ aborted
          · refine Or.inl ((hmark _ hp).mpr (Or.inr ⟨hout, ?_⟩))
            exact (filter_sublist.append (List.Sublist.refl _)).subset hm
          · exact Or.inr (Or.inr (mem_map_of_mem (f := Prod.fst)
              (mem_held_of_unfinished ((hkeeps m).mpr ⟨hm, hout⟩))))
        · exact Or.inr (Or.inr (mem_map_of_mem (mem_append_right _ hin)))
    marks := by
      intro p hp
      have hfree : ¬(p.2 ∈ aborted ∧ p.1 ∈ s.stagingQueue ++ s.waitingQueue) := by
        rintro ⟨hin, hqueue⟩
        rcases mem_append.mp hp with hqueued | hinbox
        · obtain ⟨m, hm, rfl⟩ := mem_map.mp hqueued
          exact ((hkeeps m).mp hm).2 hin
        · obtain ⟨hstaging, hwaiting⟩ := hs.not_queued_of_inbox hinbox
          rcases mem_append.mp hqueue with h | h
          · exact hstaging h
          · exact hwaiting h
      have h := hmark p (hheld.subset hp)
      rw [or_iff_left hfree] at h
      simpa [State.Outstanding, State.purged, Pc.skips, Pc.purges] using h
    fresh := by
      intro batch hbatch n hn
      obtain ⟨hlt, hwaiting, hinbox⟩ := hs.fresh batch hbatch n hn
      exact ⟨hlt, fun h => hwaiting (mem_filter.mp h).1, hinbox⟩
    served := fun p hp => hs.served p (hheld.subset hp) }

end Omni.Dllm
