import Omni.Dllm.Sound

/-!
# Every request of a diffusion model is answered once

As long as the builder and the adapter return, and no request is aborted between two of its
rounds, the loop goes on and answers every request once. One such exception ends the loop for
all requests.
-/

namespace Omni.Dllm

open Transition Function State List

variable {P V : Type} {cfg : Config P V} {s t : State P V} {n : ℕ} {batch : List ℕ}

/-- The requests of the staging queue are not added to it again. -/
theorem addStaging_old {staging rest : List ℕ} :
    ∀ {ns : List ℕ}, (∀ n ∈ ns, n ∈ staging) →
      s.addStaging staging (ns ++ rest) = s.addStaging staging rest
  | [], _ => rfl
  | n :: ns, h => by
    have hn : (s.req n).rid ∈ staging.map fun m => (s.req m).rid :=
      mem_map_of_mem (h n (mem_cons_self ..))
    rw [cons_append, addStaging, if_pos hn]
    exact addStaging_old fun m hm => h m (mem_cons_of_mem n hm)

/-- Requests with new ids are added in their order. -/
theorem addStaging_new {staging : List ℕ} :
    ∀ {ns : List ℕ}, ((staging ++ ns).map fun n => (s.req n).rid).Nodup →
      s.addStaging staging ns = staging ++ ns
  | [], _ => (append_nil _).symm
  | n :: ns, h => by
    have hn : (s.req n).rid ∉ staging.map fun m => (s.req m).rid := by
      intro hin
      rw [map_append] at h
      exact (nodup_append.mp h).2.2 _ hin _ (mem_cons_self ..) rfl
    rw [addStaging, if_neg hn]
    have hrest : ((staging ++ [n] ++ ns).map fun m => (s.req m).rid).Nodup := by
      simpa only [append_assoc, singleton_append] using h
    rw [addStaging_new hrest, append_assoc, singleton_append]

/-- In front of the next batch nothing in the queues has finished. -/
theorem Sound.unfinished_eq (hs : Sound s) (hbusy : s.pc.busy = false) :
    s.unfinished = s.stagingQueue ++ s.waitingQueue := by
  have hkept : s.stagingQueue.filter (fun n => !(s.req n).finished) = s.stagingQueue := by
    refine filter_eq_self.mpr fun n hn => ?_
    simp [(hs.settled hbusy n hn).1]
  rw [unfinished, hkept]

theorem Sound.schedule_queues (hs : Sound s) (hbusy : s.pc.busy = false) (admitted : ℕ) :
    s.addStaging s.stagingQueue (s.stagingQueue ++ s.waitingQueue.take admitted) =
        s.stagingQueue ++ s.waitingQueue.take admitted ∧
      s.waitingQueue.filter (fun n => (s.req n).rid ∉
          (s.stagingQueue ++ s.waitingQueue.take admitted).map fun m => (s.req m).rid) =
        s.waitingQueue.drop admitted := by
  have hrids := hs.nodup_rids
  rw [hs.unfinished_eq hbusy] at hrids
  have hsplit : s.stagingQueue ++ s.waitingQueue =
      s.stagingQueue ++ s.waitingQueue.take admitted ++ s.waitingQueue.drop admitted := by
    rw [append_assoc, take_append_drop]
  rw [hsplit, map_append] at hrids
  obtain ⟨htaken, -, hapart⟩ := nodup_append.mp hrids
  constructor
  · rw [addStaging_old fun n hn => hn, addStaging_new htaken]
  · conv_lhs => rw [← take_append_drop admitted s.waitingQueue]
    rw [filter_append, take_append_drop]
    have htake : (s.waitingQueue.take admitted).filter (fun n => (s.req n).rid ∉
        (s.stagingQueue ++ s.waitingQueue.take admitted).map fun m => (s.req m).rid) = [] := by
      refine filter_eq_nil_iff.mpr fun n hn => ?_
      have hin : (s.req n).rid ∈
          (s.stagingQueue ++ s.waitingQueue.take admitted).map fun m => (s.req m).rid :=
        mem_map_of_mem (f := fun m => (s.req m).rid) (mem_append_right _ hn)
      exact fun hout => of_decide_eq_true hout hin
    have hdrop : (s.waitingQueue.drop admitted).filter (fun n => (s.req n).rid ∉
        (s.stagingQueue ++ s.waitingQueue.take admitted).map fun m => (s.req m).rid) =
          s.waitingQueue.drop admitted := by
      refine filter_eq_self.mpr fun n hn => decide_eq_true fun hin => ?_
      exact hapart _ hin _ (mem_map_of_mem (f := fun m => (s.req m).rid) hn) rfl
    rw [htake, hdrop, nil_append]

theorem Sound.scheduleNextBatch (hs : Sound s) (hpc : s.pc = .scheduling) (admitted : ℕ)
    (rows : ℕ → ℕ) : Sound (s.scheduleNextBatch admitted rows) := by
  have hbusy : s.pc.busy = false := by simp [hpc, Pc.busy]
  have hsettled := hs.settled hbusy
  have hmark : ∀ p ∈ s.held, p.1 ∈ s.aborted ↔ p.2 ∈ s.abortedRequestIds := by
    intro p hp
    have h := hs.marks p hp
    simpa [Outstanding, hpc, Pc.skips, Pc.purges] using h
  obtain ⟨hadd, hrest⟩ := hs.schedule_queues hbusy admitted
  have hqueues := hs.unfinished_eq hbusy
  by_cases hempty : s.stagingQueue ++ s.waitingQueue.take admitted = []
  · rw [State.scheduleNextBatch, if_pos hempty]
    exact { hs with
      alive := by simp
      settled := fun _ => hsettled
      forwarding := by simp
      rows := by simp [Pc.busy]
      applied := by simp
      spared := by simp [Pc.skips, Pc.purges]
      marks := by
        intro p hp
        simpa [Outstanding, Pc.skips, Pc.purges] using hmark p hp
}
  obtain ⟨req, heq, hrid, hfinished, hrow⟩ : ∃ req : ℕ → Req,
      s.scheduleNextBatch admitted rows = { s with
        stagingQueue := s.stagingQueue ++ s.waitingQueue.take admitted
        waitingQueue := s.waitingQueue.drop admitted
        req := req
        pc := .forwarding (s.stagingQueue ++ s.waitingQueue.take admitted)
        batches := s.batches ++ [s.stagingQueue ++ s.waitingQueue.take admitted] } ∧
      (∀ n, (req n).rid = (s.req n).rid) ∧ (∀ n, (req n).finished = (s.req n).finished) ∧
      ∀ n ∈ s.stagingQueue ++ s.waitingQueue.take admitted, (req n).reqPoolIdx.isSome := by
    rw [State.scheduleNextBatch, if_neg hempty, hadd]
    dsimp only
    rw [hrest]
    refine ⟨_, rfl, fun n => ?_, fun n => ?_, fun n hn => ?_⟩
    · by_cases hn : n ∈ s.stagingQueue ++ s.waitingQueue.take admitted
      · rw [if_pos hn, if_pos hn]
      · rw [if_neg hn, if_neg hn]
    · by_cases hn : n ∈ s.stagingQueue ++ s.waitingQueue.take admitted
      · rw [if_pos hn, if_pos hn]
        rfl
      · rw [if_neg hn, if_neg hn]
    · rw [if_pos hn]
      rfl
  have hmembers : ∀ n ∈ s.stagingQueue ++ s.waitingQueue.take admitted,
      n ∈ s.stagingQueue ∨ n ∈ s.waitingQueue := by
    intro n hn
    rcases mem_append.mp hn with h | h
    · exact Or.inl h
    · exact Or.inr (mem_of_mem_take h)
  have hunbatched : ∀ n ∈ s.stagingQueue ++ s.waitingQueue.take admitted,
      (s.req n).finished = false := by
    intro n hn
    rcases hmembers n hn with h | h
    · exact (hsettled n h).1
    · exact hs.waiting n h
  have hsplit : s.unfinished =
      (s.stagingQueue ++ s.waitingQueue.take admitted) ++ s.waitingQueue.drop admitted := by
    rw [hqueues, append_assoc, take_append_drop]
  have hnumbers : s.unfinished.Nodup := List.Nodup.of_map _ hs.nodup_rids
  rw [hsplit] at hnumbers
  obtain ⟨hnodup, -, hapart⟩ := nodup_append.mp hnumbers
  have hunfinished : (s.scheduleNextBatch admitted rows).unfinished = s.unfinished := by
    have hkept : (s.stagingQueue ++ s.waitingQueue.take admitted).filter
        (fun n => !(req n).finished) = s.stagingQueue ++ s.waitingQueue.take admitted := by
      refine filter_eq_self.mpr fun n hn => ?_
      simp [hfinished, hunbatched n hn]
    rw [heq, hsplit]
    exact congrArg (· ++ s.waitingQueue.drop admitted) hkept
  have hheld : (s.scheduleNextBatch admitted rows).held = s.held := by
    have hmap : s.unfinished.map (fun n => (n, (req n).rid)) =
        s.unfinished.map fun n => (n, (s.req n).rid) :=
      map_congr_left fun n _ => by rw [hrid]
    rw [held, hunfinished, heq]
    exact congrArg (· ++ s.inbox.filterMap Incoming.request) hmap
  have hfirst : ∀ p ∈ s.held, ∃ m ∈ s.stagingQueue ++ s.waitingQueue.take admitted, m ≤ p.1 := by
    intro p hp
    obtain ⟨m, rest, hcons⟩ := exists_cons_of_ne_nil hempty
    refine ⟨m, by simp [hcons], ?_⟩
    have horder := hs.order
    have hform : s.held = (m, (s.req m).rid) ::
        ((rest ++ s.waitingQueue.drop admitted).map (fun n => (n, (s.req n).rid)) ++
          s.inbox.filterMap Incoming.request) := by
      rw [held, hsplit, hcons]
      rfl
    rw [hform] at horder hp
    rcases mem_cons.mp hp with rfl | hp
    · exact Nat.le_refl _
    · exact Nat.le_of_lt ((pairwise_cons.mp horder).1 p hp).1
  have hwaiting : ∀ n, n ∈ s.waitingQueue.drop admitted → n ∈ s.waitingQueue := fun n hn =>
    mem_of_mem_drop hn
  have hunscheduled : ∀ n ∈ s.waitingQueue, ¬s.Scheduled n := by
    rintro n hn ⟨batch, hbatch, hmem⟩
    exact (hs.fresh batch hbatch n hmem).2.1 hn
  rw [heq] at hunfinished hheld ⊢
  exact { hs with
    alive := by simp
    order := hheld ▸ hs.order
    recent := hheld ▸ hs.recent
    nodup := hnodup
    waiting := fun n hn => (hfinished n).trans (hs.waiting n (hwaiting n hn))
    settled := by simp [Pc.busy]
    forwarding := by
      rintro batch hforward
      cases hforward
      exact ⟨rfl, fun n hn => (hfinished n).trans (hunbatched n hn)⟩
    rows := fun _ n hn => hrow n hn
    applied := by simp
    spared := by simp [Pc.skips, Pc.purges]
    known := by
      intro n hn
      rw [hunfinished] at hn
      simpa only [hrid] using hs.known n hn
    data := by
      intro rid d hd
      rw [hunfinished]
      obtain ⟨hmem, hid⟩ := hs.data rid d hd
      exact ⟨hmem, (hrid _).trans hid⟩
    ended := hheld ▸ hs.ended
    total := hheld ▸ hs.total
    marks := by
      intro p hp
      rw [hheld] at hp
      simpa [Outstanding, Pc.skips, Pc.purges] using hmark p hp
    scheduled := fun n hn => ⟨_, mem_append_right _ (mem_singleton_self _), hn⟩
    fresh := by
      intro batch hbatch n hn
      rcases mem_append.mp hbatch with h | h
      · obtain ⟨hlt, hout, hinbox⟩ := hs.fresh batch h n hn
        exact ⟨hlt, fun hin => hout (hwaiting n hin), hinbox⟩
      · rw [mem_singleton.mp h] at hn
        have hqueued : n ∈ s.unfinished := hsplit ▸ mem_append_left _ hn
        refine ⟨hs.recent _ (mem_held_of_unfinished hqueued),
          fun hin => hapart n hn n hin rfl, fun hinbox => ?_⟩
        obtain ⟨p, hp, rfl⟩ := mem_map.mp hinbox
        obtain ⟨hnot, hnot'⟩ := hs.not_queued_of_inbox hp
        rcases hmembers p.1 hn with h | h
        · exact hnot h
        · exact hnot' h
    nonempty := by
      intro batch hbatch
      rcases mem_append.mp hbatch with h | h
      · exact hs.nonempty batch h
      · rw [mem_singleton.mp h]
        exact hempty
    served := by
      intro p hp batch hbatch
      rw [hheld] at hp
      rcases mem_append.mp hbatch with h | h
      · exact hs.served p hp batch h
      · rw [mem_singleton.mp h]
        exact hfirst p hp
    released := by
      rintro n hout ⟨batch, hbatch, hmem⟩
      rcases mem_append.mp hbatch with h | h
      · exact hs.released n (fun hin => hout (mem_append_left _ hin)) ⟨batch, h, hmem⟩
      · rw [mem_singleton.mp h] at hmem
        exact absurd hmem hout
    unreleased := by
      rintro n (hin | hnot)
      · rcases hmembers n hin with h | h
        · exact hs.unreleased n (Or.inl h)
        · exact hs.unreleased n (Or.inr (hunscheduled n h))
      · refine hs.unreleased n (Or.inr ?_)
        rintro ⟨batch, hbatch, hmem⟩
        exact hnot ⟨batch, mem_append_left _ hbatch, hmem⟩ }

/-- Appending tokens changes neither the id nor the row of a request. -/
theorem appendTokens_frame {n : ℕ} :
    ∀ {r : Req} {tokens : List ℕ}, (cfg.appendTokens n r tokens).rid = r.rid ∧
      (cfg.appendTokens n r tokens).reqPoolIdx = r.reqPoolIdx
  | r, [] => ⟨rfl, rfl⟩
  | r, token :: tokens => by
    have hcheck : ∀ r : Req, (cfg.check n r).rid = r.rid ∧
        (cfg.check n r).reqPoolIdx = r.reqPoolIdx := by
      intro r
      unfold Config.check
      split <;> exact ⟨rfl, rfl⟩
    rw [Config.appendTokens]
    split
    · exact hcheck _
    · obtain ⟨hrid, hrow⟩ := @appendTokens_frame n
        (cfg.check n { r with outputIds := r.outputIds ++ [token] }) tokens
      exact ⟨hrid.trans (hcheck _).1, hrow.trans (hcheck _).2⟩

/-- The loop is after the forward pass: its requests are those of the staging queue, and the
rest of the loop over the results leaves requests with other numbers alone. -/
structure Applied (s t : State P V) (n : ℕ) : Prop where
  sound : Sound t
  pc : t.pc = s.pc
  staging : t.stagingQueue = s.stagingQueue
  req : ∀ m, m ≠ n → t.req m = s.req m
  data : ∀ rid, rid ≠ (s.req n).rid → t.ridToReqData rid = s.ridToReqData rid

/-- A request gets tokens and goes on. -/
theorem Sound.touch {r : Req} (hs : Sound s) (hpc : s.pc = .applied batch) (hn : n ∈ s.stagingQueue)
    (hunfinished : (s.req n).finished = false) (hrid : r.rid = (s.req n).rid)
    (hrow : r.reqPoolIdx = (s.req n).reqPoolIdx) (hr : r.finished = false) :
    Applied s { s with req := update s.req n r } n := by
  have hrids : ∀ m, (update s.req n r m).rid = (s.req m).rid := by
    intro m
    by_cases h : m = n
    · rw [h, update_self, hrid]
    · rw [update_of_ne h]
  have hfinished : ∀ m, (update s.req n r m).finished = (s.req m).finished := by
    intro m
    by_cases h : m = n
    · rw [h, update_self, hr, hunfinished]
    · rw [update_of_ne h]
  have hsame : unfinished { s with req := update s.req n r } = s.unfinished := by
    simp only [unfinished, hfinished]
  have hheld : held { s with req := update s.req n r } = s.held := by
    simp only [held, hsame, hrids]
  refine ⟨?_, rfl, rfl, fun m hm => update_of_ne hm _ _, fun _ _ => rfl⟩
  exact { hs with
    order := hheld ▸ hs.order
    recent := hheld ▸ hs.recent
    waiting := fun m hm => (hfinished m).trans (hs.waiting m hm)
    settled := by simp [hpc, Pc.busy]
    forwarding := by simp [hpc]
    rows := by
      intro hbusy m hm
      by_cases h : m = n
      · have hold := hs.rows hbusy n hn
        rw [← hrow] at hold
        simpa [h] using hold
      · simpa [h] using hs.rows hbusy m hm
    spared := by simp [hpc, Pc.skips, Pc.purges]
    known := by
      intro m hm
      rw [hsame] at hm
      simpa only [hrids] using hs.known m hm
    data := by
      intro rid d hd
      obtain ⟨hmem, hid⟩ := hs.data rid d hd
      exact ⟨hsame ▸ hmem, (hrids _).trans hid⟩
    ended := hheld ▸ hs.ended
    total := hheld ▸ hs.total
    marks := hheld ▸ hs.marks
    served := hheld ▸ hs.served
}

theorem Sound.finish {r : Req} (hs : Sound s) (result : V) (hpc : s.pc = .applied batch)
    (hn : n ∈ s.stagingQueue) (hunfinished : (s.req n).finished = false)
    (hrid : r.rid = (s.req n).rid) (hrow : r.reqPoolIdx = (s.req n).reqPoolIdx)
    (hr : r.finished = true) :
    Applied s { s with
      req := update s.req n r
      ridToReqData := update s.ridToReqData r.rid none
      outbox := s.outbox ++ [⟨n, r.rid, result⟩] } n := by
  have hrids : ∀ m, (update s.req n r m).rid = (s.req m).rid := by
    intro m
    by_cases h : m = n
    · rw [h, update_self, hrid]
    · rw [update_of_ne h]
  have hqueued : n ∈ s.unfinished :=
    mem_append_left _ (mem_filter.mpr ⟨hn, by simp [hunfinished]⟩)
  have hwaiting : n ∉ s.waitingQueue := by
    obtain ⟨b, hb, hmem⟩ := hs.scheduled n hn
    exact (hs.fresh b hb n hmem).2.1
  obtain ⟨t, ht⟩ : ∃ t : State P V, t = { s with
      req := update s.req n r
      ridToReqData := update s.ridToReqData r.rid none
      outbox := s.outbox ++ [⟨n, r.rid, result⟩] } := ⟨_, rfl⟩
  have hreq : t.req = update s.req n r := by rw [ht]
  have hrest : ∀ m, m ∈ t.unfinished ↔ m ∈ s.unfinished ∧ m ≠ n := by
    intro m
    by_cases h : m = n
    · subst h
      simp [ht, unfinished, hr, hwaiting]
    · simp [ht, unfinished, h]
  have hsub : List.Sublist t.unfinished s.unfinished := by
    have hfilter : List.Sublist (s.stagingQueue.filter fun m => !(t.req m).finished)
        (s.stagingQueue.filter fun m => !(s.req m).finished) := by
      refine monotone_filter_right _ fun m hm => ?_
      by_cases h : m = n
      · simp [h, hunfinished]
      · simpa [hreq, h] using hm
    rw [ht] at hfilter ⊢
    exact hfilter.append (List.Sublist.refl _)
  have hheld : List.Sublist t.held s.held := by
    have hmap : List.Sublist (t.unfinished.map fun m => (m, (t.req m).rid))
        (s.unfinished.map fun m => (m, (s.req m).rid)) := by
      simp only [hreq, hrids]
      exact hsub.map _
    rw [ht] at hmap ⊢
    exact hmap.append (List.Sublist.refl _)
  have hgone : n ∉ t.held.map Prod.fst := by
    intro hin
    obtain ⟨p, hp, hpn⟩ := mem_map.mp hin
    rcases mem_append.mp hp with h | h
    · obtain ⟨m, hm, rfl⟩ := mem_map.mp h
      exact ((hrest m).mp hm).2 hpn
    · rw [ht] at h
      exact (hs.not_queued_of_inbox h).1 (hpn ▸ hn)
  have hkept : ∀ m, m ∈ s.held.map Prod.fst → m ≠ n → m ∈ t.held.map Prod.fst := by
    intro m hm hne
    obtain ⟨p, hp, rfl⟩ := mem_map.mp hm
    rcases mem_append.mp hp with h | h
    · obtain ⟨k, hk, rfl⟩ := mem_map.mp h
      exact mem_map.mpr ⟨_, mem_held_of_unfinished ((hrest k).mpr ⟨hk, hne⟩), rfl⟩
    · refine mem_map_of_mem (mem_append_right _ ?_)
      rw [ht]
      exact h
  have hanswered : t.answered = s.answered ++ [n] := by
    rw [ht]
    simp [answered]
  have hfresh : n ∉ s.answered := fun h =>
    (hs.ended n h).2 (mem_map_of_mem (f := Prod.fst) (mem_held_of_unfinished hqueued))
  have hothers : ∀ m ∈ s.unfinished, m ≠ n → (s.req m).rid ≠ r.rid := by
    intro m hm hne heq
    rw [hrid] at heq
    exact hne (inj_on_of_nodup_map hs.nodup_rids hm hqueued heq)
  rw [← ht]
  refine ⟨?_, by rw [ht], by rw [ht], fun m hm => ?_, fun rid hne => ?_⟩
  · exact {
      alive := by rw [ht]; exact hs.alive
      order := hs.order.sublist hheld
      recent := by
        intro p hp
        rw [ht]
        exact hs.recent p (hheld.subset hp)
      nodup := by rw [ht]; exact hs.nodup
      waiting := by
        intro m hm
        rw [ht] at hm
        have hne : m ≠ n := fun h => hwaiting (h ▸ hm)
        rw [hreq, update_of_ne hne]
        exact hs.waiting m hm
      settled := by simp [ht, hpc, Pc.busy]
      forwarding := by simp [ht, hpc]
      rows := by
        intro _ m hm
        have hm' : m ∈ s.stagingQueue := by simpa [ht] using hm
        have hold := hs.rows (by simp [hpc, Pc.busy])
        by_cases h : m = n
        · rw [hreq, h, update_self, hrow]
          exact hold n hn
        · rw [hreq, update_of_ne h]
          exact hold m hm'
      applied := by rw [ht]; exact hs.applied
      spared := by simp [ht, hpc, Pc.skips, Pc.purges]
      known := by
        intro m hm
        obtain ⟨hm, hne⟩ := (hrest m).mp hm
        obtain ⟨d, hd, hdm⟩ := hs.known m hm
        refine ⟨d, ?_, hdm⟩
        rw [hreq, hrids, ht]
        simpa [hothers m hm hne] using hd
      data := by
        intro rid d hd
        have hne : rid ≠ r.rid := by
          rintro rfl
          simp [ht] at hd
        have hold : s.ridToReqData rid = some d := by simpa [ht, hne] using hd
        obtain ⟨hmem, hid⟩ := hs.data rid d hold
        refine ⟨(hrest _).mpr ⟨hmem, ?_⟩, by rw [hreq, hrids, hid]⟩
        rintro rfl
        exact hne (hid.symm.trans hrid.symm)
      results := by
        rw [hanswered]
        exact nodup_append.mpr ⟨hs.results, nodup_singleton n, by
          rintro m hm _ hk rfl
          exact hfresh (mem_singleton.mp hk ▸ hm)⟩
      ended := by
        intro m hm
        rw [hanswered] at hm
        rcases mem_append.mp hm with h | h
        · obtain ⟨hlt, hout⟩ := hs.ended m h
          exact ⟨by rw [ht]; exact hlt, fun hin => hout ((hheld.map Prod.fst).subset hin)⟩
        · rw [mem_singleton.mp h]
          exact ⟨by rw [ht]; exact hs.recent _ (mem_held_of_unfinished hqueued), hgone⟩
      total := by
        intro m hm
        have hlt : m < s.arrived := by simpa [ht] using hm
        rw [hanswered]
        rcases hs.total m hlt with h | h | h
        · exact Or.inl (by rw [ht]; exact h)
        · exact Or.inr (Or.inl (mem_append_left _ h))
        · by_cases hne : m = n
          · exact Or.inr (Or.inl (by simp [hne]))
          · exact Or.inr (Or.inr (hkept m h hne))
      marks := by
        intro p hp
        have hmark := hs.marks p (hheld.subset hp)
        rw [ht]
        exact hmark
      past := by rw [ht]; exact hs.past
      scheduled := by rw [ht]; exact hs.scheduled
      fresh := by rw [ht]; exact hs.fresh
      nonempty := by rw [ht]; exact hs.nonempty
      served := by
        intro p hp
        rw [ht]
        exact hs.served p (hheld.subset hp)
      released := by rw [ht]; exact hs.released
      unreleased := by rw [ht]; exact hs.unreleased }
  · rw [hreq, update_of_ne hm]
  · rw [ht, ← hrid] at *
    simp [hne]

/-- The result of one request of the batch. -/
theorem Sound.applyOne {tokens : List ℕ} (hs : Sound s) (hpc : s.pc = .applied batch)
    (hn : n ∈ s.stagingQueue) (hunfinished : (s.req n).finished = false)
    (hadapts : s.Adapts cfg n tokens) (rest : List (ℕ × List ℕ)) :
    ∃ t, s.applyTokens cfg ((n, tokens) :: rest) = t.applyTokens cfg rest ∧ Applied s t n := by
  obtain ⟨hrid, hrow⟩ := @appendTokens_frame P V cfg n (s.req n) tokens
  cases hr : (cfg.appendTokens n (s.req n) tokens).finished with
  | false =>
    refine ⟨_, ?_, hs.touch hpc hn hunfinished hrid hrow hr⟩
    rw [applyTokens, hr]
    rfl
  | true =>
    have hqueued : n ∈ s.unfinished :=
      mem_append_left _ (mem_filter.mpr ⟨hn, by simp [hunfinished]⟩)
    obtain ⟨data, hdata, -⟩ := hs.known n hqueued
    obtain ⟨result, hresult⟩ := Option.isSome_iff_exists.mp (hadapts data hdata hr)
    refine ⟨_, ?_, hs.finish result hpc hn hunfinished hrid hrow hr⟩
    rw [applyTokens, hr]
    have hput : putResult cfg { s with
        req := update s.req n (cfg.appendTokens n (s.req n) tokens) } n = .ok { s with
          req := update s.req n (cfg.appendTokens n (s.req n) tokens)
          ridToReqData := update s.ridToReqData (cfg.appendTokens n (s.req n) tokens).rid none
          outbox := s.outbox ++ [⟨n, (cfg.appendTokens n (s.req n) tokens).rid, result⟩] } := by
      unfold putResult
      simp only [update_self, hrid, hdata, hresult]
    simp only [if_true, hput]
    rfl

/-- The loop over the results keeps the invariant. -/
theorem Sound.applyTokens {batch : List ℕ} :
    ∀ {results : List (ℕ × List ℕ)} {s : State P V}, Sound s → s.pc = .applied batch →
      (results.map Prod.fst).Nodup →
      (∀ p ∈ results, p.1 ∈ s.stagingQueue ∧ (s.req p.1).finished = false) →
      (∀ p ∈ results, s.Adapts cfg p.1 p.2) →
      ∃ t, s.applyTokens cfg results = .ok t ∧ Sound t
  | [], s, hs, _, _, _, _ => ⟨s, rfl, hs⟩
  | (n, tokens) :: rest, s, hs, hpc, hnodup, hstaged, hadapts => by
    obtain ⟨hn, hunfinished⟩ := hstaged (n, tokens) (mem_cons_self ..)
    obtain ⟨hout, hnodup⟩ := nodup_cons.mp hnodup
    obtain ⟨t, ht, hone⟩ := hs.applyOne hpc hn hunfinished
      (hadapts (n, tokens) (mem_cons_self ..)) rest
    rw [ht]
    have hne : ∀ p ∈ rest, p.1 ≠ n := fun p hp h =>
      hout (mem_map.mpr ⟨p, hp, h⟩)
    have hqueued : ∀ m ∈ s.stagingQueue, (s.req m).finished = false → m ∈ s.unfinished :=
      fun m hm hfin => mem_append_left _ (mem_filter.mpr ⟨hm, by simp [hfin]⟩)
    refine Sound.applyTokens hone.sound (hone.pc.trans hpc) hnodup (fun p hp => ?_) fun p hp => ?_
    · rw [hone.staging, hone.req _ (hne p hp)]
      exact hstaged p (mem_cons_of_mem _ hp)
    · obtain ⟨hp', hfin⟩ := hstaged p (mem_cons_of_mem _ hp)
      have hids : (s.req p.1).rid ≠ (s.req n).rid := fun h => hne p hp
        (inj_on_of_nodup_map hs.nodup_rids (hqueued _ hp' hfin) (hqueued _ hn hunfinished) h)
      have hold := hadapts p (mem_cons_of_mem _ hp)
      unfold Adapts at hold ⊢
      rw [hone.req _ (hne p hp), hone.data _ hids]
      exact hold

/-- What is zipped comes from the first list, in its order. -/
theorem map_fst_zip_sublist : ∀ (batch : List ℕ) (ids : List (List ℕ)),
    List.Sublist ((batch.zip ids).map Prod.fst) batch
  | [], _ => nil_sublist _
  | _ :: _, [] => nil_sublist _
  | _ :: batch, _ :: ids => (map_fst_zip_sublist batch ids).cons_cons _

theorem Sound.applyResults {tokenIds : Option (List (List ℕ))} (hs : Sound s)
    (hpc : s.pc = .forwarding batch)
    (hadapts : ∀ ids ∈ tokenIds, ∀ p ∈ batch.zip ids, s.Adapts cfg p.1 p.2) :
    ∃ t, s.applyResults cfg batch tokenIds = .ok t ∧ Sound t := by
  obtain ⟨hbatch, hfinished⟩ := hs.forwarding batch hpc
  have hstart : Sound { s with pc := .applied batch } := { hs with
    alive := by simp
    settled := by simp [Pc.busy]
    forwarding := by simp
    rows := fun _ => hs.rows (by simp [hpc, Pc.busy])
    applied := by
      rintro _ hb
      cases hb
      exact hbatch
    spared := by simp [Pc.skips, Pc.purges]
    marks := by
      intro p hp
      have h := hs.marks p hp
      simpa [Outstanding, hpc, Pc.skips, Pc.purges] using h
}
  cases tokenIds with
  | none => exact ⟨_, rfl, hstart⟩
  | some ids =>
    have hmem : ∀ p ∈ batch.zip ids, p.1 ∈ s.stagingQueue := fun p hp =>
      hbatch ▸ (of_mem_zip hp).1
    refine hstart.applyTokens rfl ?_ (fun p hp => ⟨hmem p hp, hfinished _ (hmem p hp)⟩)
      (hadapts ids rfl)
    exact (hbatch ▸ hs.nodup).sublist (map_fst_zip_sublist batch ids)

theorem releaseFinished_ok :
    ∀ {batch : List ℕ} {s : State P V}, batch.Nodup →
      (∀ n ∈ batch, (s.req n).reqPoolIdx.isSome) →
      ∃ req : ℕ → Req, ∃ released : List (ℕ × ℕ),
        s.releaseFinished batch = .ok { s with req := req, released := s.released ++ released } ∧
        (∀ n, (req n).rid = (s.req n).rid ∧ (req n).finished = (s.req n).finished) ∧
        released.map Prod.fst = batch.filter fun n => (s.req n).finished
  | [], s, _, _ => ⟨s.req, [], by simp [releaseFinished], fun _ => ⟨rfl, rfl⟩, rfl⟩
  | n :: ns, s, hnodup, hrows => by
    obtain ⟨hout, hnodup⟩ := nodup_cons.mp hnodup
    have hlater : ∀ m ∈ ns, (s.req m).reqPoolIdx.isSome := fun m hm =>
      hrows m (mem_cons_of_mem n hm)
    cases hn : (s.req n).finished with
    | false =>
      obtain ⟨req, released, heq, hsame, hmap⟩ := releaseFinished_ok hnodup hlater
      refine ⟨req, released, ?_, hsame, ?_⟩
      · rw [releaseFinished, hn]
        exact heq
      · rw [hmap, filter_cons_of_neg (by simp [hn])]
    | true =>
      obtain ⟨row, hrow⟩ := Option.isSome_iff_exists.mp (hrows n (mem_cons_self ..))
      obtain ⟨u, hu⟩ : ∃ u : State P V, u = { s with
          req := update s.req n { s.req n with reqPoolIdx := none }
          released := s.released ++ [(n, row)] } := ⟨_, rfl⟩
      have hfree : ∀ m, (u.req m).rid = (s.req m).rid ∧
          (u.req m).finished = (s.req m).finished := by
        intro m
        by_cases h : m = n
        · rw [hu, h]
          simp [Req.finished]
        · rw [hu]
          simp [h]
      have hlater : ∀ m ∈ ns, (u.req m).reqPoolIdx.isSome := by
        intro m hm
        have hne : m ≠ n := fun h => hout (h ▸ hm)
        simpa [hu, hne] using hlater m hm
      obtain ⟨req, released, heq, hsame, hmap⟩ := releaseFinished_ok hnodup hlater
      refine ⟨req, (n, row) :: released, ?_, fun m => ?_, ?_⟩
      · rw [releaseFinished, hn]
        have hrelease : s.releaseKvCache n = .ok u := by
          rw [releaseKvCache, hrow, hu]
        rw [if_pos rfl, hrelease]
        refine Eq.trans heq ?_
        rw [hu]
        simp [append_assoc]
      · exact ⟨(hsame m).1.trans (hfree m).1, (hsame m).2.trans (hfree m).2⟩
      · simp only [map_cons, hmap, hfree, filter_cons, hn, if_true]

/-- The finished requests of a batch are released and leave the staging queue. -/
theorem Sound.postStep (hs : Sound s) (hpc : s.pc = .applied batch) :
    ∃ t, s.postStep batch = .ok t ∧ Sound t := by
  have hbatch := hs.applied batch hpc
  obtain ⟨req, released, heq, hsame, hmap⟩ := releaseFinished_ok (hbatch ▸ hs.nodup)
    fun n hn => hs.rows (by simp [hpc, Pc.busy]) n (hbatch ▸ hn)
  obtain ⟨t, ht⟩ : ∃ t, s.postStep batch = .ok t ∧ t = { s with
      stagingQueue := s.stagingQueue.filter fun n => !(req n).finished
      req := fun n =>
        if n ∈ s.stagingQueue ∧ !(req n).finished then { req n with reqPoolIdx := none }
        else req n
      released := s.released ++ released
      pc := .top } := by
    refine ⟨_, ?_, rfl⟩
    rw [State.postStep, heq]
    rfl
  refine ⟨t, ht.1, ?_⟩
  obtain ⟨-, ht⟩ := ht
  have hreq : ∀ n, (t.req n).rid = (s.req n).rid ∧ (t.req n).finished = (s.req n).finished := by
    intro n
    rw [ht]
    dsimp only
    split <;> exact hsame n
  have hstaging : ∀ n, n ∈ t.stagingQueue ↔ n ∈ s.stagingQueue ∧ (s.req n).finished = false := by
    intro n
    simp [ht, (hsame n).2]
  have hunfinished : t.unfinished = s.unfinished := by
    have hfilter : t.stagingQueue.filter (fun n => !(t.req n).finished) =
        s.stagingQueue.filter fun n => !(s.req n).finished := by
      have heq : t.stagingQueue = s.stagingQueue.filter fun n => !(s.req n).finished := by
        rw [ht]
        exact filter_congr fun n _ => by rw [(hsame n).2]
      rw [heq, filter_filter]
      exact filter_congr fun n _ => by rw [(hreq n).2, Bool.and_self]
    rw [unfinished, hfilter, ht]
    rfl
  have hheld : t.held = s.held := by
    have hmap : s.unfinished.map (fun n => (n, (t.req n).rid)) =
        s.unfinished.map fun n => (n, (s.req n).rid) :=
      map_congr_left fun n _ => by rw [(hreq n).1]
    rw [held, hunfinished, hmap, ht]
    rfl
  have hcount : ∀ n, (t.released.map Prod.fst).count n =
      (s.released.map Prod.fst).count n +
        (s.stagingQueue.filter fun m => (s.req m).finished).count n := by
    intro n
    rw [ht, map_append, count_append, hmap, hbatch]
  have hfilter : ∀ n, n ∉ s.stagingQueue.filter (fun m => (s.req m).finished) →
      (t.released.map Prod.fst).count n = (s.released.map Prod.fst).count n := by
    intro n hn
    rw [hcount, count_eq_zero_of_not_mem hn, Nat.add_zero]
  exact {
    alive := by simp [ht]
    order := hheld ▸ hs.order
    recent := by
      rw [hheld, ht]
      exact hs.recent
    nodup := by
      rw [ht]
      exact hs.nodup.filter _
    waiting := by
      intro n hn
      rw [(hreq n).2]
      exact hs.waiting n (by simpa [ht] using hn)
    settled := by
      intro _ n hn
      obtain ⟨hold, hfin⟩ := (hstaging n).mp hn
      refine ⟨(hreq n).2.trans hfin, ?_⟩
      have hreqfin : (req n).finished = false := (hsame n).2.trans hfin
      simp [ht, hold, hreqfin]
    forwarding := by simp [ht]
    rows := by simp [ht, Pc.busy]
    applied := by simp [ht]
    spared := by simp [ht, Pc.skips, Pc.purges]
    known := by
      intro n hn
      rw [hunfinished] at hn
      rw [(hreq n).1, ht]
      exact hs.known n hn
    data := by
      intro rid d hd
      rw [hunfinished, (hreq _).1]
      rw [ht] at hd
      exact hs.data rid d hd
    results := by
      rw [ht]
      exact hs.results
    ended := by
      rw [hheld, ht]
      exact hs.ended
    total := by
      rw [hheld, ht]
      exact hs.total
    marks := by
      intro p hp
      rw [hheld] at hp
      have h := hs.marks p hp
      simp only [Outstanding, hpc, Pc.skips, Pc.purges, not_mem_nil, false_and, or_false] at h
      simpa [Outstanding, ht, Pc.skips, Pc.purges] using h
    past := by
      rw [ht]
      exact hs.past
    scheduled := by
      intro n hn
      obtain ⟨batch, hmem⟩ := hs.scheduled n ((hstaging n).mp hn).1
      exact ⟨batch, by rw [ht]; exact hmem⟩
    fresh := by
      rw [ht]
      exact hs.fresh
    nonempty := by
      rw [ht]
      exact hs.nonempty
    served := by
      rw [hheld, ht]
      exact hs.served
    released := by
      rintro n hout ⟨batch, hbatch, hmem⟩
      have hscheduled : s.Scheduled n := ⟨batch, by rw [ht] at hbatch; exact hbatch, hmem⟩
      by_cases hstaged : n ∈ s.stagingQueue
      · have hfin : (s.req n).finished = true := by
          cases h : (s.req n).finished with
          | true => rfl
          | false => exact absurd ((hstaging n).mpr ⟨hstaged, h⟩) hout
        have hin : n ∈ s.stagingQueue.filter fun m => (s.req m).finished :=
          mem_filter.mpr ⟨hstaged, hfin⟩
        rw [hcount, hs.unreleased n (Or.inl hstaged), count_eq_one_of_mem (hs.nodup.filter _) hin]
      · rw [hfilter n fun h => hstaged (mem_filter.mp h).1]
        exact hs.released n hstaged hscheduled
    unreleased := by
      rintro n (hin | hnot)
      · obtain ⟨hstaged, hfin⟩ := (hstaging n).mp hin
        rw [hfilter n fun h => by simp [(mem_filter.mp h).2] at hfin]
        exact hs.unreleased n (Or.inl hstaged)
      · have hunscheduled : ¬s.Scheduled n := by
          rintro ⟨batch, hbatch, hmem⟩
          exact hnot ⟨batch, by rw [ht]; exact hbatch, hmem⟩
        rw [hfilter n fun h => hunscheduled (hs.scheduled n (mem_filter.mp h).1)]
        exact hs.unreleased n (Or.inr hunscheduled) }

/-- Every permitted step keeps the invariant. -/
theorem Sound.step {a : Action P} (hs : Sound s) (hok : Smooth cfg s a)
    (hstep : step cfg s a = some t) : Sound t := by
  cases a with
  | submit rid payload =>
    cases Option.some.inj hstep
    exact hs.submit hok
  | message rid type =>
    cases Option.some.inj hstep
    exact hs.message
  | abort rid =>
    cases Option.some.inj hstep
    exact hs.abort
  | takeAborted =>
    cases hpc : s.pc <;> simp only [Dllm.step, hpc, reduceCtorEq] at hstep
    cases Option.some.inj hstep
    exact hs.takeAborted hpc hok
  | getMessage =>
    cases hpc : s.pc <;> simp only [Dllm.step, hpc, reduceCtorEq] at hstep
    next aborted =>
      cases Option.some.inj hstep
      unfold getMessage
      split
      · exact hs.startPurging hpc ‹_›
      next msg inbox hinbox =>
        dsimp only
        split
        next hin =>
          refine hs.skip hinbox fun p hp => Or.inr (Or.inl ?_)
          cases msg with
          | newRequest n rid payload =>
            cases hp
            have hin' : rid ∈ aborted := hin
            simpa only [hpc, Pc.skips] using hin'
          | other rid type => cases hp
        next hout =>
          cases msg with
          | newRequest n rid payload =>
            have hout' : rid ∉ s.pc.skips := by
              rw [hpc]
              exact hout
            have hbuilds : cfg.requestBuilder payload = true :=
              hok (.newRequest n rid payload) (by rw [hinbox]; rfl) hout'
            simp only [hbuilds, if_true]
            exact hs.register hinbox hpc
          | other rid type => exact hs.skip hinbox fun p hp => by cases hp
  | purge =>
    cases hpc : s.pc <;> simp only [Dllm.step, hpc, reduceCtorEq] at hstep
    next aborted =>
      cases Option.some.inj hstep
      rw [hs.purge_eq hpc]
      exact hs.purged hpc
  | scheduleNextBatch admitted rows =>
    cases hpc : s.pc <;> simp only [Dllm.step, hpc, reduceCtorEq] at hstep
    obtain ⟨-, heq⟩ := Option.ite_none_right_eq_some.mp hstep
    cases Option.some.inj heq
    exact hs.scheduleNextBatch hpc admitted rows
  | applyResults tokenIds =>
    cases hpc : s.pc <;> simp only [Dllm.step, hpc, reduceCtorEq] at hstep
    next batch =>
      cases Option.some.inj hstep
      have hadapts : ∀ ids ∈ tokenIds, ∀ p ∈ s.pc.batch.zip ids, s.Adapts cfg p.1 p.2 := hok
      rw [hpc] at hadapts
      obtain ⟨u, hu, hsound⟩ := hs.applyResults hpc hadapts
      rw [hu]
      exact hsound
  | postStep =>
    cases hpc : s.pc <;> simp only [Dllm.step, hpc, reduceCtorEq] at hstep
    next batch =>
      cases Option.some.inj hstep
      obtain ⟨u, hu, hsound⟩ := hs.postStep hpc
      rw [hu]
      exact hsound

/-- **Answers.** In every run in which no id is submitted again while the scheduler has its
request, the builder and the adapter return, and no round begins with an aborted request in
the staging queue, every request that is not aborted is answered once or held, and its KV
cache is released once. -/
theorem answers_of_run {as : List (Action P)}
    (hrun : Run (step cfg) (Smooth cfg) (State.init P V) as t) : Answers t :=
  (hrun.invariant (I := Sound) (fun _ _ _ hs hok hstep => hs.step hok hstep) sound_init).answers

/-- The builder and the adapter raise for the payload `false`, and every request needs two
tokens. -/
def twoTokens : Config Bool Unit where
  requestBuilder payload := payload
  resultAdapter _ := some ()
  checkFinished _ ids := if 2 ≤ ids.length then some "length" else none
  outputIdsThroughStop _ ids := ids

/-- Three requests; the last one is aborted while it waits. -/
def threeRequests : List (Action Bool) :=
  [.submit "a" true, .submit "b" true, .submit "c" true,
    .takeAborted, .getMessage, .getMessage, .getMessage, .getMessage, .purge,
    .scheduleNextBatch 1 id, .abort "c", .applyResults (some [[7]]), .postStep,
    .takeAborted, .getMessage, .purge, .scheduleNextBatch 0 id, .applyResults (some [[8]]),
    .postStep, .takeAborted, .getMessage, .purge, .scheduleNextBatch 1 id,
    .applyResults (some [[7, 8]]), .postStep]

/-- Two requests are answered. -/
theorem answers_of_run_threeRequests :
    ∃ t : State Bool Unit, t.answered = [0, 1] ∧ t.released.map Prod.fst = [0, 1] ∧ Answers t := by
  have hrun := run_of_isSome_guarded (step twoTokens) (Smooth twoTokens) (init Bool Unit)
    threeRequests (by decide +kernel)
  exact ⟨_, by decide +kernel, by decide +kernel, answers_of_run hrun⟩

/-- After an exception nothing is answered any more. -/
theorem answered_of_crashed {ok : State P V → Action P → Prop} {as : List (Action P)}
    (hcrashed : s.pc = .crashed) (hrun : Run (step cfg) ok s as t) :
    t.pc = .crashed ∧ t.answered = s.answered := by
  refine hrun.invariant (I := fun u => u.pc = .crashed ∧ u.answered = s.answered) ?_ ⟨hcrashed, rfl⟩
  rintro u a v ⟨hpc, hanswered⟩ - hstep
  cases a <;> simp only [Dllm.step, hpc, reduceCtorEq] at hstep
  all_goals
    cases Option.some.inj hstep
    exact ⟨hpc, hanswered⟩

/-- The builder raises for the first request, and the second one is never answered. The same
happens when the first request is aborted between two of its rounds. -/
theorem exception_ends_loop :
    (∃ as, ∃ t : State Bool Unit, Run (step twoTokens) anyAction (State.init Bool Unit) as t ∧
      1 < t.arrived ∧ t.aborted = [] ∧ ¬Answers t ∧
      ∀ bs u, Run (step twoTokens) anyAction t bs u → u.answered = []) ∧
    ∃ as, ∃ t : State Bool Unit, Run (step twoTokens) anyAction (State.init Bool Unit) as t ∧
      1 < t.arrived ∧ t.aborted = [0] ∧ ¬Answers t ∧
      ∀ bs u, Run (step twoTokens) anyAction t bs u → u.answered = [] := by
  refine ⟨⟨_, _, run_of_isSome (step twoTokens) (init Bool Unit)
    [.submit "a" false, .submit "b" true, .takeAborted, .getMessage] (by decide +kernel),
    by decide +kernel, by decide +kernel, fun h => h.alive rfl, fun bs u hrun => ?_⟩,
    ⟨_, _, run_of_isSome (step twoTokens) (init Bool Unit)
      [.submit "a" true, .submit "b" true, .takeAborted, .getMessage, .getMessage, .getMessage,
        .purge, .scheduleNextBatch 1 id, .applyResults (some [[7]]), .postStep, .abort "a",
        .takeAborted, .getMessage, .purge] (by decide +kernel),
      by decide +kernel, by decide +kernel, fun h => h.alive rfl, fun bs u hrun => ?_⟩⟩
  · exact (answered_of_crashed rfl hrun).2
  · exact (answered_of_crashed rfl hrun).2

end Omni.Dllm
