import Omni.Asr.OwnEmbedding

/-!
# Every call ends

If the worker and the callers go on, every call that has begun ends. The worker sets the futures
of what is queued in turn, which its measure shows: the work in its hands, and the places in the
queue before a call. A call whose leader's future has been set has at most two steps to take.
-/

namespace Omni.Asr

open Transition List

variable {A K R : Type} {v : Service A K R} {s t : State K R} {a : Action K} {l c i : ℕ}
  {parts : List (ℕ × List R)} {shutdown : Bool} {attempt : Attempt}

/-- A bound on the steps of the worker until it waits again. -/
def WorkerPoint.cost (maxBatchSize : ℕ) : WorkerPoint R → ℕ
  | .waiting | .stopped => 0
  | .draining batch => 6 * max maxBatchSize batch.length + 5 + (maxBatchSize - batch.length)
  | .encoding batch .whole _ => 6 * batch.length + 4
  | .encoding batch (.alone rest) _ => 5 * rest.length + batch.length + 3
  | .storing todo parts .whole _ => todo.length + 5 * parts.length + 3
  | .storing todo _ (.alone rest) _ => todo.length + 5 * rest.length + 2
  | .delivering todo _ => todo.length + 1
  | .retrying todo _ => 5 * todo.length + 1

/-- What a place in the queue counts. -/
def Service.place (v : Service A K R) : ℕ := 7 * v.maxBatchSize + 12

/-- A bound on the steps of the worker until it has set the future of a call. -/
def State.cost (v : Service A K R) (l : ℕ) (s : State K R) : ℕ :=
  s.worker.cost v.maxBatchSize +
    if l ∈ s.worker.calls then 0 else v.place * (s.queue.idxOf (some l) + 1)

/-- The worker has done with a batch. -/
theorem cost_next (s : State K R) (m : ℕ) (shutdown : Bool) :
    (s.next shutdown).worker.cost m = 0 ∧ (s.next shutdown).queue = s.queue := by
  cases shutdown <;> exact ⟨rfl, rfl⟩

/-- What the retries after a failed attempt cost at most. -/
def Attempt.cost (length : ℕ) : Attempt → ℕ
  | .whole => 5 * length + 1
  | .alone rest => 5 * rest.length + 1

theorem cost_fail (s : State K R) (m : ℕ) (batch : List ℕ) (shutdown : Bool) (attempt : Attempt) :
    (s.fail batch shutdown attempt).queue = s.queue ∧
      (s.fail batch shutdown attempt).worker.cost m ≤ attempt.cost batch.length := by
  cases attempt with
  | whole =>
    unfold State.fail
    dsimp only
    split
    next c =>
      obtain ⟨hcost, hqueue⟩ := cost_next (s.setFuture c none) m shutdown
      exact ⟨hqueue, by rw [hcost]; exact Nat.zero_le _⟩
    · exact ⟨rfl, Nat.le_refl _⟩
  | alone rest =>
    simp only [State.fail, foldl_setFuture]
    exact ⟨rfl, Nat.le_refl _⟩

theorem cost_succeed (s : State K R) (m : ℕ) :
    (s.succeed parts shutdown attempt).queue = s.queue ∧
      (s.succeed parts shutdown attempt).worker.cost m <
        (.storing [] parts attempt shutdown : WorkerPoint R).cost m := by
  cases attempt with
  | whole =>
    refine ⟨rfl, ?_⟩
    change parts.length + 1 < 0 + 5 * parts.length + 3
    omega
  | alone rest =>
    obtain ⟨futures, heq, -⟩ := foldl_setParts parts s
    simp only [State.succeed]
    rw [heq]
    refine ⟨rfl, ?_⟩
    change 5 * rest.length + 1 < 0 + 5 * rest.length + 2
    omega

theorem cost_store [DecidableEq K] (s : State K R) (m : ℕ) {todo : List (ℕ × List R)}
    {outcome : Store} :
    (v.store s todo parts attempt shutdown outcome).queue = s.queue ∧
      (v.store s todo parts attempt shutdown outcome).worker.cost m <
        (.storing todo parts attempt shutdown : WorkerPoint R).cost m := by
  have hgoes {part : ℕ × List R} {rest : List (ℕ × List R)} :
      (.storing rest parts attempt shutdown : WorkerPoint R).cost m <
        (.storing (part :: rest) parts attempt shutdown : WorkerPoint R).cost m := by
    cases attempt <;> simp only [WorkerPoint.cost, length_cons] <;> omega
  unfold Service.store
  split
  · exact cost_succeed s m
  next c embedding rest =>
    split
    · exact ⟨rfl, hgoes⟩
    · exact ⟨rfl, hgoes⟩
    next k drops _ =>
      obtain ⟨hqueue, hcost⟩ := cost_fail
        { s with cache := if drops then Function.update s.cache k none else s.cache } m
        (parts.map Prod.fst) shutdown attempt
      refine ⟨hqueue, Nat.lt_of_le_of_lt hcost ?_⟩
      rw [length_map]
      cases attempt <;> simp only [Attempt.cost, WorkerPoint.cost, length_cons] <;> omega

/-- A step of the worker either leaves the queue alone and costs, or takes its head. -/
theorem cost_step [DecidableEq K] (hworker : a.ofWorker = true) (hstep : step v s a = some t) :
    (t.queue = s.queue ∧ t.worker.cost v.maxBatchSize < s.worker.cost v.maxBatchSize) ∨
    ∃ head, s.queue = head :: t.queue ∧
      t.worker.cost v.maxBatchSize < s.worker.cost v.maxBatchSize + v.place ∧
      (s.worker.calls ≠ [] → t.worker.cost v.maxBatchSize < s.worker.cost v.maxBatchSize) := by
  have hencoded {outcome : Encode} {batch : List ℕ} {s' : State K R}
      {parts : Option (List (ℕ × List R))}
      (hencode : v.encodeBatch s batch outcome = (s', parts)) : s'.queue = s.queue ∧
        ∀ done, parts = some done → done.length = batch.length := by
    obtain ⟨⟨attached, feature, hstate⟩, hparts⟩ := encodeBatch_eq v s batch outcome
    rw [hencode] at hstate hparts
    obtain rfl : s' = _ := hstate
    exact ⟨rfl, fun done hdone => by rw [← hparts done hdone, length_map]⟩
  cases moves_of_step hstep with
  | take hpoint hqueue =>
    refine Or.inr ⟨_, hqueue, ?_, fun hcalls => absurd (by rw [hpoint]; rfl) hcalls⟩
    rw [hpoint]
    simp only [WorkerPoint.cost, length_singleton, Service.place]
    omega
  | takeLast hpoint hqueue =>
    refine Or.inr ⟨_, hqueue, ?_, fun hcalls => absurd (by rw [hpoint]; rfl) hcalls⟩
    rw [hpoint]
    simp only [WorkerPoint.cost, Service.place]
    omega
  | @more batch c _ hpoint hqueue hroom =>
    have hcost : (WorkerPoint.draining (batch ++ [c]) : WorkerPoint R).cost v.maxBatchSize <
        s.worker.cost v.maxBatchSize := by
      rw [hpoint]
      simp only [WorkerPoint.cost, length_append, length_singleton]
      omega
    exact Or.inr ⟨_, hqueue, Nat.lt_add_right _ hcost, fun _ => hcost⟩
  | @moreLast batch _ hpoint hqueue hroom =>
    have hcost : (WorkerPoint.encoding batch .whole true : WorkerPoint R).cost v.maxBatchSize <
        s.worker.cost v.maxBatchSize := by
      rw [hpoint]
      simp only [WorkerPoint.cost]
      omega
    exact Or.inr ⟨_, hqueue, Nat.lt_add_right _ hcost, fun _ => hcost⟩
  | @go batch hpoint =>
    refine Or.inl ⟨rfl, ?_⟩
    rw [hpoint]
    change 6 * batch.length + 4 < _
    simp only [WorkerPoint.cost]
    omega
  | @encode _ _ attempt _ _ _ hpoint hencode =>
    obtain ⟨hqueue, hlength⟩ := hencoded hencode
    have hlength := hlength _ rfl
    refine Or.inl ⟨hqueue, ?_⟩
    rw [hpoint]
    cases attempt <;> simp only [State.work, WorkerPoint.cost] <;> omega
  | @encodeFails _ batch attempt shutdown s' hpoint hencode =>
    obtain ⟨hsame, hcost⟩ := cost_fail s' v.maxBatchSize batch shutdown attempt
    refine Or.inl ⟨hsame.trans (hencoded hencode).1, Nat.lt_of_le_of_lt hcost ?_⟩
    rw [hpoint]
    cases attempt <;> simp only [Attempt.cost, WorkerPoint.cost] <;> omega
  | store hpoint =>
    rw [hpoint]
    exact Or.inl (cost_store s v.maxBatchSize)
  | @delivered shutdown hpoint =>
    obtain ⟨hcost, hqueue⟩ := cost_next s v.maxBatchSize shutdown
    rw [hpoint, hcost]
    exact Or.inl ⟨hqueue, Nat.zero_lt_succ _⟩
  | deliver hpoint =>
    rw [hpoint]
    exact Or.inl ⟨rfl, Nat.lt_succ_self _⟩
  | @retried shutdown hpoint =>
    obtain ⟨hcost, hqueue⟩ := cost_next s v.maxBatchSize shutdown
    rw [hpoint, hcost]
    exact Or.inl ⟨hqueue, Nat.zero_lt_succ _⟩
  | retry hpoint =>
    rw [hpoint]
    refine Or.inl ⟨rfl, ?_⟩
    simp only [State.work, WorkerPoint.cost, length_cons, length_nil]
    omega
  | _ => cases hworker

/-- The worker can always act, if it has still to set a future. -/
theorem Orderly.worker_acts [DecidableEq K] (h : Orderly v s) (hpending : l ∈ s.pending) :
    ∃ a t, (a : Action K).ofWorker = true ∧ Asr.step v s a = some t := by
  cases hworker : s.worker with
  | waiting =>
    cases hqueue : s.queue with
    | nil =>
      rw [State.pending, hworker, hqueue] at hpending
      cases hpending
    | cons head rest =>
      refine ⟨.take, ?_⟩
      cases head with
      | some c => exact ⟨_, rfl, by simp only [Asr.step, hworker, hqueue]; rfl⟩
      | none => exact ⟨_, rfl, by simp only [Asr.step, hworker, hqueue]; rfl⟩
  | draining batch => exact ⟨.go, _, rfl, by simp only [Asr.step, hworker]; rfl⟩
  | encoding batch attempt shutdown =>
    exact ⟨.encode .raises, _, rfl, by simp only [Asr.step, hworker, Service.encodeBatch]; rfl⟩
  | storing todo parts attempt shutdown =>
    exact ⟨.store .stores, _, rfl, by simp only [Asr.step, hworker]; rfl⟩
  | delivering todo shutdown =>
    refine ⟨.deliver, ?_⟩
    cases todo with
    | nil => exact ⟨_, rfl, by simp only [Asr.step, hworker]; rfl⟩
    | cons part rest => exact ⟨_, rfl, by simp only [Asr.step, hworker]; rfl⟩
  | retrying todo shutdown =>
    refine ⟨.retry, ?_⟩
    cases todo with
    | nil => exact ⟨_, rfl, by simp only [Asr.step, hworker]; rfl⟩
    | cons c rest => exact ⟨_, rfl, by simp only [Asr.step, hworker]; rfl⟩
  | stopped =>
    obtain ⟨-, hqueue⟩ := h.down (by rw [hworker]; rfl)
    rw [State.pending, hworker, hqueue] at hpending
    cases hpending

theorem Orderly.not_mem_queue (h : Orderly v s) (hcalls : l ∈ s.worker.calls) :
    some l ∉ s.queue := fun hmem =>
  disjoint_of_nodup_append h.nodup hcalls (reduceOption_mem_iff.mpr hmem)

theorem mem_queue_of_pending (hpending : l ∈ s.pending) (hcalls : l ∉ s.worker.calls) :
    some l ∈ s.queue :=
  reduceOption_mem_iff.mp ((mem_append.mp hpending).resolve_left hcalls)

theorem Orderly.cost_lt [DecidableEq K] (h : Orderly v s) (hworker : a.ofWorker = true)
    (hstep : Asr.step v s a = some t) (hstill : l ∈ t.pending) :
    t.cost v l < s.cost v l := by
  have ht : Orderly v t := h.step hstep
  rcases cost_step hworker hstep with ⟨hqueue, hcost⟩ | ⟨head, hqueue, hcost, hcalls⟩
  · by_cases hmem : l ∈ t.worker.calls
    · rw [State.cost, if_pos hmem]
      exact Nat.lt_add_right _ hcost
    · have hnot : l ∉ s.worker.calls := fun hin =>
        h.not_mem_queue hin (hqueue ▸ mem_queue_of_pending hstill hmem)
      rw [State.cost, State.cost, if_neg hmem, if_neg hnot, hqueue]
      exact Nat.add_lt_add_right hcost _
  · by_cases hin : l ∈ s.worker.calls
    · have hmem : l ∈ t.worker.calls := by
        by_contra hnot
        have hrest := mem_queue_of_pending hstill hnot
        exact h.not_mem_queue hin (hqueue ▸ mem_cons_of_mem head hrest)
      rw [State.cost, State.cost, if_pos hin, if_pos hmem]
      exact hcalls (ne_nil_of_mem hin)
    · rw [State.cost, State.cost, if_neg hin]
      by_cases hmem : l ∈ t.worker.calls
      · rw [if_pos hmem, Nat.mul_add, Nat.mul_one]
        omega
      · have hne : head ≠ some l := by
          rintro rfl
          have hrest := mem_queue_of_pending hstill hmem
          have hnodup := h.nodup
          rw [State.pending, hqueue, reduceOption_cons_of_some] at hnodup
          exact (nodup_cons.mp (nodup_append.mp hnodup).2.1).1 (reduceOption_mem_iff.mpr hrest)
        rw [if_neg hmem, hqueue, idxOf_cons_ne _ hne, Nat.mul_add _ (_ + 1), Nat.mul_one]
        omega

/-- A caller does not get between the worker and a pending call. -/
theorem cost_le [DecidableEq K] (hcaller : a.ofWorker = false) (hstep : step v s a = some t)
    (hpending : l ∈ s.pending) : t.cost v l ≤ s.cost v l := by
  have hbeside := beside_step hcaller hstep
  obtain ⟨added, hqueue⟩ := hbeside.queue
  rw [State.cost, State.cost, hbeside.worker, hqueue]
  split
  · exact Nat.le_refl _
  next hcalls =>
    rw [idxOf_append_of_mem (mem_queue_of_pending hpending hcalls)]

/-- A bound on the steps that a call has still to take. -/
def CallPoint.rank : CallPoint R → ℕ
  | .looking => 5
  | .discarding _ => 4
  | .joining => 3
  | .attaching _ | .waiting _ => 2
  | .releasing _ => 1
  | .idle | .returned | .raised => 0

/-- A call has begun, and has fewer steps to take than a bound. -/
def State.Nears (s : State K R) (c n : ℕ) : Prop := s.call c ≠ .idle ∧ (s.call c).rank < n

theorem nears_goto (s : State K R) {n : ℕ} {point : CallPoint R} (hidle : point ≠ .idle)
    (hrank : point.rank < n) : (s.goto c point).Nears c n := by
  have hself : (s.goto c point).call c = point := Function.update_self ..
  rw [State.Nears, hself]
  exact ⟨hidle, hrank⟩

theorem nears_lookup [DecidableEq K] (s : State K R) (c : ℕ) (k : K) :
    (v.lookup s c k).Nears c 5 := by
  unfold Service.lookup
  split
  · exact nears_goto s (by simp) (by simp [CallPoint.rank])
  · split <;> exact nears_goto s (by simp) (by simp [CallPoint.rank])

theorem nears_join [DecidableEq K] (s : State K R) (c : ℕ) (k : K) (fails : Bool) :
    (v.join s c k fails).Nears c 3 := by
  have hqueued : (s.enqueue c).Nears c 3 := by
    unfold State.enqueue
    split
    · exact nears_goto s (by simp) (by simp [CallPoint.rank])
    · exact nears_goto { s with queue := s.queue ++ [some c] } (by simp) (by simp [CallPoint.rank])
  unfold Service.join
  split
  · exact nears_goto s (by simp) (by simp [CallPoint.rank])
  · split
    · exact nears_goto s (by simp) (by simp [CallPoint.rank])
    · split
      · exact nears_goto s (by simp) (by simp [CallPoint.rank])
      · split
        · exact nears_goto s (by simp) (by simp [CallPoint.rank])
        · exact hqueued

theorem nears_wake (s : State K R) (c leader : ℕ) (result : Option (List R)) (fails : Bool) :
    (v.wake s c leader result fails).Nears c 2 := by
  unfold Service.wake
  split
  · split
    · exact nears_goto s (by simp) (by simp [CallPoint.rank])
    · split <;> exact nears_goto s (by simp) (by simp [CallPoint.rank])
  · split
    · exact nears_goto s (by simp) (by simp [CallPoint.rank])
    · split <;> exact nears_goto _ (by simp) (by simp [CallPoint.rank])

/-- Each step of a call that has begun brings it nearer to its end. -/
theorem nears_step [DecidableEq K] (hown : a.ofCall c = true) (hidle : s.call c ≠ .idle)
    (hstep : step v s a = some t) : t.Nears c (s.call c).rank := by
  cases moves_of_step hstep with
  | start hcall =>
    obtain rfl := of_decide_eq_true hown
    exact absurd hcall hidle
  | lookup hcall =>
    obtain rfl := of_decide_eq_true hown
    rw [hcall]
    split
    · exact nears_goto s (by simp) (by simp [CallPoint.rank])
    · exact nears_lookup s _ _
  | discard hcall =>
    obtain rfl := of_decide_eq_true hown
    rw [hcall]
    split <;> exact nears_goto _ (by simp) (by simp [CallPoint.rank])
  | join hcall =>
    obtain rfl := of_decide_eq_true hown
    rw [hcall]
    exact nears_join s _ _ _
  | attach hcall =>
    obtain rfl := of_decide_eq_true hown
    rw [hcall]
    split <;> exact nears_goto _ (by simp) (by simp [CallPoint.rank])
  | wake hcall =>
    obtain rfl := of_decide_eq_true hown
    rw [hcall]
    exact nears_wake s _ _ _ _
  | @release d result _ hcall =>
    obtain rfl := of_decide_eq_true hown
    have hended : (s.goto d (if result.isSome then .returned else .raised)).Nears d 1 := by
      split <;> exact nears_goto s (by simp) (by simp [CallPoint.rank])
    rw [hcall]
    exact hended
  | _ => cases hown

theorem call_step [DecidableEq K] (hother : a.ofCall c = false) (hstep : step v s a = some t) :
    t.call c = s.call c := by
  cases hworker : a.ofWorker with
  | true => rw [(behind_step hworker hstep).call]
  | false => exact (beside_step hworker hstep).others c hother

/-- A future that has been set stays set. -/
theorem futures_step [DecidableEq K] (hstep : step v s a = some t) (hset : (s.futures l).isSome) :
    (t.futures l).isSome := by
  cases hworker : a.ofWorker with
  | true => exact (behind_step hworker hstep).futures l hset
  | false =>
    rw [(beside_step hworker hstep).futures]
    exact hset

/-- A call waits until the future has been set. -/
theorem waiting_step [DecidableEq K] (hcall : s.call c = .waiting l) (hunset : s.futures l = none)
    (hstep : step v s a = some t) : t.call c = .waiting l := by
  cases hown : a.ofCall c with
  | false => exact (call_step hown hstep).trans hcall
  | true =>
    exfalso
    cases a with
    | close => cases hown
    | evict k => cases hown
    | take => cases hown
    | more => cases hown
    | go => cases hown
    | encode outcome => cases hown
    | store outcome => cases hown
    | deliver => cases hown
    | retry => cases hown
    | start d =>
      obtain rfl : d = c := of_decide_eq_true hown
      simp [Asr.step, hcall] at hstep
    | lookup d fails =>
      obtain rfl : d = c := of_decide_eq_true hown
      simp [Asr.step, hcall] at hstep
    | discard d fails =>
      obtain rfl : d = c := of_decide_eq_true hown
      simp [Asr.step, hcall] at hstep
    | join d fails =>
      obtain rfl : d = c := of_decide_eq_true hown
      simp [Asr.step, hcall] at hstep
    | attach d fails =>
      obtain rfl : d = c := of_decide_eq_true hown
      simp [Asr.step, hcall] at hstep
    | wake d fails =>
      obtain rfl : d = c := of_decide_eq_true hown
      simp [Asr.step, hcall, hunset] at hstep
    | release d =>
      obtain rfl : d = c := of_decide_eq_true hown
      simp [Asr.step, hcall] at hstep

theorem Orderly.call_acts [DecidableEq K] (h : Orderly v s) (hidle : s.call c ≠ .idle)
    (hended : (s.call c).hasEnded = false)
    (hwaiting : ∀ l, s.call c = .waiting l → (s.futures l).isSome) :
    ∃ a t, (a : Action K).ofCall c = true ∧ Asr.step v s a = some t := by
  cases hcall : s.call c with
  | idle => exact absurd hcall hidle
  | looking =>
    obtain ⟨k, hkey⟩ := Option.isSome_iff_exists.mp (h.keyed c (Or.inl (by rw [hcall]; rfl)))
    exact ⟨.lookup c true, _, decide_eq_true rfl, by simp only [Asr.step, hcall, hkey]; rfl⟩
  | discarding entry =>
    obtain ⟨k, hkey⟩ := Option.isSome_iff_exists.mp (h.keyed c (Or.inl (by rw [hcall]; rfl)))
    exact ⟨.discard c true, _, decide_eq_true rfl, by simp only [Asr.step, hcall, hkey]; rfl⟩
  | joining =>
    obtain ⟨k, hkey⟩ := Option.isSome_iff_exists.mp (h.keyed c (Or.inl (by rw [hcall]; rfl)))
    exact ⟨.join c true, _, decide_eq_true rfl, by simp only [Asr.step, hcall, hkey]; rfl⟩
  | attaching embedding =>
    exact ⟨.attach c true, _, decide_eq_true rfl, by simp only [Asr.step, hcall]; rfl⟩
  | waiting l =>
    obtain ⟨result, hset⟩ := Option.isSome_iff_exists.mp (hwaiting l hcall)
    exact ⟨.wake c true, _, decide_eq_true rfl, by simp only [Asr.step, hcall, hset]; rfl⟩
  | releasing result =>
    obtain ⟨k, hkey⟩ := Option.isSome_iff_exists.mp (h.keyed c (Or.inr ⟨result, hcall⟩))
    exact ⟨.release c, _, decide_eq_true rfl, by simp only [Asr.step, hcall, hkey]; rfl⟩
  | returned =>
    rw [hcall] at hended
    cases hended
  | raised =>
    rw [hcall] at hended
    cases hended

section Fair

variable [DecidableEq K] {s₀ : State K R} {p : Path (step v) s₀}

theorem eventually_waits (hcalls : ∀ c, p.Fair fun a => a.ofCall c) (ho : Orderly v (p.state i))
    (hidle : (p.state i).call c ≠ .idle) :
    ∃ j ≥ i, Orderly v (p.state j) ∧
      (((p.state j).call c).hasEnded ∨ ∃ l, (p.state j).call c = .waiting l) := by
  have hI : Orderly v (p.state i) ∧ (p.state i).call c ≠ .idle := ⟨ho, hidle⟩
  refine @Path.eventually _ _ _ (fun s => Orderly v s ∧ s.call c ≠ .idle) _
    (fun s => Orderly v s ∧ ((s.call c).hasEnded ∨ ∃ l, s.call c = .waiting l)) p _ (hcalls c)
    (fun s => (s.call c).rank) (fun s hs hmissed => ?_) (fun s a t hs hmissed hstep => ?_) i hI
  · refine hs.1.call_acts hs.2 (Bool.eq_false_of_not_eq_true fun hended => ?_) fun l hcall => ?_
    · exact hmissed ⟨hs.1, Or.inl hended⟩
    · exact absurd ⟨hs.1, Or.inr ⟨l, hcall⟩⟩ hmissed
  · refine Or.inr ?_
    cases hown : Action.ofCall c a with
    | true =>
      obtain ⟨hbegun, hrank⟩ := nears_step hown hs.2 hstep
      exact ⟨⟨hs.1.step hstep, hbegun⟩, Nat.le_of_lt hrank, fun _ => hrank⟩
    | false =>
      have hcall := call_step hown hstep
      rw [hcall]
      exact ⟨⟨hs.1.step hstep, hs.2⟩, Nat.le_refl _, nofun⟩

theorem eventually_set (hworker : p.Fair fun a => a.ofWorker) (ho : Orderly v (p.state i))
    (hcall : (p.state i).call c = .waiting l) :
    ∃ j ≥ i, Orderly v (p.state j) ∧ (p.state j).call c = .waiting l ∧
      ((p.state j).futures l).isSome := by
  by_cases hset : ((p.state i).futures l).isSome
  · exact ⟨i, Nat.le_refl i, ho, hcall, hset⟩
  have hI : Orderly v (p.state i) ∧ (p.state i).call c = .waiting l ∧ l ∈ (p.state i).pending :=
    ⟨ho, hcall, (ho.known c l hcall).resolve_left hset⟩
  refine @Path.eventually _ _ _
    (fun s => Orderly v s ∧ s.call c = .waiting l ∧ l ∈ s.pending) _
    (fun s => Orderly v s ∧ s.call c = .waiting l ∧ (s.futures l).isSome) p _ hworker
    (State.cost v l) (fun s hs _ => hs.1.worker_acts hs.2.2)
    (fun s a t hs _ hstep => ?_) i hI
  obtain ⟨hs, hwaits, hpending⟩ := hs
  have ht : Orderly v t := hs.step hstep
  have hstill : t.call c = .waiting l := waiting_step hwaits (hs.waits l hpending).2 hstep
  rcases ht.known c l hstill with hdone | hpending'
  · exact Or.inl ⟨ht, hstill, hdone⟩
  · refine Or.inr ⟨⟨ht, hstill, hpending'⟩, ?_⟩
    cases hown : Action.ofWorker a with
    | true =>
      have hless := hs.cost_lt hown hstep hpending'
      exact ⟨Nat.le_of_lt hless, fun _ => hless⟩
    | false => exact ⟨cost_le hown hstep hpending, nofun⟩

/-- A call whose future has been set, or which releases its entry. -/
def State.Woken (s : State K R) (c : ℕ) : Prop :=
  (∃ l, s.call c = .waiting l ∧ (s.futures l).isSome) ∨ ∃ result, s.call c = .releasing result

theorem eventually_ends (hcalls : ∀ c, p.Fair fun a => a.ofCall c) (ho : Orderly v (p.state i))
    (hwoken : (p.state i).Woken c) :
    ∃ j ≥ i, ((p.state j).call c).hasEnded := by
  have hI : Orderly v (p.state i) ∧ (p.state i).Woken c := ⟨ho, hwoken⟩
  have hidle {s : State K R} (hs : s.Woken c) : s.call c ≠ .idle := by
    intro hnot
    rcases hs with ⟨l, hcall, -⟩ | ⟨result, hcall⟩
    · rw [hnot] at hcall
      cases hcall
    · rw [hnot] at hcall
      cases hcall
  refine @Path.eventually _ _ _ (fun s => Orderly v s ∧ s.Woken c) _
    (fun s => (s.call c).hasEnded) p _ (hcalls c) (fun s => (s.call c).rank)
    (fun s hs hmissed => ?_) (fun s a t hs hmissed hstep => ?_) i hI
  · refine hs.1.call_acts (hidle hs.2) (Bool.eq_false_of_not_eq_true hmissed) fun l hcall => ?_
    rcases hs.2 with ⟨l', hcall', hset⟩ | ⟨result, hcall'⟩
    · rw [hcall] at hcall'
      cases hcall'
      exact hset
    · rw [hcall] at hcall'
      cases hcall'
  · cases hown : Action.ofCall c a with
    | true =>
      obtain ⟨hbegun, hrank⟩ := nears_step hown (hidle hs.2) hstep
      have hshort : (s.call c).rank ≤ 2 := by
        rcases hs.2 with ⟨l, hcall, -⟩ | ⟨result, hcall⟩ <;> simp [hcall, CallPoint.rank]
      have hless : (t.call c).rank < 2 := Nat.lt_of_lt_of_le hrank hshort
      cases hcall : t.call c with
      | idle => exact absurd hcall hbegun
      | returned => exact Or.inl rfl
      | raised => exact Or.inl rfl
      | releasing result =>
        rw [hcall] at hrank
        exact Or.inr ⟨⟨hs.1.step hstep, Or.inr ⟨result, hcall⟩⟩, Nat.le_of_lt hrank, fun _ => hrank⟩
      | looking | discarding | joining | attaching | waiting =>
        rw [hcall] at hless
        exact absurd hless (by simp [CallPoint.rank])
    | false =>
      have hcall := call_step hown hstep
      refine Or.inr ⟨⟨hs.1.step hstep, ?_⟩, ?_⟩
      · rcases hs.2 with ⟨l, hwaits, hset⟩ | ⟨result, hreleasing⟩
        · exact Or.inl ⟨l, hcall.trans hwaits, futures_step hstep hset⟩
        · exact Or.inr ⟨result, hcall.trans hreleasing⟩
      · rw [hcall]
        exact ⟨Nat.le_refl _, nofun⟩

theorem ends_of_fair (ho : Orderly v s₀) (hworker : p.Fair fun a => a.ofWorker)
    (hcalls : ∀ c, p.Fair fun a => a.ofCall c) (hidle : s₀.call c ≠ .idle) :
    ∃ i, ((p.state i).call c).hasEnded := by
  have ho₀ : Orderly v (p.state 0) := by
    rw [p.start]
    exact ho
  have hidle₀ : (p.state 0).call c ≠ .idle := by
    rw [p.start]
    exact hidle
  obtain ⟨i, -, hi, hended | ⟨l, hwaits⟩⟩ := eventually_waits hcalls ho₀ hidle₀
  · exact ⟨i, hended⟩
  · obtain ⟨j, -, hj, hcall, hset⟩ := eventually_set hworker hi hwaits
    obtain ⟨k, -, hended⟩ := eventually_ends hcalls hj (Or.inl ⟨l, hcall, hset⟩)
    exact ⟨k, hended⟩

end Fair

/-- Calls with one key are one call, as long as their encode is queued or running. -/
theorem Orderly.single (h : Orderly v s) :
    (s.pending.filterMap fun c => (v.item c).key).Nodup := by
  refine pairwise_filterMap.mpr (h.nodup.imp_of_mem fun {c d} hc hd hne k hk k' hk' heq => ?_)
  subst heq
  have hentry := h.entry c hc k hk
  rw [h.entry d hd k hk'] at hentry
  exact hne (Option.some.inj hentry).symm

variable [DecidableEq K]

/-- What holds in every state gives what the service promises. -/
theorem kept_of_right (ho : Orderly v s) (h : Right v s) : Kept v s where
  own := h.returned
  single := ho.single
  gone k c hentry := by
    rcases (ho.leads k c hentry).2 with hcall | ⟨result, hcall⟩
    · rw [hcall]
      rfl
    · rw [hcall]
      rfl
  isolated c rest shutdown hworker := by
    refine h.spare c (Or.inr (mem_append_left _ ?_))
    rw [hworker]
    exact mem_cons_self ..
  ends p hworker hcalls c hidle := ends_of_fair ho hworker hcalls hidle

/-- **Single flight.** If no batch of more than one item raises once an item has been attached, or
is split at other rows than those of its items, then every call ends, with its own embedding or
with an exception, at most one encode for each key is queued or running, no entry outlives its
leader, and what is encoded alone is as it was before its batch. -/
theorem served_of_run {as : List (Action K)} (hkeys : v.KeysIdentify)
    (hrun : Run (step v) (fun s a => a.Tidy v s) (State.init K R) as s) : Kept v s := by
  have hinv : Orderly v s ∧ Right v s ∧ s.worker.Single := by
    refine hrun.invariant (I := fun s => Orderly v s ∧ Right v s ∧ s.worker.Single)
      (fun s a t hs hok hstep => ?_) ⟨orderly_init, right_init, trivial⟩
    obtain ⟨ho, h, hsingle⟩ := hs
    exact ⟨ho.step hstep, h.step ho hsingle hkeys hok hstep, single_step hsingle hstep⟩
  exact kept_of_right hinv.1 hinv.2.1

/-- Items of one row each, with keys of their own, in batches of two. -/
def oneRow : Service ℕ ℕ ℕ where
  item c := { audio := c, numAudioTokens := some 1, key := some c }
  embed audio := [audio]
  maxBatchSize := 2

/-- Two calls are queued, and taken in one batch. -/
def twoQueued : List (Action ℕ) :=
  [.start 0, .lookup 0 false, .join 0 false, .start 1, .lookup 1 false, .join 1 false,
    .take, .more, .go]

theorem served_of_run_oneRow : ∃ s, Run (step oneRow) (fun s a => a.Tidy oneRow s)
    (State.init ℕ ℕ) (twoQueued ++ [.encode (.encodes none), .store .stores, .store .stores,
      .store .stores, .deliver, .wake 0 false]) s ∧ Kept oneRow s := by
  have hexec : (exec (step oneRow) (State.init ℕ ℕ) (twoQueued ++ [.encode (.encodes none),
      .store .stores, .store .stores, .store .stores, .deliver, .wake 0 false])).isSome := by
    decide +kernel
  obtain ⟨s, hs⟩ := Option.isSome_iff_exists.mp hexec
  have hencode : ∀ s, (Action.encode (.encodes none) : Action ℕ).Tidy oneRow s := by
    intro s
    simp only [Action.Tidy]
    split
    · exact fun _ _ => ⟨fun _ _ => rfl, Or.inl trivial⟩
    · trivial
  have hrun : Run (step oneRow) (fun s a => a.Tidy oneRow s) (State.init ℕ ℕ)
      (twoQueued ++ [.encode (.encodes none), .store .stores, .store .stores, .store .stores,
        .deliver, .wake 0 false]) s := by
    refine run_of_exec_of_forall (fun a ha s => ?_) hs
    simp only [twoQueued, cons_append, nil_append, mem_cons, not_mem_nil, or_false] at ha
    rcases ha with rfl | rfl | rfl | rfl | rfl | rfl | rfl | rfl | rfl | rfl | rfl | rfl | rfl |
      rfl | rfl
    all_goals first | exact hencode s | trivial
  have hkeys : oneRow.KeysIdentify := by
    rintro c d k ⟨⟩ ⟨⟩
    rfl
  exact ⟨s, hrun, served_of_run hkeys hrun⟩

/-- The cache raises after a batch has been attached. Its items, which have lost their features,
are then encoded alone, and fail. -/
theorem lost_features_not_kept : ∃ as s t, Run (step oneRow) anyAction (State.init ℕ ℕ) as s ∧
    ¬Kept oneRow s ∧ step oneRow s (.encode (.encodes none)) = some t ∧
      t.futures 0 = some none := by
  have hexec : ((exec (step oneRow) (State.init ℕ ℕ)
      (twoQueued ++ [.encode (.encodes none), .store (.raises false), .retry])).bind fun s =>
        (step oneRow s (.encode (.encodes none))).map fun t =>
          (s.worker, s.feature 0, t.futures 0)) =
      some (.encoding [0] (.alone [1]) false, false, some none) := by
    decide +kernel
  obtain ⟨s, hs, hnext⟩ := Option.bind_eq_some_iff.mp hexec
  obtain ⟨t, ht, heq⟩ := Option.map_eq_some_iff.mp hnext
  simp only [Prod.mk.injEq] at heq
  obtain ⟨hworker, hfeature, hfuture⟩ := heq
  refine ⟨_, s, t, run_of_exec hs, fun hkept => ?_, ht, hfuture⟩
  rw [hkept.isolated 0 [1] false hworker] at hfeature
  cases hfeature

end Omni.Asr
