import Mathlib.Data.List.Nodup
import Mathlib.Data.List.ReduceOption
import Mathlib.Tactic.Common
import Omni.Asr.EncoderService

/-!
# Single flight

What the encoder service keeps in every interleaving: each encode that is queued or running
belongs to one call that waits for it, and it ends. What it keeps only if a batch does not
disturb its own items: that they are encoded alone as if the batch had not been tried, and that
each call ends with its own embedding.
-/

namespace Omni.Asr

open Transition Function State CallPoint List

variable {A K R : Type} {v : Service A K R} {s t : State K R} {c entry leader : ℕ}
  {point : CallPoint R} {k : K} {fails shutdown : Bool} {result : Option (List R)}
  {attempt : Attempt} {a : Action K} {own : ℕ → Bool} {embedding : List R}
  {parts : List (ℕ × List R)} {rest : List (Option ℕ)} {outcome : Store}

/-- The calls whose futures the worker has still to set. -/
def WorkerPoint.calls : WorkerPoint R → List ℕ
  | .draining batch => batch
  | .encoding batch .whole _ => batch
  | .encoding batch (.alone rest) _ => batch ++ rest
  | .storing _ parts .whole _ => parts.map Prod.fst
  | .storing _ parts (.alone rest) _ => parts.map Prod.fst ++ rest
  | .delivering todo _ => todo.map Prod.fst
  | .retrying todo _ => todo
  | _ => []

/-- The calls whose encodes are queued or running. -/
def State.pending (s : State K R) : List ℕ := s.worker.calls ++ s.queue.reduceOption

/-- The worker has taken `_SHUTDOWN`. -/
def WorkerPoint.isDown : WorkerPoint R → Bool
  | .encoding _ _ shutdown => shutdown
  | .storing _ _ _ shutdown => shutdown
  | .delivering _ shutdown => shutdown
  | .retrying _ shutdown => shutdown
  | .stopped => true
  | _ => false

/-- A call before it has got a future. -/
def CallPoint.isEarly : CallPoint R → Bool
  | .looking | .discarding _ | .joining => true
  | _ => false

/-- A call that has no future and no embedding to attach. -/
def CallPoint.isFree : CallPoint R → Bool
  | .idle => true
  | point => point.isEarly

/-- A call that has ended. -/
def CallPoint.hasEnded : CallPoint R → Bool
  | .returned | .raised => true
  | _ => false

/-- What the service promises. -/
structure Kept [DecidableEq K] (v : Service A K R) (s : State K R) : Prop where
  /-- A call that returns has the embedding of its own audio, with its number of rows. -/
  own : ∀ c, s.call c = .returned → ∃ embedding, s.attached c = some embedding ∧
    embedding = v.embed (v.item c).audio ∧ (v.item c).numAudioTokens = some embedding.length
  /-- At most one encode for each key is queued or running. -/
  single : (s.pending.filterMap fun c => (v.item c).key).Nodup
  /-- The leader of an entry has not ended. -/
  gone : ∀ k c, s.inflight k = some c → (s.call c).hasEnded = false
  /-- An item that is encoded alone after its batch is as it was before. -/
  isolated : ∀ c rest shutdown, s.worker = .encoding [c] (.alone rest) shutdown → s.feature c = true
  /-- If the worker and the callers go on, every call that has begun ends. -/
  ends : ∀ p : Path (step v) s, p.Fair (fun a => a.ofWorker) →
    (∀ c, p.Fair fun a => a.ofCall c) → ∀ c, s.call c ≠ .idle → ∃ i, ((p.state i).call c).hasEnded

/-- The encoder returns as many rows for a batch as its items expect. -/
def Service.fits (v : Service A K R) (batch : List ℕ) : Bool :=
  match v.tokenCounts batch with
  | some counts => (batch.flatMap fun c => v.embed (v.item c).audio).length = counts.sum
  | none => false

/-- A batch of more than one item does not raise once an item has been attached, and if its rows
fit together, then those of each item do. -/
def Action.Tidy (v : Service A K R) (s : State K R) : Action K → Prop
  | .encode (.encodes raisesAfter) =>
    match s.worker with
    | .encoding batch .whole _ => 2 ≤ batch.length → v.fits batch →
        (∀ c ∈ batch, (v.item c).numAudioTokens = some (v.embed (v.item c).audio).length) ∧
          (raisesAfter = none ∨ raisesAfter = some 0)
    | _ => True
  | .store (.raises _) =>
    match s.worker with
    | .storing (part :: _) parts .whole _ => 2 ≤ parts.length → (v.item part.1).key = none
    | _ => True
  | _ => True

/-- Items with the same key have the same audio. -/
def Service.KeysIdentify (v : Service A K R) : Prop :=
  ∀ c d k, (v.item c).key = some k → (v.item d).key = some k → (v.item c).audio = (v.item d).audio

/-- What holds in every interleaving. -/
structure Orderly (v : Service A K R) (s : State K R) : Prop where
  nodup : s.pending.Nodup
  waits : ∀ c ∈ s.pending, s.call c = .waiting c ∧ s.futures c = none
  known : ∀ c leader, s.call c = .waiting leader → (s.futures leader).isSome ∨ leader ∈ s.pending
  same : ∀ c leader, s.call c = .waiting leader → leader ≠ c →
    ∃ k, (v.item c).key = some k ∧ (v.item leader).key = some k
  entry : ∀ c ∈ s.pending, ∀ k, (v.item c).key = some k → s.inflight k = some c
  leads : ∀ k c, s.inflight k = some c → (v.item c).key = some k ∧
    (s.call c = .waiting c ∨ ∃ result, s.call c = .releasing result)
  keyed : ∀ c, ((s.call c).isEarly ∨ ∃ result, s.call c = .releasing result) → (v.item c).key.isSome
  released : ∀ c result, s.call c = .releasing result → (s.futures c).isSome
  settled : ∀ c, (s.futures c).isSome → s.call c = .waiting c ∨
    (∃ result, s.call c = .releasing result) ∨ (s.call c).hasEnded
  tail : ∃ calls : List ℕ, s.queue = calls.map some ∨ s.closed ∧ s.queue = calls.map some ++ [none]
  down : s.worker.isDown → s.closed ∧ s.queue = []

theorem orderly_init : Orderly v (init K R) where
  nodup := nodup_nil
  waits c hc := absurd hc not_mem_nil
  known c leader hc := by simp [init] at hc
  same c leader hc := by simp [init] at hc
  entry c hc := absurd hc not_mem_nil
  leads k c hc := by simp [init] at hc
  keyed c hc := by simp [init, isEarly] at hc
  released c result hc := by simp [init] at hc
  settled c hc := by simp [init] at hc
  tail := ⟨[], Or.inl rfl⟩
  down hdown := by simp [init, WorkerPoint.isDown] at hdown

/-- A future that has been set is not pending. -/
theorem Orderly.not_pending (h : Orderly v s) (hset : (s.futures c).isSome) :
    c ∉ s.pending := fun hmem => by
  rw [(h.waits c hmem).2] at hset
  cases hset

/-- Nor is a call that does not wait for itself. -/
theorem Orderly.not_pending_of_call (h : Orderly v s) (hcall : s.call c ≠ .waiting c) :
    c ∉ s.pending := fun hmem => hcall (h.waits c hmem).1

/-- A call that does not lead goes on to another point. -/
theorem Orderly.goto (h : Orderly v s) (hout : c ∉ s.pending)
    (hleads : ∀ k, s.inflight k = some c → point = .waiting c ∨ ∃ result, point = .releasing result)
    (hwaiting : ∀ leader, point = .waiting leader →
      ((s.futures leader).isSome ∨ leader ∈ s.pending) ∧
        (leader ≠ c → ∃ k, (v.item c).key = some k ∧ (v.item leader).key = some k))
    (hkeyed : (point.isEarly ∨ ∃ result, point = .releasing result) → (v.item c).key.isSome)
    (hreleased : ∀ result, point = .releasing result → (s.futures c).isSome)
    (hsettled : (s.futures c).isSome → point = .waiting c ∨
      (∃ result, point = .releasing result) ∨ point.hasEnded) :
    Orderly v (s.goto c point) := by
  have hother {d : ℕ} (hd : d ≠ c) : (s.goto c point).call d = s.call d :=
    update_of_ne hd _ _
  have hself : (s.goto c point).call c = point := update_self ..
  exact
    { h with
      waits := fun d hd => by
        have hne : d ≠ c := fun heq => hout (heq ▸ hd)
        rw [hother hne]
        exact h.waits d hd
      known := fun d leader hd => by
        by_cases hne : d = c
        · subst hne
          exact (hwaiting leader (hself ▸ hd)).1
        · exact h.known d leader (hother hne ▸ hd)
      same := fun d leader hd => by
        by_cases hne : d = c
        · subst hne
          exact (hwaiting leader (hself ▸ hd)).2
        · exact h.same d leader (hother hne ▸ hd)
      leads := fun k d hd => by
        by_cases hne : d = c
        · subst hne
          rw [hself]
          exact ⟨(h.leads k d hd).1, hleads k hd⟩
        · rw [hother hne]
          exact h.leads k d hd
      keyed := fun d hd => by
        by_cases hne : d = c
        · subst hne
          rw [hself] at hd
          exact hkeyed hd
        · rw [hother hne] at hd
          exact h.keyed d hd
      released := fun d result hd => by
        by_cases hne : d = c
        · subst hne
          exact hreleased result (hself ▸ hd)
        · exact h.released d result (hother hne ▸ hd)
      settled := fun d hd => by
        by_cases hne : d = c
        · subst hne
          rw [hself]
          exact hsettled hd
        · rw [hother hne]
          exact h.settled d hd }

/-- A change of what callers and worker do not wait for. -/
theorem Orderly.of_frame (h : Orderly v s) (hcall : t.call = s.call)
    (hfutures : t.futures = s.futures) (hinflight : t.inflight = s.inflight)
    (hqueue : t.queue = s.queue) (hclosed : t.closed = s.closed) (hworker : t.worker = s.worker) :
    Orderly v t := by
  have hpending : t.pending = s.pending := by rw [pending, hworker, hqueue, pending]
  constructor
  · exact hpending ▸ h.nodup
  · rw [hpending, hcall, hfutures]
    exact h.waits
  · rw [hpending, hcall, hfutures]
    exact h.known
  · rw [hcall]
    exact h.same
  · rw [hpending, hinflight]
    exact h.entry
  · rw [hinflight, hcall]
    exact h.leads
  · rw [hcall]
    exact h.keyed
  · rw [hcall, hfutures]
    exact h.released
  · rw [hfutures, hcall]
    exact h.settled
  · rw [hqueue, hclosed]
    exact h.tail
  · rw [hworker, hclosed, hqueue]
    exact h.down

/-- A call without a future does not wait for it, and has not ended. -/
theorem spec_of_isFree (hfree : point.isFree) :
    (∀ leader, point ≠ .waiting leader) ∧ (∀ result, point ≠ .releasing result) ∧
      point.hasEnded = false := by
  cases point <;> simp_all [isFree, isEarly, hasEnded]

/-- It is not pending, does not lead, and its future has not been set. -/
theorem Orderly.of_free (h : Orderly v s) (hfree : (s.call c).isFree) :
    c ∉ s.pending ∧ (∀ k, s.inflight k ≠ some c) ∧ s.futures c = none := by
  obtain ⟨hwaiting, hreleasing, hended⟩ := spec_of_isFree hfree
  refine ⟨h.not_pending_of_call (hwaiting c), fun k hentry => ?_, ?_⟩
  · rcases (h.leads k c hentry).2 with hnot | ⟨result, hnot⟩
    · exact hwaiting c hnot
    · exact hreleasing result hnot
  · by_contra hset
    rcases h.settled c (Option.isSome_iff_ne_none.mpr hset) with hnot | ⟨result, hnot⟩ | hnot
    · exact hwaiting c hnot
    · exact hreleasing result hnot
    · rw [hended] at hnot
      cases hnot

/-- A call that has no future yet goes on without one. -/
theorem Orderly.goto_free (h : Orderly v s) (hfree : (s.call c).isFree)
    (hpoint : (point.isEarly ∧ (v.item c).key.isSome) ∨
      (∃ embedding, point = .attaching embedding) ∨ point.hasEnded) :
    Orderly v (s.goto c point) := by
  obtain ⟨hout, hleads, hunset⟩ := h.of_free hfree
  have hwaiting : ∀ leader, point ≠ .waiting leader := by
    rintro leader rfl
    simp [isEarly, hasEnded] at hpoint
  have hreleasing : ∀ result, point ≠ .releasing result := by
    rintro result rfl
    simp [isEarly, hasEnded] at hpoint
  refine h.goto hout (fun k hentry => absurd hentry (hleads k))
    (fun leader heq => absurd heq (hwaiting leader)) (fun hkey => ?_)
    (fun result heq => absurd heq (hreleasing result)) fun hset => ?_
  · rcases hkey with hearly | ⟨result, hnot⟩
    · rcases hpoint with ⟨-, hsome⟩ | ⟨embedding, rfl⟩ | hended
      · exact hsome
      · cases hearly
      · cases point <;> simp_all [hasEnded, isEarly]
    · exact absurd hnot (hreleasing result)
  · rw [hunset] at hset
    cases hset

/-- A call that leads no entry ends. -/
theorem Orderly.goto_ended (h : Orderly v s) (hout : c ∉ s.pending)
    (hleads : ∀ k, s.inflight k ≠ some c) (hpoint : point.hasEnded) :
    Orderly v (s.goto c point) := by
  refine h.goto hout (fun k hentry => absurd hentry (hleads k)) (fun leader heq => ?_)
    (fun hnot => ?_) (fun result heq => ?_) fun _ => Or.inr (Or.inr hpoint)
  · subst heq
    cases hpoint
  · rcases hnot with hnot | ⟨result, rfl⟩
    · cases point <;> simp_all [hasEnded, isEarly]
    · cases hpoint
  · subst heq
    cases hpoint

theorem Orderly.enqueue (h : Orderly v s) (hfree : (s.call c).isFree) (hopen : s.closed = false)
    {inflight : K → Option ℕ} (hinflight : ∀ k d, inflight k = some d ↔
      s.inflight k = some d ∨ d = c ∧ (v.item c).key = some k) :
    Orderly v { s.goto c (.waiting c) with
      queue := s.queue ++ [some c], inflight := inflight } := by
  obtain ⟨hout, hleads, hunset⟩ := h.of_free hfree
  have hother {d : ℕ} (hd : d ≠ c) : (s.goto c (.waiting c)).call d = s.call d :=
    update_of_ne hd _ _
  have hself : (s.goto c (.waiting c)).call c = .waiting c := update_self ..
  have hpending : ({ s.goto c (.waiting c) with
      queue := s.queue ++ [some c], inflight := inflight } : State K R).pending =
        s.pending ++ [c] := by
    simp [State.pending, State.goto, reduceOption_append]
  have hmem {d : ℕ} (hd : d ∈ s.pending ++ [c]) : d ∈ s.pending ∨ d = c := by simpa using hd
  constructor
  · rw [hpending]
    exact nodup_append.mpr ⟨h.nodup, nodup_singleton c, fun a ha b hb heq =>
      hout ((heq.trans (mem_singleton.mp hb)) ▸ ha)⟩
  · rw [hpending]
    intro d hd
    rcases hmem hd with hold | rfl
    · have hne : d ≠ c := fun heq => hout (heq ▸ hold)
      exact ⟨(hother hne).trans (h.waits d hold).1, (h.waits d hold).2⟩
    · exact ⟨hself, hunset⟩
  · rw [hpending]
    intro d leader hd
    by_cases hne : d = c
    · subst hne
      have heq : (waiting d : CallPoint R) = .waiting leader := hself.symm.trans hd
      cases heq
      exact Or.inr (mem_append_right _ (mem_singleton_self d))
    · exact (h.known d leader ((hother hne).symm.trans hd)).imp_right (mem_append_left _)
  · intro d leader hd hleader
    by_cases hne : d = c
    · subst hne
      have heq : (waiting d : CallPoint R) = .waiting leader := hself.symm.trans hd
      cases heq
      exact absurd rfl hleader
    · exact h.same d leader ((hother hne).symm.trans hd) hleader
  · rw [hpending]
    intro d hd k hk
    refine (hinflight k d).mpr ?_
    rcases hmem hd with hold | rfl
    · exact Or.inl (h.entry d hold k hk)
    · exact Or.inr ⟨rfl, hk⟩
  · intro k d hd
    rcases (hinflight k d).mp hd with hold | ⟨rfl, hk⟩
    · have hne : d ≠ c := fun heq => hleads k (heq ▸ hold)
      obtain ⟨hkey, hpoint⟩ := h.leads k d hold
      exact ⟨hkey, by rw [← hother hne] at hpoint; exact hpoint⟩
    · exact ⟨hk, Or.inl hself⟩
  · intro d hd
    by_cases hne : d = c
    · subst hne
      have hpoint : ((waiting d : CallPoint R).isEarly = true ∨
          ∃ result, (waiting d : CallPoint R) = .releasing result) := hself ▸ hd
      rcases hpoint with hearly | ⟨result, hreleasing⟩
      · cases hearly
      · cases hreleasing
    · exact h.keyed d (hother hne ▸ hd)
  · intro d result hd
    by_cases hne : d = c
    · subst hne
      have heq : (waiting d : CallPoint R) = .releasing result := hself.symm.trans hd
      cases heq
    · exact h.released d result ((hother hne).symm.trans hd)
  · intro d hd
    have hne : d ≠ c := by
      rintro rfl
      rw [show (s.goto d (.waiting d)).futures d = none from hunset] at hd
      cases hd
    have hold := h.settled d hd
    rw [← hother hne] at hold
    exact hold
  · obtain ⟨calls, hqueue | ⟨hclosed, -⟩⟩ := h.tail
    · exact ⟨calls ++ [c], Or.inl (by simp [hqueue])⟩
    · rw [hopen] at hclosed
      cases hclosed
  · intro hdown
    have hclosed := (h.down hdown).1
    rw [hopen] at hclosed
    cases hclosed

theorem Orderly.start (h : Orderly v s) (hcall : s.call c = .idle) :
    Orderly v (v.start s c) := by
  have hfree : (s.call c).isFree := by rw [hcall]; rfl
  unfold Service.start
  split
  · exact h.goto_free hfree (Or.inr (Or.inr rfl))
  next hkey =>
    unfold State.enqueue
    split
    · exact h.goto_free hfree (Or.inr (Or.inr rfl))
    next hopen =>
      refine h.enqueue hfree (Bool.eq_false_of_not_eq_true hopen) fun k d => ?_
      rw [hkey]
      simp [State.goto]
  next hkey => exact h.goto_free hfree (Or.inl ⟨rfl, by rw [hkey]; rfl⟩)

/-- A call with a key and no future goes on without one. -/
theorem Orderly.goto_early (h : Orderly v s) (hearly : (s.call c).isEarly)
    (hpoint : point.isEarly ∨ (∃ embedding, point = .attaching embedding) ∨ point.hasEnded) :
    Orderly v (s.goto c point) := by
  refine h.goto_free ?_ (hpoint.imp_left fun hp => ⟨hp, h.keyed c (Or.inl hearly)⟩)
  cases hcall : s.call c <;> simp_all [isEarly, isFree]

theorem Orderly.lookup [DecidableEq K] (h : Orderly v s) (hcall : s.call c = .looking) :
    Orderly v (v.lookup s c k) := by
  have hearly : (s.call c).isEarly := by rw [hcall]; rfl
  unfold Service.lookup
  split
  · exact h.goto_early hearly (Or.inl rfl)
  · split
    · exact h.goto_early hearly (Or.inr (Or.inl ⟨_, rfl⟩))
    · exact h.goto_early hearly (Or.inl rfl)

theorem Orderly.removeIfSame [DecidableEq K] (h : Orderly v s) :
    Orderly v (s.removeIfSame k entry) := by
  unfold State.removeIfSame
  split
  · split
    · exact h.of_frame rfl rfl rfl rfl rfl rfl
    · exact h
  · exact h

theorem removeIfSame_call [DecidableEq K] :
    (s.removeIfSame k entry).call = s.call := by
  unfold removeIfSame
  split
  · split <;> rfl
  · rfl

theorem Orderly.join [DecidableEq K] (h : Orderly v s) (hcall : s.call c = .joining)
    (hkey : (v.item c).key = some k) :
    Orderly v (v.join s c k fails) := by
  have hearly : (s.call c).isEarly := by rw [hcall]; rfl
  have hfree : (s.call c).isFree := by rw [hcall]; rfl
  obtain ⟨hout, hleads, hunset⟩ := h.of_free hfree
  unfold Service.join
  split
  next leader hentry =>
    obtain ⟨hleader, hpoint⟩ := h.leads k leader hentry
    refine h.goto hout (fun k' hentry' => absurd hentry' (hleads k')) (fun leader' heq => ?_)
      (fun hnot => ?_) (fun result heq => nomatch heq) fun hset => ?_
    · cases heq
      refine ⟨?_, fun _ => ⟨k, hkey, hleader⟩⟩
      rcases hpoint with hwaiting | ⟨result, hreleasing⟩
      · exact h.known leader leader hwaiting
      · exact Or.inl (h.released leader result hreleasing)
    · rcases hnot with hnot | ⟨result, hnot⟩ <;> cases hnot
    · rw [hunset] at hset
      cases hset
  next hnone =>
    split
    · exact h.goto_early hearly (Or.inr (Or.inr rfl))
    · split
      · exact h.goto_early hearly (Or.inr (Or.inl ⟨_, rfl⟩))
      · split
        · exact h.goto_early hearly (Or.inr (Or.inr rfl))
        next hopen =>
          have heq : ({ s.enqueue c with inflight := update s.inflight k (some c) } :
              State K R) = { s.goto c (.waiting c) with
                queue := s.queue ++ [some c]
                inflight := update s.inflight k (some c) } := by
            rw [State.enqueue, if_neg hopen]
          rw [heq]
          refine h.enqueue hfree (Bool.eq_false_of_not_eq_true hopen) fun k' d => ?_
          by_cases hk : k' = k
          · subst hk
            rw [update_self, hkey, hnone]
            simp [eq_comm]
          · rw [update_of_ne hk, hkey]
            simp [Ne.symm hk]

/-- A call whose future has been set goes on. -/
theorem Orderly.wake (h : Orderly v s) (hcall : s.call c = .waiting leader)
    (hset : s.futures leader = some result) :
    Orderly v (v.wake s c leader result fails) := by
  unfold Service.wake
  split
  next heq =>
    subst heq
    have hsome : (s.futures leader).isSome := by rw [hset]; rfl
    split
    next k hkey =>
      refine h.goto (h.not_pending hsome) (fun k' _ => Or.inr ⟨result, rfl⟩)
        (fun leader' heq => nomatch heq) (fun _ => by rw [hkey]; rfl) (fun _ _ => hsome)
        fun _ => Or.inr (Or.inl ⟨result, rfl⟩)
    next hkey =>
      have hended :
          (if result.isSome then returned else .raised : CallPoint R).hasEnded := by
        split <;> rfl
      refine h.goto_ended (h.not_pending hsome) (fun k hentry => ?_) hended
      rw [(h.leads k leader hentry).1] at hkey
      cases hkey
  next hne =>
    have hwait : s.call c ≠ .waiting c := by
      rw [hcall]
      rintro ⟨⟩
      exact hne rfl
    have hout : c ∉ s.pending := h.not_pending_of_call hwait
    have hleads : ∀ k, s.inflight k ≠ some c := by
      intro k hentry
      rcases (h.leads k c hentry).2 with hnot | ⟨result', hnot⟩
      · exact hwait hnot
      · rw [hcall] at hnot
        cases hnot
    split
    · exact h.goto_ended hout hleads rfl
    next embedding =>
      split
      · have hattached : Orderly v (s.attach c embedding) := h.of_frame rfl rfl rfl rfl rfl rfl
        exact hattached.goto_ended hout hleads rfl
      · exact h.goto_ended hout hleads rfl

theorem Orderly.attach (h : Orderly v s) (hcall : s.call c = .attaching embedding)
    (hpoint : point.hasEnded) (hcalls : t.call = s.call) (hfutures : t.futures = s.futures)
    (hinflight : t.inflight = s.inflight) (hqueue : t.queue = s.queue)
    (hclosed : t.closed = s.closed) (hworker : t.worker = s.worker) :
    Orderly v (t.goto c point) := by
  have ht := h.of_frame hcalls hfutures hinflight hqueue hclosed hworker
  have hwait : t.call c ≠ .waiting c := by
    rw [hcalls, hcall]
    rintro ⟨⟩
  refine ht.goto_ended (ht.not_pending_of_call hwait) (fun k hentry => ?_) hpoint
  have hleads := (ht.leads k c hentry).2
  rw [hcalls, hcall] at hleads
  rcases hleads with hnot | ⟨result, hnot⟩ <;> cases hnot

/-- A leader takes its entry away and ends. -/
theorem Orderly.release [DecidableEq K] (h : Orderly v s) (hcall : s.call c = .releasing result)
    (hkey : (v.item c).key = some k) (hpoint : point.hasEnded) :
    Orderly v { s.goto c point with
      inflight :=
        if s.inflight k = some c then update s.inflight k none else s.inflight } := by
  have hwait : s.call c ≠ .waiting c := by
    rw [hcall]
    rintro ⟨⟩
  have hout : c ∉ s.pending := h.not_pending_of_call hwait
  have hentries (k' : K) (d : ℕ) : (if s.inflight k = some c then
      update s.inflight k none else s.inflight) k' = some d ↔ s.inflight k' = some d ∧ d ≠ c := by
    constructor
    · intro hentry
      split at hentry
      next hc =>
        by_cases hk : k' = k
        · subst hk
          rw [update_self] at hentry
          cases hentry
        · rw [update_of_ne hk] at hentry
          refine ⟨hentry, ?_⟩
          rintro rfl
          have hsame := (h.leads k' d hentry).1
          rw [hkey] at hsame
          cases hsame
          exact hk rfl
      next hc =>
        refine ⟨hentry, ?_⟩
        rintro rfl
        have hsame := (h.leads k' d hentry).1
        rw [hkey] at hsame
        cases hsame
        exact hc hentry
    · rintro ⟨hentry, hne⟩
      split
      next hc =>
        have hk : k' ≠ k := by
          rintro rfl
          rw [hc] at hentry
          cases hentry
          exact hne rfl
        rw [update_of_ne hk]
        exact hentry
      next => exact hentry
  -- first the entry, then the call
  have hfreed : Orderly v { s with
      inflight :=
        if s.inflight k = some c then update s.inflight k none else s.inflight } :=
    { h with
      entry := fun d hd k' hk' => (hentries k' d).mpr
        ⟨h.entry d hd k' hk', fun heq => hout (heq ▸ hd)⟩
      leads := fun k' d hd => h.leads k' d ((hentries k' d).mp hd).1 }
  exact hfreed.goto_ended hout (fun k' hentry => ((hentries k' c).mp hentry).2 rfl) hpoint

theorem Orderly.close (h : Orderly v s) (hopen : s.closed = false) :
    Orderly v { s with closed := true, queue := s.queue ++ [none] } := by
  have hpending : ({ s with closed := true, queue := s.queue ++ [none] } : State K R).pending =
      s.pending := by
    simp [pending, reduceOption_append]
  obtain ⟨calls, hqueue | ⟨hclosed, -⟩⟩ := h.tail
  · exact
      { h with
        nodup := hpending ▸ h.nodup
        waits := fun c hc => h.waits c (hpending ▸ hc)
        known := fun c leader hc => (h.known c leader hc).imp_right fun hmem => hpending ▸ hmem
        entry := fun c hc => h.entry c (hpending ▸ hc)
        tail := ⟨calls, Or.inr ⟨rfl, by rw [hqueue]⟩⟩
        down := fun hdown => by
          rw [(h.down hdown).1] at hopen
          cases hopen }
  · rw [hclosed] at hopen
    cases hopen

/-- The worker goes on: of the pending calls, those that it has done with have their futures. -/
theorem Orderly.of_worker (h : Orderly v s) (hcall : t.call = s.call)
    (hinflight : t.inflight = s.inflight) (hsub : t.pending.Sublist s.pending)
    (hdone : ∀ c ∈ s.pending, c ∉ t.pending → (t.futures c).isSome)
    (hkept : ∀ c, c ∉ s.pending ∨ c ∈ t.pending → t.futures c = s.futures c)
    (htail : ∃ calls : List ℕ, t.queue = calls.map some ∨
      t.closed ∧ t.queue = calls.map some ++ [none])
    (hdown : t.worker.isDown → t.closed ∧ t.queue = []) : Orderly v t where
  nodup := h.nodup.sublist hsub
  waits c hc := by
    rw [hcall, hkept c (Or.inr hc)]
    exact h.waits c (hsub.subset hc)
  known c leader hc := by
    rcases h.known c leader (hcall ▸ hc) with hset | hmem
    · rw [hkept leader (Or.inl (h.not_pending hset))]
      exact Or.inl hset
    · by_cases hleader : leader ∈ t.pending
      · exact Or.inr hleader
      · exact Or.inl (hdone leader hmem hleader)
  same c leader hc := h.same c leader (hcall ▸ hc)
  entry c hc k hk := by
    rw [hinflight]
    exact h.entry c (hsub.subset hc) k hk
  leads k c hc := by
    rw [hcall]
    exact h.leads k c (hinflight ▸ hc)
  keyed c hc := h.keyed c (hcall ▸ hc)
  released c result hc := by
    have hset := h.released c result (hcall ▸ hc)
    rw [hkept c (Or.inl (h.not_pending hset))]
    exact hset
  settled c hc := by
    rw [hcall]
    by_cases hmem : c ∈ s.pending
    · exact Or.inl (h.waits c hmem).1
    · rw [hkept c (Or.inl hmem)] at hc
      exact h.settled c hc
  tail := htail
  down := hdown

/-- The same, if the queue stays. -/
theorem Orderly.of_work (h : Orderly v s) (hcall : t.call = s.call)
    (hinflight : t.inflight = s.inflight) (hqueue : t.queue = s.queue)
    (hclosed : t.closed = s.closed) (hsub : t.worker.calls.Sublist s.worker.calls)
    (hdone : ∀ c ∈ s.worker.calls, c ∉ t.worker.calls → (t.futures c).isSome)
    (hkept : ∀ c, c ∉ s.worker.calls ∨ c ∈ t.worker.calls → t.futures c = s.futures c)
    (hdown : t.worker.isDown → s.worker.isDown) : Orderly v t := by
  have hnodup := h.nodup
  rw [pending] at hnodup
  refine h.of_worker hcall hinflight ?_ (fun c hc hnot => ?_) (fun c hc => ?_) ?_ fun ht => ?_
  · rw [pending, pending, hqueue]
    exact hsub.append_right _
  · rw [pending, hqueue, mem_append, not_or] at hnot
    exact hdone c ((mem_append.mp hc).resolve_right hnot.2) hnot.1
  · rcases hc with hout | hmem
    · exact hkept c (Or.inl fun hc => hout (mem_append_left _ hc))
    · rw [pending, hqueue] at hmem
      rcases mem_append.mp hmem with hworker | hwaits
      · exact hkept c (Or.inr hworker)
      · exact hkept c (Or.inl fun hc => disjoint_of_nodup_append hnodup hc hwaits)
  · rw [hqueue, hclosed]
    exact h.tail
  · rw [hclosed, hqueue]
    exact h.down (hdown ht)

theorem foldl_setFuture (calls : List ℕ) (result : Option (List R)) :
    ∀ s : State K R, (calls.foldl (fun s c => s.setFuture c result) s) = { s with
      futures := fun c => if c ∈ calls then some result else s.futures c } := by
  induction calls with
  | nil => simp
  | cons d calls ih =>
    intro s
    rw [foldl_cons, ih]
    simp only [setFuture, mk.injEq, true_and, and_true]
    funext c
    by_cases hc : c ∈ calls
    · simp [hc]
    · by_cases hd : c = d
      · subst hd
        simp [hc]
      · simp [hc, hd]

/-- Setting the futures of some calls to their parts changes no other ones. -/
theorem foldl_setParts (parts : List (ℕ × List R)) :
    ∀ s : State K R, ∃ futures,
      (parts.foldl (fun s part => s.setFuture part.1 (some part.2)) s) = { s with
        futures := futures } ∧
      (∀ c ∈ parts.map Prod.fst, ∃ embedding, (c, embedding) ∈ parts ∧
        futures c = some (some embedding)) ∧
      ∀ c, c ∉ parts.map Prod.fst → futures c = s.futures c := by
  induction parts with
  | nil => exact fun s => ⟨s.futures, rfl, by simp, fun _ _ => rfl⟩
  | cons part parts ih =>
    intro s
    obtain ⟨futures, heq, hset, hkept⟩ := ih (s.setFuture part.1 (some part.2))
    refine ⟨futures, heq, fun c hc => ?_, fun c hc => ?_⟩
    · by_cases hmem : c ∈ parts.map Prod.fst
      · obtain ⟨embedding, hpart, hvalue⟩ := hset c hmem
        exact ⟨embedding, mem_cons_of_mem _ hpart, hvalue⟩
      · have hc : c = part.1 := (mem_cons.mp hc).resolve_right hmem
        refine ⟨part.2, hc ▸ mem_cons_self .., ?_⟩
        rw [hkept c hmem, hc]
        exact update_self ..
    · rw [map_cons, mem_cons, not_or] at hc
      rw [hkept c hc.2]
      exact update_of_ne hc.1 _ _

/-- Attaching changes items only. -/
theorem attachAll_eq (parts : List (ℕ × List R)) :
    ∀ s : State K R, ∃ attached feature,
      s.attachAll parts = { s with attached := attached, feature := feature } := by
  induction parts with
  | nil => exact fun s => ⟨s.attached, s.feature, rfl⟩
  | cons part parts ih =>
    intro s
    obtain ⟨attached, feature, heq⟩ := ih (s.attach part.1 part.2)
    exact ⟨attached, feature, heq⟩

/-- A list of optional values that are all there is as long as the list they are taken of. -/
theorem length_of_mapM {α β : Type} {f : α → Option β} :
    ∀ {l : List α} {r : List β}, l.mapM f = some r → r.length = l.length
  | [], r, h => by
    rw [mapM_nil] at h
    cases h
    rfl
  | a :: l, r, h => by
    rw [mapM_cons] at h
    obtain ⟨b, -, hrest⟩ := Option.bind_eq_some_iff.mp h
    obtain ⟨bs, hbs, hr⟩ := Option.bind_eq_some_iff.mp hrest
    cases hr
    rw [length_cons, length_cons, length_of_mapM hbs]

/-- So does an encode, which gives a part for each item of the batch. -/
theorem encodeBatch_eq (v : Service A K R) (s : State K R) (batch : List ℕ) (outcome : Encode) :
    (∃ attached feature, (v.encodeBatch s batch outcome).1 =
      { s with attached := attached, feature := feature }) ∧
    ∀ parts, (v.encodeBatch s batch outcome).2 = some parts → parts.map Prod.fst = batch := by
  have hsame : ∃ attached feature, s = { s with attached := attached, feature := feature } :=
    ⟨s.attached, s.feature, rfl⟩
  cases outcome with
  | raises => exact ⟨hsame, fun parts h => nomatch h⟩
  | misshapen => exact ⟨hsame, fun parts h => nomatch h⟩
  | encodes raisesAfter =>
    simp only [Service.encodeBatch]
    split
    next rows counts _ hcounts =>
      have hlength : counts.length = batch.length := by
        exact length_of_mapM hcounts
      split
      · cases raisesAfter with
        | some n => exact ⟨attachAll_eq _ s, fun parts h => nomatch h⟩
        | none =>
          refine ⟨attachAll_eq _ s, fun parts h => ?_⟩
          rw [← Option.some.inj h]
          exact map_fst_zip (by rw [length_splitLengths, hlength])
      · exact ⟨hsame, fun parts h => nomatch h⟩
    · exact ⟨hsame, fun parts h => nomatch h⟩

theorem Orderly.fail (h : Orderly v s) {batch : List ℕ}
    (hcalls : s.worker.calls = WorkerPoint.calls (.encoding batch attempt shutdown : WorkerPoint R))
    (hdown : s.worker.isDown = shutdown) : Orderly v (s.fail batch shutdown attempt) := by
  cases attempt with
  | whole =>
    have hbatch : s.worker.calls = batch := hcalls
    simp only [fail]
    split
    next c =>
      refine h.of_work rfl rfl rfl rfl ?_ (fun d hd _ => ?_) (fun d hd => ?_) fun ht => ?_
      · cases shutdown <;> exact nil_sublist _
      · rw [hbatch] at hd
        rw [mem_singleton.mp hd]
        exact congrArg Option.isSome (update_self c (some none) s.futures)
      · rcases hd with hout | hin
        · rw [hbatch] at hout
          exact update_of_ne (fun heq => hout (mem_singleton.mpr heq)) _ _
        · cases shutdown <;> cases hin
      · rw [hdown]
        cases shutdown
        · cases ht
        · rfl
    · refine h.of_work rfl rfl rfl rfl ?_ (fun d hd hnot => ?_) (fun d _ => rfl) fun ht => ?_
      · rw [hbatch]
        exact List.Sublist.refl _
      · rw [hbatch] at hd
        exact absurd hd hnot
      · rw [hdown]
        exact ht
  | alone rest =>
    have hbatch : s.worker.calls = batch ++ rest := hcalls
    have hnodup : (batch ++ rest).Nodup := by
      have hall := h.nodup
      rw [pending, hbatch] at hall
      exact (nodup_append.mp hall).1
    unfold fail
    dsimp only
    rw [foldl_setFuture]
    refine h.of_work rfl rfl rfl rfl ?_ (fun d hd hnot => ?_) (fun d hd => ?_) fun ht => ?_
    · rw [hbatch]
      exact sublist_append_right ..
    · rw [hbatch] at hd
      have hin : d ∈ batch := (mem_append.mp hd).resolve_right hnot
      show (if d ∈ batch then some (none : Option (List R)) else s.futures d).isSome
      rw [if_pos hin]
      rfl
    · show (if d ∈ batch then some (none : Option (List R)) else s.futures d) = s.futures d
      refine if_neg fun hin => ?_
      rcases hd with hout | hrest
      · rw [hbatch] at hout
        exact hout (mem_append_left _ hin)
      · exact disjoint_of_nodup_append hnodup hin hrest
    · rw [hdown]
      exact ht

/-- A batch that has been encoded and stored. -/
theorem Orderly.succeed (h : Orderly v s)
    (hworker : s.worker = .storing [] parts attempt shutdown) :
    Orderly v (s.succeed parts shutdown attempt) := by
  cases attempt with
  | whole =>
    refine h.of_work rfl rfl rfl rfl ?_ (fun d hd hnot => ?_) (fun d _ => rfl) fun ht => ?_
    · rw [hworker]
      exact List.Sublist.refl _
    · rw [hworker] at hd
      exact absurd hd hnot
    · rw [hworker]
      exact ht
  | alone rest =>
    have hcalls : s.worker.calls = parts.map Prod.fst ++ rest := by rw [hworker]; rfl
    have hnodup : (parts.map Prod.fst ++ rest).Nodup := by
      have hall := h.nodup
      rw [pending, hcalls] at hall
      exact (nodup_append.mp hall).1
    obtain ⟨futures, heq, hset, hkept⟩ := foldl_setParts parts s
    unfold succeed
    dsimp only
    rw [heq]
    refine h.of_work rfl rfl rfl rfl ?_ (fun d hd hnot => ?_) (fun d hd => ?_) fun ht => ?_
    · rw [hcalls]
      exact sublist_append_right ..
    · rw [hcalls] at hd
      obtain ⟨embedding, -, hvalue⟩ := hset d ((mem_append.mp hd).resolve_right hnot)
      show (futures d).isSome
      rw [hvalue]
      rfl
    · refine hkept d fun hin => ?_
      rcases hd with hout | hrest
      · rw [hcalls] at hout
        exact hout (mem_append_left _ hin)
      · exact disjoint_of_nodup_append hnodup hin hrest
    · rw [hworker]
      exact ht

/-- A request is taken from the queue into the hands of the worker. -/
theorem Orderly.take (h : Orderly v s) {point : WorkerPoint R} (hqueue : s.queue = some c :: rest)
    (hcalls : point.calls = s.worker.calls ++ [c]) (hdown : point.isDown = false) :
    Orderly v { s with queue := rest, worker := point } := by
  have hpending : ({ s with queue := rest, worker := point } : State K R).pending = s.pending := by
    rw [pending, pending, hqueue, hcalls, reduceOption_cons_of_some, append_assoc, singleton_append]
  refine h.of_worker rfl rfl (hpending ▸ List.Sublist.refl _) (fun d hd hnot => ?_)
    (fun _ _ => rfl) ?_ fun ht => ?_
  · exact absurd (hpending ▸ hd) hnot
  · obtain ⟨calls, hcase⟩ := h.tail
    rw [hqueue] at hcase
    cases calls with
    | nil => rcases hcase with heq | ⟨-, heq⟩ <;> simp at heq
    | cons d calls =>
      refine ⟨calls, hcase.imp (fun heq => ?_) (And.imp_right fun heq => ?_)⟩
      · exact (List.cons.inj heq).2
      · exact (List.cons.inj heq).2
  · have ht' : point.isDown = true := ht
    rw [hdown] at ht'
    cases ht'

/-- `_SHUTDOWN` is taken from the queue. -/
theorem Orderly.shut (h : Orderly v s) {point : WorkerPoint R} (hqueue : s.queue = none :: rest)
    (hcalls : point.calls = s.worker.calls) :
    Orderly v { s with queue := rest, worker := point } := by
  have hlast : s.closed ∧ rest = [] := by
    obtain ⟨calls, hcase⟩ := h.tail
    rw [hqueue] at hcase
    cases calls with
    | nil => exact hcase.elim (fun heq => nomatch heq) fun hc => ⟨hc.1, (List.cons.inj hc.2).2⟩
    | cons d calls => exact hcase.elim (fun heq => nomatch heq) fun hc => nomatch hc.2
  obtain ⟨hclosed, rfl⟩ := hlast
  have hpending : ({ s with queue := [], worker := point } : State K R).pending = s.pending := by
    rw [pending, pending, hqueue, hcalls, reduceOption_cons_of_none]
  refine h.of_worker rfl rfl (hpending ▸ List.Sublist.refl _) (fun d hd hnot => ?_)
    (fun _ _ => rfl) ⟨[], Or.inl rfl⟩ fun _ => ⟨hclosed, rfl⟩
  exact absurd (hpending ▸ hd) hnot

theorem Orderly.work (h : Orderly v s) {point : WorkerPoint R}
    (hcalls : point.calls = s.worker.calls) (hdown : point.isDown → s.worker.isDown) :
    Orderly v (s.work point) := by
  refine h.of_work rfl rfl rfl rfl ?_ (fun d hd hnot => ?_) (fun _ _ => rfl) hdown
  · exact hcalls ▸ List.Sublist.refl _
  · exact absurd (hcalls ▸ hd) hnot

theorem Orderly.encode [DecidableEq K] (h : Orderly v s) {outcome : Encode}
    (hworker : s.worker = .encoding batch attempt shutdown)
    {s' : State K R} {parts : Option (List (ℕ × List R))}
    (hencode : v.encodeBatch s batch outcome = (s', parts)) :
    Orderly v s' ∧ s'.worker = .encoding batch attempt shutdown ∧
      ∀ done, parts = some done → done.map Prod.fst = batch := by
  obtain ⟨⟨attached, feature, hstate⟩, hparts⟩ := encodeBatch_eq v s batch outcome
  rw [hencode] at hstate hparts
  obtain rfl : s' = _ := hstate
  exact ⟨h.of_frame rfl rfl rfl rfl rfl rfl, hworker, hparts⟩

theorem Orderly.store [DecidableEq K] (h : Orderly v s) {outcome : Store}
    (hworker : s.worker = .storing todo parts attempt shutdown) :
    Orderly v (v.store s todo parts attempt shutdown outcome) := by
  unfold Service.store
  split
  · exact h.succeed hworker
  next c embedding rest =>
    have hgoes {s' : State K R} (h' : Orderly v s')
        (hw : s'.worker = .storing ((c, embedding) :: rest) parts attempt shutdown) :
        Orderly v (s'.work (.storing rest parts attempt shutdown)) := by
      refine h'.work ?_ fun hd => ?_
      · rw [hw]
        cases attempt <;> rfl
      · rw [hw]
        exact hd
    split
    · exact hgoes h hworker
    next k _ =>
      have hput : Orderly v (s.put k embedding) := h.of_frame rfl rfl rfl rfl rfl rfl
      exact hgoes hput hworker
    next k drops _ =>
      have hdropped : Orderly v { s with
          cache := if drops then update s.cache k none else s.cache } :=
        h.of_frame rfl rfl rfl rfl rfl rfl
      refine hdropped.fail ?_ ?_
      · change s.worker.calls = _
        rw [hworker]
        cases attempt <;> rfl
      · change s.worker.isDown = _
        rw [hworker]
        rfl

theorem Orderly.next (h : Orderly v s) (hcalls : s.worker.calls = [])
    (hdown : s.worker.isDown = shutdown) : Orderly v (s.next shutdown) := by
  refine h.work ?_ fun hd => ?_
  · rw [hcalls]
    cases shutdown <;> rfl
  · rw [hdown]
    cases shutdown
    · cases hd
    · rfl

theorem Orderly.deliver (h : Orderly v s) {rest : List (ℕ × List R)}
    (hworker : s.worker = .delivering ((c, embedding) :: rest) shutdown) :
    Orderly v ((s.setFuture c (some embedding)).work (.delivering rest shutdown)) := by
  have hcalls : s.worker.calls = c :: rest.map Prod.fst := by rw [hworker]; rfl
  have hnodup : (c :: rest.map Prod.fst).Nodup := by
    have hall := h.nodup
    rw [pending, hcalls] at hall
    exact (nodup_append.mp hall).1
  refine h.of_work rfl rfl rfl rfl ?_ (fun d hd hnot => ?_) (fun d hd => ?_) fun ht => ?_
  · rw [hcalls]
    exact sublist_cons_self ..
  · rw [hcalls] at hd
    have hself : d = c := (mem_cons.mp hd).resolve_right hnot
    subst hself
    exact congrArg Option.isSome (update_self d (some (some embedding)) s.futures)
  · refine update_of_ne ?_ _ _
    rintro rfl
    rcases hd with hout | hrest
    · rw [hcalls] at hout
      exact hout (mem_cons_self ..)
    · exact (nodup_cons.mp hnodup).1 hrest
  · rw [hworker]
    exact ht

/-- Every step keeps the order. -/
theorem Orderly.step [DecidableEq K] (h : Orderly v s) (hstep : step v s a = some t) :
    Orderly v t := by
  cases moves_of_step hstep with
  | start hcall => exact h.start hcall
  | lookup hcall =>
    split
    · exact h.goto_early (by rw [hcall]; rfl) (Or.inr (Or.inr rfl))
    · exact h.lookup hcall
  | discard hcall =>
    split
    · exact h.goto_early (by rw [hcall]; rfl) (Or.inr (Or.inr rfl))
    · refine h.removeIfSame.goto_early ?_ (Or.inl rfl)
      rw [removeIfSame_call, hcall]
      rfl
  | join hcall hkey => exact h.join hcall hkey
  | attach hcall =>
    split
    · exact h.attach hcall rfl rfl rfl rfl rfl rfl rfl
    · exact h.attach hcall rfl rfl rfl rfl rfl rfl rfl
  | wake hcall hset => exact h.wake hcall hset
  | release hcall hkey => exact h.release hcall hkey (by split <;> rfl)
  | closed => exact h
  | close hopen => exact h.close (Bool.eq_false_of_not_eq_true hopen)
  | evict => exact h.of_frame rfl rfl rfl rfl rfl rfl
  | take hworker hqueue => exact h.take hqueue (by rw [hworker]; rfl) rfl
  | takeLast hworker hqueue => exact h.shut hqueue (by rw [hworker]; rfl)
  | more hworker hqueue => exact h.take hqueue (by rw [hworker]; rfl) rfl
  | moreLast hworker hqueue => exact h.shut hqueue (by rw [hworker]; rfl)
  | go hworker => exact h.work (by rw [hworker]; rfl) fun hd => nomatch hd
  | @encode _ _ attempt _ _ parts hworker hencode =>
    obtain ⟨h', hworker', hparts⟩ := h.encode hworker hencode
    refine h'.work ?_ fun hd => ?_
    · rw [hworker', ← hparts parts rfl]
      cases attempt <;> rfl
    · rw [hworker']
      exact hd
  | encodeFails hworker hencode =>
    obtain ⟨h', hworker', -⟩ := h.encode hworker hencode
    exact h'.fail (by rw [hworker']) (by rw [hworker']; rfl)
  | store hworker => exact h.store hworker
  | delivered hworker => exact h.next (by rw [hworker]; rfl) (by rw [hworker]; rfl)
  | deliver hworker => exact h.deliver hworker
  | retried hworker => exact h.next (by rw [hworker]; rfl) (by rw [hworker]; rfl)
  | retry hworker =>
    refine h.work ?_ fun hd => ?_
    · rw [hworker]
      rfl
    · rw [hworker]
      exact hd

/-- A caller's step leaves the worker alone, the futures, and the calls that are not its own. -/
structure Beside (s t : State K R) (own : ℕ → Bool) : Prop where
  worker : t.worker = s.worker
  futures : t.futures = s.futures
  queue : ∃ added, t.queue = s.queue ++ added
  others : ∀ d, own d = false → t.call d = s.call d

theorem Beside.refl (s : State K R) (own : ℕ → Bool) : Beside s s own :=
  ⟨rfl, rfl, ⟨[], (append_nil _).symm⟩, fun _ _ => rfl⟩

theorem Beside.goto (h : Beside s t own) (hown : own c) (point : CallPoint R) :
    Beside s (t.goto c point) own := { h with
  others d hd := by
    have hne : d ≠ c := by
      rintro rfl
      rw [hown] at hd
      cases hd
    exact (update_of_ne hne _ _).trans (h.others d hd) }

theorem Beside.enqueue (hown : own c) : Beside s (s.enqueue c) own := by
  have hgoto := (refl s own).goto hown (.waiting c)
  unfold State.enqueue
  split
  · exact (refl s own).goto hown _
  · exact ⟨rfl, rfl, ⟨_, rfl⟩, hgoto.others⟩

theorem Beside.start (hown : own c) : Beside s (v.start s c) own := by
  unfold Service.start
  split
  · exact (refl s own).goto hown _
  · exact enqueue hown
  · exact (refl s own).goto hown _

theorem Beside.lookup [DecidableEq K] (hown : own c) :
    Beside s (v.lookup s c k) own := by
  unfold Service.lookup
  split
  · exact (refl s own).goto hown _
  · split <;> exact (refl s own).goto hown _

theorem Beside.removeIfSame [DecidableEq K] (own : ℕ → Bool) :
    Beside s (s.removeIfSame k entry) own := by
  unfold State.removeIfSame
  split
  · split
    · exact ⟨rfl, rfl, ⟨[], (append_nil _).symm⟩, fun _ _ => rfl⟩
    · exact refl s own
  · exact refl s own

theorem Beside.join [DecidableEq K] (hown : own c) : Beside s (v.join s c k fails) own := by
  have hqueued : Beside s (s.enqueue c) own := enqueue hown
  unfold Service.join
  split
  · exact (refl s own).goto hown _
  · split
    · exact (refl s own).goto hown _
    · split
      · exact (refl s own).goto hown _
      · split
        · exact (refl s own).goto hown _
        · exact { hqueued with }

theorem Beside.attach (hown : own c) (point : CallPoint R) :
    Beside s ((s.attach c embedding).goto c point) own := by
  have hattach : Beside s (s.attach c embedding) own :=
    ⟨rfl, rfl, ⟨[], (append_nil _).symm⟩, fun _ _ => rfl⟩
  exact hattach.goto hown point

theorem Beside.wake (hown : own c) :
    Beside s (v.wake s c leader result fails) own := by
  unfold Service.wake
  split
  · split <;> exact (refl s own).goto hown _
  · split
    · exact (refl s own).goto hown _
    · split
      · exact attach hown _
      · exact (refl s own).goto hown _

theorem beside_step [DecidableEq K] (hcaller : a.ofWorker = false) (hstep : step v s a = some t) :
    Beside s t fun d => a.ofCall d := by
  have hgoto {c : ℕ} {point : CallPoint R} (hown : a.ofCall c = true) :
      Beside s (s.goto c point) fun d => a.ofCall d := (Beside.refl s _).goto hown point
  cases moves_of_step hstep with
  | start => exact Beside.start (decide_eq_true rfl)
  | lookup =>
    split
    · exact hgoto (decide_eq_true rfl)
    · exact Beside.lookup (decide_eq_true rfl)
  | discard =>
    split
    · exact hgoto (decide_eq_true rfl)
    · exact (Beside.removeIfSame _).goto (decide_eq_true rfl) _
  | join => exact Beside.join (decide_eq_true rfl)
  | attach =>
    split
    · exact hgoto (decide_eq_true rfl)
    · exact Beside.attach (decide_eq_true rfl) _
  | wake => exact Beside.wake (decide_eq_true rfl)
  | @release c result =>
    have hended : Beside s (s.goto c (if result.isSome then .returned else .raised))
        fun d => (Action.release c : Action K).ofCall d := hgoto (decide_eq_true rfl)
    exact ⟨rfl, rfl, hended.queue, hended.others⟩
  | closed => exact Beside.refl s _
  | close => exact ⟨rfl, rfl, ⟨_, rfl⟩, fun _ _ => rfl⟩
  | evict => exact ⟨rfl, rfl, ⟨[], (append_nil _).symm⟩, fun _ _ => rfl⟩
  | _ => cases hcaller

/-- A step of the worker leaves the calls alone, and the futures that have been set. -/
structure Behind (s t : State K R) : Prop where
  call : t.call = s.call
  futures : ∀ c, (s.futures c).isSome → (t.futures c).isSome

theorem Behind.refl (s : State K R) : Behind s s := ⟨rfl, fun _ hset => hset⟩

theorem Behind.work (h : Behind s t) (point : WorkerPoint R) : Behind s (t.work point) :=
  ⟨h.call, h.futures⟩

theorem Behind.next (h : Behind s t) (shutdown : Bool) : Behind s (t.next shutdown) := h.work _

theorem Behind.setFuture (h : Behind s t) (c : ℕ) (result : Option (List R)) :
    Behind s (t.setFuture c result) where
  call := h.call
  futures d hd := by
    by_cases hne : d = c
    · subst hne
      exact congrArg Option.isSome (update_self d (some result) t.futures)
    · exact (congrArg Option.isSome (update_of_ne hne (some result) t.futures)).trans
        (h.futures d hd)

theorem Behind.fail (h : Behind s t) (batch : List ℕ) (shutdown : Bool) (attempt : Attempt) :
    Behind s (t.fail batch shutdown attempt) := by
  cases attempt with
  | whole =>
    unfold State.fail
    dsimp only
    split
    · exact (h.setFuture _ none).next shutdown
    · exact h.work _
  | alone rest =>
    have hfold : ∀ (calls : List ℕ) (t : State K R), Behind s t →
        Behind s (calls.foldl (fun s c => s.setFuture c none) t) := by
      intro calls
      induction calls with
      | nil => exact fun t h => h
      | cons c calls ih => exact fun t h => ih _ (h.setFuture c none)
    exact (hfold batch t h).work _

theorem Behind.succeed (h : Behind s t) (parts : List (ℕ × List R)) (shutdown : Bool)
    (attempt : Attempt) : Behind s (t.succeed parts shutdown attempt) := by
  cases attempt with
  | whole => exact h.work _
  | alone rest =>
    have hfold : ∀ (parts : List (ℕ × List R)) (t : State K R), Behind s t →
        Behind s (parts.foldl (fun s part => s.setFuture part.1 (some part.2)) t) := by
      intro parts
      induction parts with
      | nil => exact fun t h => h
      | cons part parts ih => exact fun t h => ih _ (h.setFuture part.1 (some part.2))
    exact (hfold parts t h).work _

theorem Behind.store [DecidableEq K] {todo : List (ℕ × List R)} :
    Behind s (v.store s todo parts attempt shutdown outcome) := by
  unfold Service.store
  split
  · exact (Behind.refl s).succeed parts shutdown attempt
  · split
    · exact (Behind.refl s).work _
    · exact ⟨rfl, fun _ hset => hset⟩
    next k drops _ =>
      have hdropped : Behind s { s with
          cache := if drops then update s.cache k none else s.cache } :=
        ⟨rfl, fun _ hset => hset⟩
      exact hdropped.fail _ _ _

theorem behind_step [DecidableEq K] (hworker : a.ofWorker = true) (hstep : step v s a = some t) :
    Behind s t := by
  have hencoded {outcome : Encode} {batch : List ℕ} {s' : State K R}
      {parts : Option (List (ℕ × List R))}
      (hencode : v.encodeBatch s batch outcome = (s', parts)) : Behind s s' := by
    obtain ⟨⟨attached, feature, hstate⟩, -⟩ := encodeBatch_eq v s batch outcome
    rw [hencode] at hstate
    obtain rfl : s' = _ := hstate
    exact ⟨rfl, fun _ hset => hset⟩
  cases moves_of_step hstep with
  | take => exact ⟨rfl, fun _ hset => hset⟩
  | takeLast => exact ⟨rfl, fun _ hset => hset⟩
  | more => exact ⟨rfl, fun _ hset => hset⟩
  | moreLast => exact ⟨rfl, fun _ hset => hset⟩
  | go => exact (Behind.refl s).work _
  | encode _ hencode => exact (hencoded hencode).work _
  | encodeFails _ hencode => exact (hencoded hencode).fail _ _ _
  | store => exact Behind.store
  | delivered => exact (Behind.refl s).next _
  | deliver => exact ((Behind.refl s).setFuture _ _).work _
  | retried => exact (Behind.refl s).next _
  | retry => exact (Behind.refl s).work _
  | _ => cases hworker

end Omni.Asr
