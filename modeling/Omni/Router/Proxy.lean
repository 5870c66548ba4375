import Mathlib.Data.List.Basic
import Omni.Library.Transition

/-!
# Requests that the router forwards

`forward_model_request` of `sglang_omni_router/proxy.py` admits a request, counts it at a worker,
and sends it there. A response is relayed by `_RelayResponse`, whose body is the iterator
`iter_bytes`. The slot and the count are given back where the request ends, by the handler or by
`_RelayCleanup`. A response that the handler returns is called by the server.
-/

namespace Omni.Router

open Transition Function List

/-- What a request does to `AdmissionController` and to `Worker.active_requests`. -/
inductive CountCall
  | acquire | release | increment | decrement
  deriving DecidableEq

/-- How a request has left the proxy. -/
inductive Exit
  | rejected
  /-- Answered, or an exception, before a worker is chosen. -/
  | unrouted
  /-- `httpx.HTTPError` while sending. -/
  | upstreamError
  /-- Any other exception while sending, or a cancellation. -/
  | sendRaised
  /-- The headers raised, and `aclose` returned. -/
  | headerError
  /-- The headers raised, and `aclose` raised or was cancelled. -/
  | closeRaised
  /-- The constructor of `_RelayResponse` raised. -/
  | responseRaised
  | relayed
  deriving DecidableEq

/-- Where a request is. -/
inductive ProxyPoint
  /-- `_forward_admitted`, before a worker is chosen. -/
  | admitted
  /-- `client.send`. -/
  | sending
  /-- `aclose` after the headers have raised. -/
  | closing
  /-- `__call__` of the response, before and after the body iterator has been started. -/
  | relaying (started : Bool)
  /-- `aclose` in `_RelayCleanup`, called by the body iterator or by `__call__`. -/
  | cleaning (inBody : Bool)
  /-- The body iterator has ended, `__call__` has not. -/
  | unwinding
  | finished (exit : Exit)
  deriving DecidableEq

/-- What happens to a request. -/
inductive ProxyEvent
  /-- A response is returned before a worker is chosen. -/
  | respond
  /-- An await raises, or is cancelled. -/
  | raise
  /-- A worker is chosen and the request is sent. -/
  | forward (w : ℕ)
  | httpError
  /-- The response headers arrive, and the response is built. -/
  | upstream
  /-- The response headers arrive, and filtering them raises. -/
  | headerError
  /-- The response headers arrive, and the constructor of `_RelayResponse` raises. -/
  | responseError
  /-- `aclose` returns. -/
  | closed
  /-- The body iterator is started. -/
  | start
  /-- The body iterator ends, raises or is cancelled. -/
  | endBody
  /-- `StreamingResponse.__call__` returns or raises. -/
  | leave
  /-- The response and the body iterator are collected. -/
  | collect
  deriving DecidableEq

/-- A request, with the flags of `_ReleaseOnce` and `_RelayCleanup`, and the calls it has made. -/
structure Proxied where
  point : ProxyPoint
  worker : ℕ
  released : Bool
  cleaned : Bool
  calls : List CountCall
  deriving DecidableEq

namespace Proxied

/-- A call. -/
def note (q : Proxied) (call : CountCall) : Proxied := { q with calls := q.calls ++ [call] }

/-- `_ReleaseOnce.__call__`. -/
def release (q : Proxied) : Proxied :=
  if q.released then q else { q.note .release with released := true }

/-- `_RelayCleanup.__call__` up to its await, and where a call that finds it done goes on. -/
def cleanup (q : Proxied) (inBody : Bool) (after : ProxyPoint) : Proxied :=
  if q.cleaned then { q with point := after }
  else { q with cleaned := true, point := .cleaning inBody }

/-- The request ends. -/
def finish (q : Proxied) (exit : Exit) : Proxied := { q with point := .finished exit }

/-- An event. -/
def next (q : Proxied) (event : ProxyEvent) : Option Proxied :=
  match q.point, event with
  | .admitted, .respond => some (q.release.finish .unrouted)
  | .admitted, .raise => some (q.release.finish .unrouted)
  | .admitted, .forward w =>
    some { ({ q with worker := w }.note .increment) with point := .sending }
  | .sending, .httpError => some ((q.note .decrement).release.finish .upstreamError)
  | .sending, .raise => some (q.release.finish .sendRaised)
  | .sending, .upstream => some { q with point := .relaying false }
  | .sending, .headerError => some { q with point := .closing }
  | .sending, .responseError => some (q.release.finish .responseRaised)
  | .closing, .closed => some ((q.note .decrement).release.finish .headerError)
  | .closing, .raise => some (q.release.finish .closeRaised)
  | .relaying false, .start => some { q with point := .relaying true }
  | .relaying true, .endBody => some (q.cleanup true .unwinding)
  | .relaying _, .leave => some (q.cleanup false (.finished .relayed))
  | .cleaning true, .closed => some { (q.note .decrement).release with point := .unwinding }
  | .cleaning true, .raise => some { (q.note .decrement).release with point := .unwinding }
  | .cleaning false, .closed => some ((q.note .decrement).release.finish .relayed)
  | .cleaning false, .raise => some ((q.note .decrement).release.finish .relayed)
  | .unwinding, .leave => some (q.cleanup false (.finished .relayed))
  | .finished .relayed, .collect => some (q.release.cleanup true (.finished .relayed))
  | _, _ => none

end Proxied

/-- `ProxyHandler` with its `AdmissionController`, the counters of the workers, and all requests.
It is noted if an assertion on a counter has failed. -/
structure ProxyHandler where
  maxInflight : ℕ
  inflight : ℕ
  activeRequests : ℕ → ℕ
  assertionFailed : Bool
  requests : List Proxied

namespace ProxyHandler

/-- Before the first request. -/
def init (maxInflight : ℕ) : ProxyHandler := ⟨maxInflight, 0, fun _ => 0, false, []⟩

/-- A call that a request makes for its worker. -/
def perform (w : ℕ) (s : ProxyHandler) : CountCall → ProxyHandler
  | .acquire => { s with inflight := s.inflight + 1 }
  | .release =>
    { s with
      inflight := s.inflight - 1, assertionFailed := s.assertionFailed || s.inflight = 0 }
  | .increment =>
    { s with activeRequests := update s.activeRequests w (s.activeRequests w + 1) }
  | .decrement =>
    { s with
      activeRequests := update s.activeRequests w (s.activeRequests w - 1)
      assertionFailed := s.assertionFailed || s.activeRequests w = 0 }

/-- A request arrives: `try_acquire`. -/
def arrive (s : ProxyHandler) : ProxyHandler :=
  if s.maxInflight ≤ s.inflight then
    { s with requests := s.requests ++ [⟨.finished .rejected, 0, false, false, []⟩] }
  else
    { s.perform 0 .acquire with
      requests := s.requests ++ [⟨.admitted, 0, false, false, [.acquire]⟩] }

/-- A step: a request arrives, or something happens to one. -/
def step (s : ProxyHandler) : Option (ℕ × ProxyEvent) → Option ProxyHandler
  | none => some s.arrive
  | some (k, event) =>
    s.requests[k]?.bind fun q => (q.next event).map fun q' =>
      { (q'.calls.drop q.calls.length).foldl (perform q'.worker) s with
        requests := s.requests.set k q' }

end ProxyHandler

/-- The calls that a request has made when it is at a point. -/
def callsAt : ProxyPoint → List CountCall
  | .admitted => [.acquire]
  | .sending | .closing | .relaying _ | .cleaning _ => [.acquire, .increment]
  | .unwinding => [.acquire, .increment, .decrement, .release]
  | .finished .rejected => []
  | .finished .unrouted => [.acquire, .release]
  | .finished .sendRaised | .finished .closeRaised | .finished .responseRaised =>
    [.acquire, .increment, .release]
  | .finished .upstreamError | .finished .headerError | .finished .relayed =>
    [.acquire, .increment, .decrement, .release]

/-- `_RelayCleanup` has been called. -/
def cleanedAt : ProxyPoint → Bool
  | .cleaning _ | .unwinding | .finished .relayed => true
  | _ => false

/-- A request at a point, with the calls and flags that belong there. -/
def Proxied.ofPoint (point : ProxyPoint) (worker : ℕ) : Proxied :=
  ⟨point, worker, decide (CountCall.release ∈ callsAt point), cleanedAt point, callsAt point⟩

/-- The request holds a slot. -/
def Proxied.holdsSlot (q : Proxied) : Bool :=
  CountCall.acquire ∈ q.calls ∧ CountCall.release ∉ q.calls

/-- The request counts at some worker. -/
def Proxied.counts (q : Proxied) : Bool :=
  CountCall.increment ∈ q.calls ∧ CountCall.decrement ∉ q.calls

/-- The request counts at a worker. -/
def Proxied.holdsWorker (w : ℕ) (q : Proxied) : Bool := q.worker = w ∧ q.counts = true

/-- The exits at which the count of the worker is not given back. -/
def Exit.Leaks : Exit → Prop
  | .sendRaised | .closeRaised | .responseRaised => True
  | _ => False

instance (exit : Exit) : Decidable exit.Leaks :=
  match exit with
  | .sendRaised | .closeRaised | .responseRaised => inferInstanceAs (Decidable True)
  | .rejected | .unrouted | .upstreamError | .headerError | .relayed =>
    inferInstanceAs (Decidable False)

/-- What an event makes of a request: it goes on without a call, it is counted at a worker, it gives
its slot back, or first the count and then the slot. -/
inductive Moves (q : Proxied) : Proxied → Prop
  | goes {point : ProxyPoint} (hslot : (Proxied.ofPoint point q.worker).holdsSlot = q.holdsSlot)
      (hcounts : (Proxied.ofPoint point q.worker).counts = q.counts)
      (hcalls : callsAt point = q.calls) : Moves q (.ofPoint point q.worker)
  | counted (w : ℕ) (hslot : q.holdsSlot = true) (hcounts : q.counts = false)
      (hcalls : callsAt .sending = q.calls ++ [.increment]) : Moves q (.ofPoint .sending w)
  | released {point : ProxyPoint} (hslot : q.holdsSlot = true)
      (hslot' : (Proxied.ofPoint point q.worker).holdsSlot = false)
      (hcounts : (Proxied.ofPoint point q.worker).counts = q.counts)
      (hcalls : callsAt point = q.calls ++ [.release]) : Moves q (.ofPoint point q.worker)
  | settled {point : ProxyPoint} (hslot : q.holdsSlot = true)
      (hslot' : (Proxied.ofPoint point q.worker).holdsSlot = false) (hcounts : q.counts = true)
      (hcounts' : (Proxied.ofPoint point q.worker).counts = false)
      (hcalls : callsAt point = q.calls ++ [.decrement, .release]) :
      Moves q (.ofPoint point q.worker)

variable {q q' : Proxied} {event : ProxyEvent} {s t : ProxyHandler} {point : ProxyPoint} {w : ℕ}

theorem Proxied.next_moves (hnext : (Proxied.ofPoint point w).next event = some q') :
    Moves (.ofPoint point w) q' := by
  cases point with
  | admitted =>
    cases event with
    | respond => cases hnext; exact .released rfl rfl rfl rfl
    | raise => cases hnext; exact .released rfl rfl rfl rfl
    | forward w' => cases hnext; exact .counted w' rfl rfl rfl
    | _ => cases hnext
  | sending =>
    cases event with
    | httpError => cases hnext; exact .settled rfl rfl rfl rfl rfl
    | raise => cases hnext; exact .released rfl rfl rfl rfl
    | upstream => cases hnext; exact .goes rfl rfl rfl
    | headerError => cases hnext; exact .goes rfl rfl rfl
    | responseError => cases hnext; exact .released rfl rfl rfl rfl
    | _ => cases hnext
  | closing =>
    cases event with
    | closed => cases hnext; exact .settled rfl rfl rfl rfl rfl
    | raise => cases hnext; exact .released rfl rfl rfl rfl
    | _ => cases hnext
  | relaying started =>
    cases started with
    | false =>
      cases event with
      | start => cases hnext; exact .goes rfl rfl rfl
      | leave => cases hnext; exact .goes rfl rfl rfl
      | _ => cases hnext
    | true =>
      cases event with
      | endBody => cases hnext; exact .goes rfl rfl rfl
      | leave => cases hnext; exact .goes rfl rfl rfl
      | _ => cases hnext
  | cleaning inBody =>
    cases inBody with
    | false =>
      cases event with
      | closed => cases hnext; exact .settled rfl rfl rfl rfl rfl
      | raise => cases hnext; exact .settled rfl rfl rfl rfl rfl
      | _ => cases hnext
    | true =>
      cases event with
      | closed => cases hnext; exact .settled rfl rfl rfl rfl rfl
      | raise => cases hnext; exact .settled rfl rfl rfl rfl rfl
      | _ => cases hnext
  | unwinding =>
    cases event with
    | leave => cases hnext; exact .goes rfl rfl rfl
    | _ => cases hnext
  | finished exit =>
    cases exit with
    | relayed =>
      cases event with
      | collect => cases hnext; exact .goes rfl rfl rfl
      | _ => cases hnext
    | _ => cases event <;> cases hnext

/-- Replacing an element changes a count by what it counts for. -/
theorem countP_set_add {α : Type*} {p : α → Bool} {l : List α} {k : ℕ} {a b : α}
    (ha : l[k]? = some a) :
    (l.set k b).countP p + (p a).toNat = l.countP p + (p b).toNat := by
  induction l generalizing k with
  | nil => simp at ha
  | cons c l ih =>
    cases k with
    | zero =>
      obtain rfl : c = a := by simpa using ha
      simp only [set_cons_zero, countP_cons]
      cases p c <;> cases p b <;> simp
    | succ k =>
      have hrest := ih (k := k) (by simpa using ha)
      simp only [set_cons_succ, countP_cons]
      omega

/-- The counters are the numbers of requests that hold a slot or count at a worker, and no assertion
has failed. -/
structure Accounted (s : ProxyHandler) : Prop where
  requests : ∀ q ∈ s.requests, q = .ofPoint q.point q.worker
  inflight : s.inflight = s.requests.countP Proxied.holdsSlot
  active : ∀ w, s.activeRequests w = s.requests.countP (Proxied.holdsWorker w)
  asserted : s.assertionFailed = false
  bounded : s.inflight ≤ s.maxInflight

theorem accounted_init (maxInflight : ℕ) : Accounted (.init maxInflight) where
  requests _ hq := absurd hq not_mem_nil
  inflight := rfl
  active _ := rfl
  asserted := rfl
  bounded := Nat.zero_le _

theorem Accounted.arrive (h : Accounted s) : Accounted s.arrive := by
  have hmem (point : ProxyPoint) : ∀ q ∈ s.requests ++ [Proxied.ofPoint point 0],
      q = .ofPoint q.point q.worker := by
    intro q hq
    rcases mem_append.mp hq with hold | hlast
    · exact h.requests q hold
    · rw [mem_singleton.mp hlast]
      rfl
  unfold ProxyHandler.arrive
  split
  · refine ⟨hmem (.finished .rejected), ?_, fun w => ?_, h.asserted, h.bounded⟩
    · rw [countP_append]
      exact h.inflight
    · rw [countP_append]
      have hnot : List.countP (Proxied.holdsWorker w)
          [⟨.finished .rejected, 0, false, false, []⟩] = 0 := by
        simp [Proxied.holdsWorker, Proxied.counts]
      rw [hnot]
      exact h.active w
  next hroom =>
    refine ⟨hmem .admitted, ?_, fun w => ?_, h.asserted, ?_⟩
    · rw [countP_append]
      exact congrArg (· + 1) h.inflight
    · rw [countP_append]
      have hnot : List.countP (Proxied.holdsWorker w)
          [⟨.admitted, 0, false, false, [.acquire]⟩] = 0 := by
        simp [Proxied.holdsWorker, Proxied.counts]
      rw [hnot]
      exact h.active w
    · show s.inflight + 1 ≤ s.maxInflight
      omega

theorem holdsWorker_toNat (w : ℕ) (q : Proxied) :
    (q.holdsWorker w).toNat = if q.worker = w then q.counts.toNat else 0 := by
  unfold Proxied.holdsWorker
  split
  next heq => cases hcounts : q.counts <;> simp [heq]
  next hne => simp [hne]

/-- An event of a request changes the counters by what it does to the request. -/
theorem Accounted.happens (h : Accounted s) {k : ℕ} (hq : s.requests[k]? = some q)
    (hnext : q.next event = some q') :
    Accounted { (q'.calls.drop q.calls.length).foldl (ProxyHandler.perform q'.worker) s with
      requests := s.requests.set k q' } := by
  have hsound := h.requests q (mem_of_getElem? hq)
  have hmoves : Moves q q' := by
    rw [hsound] at hnext ⊢
    exact Proxied.next_moves hnext
  have hmem : q' = .ofPoint q'.point q'.worker → ∀ p ∈ s.requests.set k q',
      p = .ofPoint p.point p.worker := by
    intro hq' p hp
    rcases mem_or_eq_of_mem_set hp with hold | rfl
    · exact h.requests p hold
    · exact hq'
  have hslots := countP_set_add (p := Proxied.holdsSlot) (b := q') hq
  have hworkers (w : ℕ) := countP_set_add (p := Proxied.holdsWorker w) (b := q') hq
  simp only [holdsWorker_toNat] at hworkers
  rw [← h.inflight] at hslots
  simp only [← h.active] at hworkers
  have hdrop {calls : List CountCall} {new : List CountCall} (hcalls : calls = q.calls ++ new) :
      calls.drop q.calls.length = new := by
    rw [hcalls, drop_left]
  cases hmoves with
  | @goes point hslot hcounts hcalls =>
    rw [show (Proxied.ofPoint point q.worker).calls.drop q.calls.length = [] from
      hdrop (hcalls.trans (append_nil _).symm)]
    have hinflight : s.inflight =
        (s.requests.set k (.ofPoint point q.worker)).countP Proxied.holdsSlot := by
      rw [hslot] at hslots
      omega
    have hactive (w : ℕ) : s.activeRequests w =
        (s.requests.set k (.ofPoint point q.worker)).countP (Proxied.holdsWorker w) := by
      have hworker := hworkers w
      rw [hcounts] at hworker
      exact (Nat.add_right_cancel hworker).symm
    exact ⟨hmem rfl, hinflight, hactive, h.asserted, h.bounded⟩
  | counted w' hslot hcounts hcalls =>
    rw [show (Proxied.ofPoint .sending w').calls.drop q.calls.length = [.increment] from
      hdrop hcalls]
    have hinflight : s.inflight =
        (s.requests.set k (.ofPoint .sending w')).countP Proxied.holdsSlot := by
      rw [hslot] at hslots
      exact (Nat.add_right_cancel hslots).symm
    have hactive (w : ℕ) :
        update s.activeRequests w' (s.activeRequests w' + 1) w =
          (s.requests.set k (.ofPoint .sending w')).countP (Proxied.holdsWorker w) := by
      have hworker := hworkers w
      rw [hcounts] at hworker
      change _ + (if q.worker = w then 0 else 0) = _ + (if w' = w then 1 else 0) at hworker
      rw [ite_self] at hworker
      by_cases heq : w = w'
      · subst heq
        rw [if_pos rfl] at hworker
        rw [update_self, ← hworker, Nat.add_zero]
      · rw [if_neg (Ne.symm heq)] at hworker
        rw [update_of_ne heq]
        exact hworker.symm
    exact ⟨hmem rfl, hinflight, hactive, h.asserted, h.bounded⟩
  | @released point hslot hslot' hcounts hcalls =>
    rw [show (Proxied.ofPoint point q.worker).calls.drop q.calls.length = [.release] from
      hdrop hcalls]
    rw [hslot, hslot'] at hslots
    change _ + 1 = _ + 0 at hslots
    have hinflight : s.inflight - 1 =
        (s.requests.set k (.ofPoint point q.worker)).countP Proxied.holdsSlot := by
      omega
    have hactive (w : ℕ) : s.activeRequests w =
        (s.requests.set k (.ofPoint point q.worker)).countP (Proxied.holdsWorker w) := by
      have hworker := hworkers w
      rw [hcounts] at hworker
      exact (Nat.add_right_cancel hworker).symm
    have hasserted : (s.assertionFailed || decide (s.inflight = 0)) = false := by
      rw [h.asserted, decide_eq_false (by omega)]
      rfl
    exact ⟨hmem rfl, hinflight, hactive, hasserted, Nat.le_trans (Nat.sub_le _ 1) h.bounded⟩
  | @settled point hslot hslot' hcounts hcounts' hcalls =>
    rw [show (Proxied.ofPoint point q.worker).calls.drop q.calls.length =
      [.decrement, .release] from hdrop hcalls]
    rw [hslot, hslot'] at hslots
    change _ + 1 = _ + 0 at hslots
    have hself := hworkers q.worker
    rw [hcounts, hcounts'] at hself
    change _ + (if q.worker = q.worker then 1 else 0) = _ + (if q.worker = q.worker then 0 else 0)
      at hself
    rw [if_pos rfl, if_pos rfl] at hself
    have hinflight : s.inflight - 1 =
        (s.requests.set k (.ofPoint point q.worker)).countP Proxied.holdsSlot := by
      omega
    have hactive (w : ℕ) :
        update s.activeRequests q.worker (s.activeRequests q.worker - 1) w =
          (s.requests.set k (.ofPoint point q.worker)).countP (Proxied.holdsWorker w) := by
      by_cases heq : w = q.worker
      · subst heq
        rw [update_self]
        omega
      · have hworker := hworkers w
        rw [hcounts, hcounts'] at hworker
        change _ + (if q.worker = w then 1 else 0) = _ + (if q.worker = w then 0 else 0) at hworker
        rw [if_neg (Ne.symm heq), if_neg (Ne.symm heq)] at hworker
        rw [update_of_ne heq]
        exact hworker.symm
    have hasserted : ((s.assertionFailed || decide (s.activeRequests q.worker = 0)) ||
        decide (s.inflight = 0)) = false := by
      rw [h.asserted, decide_eq_false (by omega), decide_eq_false (by omega)]
      rfl
    exact ⟨hmem rfl, hinflight, hactive, hasserted, Nat.le_trans (Nat.sub_le _ 1) h.bounded⟩

theorem Accounted.step (h : Accounted s) {a : Option (ℕ × ProxyEvent)} (hstep : s.step a = some t) :
    Accounted t := by
  cases a with
  | none => exact Option.some.inj hstep ▸ h.arrive
  | some a =>
    obtain ⟨q, hq, hmap⟩ := Option.bind_eq_some_iff.mp hstep
    obtain ⟨q', hnext, rfl⟩ := Option.map_eq_some_iff.mp hmap
    exact h.happens hq hnext

/-- A request gives back what it takes, and takes no slot and no count twice. -/
structure Proxied.Balanced (q : Proxied) : Prop where
  slot : q.calls.count .release = q.calls.count .acquire
  worker : q.calls.count .decrement = q.calls.count .increment
  slot_once : q.calls.count .acquire ≤ 1
  worker_once : q.calls.count .increment ≤ 1

/-- A request that has ended has given its slot back, and its count unless it left at one of the
exits that leak. -/
theorem balanced_iff {exit : Exit} (w : ℕ) :
    (Proxied.ofPoint (.finished exit) w).Balanced ↔ ¬exit.Leaks := by
  constructor
  · rintro ⟨-, hworker, -, -⟩ hleaks
    cases exit with
    | sendRaised | closeRaised | responseRaised => exact Nat.zero_ne_one hworker
    | _ => exact hleaks
  · intro hspares
    cases exit with
    | sendRaised | closeRaised | responseRaised => exact absurd trivial hspares
    | rejected => exact ⟨rfl, rfl, Nat.zero_le _, Nat.zero_le _⟩
    | unrouted => exact ⟨rfl, rfl, Nat.le_refl _, Nat.zero_le _⟩
    | _ => exact ⟨rfl, rfl, Nat.le_refl _, Nat.le_refl _⟩

/-- Every request that has ended has given back exactly what it has taken, unless sending it raised
something else than `httpx.HTTPError`, `aclose` did not return after the headers had raised, or the
response could not be built. When all requests have ended, no slot is taken, and no request counts
at a worker except those that have left so. No assertion fails, and the bound holds. -/
theorem accounted_exactly {maxInflight : ℕ} {as : List (Option (ℕ × ProxyEvent))}
    (hrun : Run ProxyHandler.step anyAction (.init maxInflight) as s) :
    (∀ q ∈ s.requests, ∀ exit, q.point = .finished exit → (q.Balanced ↔ ¬exit.Leaks)) ∧
    ((∀ q ∈ s.requests, ∃ exit, q.point = .finished exit) → s.inflight = 0 ∧
      ∀ w, (s.activeRequests w = 0 ↔
        ∀ q ∈ s.requests, q.worker = w → ∀ exit, q.point = .finished exit → ¬exit.Leaks)) ∧
    s.assertionFailed = false ∧ s.inflight ≤ s.maxInflight := by
  have h : Accounted s := hrun.invariant (I := Accounted)
    (fun _ _ _ h _ hstep => h.step hstep) (accounted_init maxInflight)
  refine ⟨fun q hq exit hexit => ?_, fun hended => ⟨?_, fun w => ?_⟩, h.asserted, h.bounded⟩
  · rw [h.requests q hq, hexit]
    exact balanced_iff q.worker
  · rw [h.inflight, countP_eq_zero]
    intro q hq
    obtain ⟨exit, hexit⟩ := hended q hq
    rw [h.requests q hq, hexit]
    cases exit <;> exact Bool.false_ne_true
  · rw [h.active, countP_eq_zero]
    refine forall₂_congr fun q hq => ?_
    obtain ⟨exit, hexit⟩ := hended q hq
    have hcounts : q.counts = decide exit.Leaks := by
      rw [h.requests q hq, hexit]
      cases exit <;> rfl
    simp only [Proxied.holdsWorker, hcounts, hexit, ProxyPoint.finished.injEq, forall_eq',
      decide_eq_true_eq, not_and]

/-- A response whose body ends while `aclose` raises. -/
theorem accounted_exactly_relayed : ∃ s : ProxyHandler, s.inflight = 0 ∧
    s.activeRequests 0 = 0 ∧ s.assertionFailed = false := by
  have hrun : Run ProxyHandler.step anyAction (.init 1)
      [none, some (0, .forward 0), some (0, .upstream), some (0, .start), some (0, .endBody),
        some (0, .raise), some (0, .leave), some (0, .collect)] _ := run_of_exec rfl
  obtain ⟨-, hall, hasserted, -⟩ := accounted_exactly hrun
  obtain ⟨hinflight, hactive⟩ := hall fun q hq => by
    obtain rfl := mem_singleton.mp hq
    exact ⟨_, rfl⟩
  refine ⟨_, hinflight, (hactive 0).mpr fun q hq _ exit hexit => ?_, hasserted⟩
  obtain rfl := mem_singleton.mp hq
  obtain rfl := ProxyPoint.finished.inj hexit
  exact id

/-- A request that is cancelled while it waits for the response headers counts at its worker for
ever. -/
theorem cancelled_counts : ∃ s : ProxyHandler,
    Run ProxyHandler.step anyAction (.init 1)
      [none, some (0, .forward 0), some (0, .raise)] s ∧
      (∀ q ∈ s.requests, ∃ exit, q.point = .finished exit) ∧ s.inflight = 0 ∧
      s.activeRequests 0 = 1 := by
  refine ⟨_, run_of_exec rfl, fun q hq => ?_, rfl, rfl⟩
  obtain rfl := mem_singleton.mp hq
  exact ⟨_, rfl⟩

end Omni.Router
