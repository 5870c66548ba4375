import Mathlib.Data.Finset.Basic
import Mathlib.Tactic.Common

/-!
# Workers of the router

`Worker` of `sglang_omni_router/worker.py`, and the results of health checks and requests that are
recorded in it. Times and log messages are left out.
-/

namespace Omni.Router

/-- `WorkerState`. -/
inductive WorkerState
  | dead | healthy | unknown | unhealthy
  deriving DecidableEq

/-- `WorkerConfig`. -/
structure WorkerConfig where
  url : String
  model : Option String
  capabilities : Finset String
  deriving DecidableEq

/-- `RouterConfig`, as far as workers and their health depend on it, with what its validators
check. -/
structure RouterConfig where
  workers : List WorkerConfig
  healthFailureThreshold : ℕ
  healthSuccessThreshold : ℕ
  workers_ne_nil : workers ≠ []
  workers_nodup : (workers.map (·.url)).Nodup
  failure_pos : 0 < healthFailureThreshold
  success_pos : 0 < healthSuccessThreshold

/-- `Worker`. -/
structure Worker where
  config : WorkerConfig
  activeRequests : ℕ
  state : WorkerState
  disabled : Bool
  consecutiveFailures : ℕ
  consecutiveSuccesses : ℕ
  routedRequests : ℕ
  successfulRequests : ℕ
  failedRequests : ℕ
  lastStatusCode : Option ℕ
  lastError : Option String
  deriving DecidableEq

/-- What `_client.get` of a health check comes to. -/
inductive ProbeOutcome
  | httpError (error : String)
  | response (statusCode : ℕ) (text : String)
  /-- Any other exception, of which nothing is recorded. -/
  | raised
  deriving DecidableEq

namespace Worker

/-- `Worker(config=config)`. -/
def init (config : WorkerConfig) : Worker :=
  ⟨config, 0, .unknown, false, 0, 0, 0, 0, 0, none, none⟩

variable (w : Worker)

/-- `url`. -/
def url : String := w.config.url

/-- `is_healthy`. -/
def isHealthy : Bool := w.state = .healthy

/-- `is_dead`. -/
def isDead : Bool := w.state = .dead

/-- `is_routable`. -/
def isRoutable : Bool := w.isHealthy && !w.disabled

/-- `replace_config`, which raises for another URL. -/
def replaceConfig (config : WorkerConfig) : Option Worker :=
  if config.url ≠ w.url then none else some { w with config := config }

/-- `mark_dead`. -/
def markDead (error : Option String) : Worker :=
  { w with state := .dead, lastError := error.or w.lastError }

/-- `clear_dead`. -/
def clearDead : Worker :=
  { w with
    state := if w.isDead then .unknown else w.state
    consecutiveFailures := 0
    consecutiveSuccesses := 0 }

/-- `set_disabled`. -/
def setDisabled (disabled : Bool) : Worker := { w with disabled := disabled }

/-- `record_routed_request`. -/
def recordRoutedRequest (statusCode : Option ℕ) : Worker :=
  let w := { w with routedRequests := w.routedRequests + 1 }
  if statusCode.any fun code => 200 ≤ code ∧ code < 400 then
    { w with successfulRequests := w.successfulRequests + 1 }
  else { w with failedRequests := w.failedRequests + 1 }

/-- `_record_failure`. -/
def recordFailure (failureThreshold : ℕ) : Worker :=
  let w := { w with
    consecutiveFailures := w.consecutiveFailures + 1, consecutiveSuccesses := 0 }
  if failureThreshold ≤ w.consecutiveFailures then { w with state := .unhealthy } else w

/-- `record_health_result`. -/
def recordHealthResult (cfg : RouterConfig) (ok : Bool) (statusCode : Option ℕ)
    (error : Option String) : Worker :=
  let w := { w with lastStatusCode := statusCode, lastError := error }
  if ok then
    let w := { w with
      consecutiveSuccesses := w.consecutiveSuccesses + 1, consecutiveFailures := 0 }
    if cfg.healthSuccessThreshold ≤ w.consecutiveSuccesses then { w with state := .healthy } else w
  else w.recordFailure cfg.healthFailureThreshold

/-- `record_request_failure`. -/
def recordRequestFailure (cfg : RouterConfig) (statusCode : Option ℕ) (error : Option String) :
    Worker :=
  { w with lastStatusCode := statusCode, lastError := error }.recordFailure
    cfg.healthFailureThreshold

/-- `_record_worker_request_failure` of the proxy. -/
def recordWorkerRequestFailure (cfg : RouterConfig) (statusCode : Option ℕ)
    (error : Option String) : Worker :=
  if w.isDead then w else w.recordRequestFailure cfg statusCode error

/-- The status codes that are a success of a health check. -/
def okStatus (statusCode : ℕ) : Bool := 200 ≤ statusCode ∧ statusCode < 300

/-- `_check_worker_health` after its await. -/
def recordProbe (cfg : RouterConfig) : ProbeOutcome → Worker
  | .httpError error => w.recordHealthResult cfg false none (some error)
  | .response statusCode text =>
    let error :=
      if okStatus statusCode then none
      else if text = "" then some ("status=" ++ toString statusCode)
      else some (String.ofList (text.toList.take 512))
    w.recordHealthResult cfg (okStatus statusCode) (some statusCode) error
  | .raised => w

/-- The result of a health check brings a counter to its threshold. -/
def Reaches (cfg : RouterConfig) : ProbeOutcome → Prop
  | .httpError _ => cfg.healthFailureThreshold ≤ w.consecutiveFailures + 1
  | .response statusCode _ =>
    if okStatus statusCode then cfg.healthSuccessThreshold ≤ w.consecutiveSuccesses + 1
    else cfg.healthFailureThreshold ≤ w.consecutiveFailures + 1
  | .raised => False

variable {w} {cfg : RouterConfig} {outcome : ProbeOutcome}

theorem recordFailure_state {threshold : ℕ} :
    (w.recordFailure threshold).state =
      if threshold ≤ w.consecutiveFailures + 1 then .unhealthy else w.state := by
  unfold recordFailure
  dsimp only
  split <;> rfl

/-- A result that reaches no threshold leaves the state. -/
theorem recordProbe_state (h : ¬w.Reaches cfg outcome) :
    (w.recordProbe cfg outcome).state = w.state := by
  cases outcome with
  | httpError error =>
    exact recordFailure_state.trans (if_neg h)
  | response statusCode text =>
    simp only [Reaches] at h
    simp only [recordProbe, recordHealthResult]
    by_cases hok : okStatus statusCode = true
    · rw [if_pos hok] at h
      simp only [hok, if_true, if_neg h]
    · rw [if_neg hok] at h
      simp only [hok, if_false, Bool.false_eq_true]
      exact recordFailure_state.trans (if_neg h)
  | raised => rfl

/-- What a health check records leaves the rest of the worker. -/
theorem recordProbe_frame : (w.recordProbe cfg outcome).config = w.config ∧
    (w.recordProbe cfg outcome).disabled = w.disabled ∧
    (w.recordProbe cfg outcome).activeRequests = w.activeRequests := by
  cases outcome with
  | httpError error =>
    simp only [recordProbe, recordHealthResult, recordFailure, Bool.false_eq_true, if_false]
    split <;> exact ⟨rfl, rfl, rfl⟩
  | response statusCode text =>
    simp only [recordProbe, recordHealthResult, recordFailure]
    split
    · split <;> exact ⟨rfl, rfl, rfl⟩
    · split <;> exact ⟨rfl, rfl, rfl⟩
  | raised => exact ⟨rfl, rfl, rfl⟩

/-- What a failed request records leaves the rest of the worker, and a dead one dead. -/
theorem recordWorkerRequestFailure_frame {statusCode : Option ℕ} {error : Option String} :
    (w.recordWorkerRequestFailure cfg statusCode error).config = w.config ∧
    (w.recordWorkerRequestFailure cfg statusCode error).disabled = w.disabled ∧
    (w.recordWorkerRequestFailure cfg statusCode error).activeRequests = w.activeRequests ∧
    (w.state = .dead → (w.recordWorkerRequestFailure cfg statusCode error).state = .dead) := by
  unfold recordWorkerRequestFailure
  split
  · exact ⟨rfl, rfl, rfl, id⟩
  next halive =>
    have hne : w.state ≠ .dead := fun heq => halive (decide_eq_true heq)
    simp only [recordRequestFailure, recordFailure]
    split <;> exact ⟨rfl, rfl, rfl, fun heq => absurd heq hne⟩

end Worker

end Omni.Router
