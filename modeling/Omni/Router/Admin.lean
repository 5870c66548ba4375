import Mathlib.Data.List.Basic
import Omni.Library.Transition
import Omni.Router.Worker

/-!
# The pool of the router and its admin requests

Health checks, failed requests, the operator's requests to `/workers` and the broadcasts of weight
updates of `sglang_omni_router/app.py` share the workers. They interleave at their awaits. A
broadcast that is not an update leaves the workers alone and is left out.
-/

namespace Omni.Router

open Transition Function

/-- `_ADMIN_UPDATE_PATHS`. -/
inductive UpdatePath
  | pauseGeneration
  | updateWeightsFromDisk
  | updateWeightsFromDistributed
  | initWeightsUpdateGroup
  | destroyWeightsUpdateGroup
  deriving DecidableEq

/-- A broadcast to some workers. -/
structure AdminUpdate where
  path : UpdatePath
  targets : List ℕ
  deriving DecidableEq

/-- The workers and what is under way. The objects of class `Worker` are numbered. -/
structure WorkerPool where
  worker : ℕ → Worker
  created : ℕ
  /-- The workers that are registered. -/
  workers : List ℕ
  /-- Health checks that await the response. -/
  probes : List ℕ
  /-- Broadcasts that wait for `admin_update_lock`. -/
  waiting : List AdminUpdate
  /-- The broadcast that holds the lock, from its first await on with `previous_disabled`. -/
  holder : Option (AdminUpdate × Option (List (String × Bool)))
  /-- The workers to which `mark_dead` was applied last, and not `clear_dead`. -/
  marked : Finset ℕ
  /-- The flag `disabled` as the operator, or a failed `/init_weights_update_group`, has last
  set it. -/
  wanted : ℕ → Bool

/-- What happens. -/
inductive RouterAction
  /-- `_check_worker_health` up to its await. -/
  | startProbe (w : ℕ)
  /-- `_check_worker_health` after its await. -/
  | probed (k : ℕ) (outcome : ProbeOutcome)
  /-- A request fails at a worker. -/
  | requestFailed (w : ℕ) (statusCode : Option ℕ) (error : Option String)
  /-- `update_worker` after its await, with the fields of the payload. -/
  | put (w : ℕ) (model : Option (Option String)) (capabilities : Option (Finset String))
      (disabled isDead : Option Bool)
  | createWorker (config : WorkerConfig)
  | deleteWorker (w : ℕ)
  /-- `_broadcast_admin_request` up to the lock. -/
  | adminUpdate (path : UpdatePath)
  | acquireLock (k : ℕ)
  /-- A broadcast times out at the lock or is cancelled there. -/
  | giveUp (k : ℕ)
  /-- `request.body()` has returned. -/
  | readBody
  /-- `request.body()` has raised. -/
  | loseBody
  /-- All workers have answered, or `gather` has raised. -/
  | answered (results : Option (List Bool))

/-- The value of a key in a dictionary, which has the last one of its entries. -/
def dictGet (entries : List (String × Bool)) (key : String) : Option Bool :=
  entries.reverse.lookup key

/-- `keep_disabled_urls`. -/
def keepDisabledUrls (path : UpdatePath) (urls : List String)
    (results : Option (List (String × Bool))) : List String :=
  if path = .initWeightsUpdateGroup then
    match results with
    | none => urls
    | some items => (items.filter fun item => !item.2).map Prod.fst
  else []

namespace WorkerPool

/-- The router as `create_app` sets it up. -/
def init (cfg : RouterConfig) : WorkerPool where
  worker w := .init (cfg.workers.getD w ⟨"", none, ∅⟩)
  created := cfg.workers.length
  workers := List.range cfg.workers.length
  probes := []
  waiting := []
  holder := none
  marked := ∅
  wanted _ := false

variable (s : WorkerPool)

/-- Change one worker. -/
def setWorker (w : ℕ) (value : Worker) : WorkerPool :=
  { s with worker := update s.worker w value }

/-- `update_worker` after its await. -/
def put (w : ℕ) (model : Option (Option String)) (capabilities : Option (Finset String))
    (disabled isDead : Option Bool) : Option WorkerPool :=
  let old := s.worker w
  let nextConfig : WorkerConfig :=
    ⟨old.url, model.getD old.config.model, capabilities.getD old.config.capabilities⟩
  (old.replaceConfig nextConfig).map fun value =>
    let value := match disabled with
      | some flag => value.setDisabled flag
      | none => value
    let s := match disabled with
      | some flag => { s with wanted := update s.wanted w flag }
      | none => s
    match isDead with
    | none => s.setWorker w value
    | some true => { s.setWorker w (value.markDead none) with marked := insert w s.marked }
    | some false =>
      { s.setWorker w value.clearDead with
        marked := s.marked.erase w, probes := s.probes ++ [w] }

/-- `previous_disabled`. -/
def previousDisabled (targets : List ℕ) : List (String × Bool) :=
  targets.map fun w => ((s.worker w).url, (s.worker w).disabled)

/-- The URLs of the workers that stay disabled after a broadcast. -/
def keptUrls (u : AdminUpdate) (results : Option (List Bool)) : List String :=
  let urls := u.targets.map fun w => (s.worker w).url
  keepDisabledUrls u.path urls (results.map urls.zip)

/-- `_restore_admin_disabled_state`. -/
def restore (u : AdminUpdate) (saved : List (String × Bool)) (results : Option (List Bool)) :
    WorkerPool :=
  let kept := s.keptUrls u results
  { s with
    worker := fun w =>
      if w ∈ u.targets then
        if (s.worker w).url ∈ kept then (s.worker w).setDisabled true
        else (s.worker w).setDisabled ((dictGet saved (s.worker w).url).getD false)
      else s.worker w
    wanted := fun w => if w ∈ u.targets ∧ (s.worker w).url ∈ kept then true else s.wanted w }

/-- A step. -/
def step (cfg : RouterConfig) (s : WorkerPool) : RouterAction → Option WorkerPool
  | .startProbe w =>
    if w < s.created ∧ (s.worker w).isDead = false then some { s with probes := s.probes ++ [w] }
    else none
  | .probed k outcome =>
    s.probes[k]?.map fun w =>
      { s.setWorker w ((s.worker w).recordProbe cfg outcome) with probes := s.probes.eraseIdx k }
  | .requestFailed w statusCode error =>
    if w < s.created then
      some (s.setWorker w ((s.worker w).recordWorkerRequestFailure cfg statusCode error))
    else none
  | .put w model capabilities disabled isDead =>
    if w < s.created then s.put w model capabilities disabled isDead else none
  | .createWorker config =>
    if ∃ w ∈ s.workers, (s.worker w).url = config.url then some s
    else some { s.setWorker s.created (.init config) with
      created := s.created + 1
      workers := s.workers ++ [s.created]
      probes := s.probes ++ [s.created]
      wanted := update s.wanted s.created false }
  | .deleteWorker w => some { s with workers := s.workers.erase w }
  | .adminUpdate path =>
    let targets := s.workers.filter fun w => !(s.worker w).isDead
    if targets = [] ∨ path = .initWeightsUpdateGroup ∧ 1 < targets.length then some s
    else some { s with waiting := s.waiting ++ [⟨path, targets⟩] }
  | .acquireLock k =>
    if s.holder = none then
      s.waiting[k]?.map fun u =>
        { s with holder := some (u, none), waiting := s.waiting.eraseIdx k }
    else none
  | .giveUp k => some { s with waiting := s.waiting.eraseIdx k }
  | .readBody =>
    match s.holder with
    | some (u, none) => some { s with
        worker := fun w => if w ∈ u.targets then (s.worker w).setDisabled true else s.worker w
        holder := some (u, some (s.previousDisabled u.targets)) }
    | _ => none
  | .loseBody =>
    match s.holder with
    | some (_, none) => some { s with holder := none }
    | _ => none
  | .answered results =>
    match s.holder with
    | some (u, some saved) =>
      if results.all fun items => items.length = u.targets.length then
        some { s.restore u saved results with holder := none }
      else none
    | _ => none

variable {s} {t : WorkerPool} {w : ℕ}

/-- What a request of the operator changes: one worker, and what is wanted and known of it. -/
theorem put_spec {model : Option (Option String)} {capabilities : Option (Finset String)}
    {disabled isDead : Option Bool} (hput : s.put w model capabilities disabled isDead = some t) :
    ∃ value : Worker, t.worker = update s.worker w value ∧
      value.url = (s.worker w).url ∧ value.disabled = disabled.getD (s.worker w).disabled ∧
      t.wanted w = disabled.getD (s.wanted w) ∧ (∀ j, j ≠ w → t.wanted j = s.wanted j) ∧
      (w ∈ t.marked → value.state = .dead ∨ value.state = (s.worker w).state ∧ w ∈ s.marked) ∧
      (∀ j, j ≠ w → (j ∈ t.marked ↔ j ∈ s.marked)) ∧
      t.created = s.created ∧ t.workers = s.workers ∧ t.waiting = s.waiting ∧
      t.holder = s.holder := by
  have hinsert (j : ℕ) (hj : j ≠ w) : j ∈ insert w s.marked ↔ j ∈ s.marked :=
    Finset.mem_insert.trans (or_iff_right hj)
  have herase (j : ℕ) (hj : j ≠ w) : j ∈ s.marked.erase w ↔ j ∈ s.marked :=
    Finset.mem_erase.trans (and_iff_right hj)
  simp only [WorkerPool.put, Worker.replaceConfig, Worker.url, ne_eq, not_true, if_false,
    Option.map_some] at hput
  cases hput
  cases disabled with
  | none =>
    cases isDead with
    | none =>
      exact ⟨_, rfl, rfl, rfl, rfl, fun _ _ => rfl, fun h => Or.inr ⟨rfl, h⟩, fun _ _ => Iff.rfl,
        rfl, rfl, rfl, rfl⟩
    | some dead =>
      cases dead with
      | true =>
        exact ⟨_, rfl, rfl, rfl, rfl, fun _ _ => rfl, fun _ => Or.inl rfl, hinsert, rfl, rfl, rfl,
          rfl⟩
      | false =>
        exact ⟨_, rfl, rfl, rfl, rfl, fun _ _ => rfl, fun h => absurd h (Finset.notMem_erase w _),
          herase, rfl, rfl, rfl, rfl⟩
  | some flag =>
    have hself : update s.wanted w flag w = flag := update_self ..
    have hother (j : ℕ) (hj : j ≠ w) : update s.wanted w flag j = s.wanted j :=
      update_of_ne hj ..
    cases isDead with
    | none =>
      exact ⟨_, rfl, rfl, rfl, hself, hother, fun h => Or.inr ⟨rfl, h⟩, fun _ _ => Iff.rfl, rfl,
        rfl, rfl, rfl⟩
    | some dead =>
      cases dead with
      | true =>
        exact ⟨_, rfl, rfl, rfl, hself, hother, fun _ => Or.inl rfl, hinsert, rfl, rfl, rfl, rfl⟩
      | false =>
        exact ⟨_, rfl, rfl, rfl, hself, hother, fun h => absurd h (Finset.notMem_erase w _),
          herase, rfl, rfl, rfl, rfl⟩

end WorkerPool

end Omni.Router
