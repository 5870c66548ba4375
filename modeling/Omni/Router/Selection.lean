import Mathlib.Data.Finset.Card
import Mathlib.Data.Nat.ModEq
import Mathlib.Order.Interval.Finset.Nat
import Omni.Router.Worker

/-!
# The selection of a worker

`WorkerSelector` of `sglang_omni_router/selector.py`, and what `proxy.py` finds out before it
selects a worker for a request whose body is too large to be read.
-/

namespace Omni.Router

open List Finset

/-- `RoutingPolicy`. -/
inductive RoutingPolicy
  | roundRobin | leastRequest | random
  deriving DecidableEq

/-- `WorkerSelector`. The random generator is given by its draws. -/
structure WorkerSelector where
  policy : RoutingPolicy
  rrIndex : ℕ
  deriving DecidableEq

/-- What `select` is called with. The model of a request is not empty. -/
structure RouteRequest where
  requiredCapabilities : Finset String
  model : Option String
  model_ne : model ≠ some ""

/-- `RouteMetadata`, as far as the preflight reads it. -/
structure RouteMetadata extends RouteRequest where
  bodyExceedsMetadataLimit : Bool
  routeCapabilitiesHeaderPresent : Bool

/-- `bool(worker.model)`. -/
def Worker.hasModel (w : Worker) : Bool := w.config.model.any (· ≠ "")

/-- The routable workers with the capabilities. -/
def capableWorkers (workers : List Worker) (requiredCapabilities : Finset String) : List Worker :=
  workers.filter fun w => w.isRoutable && decide (requiredCapabilities ⊆ w.config.capabilities)

/-- The candidates, which `select` and the preflight compute alike. -/
def candidates (workers : List Worker) (requiredCapabilities : Finset String)
    (model : Option String) : List Worker :=
  let capable := capableWorkers workers requiredCapabilities
  if model.isSome && capable.any Worker.hasModel then
    capable.filter fun w => w.config.model = model
  else capable

namespace WorkerSelector

variable (s : WorkerSelector)

/-- `_select_round_robin`. -/
def selectRoundRobin (workers : List Worker) : Option (Worker × WorkerSelector) :=
  workers[s.rrIndex % workers.length]?.map fun w =>
    (w, { s with rrIndex := (s.rrIndex + 1) % workers.length })

/-- `select`, which raises when there are no candidates. -/
def select (workers : List Worker) (requiredCapabilities : Finset String) (model : Option String)
    (draw : ℕ) : Option (Worker × WorkerSelector) :=
  let found := candidates workers requiredCapabilities model
  match s.policy with
  | .roundRobin => s.selectRoundRobin found
  | .leastRequest =>
    s.selectRoundRobin <| found.filter fun w =>
      (found.map (·.activeRequests)).min? = some w.activeRequests
  | .random => found[draw % found.length]?.map (·, s)

end WorkerSelector

/-- `_large_request_extra_capabilities_or_error`. -/
def largeRequestExtraCapabilitiesOrError (workers : List Worker) (m : RouteMetadata) :
    Except String (Finset String) :=
  let found := candidates workers m.requiredCapabilities m.model
  let capabilitySets := (found.map (·.config.capabilities)).dedup
  if !m.bodyExceedsMetadataLimit then .ok ∅
  else if found = [] then .ok ∅
  else if m.model = none ∧ 1 < (found.map (·.config.model)).dedup.length then
    .error "large JSON requests across mixed-model workers require x-sglang-omni-route-model"
  else if m.routeCapabilitiesHeaderPresent ∨ capabilitySets.length ≤ 1 then .ok ∅
  else
    match capabilitySets.filter fun set => ¬capabilitySets.any (set ⊂ ·) with
    | [maximal] => .ok (maximal \ m.requiredCapabilities)
    | _ => .error ("large JSON requests across mixed-capability workers require " ++
        "x-sglang-omni-route-capabilities")

variable {workers : List Worker} {w : Worker} {required extra : Finset String}
  {model : Option String}

theorem mem_capableWorkers : w ∈ capableWorkers workers required ↔
    w ∈ workers ∧ w.isRoutable = true ∧ required ⊆ w.config.capabilities := by
  simp [capableWorkers]

/-- A candidate that has more capabilities is a candidate for these, and they add none. -/
theorem candidates_union (hmodel : model ≠ some "") (hw : w ∈ candidates workers required model)
    (hextra : extra ⊆ w.config.capabilities) :
    w ∈ candidates workers (required ∪ extra) model ∧
      candidates workers (required ∪ extra) model ⊆ candidates workers required model := by
  have hsub : capableWorkers workers (required ∪ extra) ⊆ capableWorkers workers required := by
    intro v hv
    obtain ⟨hmem, hroutable, hcapable⟩ := mem_capableWorkers.1 hv
    exact mem_capableWorkers.2 ⟨hmem, hroutable, union_subset_left hcapable⟩
  have hkept (hmem : w ∈ capableWorkers workers required) :
      w ∈ capableWorkers workers (required ∪ extra) := by
    obtain ⟨hmem, hroutable, hcapable⟩ := mem_capableWorkers.1 hmem
    exact mem_capableWorkers.2 ⟨hmem, hroutable, union_subset hcapable hextra⟩
  unfold candidates at hw ⊢
  by_cases hnamed : (model.isSome && (capableWorkers workers required).any Worker.hasModel) = true
  · rw [if_pos hnamed] at hw ⊢
    obtain ⟨hmem, hsame⟩ := mem_filter.1 hw
    obtain ⟨hsome, -⟩ := Bool.and_eq_true_iff.1 hnamed
    obtain ⟨name, rfl⟩ := Option.isSome_iff_exists.1 hsome
    have hhas : w.hasModel = true := by
      rw [Worker.hasModel, of_decide_eq_true hsame]
      simpa using hmodel
    rw [if_pos (by simpa using ⟨w, hkept hmem, hhas⟩)]
    exact ⟨mem_filter.2 ⟨hkept hmem, hsame⟩, filter_subset _ hsub⟩
  · have hnone : ¬(model.isSome &&
        (capableWorkers workers (required ∪ extra)).any Worker.hasModel) = true := by
      refine mt (fun hall => ?_) hnamed
      obtain ⟨hsome, hany⟩ := Bool.and_eq_true_iff.1 hall
      obtain ⟨v, hv, hhas⟩ := any_eq_true.1 hany
      exact Bool.and_eq_true_iff.2 ⟨hsome, any_eq_true.2 ⟨v, hsub hv, hhas⟩⟩
    rw [if_neg hnamed] at hw ⊢
    rw [if_neg hnone]
    exact ⟨hkept hw, hsub⟩

theorem exists_of_preflight {m : RouteMetadata}
    (hfound : candidates workers m.requiredCapabilities m.model ≠ [])
    (hok : largeRequestExtraCapabilitiesOrError workers m = .ok extra) :
    ∃ w ∈ candidates workers m.requiredCapabilities m.model, extra ⊆ w.config.capabilities := by
  have hempty (hextra : extra = ∅) :
      ∃ w ∈ candidates workers m.requiredCapabilities m.model, extra ⊆ w.config.capabilities := by
    obtain ⟨w, hw⟩ := exists_mem_of_ne_nil _ hfound
    exact ⟨w, hw, by rw [hextra]; exact empty_subset _⟩
  unfold largeRequestExtraCapabilitiesOrError at hok
  by_cases hlarge : (!m.bodyExceedsMetadataLimit) = true
  · rw [if_pos hlarge] at hok
    exact hempty (Except.ok.inj hok).symm
  · rw [if_neg hlarge, if_neg hfound] at hok
    split at hok
    · cases hok
    · split at hok
      · exact hempty (Except.ok.inj hok).symm
      · split at hok
        next maximal hmaximal =>
          have hmem : maximal ∈ [maximal] := List.mem_singleton_self _
          rw [← hmaximal] at hmem
          obtain ⟨w, hw, rfl⟩ := List.mem_map.1 (List.mem_dedup.1 (List.mem_filter.1 hmem).1)
          rw [← Except.ok.inj hok]
          exact ⟨w, hw, sdiff_subset⟩
        · cases hok

theorem selectRoundRobin_isSome (s : WorkerSelector) {found : List Worker} (hfound : found ≠ []) :
    ∃ w ∈ found, ∃ t, s.selectRoundRobin found = some (w, t) := by
  have hindex := Nat.mod_lt s.rrIndex (length_pos_iff.2 hfound)
  refine ⟨found[s.rrIndex % found.length], getElem_mem hindex,
    { s with rrIndex := (s.rrIndex + 1) % found.length }, ?_⟩
  rw [WorkerSelector.selectRoundRobin, getElem?_eq_getElem hindex]
  rfl

theorem select_isSome (s : WorkerSelector) (draw : ℕ)
    (hfound : candidates workers required model ≠ []) :
    ∃ w ∈ candidates workers required model, ∃ t,
      s.select workers required model draw = some (w, t) := by
  unfold WorkerSelector.select
  dsimp only
  cases s.policy with
  | roundRobin => exact selectRoundRobin_isSome s hfound
  | leastRequest =>
    have hsome : ((candidates workers required model).filter fun w =>
        ((candidates workers required model).map (·.activeRequests)).min? =
          some w.activeRequests) ≠ [] := by
      cases hmin : ((candidates workers required model).map (·.activeRequests)).min? with
      | none =>
        rw [min?_eq_none_iff, map_eq_nil_iff] at hmin
        exact absurd hmin hfound
      | some least =>
        obtain ⟨w, hw, rfl⟩ := mem_map.1 (min?_eq_some_iff.1 hmin).1
        exact ne_nil_of_mem (mem_filter.2 ⟨hw, decide_eq_true rfl⟩)
    obtain ⟨w, hw, t, hselect⟩ := selectRoundRobin_isSome s hsome
    exact ⟨w, (mem_filter.1 hw).1, t, hselect⟩
  | random =>
    have hindex := Nat.mod_lt draw (length_pos_iff.2 hfound)
    refine ⟨_, getElem_mem hindex, s, ?_⟩
    rw [getElem?_eq_getElem hindex]
    rfl

/-- When the preflight finds candidates and reports no error, one of them is selected. -/
theorem preflight_candidate_selected (s : WorkerSelector) (m : RouteMetadata) (draw : ℕ)
    (hfound : candidates workers m.requiredCapabilities m.model ≠ [])
    (hok : largeRequestExtraCapabilitiesOrError workers m = .ok extra) :
    ∃ w ∈ candidates workers m.requiredCapabilities m.model, ∃ t,
      s.select workers (m.requiredCapabilities ∪ extra) m.model draw = some (w, t) := by
  obtain ⟨v, hv, hextra⟩ := exists_of_preflight hfound hok
  obtain ⟨hkept, hsub⟩ := candidates_union m.model_ne hv hextra
  obtain ⟨w, hw, t, hselect⟩ := select_isSome s draw (ne_nil_of_mem hkept)
  exact ⟨w, hsub hw, t, hselect⟩

/-- A healthy worker. -/
def healthyWorker (url : String) (capabilities : Finset String) : Worker :=
  { Worker.init ⟨url, none, capabilities⟩ with state := .healthy }

/-- Two workers, one of which has more capabilities. -/
theorem preflight_candidate_selected_two :
    let workers := [healthyWorker "a" {"chat"}, healthyWorker "b" {"chat", "image_input"}]
    ∃ w ∈ workers, ∃ t,
      WorkerSelector.select ⟨.roundRobin, 0⟩ workers {"chat", "image_input"} none 0 =
        some (w, t) := by
  intro workers
  let m : RouteMetadata := ⟨⟨{"chat"}, none, by simp⟩, true, false⟩
  have hok : largeRequestExtraCapabilitiesOrError workers m = .ok {"image_input"} := by
    decide +kernel
  exact preflight_candidate_selected ⟨.roundRobin, 0⟩ m 0 (by decide +kernel) hok

section

variable {κ : Type} (workers : List Worker) (classes : κ → RouteRequest) (pattern : ℕ → κ)

/-- The candidates of the requests of a class. -/
def classCandidates (k : κ) : List Worker :=
  candidates workers (classes k).requiredCapabilities (classes k).model

/-- `select` for a request of a class. -/
def selectClass (s : WorkerSelector) (k : κ) : Option (Worker × WorkerSelector) :=
  s.select workers (classes k).requiredCapabilities (classes k).model 0

/-- The selector of a new router before each request of a pattern. -/
def selectorAt : ℕ → WorkerSelector
  | 0 => ⟨.roundRobin, 0⟩
  | t + 1 => ((selectClass workers classes (selectorAt t) (pattern t)).map Prod.snd).getD
      (selectorAt t)

/-- The worker that is chosen for a request of a pattern. -/
def chosenAt (t : ℕ) : Option Worker :=
  (selectClass workers classes (selectorAt workers classes pattern t) (pattern t)).map Prod.fst

/-- The shared index before a request, for a class. -/
def residueAt (k : κ) (t : ℕ) : ℕ :=
  (selectorAt workers classes pattern t).rrIndex % (classCandidates workers classes k).length

variable {workers classes pattern} {k : κ} {a b t : ℕ}

theorem selectClass_eq {s : WorkerSelector} (hs : s.policy = .roundRobin) (k : κ) :
    selectClass workers classes s k = s.selectRoundRobin (classCandidates workers classes k) := by
  rw [selectClass, WorkerSelector.select, hs]
  rfl

theorem policy_selectorAt (t : ℕ) :
    (selectorAt workers classes pattern t).policy = .roundRobin := by
  induction t with
  | zero => rfl
  | succ t ih =>
    rw [selectorAt, selectClass_eq ih]
    cases hselect : (selectorAt workers classes pattern t).selectRoundRobin
        (classCandidates workers classes (pattern t)) with
    | none => exact ih
    | some selected =>
      obtain ⟨w, -, rfl⟩ := Option.map_eq_some_iff.1 hselect
      exact ih

/-- A request of a class chooses the candidate at the index. -/
theorem chosenAt_eq (ht : pattern t = k) : chosenAt workers classes pattern t =
    (classCandidates workers classes k)[residueAt workers classes pattern k t]? := by
  rw [chosenAt, selectClass_eq (policy_selectorAt t), ht, WorkerSelector.selectRoundRobin,
    Option.map_map]
  exact congrFun Option.map_id _

end

/-- Two classes of requests, which two workers and one of them can serve. -/
def twoClasses : Bool → RouteRequest
  | false => ⟨{"chat"}, none, by simp⟩
  | true => ⟨{"image_input"}, none, by simp⟩

end Omni.Router
