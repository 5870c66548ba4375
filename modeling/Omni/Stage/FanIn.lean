import Mathlib.Data.Finmap

/-!
# Fan-in

`AggregatedInput` collects the payloads that other stages send for a request, and merges them when
all that are expected have come. Requests may be interleaved in any way.
-/

namespace Omni.Stage

open Function

variable {V : Type}

/-- The payloads of a request by the stage that they come from. -/
abbrev Inputs (V : Type) := Finmap fun _ : String => V

/-- What `receive` raises. -/
inductive InputError
  | noSources (requestId : String)
  | outsideStatic (requestId : String) (unknown : Finset String)
  | outsideExpected (requestId : String) (unexpected expected : Finset String)

/-- `receive` returns `None`, or what `merge` makes of some payloads, or raises. -/
inductive Received (V : Type)
  | waiting
  | merged (inputs : Inputs V)
  | raised (error : InputError)

/-- What an `AggregatedInput` is built with. -/
structure FanIn (V : Type) where
  sources : Finset String
  /-- It returns `None` as long as it cannot tell. -/
  expectedSourcesFn : Option (String → String → V → Option (Finset String))

/-- `AggregatedInput`. -/
structure AggregatedInput (V : Type) where
  pending : String → Option (Inputs V)
  expectedSources : String → Option (Finset String)

/-- `_normalize_expected_sources`. -/
def FanIn.normalize (cfg : FanIn V) (requestId : String) (expected : Finset String) :
    Except InputError (Finset String) :=
  if expected = ∅ then .error (.noSources requestId)
  else if expected ⊆ cfg.sources then .ok expected
  else .error (.outsideStatic requestId (expected \ cfg.sources))

namespace AggregatedInput

/-- `cancel`. -/
def cancel (s : AggregatedInput V) (requestId : String) : AggregatedInput V :=
  ⟨update s.pending requestId none, update s.expectedSources requestId none⟩

/-- The stages expected for a request when a payload comes, if they are known, and what is kept of
the resolver's answers. -/
def expected (cfg : FanIn V) (s : AggregatedInput V) (requestId fromStage : String) (data : V) :
    Except InputError (Option (Finset String)) × (String → Option (Finset String)) :=
  match s.expectedSources requestId, cfg.expectedSourcesFn with
  | some expected, _ => (.ok (some expected), s.expectedSources)
  | none, none => (.ok (some cfg.sources), s.expectedSources)
  | none, some resolve =>
    match (resolve requestId fromStage data).map (cfg.normalize requestId) with
    | none => (.ok none, s.expectedSources)
    | some (.error error) => (.error error, s.expectedSources)
    | some (.ok resolved) =>
      (.ok (some resolved), update s.expectedSources requestId (some resolved))

/-- `receive`. -/
def receive (cfg : FanIn V) (s : AggregatedInput V) (requestId fromStage : String) (data : V) :
    AggregatedInput V × Received V :=
  if fromStage ∉ cfg.sources then (s, .waiting)
  else
    let inputs := ((s.pending requestId).getD ∅).insert fromStage data
    let (expected, expectedSources) := s.expected cfg requestId fromStage data
    let s := ⟨update s.pending requestId (some inputs), expectedSources⟩
    match expected with
    | .error error => (s, .raised error)
    | .ok none => (s, .waiting)
    | .ok (some expected) =>
      if inputs.keys ⊆ expected then
        if inputs.keys = expected then (s.cancel requestId, .merged inputs) else (s, .waiting)
      else (s, .raised (.outsideExpected requestId (inputs.keys \ expected) expected))

end AggregatedInput

/-- A call of the handler. -/
inductive InputCall (V : Type)
  | receive (requestId fromStage : String) (data : V)
  | cancel (requestId : String)

/-- The payloads of each request since its last merge or `cancel`. -/
abbrev Recent (V : Type) := String → List (String × V)

/-- A call of the handler, and the payloads that have come. -/
def AggregatedInput.call (cfg : FanIn V) (p : AggregatedInput V × Recent V) :
    InputCall V → AggregatedInput V × Recent V
  | .receive requestId fromStage data =>
    let (s, received) := p.1.receive cfg requestId fromStage data
    (s, if fromStage ∉ cfg.sources then p.2 else update p.2 requestId (match received with
      | .merged _ => []
      | _ => p.2 requestId ++ [(fromStage, data)]))
  | .cancel requestId => (p.1.cancel requestId, update p.2 requestId [])

/-- The last payload of each stage. -/
def collected (payloads : List (String × V)) : Inputs V :=
  payloads.foldl (fun inputs p => inputs.insert p.1 p.2) ∅

/-- The stages that are expected: the static ones, or what the resolver has said about one of the
payloads. -/
def FanIn.Expects (cfg : FanIn V) (r : String) (payloads : List (String × V))
    (expected : Finset String) : Prop :=
  match cfg.expectedSourcesFn with
  | none => expected = cfg.sources
  | some resolve => expected ⊆ cfg.sources ∧ ∃ p ∈ payloads, resolve r p.1 p.2 = some expected

/-- The handler holds, for each request, its payloads and what the resolver has said. -/
structure Collects (cfg : FanIn V) (p : AggregatedInput V × Recent V) : Prop where
  pending : ∀ r, (p.1.pending r).getD ∅ = collected (p.2 r)
  resolved : ∀ r expected, p.1.expectedSources r = some expected → cfg.Expects r (p.2 r) expected

variable {cfg : FanIn V} {s : AggregatedInput V} {p : AggregatedInput V × Recent V}
  {payloads : List (String × V)} {r fromStage : String} {data : V} {expected : Finset String}

theorem collected_concat : collected (payloads ++ [(fromStage, data)]) =
    (collected payloads).insert fromStage data := by
  simp [collected]

/-- What is expected stays so as payloads come. -/
theorem FanIn.Expects.append (h : cfg.Expects r payloads expected) (more : List (String × V)) :
    cfg.Expects r (payloads ++ more) expected := by
  unfold FanIn.Expects at h ⊢
  split at h
  · exact h
  · obtain ⟨hsub, p, hp, hresolve⟩ := h
    exact ⟨hsub, p, List.mem_append_left _ hp, hresolve⟩

/-- What is known to be expected when a payload comes, and what is kept of it. -/
theorem AggregatedInput.expected_spec (hkept : ∀ expected, s.expectedSources r = some expected →
      cfg.Expects r payloads expected) :
    (∀ expected, (s.expected cfg r fromStage data).1 = .ok (some expected) →
        cfg.Expects r (payloads ++ [(fromStage, data)]) expected) ∧
      (∀ expected, (s.expected cfg r fromStage data).2 r = some expected →
        cfg.Expects r (payloads ++ [(fromStage, data)]) expected) ∧
      ∀ r' ≠ r, (s.expected cfg r fromStage data).2 r' = s.expectedSources r' := by
  unfold AggregatedInput.expected
  split
  next known hknown =>
    have hexpects := (hkept known hknown).append [(fromStage, data)]
    exact ⟨by simpa using hexpects, by simpa [hknown] using hexpects, fun _ _ => rfl⟩
  next hnone hstatic =>
    exact ⟨by simp [FanIn.Expects, hstatic], by simp [hnone], fun _ _ => rfl⟩
  next resolve hnone hresolve =>
    split
    · exact ⟨by simp, by simp [hnone], fun _ _ => rfl⟩
    · exact ⟨by simp, by simp [hnone], fun _ _ => rfl⟩
    next resolved hresolved =>
      obtain ⟨answer, hanswer, hnormal⟩ := Option.map_eq_some_iff.mp hresolved
      unfold FanIn.normalize at hnormal
      split_ifs at hnormal with hempty hsub
      obtain rfl : answer = resolved := by simpa using hnormal
      have hexpects : cfg.Expects r (payloads ++ [(fromStage, data)]) answer := by
        simp only [FanIn.Expects, hresolve]
        exact ⟨hsub, _, List.mem_append_right _ (List.mem_singleton_self _), hanswer⟩
      exact ⟨by simpa using hexpects, by simpa using hexpects, fun r' hne => update_of_ne hne _ _⟩

/-- After a merge or `cancel` nothing is held of the request. -/
theorem Collects.cancel (h : Collects cfg p) (r : String) :
    Collects cfg (p.1.cancel r, update p.2 r []) := by
  constructor
  · intro r'
    by_cases hr : r' = r <;> simp [AggregatedInput.cancel, hr, h.pending, collected]
  · intro r' expected
    by_cases hr : r' = r
    · simp [AggregatedInput.cancel, hr]
    · simpa [AggregatedInput.cancel, hr] using h.resolved r' expected

/-- A payload is held beside those that have come before. -/
theorem Collects.keep (h : Collects cfg p) :
    Collects cfg (⟨update p.1.pending r (some (((p.1.pending r).getD ∅).insert fromStage data)),
        (p.1.expected cfg r fromStage data).2⟩, update p.2 r (p.2 r ++ [(fromStage, data)])) := by
  obtain ⟨-, hsame, hother⟩ := @AggregatedInput.expected_spec _ _ _ _ r fromStage data
    (h.resolved r)
  constructor
  · intro r'
    by_cases hr : r' = r
    · simp [hr, h.pending, collected_concat]
    · simp [hr, h.pending]
  · intro r' expected hexpected
    by_cases hr : r' = r
    · subst hr
      simpa using hsame expected hexpected
    · simpa [hr] using h.resolved r' expected (hother r' hr ▸ hexpected)

/-- Every call keeps what has come. -/
theorem Collects.call (h : Collects cfg p) (call : InputCall V) :
    Collects cfg (AggregatedInput.call cfg p call) := by
  cases call with
  | cancel r => exact h.cancel r
  | receive r fromStage data =>
    simp only [AggregatedInput.call, AggregatedInput.receive]
    by_cases hsource : fromStage ∈ cfg.sources
    · have hkeep := @Collects.keep _ _ _ r fromStage data h
      have hcancel := hkeep.cancel r
      rw [update_idem] at hcancel
      simp only [hsource, not_true, if_false]
      split
      · exact hkeep
      · exact hkeep
      · split_ifs
        · exact hcancel
        · exact hkeep
        · exact hkeep
    · simpa [hsource] using h

/-- **Fan-in.** After any calls, of any requests in any order, a payload makes the handler merge
only the last payloads of its own request since the last merge or `cancel`, one of each stage, and
these stages are the expected ones. Without a resolver it merges once all sources are there. -/
theorem fan_in {calls : List (InputCall V)} (hcalls : calls.foldl (AggregatedInput.call cfg)
      (⟨fun _ => none, fun _ => none⟩, fun _ => []) = p) (hsource : fromStage ∈ cfg.sources) :
    (∀ inputs, (p.1.receive cfg r fromStage data).2 = .merged inputs →
      inputs = collected (p.2 r ++ [(fromStage, data)]) ∧
        cfg.Expects r (p.2 r ++ [(fromStage, data)]) inputs.keys) ∧
    (cfg.expectedSourcesFn = none →
      (collected (p.2 r ++ [(fromStage, data)])).keys = cfg.sources →
        (p.1.receive cfg r fromStage data).2 =
          .merged (collected (p.2 r ++ [(fromStage, data)]))) := by
  have hcollects : Collects cfg p := by
    rw [← hcalls]
    refine List.foldlRecOn calls _ ⟨fun _ => rfl, by simp⟩ fun p h call _ => h.call call
  obtain ⟨hexpects, -, -⟩ := @AggregatedInput.expected_spec _ _ _ _ r fromStage data
    (hcollects.resolved r)
  simp only [AggregatedInput.receive, hsource, not_true, if_false, hcollects.pending,
    ← collected_concat]
  constructor
  · intro inputs hmerged
    split at hmerged
    · cases hmerged
    · cases hmerged
    next expected hok =>
      split_ifs at hmerged with hinside hall
      cases hmerged
      exact ⟨rfl, hall ▸ hexpects expected hok⟩
  · intro hstatic hall
    have hok : (p.1.expected cfg r fromStage data).1 = .ok (some cfg.sources) := by
      unfold AggregatedInput.expected
      split
      next known hknown =>
        have hsources := hcollects.resolved r known hknown
        simp only [FanIn.Expects, hstatic] at hsources
        rw [hsources]
      · rfl
      next hresolve => simp [hstatic] at hresolve
    rw [hok]
    simp [hall]

/-- The payloads of two requests come interleaved, and the second stage of one of them completes
it. -/
theorem fan_in_two : ∃ (p : AggregatedInput ℕ × Recent ℕ) (inputs : Inputs ℕ),
    p.2 "r" = [("image", 1), ("image", 3)] ∧
      (p.1.receive ⟨{"image", "audio"}, none⟩ "r" "audio" 4).2 = .merged inputs := by
  have hfan := @fan_in ℕ ⟨{"image", "audio"}, none⟩ _ "r" "audio" 4 [.receive "r" "image" 1,
    .receive "q" "audio" 2, .receive "r" "image" 3] rfl (by decide)
  exact ⟨_, _, rfl, hfan.2 rfl (by decide)⟩

end Omni.Stage
