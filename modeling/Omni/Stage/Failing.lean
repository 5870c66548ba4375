import Omni.Stage.Steps

/-!
# When a stage raises

For each piece of the outbox drain, what has to be wrong for an exception to leave it.
-/

namespace Omni.Stage

variable {V : Type} (cfg : Config V) (s : State V) {r target : String} {result : V}
  {all rest targets : List String} {single : Bool}

/-- The local dispatcher is missing, or does not know a target. -/
def NotDispatched (target : String) : Prop := ∀ stages ∈ cfg.localDispatcher, target ∉ stages

instance (target : String) : Decidable (NotDispatched cfg target) :=
  inferInstanceAs (Decidable (∀ stages ∈ cfg.localDispatcher, target ∉ stages))

/-- A stream signal to a target raises before it is sent: the target has no endpoint, or the local
dispatcher does not know it. -/
def SignalFails (target : String) : Prop :=
  target ∉ cfg.endpoints ∨ (target ∈ cfg.sameProcessTargets ∧ NotDispatched cfg target)

/-- A chunk for a target raises before it is sent: as a signal does, or because it is of a kind that
cannot be sent. -/
def ChunkFails (target : String) (data : V) : Prop :=
  SignalFails cfg target ∨
    (target ∉ cfg.sameProcessTargets ∧ ∃ error, cfg.chunkIsDirect target data = .error error)

/-- A payload goes to a target as a local object. -/
def GoesLocally (requestId target : String) (all : List String) (useLocalObject : Bool) : Prop :=
  useLocalObject ∧ target ∈ cfg.sameProcessTargets ∧
    s.canSendFullPayloadLocally requestId target all

/-- A payload raises before it is sent: its target has no endpoint, its projector raises, the local
dispatcher does not know the target, or it is of a kind that cannot be sent. -/
def PayloadFails (requestId : String) (result : V) (target : String) (all : List String)
    (single : Bool) : Prop :=
  target ∉ cfg.endpoints ∨
    match project cfg result target single with
    | .error _ => True
    | .ok (projected, useLocalObject) =>
      (GoesLocally cfg s requestId target all useLocalObject ∧ NotDispatched cfg target) ∨
        (¬GoesLocally cfg s requestId target all useLocalObject ∧
          ∃ error, cfg.payloadIsDirect target projected = .error error)

/-- `_route_result` raises at the first of the payloads that are left. -/
def PayloadsFail (requestId : String) (result : V) (targets all : List String) (single : Bool) :
    Prop :=
  ∃ target ∈ targets.head?, PayloadFails cfg s requestId result target all single

/-- `_route_result` raises after the signals: `get_next` raises, or the first payload does. -/
def RouteNextFails (requestId : String) (result : V) (all : List String) : Prop :=
  match cfg.getNext requestId result with
  | .error _ => True
  | .ok none => False
  | .ok (some nextStages) =>
    PayloadsFail cfg s requestId result nextStages all (nextStages.length = 1)

/-- `_route_result` raises at the first of the signals that are left, or after them. -/
def SignalsFail (requestId : String) (result : V) (targets all : List String) : Prop :=
  match targets with
  | [] => RouteNextFails cfg s requestId result all
  | target :: _ => SignalFails cfg target

/-- `_route_result` raises before its first await. -/
def RouteFails (requestId : String) (result : V) : Prop :=
  match streamDoneTargets cfg requestId result with
  | .error _ => True
  | .ok targets => SignalsFail cfg s requestId result targets targets

/-- `_route_result` raises when its await returns. -/
def ReturnFails : Prop :=
  match s.drain with
  | .signals requestId result true _ rest all => SignalsFail cfg s requestId result rest all
  | .payloads requestId result true _ _ _ rest all single =>
    PayloadsFail cfg s requestId result rest all single
  | _ => False

variable {cfg s}

theorem State.raiseDrain_drain {error : String} : (s.raiseDrain error).drain = .crashed := rfl

theorem sendStreamSignalToTarget_crashed :
    (s.sendStreamSignalToTarget cfg r result target rest all).drain = .crashed ↔
      SignalFails cfg target := by
  unfold State.sendStreamSignalToTarget SignalFails NotDispatched
  by_cases hendpoint : target ∉ cfg.endpoints
  · simp [hendpoint, State.raiseDrain_drain]
  · by_cases hsame : target ∈ cfg.sameProcessTargets
    · cases hdispatcher : cfg.localDispatcher with
      | none => simp [hendpoint, hsame, State.raiseDrain_drain]
      | some stages =>
        by_cases hknown : target ∉ stages <;> simp [hendpoint, hsame, hknown,
          State.raiseDrain_drain]
    · simp [hendpoint, hsame]

theorem sendToStage_crashed :
    (s.sendToStage cfg r result target rest all single).drain = .crashed ↔
      PayloadFails cfg s r result target all single := by
  unfold State.sendToStage PayloadFails GoesLocally NotDispatched
  by_cases hendpoint : target ∉ cfg.endpoints
  · simp [hendpoint, State.raiseDrain_drain]
  · simp only [hendpoint, if_false, false_or]
    cases project cfg result target single with
    | error => simp [State.raiseDrain_drain]
    | ok projected =>
      dsimp only
      by_cases hlocal : projected.2 = true ∧ target ∈ cfg.sameProcessTargets ∧
          s.canSendFullPayloadLocally r target all = true
      · cases hdispatcher : cfg.localDispatcher with
        | none => simp [hlocal, State.raiseDrain_drain]
        | some stages =>
          by_cases hknown : target ∉ stages <;>
            simp [hlocal, hknown, State.raiseDrain_drain, State.awaitPayload]
      · cases hdirect : cfg.payloadIsDirect target projected.1 <;>
          simp [hlocal, State.raiseDrain_drain, State.awaitPayload]

/-- When the payloads that are left raise. -/
theorem sendPayloads_crashed :
    (s.sendPayloads cfg r result targets all single).drain = .crashed ↔
      PayloadsFail cfg s r result targets all single := by
  cases targets with
  | nil => simp [State.sendPayloads, State.routed, PayloadsFail]
  | cons target rest => simpa [State.sendPayloads, PayloadsFail] using sendToStage_crashed

/-- When `_route_result` raises after the signals. -/
theorem routeNext_crashed :
    (s.routeNext cfg r result all).drain = .crashed ↔ RouteNextFails cfg s r result all := by
  unfold State.routeNext RouteNextFails
  cases cfg.getNext r result with
  | error => simp [State.raiseDrain_drain]
  | ok nextStages =>
    cases nextStages with
    | none => simp
    | some nextStages => exact sendPayloads_crashed

/-- When the signals that are left raise. -/
theorem sendSignals_crashed :
    (s.sendSignals cfg r result targets all).drain = .crashed ↔
      SignalsFail cfg s r result targets all := by
  cases targets with
  | nil => exact routeNext_crashed
  | cons target rest => exact sendStreamSignalToTarget_crashed

/-- When `_route_result` raises before its first await. -/
theorem routeResult_crashed :
    (s.routeResult cfg r result).drain = .crashed ↔ RouteFails cfg s r result := by
  unfold State.routeResult RouteFails
  cases streamDoneTargets cfg r result with
  | error => simp [State.raiseDrain_drain]
  | ok targets => exact sendSignals_crashed

/-- When the drain raises as its await returns. -/
theorem drainReturned_crashed {s' : State V} (h : s.drainReturned cfg = some s') :
    s'.drain = .crashed ↔ ReturnFails cfg s := by
  unfold State.drainReturned at h
  unfold ReturnFails
  split at h
  case h_6 => cases h
  all_goals obtain rfl := Option.some.inj h
  all_goals simp only [*]
  · simp
  · exact sendSignals_crashed
  · simp [State.routed]
  · exact sendPayloads_crashed
  · simp

end Omni.Stage
