import Mathlib.Data.Finset.Basic
import Omni.Streaming.Vocoder

/-!
# The streaming vocoder of MOSS-TTS Local

`MossTTSLocalStreamingVocoderScheduler` of `models/moss_tts_local/streaming_vocoder.py` with its
`_CodecStreamSession`, and `_pump_streams` of the base class. Streams hold slots of one codec
session, which decodes frames of many slots in one step. All sections run under the state lock; a
step is a look at the session or the codec inside one.
-/

namespace Omni.Tts

/-- The codec: the streaming state of a slot after a reset, and what a decoded step makes of it. -/
structure SlotCodec (C σ : Type) where
  fresh : σ
  advance : σ → List C → σ

/-- What the constructor of the scheduler accepts. -/
structure MossConfig where
  streamSlots : ℕ
  streamChunkFrames : ℕ
  initialChunkFrames : ℤ
  coalesceFloorFrames : ℤ
  maxStepFrames : ℕ
  maxBatchSize : ℕ
  slots_pos : 0 < streamSlots
  chunk_pos : 0 < streamChunkFrames
  chunk_le : streamChunkFrames ≤ maxStepFrames

/-- `_CodecStreamSession`, with the streaming states of its slots. The slots that a failed reset has
kept away from `_free_stream_slots` are noted. -/
structure CodecSession (σ : Type) where
  freeStreamSlots : List ℕ
  streamSlotsInUse : List ℕ
  quarantined : List ℕ
  states : ℕ → σ

/-- `_LocalStreamState`. The frames that have arrived, the steps that have passed frames to the
codec, and a failed call of the codec are noted. -/
structure LocalStreamState (C : Type) where
  slot : Option ℕ
  pending : List C
  threshold : ℕ
  arrived : List C
  fed : List (List C)
  failed : Bool

/-- An utterance of a wave of `decode_offline`. -/
structure OfflineItem (C : Type) where
  slot : ℕ
  codes : List C
  cursor : ℕ
  fed : List (List C)

/-- Where `decode_offline` is. -/
inductive OfflineStage (C : Type)
  /-- Before the reset for the next wave. -/
  | reset
  | steps (wave : List (OfflineItem C))
  /-- Before the reset of the borrowed slots. -/
  | finish (succeeded : Bool)

/-- The variables of `decode_offline`. -/
structure OfflineDecode (C : Type) where
  available : List ℕ
  borrowed : List ℕ
  waveSize : ℕ
  todo : List (List C)
  results : List (List (List C))
  stage : OfflineStage C

/-- Who has called `decode_offline`. -/
inductive OfflineCaller (R : Type)
  | vocodeBatch
  | decodeDelta (requestId : R)
  | fallback (requestId : R)

/-- Where the section under the lock is. -/
inductive MossPoint (R C : Type)
  | idle
  /-- The first loop of `on_stream_chunk_batch`. -/
  | ingesting
  /-- `_pump_streams`. -/
  | pumping
  /-- `on_step_failure`. -/
  | stepFailed (requestIds : List R)
  /-- `decode_delta`. -/
  | flushing (requestId : R)
  /-- After `decode_delta`, until the state of the request is cleared. -/
  | closing (requestId : R)
  | offline (decode : OfflineDecode C) (caller : OfflineCaller R)

/-- The scheduler. The keys of `_stream_states` are in the order of their insertion. -/
structure MossVocoder (R C σ : Type) where
  session : CodecSession σ
  order : List R
  streams : R → Option (LocalStreamState C)
  emitted : Finset R
  point : MossPoint R C

/-- The codec returns, or raises and leaves some states in the slots it was called for. -/
inductive CodecChoice (σ : Type)
  | returns
  | raises (states : ℕ → σ)

/-- A step. A value of `initial_codec_chunk_frames` may be in the parameters of a payload, or in the
metadata of a chunk. -/
inductive MossVocoderAction (R C σ : Type)
  /-- The payload of a streaming request. -/
  | payload (requestId : R) (initial : Option ℕ)
  | ingest (requestId : R) (frame : C) (initial : Option ℕ)
  /-- A chunk raises, and its request is aborted. -/
  | ingestFails (requestId : R) (choice : CodecChoice σ)
  /-- A turn of `_pump_streams`, with the requests that are marked as aborted. -/
  | pump (choice : CodecChoice σ) (marked : Finset R)
  | failNext (choice : CodecChoice σ)
  | done (requestId : R)
  | flush (choice : CodecChoice σ)
  /-- `decode_offline` for requests that do not stream, or for the fallback of one that does. -/
  | decodeOffline (codes : List (List C))
  | offline (choice : CodecChoice σ)
  | close (choice : CodecChoice σ)
  /-- `abort`. -/
  | abort (requestId : R) (choice : CodecChoice σ)
  /-- The session is closed, and a new one is made when it is needed. -/
  | renew

/-- `_SESSION_RESERVED_OFFLINE_SLOTS`. -/
def sessionReservedOfflineSlots : ℕ := 1

namespace MossConfig

variable (cfg : MossConfig)

/-- `_default_initial_chunk_frames`. -/
def defaultInitialChunkFrames : ℕ := (min cfg.initialChunkFrames cfg.streamChunkFrames).toNat

/-- `_coalesce_floor_frames`. -/
def coalesceFloor : ℕ := (min cfg.coalesceFloorFrames cfg.streamChunkFrames).toNat

/-- `join_floor`. -/
def joinFloor : ℕ :=
  max 1 (min (if cfg.coalesceFloor ≠ 0 then cfg.coalesceFloor else 5) cfg.streamChunkFrames)

end MossConfig

namespace CodecSession

variable {C σ : Type}

/-- A new session. -/
def init (codec : SlotCodec C σ) (streamSlots : ℕ) : CodecSession σ :=
  ⟨List.range streamSlots, [], [], fun _ => codec.fresh⟩

/-- `acquire`. -/
def acquire (s : CodecSession σ) : CodecSession σ × Option ℕ :=
  match s.freeStreamSlots.getLast? with
  | none => (s, none)
  | some slot =>
    ({ s with
      freeStreamSlots := s.freeStreamSlots.dropLast
      streamSlotsInUse := s.streamSlotsInUse ++ [slot] }, some slot)

/-- The states of some slots are set. -/
def setStates (s : CodecSession σ) (slots : List ℕ) (states : ℕ → σ) : CodecSession σ :=
  { s with states := fun slot => if slot ∈ slots then states slot else s.states slot }

/-- `_reset_slots`, and if it returns. -/
def resetSlots (codec : SlotCodec C σ) (s : CodecSession σ) (slots : List ℕ) :
    CodecChoice σ → CodecSession σ × Bool
  | .returns => (s.setStates slots fun _ => codec.fresh, true)
  | .raises states => (s.setStates slots states, false)

/-- `release`, and if it returns. -/
def release (codec : SlotCodec C σ) (s : CodecSession σ) (slot : ℕ) (choice : CodecChoice σ) :
    CodecSession σ × Bool :=
  if slot ∈ s.streamSlotsInUse then
    match s.resetSlots codec [slot] choice with
    | (s, true) =>
      ({ s with
        streamSlotsInUse := s.streamSlotsInUse.erase slot
        freeStreamSlots := s.freeStreamSlots ++ [slot] }, true)
    | (s, false) => (s, false)
  else (s, false)

/-- `step`, and if it returns. The codes of a slot are given by a dict. -/
def step (codec : SlotCodec C σ) (s : CodecSession σ) (slotCodes : ℕ → Option (List C)) :
    CodecChoice σ → CodecSession σ × Bool
  | .returns =>
    ({ s with
      states := fun slot =>
        (slotCodes slot).elim (s.states slot) fun codes => codec.advance (s.states slot) codes },
      true)
  | .raises states =>
    ({ s with
      states := fun slot => (slotCodes slot).elim (s.states slot) fun _ => states slot }, false)

end CodecSession

/-- The frames of a step are taken from a buffer and passed to the codec. -/
def LocalStreamState.feed {C : Type} (state : LocalStreamState C) (stepT : ℕ) :
    LocalStreamState C :=
  { state with pending := state.pending.drop stepT, fed := state.fed ++ [state.pending.take stepT] }

/-- An utterance after a step of its wave. -/
def OfflineItem.advance {C : Type} (item : OfflineItem C) (stepT : ℕ) : OfflineItem C :=
  if stepT ≤ item.codes.length - item.cursor then
    { item with
      cursor := item.cursor + stepT
      fed := item.fed ++ [(item.codes.drop item.cursor).take stepT] }
  else item

namespace MossVocoder

variable {R C σ : Type} (cfg : MossConfig) (codec : SlotCodec C σ)

/-- Before the first request. -/
def init : MossVocoder R C σ := ⟨.init codec cfg.streamSlots, [], fun _ => none, ∅, .idle⟩

/-- The items of `_stream_states`. -/
def items (s : MossVocoder R C σ) : List (R × LocalStreamState C) :=
  s.order.filterMap fun requestId => (s.streams requestId).map fun state => (requestId, state)

/-- `_create_stream_state`. -/
def newState : LocalStreamState C := ⟨none, [], 0, [], [], false⟩

/-- The shortest of some buffers. -/
def minPending (items : List (R × LocalStreamState C)) : ℕ :=
  ((items.map fun item => item.2.pending.length).min?).getD 0

/-- The dict of the codes of the slots of participants. -/
def slotCodes (participants : List (R × LocalStreamState C)) (stepT : ℕ) (slot : ℕ) :
    Option (List C) :=
  (participants.reverse.find? fun item => item.2.slot = some slot).map fun item =>
    item.2.pending.take stepT

variable [DecidableEq R]

/-- The state of a request is replaced. -/
def setState (s : MossVocoder R C σ) (requestId : R) (state : LocalStreamState C) :
    MossVocoder R C σ :=
  { s with streams := Function.update s.streams requestId (some state) }

/-- `_get_or_create_stream_state` for a request that is neither aborted nor completed. -/
def getOrCreate (s : MossVocoder R C σ) (requestId : R) : MossVocoder R C σ × LocalStreamState C :=
  match s.streams requestId with
  | some state => (s, state)
  | none => ({ s.setState requestId newState with order := s.order ++ [requestId] }, newState)

/-- The threshold that `_latch_thresholds` sets. -/
def latchedThreshold (s : MossVocoder R C σ) (requestId : R) (initial : Option ℕ) : ℕ :=
  let initialChunkFrames := match initial with
    | some value => Streaming.resolveInitialCodecChunkFrames (some value) cfg.streamChunkFrames
    | none => cfg.defaultInitialChunkFrames
  if 0 < initialChunkFrames ∧ requestId ∉ s.emitted then initialChunkFrames
  else cfg.streamChunkFrames

/-- `on_streaming_new_request`. -/
def payload (s : MossVocoder R C σ) (requestId : R) (initial : Option ℕ) : MossVocoder R C σ :=
  let (s, state) := s.getOrCreate requestId
  s.setState requestId { state with threshold := s.latchedThreshold cfg requestId initial }

/-- `_ensure_slot`. -/
def ensureSlot (s : MossVocoder R C σ) (requestId : R) (state : LocalStreamState C) :
    MossVocoder R C σ :=
  match state.slot with
  | some _ => s.setState requestId state
  | none =>
    let (session, slot) := s.session.acquire
    { s.setState requestId { state with slot := slot } with session := session }

/-- `_ingest_stream_item`. -/
def ingest (s : MossVocoder R C σ) (requestId : R) (frame : C) (initial : Option ℕ) :
    MossVocoder R C σ :=
  let (s, state) := s.getOrCreate requestId
  let threshold :=
    if state.threshold = 0 then s.latchedThreshold cfg requestId initial else state.threshold
  s.ensureSlot requestId { state with
    threshold := threshold
    pending := state.pending ++ [frame]
    arrived := state.arrived ++ [frame] }

/-- `clear_stream_state`, and if it returns. -/
def clearStreamState (s : MossVocoder R C σ) (requestId : R) (choice : CodecChoice σ) :
    MossVocoder R C σ × Bool :=
  match s.streams requestId with
  | none => ({ s with emitted := s.emitted.erase requestId }, true)
  | some state =>
    let s := { s with
      emitted := s.emitted.erase requestId
      order := s.order.erase requestId
      streams := Function.update s.streams requestId none }
    match state.slot with
    | none => (s, true)
    | some slot =>
      let (session, returned) := s.session.release codec slot choice
      ({ s with session := session }, returned)

/-- `_can_join_coalesced_step`. -/
def canJoin (s : MossVocoder R C σ) (floor : ℕ) (item : R × LocalStreamState C) : Bool :=
  item.2.threshold ≤ item.2.pending.length ∨ item.1 ∈ s.emitted ∧ floor ≤ item.2.pending.length

/-- The streams with a slot and a threshold. -/
def slotted (s : MossVocoder R C σ) : List (R × LocalStreamState C) :=
  s.items.filter fun item => item.2.slot.isSome ∧ 0 < item.2.threshold

/-- The streams that have reached their thresholds. -/
def due (s : MossVocoder R C σ) : List (R × LocalStreamState C) :=
  s.slotted.filter fun item => item.2.threshold ≤ item.2.pending.length

/-- `select_step_participants`. -/
def selectStepParticipants (s : MossVocoder R C σ) : List (R × LocalStreamState C) :=
  if s.due = [] then []
  else s.slotted.filter (s.canJoin (min (minPending s.due) cfg.joinFloor))

/-- The frames of the step that `build_step_plan` plans. -/
def stepT (s : MossVocoder R C σ) (participants : List (R × LocalStreamState C)) : ℕ :=
  participants.foldl (fun t item => if item.1 ∈ s.emitted then t else min t item.2.threshold)
    (min (minPending participants) cfg.streamChunkFrames)

/-- `run_step` after its step has returned, and the loop over its participants. Those that are
marked as aborted emit nothing. -/
def runStep (s : MossVocoder R C σ) (participants : List (R × LocalStreamState C)) (stepT : ℕ)
    (marked : Finset R) : MossVocoder R C σ :=
  { s with
    streams := fun requestId => (s.streams requestId).map fun state =>
      if requestId ∈ participants.map Prod.fst then
        { state.feed stepT with threshold := cfg.streamChunkFrames }
      else state
    emitted := s.emitted ∪ ((participants.map Prod.fst).toFinset \ marked) }

/-- A turn of `_pump_streams`. -/
def pump (s : MossVocoder R C σ) (choice : CodecChoice σ) (marked : Finset R) :
    MossVocoder R C σ :=
  match s.selectStepParticipants cfg with
  | [] => { s with point := .idle }
  | first :: rest =>
    let participants := first :: rest
    let stepT := s.stepT cfg participants
    match s.session.step codec (slotCodes participants stepT) choice with
    | (session, true) =>
      { ({ s with session := session }.runStep cfg participants stepT marked) with
        point := .pumping }
    | (session, false) =>
      { s with
        session := session
        streams := fun requestId => (s.streams requestId).map fun state =>
          if requestId ∈ participants.map Prod.fst then { state with failed := true } else state
        point := .stepFailed (participants.map Prod.fst) }

/-- `decode_offline` until its first reset. -/
def beginOffline (s : MossVocoder R C σ) (codes : List (List C)) (caller : OfflineCaller R) :
    MossVocoder R C σ :=
  let reserved := List.range' cfg.streamSlots sessionReservedOfflineSlots
  let requestedWaveSize := min (max cfg.maxBatchSize 1) codes.length
  let kept := s.session.freeStreamSlots.length -
    min (requestedWaveSize - reserved.length) s.session.freeStreamSlots.length
  let borrowed := s.session.freeStreamSlots.drop kept
  let available := reserved ++ borrowed
  { s with
    session := { s.session with freeStreamSlots := s.session.freeStreamSlots.take kept }
    point := .offline ⟨available, borrowed, min requestedWaveSize available.length, codes, [],
      .reset⟩ caller }

/-- `decode_delta`, up to its next look at the session. -/
def flush (s : MossVocoder R C σ) (requestId : R) (state : LocalStreamState C)
    (choice : CodecChoice σ) : MossVocoder R C σ :=
  match state.slot with
  | none =>
    if state.pending = [] then { s with point := .closing requestId }
    else
      (s.setState requestId { state with pending := [] }).beginOffline cfg [state.pending]
        (.decodeDelta requestId)
  | some slot =>
    if state.pending = [] then
      match s.session.release codec slot choice with
      | (session, true) =>
        { s.setState requestId { state with slot := none } with
          session := session, point := .closing requestId }
      | (session, false) =>
        { s.setState requestId { state with failed := true } with
          session := session, point := .closing requestId }
    else
      let stepT := min state.pending.length cfg.maxStepFrames
      let codes := state.pending.take stepT
      match s.session.step codec (fun k => if k = slot then some codes else none) choice with
      | (session, true) =>
        { s.setState requestId (state.feed stepT) with session := session }
      | (session, false) =>
        { s.setState requestId { state with
            pending := state.pending.drop stepT, failed := true } with
          session := session, point := .closing requestId }

/-- `decode_offline` returns or raises. -/
def endOffline (s : MossVocoder R C σ) (results : List (List (List C))) (succeeded : Bool) :
    OfflineCaller R → MossVocoder R C σ
  | .vocodeBatch => { s with point := .idle }
  | .fallback requestId => { s with point := .closing requestId }
  | .decodeDelta requestId =>
    { s with
      streams := Function.update s.streams requestId <| (s.streams requestId).map fun state =>
        if succeeded then { state with fed := state.fed ++ results.flatten }
        else { state with failed := true }
      point := .closing requestId }

/-- The frames of the next step of a wave. -/
def offlineStepT (wave : List (OfflineItem C)) : ℕ :=
  let positive := (wave.map fun item => item.codes.length - item.cursor).filter (0 < ·)
  if positive.any (cfg.maxStepFrames ≤ ·) then cfg.maxStepFrames else positive.min?.getD 0

/-- The dict of the codes of a step of a wave. -/
def offlinePlan (wave : List (OfflineItem C)) (stepT : ℕ) (slot : ℕ) : Option (List C) :=
  (wave.reverse.find? fun item =>
    item.slot = slot ∧ stepT ≤ item.codes.length - item.cursor).map fun item =>
      (item.codes.drop item.cursor).take stepT

/-- `decode_offline`, up to its next look at the codec. -/
def offlineStep (s : MossVocoder R C σ) (o : OfflineDecode C) (caller : OfflineCaller R)
    (choice : CodecChoice σ) : MossVocoder R C σ :=
  match o.stage with
  | .reset =>
    if o.todo = [] then { s with point := .offline { o with stage := .finish true } caller }
    else
      let codes := o.todo.take o.waveSize
      let slots := o.available.take codes.length
      let (session, returned) := s.session.resetSlots codec slots choice
      let stage : OfflineStage C :=
        if returned then .steps (List.zipWith (fun slot codes => ⟨slot, codes, 0, []⟩) slots codes)
        else .finish false
      { s with
        session := session
        point := .offline { o with todo := o.todo.drop o.waveSize, stage := stage } caller }
  | .steps wave =>
    if ∀ item ∈ wave, item.codes.length ≤ item.cursor then
      -- `torch.cat` raises if nothing was decoded for an utterance
      if ∃ item ∈ wave, item.fed.length = 0 then
        { s with point := .offline { o with stage := .finish false } caller }
      else
        { s with
          point := .offline { o with
            results := o.results ++ wave.map OfflineItem.fed, stage := .reset } caller }
    else
      let stepT := offlineStepT cfg wave
      let (session, returned) := s.session.step codec (offlinePlan wave stepT) choice
      let stage : OfflineStage C :=
        if returned then .steps (wave.map fun item => item.advance stepT)
        else .finish false
      { s with session := session, point := .offline { o with stage := stage } caller }
  | .finish succeeded =>
    if o.borrowed = [] then s.endOffline o.results succeeded caller
    else
      match s.session.resetSlots codec o.borrowed choice with
      | (session, true) =>
        let session := { session with freeStreamSlots := session.freeStreamSlots ++ o.borrowed }
        { s with session := session }.endOffline o.results succeeded caller
      | (session, false) =>
        let session := { session with quarantined := session.quarantined ++ o.borrowed }
        { s with session := session }.endOffline o.results false caller

/-- A step. -/
def step (s : MossVocoder R C σ) : MossVocoderAction R C σ → Option (MossVocoder R C σ)
  | .payload requestId initial =>
    match s.point with
    | .idle => some (s.payload cfg requestId initial)
    | _ => none
  | .ingest requestId frame initial =>
    match s.point with
    | .idle | .ingesting =>
      some { s.ingest cfg requestId frame initial with point := .ingesting }
    | _ => none
  | .ingestFails requestId choice =>
    match s.point with
    | .idle | .ingesting =>
      let (t, returned) := s.clearStreamState codec requestId choice
      some { t with point := if returned then .ingesting else .idle }
    | _ => none
  | .pump choice marked =>
    match s.point with
    | .ingesting | .pumping => some (s.pump cfg codec choice marked)
    | _ => none
  | .failNext choice =>
    match s.point with
    | .stepFailed [] => some { s with point := .idle }
    | .stepFailed (requestId :: rest) =>
      let (t, returned) := s.clearStreamState codec requestId choice
      some { t with point := if returned then .stepFailed rest else .idle }
    | _ => none
  | .done requestId =>
    match s.point with
    | .idle => some { (s.getOrCreate requestId).1 with point := .flushing requestId }
    | _ => none
  | .flush choice =>
    match s.point with
    | .flushing requestId =>
      (s.streams requestId).map fun state => s.flush cfg codec requestId state choice
    | _ => none
  | .decodeOffline codes =>
    if codes = [] then none
    else match s.point with
      | .idle => some (s.beginOffline cfg codes .vocodeBatch)
      | .closing requestId => some (s.beginOffline cfg codes (.fallback requestId))
      | _ => none
  | .offline choice =>
    match s.point with
    | .offline o caller => some (s.offlineStep cfg codec o caller choice)
    | _ => none
  | .close choice =>
    match s.point with
    | .closing requestId =>
      some { (s.clearStreamState codec requestId choice).1 with point := .idle }
    | _ => none
  | .abort requestId choice =>
    match s.point with
    | .idle => some (s.clearStreamState codec requestId choice).1
    | _ => none
  | .renew =>
    match s.point with
    | .idle => if s.order = [] then some { s with session := .init codec cfg.streamSlots } else none
    | _ => none

/-- What a step has been. -/
inductive Stepped (s : MossVocoder R C σ) : MossVocoderAction R C σ → MossVocoder R C σ → Prop
  | payload (requestId : R) (initial : Option ℕ) (hpoint : s.point = .idle) :
    Stepped s (.payload requestId initial) (s.payload cfg requestId initial)
  | ingest (requestId : R) (frame : C) (initial : Option ℕ)
    (hpoint : s.point = .idle ∨ s.point = .ingesting) :
    Stepped s (.ingest requestId frame initial)
      { s.ingest cfg requestId frame initial with point := .ingesting }
  | ingestFails (requestId : R) (choice : CodecChoice σ)
    (hpoint : s.point = .idle ∨ s.point = .ingesting) :
    Stepped s (.ingestFails requestId choice)
      { (s.clearStreamState codec requestId choice).1 with
        point := if (s.clearStreamState codec requestId choice).2 then .ingesting else .idle }
  | pump (choice : CodecChoice σ) (marked : Finset R)
    (hpoint : s.point = .ingesting ∨ s.point = .pumping) :
    Stepped s (.pump choice marked) (s.pump cfg codec choice marked)
  | failed (choice : CodecChoice σ) (hpoint : s.point = .stepFailed []) :
    Stepped s (.failNext choice) { s with point := .idle }
  | failNext (choice : CodecChoice σ) (requestId : R) (rest : List R)
    (hpoint : s.point = .stepFailed (requestId :: rest)) :
    Stepped s (.failNext choice)
      { (s.clearStreamState codec requestId choice).1 with
        point := if (s.clearStreamState codec requestId choice).2 then .stepFailed rest
          else .idle }
  | done (requestId : R) (hpoint : s.point = .idle) :
    Stepped s (.done requestId) { (s.getOrCreate requestId).1 with point := .flushing requestId }
  | flush (choice : CodecChoice σ) (requestId : R) (state : LocalStreamState C)
    (hpoint : s.point = .flushing requestId) (hstate : s.streams requestId = some state) :
    Stepped s (.flush choice) (s.flush cfg codec requestId state choice)
  | vocodeBatch (codes : List (List C)) (hcodes : codes ≠ []) (hpoint : s.point = .idle) :
    Stepped s (.decodeOffline codes) (s.beginOffline cfg codes .vocodeBatch)
  | fallback (codes : List (List C)) (requestId : R) (hcodes : codes ≠ [])
    (hpoint : s.point = .closing requestId) :
    Stepped s (.decodeOffline codes) (s.beginOffline cfg codes (.fallback requestId))
  | offline (choice : CodecChoice σ) (o : OfflineDecode C) (caller : OfflineCaller R)
    (hpoint : s.point = .offline o caller) :
    Stepped s (.offline choice) (s.offlineStep cfg codec o caller choice)
  | close (choice : CodecChoice σ) (requestId : R) (hpoint : s.point = .closing requestId) :
    Stepped s (.close choice) { (s.clearStreamState codec requestId choice).1 with point := .idle }
  | abort (requestId : R) (choice : CodecChoice σ) (hpoint : s.point = .idle) :
    Stepped s (.abort requestId choice) (s.clearStreamState codec requestId choice).1
  | renew (hpoint : s.point = .idle) (horder : s.order = []) :
    Stepped s .renew { s with session := .init codec cfg.streamSlots }

variable {cfg codec} {s t : MossVocoder R C σ} {a : MossVocoderAction R C σ}

theorem stepped (hstep : s.step cfg codec a = some t) : Stepped cfg codec s a t := by
  cases a with
  | ingest | ingestFails | pump =>
    simp only [step] at hstep
    split at hstep
    · cases hstep
      constructor
      exact Or.inl ‹_›
    · cases hstep
      constructor
      exact Or.inr ‹_›
    · cases hstep
  | flush choice =>
    simp only [step] at hstep
    split at hstep
    · obtain ⟨state, hstate, rfl⟩ := Option.map_eq_some_iff.mp hstep
      exact .flush choice _ state ‹_› hstate
    · cases hstep
  | _ =>
    simp only [step] at hstep
    repeat' first | cases hstep | split at hstep
    all_goals
      constructor
      all_goals assumption

end MossVocoder

end Omni.Tts
