import Mathlib.Data.List.Basic
import Mathlib.Data.Int.Notation
import Omni.Library.Except

/-!
# Control plane messages

The message classes of `proto/messages.py`, with the administrative payloads of `proto/admin.py` and
the request payloads of `proto/request.py` inside them, and their dictionaries. A field that is
neither checked nor converted may hold any plain value.
-/

namespace Omni.Proto

open List

/-- Plain data. A float is its bits. -/
inductive Value
  | none
  | bool (b : Bool)
  | int (n : ℤ)
  | float (bits : UInt64)
  | str (s : String)
  | bytes (b : List UInt8)
  | list (items : List Value)
  | dict (entries : List (String × Value))

/-- A dictionary. -/
abbrev Dict := List (String × Value)

/-- `str`, `dict` and `list` of values that are not of the type already. -/
structure Conversions where
  str : Value → String
  dict : Value → Except String Dict
  list : Value → Except String (List Value)

/-- `type(value).__name__`. -/
def Value.typeName : Value → String
  | none => "NoneType"
  | bool _ => "bool"
  | int _ => "int"
  | float _ => "float"
  | str _ => "str"
  | bytes _ => "bytes"
  | list _ => "list"
  | dict _ => "dict"

/-- `bool(value)`. The two zeros are false. -/
def Value.truthy : Value → Bool
  | none => false
  | bool b => b
  | int n => n ≠ 0
  | float bits => bits ≠ 0 && bits ≠ 0x8000000000000000
  | str s => s ≠ ""
  | bytes b => !b.isEmpty
  | list items => !items.isEmpty
  | dict entries => !entries.isEmpty

/-- `d.get(key)`. -/
def Dict.get (d : Dict) (key : String) : Value := (d.lookup key).getD .none

/-- `d[key]`. -/
def Dict.item (d : Dict) (key : String) : Except String Value :=
  match d.lookup key with
  | some value => .ok value
  | Option.none => .error key

/-- `value.get(key)` of a value that may be no dictionary. -/
def Value.get (value : Value) (key : String) : Except String Value :=
  match value with
  | .dict entries => .ok (Dict.get entries key)
  | value => .error s!"{value.typeName} object has no attribute get"

/-- `str(value)`. -/
def Conversions.toStr (conv : Conversions) : Value → String
  | .str s => s
  | value => conv.str value

/-- `dict(value)`. -/
def Conversions.toDict (conv : Conversions) : Value → Except String Dict
  | .dict entries => .ok entries
  | value => conv.dict value

/-- `list(value)`. -/
def Conversions.toList (conv : Conversions) : Value → Except String (List Value)
  | .list items => .ok items
  | value => conv.list value

/-- `_require_str`. -/
def requireStr (value : Value) (name : String) : Except String Unit :=
  match value with
  | .str s => if s = "" then .error s!"{name} must be a non-empty str" else .ok ()
  | _ => .error s!"{name} must be a non-empty str"

/-- `_require_bool`, with the truth value. -/
def requireBool (value : Value) (name : String) : Except String Bool :=
  match value with
  | .bool b => .ok b
  | _ => .error s!"{name} must be bool"

/-- `_require_non_negative_int`. -/
def requireNonNegativeInt (value : Value) (name : String) : Except String Unit :=
  match value with
  | .int n => if n < 0 then .error s!"{name} must be a non-negative int" else .ok ()
  | _ => .error s!"{name} must be a non-negative int"

/-- A check that raises. -/
def refuse (condition : Bool) (message : String) : Except String Unit :=
  if condition then .error message else .ok ()

/-- An entry that is left out for `None`. -/
def optional (key : String) (value : Value) : Dict :=
  match value with
  | .none => []
  | value => [(key, value)]

/-- `value is not None`. -/
def Value.isSet : Value → Bool
  | .none => false
  | _ => true

/-- `isinstance(value, dict)`. -/
def Value.isDict : Value → Bool
  | .dict _ => true
  | _ => false

/-- `DataReadyMessage`. -/
structure DataReadyMessage where
  requestId : Value
  fromStage : Value
  toStage : Value
  dataRef : Value
  chunkId : Value
  isDone : Value
  error : Value

/-- `DataAckMessage`. -/
structure DataAckMessage where
  requestId : Value
  fromStage : Value
  toStage : Value
  objectId : Value
  success : Value
  error : Value

/-- `OmniRequest`. -/
structure OmniRequest where
  inputs : Value
  params : Value
  metadata : Value

/-- `StagePayload`. -/
structure StagePayload where
  requestId : Value
  request : OmniRequest
  data : Value

/-- The data of a `SubmitMessage`: a payload object, or any other plain value. -/
inductive SubmitData
  | payload (payload : StagePayload)
  | plain (value : Value)

/-- `AdminOperation`. -/
structure AdminOperation where
  opId : String
  action : String
  payload : Dict
  targetStages : Option (List Value)
  timeoutS : Value

/-- `AdminResult`. -/
structure AdminResult where
  opId : String
  stage : String
  action : String
  success : Bool
  message : String
  data : Dict
  error : Value
  rank : Value
  role : Value

/-- A message of the control plane. -/
inductive Message
  | dataReady (msg : DataReadyMessage)
  | dataAck (msg : DataAckMessage)
  | abort (requestId : Value)
  | complete (requestId fromStage success result error : Value)
  | stream (requestId fromStage chunk stageId stageName modality chunkId : Value)
  | submit (requestId : Value) (data : SubmitData)
  | shutdown
  | profilerStart (runId tracePathTemplate eventDir : Value) (enableTorch : Bool)
  | profilerStop (runId : Value)
  | admin (operation : AdminOperation)
  | adminResult (result : AdminResult)

/-- `DataReadyMessage.to_dict`. -/
def DataReadyMessage.toDict (m : DataReadyMessage) : Except String Dict := do
  requireStr m.requestId "request_id"
  requireStr m.fromStage "from_stage"
  requireStr m.toStage "to_stage"
  let isDone ← requireBool m.isDone "is_done"
  refuse (isDone && m.error.isSet) "stream signal cannot be both done and error"
  (if isDone || m.error.isSet then do
    refuse m.dataRef.isSet "stream signal must not carry data_ref"
    refuse m.chunkId.isSet "stream signal must not carry chunk_id"
  else
    refuse (!m.dataRef.isDict)
      s!"data_ref must be dict for data messages, got {m.dataRef.typeName}")
  (if m.chunkId.isSet then requireNonNegativeInt m.chunkId "chunk_id" else .ok ())
  (if m.error.isSet then requireStr m.error "error" else .ok ())
  .ok ([("type", .str "data_ready"), ("request_id", m.requestId), ("from_stage", m.fromStage),
      ("to_stage", m.toStage)] ++ optional "data_ref" m.dataRef ++ optional "chunk_id" m.chunkId ++
    (if isDone then [("is_done", .bool true)] else []) ++ optional "error" m.error)

/-- The message that the entries of a dictionary stand for. -/
def DataReadyMessage.ofEntries (d : Dict) : DataReadyMessage where
  requestId := d.get "request_id"
  fromStage := d.get "from_stage"
  toStage := d.get "to_stage"
  dataRef := d.get "data_ref"
  chunkId := d.get "chunk_id"
  isDone := (d.lookup "is_done").getD (.bool false)
  error := d.get "error"

/-- `DataReadyMessage.from_dict`. -/
def DataReadyMessage.fromDict (d : Dict) : Except String DataReadyMessage := do
  let m := ofEntries d
  requireStr m.requestId "request_id"
  requireStr m.fromStage "from_stage"
  requireStr m.toStage "to_stage"
  let isDone ← requireBool m.isDone "is_done"
  (if m.error.isSet then requireStr m.error "error" else .ok ())
  refuse (isDone && m.error.isSet) "stream signal cannot be both done and error"
  (if isDone || m.error.isSet then do
    refuse m.dataRef.isSet "stream signal must not carry data_ref"
    refuse (d.lookup "chunk_id").isSome "stream signal must not carry chunk_id"
  else
    refuse (!m.dataRef.isDict)
      s!"data_ready data_ref must be dict for data messages, got {m.dataRef.typeName}")
  (if m.chunkId.isSet then requireNonNegativeInt m.chunkId "chunk_id" else .ok ())
  .ok m

/-- `DataAckMessage.to_dict`. -/
def DataAckMessage.toDict (m : DataAckMessage) : Except String Dict := do
  requireStr m.requestId "request_id"
  requireStr m.fromStage "from_stage"
  requireStr m.toStage "to_stage"
  requireStr m.objectId "object_id"
  let success ← requireBool m.success "success"
  (if success then refuse m.error.isSet "successful data ack must not carry error"
    else requireStr m.error "error")
  .ok ([("type", .str "data_ack"), ("request_id", m.requestId), ("from_stage", m.fromStage),
    ("to_stage", m.toStage), ("object_id", m.objectId), ("success", m.success)] ++
      optional "error" m.error)

/-- The acknowledgement that the entries of a dictionary stand for. -/
def DataAckMessage.ofEntries (d : Dict) : DataAckMessage where
  requestId := d.get "request_id"
  fromStage := d.get "from_stage"
  toStage := d.get "to_stage"
  objectId := d.get "object_id"
  success := d.get "success"
  error := d.get "error"

/-- `DataAckMessage.from_dict`. -/
def DataAckMessage.fromDict (d : Dict) : Except String DataAckMessage := do
  let m := ofEntries d
  let success ← requireBool m.success "data_ack success"
  (if success then refuse m.error.isSet "successful data_ack must not carry error"
    else requireStr m.error "error")
  requireStr m.requestId "request_id"
  requireStr m.fromStage "from_stage"
  requireStr m.toStage "to_stage"
  requireStr m.objectId "object_id"
  .ok m

/-- `OmniRequest.to_dict`. -/
def OmniRequest.toDict (r : OmniRequest) : Dict :=
  [("_type", .str "OmniRequest"), ("inputs", r.inputs), ("params", r.params),
    ("metadata", r.metadata)]

/-- `OmniRequest.from_dict`. -/
def OmniRequest.fromDict (data : Value) : Except String OmniRequest :=
  match data with
  | .dict entries =>
    .ok ⟨Dict.get entries "inputs", (entries.lookup "params").getD (.dict []),
      (entries.lookup "metadata").getD (.dict [])⟩
  | value => .error s!"{value.typeName} object has no attribute get"

/-- `StagePayload.to_dict`. -/
def StagePayload.toDict (p : StagePayload) : Dict :=
  [("_type", .str "StagePayload"), ("request_id", p.requestId),
    ("request", .dict p.request.toDict), ("data", p.data)]

/-- `StagePayload.from_dict`. Both branches on the type of the request do the same. -/
def StagePayload.fromDict (data : Dict) : Except String StagePayload := do
  let request ← OmniRequest.fromDict ((data.lookup "request").getD (.dict []))
  return ⟨(data.lookup "request_id").getD (.str ""), request, data.get "data"⟩

/-- `SubmitMessage.to_dict`, for the data. -/
def SubmitData.toValue : SubmitData → Value
  | payload p => .dict p.toDict
  | plain value => value

/-- `SubmitMessage.from_dict`, for the data. -/
def SubmitData.fromValue (data : Value) : Except String SubmitData :=
  match data with
  | .dict entries =>
    match Dict.get entries "_type" with
    | .str "StagePayload" => (StagePayload.fromDict entries).map .payload
    | _ => .ok (.plain data)
  | _ => .ok (.plain data)

/-- `AdminOperation.to_dict`. -/
def AdminOperation.toDict (op : AdminOperation) : Dict :=
  [("op_id", .str op.opId), ("action", .str op.action), ("payload", .dict op.payload),
    ("target_stages", (op.targetStages.map Value.list).getD .none), ("timeout_s", op.timeoutS)]

/-- `AdminOperation.from_dict`. -/
def AdminOperation.fromDict (conv : Conversions) (data : Dict) :
    Except String AdminOperation := do
  let opId ← data.item "op_id"
  let action ← data.item "action"
  let payload ← conv.toDict (if (data.get "payload").truthy then data.get "payload" else .dict [])
  let targetStages ←
    if (data.get "target_stages").isSet then
      (conv.toList (data.get "target_stages")).map some
    else pure none
  return ⟨conv.toStr opId, conv.toStr action, payload, targetStages, data.get "timeout_s"⟩

/-- `AdminResult.to_dict`. -/
def AdminResult.toDict (r : AdminResult) : Dict :=
  [("op_id", .str r.opId), ("stage", .str r.stage), ("action", .str r.action),
    ("success", .bool r.success), ("message", .str r.message), ("data", .dict r.data),
    ("error", r.error), ("rank", r.rank), ("role", r.role)]

/-- `AdminResult.from_dict`. -/
def AdminResult.fromDict (conv : Conversions) (data : Dict) : Except String AdminResult := do
  let opId ← data.item "op_id"
  let stage ← data.item "stage"
  let action ← data.item "action"
  let success ← data.item "success"
  let entries ← conv.toDict (if (data.get "data").truthy then data.get "data" else .dict [])
  return ⟨conv.toStr opId, conv.toStr stage, conv.toStr action, success.truthy,
    conv.toStr (if (data.get "message").truthy then data.get "message" else .str ""), entries,
    data.get "error", data.get "rank", data.get "role"⟩

/-- `to_dict` of every class. -/
def Message.toDict : Message → Except String Dict
  | dataReady msg => msg.toDict
  | dataAck msg => msg.toDict
  | abort requestId => .ok [("type", .str "abort"), ("request_id", requestId)]
  | complete requestId fromStage success result error =>
    .ok [("type", .str "complete"), ("request_id", requestId), ("from_stage", fromStage),
      ("success", success), ("result", result), ("error", error)]
  | stream requestId fromStage chunk stageId stageName modality chunkId =>
    .ok ([("type", .str "stream"), ("request_id", requestId), ("from_stage", fromStage),
      ("chunk", chunk), ("stage_id", stageId), ("stage_name", stageName),
      ("modality", modality)] ++ optional "chunk_id" chunkId)
  | submit requestId data =>
    .ok [("type", .str "submit"), ("request_id", requestId), ("data", data.toValue)]
  | shutdown => .ok [("type", .str "shutdown")]
  | profilerStart runId tracePathTemplate eventDir enableTorch =>
    .ok [("type", .str "profiler_start"), ("run_id", runId),
      ("trace_path_template", tracePathTemplate), ("event_dir", eventDir),
      ("enable_torch", .bool enableTorch)]
  | profilerStop runId => .ok [("type", .str "profiler_stop"), ("run_id", runId)]
  | admin operation => .ok [("type", .str "admin"), ("operation", .dict operation.toDict)]
  | adminResult result => .ok [("type", .str "admin_result"), ("result", .dict result.toDict)]

/-- The entries of a value that `from_dict` looks up in. -/
def Value.entries : Value → Except String Dict
  | .dict entries => .ok entries
  | value => .error s!"{value.typeName} object has no attribute get"

/-- `parse_message`, with `from_dict` of the classes without checks. -/
def parseMessage (conv : Conversions) (d : Dict) : Except String Message :=
  match d.get "type" with
  | .str "data_ready" => (DataReadyMessage.fromDict d).map .dataReady
  | .str "data_ack" => (DataAckMessage.fromDict d).map .dataAck
  | .str "abort" => (d.item "request_id").map .abort
  | .str "complete" => do
    return .complete (← d.item "request_id") (← d.item "from_stage") (← d.item "success")
      (d.get "result") (d.get "error")
  | .str "stream" => do
    return .stream (← d.item "request_id") (← d.item "from_stage") (d.get "chunk")
      (d.get "stage_id") (d.get "stage_name") (d.get "modality") (d.get "chunk_id")
  | .str "submit" => do
    let data ← SubmitData.fromValue (← d.item "data")
    return .submit (← d.item "request_id") data
  | .str "shutdown" => .ok .shutdown
  | .str "profiler_start" => do
    return .profilerStart (← d.item "run_id") (← d.item "trace_path_template")
      (d.get "event_dir") ((d.lookup "enable_torch").getD (.bool true)).truthy
  | .str "profiler_stop" => .ok (.profilerStop (d.get "run_id"))
  | .str "admin" => do
    return .admin (← AdminOperation.fromDict conv (← (← d.item "operation").entries))
  | .str "admin_result" => do
    return .adminResult (← AdminResult.fromDict conv (← (← d.item "result").entries))
  | msgType => .error s!"Unknown message type: {conv.toStr msgType}"

/-- A non-empty string. -/
def Value.IsText (value : Value) : Prop := ∃ s, s ≠ "" ∧ value = .str s

/-- A non-negative integer. -/
def Value.IsCount (value : Value) : Prop := ∃ n : ℤ, 0 ≤ n ∧ value = .int n

variable {value : Value} {name : String} {u : Unit}

theorem requireStr_eq_ok :
    requireStr value name = .ok u ↔ value.IsText := by
  unfold requireStr Value.IsText
  cases value with
  | str s =>
    by_cases hs : s = "" <;> simp [hs]
  | _ => simp

theorem requireBool_eq_ok {b : Bool} :
    requireBool value name = .ok b ↔ value = .bool b := by
  cases value <;> simp [requireBool]

theorem requireNonNegativeInt_eq_ok :
    requireNonNegativeInt value name = .ok u ↔ value.IsCount := by
  unfold requireNonNegativeInt Value.IsCount
  cases value with
  | int n =>
    by_cases hn : n < 0
    · simp [hn]
    · simp [hn]
      omega
  | _ => simp

theorem refuse_eq_ok {condition : Bool} {message : String} :
    refuse condition message = .ok u ↔ condition = false := by
  cases condition <;> simp [refuse]

theorem ite_eq_ok {condition : Bool} {x y : Except String Unit} :
    (if condition then x else y) = .ok u ↔
      (condition = true → x = .ok u) ∧ (condition = false → y = .ok u) := by
  cases condition <;> simp

@[simp] theorem ok_bind {α β : Type} (a : α) (f : α → Except String β) :
    (Except.ok a >>= f) = f a := rfl

/-- A message that can be encoded: a signal that is done or failed, without a data reference and a
chunk, or data with a reference. -/
structure DataReadyMessage.Valid (m : DataReadyMessage) : Prop where
  requestId : m.requestId.IsText
  fromStage : m.fromStage.IsText
  toStage : m.toStage.IsText
  isDone : ∃ b, m.isDone = .bool b
  error : m.error.isSet = true → m.error.IsText ∧ m.isDone = .bool false
  signal : m.isDone = .bool true ∨ m.error.isSet = true →
    m.dataRef.isSet = false ∧ m.chunkId.isSet = false
  data : m.isDone = .bool false → m.error.isSet = false → m.dataRef.isDict = true
  chunkId : m.chunkId.isSet = true → m.chunkId.IsCount

/-- The dictionary of a valid message. -/
def DataReadyMessage.entries (m : DataReadyMessage) : Dict :=
  [("type", .str "data_ready"), ("request_id", m.requestId), ("from_stage", m.fromStage),
      ("to_stage", m.toStage)] ++ optional "data_ref" m.dataRef ++ optional "chunk_id" m.chunkId ++
    (match m.isDone with
      | .bool true => [("is_done", .bool true)]
      | _ => []) ++ optional "error" m.error

variable {m : DataReadyMessage} {d : Dict}

theorem DataReadyMessage.toDict_eq_ok_iff :
    m.toDict = .ok d ↔ m.Valid ∧ d = m.entries := by
  simp only [toDict, bind_eq_ok, requireStr_eq_ok, requireBool_eq_ok, refuse_eq_ok, ite_eq_ok,
    requireNonNegativeInt_eq_ok, Except.ok.injEq, exists_const]
  constructor
  · rintro ⟨hrequest, hfrom, hto, a, hdone, hboth, ⟨hsignal, hdata⟩, ⟨hchunk, -⟩, ⟨herror, -⟩, rfl⟩
    refine ⟨⟨hrequest, hfrom, hto, ⟨a, hdone⟩, fun h => ⟨herror h, ?_⟩, fun h => hsignal ?_,
      fun hnot hnone => ?_, hchunk⟩, ?_⟩
    · rw [h, Bool.and_true] at hboth
      rw [hdone, hboth]
    · rw [hdone] at h
      rcases h with h | h
      · rw [Value.bool.inj h, Bool.true_or]
      · rw [h, Bool.or_true]
    · rw [hdone] at hnot
      have h := hdata (by rw [Value.bool.inj hnot, hnone]; rfl)
      simpa using h
    · rw [entries, hdone]
      cases a <;> rfl
  · rintro ⟨hvalid, rfl⟩
    obtain ⟨a, hdone⟩ := hvalid.isDone
    refine ⟨hvalid.requestId, hvalid.fromStage, hvalid.toStage, a, hdone, ?_,
      ⟨fun h => hvalid.signal ?_, fun h => ?_⟩, ⟨hvalid.chunkId, fun _ => trivial⟩,
      ⟨fun h => (hvalid.error h).1, fun _ => trivial⟩, ?_⟩
    · cases herror : m.error.isSet with
      | false => exact Bool.and_false a
      | true =>
        have hnot := (hvalid.error herror).2
        rw [hdone] at hnot
        rw [Value.bool.inj hnot]
        rfl
    · rcases (Bool.or_eq_true ..).mp h with h | h
      · exact .inl (hdone.trans (congrArg Value.bool h))
      · exact .inr h
    · obtain ⟨hnot, hnone⟩ := (Bool.or_eq_false_iff ..).mp h
      rw [hvalid.data (hdone.trans (congrArg Value.bool hnot)) hnone]
      rfl
    · rw [entries, hdone]
      cases a <;> rfl

/-- A dictionary is accepted if and only if its message can be encoded, and a signal has no entry
for the chunk at all. -/
theorem DataReadyMessage.fromDict_eq_ok_iff :
    fromDict d = .ok m ↔ m = ofEntries d ∧ (ofEntries d).Valid ∧
      ((ofEntries d).isDone = .bool true ∨ (ofEntries d).error.isSet = true →
        d.lookup "chunk_id" = none) := by
  simp only [fromDict, bind_eq_ok, requireStr_eq_ok, requireBool_eq_ok, refuse_eq_ok, ite_eq_ok,
    requireNonNegativeInt_eq_ok, Except.ok.injEq, exists_const]
  generalize hm : ofEntries d = n
  have hchunk : n.chunkId.isSet = true → d.lookup "chunk_id" ≠ none := by
    intro h hnone
    rw [← hm] at h
    simp only [ofEntries, Dict.get, hnone, Option.getD_none, Value.isSet] at h
    cases h
  constructor
  · rintro ⟨hrequest, hfrom, hto, a, hdone, ⟨herror, -⟩, hboth, ⟨hsignal, hdata⟩, ⟨hcount, -⟩, rfl⟩
    have hkinds (h : n.isDone = .bool true ∨ n.error.isSet = true) :
        n.dataRef.isSet = false ∧ (d.lookup "chunk_id").isSome = false := by
      refine hsignal ?_
      rw [hdone] at h
      rcases h with h | h
      · rw [Value.bool.inj h, Bool.true_or]
      · rw [h, Bool.or_true]
    refine ⟨rfl, ⟨hrequest, hfrom, hto, ⟨a, hdone⟩, fun h => ⟨herror h, ?_⟩, fun h => ?_,
      fun hnot hnone => ?_, hcount⟩, fun h => ?_⟩
    · rw [h, Bool.and_true] at hboth
      rw [hdone, hboth]
    · obtain ⟨hdataRef, habsent⟩ := hkinds h
      refine ⟨hdataRef, ?_⟩
      cases hset : n.chunkId.isSet with
      | false => rfl
      | true =>
        rw [Option.isSome_eq_false_iff, Option.isNone_iff_eq_none] at habsent
        exact absurd habsent (hchunk hset)
    · rw [hdone] at hnot
      have h := hdata (by rw [Value.bool.inj hnot, hnone]; rfl)
      simpa using h
    · simpa using (hkinds h).2
  · rintro ⟨rfl, hvalid, habsent⟩
    obtain ⟨a, hdone⟩ := hvalid.isDone
    have hsignal (h : (a || m.error.isSet) = true) :
        m.isDone = .bool true ∨ m.error.isSet = true := by
      rcases (Bool.or_eq_true ..).mp h with h | h
      · exact .inl (hdone.trans (congrArg Value.bool h))
      · exact .inr h
    refine ⟨hvalid.requestId, hvalid.fromStage, hvalid.toStage, a, hdone,
      ⟨fun h => (hvalid.error h).1, fun _ => trivial⟩, ?_,
      ⟨fun h => ⟨(hvalid.signal (hsignal h)).1, ?_⟩, fun h => ?_⟩,
      ⟨hvalid.chunkId, fun _ => trivial⟩, rfl⟩
    · cases herror : m.error.isSet with
      | false => exact Bool.and_false a
      | true =>
        have hnot := (hvalid.error herror).2
        rw [hdone] at hnot
        rw [Value.bool.inj hnot]
        rfl
    · rw [habsent (hsignal h)]
      rfl
    · obtain ⟨hnot, hnone⟩ := (Bool.or_eq_false_iff ..).mp h
      rw [hvalid.data (hdone.trans (congrArg Value.bool hnot)) hnone]
      rfl

/-- An acknowledgement that can be encoded: it has an error if and only if it reports a failure. -/
structure DataAckMessage.Valid (m : DataAckMessage) : Prop where
  requestId : m.requestId.IsText
  fromStage : m.fromStage.IsText
  toStage : m.toStage.IsText
  objectId : m.objectId.IsText
  success : m.success = .bool true ∧ m.error.isSet = false ∨
    m.success = .bool false ∧ m.error.IsText

/-- The dictionary of a valid acknowledgement. -/
def DataAckMessage.entries (m : DataAckMessage) : Dict :=
  [("type", .str "data_ack"), ("request_id", m.requestId), ("from_stage", m.fromStage),
    ("to_stage", m.toStage), ("object_id", m.objectId), ("success", m.success)] ++
      optional "error" m.error

/-- The check of the outcome on both sides. -/
theorem outcome_iff {success error : Value} :
    (∃ a, success = .bool a ∧
      (a = true → error.isSet = false) ∧ (a = false → error.IsText)) ↔
      success = .bool true ∧ error.isSet = false ∨ success = .bool false ∧ error.IsText := by
  constructor
  · rintro ⟨a, rfl, htrue, hfalse⟩
    cases a with
    | true => exact .inl ⟨rfl, htrue rfl⟩
    | false => exact .inr ⟨rfl, hfalse rfl⟩
  · rintro (⟨rfl, h⟩ | ⟨rfl, h⟩)
    · exact ⟨true, rfl, fun _ => h, nofun⟩
    · exact ⟨false, rfl, fun hne => absurd hne Bool.false_ne_true, fun _ => h⟩

/-- An acknowledgement is encoded if and only if it is valid. -/
theorem DataAckMessage.toDict_eq_ok_iff {m : DataAckMessage} :
    m.toDict = .ok d ↔ m.Valid ∧ d = m.entries := by
  simp only [toDict, bind_eq_ok, requireStr_eq_ok, requireBool_eq_ok, refuse_eq_ok, ite_eq_ok,
    Except.ok.injEq, exists_const]
  constructor
  · rintro ⟨hrequest, hfrom, hto, hobject, a, hsuccess, ⟨htrue, hfalse⟩, rfl⟩
    exact ⟨⟨hrequest, hfrom, hto, hobject, outcome_iff.1 ⟨a, hsuccess, htrue, hfalse⟩⟩, rfl⟩
  · rintro ⟨hvalid, rfl⟩
    obtain ⟨a, hsuccess, htrue, hfalse⟩ := outcome_iff.2 hvalid.success
    exact ⟨hvalid.requestId, hvalid.fromStage, hvalid.toStage, hvalid.objectId, a, hsuccess,
      ⟨htrue, hfalse⟩, rfl⟩

/-- A dictionary is accepted if and only if its acknowledgement can be encoded. -/
theorem DataAckMessage.fromDict_eq_ok_iff {m : DataAckMessage} :
    fromDict d = .ok m ↔ m = ofEntries d ∧ (ofEntries d).Valid := by
  simp only [fromDict, bind_eq_ok, requireStr_eq_ok, requireBool_eq_ok, refuse_eq_ok, ite_eq_ok,
    Except.ok.injEq, exists_const]
  constructor
  · rintro ⟨a, hsuccess, ⟨htrue, hfalse⟩, hrequest, hfrom, hto, hobject, rfl⟩
    exact ⟨rfl, hrequest, hfrom, hto, hobject, outcome_iff.1 ⟨a, hsuccess, htrue, hfalse⟩⟩
  · rintro ⟨rfl, hvalid⟩
    obtain ⟨a, hsuccess, htrue, hfalse⟩ := outcome_iff.2 hvalid.success
    exact ⟨a, hsuccess, ⟨htrue, hfalse⟩, hvalid.requestId, hvalid.fromStage, hvalid.toStage,
      hvalid.objectId, rfl⟩

theorem lookup_optional_of_ne {key key' : String} (hne : key ≠ key') (value : Value) :
    (optional key' value).lookup key = none := by
  cases value <;> simp [optional, hne]

theorem lookup_optional (key : String) (value : Value) :
    (optional key value).lookup key = if value.isSet then some value else none := by
  cases value <;> simp [optional, Value.isSet]

theorem getD_isSet (value : Value) :
    (if value.isSet then some value else none).getD .none = value := by
  cases value <;> rfl

theorem DataReadyMessage.ofEntries_entries (hm : m.Valid) :
    ofEntries m.entries = m := by
  obtain ⟨b, hb⟩ := hm.isDone
  obtain ⟨requestId, fromStage, toStage, dataRef, chunkId, isDone, error⟩ := m
  subst hb
  cases b <;>
    simp [ofEntries, entries, Dict.get, lookup_cons, lookup_append,
      lookup_optional_of_ne, lookup_optional, getD_isSet]

/-- The entries of a valid acknowledgement stand for it. -/
theorem DataAckMessage.ofEntries_entries (m : DataAckMessage) : ofEntries m.entries = m := by
  simp [ofEntries, entries, Dict.get, lookup_cons, lookup_optional, getD_isSet]

theorem StagePayload.fromDict_toDict (p : StagePayload) : fromDict p.toDict = .ok p := by
  simp [fromDict, toDict, OmniRequest.fromDict, OmniRequest.toDict, Dict.get, lookup_cons]

variable (conv : Conversions)

theorem AdminOperation.fromDict_toDict (op : AdminOperation) :
    fromDict conv op.toDict = .ok op := by
  obtain ⟨opId, action, payload, targetStages, timeoutS⟩ := op
  cases payload <;> cases targetStages <;>
    simp [fromDict, toDict, Dict.get, Dict.item, lookup_cons, Conversions.toStr,
      Conversions.toDict, Conversions.toList, Value.truthy, Value.isSet] <;> rfl

theorem AdminResult.fromDict_toDict (r : AdminResult) :
    fromDict conv r.toDict = .ok r := by
  obtain ⟨opId, stage, action, success, message, data, error, rank, role⟩ := r
  by_cases hmessage : message = "" <;> cases data <;>
    simp [fromDict, toDict, Dict.get, Dict.item, lookup_cons, Conversions.toStr,
      Conversions.toDict, Value.truthy, hmessage]

/-- A submission of a plain dictionary with the tag of a payload object. -/
def Message.Tagged : Message → Prop
  | .submit _ (.plain (.dict entries)) => Dict.get entries "_type" = .str "StagePayload"
  | _ => False

theorem parseMessage_dataReady (hm : m.Valid) :
    parseMessage conv m.entries = .ok (.dataReady m) := by
  have htype : Dict.get m.entries "type" = .str "data_ready" := by
    simp [DataReadyMessage.entries, Dict.get]
  have hof := DataReadyMessage.ofEntries_entries hm
  have hfrom : DataReadyMessage.fromDict m.entries = .ok m := by
    refine DataReadyMessage.fromDict_eq_ok_iff.2 ⟨hof.symm, by rw [hof]; exact hm, fun h => ?_⟩
    rw [hof] at h
    have hchunk := (hm.signal h).2
    obtain ⟨b, hb⟩ := hm.isDone
    cases b <;>
      simp [DataReadyMessage.entries, hb, lookup_cons, lookup_append,
        lookup_optional_of_ne, lookup_optional, hchunk]
  rw [parseMessage, htype]
  simp only [hfrom]
  rfl

theorem parseMessage_dataAck {m : DataAckMessage} (hm : m.Valid) :
    parseMessage conv m.entries = .ok (.dataAck m) := by
  have htype : Dict.get m.entries "type" = .str "data_ack" := by
    simp [DataAckMessage.entries, Dict.get]
  have hof := DataAckMessage.ofEntries_entries m
  have hfrom : DataAckMessage.fromDict m.entries = .ok m :=
    DataAckMessage.fromDict_eq_ok_iff.2 ⟨hof.symm, by rw [hof]; exact hm⟩
  rw [parseMessage, htype]
  simp only [hfrom]
  rfl

/-- The data of a submission is read back if and only if it is no tagged dictionary. -/
theorem SubmitData.fromValue_toValue (data : SubmitData) :
    fromValue data.toValue = .ok data ↔
      ¬ ∃ entries, data = .plain (.dict entries) ∧
        Dict.get entries "_type" = .str "StagePayload" := by
  cases data with
  | payload p =>
    refine iff_of_true ?_ ?_
    · rfl
    · rintro ⟨entries, h, -⟩
      cases h
  | plain value =>
    cases value with
    | dict entries =>
      by_cases htag : Dict.get entries "_type" = .str "StagePayload"
      · refine iff_of_false ?_ ?_
        · simp only [fromValue, toValue, htag]
          cases StagePayload.fromDict entries <;> intro h <;> cases h
        · exact fun hnot => hnot ⟨entries, rfl, htag⟩
      · refine iff_of_true ?_ ?_
        · simp [toValue, fromValue]
        · rintro ⟨entries', h, htag'⟩
          obtain rfl := Value.dict.inj (SubmitData.plain.inj h)
          exact htag htag'
    | _ =>
      refine iff_of_true rfl ?_
      rintro ⟨entries, h, -⟩
      cases h

/-- A message that has been encoded is read back if and only if it is no submission of a tagged
dictionary. -/
theorem parseMessage_toDict {conv : Conversions} {m : Message} (h : m.toDict = .ok d) :
    parseMessage conv d = .ok m ↔ ¬ m.Tagged := by
  cases m with
  | dataReady msg =>
    obtain ⟨hm, rfl⟩ := DataReadyMessage.toDict_eq_ok_iff.1 h
    exact iff_of_true (parseMessage_dataReady conv hm) id
  | dataAck msg =>
    obtain ⟨hm, rfl⟩ := DataAckMessage.toDict_eq_ok_iff.1 h
    exact iff_of_true (parseMessage_dataAck conv hm) id
  | abort requestId =>
    obtain rfl := Except.ok.inj h
    refine iff_of_true ?_ id
    rfl
  | complete requestId fromStage success result error =>
    obtain rfl := Except.ok.inj h
    refine iff_of_true ?_ id
    simp [parseMessage, Dict.get, Dict.item, lookup_cons]
  | stream requestId fromStage chunk stageId stageName modality chunkId =>
    obtain rfl := Except.ok.inj h
    refine iff_of_true ?_ id
    simp [parseMessage, Dict.get, Dict.item, lookup_cons, lookup_optional, getD_isSet]
  | submit requestId data =>
    obtain rfl := Except.ok.inj h
    have htagged : (Message.submit requestId data).Tagged ↔
        ∃ entries, data = .plain (.dict entries) ∧
          Dict.get entries "_type" = .str "StagePayload" := by
      cases data with
      | payload p => simp [Message.Tagged]
      | plain value => cases value <;> simp [Message.Tagged]
    have hparse : parseMessage conv [("type", .str "submit"), ("request_id", requestId),
        ("data", data.toValue)] =
          (SubmitData.fromValue data.toValue).map (Message.submit requestId) := by
      simp [parseMessage, Dict.get, Dict.item, lookup_cons]
      cases SubmitData.fromValue data.toValue <;> rfl
    rw [htagged, ← SubmitData.fromValue_toValue, hparse]
    cases SubmitData.fromValue data.toValue with
    | error e => simp [Except.map]
    | ok data' => simp [Except.map]
  | shutdown =>
    obtain rfl := Except.ok.inj h
    refine iff_of_true ?_ id
    simp [parseMessage, Dict.get]
  | profilerStart runId tracePathTemplate eventDir enableTorch =>
    obtain rfl := Except.ok.inj h
    refine iff_of_true ?_ id
    simp [parseMessage, Dict.get, Dict.item, lookup_cons, Value.truthy]
  | profilerStop runId =>
    obtain rfl := Except.ok.inj h
    refine iff_of_true ?_ id
    simp [parseMessage, Dict.get, lookup_cons]
  | admin operation =>
    obtain rfl := Except.ok.inj h
    refine iff_of_true ?_ id
    simp [parseMessage, Dict.get, Dict.item, lookup_cons, Value.entries,
      AdminOperation.fromDict_toDict]
  | adminResult result =>
    obtain rfl := Except.ok.inj h
    refine iff_of_true ?_ id
    simp [parseMessage, Dict.get, Dict.item, lookup_cons, Value.entries,
      AdminResult.fromDict_toDict]

/-- Every message that can be encoded is parsed back, but for the submission of a tagged dictionary.
A dictionary is accepted as data-ready message if and only if its message can be encoded and it has
no entry for the chunk of a signal, and as acknowledgement if and only if it can be encoded. -/
theorem messages_round_trip (conv : Conversions) :
    (∀ m d, Message.toDict m = .ok d → (parseMessage conv d = .ok m ↔ ¬ m.Tagged)) ∧
    (∀ d, (∃ m, DataReadyMessage.fromDict d = .ok m) ↔
      (∃ e, (DataReadyMessage.ofEntries d).toDict = .ok e) ∧
        ((DataReadyMessage.ofEntries d).isDone = .bool true ∨
          (DataReadyMessage.ofEntries d).error.isSet = true → d.lookup "chunk_id" = none)) ∧
    (∀ d, (∃ m, DataAckMessage.fromDict d = .ok m) ↔
      ∃ e, (DataAckMessage.ofEntries d).toDict = .ok e) ∧
    (∀ d m, DataReadyMessage.fromDict d = .ok m → m = DataReadyMessage.ofEntries d) ∧
    (∀ d m, DataAckMessage.fromDict d = .ok m → m = DataAckMessage.ofEntries d) := by
  refine ⟨fun m d h => parseMessage_toDict h, fun d => ?_, fun d => ?_,
    fun d m h => (DataReadyMessage.fromDict_eq_ok_iff.1 h).1,
    fun d m h => (DataAckMessage.fromDict_eq_ok_iff.1 h).1⟩
  · simp only [DataReadyMessage.fromDict_eq_ok_iff, DataReadyMessage.toDict_eq_ok_iff,
      exists_and_right, exists_eq, true_and, exists_and_left, and_true]
  · simp only [DataAckMessage.fromDict_eq_ok_iff, DataAckMessage.toDict_eq_ok_iff,
      exists_and_right, exists_eq, true_and, exists_and_left, and_true]

/-- Conversions of other values, none of which a message of this module needs. -/
def noConversions : Conversions := ⟨fun _ => "", fun _ => .error "dict", fun _ => .error "list"⟩

/-- A failed acknowledgement. -/
def failedAck : DataAckMessage :=
  ⟨.str "r", .str "a", .str "b", .str "o", .bool false, .str "lost"⟩

theorem messages_round_trip_ack :
    parseMessage noConversions failedAck.entries = .ok (.dataAck failedAck) := by
  have hvalid : failedAck.Valid :=
    ⟨⟨"r", by decide, rfl⟩, ⟨"a", by decide, rfl⟩, ⟨"b", by decide, rfl⟩, ⟨"o", by decide, rfl⟩,
      .inr ⟨rfl, "lost", by decide, rfl⟩⟩
  exact ((messages_round_trip noConversions).1 (.dataAck failedAck) failedAck.entries
    (DataAckMessage.toDict_eq_ok_iff.2 ⟨hvalid, rfl⟩)).2 id

/-- A dictionary that is submitted as it is comes out as a payload object when it has the tag of
one, and a signal with an empty entry for its chunk is refused although its message can be
encoded. -/
theorem tag_and_chunk_entry :
    (∃ d, Message.toDict (.submit (.str "r")
        (.plain (.dict [("_type", .str "StagePayload")]))) = .ok d ∧
      parseMessage noConversions d ≠
        .ok (.submit (.str "r") (.plain (.dict [("_type", .str "StagePayload")])))) ∧
    (∃ e, (DataReadyMessage.ofEntries [("request_id", .str "r"), ("from_stage", .str "a"),
        ("to_stage", .str "b"), ("chunk_id", .none), ("is_done", .bool true)]).toDict = .ok e) ∧
    ¬ ∃ m, DataReadyMessage.fromDict [("request_id", .str "r"), ("from_stage", .str "a"),
      ("to_stage", .str "b"), ("chunk_id", .none), ("is_done", .bool true)] = .ok m := by
  refine ⟨⟨_, rfl, fun h => ?_⟩, ⟨_, rfl⟩, ?_⟩
  · exact (parseMessage_toDict rfl).1 h rfl
  · rintro ⟨m, h⟩
    have habsent := (DataReadyMessage.fromDict_eq_ok_iff.1 h).2.2 (.inl rfl)
    cases habsent

end Omni.Proto
