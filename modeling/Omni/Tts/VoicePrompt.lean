import Mathlib.Data.String.Basic
import Mathlib.Logic.Function.Basic
import Omni.Library.Transition
import Omni.Library.Text

/-!
# The voice prompts of Qwen3-TTS

How `_prepare_qwen3_tts_base_request` of `request_builders.py` comes by the voice clone prompt
of a request, from the voice or the references that `speech_service.py` put into it. The
package that encodes a reference and the hash function are parameters. A cache has its keys as
structures in place of their encodings.
-/

namespace Omni.Tts.Voice

open Text Function

/-- A reference audio as a request carries it. -/
inductive RefAudio
  /-- A data URL, a path or a URL. -/
  | text (value : String)
  | bytes (value : Bytes)
  /-- A dictionary, by its entries `data` and `media_type`. -/
  | reference (data mediaType : Option String)
  | other (id : ℕ)
  deriving DecidableEq

/-- `references[0]` of a request. -/
structure Reference where
  audioPath : Option RefAudio
  refAudio : Option RefAudio
  audio : Option RefAudio
  data : Option String
  mediaType : Option String
  text : Option String
  deriving DecidableEq

/-- A reference without entries. -/
def Reference.empty : Reference := ⟨none, none, none, none, none, none⟩

/-- `tts_params`, as far as the prompt depends on it. -/
structure TtsParams where
  refAudio : Option RefAudio
  refText : Option String
  uploadedVoiceName : Option String
  uploadedVoiceCreatedAt : Option ℕ
  xVectorOnlyMode : Option Bool
  deriving DecidableEq

/-- A request for the task Base. -/
structure Payload where
  references : List Reference
  ttsParams : TtsParams
  /-- `x_vector_only_mode` of `params`. -/
  xVectorOnlyMode : Option Bool
  deriving DecidableEq

/-- `Qwen3TTSState`, as far as the prompt depends on it. -/
structure Qwen3TTSState where
  refAudio : RefAudio
  refText : Option String
  uploadedVoiceName : Option String
  uploadedVoiceCreatedAt : Option ℕ
  xVectorOnlyMode : Bool
  deriving DecidableEq

/-- `resolve_optional_text`. -/
def resolveOptionalText (value : Option String) : Option String :=
  (value.map strip).filter (· ≠ "")

/-- `audio_data_uri_from_reference`. -/
def audioDataUriFromReference (data mediaType : Option String) : Option String :=
  data.map fun data =>
    let mediaType := match mediaType with
      | some "" => "audio/wav"
      | some mediaType => mediaType
      | none => "audio/wav"
    "data:" ++ mediaType ++ ";base64," ++ data

/-- Whether a value is true in `or`. -/
def RefAudio.truthy : Option RefAudio → Bool
  | none => false
  | some (.text value) => value ≠ ""
  | some (.bytes value) => value ≠ []
  | some (.reference data mediaType) => data.isSome || mediaType.isSome
  | some (.other _) => true

/-- `a or b` for audio. -/
def RefAudio.or (a b : Option RefAudio) : Option RefAudio :=
  if RefAudio.truthy a then a else b

/-- `a or b` for text. -/
def textOr (a b : Option String) : Option String :=
  if a = none ∨ a = some "" then b else a

/-- `resolve_voice_clone_reference`. -/
def resolveVoiceCloneReference (references : List Reference) (ttsParams : TtsParams) :
    Except String (RefAudio × Option String) :=
  let reference := references.headD .empty
  let uri := (audioDataUriFromReference reference.data reference.mediaType).map .text
  let refAudio := RefAudio.or reference.audioPath (RefAudio.or reference.refAudio
    (RefAudio.or reference.audio (RefAudio.or uri ttsParams.refAudio)))
  match refAudio with
  | none => .error ("Qwen3-TTS Base requires reference audio via ref_audio or " ++
      "references[0].audio_path")
  | some refAudio => .ok (refAudio, textOr reference.text ttsParams.refText)

/-- `resolve_x_vector_only_mode`. -/
def resolveXVectorOnlyMode (params ttsParams : Option Bool) (refText : Option String) : Bool :=
  match params with
  | some mode => mode
  | none => match ttsParams with
    | some mode => mode
    | none => refText = none ∨ refText = some ""

/-- `build_qwen3_tts_state` for the task Base. -/
def buildQwen3TtsState (payload : Payload) : Except String Qwen3TTSState := do
  let (refAudio, refText) ← resolveVoiceCloneReference payload.references payload.ttsParams
  let mode := resolveXVectorOnlyMode payload.xVectorOnlyMode payload.ttsParams.xVectorOnlyMode
    refText
  if !mode ∧ (refText = none ∨ refText = some "") then
    throw "Qwen3-TTS Base requires non-empty ref_text unless x_vector_only_mode is enabled"
  return ⟨refAudio, refText, resolveOptionalText payload.ttsParams.uploadedVoiceName,
    payload.ttsParams.uploadedVoiceCreatedAt, mode⟩

/-- A file with what `path.resolve()` and `path.stat()` tell of it. -/
structure File where
  path : String
  mtimeNs : ℕ
  ctimeNs : ℕ
  content : Bytes
  deriving DecidableEq

/-- `_reference_path_hash_memo_key`: path, size and times. -/
def File.memoKey (f : File) : String × ℕ × ℕ × ℕ :=
  (f.path, f.content.length, f.mtimeNs, f.ctimeNs)

/-- `_REF_PATH_HASH_SENTINEL_BYTES`. -/
def sentinelBytes : ℕ := 8192

/-- What `_reference_path_sentinel` hashes: the first, middle and last bytes and the size. -/
def File.sentinel (f : File) : Bytes :=
  let size := f.content.length
  let chunk := min sentinelBytes size
  let head := f.content.take chunk
  let inner := if sentinelBytes < size then (f.content.drop ((size - chunk) / 2)).take chunk
    else []
  let tail := if 2 * sentinelBytes < size then (f.content.drop (size - chunk)).take chunk else []
  head ++ inner ++ tail ++ utf8 ("|size:" ++ toString size)

/-- A key with its prefix and digest. -/
inductive InputKey (H : Type)
  | data (digest : H)
  | bytes (digest : H)
  | file (digest : H)
  deriving DecidableEq

/-- The audio that a reference stands for. -/
inductive Audio
  | uri (value : String)
  | bytes (value : Bytes)
  | file (content : Bytes)
  | other (reference : RefAudio)
  deriving DecidableEq

/-- `ref_audio.startswith("data:")`. -/
def isDataUri (s : String) : Bool := startsWith s "data:"

/-- The audio of a reference, with the files as they are. -/
def RefAudio.audio (files : String → Option File) : RefAudio → Audio
  | .text value =>
    if isDataUri value then .uri value
    else match files value with
      | some f => .file f.content
      | none => .other (.text value)
  | .bytes value => .bytes value
  | .reference data mediaType =>
    match audioDataUriFromReference data mediaType with
    | some uri => .uri uri
    | none => .other (.reference data mediaType)
  | .other id => .other (.other id)

/-- A voice clone prompt, as far as `build_voice_clone_inputs` reads it. -/
structure Prompt (E C : Type) where
  refSpkEmbedding : List E
  iclMode : List Bool
  /-- Missing, or one code for each item, which may be `None`. -/
  refCode : Option (List (Option C))

/-- What `build_voice_clone_inputs` reads of a prompt; of the codes, the first one. -/
def Prompt.read {E C : Type} (p : Prompt E C) : List E × List Bool × Option C :=
  (p.refSpkEmbedding, p.iclMode, (p.refCode.bind List.head?).join)

/-- What `_cacheable_qwen3_tts_voice_prompt` makes of a prompt. -/
structure Artifact (E C : Type) where
  refSpkEmbedding : List E
  iclMode : List Bool
  refText : Option String
  refCode : Option (List C)

/-- `_cacheable_qwen3_tts_voice_prompt`. -/
def cacheableVoicePrompt {E C : Type} (p : Prompt E C) (refText : Option String) :
    Artifact E C where
  refSpkEmbedding := p.refSpkEmbedding
  iclMode := p.iclMode
  refText := refText
  refCode := p.refCode.bind fun codes =>
    if codes.all Option.isSome then some (codes.filterMap id) else none

/-- `_qwen3_tts_voice_prompt_from_cache`. -/
def voicePromptFromCache {E C : Type} (a : Artifact E C) : Prompt E C × Option String :=
  (⟨a.refSpkEmbedding, a.iclMode, a.refCode.map (List.map some)⟩, a.refText)

/-- The hash function and the package that makes a prompt from a reference. -/
structure Wrapper (H I E C : Type) where
  hashBytes : Bytes → H
  /-- `create_voice_clone_prompt`, which may raise. -/
  createVoiceClonePrompt : Audio → Option String → Bool → Except String (List I)
  itemRefText : I → Option String
  /-- `_prompt_items_to_voice_clone_prompt`. -/
  promptItemsToVoiceClonePrompt : List I → Prompt E C

variable {H I E C : Type}

/-- A prompt is made from a reference. -/
def Wrapper.encode (w : Wrapper H I E C) (audio : Audio) (refText : Option String)
    (mode : Bool) : Except String (Prompt E C × Option String) := do
  match ← w.createVoiceClonePrompt audio refText mode with
  | [item] => return (w.promptItemsToVoiceClonePrompt [item], w.itemRefText item)
  | _ => throw "Qwen3-TTS expects exactly one voice-clone prompt"

/-- `SpeakerCacheKey` of a prompt; the kind of artifact is always that of prompts. -/
structure SpeakerCacheKey where
  modelType : String
  voiceName : String
  voiceVersion : ℕ
  deriving DecidableEq

/-- An entry for an uploaded voice, with the reference text that it was made with. -/
structure SpeakerEntry (E C : Type) where
  artifact : Artifact E C
  madeWith : Option String

/-- `ReferenceEncodeKey` of the ad-hoc references; the fields of the model are always the
same. -/
structure AdhocKey (H : Type) where
  inputKey : InputKey H
  refText : Option String
  xVectorOnlyMode : Bool
  deriving DecidableEq

/-- `UploadedVoice`, with the base64 text of its audio. -/
structure UploadedVoice where
  normalizedName : String
  createdAt : ℕ
  data : String
  refText : Option String
  deriving DecidableEq

/-- `UploadedVoiceReference.ref_audio`. -/
def UploadedVoice.url (v : UploadedVoice) : String := "data:audio/wav;base64," ++ v.data

/-- The files, the uploaded voices, the requests that wait for the stage, and its caches. -/
structure State (H E C : Type) where
  files : String → Option File
  voices : String → Option UploadedVoice
  lastUploadTimestamp : ℕ
  /-- All voices that were uploaded. -/
  uploads : List UploadedVoice
  queued : List Payload
  /-- `_REF_PATH_HASH_MEMO`. -/
  memo : String × ℕ × ℕ × ℕ → Option (H × H)
  speakerCache : SpeakerCacheKey → Option (SpeakerEntry E C)
  adhocCache : AdhocKey H → Option (Artifact E C)

/-- Before the first request. -/
def State.init (H E C : Type) : State H E C where
  files _ := none
  voices _ := none
  lastUploadTimestamp := 0
  uploads := []
  queued := []
  memo _ := none
  speakerCache _ := none
  adhocCache _ := none

/-- The same with empty caches. -/
def State.emptied (s : State H E C) : State H E C :=
  { s with memo := fun _ => none, speakerCache := fun _ => none, adhocCache := fun _ => none }

/-- A speech request after its references were loaded: `refAudio` is the descriptor of
`ref_audio`. -/
structure SpeechRequest where
  voice : String
  refAudio : Option Reference
  refText : Option String
  references : List Reference
  xVectorOnlyMode : Option Bool
  /-- `x_vector_only_mode` of the parameters of the stage. -/
  params : Option Bool

/-- `normalize_voice_name`; it refuses names with other characters. -/
def normalizeVoiceName (name : String) : Option String :=
  let value := strip name
  let letter (c : Char) : Bool := c.isAlpha || c.isDigit
  if value.toList.all (fun c => letter c || c == '_' || c == '.' || c == '-') ∧
      value.toList.any letter then
    some (String.ofList (value.toList.map Char.toLower))
  else none

/-- `SpeakerSampleStore.upload` of audio that was accepted. -/
def State.upload (s : State H E C) (name data : String) (refText : Option String)
    (time : ℕ) : State H E C :=
  match normalizeVoiceName name with
  | none => s
  | some normalizedName =>
    if normalizedName = "default" then s
    else
      let createdAt := max time (s.lastUploadTimestamp + 1)
      let voice := ⟨normalizedName, createdAt, data, resolveOptionalText refText⟩
      { s with
        lastUploadTimestamp := createdAt
        voices := update s.voices normalizedName (some voice)
        uploads := s.uploads ++ [voice] }

/-- `SpeakerSampleStore.delete`. That it clears the entries of the voice, as a replacing upload
does, is an eviction of them. -/
def State.delete (s : State H E C) (name : String) : State H E C :=
  match normalizeVoiceName name with
  | none => s
  | some normalizedName => { s with voices := update s.voices normalizedName none }

/-- `_resolve_uploaded_voice_reference`. -/
def State.resolveUploadedVoiceReference (s : State H E C) (r : SpeechRequest) :
    Option UploadedVoice :=
  if r.refAudio.isSome ∨ r.references ≠ [] then none
  else if r.voice = "" ∨ String.ofList (r.voice.toList.map Char.toLower) = "default" then none
  else (normalizeVoiceName r.voice).bind s.voices

/-- `_media_reference_from_descriptor`. -/
def mediaReferenceFromDescriptor (descriptor : Reference) : Option RefAudio :=
  match descriptor.audioPath with
  | some path => some path
  | none => (audioDataUriFromReference descriptor.data descriptor.mediaType).map .text

/-- `_uploaded_voice_reference_dict`, with the text of the voice. -/
def uploadedVoiceReference (v : UploadedVoice) : Reference where
  audioPath := some (.text v.url)
  refAudio := none
  audio := none
  data := some v.data
  mediaType := some "audio/wav"
  text := v.refText

/-- The descriptors of `_prepare_reference_fields`. -/
def referenceDescriptors (r : SpeechRequest) (uploaded : Option UploadedVoice) :
    List Reference :=
  match r.refAudio with
  | some descriptor =>
    let text := if r.refText.isSome then r.refText else descriptor.text
    r.references ++ [{ descriptor with text := text }]
  | none => match uploaded with
    | some v => r.references ++ [uploadedVoiceReference v]
    | none => r.references

/-- `_build_tts_params`. -/
def buildTtsParams (r : SpeechRequest) (uploaded : Option UploadedVoice) : TtsParams :=
  let params : TtsParams :=
    ⟨r.refAudio.bind mediaReferenceFromDescriptor, r.refText, none, none, r.xVectorOnlyMode⟩
  match uploaded with
  | none => params
  | some v => { params with
      refAudio := some (.text v.url)
      refText := if v.refText.isSome then v.refText else r.refText
      uploadedVoiceName := some v.normalizedName
      uploadedVoiceCreatedAt := some v.createdAt }

/-- The request that is sent to the stage. -/
def buildPayload (r : SpeechRequest) (uploaded : Option UploadedVoice) : Payload :=
  ⟨referenceDescriptors r uploaded, buildTtsParams r uploaded, r.params⟩

/-- `_qwen3_tts_uploaded_voice_cache_key`. -/
def uploadedVoiceCacheKey (st : Qwen3TTSState) : Option SpeakerCacheKey :=
  match st.uploadedVoiceName, st.uploadedVoiceCreatedAt with
  | some name, some createdAt =>
    some ⟨if st.xVectorOnlyMode then "qwen3_tts_xvec" else "qwen3_tts_icl", name, createdAt⟩
  | _, _ => none

variable [DecidableEq H]

/-- `_get_reference_path_hash`, which drops an entry with another sentinel. -/
def State.getReferencePathHash (s : State H E C) (key : String × ℕ × ℕ × ℕ) (sentinel : H) :
    State H E C × Option H :=
  match s.memo key with
  | none => (s, none)
  | some (cached, digest) =>
    if cached = sentinel then (s, some digest)
    else ({ s with memo := update s.memo key none }, none)

/-- `_put_reference_path_hash`. -/
def State.putReferencePathHash (s : State H E C) (key : String × ℕ × ℕ × ℕ)
    (sentinel digest : H) : State H E C :=
  { s with memo := update s.memo key (some (sentinel, digest)) }

/-- `reference_path_cache_key`. -/
def State.referencePathCacheKey (w : Wrapper H I E C) (s : State H E C) (path : String) :
    State H E C × Option (InputKey H) :=
  match s.files path with
  | none => (s, none)
  | some f =>
    let sentinel := w.hashBytes f.sentinel
    match s.getReferencePathHash f.memoKey sentinel with
    | (s, some digest) => (s, some (.file digest))
    | (s, none) =>
      let digest := w.hashBytes f.content
      (s.putReferencePathHash f.memoKey sentinel digest, some (.file digest))

/-- `_qwen3_tts_ref_audio_input_key`. -/
def State.inputKey (w : Wrapper H I E C) (s : State H E C) :
    RefAudio → State H E C × Option (InputKey H)
  | .text value =>
    if isDataUri value then (s, some (.data (w.hashBytes (utf8 value))))
    else s.referencePathCacheKey w value
  | .bytes value => (s, some (.bytes (w.hashBytes value)))
  | .reference data mediaType =>
    (s, (audioDataUriFromReference data mediaType).map fun uri =>
      .data (w.hashBytes (utf8 uri)))
  | .other _ => (s, none)

/-- `cache_key` of the hook of the ad-hoc references. -/
def State.adhocKey (w : Wrapper H I E C) (s : State H E C) (st : Qwen3TTSState) :
    State H E C × Option (AdhocKey H) :=
  let (s, key) := s.inputKey w st.refAudio
  (s, key.map fun key => ⟨key, st.refText, st.xVectorOnlyMode⟩)

/-- `ReferenceEncodeService.get_or_encode`. -/
def State.getOrEncode (w : Wrapper H I E C) (s : State H E C) (st : Qwen3TTSState) :
    State H E C × Except String (Prompt E C × Option String) :=
  let encoded := w.encode (st.refAudio.audio s.files) st.refText st.xVectorOnlyMode
  match s.adhocKey w st with
  | (s, none) => (s, encoded)
  | (s, some key) =>
    match s.adhocCache key with
    | some stored => (s, .ok (voicePromptFromCache stored))
    | none =>
      match encoded with
      | .error e => (s, .error e)
      | .ok (prompt, refText) =>
        let stored := cacheableVoicePrompt prompt refText
        -- `revalidate`
        let (s, again) := s.adhocKey w st
        let s := if again = some key then
            { s with adhocCache := update s.adhocCache key (some stored) }
          else s
        (s, .ok (voicePromptFromCache stored))

/-- `_prepare_qwen3_tts_base_request`: the prompt and the reference text of the inputs. -/
def State.prepareBase (w : Wrapper H I E C) (s : State H E C) (st : Qwen3TTSState) :
    State H E C × Except String (Prompt E C × Option String) :=
  match uploadedVoiceCacheKey st with
  | none => s.getOrEncode w st
  | some key =>
    match s.speakerCache key with
    | some entry => (s, .ok (voicePromptFromCache entry.artifact))
    | none =>
      match w.encode (st.refAudio.audio s.files) st.refText st.xVectorOnlyMode with
      | .error e => (s, .error e)
      | .ok (prompt, refText) =>
        let entry := ⟨cacheableVoicePrompt prompt refText, st.refText⟩
        ({ s with speakerCache := update s.speakerCache key (some entry) }, .ok (prompt, refText))

/-- A request is prepared. -/
def State.prepare (w : Wrapper H I E C) (s : State H E C) (payload : Payload) :
    State H E C × Except String (Prompt E C × Option String) :=
  match buildQwen3TtsState payload with
  | .error e => (s, .error e)
  | .ok st => s.prepareBase w st

/-- What can happen. -/
inductive Action (H : Type)
  /-- A file is written or removed. -/
  | write (path : String) (file : Option File)
  | upload (name data : String) (refText : Option String) (time : ℕ)
  | delete (name : String)
  /-- A request is accepted and sent to the stage. -/
  | speak (request : SpeechRequest)
  /-- The stage prepares a request. -/
  | prepare (index : ℕ)
  | evictMemo (key : String × ℕ × ℕ × ℕ)
  | evictSpeaker (key : SpeakerCacheKey)
  | evictAdhoc (key : AdhocKey H)

/-- One step. -/
def step (w : Wrapper H I E C) (s : State H E C) : Action H → Option (State H E C)
  | .write path file => some { s with files := update s.files path file }
  | .upload name data refText time => some (s.upload name data refText time)
  | .delete name => some (s.delete name)
  | .speak r => some { s with
      queued := s.queued ++ [buildPayload r (s.resolveUploadedVoiceReference r)] }
  | .prepare index => s.queued[index]?.map fun payload =>
      (State.prepare w { s with queued := s.queued.eraseIdx index } payload).1
  | .evictMemo key => some { s with memo := update s.memo key none }
  | .evictSpeaker key => some { s with speakerCache := update s.speakerCache key none }
  | .evictAdhoc key => some { s with adhocCache := update s.adhocCache key none }

end Omni.Tts.Voice
