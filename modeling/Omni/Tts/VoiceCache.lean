import Mathlib.Data.List.Nodup
import Mathlib.Tactic.Common
import Omni.Tts.VoicePrompt

/-!
# The caches of voice prompts are transparent

A request for an uploaded voice or with its own reference gets the prompt that it would get
with empty caches, if the entry it finds for an uploaded voice was made with its reference text.
The key of such an entry does not have the reference text, which comes from the request when the
voice has none.
-/

namespace Omni.Tts.Voice

open Transition Text Function State List Option

variable {H I E C : Type} {w : Wrapper H I E C} {s t : State H E C} {st : Qwen3TTSState}
  {p : Prompt E C} {refText text : Option String} {audio : Audio} {mode : Bool} {payload : Payload}
  {name : String}

/-- What the inputs are built from. -/
def readResult (r : Except String (Prompt E C × Option String)) :
    Except String ((List E × List Bool × Option C) × Option String) :=
  r.map fun p => (p.1.read, p.2)

/-- The prompt of one item has at most one code. -/
def Wrapper.Single (w : Wrapper H I E C) : Prop :=
  ∀ item, (w.promptItemsToVoiceClonePrompt [item]).refCode = none ∨
    ∃ code, (w.promptItemsToVoiceClonePrompt [item]).refCode = some [code]

/-- The input key of an audio. -/
def Wrapper.audioKey (w : Wrapper H I E C) : Audio → Option (InputKey H)
  | .uri value => some (.data (w.hashBytes (utf8 value)))
  | .bytes value => some (.bytes (w.hashBytes value))
  | .file content => some (.file (w.hashBytes content))
  | .other _ => none

/-- If different bytes have different digests, the key determines the audio. -/
theorem audioKey_injective (hhash : Injective w.hashBytes) {a b : Audio}
    {key : InputKey H} (ha : w.audioKey a = some key) (hb : w.audioKey b = some key) : a = b := by
  cases a with
  | uri u =>
    cases b with
    | uri v =>
      simp only [Wrapper.audioKey, Option.some.injEq] at ha hb
      have hdigest := InputKey.data.inj (ha.trans hb.symm)
      exact congrArg Audio.uri (utf8_injective (hhash hdigest))
    | bytes v => simp [Wrapper.audioKey, ← ha] at hb
    | file v => simp [Wrapper.audioKey, ← ha] at hb
    | other v => simp [Wrapper.audioKey] at hb
  | bytes u =>
    cases b with
    | uri v => simp [Wrapper.audioKey, ← ha] at hb
    | bytes v =>
      simp only [Wrapper.audioKey, Option.some.injEq] at ha hb
      exact congrArg Audio.bytes (hhash (InputKey.bytes.inj (ha.trans hb.symm)))
    | file v => simp [Wrapper.audioKey, ← ha] at hb
    | other v => simp [Wrapper.audioKey] at hb
  | file u =>
    cases b with
    | uri v => simp [Wrapper.audioKey, ← ha] at hb
    | bytes v => simp [Wrapper.audioKey, ← ha] at hb
    | file v =>
      simp only [Wrapper.audioKey, Option.some.injEq] at ha hb
      exact congrArg Audio.file (hhash (InputKey.file.inj (ha.trans hb.symm)))
    | other v => simp [Wrapper.audioKey] at hb
  | other u => simp [Wrapper.audioKey] at ha

theorem read_voicePromptFromCache (hp : p.refCode = none ∨ ∃ code, p.refCode = some [code]) :
    (voicePromptFromCache (cacheableVoicePrompt p refText)).1.read = p.read ∧
      (voicePromptFromCache (cacheableVoicePrompt p refText)).2 = refText := by
  refine ⟨?_, rfl⟩
  rcases hp with hnone | ⟨code, hsome⟩
  · simp [voicePromptFromCache, cacheableVoicePrompt, Prompt.read, hnone]
  · cases code <;>
      simp [voicePromptFromCache, cacheableVoicePrompt, Prompt.read, hsome]

/-- What is encoded is a prompt of one item. -/
theorem encode_single (hw : w.Single) (h : w.encode audio refText mode = .ok (p, text)) :
    p.refCode = none ∨ ∃ code, p.refCode = some [code] := by
  unfold Wrapper.encode at h
  cases hcreate : w.createVoiceClonePrompt audio refText mode with
  | error e => simp [hcreate, bind, Except.bind] at h
  | ok items =>
    simp only [hcreate, bind, Except.bind] at h
    match items, h with
    | [], h => simp [throw, throwThe, MonadExceptOf.throw] at h
    | [item], h =>
      simp only [pure, Except.pure, Except.ok.injEq, Prod.mk.injEq] at h
      exact h.1 ▸ hw item
    | _ :: _ :: _, h => simp [throw, throwThe, MonadExceptOf.throw] at h

/-- An artifact of a prompt gives what the prompt gives. -/
theorem readResult_cached (hw : w.Single) (h : w.encode audio refText mode = .ok (p, text)) :
    readResult (.ok (voicePromptFromCache (cacheableVoicePrompt p text))) =
      readResult (w.encode audio refText mode) := by
  have hcode := encode_single hw h
  obtain ⟨hread, htext⟩ : (voicePromptFromCache (cacheableVoicePrompt p text)).1.read = p.read ∧
      (voicePromptFromCache (cacheableVoicePrompt p text)).2 = text :=
    read_voicePromptFromCache hcode
  rw [h]
  simp only [readResult, Except.map, hread, htext]

/-- The memo has no digest of another content for the file of a reference. -/
def State.Current (w : Wrapper H I E C) (s : State H E C) : RefAudio → Prop
  | .text path => isDataUri path = false → ∀ f ∈ s.files path, ∀ entry ∈ s.memo f.memoKey,
      entry.1 = w.hashBytes f.sentinel → entry.2 = w.hashBytes f.content
  | _ => True

/-- The entry for the uploaded voice of a request, if there is one, was made with the reference
text of the request. -/
def State.Covers (w : Wrapper H I E C) (s : State H E C) (st : Qwen3TTSState) : Prop :=
  (∀ key ∈ uploadedVoiceCacheKey st, ∀ entry ∈ s.speakerCache key,
    entry.madeWith = st.refText) ∧ s.Current w st.refAudio

/-- Requests are prepared only when they are covered. -/
def Covered (w : Wrapper H I E C) (s : State H E C) : Action H → Prop
  | .prepare index => ∀ payload ∈ s.queued[index]?,
      ∀ st ∈ (buildQwen3TtsState payload).toOption, s.Covers w st
  | _ => True

/-- What holds of the voices, the requests that wait, and the caches. -/
structure Sound (w : Wrapper H I E C) (s : State H E C) : Prop where
  /-- No two uploads have the same time. -/
  times : s.uploads.Pairwise fun a b => a.createdAt < b.createdAt
  last : ∀ v ∈ s.uploads, v.createdAt ≤ s.lastUploadTimestamp
  voices : ∀ name v, s.voices name = some v → v ∈ s.uploads
  /-- A request for an uploaded voice has its audio. -/
  queued : ∀ payload ∈ s.queued, payload.ttsParams.uploadedVoiceCreatedAt = none ∨
    ∃ v ∈ s.uploads, payload.ttsParams.uploadedVoiceCreatedAt = some v.createdAt ∧
      (payload.references.headD .empty).audioPath = some (.text v.url)
  /-- An entry for an uploaded voice is the prompt of its audio and the text it was made
  with. -/
  speaker : ∀ key entry, s.speakerCache key = some entry →
    ∃ v ∈ s.uploads, v.createdAt = key.voiceVersion ∧ ∃ p text,
      w.encode (.uri v.url) entry.madeWith (key.modelType = "qwen3_tts_xvec") = .ok (p, text) ∧
        entry.artifact = cacheableVoicePrompt p text
  /-- An entry for another reference is the prompt of what its key says. -/
  adhoc : ∀ key artifact, s.adhocCache key = some artifact →
    ∃ audio p text, w.audioKey audio = some key.inputKey ∧
      w.encode audio key.refText key.xVectorOnlyMode = .ok (p, text) ∧
        artifact = cacheableVoicePrompt p text

/-- A request has the audio of the uploaded voice that its key names. -/
def State.Voiced (s : State H E C) (st : Qwen3TTSState) : Prop :=
  st.uploadedVoiceCreatedAt = none ∨ ∃ v ∈ s.uploads,
    st.uploadedVoiceCreatedAt = some v.createdAt ∧ st.refAudio.audio s.files = .uri v.url

/-- Uploads of the same time are the same. -/
theorem Sound.upload_eq (hs : Sound w s) {a b : UploadedVoice} (ha : a ∈ s.uploads)
    (hb : b ∈ s.uploads) (h : a.createdAt = b.createdAt) : a = b := by
  have hnodup : (s.uploads.map UploadedVoice.createdAt).Nodup := by
    refine List.Pairwise.map _ (fun x y hxy => ?_) hs.times
    exact Nat.ne_of_lt hxy
  exact inj_on_of_nodup_map hnodup ha hb h

theorem uploadedVoiceCacheKey_eq_some {key : SpeakerCacheKey}
    (h : uploadedVoiceCacheKey st = some key) :
    st.uploadedVoiceCreatedAt = some key.voiceVersion ∧
      decide (key.modelType = "qwen3_tts_xvec") = st.xVectorOnlyMode := by
  unfold uploadedVoiceCacheKey at h
  split at h
  next name createdAt _ hcreated =>
    cases h
    refine ⟨hcreated, ?_⟩
    cases st.xVectorOnlyMode <;> simp
  next => cases h

theorem isDataUri_append (data : String) :
    isDataUri ("data:audio/wav;base64," ++ data) = true := by
  have hsplit : "data:audio/wav;base64," ++ data = "data:" ++ ("audio/wav;base64," ++ data) := by
    rw [← String.append_assoc]
    rfl
  exact startsWith_iff.mpr ⟨_, hsplit⟩

theorem isDataUri_url (v : UploadedVoice) : isDataUri v.url = true :=
  isDataUri_append v.data

theorem truthy_text {value : String} (h : value ≠ "") :
    RefAudio.truthy (some (.text value)) = true := by
  simp [RefAudio.truthy, h]

/-- A request that carries the audio of an uploaded voice has it as its reference. -/
theorem voiced_of_queued (hs : Sound w s) (hpayload : payload ∈ s.queued)
    (hbuild : buildQwen3TtsState payload = .ok st) : s.Voiced st := by
  have hfields : ∃ refText, resolveVoiceCloneReference payload.references payload.ttsParams =
        .ok (st.refAudio, refText) ∧
      st.uploadedVoiceCreatedAt = payload.ttsParams.uploadedVoiceCreatedAt := by
    unfold buildQwen3TtsState at hbuild
    cases href : resolveVoiceCloneReference payload.references payload.ttsParams with
    | error e => simp [href, bind, Except.bind] at hbuild
    | ok result =>
      obtain ⟨refAudio, refText⟩ := result
      simp only [href, bind, Except.bind] at hbuild
      split at hbuild
      · simp [throw, throwThe, MonadExceptOf.throw] at hbuild
      · simp only [pure, Except.pure, Except.ok.injEq] at hbuild
        subst hbuild
        exact ⟨refText, rfl, rfl⟩
  obtain ⟨refText, href, hcreated⟩ := hfields
  rcases hs.queued payload hpayload with hnone | ⟨v, hv, hsome, hpath⟩
  · exact Or.inl (hcreated.trans hnone)
  · refine Or.inr ⟨v, hv, hcreated.trans hsome, ?_⟩
    have hnonempty : v.url ≠ "" := by
      intro hempty
      have huri := isDataUri_url v
      rw [hempty] at huri
      exact absurd huri (by decide)
    have htruthy := truthy_text hnonempty
    have haudio : RefAudio.text v.url = st.refAudio := by
      simp only [resolveVoiceCloneReference, hpath, RefAudio.or, htruthy, if_true,
        Except.ok.injEq, Prod.mk.injEq] at href
      exact href.1
    rw [← haudio]
    simp [RefAudio.audio, isDataUri_url]

theorem buildPayload_voiced (r : SpeechRequest) :
    (buildPayload r (s.resolveUploadedVoiceReference r)).ttsParams.uploadedVoiceCreatedAt = none ∨
      ∃ name v, s.voices name = some v ∧
        (buildPayload r (s.resolveUploadedVoiceReference r)).ttsParams.uploadedVoiceCreatedAt =
          some v.createdAt ∧
        ((buildPayload r (s.resolveUploadedVoiceReference r)).references.headD .empty).audioPath =
          some (.text v.url) := by
  rcases eq_none_or_eq_some (s.resolveUploadedVoiceReference r) with hnone | ⟨v, hsome⟩
  · rw [hnone]
    exact Or.inl rfl
  · refine Or.inr ?_
    have hresolved := hsome
    unfold resolveUploadedVoiceReference at hresolved
    split at hresolved
    · cases hresolved
    next hown =>
      split at hresolved
      · cases hresolved
      · obtain ⟨name, -, hvoice⟩ := bind_eq_some_iff.mp hresolved
        obtain ⟨hrefAudio, hreferences⟩ := not_or.mp hown
        have haudio : r.refAudio = none := by simpa using hrefAudio
        have hrefs : r.references = [] := by simpa using hreferences
        refine ⟨name, v, hvoice, ?_, ?_⟩
        · rw [hsome]
          rfl
        · rw [hsome]
          simp [buildPayload, referenceDescriptors, haudio, hrefs, uploadedVoiceReference]

/-- Before the first request nothing is cached. -/
theorem sound_init : Sound w (init H E C) where
  times := List.Pairwise.nil
  last := by simp [init]
  voices := by simp [init]
  queued := by simp [init]
  speaker := by simp [init]
  adhoc := by simp [init]

/-- With empty caches. -/
theorem Sound.emptied (hs : Sound w s) : Sound w s.emptied := { hs with
  speaker := by simp [State.emptied]
  adhoc := by simp [State.emptied] }

/-- Empty caches cover every request. -/
theorem covers_emptied : s.emptied.Covers w st := by
  refine ⟨by simp [emptied], ?_⟩
  cases st.refAudio with
  | text path => exact fun _ _ _ entry hentry => by simp [emptied] at hentry
  | bytes value => trivial
  | reference data mediaType => trivial
  | other id => trivial

theorem Sound.upload (hs : Sound w s) {data : String} {time : ℕ} :
    Sound w (s.upload name data refText time) := by
  unfold State.upload
  split
  · exact hs
  next normalizedName _ =>
    split
    · exact hs
    · have hold : ∀ v ∈ s.uploads, v.createdAt < max time (s.lastUploadTimestamp + 1) :=
        fun v hv => Nat.lt_of_lt_of_le (Nat.lt_succ_of_le (hs.last v hv)) (Nat.le_max_right _ _)
      exact {
        times := by
          refine pairwise_append.mpr ⟨hs.times, pairwise_singleton _ _, ?_⟩
          intro a ha b hb
          rw [mem_singleton.mp hb]
          exact hold a ha
        last := by
          intro v hv
          rcases mem_append.mp hv with h | h
          · exact Nat.le_of_lt (hold v h)
          · rw [mem_singleton.mp h]
        voices := by
          intro name' v hvoice
          by_cases h : name' = normalizedName
          · subst h
            simp only [update_self, Option.some.injEq] at hvoice
            exact mem_append_right _ (mem_singleton.mpr hvoice.symm)
          · simp only [update_of_ne h] at hvoice
            exact mem_append_left _ (hs.voices name' v hvoice)
        queued := by
          intro payload hpayload
          rcases hs.queued payload hpayload with hnone | ⟨v, hv, hrest⟩
          · exact Or.inl hnone
          · exact Or.inr ⟨v, mem_append_left _ hv, hrest⟩
        speaker := by
          intro key entry hentry
          obtain ⟨v, hv, hrest⟩ := hs.speaker key entry hentry
          exact ⟨v, mem_append_left _ hv, hrest⟩
        adhoc := hs.adhoc }

/-- A voice is deleted. -/
theorem Sound.delete (hs : Sound w s) : Sound w (s.delete name) := by
  unfold State.delete
  split
  · exact hs
  next normalizedName _ =>
    refine { hs with voices := fun name' v hvoice => ?_ }
    by_cases h : name' = normalizedName
    · subst h
      simp at hvoice
    · simp only [update_of_ne h] at hvoice
      exact hs.voices name' v hvoice

/-- An entry that remains after an eviction was there before. -/
theorem eq_some_of_update_none {κ ν : Type} [DecidableEq κ] {f : κ → Option ν} {key key' : κ}
    {value : ν} (h : update f key none key' = some value) : f key' = some value := by
  by_cases heq : key' = key
  · subst heq
    simp at h
  · rwa [update_of_ne heq] at h

/-- Fewer requests wait. -/
theorem Sound.dequeue (hs : Sound w s) {queued : List Payload} (hsub : ∀ p ∈ queued, p ∈ s.queued) :
    Sound w { s with queued := queued } :=
  { hs with queued := fun p hp => hs.queued p (hsub p hp) }

variable [DecidableEq H]

instance : ∀ (s : State H E C) (r : RefAudio), Decidable (s.Current w r)
  | s, .text path => inferInstanceAs (Decidable (isDataUri path = false →
      ∀ f ∈ s.files path, ∀ entry ∈ s.memo f.memoKey,
        entry.1 = w.hashBytes f.sentinel → entry.2 = w.hashBytes f.content))
  | _, .bytes _ => inferInstanceAs (Decidable True)
  | _, .reference _ _ => inferInstanceAs (Decidable True)
  | _, .other _ => inferInstanceAs (Decidable True)

instance (s : State H E C) (st : Qwen3TTSState) : Decidable (s.Covers w st) :=
  inferInstanceAs (Decidable (_ ∧ _))

instance : ∀ (s : State H E C) (a : Action H), Decidable (Covered w s a)
  | s, .prepare index => inferInstanceAs (Decidable (∀ payload ∈ s.queued[index]?,
      ∀ st ∈ (buildQwen3TtsState payload).toOption, s.Covers w st))
  | _, .write _ _ => inferInstanceAs (Decidable True)
  | _, .upload _ _ _ _ => inferInstanceAs (Decidable True)
  | _, .delete _ => inferInstanceAs (Decidable True)
  | _, .speak _ => inferInstanceAs (Decidable True)
  | _, .evictMemo _ => inferInstanceAs (Decidable True)
  | _, .evictSpeaker _ => inferInstanceAs (Decidable True)
  | _, .evictAdhoc _ => inferInstanceAs (Decidable True)

/-- Only the memo differs. -/
structure SameBut (s t : State H E C) : Prop where
  files : t.files = s.files
  voices : t.voices = s.voices
  last : t.lastUploadTimestamp = s.lastUploadTimestamp
  uploads : t.uploads = s.uploads
  queued : t.queued = s.queued
  speaker : t.speakerCache = s.speakerCache
  adhoc : t.adhocCache = s.adhocCache

theorem referencePathCacheKey_spec {path : String} (hpath : isDataUri path = false)
    (hcurrent : s.Current w (.text path)) :
    (s.referencePathCacheKey w path).2 = w.audioKey (RefAudio.audio s.files (.text path)) ∧
      SameBut s (s.referencePathCacheKey w path).1 ∧
      (s.referencePathCacheKey w path).1.Current w (.text path) := by
  rcases eq_none_or_eq_some (s.files path) with hfile | ⟨f, hfile⟩
  · have haudio : RefAudio.audio s.files (.text path) = .other (.text path) := by
      simp [RefAudio.audio, hpath, hfile]
    have hkey : s.referencePathCacheKey w path = (s, none) := by
      simp [referencePathCacheKey, hfile]
    rw [haudio, hkey]
    exact ⟨rfl, ⟨rfl, rfl, rfl, rfl, rfl, rfl, rfl⟩, hcurrent⟩
  have haudio : RefAudio.audio s.files (.text path) = .file f.content := by
    simp [RefAudio.audio, hpath, hfile]
  rw [haudio]
  have hupdated : ∀ u : State H E C, u.files = s.files →
      (u.putReferencePathHash f.memoKey (w.hashBytes f.sentinel)
        (w.hashBytes f.content)).Current w (.text path) := by
    intro u hu _ g hg entry hentry _
    have hg' : u.files path = some g := hg
    rw [hu, hfile, Option.some.injEq] at hg'
    subst hg'
    simp only [putReferencePathHash, update_self, mem_def, Option.some.injEq] at hentry
    rw [← hentry]
  rcases eq_none_or_eq_some (s.memo f.memoKey) with hmemo | ⟨⟨cached, digest⟩, hmemo⟩
  · have hkey : s.referencePathCacheKey w path =
        (s.putReferencePathHash f.memoKey (w.hashBytes f.sentinel) (w.hashBytes f.content),
          some (.file (w.hashBytes f.content))) := by
      simp [referencePathCacheKey, hfile, getReferencePathHash, hmemo]
    rw [hkey]
    exact ⟨rfl, ⟨rfl, rfl, rfl, rfl, rfl, rfl, rfl⟩, hupdated s rfl⟩
  · by_cases hsentinel : cached = w.hashBytes f.sentinel
    · have hdigest := hcurrent hpath f hfile (cached, digest) hmemo hsentinel
      have hkey : s.referencePathCacheKey w path = (s, some (.file (w.hashBytes f.content))) := by
        simp only at hdigest
        simp [referencePathCacheKey, hfile, getReferencePathHash, hmemo, hsentinel, hdigest]
      rw [hkey]
      exact ⟨rfl, ⟨rfl, rfl, rfl, rfl, rfl, rfl, rfl⟩, hcurrent⟩
    · obtain ⟨u, hu⟩ : ∃ u : State H E C, u = { s with
          memo := update s.memo f.memoKey none } := ⟨_, rfl⟩
      have hkey : s.referencePathCacheKey w path =
          (u.putReferencePathHash f.memoKey (w.hashBytes f.sentinel) (w.hashBytes f.content),
            some (.file (w.hashBytes f.content))) := by
        simp [referencePathCacheKey, hfile, getReferencePathHash, hmemo, hsentinel, hu]
      rw [hkey]
      refine ⟨rfl, ?_, hupdated u (by rw [hu])⟩
      rw [hu]
      exact ⟨rfl, rfl, rfl, rfl, rfl, rfl, rfl⟩

theorem inputKey_spec {r : RefAudio} (hcurrent : s.Current w r) :
    (s.inputKey w r).2 = w.audioKey (r.audio s.files) ∧ SameBut s (s.inputKey w r).1 ∧
      (s.inputKey w r).1.Current w r := by
  have hself : SameBut s s := ⟨rfl, rfl, rfl, rfl, rfl, rfl, rfl⟩
  cases r with
  | text value =>
    cases hvalue : isDataUri value with
    | true =>
      have hkey : s.inputKey w (.text value) = (s, some (.data (w.hashBytes (utf8 value)))) := by
        simp [inputKey, hvalue]
      rw [hkey]
      exact ⟨by simp [RefAudio.audio, hvalue, Wrapper.audioKey], hself, hcurrent⟩
    | false =>
      have hkey : s.inputKey w (.text value) = s.referencePathCacheKey w value := by
        simp [inputKey, hvalue]
      rw [hkey]
      exact referencePathCacheKey_spec hvalue hcurrent
  | bytes value => exact ⟨rfl, hself, hcurrent⟩
  | reference data mediaType =>
    refine ⟨?_, hself, hcurrent⟩
    cases h : audioDataUriFromReference data mediaType <;>
      simp [inputKey, RefAudio.audio, h, Wrapper.audioKey]
  | other id => exact ⟨rfl, hself, hcurrent⟩

/-- A request with its own reference gets the prompt of its audio, and an entry of the cache
that was made is that of its key. -/
theorem getOrEncode_spec (hw : w.Single) (hhash : Injective w.hashBytes)
    (hadhoc : ∀ key artifact, s.adhocCache key = some artifact → ∃ audio p text,
      w.audioKey audio = some key.inputKey ∧
        w.encode audio key.refText key.xVectorOnlyMode = .ok (p, text) ∧
          artifact = cacheableVoicePrompt p text)
    (hcurrent : s.Current w st.refAudio) :
    readResult (s.getOrEncode w st).2 =
        readResult (w.encode (st.refAudio.audio s.files) st.refText st.xVectorOnlyMode) ∧
      ((s.getOrEncode w st).1.uploads = s.uploads ∧ (s.getOrEncode w st).1.voices = s.voices ∧
        (s.getOrEncode w st).1.queued = s.queued ∧
        (s.getOrEncode w st).1.lastUploadTimestamp = s.lastUploadTimestamp ∧
        (s.getOrEncode w st).1.speakerCache = s.speakerCache) ∧
      ∀ key artifact, (s.getOrEncode w st).1.adhocCache key = some artifact → ∃ audio p text,
        w.audioKey audio = some key.inputKey ∧
          w.encode audio key.refText key.xVectorOnlyMode = .ok (p, text) ∧
            artifact = cacheableVoicePrompt p text := by
  obtain ⟨hkey, hsame, hagain⟩ := inputKey_spec hcurrent
  obtain ⟨u, hu⟩ : ∃ u, u = (s.inputKey w st.refAudio).1 := ⟨_, rfl⟩
  rw [← hu] at hsame hagain
  rcases eq_none_or_eq_some (w.audioKey (st.refAudio.audio s.files)) with
    hnone | ⟨key, hsome⟩
  · have hadhocKey : s.adhocKey w st = (u, none) := by
      simp [adhocKey, hkey, hnone, hu]
    rw [getOrEncode, hadhocKey]
    refine ⟨rfl, ⟨hsame.uploads, hsame.voices, hsame.queued, hsame.last, hsame.speaker⟩, ?_⟩
    simp only [hsame.adhoc]
    exact hadhoc
  have hadhocKey : s.adhocKey w st = (u, some ⟨key, st.refText, st.xVectorOnlyMode⟩) := by
    simp [adhocKey, hkey, hsome, hu]
  rw [getOrEncode, hadhocKey]
  dsimp only
  rw [hsame.adhoc]
  rcases eq_none_or_eq_some (s.adhocCache ⟨key, st.refText, st.xVectorOnlyMode⟩) with
    hcache | ⟨artifact, hcache⟩
  · simp only [hcache]
    cases hencode : w.encode (st.refAudio.audio s.files) st.refText st.xVectorOnlyMode with
    | error e =>
      refine ⟨rfl, ⟨hsame.uploads, hsame.voices, hsame.queued, hsame.last, hsame.speaker⟩, ?_⟩
      simp only [hsame.adhoc]
      exact hadhoc
    | ok result =>
      obtain ⟨p, text⟩ := result
      obtain ⟨-, hlater, -⟩ := inputKey_spec hagain
      obtain ⟨v, hv⟩ : ∃ v, v = (u.adhocKey w st).1 := ⟨_, rfl⟩
      have hsame' : SameBut u v := hv ▸ hlater
      have hread := readResult_cached hw hencode
      rw [hencode] at hread
      dsimp only
      refine ⟨hread, ?_, ?_⟩
      · rw [← hv]
        have h : v.uploads = s.uploads ∧ v.voices = s.voices ∧ v.queued = s.queued ∧
            v.lastUploadTimestamp = s.lastUploadTimestamp ∧ v.speakerCache = s.speakerCache :=
          ⟨hsame'.uploads.trans hsame.uploads, hsame'.voices.trans hsame.voices,
            hsame'.queued.trans hsame.queued, hsame'.last.trans hsame.last,
            hsame'.speaker.trans hsame.speaker⟩
        split <;> exact h
      · rw [← hv]
        intro key' artifact' hartifact
        split at hartifact
        · by_cases hkeys : key' = ⟨key, st.refText, st.xVectorOnlyMode⟩
          · subst hkeys
            simp only [update_self, Option.some.injEq] at hartifact
            exact ⟨_, p, text, hsome, hencode, hartifact.symm⟩
          · simp only [update_of_ne hkeys, hsame'.adhoc, hsame.adhoc] at hartifact
            exact hadhoc key' artifact' hartifact
        · rw [hsame'.adhoc, hsame.adhoc] at hartifact
          exact hadhoc key' artifact' hartifact
  · simp only [hcache]
    obtain ⟨audio, p, text, haudio, hencode, rfl⟩ := hadhoc _ _ hcache
    have heq := audioKey_injective hhash haudio hsome
    subst heq
    refine ⟨readResult_cached hw hencode,
      ⟨hsame.uploads, hsame.voices, hsame.queued, hsame.last, hsame.speaker⟩, ?_⟩
    rw [hsame.adhoc]
    exact hadhoc

/-- A covered request gets the prompt of its audio, its text and its mode, and keeps the
invariant. -/
theorem Sound.prepareBase (hw : w.Single) (hhash : Injective w.hashBytes)
    (hs : Sound w s) (hvoiced : s.Voiced st) (hcovers : s.Covers w st) :
    readResult (s.prepareBase w st).2 =
        readResult (w.encode (st.refAudio.audio s.files) st.refText st.xVectorOnlyMode) ∧
      Sound w (s.prepareBase w st).1 := by
  unfold State.prepareBase
  rcases eq_none_or_eq_some (uploadedVoiceCacheKey st) with hkey | ⟨key, hkey⟩
  · simp only [hkey]
    obtain ⟨hread, ⟨huploads, hvoices, hqueued, hlast, hspeaker⟩, hadhoc⟩ :=
      getOrEncode_spec hw hhash hs.adhoc hcovers.2
    refine ⟨hread, ?_⟩
    exact {
      times := huploads ▸ hs.times
      last := by
        rw [huploads, hlast]
        exact hs.last
      voices := by
        rw [huploads, hvoices]
        exact hs.voices
      queued := by
        rw [huploads, hqueued]
        exact hs.queued
      speaker := by
        rw [huploads, hspeaker]
        exact hs.speaker
      adhoc := hadhoc }
  obtain ⟨hcreated, hmode⟩ := uploadedVoiceCacheKey_eq_some hkey
  obtain ⟨v, hv, hversion, haudio⟩ : ∃ v ∈ s.uploads, v.createdAt = key.voiceVersion ∧
      st.refAudio.audio s.files = .uri v.url := by
    rcases hvoiced with hnone | ⟨v, hv, hsome, haudio⟩
    · rw [hnone] at hcreated
      cases hcreated
    · rw [hcreated, Option.some.injEq] at hsome
      exact ⟨v, hv, hsome.symm, haudio⟩
  simp only [hkey]
  rcases eq_none_or_eq_some (s.speakerCache key) with hcache | ⟨entry, hcache⟩
  · simp only [hcache]
    cases hencode : w.encode (st.refAudio.audio s.files) st.refText st.xVectorOnlyMode with
    | error e => exact ⟨rfl, hs⟩
    | ok result =>
      obtain ⟨p, text⟩ := result
      refine ⟨rfl, ?_⟩
      exact { hs with
        speaker := by
          intro key' entry' hentry
          by_cases h : key' = key
          · subst h
            simp only [update_self, Option.some.injEq] at hentry
            subst hentry
            rw [haudio, ← hmode] at hencode
            exact ⟨v, hv, hversion, p, text, hencode, rfl⟩
          · simp only [update_of_ne h] at hentry
            exact hs.speaker key' entry' hentry
}
  · simp only [hcache]
    refine ⟨?_, hs⟩
    obtain ⟨v', hv', hversion', p, text, hencode, hartifact⟩ := hs.speaker key entry hcache
    have heq := hs.upload_eq hv' hv (hversion'.trans hversion.symm)
    subst heq
    have hmade := hcovers.1 key hkey entry hcache
    rw [hmade, hmode, ← haudio] at hencode
    rw [hartifact]
    exact readResult_cached hw hencode

/-- A covered request gets what it would get with empty caches, and keeps the invariant. -/
theorem Sound.prepare (hw : w.Single) (hhash : Injective w.hashBytes) (hs : Sound w s)
    (hpayload : ∀ st, buildQwen3TtsState payload = .ok st → s.Voiced st)
    (hcovers : ∀ st ∈ (buildQwen3TtsState payload).toOption, s.Covers w st) :
    readResult (s.prepare w payload).2 = readResult (s.emptied.prepare w payload).2 ∧
      Sound w (s.prepare w payload).1 := by
  unfold State.prepare
  cases hbuild : buildQwen3TtsState payload with
  | error e => exact ⟨rfl, hs⟩
  | ok st =>
    have hvoiced := hpayload st hbuild
    obtain ⟨hread, hsound⟩ := hs.prepareBase hw hhash hvoiced (hcovers st (by rw [hbuild]; rfl))
    have hvoiced' : s.emptied.Voiced st := hvoiced
    obtain ⟨hempty, -⟩ := hs.emptied.prepareBase hw hhash hvoiced' covers_emptied
    exact ⟨hread.trans hempty.symm, hsound⟩

/-- Every step that covers the request it prepares keeps the invariant. -/
theorem Sound.step (hw : w.Single) (hhash : Injective w.hashBytes) (hs : Sound w s)
    {a : Action H} (hok : Covered w s a) (hstep : step w s a = some t) : Sound w t := by
  cases a with
  | write path file =>
    cases some.inj hstep
    exact { hs with }
  | upload name data refText time =>
    cases some.inj hstep
    exact hs.upload
  | delete name =>
    cases some.inj hstep
    exact hs.delete
  | speak r =>
    cases some.inj hstep
    refine { hs with queued := fun payload hpayload => ?_ }
    rcases mem_append.mp hpayload with h | h
    · exact hs.queued payload h
    · rw [mem_singleton.mp h]
      rcases buildPayload_voiced (s := s) r with hnone | ⟨name, v, hvoice, hrest⟩
      · exact Or.inl hnone
      · exact Or.inr ⟨v, hs.voices name v hvoice, hrest⟩
  | prepare index =>
    obtain ⟨payload, hpayload, rfl⟩ := map_eq_some_iff.mp hstep
    have hmem : payload ∈ s.queued := mem_of_getElem? hpayload
    have hrest : Sound w { s with queued := s.queued.eraseIdx index } :=
      hs.dequeue fun p hp => mem_of_mem_eraseIdx hp
    refine (hrest.prepare hw hhash (fun st hbuild => ?_) (hok payload hpayload)).2
    have hvoiced : s.Voiced st := voiced_of_queued hs hmem hbuild
    exact hvoiced
  | evictMemo key =>
    cases some.inj hstep
    exact { hs with }
  | evictSpeaker key =>
    cases some.inj hstep
    exact { hs with
      speaker := fun key' entry hentry => hs.speaker key' entry (eq_some_of_update_none hentry) }
  | evictAdhoc key =>
    cases some.inj hstep
    exact { hs with
      adhoc := fun key' entry hentry => hs.adhoc key' entry (eq_some_of_update_none hentry) }

/-- **Transparent caches.** In every run in which the entry that a request finds for its uploaded
voice was made with its reference text, and no file keeps its size, times and sentinel bytes under
another content, every request gets the prompt and the reference text that it would get with
empty caches. -/
theorem prepared_as_uncached (hw : w.Single) (hhash : Function.Injective w.hashBytes)
    {as : List (Action H)} (hrun : Run (step w) (Covered w) (State.init H E C) as s)
    (index : ℕ) {payload : Payload} (hpayload : s.queued[index]? = some payload)
    (hcovered : Covered w s (.prepare index)) :
    readResult (s.prepare w payload).2 = readResult (s.emptied.prepare w payload).2 := by
  have hs : Sound w s := hrun.invariant (I := Sound w)
    (fun _ _ _ hs hok hstep => hs.step hw hhash hok hstep) sound_init
  have hmem : payload ∈ s.queued := mem_of_getElem? hpayload
  exact (hs.prepare hw hhash (fun _ hbuild => voiced_of_queued hs hmem hbuild)
    (hcovered payload hpayload)).1

/-- A package whose items keep the reference text and the mode. -/
def textWrapper : Wrapper Bytes (Option String × Bool) ℕ ℕ where
  hashBytes bytes := bytes
  createVoiceClonePrompt _ refText mode := .ok [(refText, mode)]
  itemRefText := Prod.fst
  promptItemsToVoiceClonePrompt items :=
    ⟨items.map fun _ => 0, items.map fun item => !item.2,
      some (items.map fun item => if item.2 then none else some 0)⟩

/-- Its prompts of one item have one code. -/
theorem textWrapper_single : textWrapper.Single := fun _ => Or.inr ⟨_, rfl⟩

/-- A request for the voice `guide` with a reference text. -/
def guideRequest (refText : String) : SpeechRequest :=
  ⟨"guide", none, some refText, [], none, none⟩

/-- The voice `guide` has a text of its own, and its second request finds the entry of the
first. -/
def guideRun : List (Action Bytes) :=
  [.upload "Guide" "AAAA" (some "stored") 7, .speak (guideRequest "hello"),
    .speak (guideRequest "goodbye"), .prepare 0]

/-- The request that waits after a run for the voice `guide`: the second one. -/
def secondRequest : Payload :=
  buildPayload (guideRequest "goodbye") (some ⟨"guide", 7, "AAAA", some "stored"⟩)

/-- The second request gets the prompt that it would get with empty caches. -/
theorem prepared_as_uncached_guide :
    ∃ s : State Bytes ℕ ℕ,
      (s.prepare textWrapper secondRequest).2.toOption.map Prod.snd = some (some "stored") ∧
      readResult (s.prepare textWrapper secondRequest).2 =
        readResult (s.emptied.prepare textWrapper secondRequest).2 := by
  have hrun := run_of_isSome_guarded (step textWrapper) (Covered textWrapper)
    (init Bytes ℕ ℕ) guideRun (by decide +kernel)
  refine ⟨_, ?_, prepared_as_uncached textWrapper_single injective_id hrun 0 ?_ ?_⟩
  · decide +kernel
  · decide +kernel
  · decide +kernel

/-- The voice has no text of its own, and the second request is given the text of the first. -/
theorem refText_of_other_request :
    ∃ as, ∃ s : State Bytes ℕ ℕ, ∃ payload,
      Run (step textWrapper) anyAction (State.init Bytes ℕ ℕ) as s ∧
      s.queued[0]? = some payload ∧
      (s.prepare textWrapper payload).2.toOption.map Prod.snd = some (some "hello") ∧
      (s.emptied.prepare textWrapper payload).2.toOption.map Prod.snd = some (some "goodbye") := by
  have hrun := run_of_isSome (step textWrapper) (init Bytes ℕ ℕ)
    [.upload "Guide" "AAAA" none 7, .speak (guideRequest "hello"),
      .speak (guideRequest "goodbye"), .prepare 0] (by decide +kernel)
  refine ⟨_, _, buildPayload (guideRequest "goodbye") (some ⟨"guide", 7, "AAAA", none⟩), hrun,
    ?_, ?_, ?_⟩
  · decide +kernel
  · decide +kernel
  · decide +kernel

end Omni.Tts.Voice
