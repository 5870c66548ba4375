import Mathlib.Algebra.GroupWithZero.Nat
import Mathlib.Data.List.Induction
import Omni.Detokenize.Lossless

/-!
# The streamed text of a transcription

`make_moss_transcribe_diarize_stream_output_builder` of `request_builders.py`, and what it puts out
over the steps of a request. The tokenizer decodes the bytes of the tokens that are not special,
with replacement. The clock and its differences are of any type.
-/

namespace Omni.Asr

open Detokenize Text Utf8 List Option

variable {K : Type} [Zero K] [Sub K] [LT K] [DecidableLT K]

/-- The arguments of `make_moss_transcribe_diarize_stream_output_builder`. -/
structure StreamBuilder (K : Type) where
  /-- What the tokenizer has for a token; `none` for a special one. -/
  bytes : ℕ → Option Bytes
  /-- `resolved_eos`. -/
  eos : Option ℕ
  minEmitInterval : K

/-- What stays the same of a request. -/
structure StreamRequest where
  /-- `req_data.req` is set. -/
  hasReq : Bool
  /-- `params.get("stream")`, if there is a stage payload. -/
  stream : Option Bool

/-- A call of `_build_stream_output`. -/
structure StreamCall (K : Type) where
  isChunked : ℕ
  /-- `req_output.data`, if it is an integer. -/
  data : Option ℕ
  /-- What `time.perf_counter()` gives. -/
  now : K

/-- The output token of a call. Before the last chunk of a prompt there is none. -/
def StreamCall.output (call : StreamCall K) : Option ℕ :=
  if 0 < call.isChunked then none else call.data

/-- The attributes that the builder keeps with a request. -/
structure StreamState (K : Type) where
  /-- `_moss_stream_pending_ids`. -/
  pendingIds : Option (List ℕ)
  /-- `_moss_stream_last_emit_t`. -/
  lastEmit : Option K

/-- A stream message. -/
structure StreamDelta where
  text : Chars
  tokenId : ℕ
  deriving DecidableEq

namespace StreamBuilder

variable (b : StreamBuilder K) (req : StreamRequest)

/-- `is_eos`. -/
def isEos (token : ℕ) : Bool := b.eos = some token

/-- The pending tokens with a token, which is not kept if it is EOS. -/
def held (s : StreamState K) (token : ℕ) : List ℕ :=
  s.pendingIds.getD [] ++ if b.isEos token then [] else [token]

/-- The interval has elapsed, or does not count. -/
def Due (s : StreamState K) (token : ℕ) (now : K) : Prop :=
  ¬(b.isEos token = false ∧ 0 < b.minEmitInterval ∧ 0 < s.lastEmit.getD 0 ∧
    now - s.lastEmit.getD 0 < b.minEmitInterval)

instance (s : StreamState K) (token : ℕ) (now : K) : Decidable (b.Due s token now) :=
  inferInstanceAs (Decidable (¬_))

/-- `_build_stream_output`. -/
def buildStreamOutput (s : StreamState K) (call : StreamCall K) :
    StreamState K × Option StreamDelta :=
  if !req.hasReq then (s, none)
  else if 0 < call.isChunked then (s, none)
  else if req.stream ≠ some true then (s, none)
  else match call.data with
    | none => (s, none)
    | some token =>
      let pending := b.held s token
      let s' := { s with pendingIds := some pending }
      if pending = [] then (s', none)
      else if ¬b.Due s token call.now then (s', none)
      else
        let delta := textOf b.bytes pending
        if delta.getLast? = some replacement then (s', none)
        else if delta = [] then ({ s with pendingIds := some [] }, none)
        else (⟨some [], some call.now⟩, some ⟨delta, token⟩)

/-- The state and the messages after some calls. -/
def run (calls : List (StreamCall K)) : StreamState K × List StreamDelta :=
  calls.foldl (fun u call =>
    let v := b.buildStreamOutput req u.1 call
    (v.1, u.2 ++ v.2.toList)) (⟨none, none⟩, [])

/-- The texts that have been put out. -/
def deltas (calls : List (StreamCall K)) : List Chars := (b.run req calls).2.map (·.text)

/-- The output tokens of some calls. -/
def outputTokens (calls : List (StreamCall K)) : List ℕ :=
  calls.filterMap StreamCall.output

/-- The pending tokens are put out with a token. -/
def Flushes (s : StreamState K) (token : ℕ) (now : K) : Prop :=
  b.Due s token now ∧ (textOf b.bytes (b.held s token)).getLast? ≠ some replacement

variable {b req} {call : StreamCall K} {calls : List (StreamCall K)} {token : ℕ} {s : StreamState K}

theorem textsOf_singleton (bytes : ℕ → Option Bytes) (tokens : List ℕ) :
    textsOf bytes [tokens] = if textOf bytes tokens = [] then [] else [textOf bytes tokens] := by
  by_cases h : textOf bytes tokens = [] <;> simp [textsOf, h]

/-- A call without an output token does nothing. -/
theorem buildStreamOutput_of_none (h : call.output = none) :
    b.buildStreamOutput req s call = (s, none) := by
  unfold StreamCall.output at h
  unfold buildStreamOutput
  split_ifs at h ⊢ with hreq hchunked hstream <;> first | rfl | rw [h]

theorem buildStreamOutput_of_some (hreq : req.hasReq = true) (hstream : req.stream = some true)
    (h : call.output = some token) :
    ∃ s' out, b.buildStreamOutput req s call = (s', out) ∧
      ((b.Flushes s token call.now ∧ s'.pendingIds = some [] ∧
        out.toList.map (·.text) = textsOf b.bytes [b.held s token]) ∨
      (¬b.Flushes s token call.now ∧ s'.pendingIds = some (b.held s token) ∧ out = none)) := by
  obtain ⟨hchunked, hdata⟩ : ¬0 < call.isChunked ∧ call.data = some token := by
    unfold StreamCall.output at h
    split_ifs at h with hchunked
    exact ⟨hchunked, h⟩
  have hnil : textOf b.bytes [] = [] := rfl
  simp only [buildStreamOutput, hreq, hchunked, hstream, hdata, textsOf_singleton, Flushes]
  by_cases hempty : b.held s token = []
  · by_cases hdue : b.Due s token call.now <;> simp [hempty, hdue, hnil]
  by_cases hdue : b.Due s token call.now
  swap
  · exact ⟨_, _, by simp [hempty, hdue]; exact ⟨rfl, rfl⟩, by simp [hdue]⟩
  by_cases hlast : (textOf b.bytes (b.held s token)).getLast? = some replacement
  · exact ⟨_, _, by simp [hempty, hdue, hlast]; exact ⟨rfl, rfl⟩, by simp [hlast]⟩
  by_cases htext : textOf b.bytes (b.held s token) = []
  · exact ⟨_, _, by simp [hempty, hdue, htext]; exact ⟨rfl, rfl⟩, by simp [hdue, htext]⟩
  · exact ⟨_, _, by simp [hempty, hdue, hlast, htext]; exact ⟨rfl, rfl⟩, by simp [hdue, hlast,
      htext]⟩

theorem run_append : b.run req (calls ++ [call]) =
    ((b.buildStreamOutput req (b.run req calls).1 call).1,
      (b.run req calls).2 ++ (b.buildStreamOutput req (b.run req calls).1 call).2.toList) := by
  rw [run, foldl_append]
  rfl

/-- The output tokens but for EOS. -/
def textTokens (b : StreamBuilder K) (calls : List (StreamCall K)) : List ℕ :=
  (outputTokens calls).filter fun token => !b.isEos token

theorem delivering_held (h : Delivering b.bytes (b.textTokens calls)
      (((b.run req calls).1.pendingIds).getD []) (b.deltas req calls))
    (hcall : call.output = some token) :
    Delivering b.bytes (b.textTokens (calls ++ [call])) (b.held (b.run req calls).1 token)
      (b.deltas req calls) := by
  have htokens : b.textTokens (calls ++ [call]) =
      b.textTokens calls ++ if b.isEos token then [] else [token] := by
    unfold textTokens outputTokens
    rw [filterMap_append, filter_append, filterMap_cons_some hcall]
    cases heos : b.isEos token <;> simp [heos]
  rw [htokens, held]
  cases b.isEos token with
  | true => simpa using h
  | false => exact h.pending token

/-- **Invariant.** All but the pending tokens have been delivered. -/
theorem delivering_run (hreq : req.hasReq = true) (hstream : req.stream = some true)
    (calls : List (StreamCall K)) : Delivering b.bytes (b.textTokens calls)
      (((b.run req calls).1.pendingIds).getD []) (b.deltas req calls) := by
  induction calls using List.reverseRecOn with
  | nil => exact delivering_nil
  | append_singleton calls call ih =>
    rw [deltas, run_append]
    cases hcall : call.output with
    | none =>
      have htokens : b.textTokens (calls ++ [call]) = b.textTokens calls := by
        simp [textTokens, outputTokens, hcall]
      rw [buildStreamOutput_of_none hcall, htokens, Option.toList_none, append_nil]
      exact ih
    | some token =>
      have hheld := delivering_held ih hcall
      obtain ⟨s', out, hbuild, ⟨hflush, hpending, hout⟩ | ⟨-, hpending, rfl⟩⟩ :=
        buildStreamOutput_of_some (b := b) (s := (b.run req calls).1) hreq hstream hcall
      · rw [hbuild, map_append, hout, hpending]
        exact hheld.flush hflush.2
      · rw [hbuild, hpending, Option.toList_none, append_nil]
        exact hheld

omit [Zero K] [Sub K] [LT K] [DecidableLT K] in
theorem textOf_textTokens (heos : ∀ token ∈ b.eos, b.bytes token = none) :
    textOf b.bytes (b.textTokens calls) = textOf b.bytes (outputTokens calls) := by
  unfold textTokens textOf tokenBytes
  congr 1
  induction outputTokens calls with
  | nil => rfl
  | cons token tokens ih =>
    rw [flatMap_cons, ← ih]
    cases htoken : b.isEos token with
    | true => simp [htoken, heos token (of_decide_eq_true htoken)]
    | false => simp [htoken]

/-- What has been put out is the text of the first output tokens. After an output token it is the
text of all of them exactly if the pending tokens with it have no text or are put out with it. -/
theorem streamed_text_complete_iff (hreq : req.hasReq = true) (hstream : req.stream = some true)
    (heos : ∀ token ∈ b.eos, b.bytes token = none) (calls : List (StreamCall K))
    (hcall : call.output = some token) :
    (∃ first, first <+: b.textTokens calls ∧ (b.deltas req calls).flatten = textOf b.bytes first) ∧
    ((b.deltas req (calls ++ [call])).flatten = textOf b.bytes (outputTokens (calls ++ [call])) ↔
      textOf b.bytes (b.held (b.run req calls).1 token) = [] ∨
        b.Flushes (b.run req calls).1 token call.now) := by
  have hbefore := delivering_run (b := b) hreq hstream calls
  refine ⟨?_, ?_⟩
  · obtain ⟨first, hfirst, -, -, -, -, htext⟩ := hbefore
    exact ⟨first, hfirst ▸ prefix_append _ _, htext⟩
  have hheld := delivering_held hbefore hcall
  rw [← textOf_textTokens heos, deltas, run_append]
  obtain ⟨s', out, hbuild, ⟨hflush, -, hout⟩ | ⟨hflush, -, rfl⟩⟩ :=
    buildStreamOutput_of_some (b := b) (s := (b.run req calls).1) hreq hstream hcall
  · rw [hbuild, map_append, hout]
    obtain ⟨-, -, -, htext⟩ := hheld.window
    exact iff_of_true htext (Or.inr hflush)
  · obtain ⟨first, hfirst, hcomplete, -, -, -, htext⟩ := hheld
    have hall : textOf b.bytes (b.textTokens (calls ++ [call])) =
        textOf b.bytes first ++ textOf b.bytes (b.held (b.run req calls).1 token) := by
      rw [hfirst, textOf, tokenBytes_append, hcomplete.lossy_append]
      rfl
    rw [hbuild, Option.toList_none, append_nil, or_iff_left hflush, hall, ← htext]
    exact self_eq_append_right

/-- A builder for letters, with an interval of two. -/
def letters : StreamBuilder ℕ := ⟨fun token => if token = 0 then none else some [97], some 0, 2⟩

/-- The prompt in two chunks, then a letter and EOS. -/
theorem streamed_text_complete_two :
    (letters.deltas ⟨true, some true⟩ [⟨1, some 5, 9⟩, ⟨0, some 5, 10⟩, ⟨0, some 0, 11⟩]).flatten =
      textOf letters.bytes [5, 0] :=
  (streamed_text_complete_iff rfl rfl (by decide) [⟨1, some 5, 9⟩, ⟨0, some 5, 10⟩]
    (show (StreamCall.mk 0 (some 0) 11).output = some 0 from rfl)).2.mpr (Or.inl (by decide))

/-- A letter that comes within the interval and is the last one at the length limit is not put
out. -/
theorem streamed_text_incomplete :
    ¬∀ calls : List (StreamCall ℕ), (letters.deltas ⟨true, some true⟩ calls).flatten =
      textOf letters.bytes (outputTokens calls) := by
  intro h
  have hlost : (letters.deltas ⟨true, some true⟩ [⟨0, some 5, 10⟩, ⟨0, some 5, 11⟩]).flatten ≠
      textOf letters.bytes [5, 5] := by decide
  exact hlost (h _)

end StreamBuilder

end Omni.Asr
