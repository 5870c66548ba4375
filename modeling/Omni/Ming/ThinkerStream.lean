import Mathlib.Data.List.Induction
import Omni.Detokenize.Lossless
import Omni.Ming.Segments

/-!
# What the segmenter hears of the thinker

`make_thinker_stream_output_builder` sends the difference of two decodings of all tokens so far, but
holds a decoding back as long as U+FFFD occurs in it. A decoding without U+FFFD ends between
characters, so later ones extend it; a U+FFFD that the thinker has written itself holds back all
that follows.
-/

namespace Omni.Ming

open Detokenize Utf8 Text List

/-- What the builder reads of a step: `req.is_chunked`, and the token of `req_output.data`, unless
that is `None` or no integer. -/
structure StreamStep where
  isChunked : ℕ
  data : Option ℕ

/-- `_ming_stream_token_ids`, where `None` is an empty list, and `_ming_stream_emitted_text`. -/
structure StreamReq where
  tokenIds : List ℕ := []
  emittedText : Chars := []

/-- The message to the segmenter, with its metadata. -/
structure TextDelta where
  data : Bytes
  tokenId : ℕ
  step : ℕ
  textLen : ℕ
  isEos : Bool

/-- `delta.encode("utf-8")`. -/
def textBytes (text : Chars) : Bytes := text.flatMap String.utf8EncodeChar

variable (bytes : ℕ → Option Bytes) (eosTokenId : Option ℕ)

/-- `_build_stream_output`. -/
def buildStreamOutput (req : StreamReq) (step : StreamStep) : StreamReq × List TextDelta :=
  if 0 < step.isChunked then (req, [])
  else
    match step.data with
    | none => (req, [])
    | some tokenId =>
      let isEos : Bool := eosTokenId = some tokenId
      let tokenIds := if isEos then req.tokenIds else req.tokenIds ++ [tokenId]
      let req := { req with tokenIds := tokenIds }
      if tokenIds = [] then (req, [])
      else
        let decoded := textOf bytes tokenIds
        if replacement ∈ decoded then (req, [])
        else
          let delta :=
            if req.emittedText <+: decoded then decoded.drop req.emittedText.length else decoded
          if delta = [] then (req, [])
          else
            ({ req with emittedText := decoded },
              [⟨textBytes delta, tokenId, tokenIds.length, (textBytes delta).length, isEos⟩])

/-- The steps of a request, and the messages that they send. -/
def streamRun (steps : List StreamStep) : StreamReq × List TextDelta :=
  steps.foldl (fun run step =>
    ((buildStreamOutput bytes eosTokenId run.1 step).1,
      run.2 ++ (buildStreamOutput bytes eosTokenId run.1 step).2)) ({}, [])

/-- The tokens that have been generated, without EOS. -/
def spoken (steps : List StreamStep) : List ℕ :=
  steps.filterMap fun step =>
    if 0 < step.isChunked then none else step.data.filter (eosTokenId ≠ some ·)

/-- What has been sent. -/
def heard (steps : List StreamStep) : Bytes :=
  (streamRun bytes eosTokenId steps).2.flatMap TextDelta.data

/-- The deltas are the text of the tokens, and each goes on from the ones before it up to the text
of the tokens so far. -/
structure Hears (steps : List StreamStep) : Prop where
  whole : heard bytes eosTokenId steps = textBytes (textOf bytes (spoken eosTokenId steps))
  follows : ∀ before step, before ++ [step] <+: steps →
    heard bytes eosTokenId (before ++ [step]) ≠ heard bytes eosTokenId before →
      heard bytes eosTokenId (before ++ [step]) =
        textBytes (textOf bytes (spoken eosTokenId (before ++ [step])))

variable {bytes eosTokenId} {steps : List StreamStep} {req : StreamReq} {sent : Bytes}
  {tokens : List ℕ}

theorem textBytes_append (text text' : Chars) :
    textBytes (text ++ text') = textBytes text ++ textBytes text' := flatMap_append

theorem textBytes_injective : Function.Injective textBytes := by
  intro text text' h
  have heq : utf8 (String.ofList text) = utf8 (String.ofList text') := by
    rw [utf8_eq_flatMap, utf8_eq_flatMap, String.toList_ofList, String.toList_ofList]
    exact h
  exact String.ofList_injective (utf8_injective heq)

/-- What has been sent is the text of some of the tokens, up to the end of a character, and of all
of them unless U+FFFD is in their text. -/
structure Heard (bytes : ℕ → Option Bytes) (req : StreamReq) (sent : Bytes) (tokens : List ℕ) :
    Prop where
  tokenIds : req.tokenIds = tokens
  emitted : sent = textBytes req.emittedText
  clean : replacement ∉ req.emittedText
  ends : ∃ done rest, tokens = done ++ rest ∧ Complete (tokenBytes bytes done) ∧
    req.emittedText = textOf bytes done
  whole : replacement ∉ textOf bytes tokens → req.emittedText = textOf bytes tokens

theorem heard_init : Heard bytes {} [] [] where
  tokenIds := rfl
  emitted := rfl
  clean := not_mem_nil
  ends := ⟨[], [], rfl, complete_nil, rfl⟩
  whole _ := rfl

/-- A later text without U+FFFD goes on from what has been sent. -/
theorem Heard.goesOn (h : Heard bytes req sent tokens) (more : List ℕ) :
    ∃ text, textOf bytes (tokens ++ more) = req.emittedText ++ text := by
  obtain ⟨done, rest, rfl, hcomplete, hemitted⟩ := h.ends
  rw [hemitted, append_assoc, textOf, textOf, tokenBytes_append, hcomplete.lossy_append]
  exact ⟨_, rfl⟩

theorem Heard.quiet (h : Heard bytes req sent tokens) {more : List ℕ}
    (hwhole : replacement ∉ textOf bytes (tokens ++ more) →
      req.emittedText = textOf bytes (tokens ++ more)) :
    Heard bytes { req with tokenIds := tokens ++ more } sent (tokens ++ more) := by
  obtain ⟨done, rest, hdone, hends⟩ := h.ends
  exact ⟨rfl, h.emitted, h.clean, ⟨done, rest ++ more, by rw [hdone, append_assoc], hends⟩, hwhole⟩

theorem Heard.send (h : Heard bytes req sent tokens) {more : List ℕ} {text : Chars}
    (hclean : replacement ∉ textOf bytes (tokens ++ more))
    (htext : textOf bytes (tokens ++ more) = req.emittedText ++ text) :
    Heard bytes ⟨tokens ++ more, textOf bytes (tokens ++ more)⟩ (sent ++ textBytes text)
      (tokens ++ more) where
  tokenIds := rfl
  emitted := by rw [h.emitted, htext, textBytes_append]
  clean := hclean
  ends := ⟨_, [], (append_nil _).symm,
    complete_of_getLast fun hlast => hclean (mem_of_getLast? hlast), rfl⟩
  whole _ := rfl

/-- Every step keeps the invariant, and what it sends completes the text. -/
theorem Heard.step (h : Heard bytes req sent tokens) (step : StreamStep) :
    Heard bytes (buildStreamOutput bytes eosTokenId req step).1
        (sent ++ (buildStreamOutput bytes eosTokenId req step).2.flatMap TextDelta.data)
        (tokens ++ spoken eosTokenId [step]) ∧
      ((buildStreamOutput bytes eosTokenId req step).2 ≠ [] →
        replacement ∉ textOf bytes (tokens ++ spoken eosTokenId [step])) := by
  have hsame (hnone : spoken eosTokenId [step] = []) :
      Heard bytes req (sent ++ []) (tokens ++ spoken eosTokenId [step]) := by
    rw [hnone, append_nil, append_nil]
    exact h
  unfold buildStreamOutput
  by_cases hchunked : 0 < step.isChunked
  · rw [if_pos hchunked]
    exact ⟨hsame (by simp [spoken, hchunked]), fun hne => absurd rfl hne⟩
  rw [if_neg hchunked]
  cases hdata : step.data with
  | none => exact ⟨hsame (by simp [spoken, hchunked, hdata]), fun hne => absurd rfl hne⟩
  | some tokenId =>
    have htokenIds : (if decide (eosTokenId = some tokenId) then req.tokenIds
        else req.tokenIds ++ [tokenId]) = tokens ++ spoken eosTokenId [step] := by
      rw [h.tokenIds]
      by_cases heos : eosTokenId = some tokenId <;>
        simp [spoken, hchunked, hdata, heos, Option.filter]
    dsimp only
    rw [htokenIds]
    obtain ⟨text, htext⟩ := h.goesOn (spoken eosTokenId [step])
    have hquiet (hwhole : replacement ∉ textOf bytes (tokens ++ spoken eosTokenId [step]) →
        req.emittedText = textOf bytes (tokens ++ spoken eosTokenId [step])) :
        Heard bytes { req with tokenIds := tokens ++ spoken eosTokenId [step] } (sent ++ [])
          (tokens ++ spoken eosTokenId [step]) := by
      rw [append_nil]
      exact h.quiet hwhole
    split
    next hempty =>
      refine ⟨hquiet fun _ => ?_, fun hne => absurd rfl hne⟩
      rw [hempty] at htext ⊢
      exact (append_eq_nil_iff.1 htext.symm).1
    split
    next hmem => exact ⟨hquiet fun hclean => absurd hmem hclean, fun hne => absurd rfl hne⟩
    next hclean =>
      have hstarts : req.emittedText <+: textOf bytes (tokens ++ spoken eosTokenId [step]) :=
        ⟨text, htext.symm⟩
      rw [if_pos hstarts, htext, drop_left]
      split
      next hnone =>
        refine ⟨hquiet fun _ => ?_, fun hne => absurd rfl hne⟩
        rw [htext, hnone, append_nil]
      next =>
        have hsend := h.send hclean htext
        rw [htext] at hsend
        exact ⟨by simpa using hsend, fun _ => htext ▸ hclean⟩

theorem heard_concat (before : List StreamStep) (step : StreamStep) :
    heard bytes eosTokenId (before ++ [step]) = heard bytes eosTokenId before ++
      (buildStreamOutput bytes eosTokenId (streamRun bytes eosTokenId before).1 step).2.flatMap
        TextDelta.data := by
  rw [heard, streamRun, foldl_append]
  exact flatMap_append

theorem spoken_concat (before : List StreamStep) (step : StreamStep) :
    spoken eosTokenId (before ++ [step]) = spoken eosTokenId before ++ spoken eosTokenId [step] :=
  filterMap_append

theorem heard_run (steps : List StreamStep) : Heard bytes (streamRun bytes eosTokenId steps).1
    (heard bytes eosTokenId steps) (spoken eosTokenId steps) := by
  induction steps using reverseRecOn with
  | nil => exact heard_init
  | append_singleton before step ih =>
    rw [heard_concat, spoken_concat, streamRun, foldl_append]
    exact (ih.step step).1

/-- The segmenter hears the whole text exactly if U+FFFD is not in it. -/
theorem hears_iff_clean (bytes : ℕ → Option Bytes) (eosTokenId : Option ℕ)
    (steps : List StreamStep) : Hears bytes eosTokenId steps ↔
      replacement ∉ textOf bytes (spoken eosTokenId steps) := by
  have h (steps : List StreamStep) : Heard bytes (streamRun bytes eosTokenId steps).1
      (heard bytes eosTokenId steps) (spoken eosTokenId steps) := heard_run steps
  constructor
  · intro hears
    have htext := textBytes_injective ((h steps).emitted.symm.trans hears.whole)
    exact htext ▸ (h steps).clean
  · intro hclean
    refine ⟨by rw [(h steps).emitted, (h steps).whole hclean], fun before step _ hnew => ?_⟩
    have hcleanNow : replacement ∉ textOf bytes (spoken eosTokenId before ++
        spoken eosTokenId [step]) := ((h before).step step).2 fun hnone =>
      hnew (by rw [heard_concat, hnone, flatMap_nil, append_nil])
    rw [← spoken_concat] at hcleanNow
    rw [(h _).emitted, (h _).whole hcleanNow]

/-- A token that is U+FFFD, and one that is a letter: nothing is sent. -/
theorem replacement_blocks : ¬Hears (fun token => [[0xEF, 0xBF, 0xBD], [0x61]][token]?) none
    [⟨0, some 0⟩, ⟨0, some 1⟩] := by
  intro h
  have hwhole := h.whole
  revert hwhole
  decide +kernel

end Omni.Ming
