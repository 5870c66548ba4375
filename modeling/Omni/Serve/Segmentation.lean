import Omni.Serve.SpeechSocket

/-!
# Segments of a streamed text

The segments that a session of the speech WebSocket generates from its `input.text` messages and the
final `input.done`. They depend on the text only, not on how it has been cut into messages.
-/

namespace Omni.Serve

open Text List

variable {boundaries : List Char}

/-- `_handle_input_text` within the limit: the buffer and the segments that are generated. -/
def inputText (boundaries buffer : List Char) (text : String) :
    Option (List Char × List String) :=
  if text = "" then some (buffer, [])
  else if maxBufferedTextChars < buffer.length + text.toList.length then none
  else some (popSegments boundaries [] (buffer ++ text.toList)).swap

/-- The segment that `_handle_input_done` generates. -/
def inputDone (buffer : List Char) : List String :=
  let remaining := strip (String.ofList buffer)
  if remaining = "" then [] else [remaining]

/-- The segments of the messages with these texts and of the message after them. -/
def sessionSegments (boundaries : List Char) : List Char → List String → Option (List String)
  | buffer, [] => some (inputDone buffer)
  | buffer, text :: texts =>
    (inputText boundaries buffer text).bind fun (buffer, segments) =>
      (sessionSegments boundaries buffer texts).map (segments ++ ·)

/-- A text, split after its boundaries. The last piece is what comes after the last of them. -/
def splitAfter (boundaries : List Char) : List Char → List (List Char)
  | [] => [[]]
  | c :: rest =>
    if c ∈ boundaries then [c] :: splitAfter boundaries rest
    else (splitAfter boundaries rest).modifyHead (c :: ·)

/-- The pieces of a text, each of them stripped, without the empty ones. -/
def textSegments (boundaries text : List Char) : List String :=
  ((splitAfter boundaries text).map fun piece => strip (String.ofList piece)).filter (· ≠ "")

/-- What a session keeps of a text until the next message. -/
def remainder (boundaries text : List Char) : List Char :=
  ((splitAfter boundaries text).getLast?).getD []

/-- No message is too long for what is left of the messages before. -/
def WithinLimit (boundaries : List Char) (texts : List String) : Prop :=
  ∀ before text after, texts = before ++ text :: after →
    (remainder boundaries (before.flatMap String.toList)).length + text.toList.length ≤
      maxBufferedTextChars

variable (boundaries) in
theorem splitAfter_ne_nil (text : List Char) : splitAfter boundaries text ≠ [] := by
  induction text with
  | nil => simp [splitAfter]
  | cons c rest ih =>
    rw [splitAfter]
    split
    · simp
    · cases h : splitAfter boundaries rest with
      | nil => exact absurd h ih
      | cons piece pieces => simp

theorem popSegments_eq (current text : List Char) :
    (popSegments boundaries current text).1 ++ inputDone (popSegments boundaries current text).2 =
      (((splitAfter boundaries text).modifyHead (current ++ ·)).map
        fun piece => strip (String.ofList piece)).filter (· ≠ "") := by
  induction text generalizing current with
  | nil =>
    by_cases hempty : strip (String.ofList current) = "" <;>
      simp [popSegments, inputDone, splitAfter, hempty]
  | cons c rest ih =>
    rw [popSegments, splitAfter]
    by_cases hc : c ∈ boundaries
    · have hrest := ih []
      have hhead : (splitAfter boundaries rest).modifyHead (([] : List Char) ++ ·) =
          splitAfter boundaries rest := modifyHead_id.symm ▸ rfl
      rw [hhead] at hrest
      rw [if_pos hc, if_pos hc, modifyHead_cons, map_cons, filter_cons]
      dsimp only
      by_cases hempty : strip (String.ofList (current ++ [c])) = ""
      · rw [if_pos hempty, hrest, if_neg (by simpa using hempty)]
      · rw [if_neg hempty, cons_append, hrest, if_pos (by simpa using hempty)]
    · rw [if_neg hc, if_neg hc, ih, modifyHead_modifyHead]
      simp [Function.comp_def]

/-- What is left of a text after the start of a segment. -/
theorem popSegments_snd (current text : List Char) :
    (popSegments boundaries current text).2 =
      (((splitAfter boundaries text).modifyHead (current ++ ·)).getLast?).getD [] := by
  induction text generalizing current with
  | nil => simp [popSegments, splitAfter]
  | cons c rest ih =>
    rw [popSegments, splitAfter]
    by_cases hc : c ∈ boundaries
    · have hne := splitAfter_ne_nil boundaries rest
      obtain ⟨piece, pieces, hpieces⟩ := exists_cons_of_ne_nil hne
      simp [hc, ih, hpieces]
    · rw [if_neg hc, if_neg hc, ih, modifyHead_modifyHead]
      simp [Function.comp_def]

/-- A text in two parts. -/
theorem popSegments_append (current text more : List Char) :
    popSegments boundaries current (text ++ more) =
      ((popSegments boundaries current text).1 ++
          (popSegments boundaries (popSegments boundaries current text).2 more).1,
        (popSegments boundaries (popSegments boundaries current text).2 more).2) := by
  induction text generalizing current with
  | nil => rfl
  | cons c rest ih =>
    rw [cons_append, popSegments, popSegments]
    by_cases hc : c ∈ boundaries
    · rw [if_pos hc, if_pos hc, ih]
      dsimp only
      by_cases hempty : strip (String.ofList (current ++ [c])) = ""
      · rw [if_pos hempty, if_pos hempty]
      · rw [if_neg hempty, if_neg hempty]
        rfl
    · rw [if_neg hc, if_neg hc, ih]

/-- What is left has no boundaries. -/
theorem popSegments_remainder (current text more : List Char) (h : ∀ c ∈ current, c ∉ boundaries) :
    popSegments boundaries [] ((popSegments boundaries current text).2 ++ more) =
      popSegments boundaries (popSegments boundaries current text).2 more := by
  induction text generalizing current with
  | nil =>
    have hstart (start : List Char) (hfree : ∀ c ∈ current, c ∉ boundaries) :
        popSegments boundaries start (current ++ more) =
          popSegments boundaries (start ++ current) more := by
      clear h
      induction current generalizing start with
      | nil => rw [append_nil, nil_append]
      | cons c current ih =>
        rw [cons_append, popSegments, if_neg (hfree c (mem_cons_self ..)),
          ih _ fun d hd => hfree d (mem_cons_of_mem _ hd), append_assoc]
        rfl
    exact hstart [] h
  | cons c rest ih =>
    rw [popSegments]
    by_cases hc : c ∈ boundaries
    · rw [if_pos hc]
      exact ih [] (by simp)
    · rw [if_neg hc]
      refine ih _ fun d hd => ?_
      rcases mem_append.1 hd with hd | hd
      · exact h d hd
      · rwa [mem_singleton.1 hd]

/-- The messages after a text whose segments have been generated. -/
theorem sessionSegments_eq (text : List Char) (texts : List String)
    (hlimit : ∀ before next after, texts = before ++ next :: after →
      (remainder boundaries (text ++ before.flatMap String.toList)).length + next.toList.length ≤
        maxBufferedTextChars) :
    ∃ segments, sessionSegments boundaries (popSegments boundaries [] text).2 texts =
        some segments ∧
      (popSegments boundaries [] text).1 ++ segments =
        textSegments boundaries (text ++ texts.flatMap String.toList) := by
  have hremainder (text : List Char) : (popSegments boundaries [] text).2 =
      remainder boundaries text := by
    rw [popSegments_snd, remainder]
    cases splitAfter boundaries text <;> rfl
  induction texts generalizing text with
  | nil =>
    refine ⟨_, rfl, ?_⟩
    rw [popSegments_eq, flatMap_nil, append_nil, textSegments]
    cases splitAfter boundaries text <;> rfl
  | cons next texts ih =>
    have hnext : (remainder boundaries text).length + next.toList.length ≤
        maxBufferedTextChars := by
      have hfirst := hlimit [] next texts rfl
      rwa [flatMap_nil, append_nil] at hfirst
    obtain ⟨segments, hsegments, hall⟩ := ih (text ++ next.toList) fun before other after h => by
      rw [append_assoc]
      exact hlimit (next :: before) other after (by rw [h]; rfl)
    rw [popSegments_append] at hsegments hall
    have hstep : inputText boundaries (popSegments boundaries [] text).2 next =
        some (popSegments boundaries (popSegments boundaries [] text).2 next.toList).swap := by
      unfold inputText
      by_cases hempty : next = ""
      · subst hempty
        rfl
      · rw [if_neg hempty, hremainder, if_neg (Nat.not_lt.2 hnext), ← hremainder,
          popSegments_remainder [] text _ (by simp)]
    let popped := popSegments boundaries (popSegments boundaries [] text).2 next.toList
    refine ⟨popped.1 ++ segments, ?_, ?_⟩
    · rw [sessionSegments, hstep]
      exact congrArg (Option.map (popped.1 ++ ·)) hsegments
    · rw [flatMap_cons, ← append_assoc, ← append_assoc]
      exact hall

end Omni.Serve
