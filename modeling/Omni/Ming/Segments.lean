import Mathlib.Data.Int.Notation
import Omni.Library.Text
import Omni.Library.Words

/-!
# The segments of the Ming streaming talker

`SegmenterState` of `models/ming_omni/components/streaming_text.py`: text deltas are collected in a
buffer, which is emitted as a segment when it is long enough, at the end of a sentence, or when the
first segment has waited long enough.
-/

namespace Omni.Ming

open Omni.Text Omni.Words List

/-- A text, as its characters. -/
abbrev Chars := List Char

/-- `SegmenterConfig`, with the checks of `__post_init__`. -/
structure SegmenterConfig where
  segmentMinTokens : ℕ
  segmentMaxTokens : ℕ
  firstSegmentMinTokens : ℕ
  firstSegmentMaxWaitMs : ℕ
  min_pos : 0 < segmentMinTokens
  max_pos : 0 < segmentMaxTokens
  first_pos : 0 < firstSegmentMinTokens
  min_le : segmentMinTokens ≤ segmentMaxTokens
  first_le : firstSegmentMinTokens ≤ segmentMaxTokens

/-- `TextSegment`. -/
structure TextSegment where
  segmentId : ℕ
  text : Chars
  isFinalSegment : Bool
  deriving DecidableEq

/-- `SegmenterState`. -/
structure SegmenterState where
  buffer : Chars
  segmentId : ℕ
  firstTextMs : Option ℤ
  deriving DecidableEq

/-- A new state. -/
def SegmenterState.init : SegmenterState := ⟨[], 0, none⟩

/-- `_SEGMENT_END_PUNCTUATION`. -/
def segmentEndPunctuation : List Char := ['.', '!', '?', '。', '！', '？', '；', ';']

/-- `text.split()`. -/
def splitWords (text : Chars) : List Chars := split isSpace text

/-- The count of words separated by whitespace. -/
def wordCount (text : Chars) : ℕ := (splitWords text).length

/-- `split_whitespace_tokens`. -/
def splitWhitespaceTokens (text : Chars) (maxTokens : ℕ) : Chars × Chars :=
  let parts := splitWords text
  if parts.length ≤ maxTokens then (text, [])
  else (unwords ' ' (parts.take maxTokens), unwords ' ' (parts.drop maxTokens))

namespace SegmenterState

variable (cfg : SegmenterConfig) (tokenCountFn : Chars → ℕ) (s : SegmenterState)

/-- `_has_segment_end_punctuation`. -/
def hasSegmentEndPunctuation : Bool :=
  match (s.buffer.reverse.dropWhile isSpace).head? with
  | some c => segmentEndPunctuation.contains c
  | none => false

/-- `_emit_text`. -/
def emitText (text remainder : Chars) (isFinalSegment : Bool) (remainderStartMs : Option ℤ) :
    SegmenterState × TextSegment :=
  (⟨remainder, s.segmentId + 1, remainderStartMs⟩, ⟨s.segmentId, text, isFinalSegment⟩)

/-- `_emit`. -/
def emit (isFinalSegment : Bool) : SegmenterState × TextSegment :=
  s.emitText s.buffer [] isFinalSegment none

/-- `_emit_max_window`. -/
def emitMaxWindow (nowMs : ℤ) : SegmenterState × TextSegment :=
  let (text, remainder) := splitWhitespaceTokens s.buffer cfg.segmentMaxTokens
  s.emitText text remainder false (if remainder = [] then none else some nowMs)

/-- `buffer_token_count`. -/
def bufferTokenCount : ℕ := if s.buffer = [] then 0 else tokenCountFn s.buffer

/-- `push`. -/
def push (text : Chars) (nowMs : ℤ) : SegmenterState × List TextSegment :=
  let s : SegmenterState :=
    { s with
      buffer := s.buffer ++ text
      firstTextMs := if text ≠ [] ∧ s.firstTextMs = none then some nowMs else s.firstTextMs }
  if s.buffer = [] then (s, [])
  else
    let tokens := tokenCountFn s.buffer
    if cfg.segmentMaxTokens ≤ tokens then
      ((s.emitMaxWindow cfg nowMs).1, [(s.emitMaxWindow cfg nowMs).2])
    else
      let firstTimeoutReady := s.segmentId = 0 ∧ cfg.firstSegmentMinTokens ≤ tokens ∧
        ∃ firstTextMs ∈ s.firstTextMs, (cfg.firstSegmentMaxWaitMs : ℤ) ≤ nowMs - firstTextMs
      if cfg.segmentMinTokens ≤ tokens ∧ s.hasSegmentEndPunctuation ∨ firstTimeoutReady then
        ((s.emit false).1, [(s.emit false).2])
      else (s, [])

/-- `push` with a count that can raise. It counts the buffer at most once. -/
def tryPush {ε : Type} (tokenCountFn : Chars → Except ε ℕ) (text : Chars) (nowMs : ℤ) :
    Except ε (SegmenterState × List TextSegment) :=
  if s.buffer ++ text = [] then .ok (s.push cfg (fun _ => 0) text nowMs)
  else (tokenCountFn (s.buffer ++ text)).map fun tokens => s.push cfg (fun _ => tokens) text nowMs

/-- `flush`. -/
def flush : SegmenterState × List TextSegment :=
  if s.buffer = [] then (s, []) else ((s.emit true).1, [(s.emit true).2])

end SegmenterState

open SegmenterState

/-- The deltas are pushed with their times, and the rest is flushed. -/
def segments (cfg : SegmenterConfig) (tokenCountFn : Chars → ℕ) :
    SegmenterState → List (Chars × ℤ) → List TextSegment
  | s, [] => s.flush.2
  | s, (text, nowMs) :: rest =>
    (s.push cfg tokenCountFn text nowMs).2 ++
      segments cfg tokenCountFn (s.push cfg tokenCountFn text nowMs).1 rest

/-- The whole text. -/
def wholeText (pushes : List (Chars × ℤ)) : Chars := pushes.flatMap (·.1)

/-- The segments have the words of the text, each within one segment of a bounded size. -/
structure KeepsWords (cfg : SegmenterConfig) (pushes : List (Chars × ℤ))
    (out : List TextSegment) : Prop where
  numbered : out.map (·.segmentId) = List.range out.length
  notFinal : ∀ x ∈ out.dropLast, x.isFinalSegment = false
  words : out.flatMap (splitWords ·.text) = splitWords (wholeText pushes)
  bounded : ∀ x ∈ out, wordCount x.text ≤ cfg.segmentMaxTokens

/-- The next symbol after this text starts a word: the text is empty or ends with whitespace. -/
def atWordStart (text : Chars) : Bool := freshAfter isSpace true text

/-- The state after the pushes. -/
def pushAll (cfg : SegmenterConfig) (s : SegmenterState) (pushes : List (Chars × ℤ)) :
    SegmenterState :=
  pushes.foldl (fun s p => (s.push cfg wordCount p.1 p.2).1) s

/-- At every delta, the buffer ends within a word if and only if the text before the delta does,
unless whitespace follows. -/
def Joins (cfg : SegmenterConfig) : SegmenterState → Chars → List (Chars × ℤ) → Prop
  | _, _, [] => True
  | s, seen, (text, nowMs) :: rest =>
    (atWordStart s.buffer = atWordStart seen ∨ ∀ c ∈ text.head?, isSpace c = true) ∧
      Joins cfg (s.push cfg wordCount text nowMs).1 (seen ++ text) rest

/-- The marks of the words of a text. -/
abbrev marksOf (text : Chars) : List (Char × Bool) := marks isSpace true text

/-- A cut at the cap: the emitted words and the remaining words are those of the text. -/
theorem splitWhitespaceTokens_spec (text : Chars) (maxTokens : ℕ) :
    marksOf (splitWhitespaceTokens text maxTokens).1 ++
        marksOf (splitWhitespaceTokens text maxTokens).2 = marksOf text ∧
      wordCount (splitWhitespaceTokens text maxTokens).1 ≤ maxTokens := by
  unfold splitWhitespaceTokens
  by_cases hfew : (splitWords text).length ≤ maxTokens
  · simp only [if_pos hfew]
    exact ⟨append_nil _, hfew⟩
  · simp only [if_neg hfew]
    have hblank : isSpace ' ' = true := by decide
    have hwords : ∀ w ∈ splitWords text, IsWord isSpace w := fun w hw => isWord_of_mem_split hw
    have htake : ∀ w ∈ (splitWords text).take maxTokens, IsWord isSpace w :=
      fun w hw => hwords w (mem_of_mem_take hw)
    have hdrop : ∀ w ∈ (splitWords text).drop maxTokens, IsWord isSpace w :=
      fun w hw => hwords w (mem_of_mem_drop hw)
    constructor
    · rw [marksOf, marksOf, (marks_unwords hblank htake).1, (marks_unwords hblank hdrop).1,
        ← flatMap_append, take_append_drop]
      exact (marks_eq_split text).1.symm
    · rw [wordCount, splitWords, split_unwords hblank htake, length_take]
      exact min_le_left ..

/-- A push emits nothing or one segment. Together with the buffer, it has the words of the buffer
before and of the delta. -/
theorem push_spec (cfg : SegmenterConfig) (s : SegmenterState) (text : Chars) (nowMs : ℤ) :
    ∃ buffer firstTextMs out, s.push cfg wordCount text nowMs =
        (⟨buffer, s.segmentId + out.length, firstTextMs⟩, out) ∧
      (out = [] ∧ buffer = s.buffer ++ text ∨
        ∃ emitted, out = [⟨s.segmentId, emitted, false⟩] ∧
          marksOf emitted ++ marksOf buffer = marksOf (s.buffer ++ text) ∧
          wordCount emitted ≤ cfg.segmentMaxTokens) := by
  simp only [push]
  -- the start of the waiting time plays no role here
  generalize (if text ≠ [] ∧ s.firstTextMs = none then some nowMs else s.firstTextMs) = firstTextMs
  split
  · exact ⟨_, _, [], rfl, .inl ⟨rfl, rfl⟩⟩
  · split
    · obtain ⟨hmarks, hcount⟩ := splitWhitespaceTokens_spec (s.buffer ++ text) cfg.segmentMaxTokens
      exact ⟨_, _, [_], rfl, .inr ⟨_, rfl, hmarks, hcount⟩⟩
    next hfew =>
      split
      · exact ⟨_, _, [_], rfl, .inr ⟨_, rfl, append_nil _, (Nat.lt_of_not_le hfew).le⟩⟩
      · exact ⟨_, _, [], rfl, .inl ⟨rfl, rfl⟩⟩

theorem marks_push (cfg : SegmenterConfig) (s : SegmenterState) (text : Chars) (nowMs : ℤ) :
    (s.push cfg wordCount text nowMs).2.flatMap (fun x => marksOf x.text) ++
        marksOf (s.push cfg wordCount text nowMs).1.buffer = marksOf (s.buffer ++ text) := by
  obtain ⟨buffer, firstTextMs, out, hpush, ⟨rfl, rfl⟩ | ⟨emitted, rfl, hmarks, -⟩⟩ :=
    push_spec cfg s text nowMs
  · rw [hpush]
    rfl
  · rw [hpush, flatMap_singleton]
    exact hmarks

theorem marks_flush (s : SegmenterState) :
    s.flush.2.flatMap (fun x => marksOf x.text) = marksOf s.buffer := by
  unfold flush
  split
  next hempty =>
    rw [hempty]
    rfl
  · exact flatMap_singleton ..

/-- The words of a text with a delta. -/
theorem marksOf_append (x y : Chars) :
    marksOf (x ++ y) = marksOf x ++ marks isSpace (atWordStart x) y :=
  marks_append true x y

/-- The numbers of the segments of a run. -/
theorem segmentId_segments (cfg : SegmenterConfig) (s : SegmenterState)
    (pushes : List (Chars × ℤ)) :
    (segments cfg wordCount s pushes).map (·.segmentId) =
      List.range' s.segmentId (segments cfg wordCount s pushes).length := by
  induction pushes generalizing s with
  | nil =>
    simp only [segments, flush]
    split <;> rfl
  | cons push rest ih =>
    obtain ⟨buffer, firstTextMs, out, hpush, hout⟩ := push_spec cfg s push.1 push.2
    have hids : out.map (·.segmentId) = List.range' s.segmentId out.length := by
      obtain ⟨rfl, -⟩ | ⟨emitted, rfl, -, -⟩ := hout <;> rfl
    rw [segments, hpush, map_append, ih, hids, length_append, List.range'_append_1]

theorem notFinal_segments (cfg : SegmenterConfig) (s : SegmenterState)
    (pushes : List (Chars × ℤ)) :
    ∀ x ∈ (segments cfg wordCount s pushes).dropLast, x.isFinalSegment = false := by
  induction pushes generalizing s with
  | nil =>
    intro x hx
    simp only [segments, flush] at hx
    split at hx <;> cases hx
  | cons push rest ih =>
    intro x hx
    rw [segments] at hx
    obtain ⟨buffer, firstTextMs, out, hpush, hout⟩ := push_spec cfg s push.1 push.2
    rw [hpush] at hx
    have hpushed : ∀ y ∈ out, y.isFinalSegment = false := by
      obtain ⟨rfl, -⟩ | ⟨emitted, rfl, -, -⟩ := hout <;> simp
    let next : SegmenterState := ⟨buffer, s.segmentId + out.length, firstTextMs⟩
    by_cases hlast : segments cfg wordCount next rest = []
    · rw [hlast, append_nil] at hx
      exact hpushed x (dropLast_subset _ hx)
    · rw [dropLast_append_of_ne_nil hlast, mem_append] at hx
      rcases hx with hx | hx
      · exact hpushed x hx
      · exact ih _ x hx

/-- The segments of the pushes are within the cap, so the flushed buffer decides. -/
theorem bounded_segments (cfg : SegmenterConfig) (s : SegmenterState)
    (pushes : List (Chars × ℤ)) :
    (∀ x ∈ segments cfg wordCount s pushes, wordCount x.text ≤ cfg.segmentMaxTokens) ↔
      wordCount (pushAll cfg s pushes).buffer ≤ cfg.segmentMaxTokens := by
  induction pushes generalizing s with
  | nil =>
    simp only [segments, flush, pushAll, foldl_nil]
    split
    next hempty =>
      rw [hempty]
      simp [wordCount, splitWords, split]
    · simp [emit, emitText]
  | cons push rest ih =>
    rw [segments, forall_mem_append, ih, pushAll, pushAll, foldl_cons]
    obtain ⟨buffer, firstTextMs, out, hpush, hout⟩ := push_spec cfg s push.1 push.2
    have hpushed : ∀ y ∈ out, wordCount y.text ≤ cfg.segmentMaxTokens := by
      obtain ⟨rfl, -⟩ | ⟨emitted, rfl, -, hcount⟩ := hout
      · simp
      · simpa using hcount
    rw [hpush]
    exact and_iff_right hpushed

/-- The words of the segments are those of the text if and only if they were before, and every delta
joins the buffer as it joins the text: what is emitted has as many symbols in any case, so that a
difference remains. -/
theorem marks_segments (cfg : SegmenterConfig) (s : SegmenterState) (seen : Chars)
    (before : List (Char × Bool)) (pushes : List (Chars × ℤ))
    (hlength : (before ++ marksOf s.buffer).length = (marksOf seen).length) :
    before ++ (segments cfg wordCount s pushes).flatMap (fun x => marksOf x.text) =
        marksOf (seen ++ wholeText pushes) ↔
      before ++ marksOf s.buffer = marksOf seen ∧ Joins cfg s seen pushes := by
  induction pushes generalizing s seen before with
  | nil =>
    rw [segments, marks_flush, wholeText, flatMap_nil, append_nil]
    exact (and_iff_left trivial).symm
  | cons push rest ih =>
    obtain ⟨text, nowMs⟩ := push
    -- what the push emits, and what it leaves
    let next := (s.push cfg wordCount text nowMs).1
    let out := (s.push cfg wordCount text nowMs).2
    have hpush : (before ++ out.flatMap fun x => marksOf x.text) ++ marksOf next.buffer =
        (before ++ marksOf s.buffer) ++ marks isSpace (atWordStart s.buffer) text := by
      rw [append_assoc, marks_push, marksOf_append, append_assoc]
    have htext : (marks isSpace (atWordStart s.buffer) text).length =
        (marks isSpace (atWordStart seen) text).length := length_marks ..
    have hnext : ((before ++ out.flatMap fun x => marksOf x.text) ++ marksOf next.buffer).length =
        (marksOf (seen ++ text)).length := by
      rw [hpush, marksOf_append, length_append, hlength, htext, length_append]
    have hwhole : seen ++ wholeText ((text, nowMs) :: rest) = (seen ++ text) ++ wholeText rest := by
      rw [wholeText, flatMap_cons, append_assoc]
      rfl
    have hjoint : before ++ marksOf s.buffer ++ marks isSpace (atWordStart s.buffer) text =
          marksOf seen ++ marks isSpace (atWordStart seen) text ↔
        before ++ marksOf s.buffer = marksOf seen ∧
          (atWordStart s.buffer = atWordStart seen ∨ ∀ c ∈ text.head?, isSpace c = true) := by
      rw [← marks_eq_iff]
      constructor
      · exact fun h => append_inj h hlength
      · rintro ⟨h₁, h₂⟩
        rw [h₁, h₂]
    rw [segments, flatMap_append, ← append_assoc, hwhole, ih next _ _ hnext, hpush,
      marksOf_append, hjoint, and_assoc]
    rfl

/-- The segments have the words of the whole text if and only if every delta joins the buffer as it
joins the text. -/
theorem words_segments_iff (cfg : SegmenterConfig) (pushes : List (Chars × ℤ)) :
    (segments cfg wordCount .init pushes).flatMap (splitWords ·.text) =
        splitWords (wholeText pushes) ↔ Joins cfg .init [] pushes := by
  have hwords : ∀ w ∈ (segments cfg wordCount .init pushes).flatMap (splitWords ·.text),
      IsWord isSpace w := by
    intro w hw
    obtain ⟨x, -, hw⟩ := mem_flatMap.1 hw
    exact isWord_of_mem_split hw
  have hmarks : ((segments cfg wordCount .init pushes).flatMap (splitWords ·.text)).flatMap
      wordMarks = (segments cfg wordCount .init pushes).flatMap (fun x => marksOf x.text) := by
    rw [flatMap_assoc]
    exact flatMap_congr fun x _ => (marks_eq_split x.text).1.symm
  have hrun := marks_segments cfg .init [] [] pushes rfl
  rw [splitWords, split_eq_iff _ hwords, hmarks]
  exact hrun.trans (and_iff_right rfl)

/-- The segments keep the words of the text if and only if every delta joins the buffer as it joins
the text, and what is flushed at the end is within the cap. -/
theorem keepsWords_iff (cfg : SegmenterConfig) (pushes : List (Chars × ℤ)) :
    KeepsWords cfg pushes (segments cfg wordCount .init pushes) ↔
      Joins cfg .init [] pushes ∧
        wordCount (pushAll cfg .init pushes).buffer ≤ cfg.segmentMaxTokens := by
  have hwords := words_segments_iff cfg pushes
  have hbounded := bounded_segments cfg .init pushes
  constructor
  · intro h
    exact ⟨hwords.1 h.words, hbounded.1 h.bounded⟩
  · rintro ⟨hjoins, hflushed⟩
    refine ⟨?_, notFinal_segments cfg .init pushes, hwords.2 hjoins, hbounded.2 hflushed⟩
    rw [segmentId_segments, range_eq_range']
    rfl

theorem cap_pos : 0 < 3 := by decide

/-- The configuration of the unit test for the cap. -/
def capThree : SegmenterConfig := ⟨1, 3, 3, 9999, Nat.one_pos, cap_pos, cap_pos, cap_pos, le_rfl⟩

/-- The rest after the cap loses its last space, and the next word is glued to it. -/
theorem remainder_glued :
    ¬ ∀ (cfg : SegmenterConfig) (pushes : List (Chars × ℤ)),
      pushes.Pairwise (fun p q => p.2 ≤ q.2) →
        KeepsWords cfg pushes (segments cfg wordCount .init pushes) := by
  intro h
  have hwords := (h capThree [("one two three four ".toList, 0), ("five".toList, 0)]
    (by decide)).words
  revert hwords
  decide +kernel

end Omni.Ming
