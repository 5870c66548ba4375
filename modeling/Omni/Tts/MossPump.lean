import Mathlib.Algebra.Order.BigOperators.Group.List
import Mathlib.Algebra.Order.Group.Nat
import Omni.Tts.MossSlots

/-!
# The frames of the streams

The frames that have arrived for a stream are those that its steps have passed to the codec followed
by those in its buffer. A turn of the pump takes at least one frame from the buffer of each of its
participants, and `decode_delta` takes the rest.
-/

namespace Omni.Tts

open Transition Function MossVocoder OfflineItem List

variable {R C σ : Type} {cfg : MossConfig} {codec : SlotCodec C σ} {s t : MossVocoder R C σ}
  {r requestId : R} {caller : OfflineCaller R} {choice : CodecChoice σ} {marked : Finset R}
  {slots : List ℕ} {codes : List (List C)} {a : MossVocoderAction R C σ}

/-- The frames of a stream are passed to the codec in their order, or are in the buffer. -/
structure LocalStreamState.Whole (state : LocalStreamState C) : Prop where
  frames : state.fed.flatten ++ state.pending = state.arrived
  latched : state.slot ≠ none → 0 < state.threshold

/-- The frames of an utterance of a wave that have been passed to the codec. -/
structure OfflineItem.Decoded (codec : SlotCodec C σ) (states : ℕ → σ) (item : OfflineItem C) :
    Prop where
  fed : item.fed.flatten = item.codes.take item.cursor
  cursor : item.cursor ≤ item.codes.length
  advanced : states item.slot = item.fed.foldl codec.advance codec.fresh

/-- What holds of a call of `decode_offline`. -/
structure OfflineDecode.Sound (codec : SlotCodec C σ) (states : ℕ → σ) (o : OfflineDecode C) :
    Prop where
  nodup : o.available.Nodup
  waveSize_pos : 0 < o.waveSize
  waveSize_le : o.waveSize ≤ o.available.length
  slots : ∀ wave, o.stage = .steps wave → (wave.map slot).Nodup
  decoded : ∀ wave, o.stage = .steps wave → ∀ item ∈ wave, item.Decoded codec states

/-- The utterances that `decode_offline` was called for, in their order. -/
def OfflineDecode.Holds (o : OfflineDecode C) (codes : List (List C)) : Prop :=
  match o.stage with
  | .reset => o.results.map List.flatten ++ o.todo = codes
  | .steps wave => o.results.map List.flatten ++ (wave.map OfflineItem.codes ++ o.todo) = codes
  | .finish succeeded => succeeded = true → o.results.map List.flatten = codes

/-- `decode_delta` of a request has ended, or is in `decode_offline`. -/
inductive MossPoint.About (requestId : R) : MossPoint R C → Prop
  | ends {point : MossPoint R C} : point.Ends requestId → About requestId point
  | draining (o : OfflineDecode C) : About requestId (.offline o (.decodeDelta requestId))

/-- What holds of the frames. -/
structure MossVocoder.Counted (codec : SlotCodec C σ) (s : MossVocoder R C σ) : Prop where
  whole : ∀ r state, s.streams r = some state → ¬s.point.About r → state.Whole
  ended : ∀ r state, s.streams r = some state → s.point.Ends r →
    state.fed.flatten <+: state.arrived ∧
      (state.failed = false → state.pending = [] ∧ state.fed.flatten = state.arrived)
  draining : ∀ o r state, s.point = .offline o (.decodeDelta r) → s.streams r = some state →
    state.pending = [] ∧ state.fed = [] ∧ o.Holds [state.arrived]
  offline : ∀ o caller, s.point = .offline o caller → o.Sound codec s.session.states

variable {point : MossPoint R C}

theorem MossPoint.Plain.not_about (h : point.Plain) (r : R) :
    ¬point.About r := by
  rintro (hends | _)
  · exact h.not_ends r hends
  · exact h

/-- Outside `decode_offline` and the end of a request all streams are whole. -/
theorem MossVocoder.Counted.of_plain (hplain : s.point.Plain)
    (hwhole : ∀ r state, s.streams r = some state → state.Whole) : s.Counted codec where
  whole r state hstate _ := hwhole r state hstate
  ended r _ _ hends := absurd hends (hplain.not_ends r)
  draining o _ _ hpoint := absurd hpoint (hplain.not_offline o _)
  offline o caller hpoint := absurd hpoint (hplain.not_offline o caller)

variable {state : LocalStreamState C}

theorem MossVocoder.Counted.whole_plain (h : s.Counted codec) (hplain : s.point.Plain)
    (hstate : s.streams r = some state) : state.Whole :=
  h.whole r state hstate (hplain.not_about r)

theorem counted_init : (init cfg codec : MossVocoder R C σ).Counted codec :=
  .of_plain trivial nofun

theorem MossPoint.About.ends_or (h : point.About requestId) :
    point.Ends requestId ∨ ∃ o, point = .offline o (.decodeDelta requestId) := by
  cases h with
  | ends hends => exact .inl hends
  | draining o => exact .inr ⟨o, rfl⟩

/-- What has been passed to the codec for a stream is the beginning of what has arrived. -/
theorem MossVocoder.Counted.prefix_arrived (h : s.Counted codec)
    (hstate : s.streams r = some state) :
    state.fed.flatten <+: state.arrived := by
  by_cases habout : s.point.About r
  · rcases habout.ends_or with hends | ⟨o, hoffline⟩
    · exact (h.ended r state hstate hends).1
    · obtain ⟨-, hfed, -⟩ := h.draining o r state hoffline hstate
      rw [hfed]
      exact nil_prefix
  · rw [← (h.whole r state hstate habout).frames]
    exact prefix_append _ _

/-- Outside `decode_offline` for a stream, its frames are passed to the codec or in the buffer,
unless a call has failed. -/
theorem MossVocoder.Counted.frames (h : s.Counted codec) (hstate : s.streams r = some state)
    (hfailed : state.failed = false) (hnot : ∀ o, s.point ≠ .offline o (.decodeDelta r)) :
    state.fed.flatten ++ state.pending = state.arrived := by
  by_cases habout : s.point.About r
  · rcases habout.ends_or with hends | ⟨o, hoffline⟩
    · obtain ⟨hpending, hfed⟩ := (h.ended r state hstate hends).2 hfailed
      rw [hpending, hfed, append_nil]
    · exact absurd hoffline (hnot o)
  · exact (h.whole r state hstate habout).frames

/-- Frames that are taken from the buffer are passed to the codec. -/
theorem LocalStreamState.Whole.feed (h : state.Whole) (stepT : ℕ) :
    (state.feed stepT).Whole where
  frames := by
    show (state.fed ++ [state.pending.take stepT]).flatten ++ state.pending.drop stepT = _
    rw [flatten_append, flatten_singleton, append_assoc, take_append_drop]
    exact h.frames
  latched := h.latched

theorem LocalStreamState.Whole.pumped (h : state.Whole) (stepT : ℕ) (returned : Bool) :
    (state.pumped cfg stepT returned).Whole := by
  cases returned with
  | true => exact ⟨(h.feed stepT).frames, fun _ => cfg.chunk_pos⟩
  | false => exact ⟨h.frames, h.latched⟩

theorem newState_whole : (newState : LocalStreamState C).Whole :=
  ⟨rfl, fun hslot => absurd rfl hslot⟩

variable {items : List (R × LocalStreamState C)} {item : R × LocalStreamState C}

theorem minPending_le (hitem : item ∈ items) : minPending items ≤ item.2.pending.length := by
  unfold minPending
  have hmem : item.2.pending.length ∈ items.map fun item => item.2.pending.length :=
    mem_map.mpr ⟨item, hitem, rfl⟩
  cases hmin : (items.map fun item => item.2.pending.length).min? with
  | none => exact Nat.zero_le _
  | some least => exact ((min?_eq_some_iff.mp hmin).2 _ hmem)

theorem minPending_mem (hitems : items ≠ []) :
    ∃ item ∈ items, minPending items = item.2.pending.length := by
  unfold minPending
  cases hmin : (items.map fun item => item.2.pending.length).min? with
  | none =>
    rw [min?_eq_none_iff, map_eq_nil_iff] at hmin
    exact absurd hmin hitems
  | some least =>
    obtain ⟨item, hitem, hlength⟩ := mem_map.mp (min?_eq_some_iff.mp hmin).1
    exact ⟨item, hitem, hlength.symm⟩

/-- The items after the states are replaced. -/
theorem MossVocoder.items_map (horder : t.order = s.order)
    {update : R → LocalStreamState C → LocalStreamState C}
    (hstreams : ∀ r, t.streams r = (s.streams r).map (update r)) :
    t.items = s.items.map fun item => (item.1, update item.1 item.2) := by
  simp only [items, horder, hstreams, map_filterMap, Option.map_map]
  rfl

variable {wave : List (OfflineItem C)}

/-- The dict of a step of a wave has the next frames of the utterances that are long enough. -/
theorem offlinePlan_eq (hnodup : (wave.map slot).Nodup) {item : OfflineItem C} (hitem : item ∈ wave)
    (stepT : ℕ) :
    offlinePlan wave stepT item.slot =
      if stepT ≤ item.codes.length - item.cursor then
        some ((item.codes.drop item.cursor).take stepT)
      else none := by
  unfold offlinePlan
  cases hfind : wave.reverse.find? fun other =>
      other.slot = item.slot ∧ stepT ≤ other.codes.length - other.cursor with
  | none =>
    rw [Option.map_none, if_neg]
    intro hlong
    have hnot := find?_eq_none.mp hfind item (mem_reverse.mpr hitem)
    exact hnot (decide_eq_true ⟨rfl, hlong⟩)
  | some other =>
    have hother := mem_reverse.mp (mem_of_find?_eq_some hfind)
    have hsame := find?_some hfind
    simp only [decide_eq_true_eq] at hsame
    obtain rfl := inj_on_of_nodup_map hnodup hother hitem hsame.1
    rw [Option.map_some, if_pos hsame.2]

/-- A step of a wave passes the next frames of an utterance to the codec, or none. -/
theorem OfflineItem.Decoded.advance {states : ℕ → σ} {item : OfflineItem C}
    (h : item.Decoded codec states) {stepT : ℕ} {plan : ℕ → Option (List C)}
    (hplan : plan item.slot = if stepT ≤ item.codes.length - item.cursor then
      some ((item.codes.drop item.cursor).take stepT) else none) :
    (item.advance stepT).Decoded codec fun slot =>
      (plan slot).elim (states slot) fun codes => codec.advance (states slot) codes := by
  unfold OfflineItem.advance
  have hcursor := h.cursor
  by_cases hlong : stepT ≤ item.codes.length - item.cursor
  · rw [if_pos hlong] at hplan ⊢
    refine ⟨?_, ?_, ?_⟩
    · show (item.fed ++ [(item.codes.drop item.cursor).take stepT]).flatten =
        item.codes.take (item.cursor + stepT)
      rw [flatten_append, flatten_singleton, h.fed, take_add]
    · show item.cursor + stepT ≤ item.codes.length
      omega
    · show (plan item.slot).elim _ _ = (item.fed ++ [_]).foldl codec.advance codec.fresh
      rw [hplan, foldl_append, ← h.advanced]
      rfl
  · rw [if_neg hlong] at hplan ⊢
    refine ⟨h.fed, hcursor, ?_⟩
    show (plan item.slot).elim _ _ = _
    rw [hplan]
    exact h.advanced

theorem OfflineItem.advance_codes (item : OfflineItem C) (stepT : ℕ) :
    (item.advance stepT).codes = item.codes := by
  unfold advance
  split <;> rfl

/-- The items of a new wave. -/
theorem zipWith_items (hlength : slots.length = codes.length) :
    (List.zipWith (fun slot codes => (⟨slot, codes, 0, []⟩ : OfflineItem C)) slots codes).map
        slot = slots ∧
      (List.zipWith (fun slot codes => (⟨slot, codes, 0, []⟩ : OfflineItem C)) slots codes).map
        OfflineItem.codes = codes :=
  ⟨ext_getElem (by simp [hlength]) (by simp), ext_getElem (by simp [hlength]) (by simp)⟩

variable {o : OfflineDecode C}

/-- A call begins with its utterances. -/
theorem MossVocoder.Kept.sound_beginOffline (h : s.Kept cfg codec) (hcodes : codes ≠ [])
    {caller' : OfflineCaller R}
    (hpoint : (s.beginOffline cfg codes caller).point = .offline o caller') (states : ℕ → σ) :
    o.Sound codec states ∧ o.Holds codes := by
  obtain ⟨rfl, -⟩ := MossPoint.offline.inj hpoint
  have hnodup := h.parts.nodup_iff.mpr nodup_range
  have hfree := (nodup_append.mp (nodup_append.mp hnodup).1).1
  have hpos := length_pos_iff.mpr hcodes
  refine ⟨⟨?_, ?_, Nat.min_le_right _ _, nofun, nofun⟩, rfl⟩
  · refine nodup_append.mpr ⟨nodup_range', hfree.sublist (drop_sublist _ _), ?_⟩
    rintro slot hreserved _ hborrowed rfl
    have hge := (mem_range'_1.mp hreserved).1
    have hmem := mem_of_mem_drop hborrowed
    have hlt := mem_range.mp (h.parts.mem_iff.mp (mem_append_left _ (mem_append_left _ hmem)))
    omega
  · show 0 < min (min (max cfg.maxBatchSize 1) codes.length) (_ ++ _ : List ℕ).length
    rw [length_append, length_range']
    have hone : 0 < sessionReservedOfflineSlots := Nat.one_pos
    omega

theorem MossVocoder.Counted.offlineMove (h : s.Counted codec) (hpoint : s.point = .offline o caller)
    {o' : OfflineDecode C} {session : CodecSession σ} (hsound : o'.Sound codec session.states)
    (hholds : ∀ codes, o.Holds codes → o'.Holds codes) :
    Counted codec { s with session := session, point := .offline o' caller } where
  whole r state hstate hnot := by
    refine h.whole r state hstate fun habout => hnot ?_
    rw [hpoint] at habout
    rcases habout with ⟨_ | _⟩ | _
    · exact .ends (.fallback o')
    · exact .draining o'
  ended r state hstate hends := by
    refine h.ended r state hstate ?_
    rw [hpoint]
    cases hends
    exact .fallback o
  draining o'' r state hoffline hstate := by
    obtain ⟨rfl, rfl⟩ := MossPoint.offline.inj hoffline
    obtain ⟨hpending, hfed, hcodes⟩ := h.draining o r state hpoint hstate
    exact ⟨hpending, hfed, hholds _ hcodes⟩
  offline o'' caller' hoffline := by
    obtain ⟨rfl, rfl⟩ := MossPoint.offline.inj hoffline
    exact hsound

/-- A step of a wave passes frames of some utterance to the codec. -/
theorem offlineStepT_spec (cfg : MossConfig)
    (hleft : ¬∀ item ∈ wave, item.codes.length ≤ item.cursor) :
    0 < offlineStepT cfg wave ∧ ∃ item ∈ wave,
      offlineStepT cfg wave ≤ item.codes.length - item.cursor := by
  have hpositive {k : ℕ} (hk : k ∈ (wave.map fun item => item.codes.length - item.cursor).filter
      (0 < ·)) : 0 < k ∧ ∃ item ∈ wave, item.codes.length - item.cursor = k := by
    obtain ⟨hmem, hpos⟩ := mem_filter.mp hk
    obtain ⟨item, hitem, hlength⟩ := mem_map.mp hmem
    exact ⟨of_decide_eq_true hpos, item, hitem, hlength⟩
  simp only [offlineStepT]
  split
  next hany =>
    obtain ⟨k, hk, hmax⟩ := any_eq_true.mp hany
    obtain ⟨-, item, hitem, hlength⟩ := hpositive hk
    refine ⟨cfg.chunk_pos.trans_le cfg.chunk_le, item, hitem, ?_⟩
    rw [hlength]
    exact of_decide_eq_true hmax
  · cases hmin : ((wave.map fun item => item.codes.length - item.cursor).filter (0 < ·)).min? with
    | some k =>
      obtain ⟨hpos, item, hitem, hlength⟩ := hpositive (min?_eq_some_iff.mp hmin).1
      exact ⟨hpos, item, hitem, hlength.ge⟩
    | none =>
      exfalso
      rw [min?_eq_none_iff, filter_eq_nil_iff] at hmin
      refine hleft fun item hitem => ?_
      have hnot := hmin _ (mem_map.mpr ⟨item, hitem, rfl⟩)
      rw [decide_eq_true_eq] at hnot
      omega

/-- What is left to do for `decode_offline`. -/
def OfflineDecode.left (o : OfflineDecode C) : ℕ :=
  match o.stage with
  | .reset => 1 + (o.todo.map fun codes => codes.length + 2).sum
  | .steps wave => 2 + (o.todo.map fun codes => codes.length + 2).sum +
      (wave.map fun item => item.codes.length - item.cursor).sum
  | .finish _ => 0

/-- A new wave has less to do than its utterances had before. -/
theorem left_newWave {todo : List (List C)} {waveSize : ℕ}
    (hlength : slots.length = (todo.take waveSize).length) (hpos : 0 < waveSize)
    (htodo : todo ≠ []) :
    2 + ((todo.drop waveSize).map fun codes => codes.length + 2).sum +
      ((List.zipWith (fun slot codes => (⟨slot, codes, 0, []⟩ : OfflineItem C)) slots
        (todo.take waveSize)).map fun item => item.codes.length - item.cursor).sum <
      1 + (todo.map fun codes => codes.length + 2).sum := by
  have hwave : (List.zipWith (fun slot codes => (⟨slot, codes, 0, []⟩ : OfflineItem C)) slots
      (todo.take waveSize)).map (fun item => item.codes.length - item.cursor) =
        (todo.take waveSize).map List.length :=
    ext_getElem (by simp [hlength]) (by simp)
  have hsplit : (todo.map fun codes => codes.length + 2).sum =
      ((todo.take waveSize).map fun codes => codes.length + 2).sum +
        ((todo.drop waveSize).map fun codes => codes.length + 2).sum := by
    rw [← sum_append, ← map_append, take_append_drop]
  have hadd : ((todo.take waveSize).map fun codes => codes.length + 2).sum =
      ((todo.take waveSize).map List.length).sum + ((todo.take waveSize).map fun _ => 2).sum :=
    sum_map_add
  have htwo : 2 ≤ ((todo.take waveSize).map fun _ => 2).sum := by
    have htake : 0 < (todo.take waveSize).length := by
      rw [length_take]
      have := length_pos_iff.mpr htodo
      omega
    rw [map_const', sum_replicate_nat]
    omega
  rw [hwave]
  omega

variable [DecidableEq R]

theorem MossVocoder.pending_pos (h : item ∈ s.selectStepParticipants cfg) :
    0 < item.2.pending.length := by
  unfold selectStepParticipants at h
  split at h
  · cases h
  next hdue =>
    obtain ⟨hslotted, hjoin⟩ := mem_filter.mp h
    have hthreshold := (of_decide_eq_true (mem_filter.mp hslotted).2).2
    rcases of_decide_eq_true hjoin with hreached | ⟨-, hfloor⟩
    · omega
    · obtain ⟨first, hfirst, hleast⟩ := minPending_mem hdue
      obtain ⟨hfirstSlotted, hfirstDue⟩ := mem_filter.mp hfirst
      have hfirstThreshold := (of_decide_eq_true (mem_filter.mp hfirstSlotted).2).2
      have hfirstReached := of_decide_eq_true hfirstDue
      have hjoinFloor : 1 ≤ cfg.joinFloor := Nat.le_max_left _ _
      omega

/-- A fold that takes minima is at most its start and keeps a lower bound. -/
theorem foldl_min_bounds {α : Type} (skip : α → Prop) [DecidablePred skip] (value : α → ℕ)
    (items : List α) (start : ℕ) :
    items.foldl (fun t item => if skip item then t else min t (value item)) start ≤ start ∧
      ∀ k, k ≤ start → (∀ item ∈ items, k ≤ value item) →
        k ≤ items.foldl (fun t item => if skip item then t else min t (value item)) start := by
  induction items generalizing start with
  | nil => exact ⟨le_rfl, fun _ hk _ => hk⟩
  | cons item items ih =>
    obtain ⟨hle, hge⟩ := ih (if skip item then start else min start (value item))
    refine ⟨hle.trans ?_, fun k hk hitems => hge k ?_ fun other hother =>
      hitems other (mem_cons_of_mem _ hother)⟩
    · split
      · exact le_rfl
      · exact Nat.min_le_left _ _
    · split
      · exact hk
      · exact Nat.le_min.mpr ⟨hk, hitems item mem_cons_self⟩

/-- A step takes at least one frame, and no more than a participant has. -/
theorem MossVocoder.stepT_bounds (hsome : s.selectStepParticipants cfg ≠ []) :
    1 ≤ s.stepT cfg (s.selectStepParticipants cfg) ∧
      ∀ item ∈ s.selectStepParticipants cfg,
        s.stepT cfg (s.selectStepParticipants cfg) ≤ item.2.pending.length := by
  obtain ⟨hle, hge⟩ := foldl_min_bounds (fun item => item.1 ∈ s.emitted)
    (fun item => item.2.threshold) (s.selectStepParticipants cfg)
    (min (minPending (s.selectStepParticipants cfg)) cfg.streamChunkFrames)
  refine ⟨hge 1 ?_ fun item hitem => (mem_selectStepParticipants hitem).2.2,
    fun item hitem => (hle.trans (Nat.min_le_left _ _)).trans (minPending_le hitem)⟩
  obtain ⟨item, hitem, hleast⟩ := minPending_mem hsome
  rw [hleast]
  exact Nat.le_min.mpr ⟨pending_pos hitem, cfg.chunk_pos⟩

/-- The frames in all buffers. -/
def MossVocoder.backlog (s : MossVocoder R C σ) : ℕ :=
  (s.items.map fun item => item.2.pending.length).sum

/-- A turn of the pump that decodes takes frames from the buffers. -/
theorem MossVocoder.backlog_pump (hpoint : (s.pump cfg codec choice marked).point = .pumping) :
    (s.pump cfg codec choice marked).backlog < s.backlog := by
  rcases s.pump_cases cfg codec choice marked with ⟨-, heq⟩ | ⟨hsome, hpump⟩
  · rw [heq] at hpoint
    cases hpoint
  · obtain ⟨-, horder, hstreams, hpoint'⟩ := hpump _ rfl _ rfl
    rw [hpoint] at hpoint'
    obtain ⟨hpos, hle⟩ := stepT_bounds hsome
    cases choice with
    | raises states => cases hpoint'
    | returns =>
      unfold backlog
      rw [items_map horder hstreams, map_map]
      refine sum_lt_sum _ _ (fun item hitem => ?_) ?_
      · simp only [comp_apply]
        split
        · exact (length_drop).trans_le (Nat.sub_le _ _)
        · exact le_rfl
      · obtain ⟨item, hitem⟩ := exists_mem_of_ne_nil _ hsome
        refine ⟨item, (mem_selectStepParticipants hitem).1, ?_⟩
        simp only [comp_apply, if_pos (mem_map_of_mem hitem)]
        refine (length_drop).trans_lt ?_
        have hitemLe := hle item hitem
        omega

/-- When the pump ends, no stream that holds a slot is due. -/
theorem MossVocoder.pump_idle (h : s.Counted codec) (hkept : s.Kept cfg codec)
    (hplain : s.point.Plain) (hpoint : (s.pump cfg codec choice marked).point = .idle)
    (hstate : (s.pump cfg codec choice marked).streams r = some state) (hslot : state.slot ≠ none) :
    state.pending.length < state.threshold := by
  rcases s.pump_cases cfg codec choice marked with ⟨hnone, heq⟩ | ⟨-, hpump⟩
  · rw [heq] at hstate
    have hitem : (r, state) ∈ s.items :=
      mem_items.mpr ⟨hkept.tidy.listed r state hstate, hstate⟩
    have hslotted : (r, state) ∈ s.slotted :=
      mem_filter.mpr ⟨hitem, decide_eq_true
        ⟨Option.isSome_iff_ne_none.mpr hslot, (h.whole_plain hplain hstate).latched hslot⟩⟩
    by_contra hlong
    have hdue : (r, state) ∈ s.due :=
      mem_filter.mpr ⟨hslotted, decide_eq_true (Nat.not_lt.mp hlong)⟩
    have hmem : (r, state) ∈ s.selectStepParticipants cfg := by
      unfold selectStepParticipants
      rw [if_neg (ne_nil_of_mem hdue)]
      exact mem_filter.mpr ⟨hslotted, decide_eq_true (.inl (Nat.not_lt.mp hlong))⟩
    rw [hnone] at hmem
    cases hmem
  · obtain ⟨-, -, -, hpoint'⟩ := hpump _ rfl _ rfl
    rw [hpoint] at hpoint'
    split at hpoint' <;> cases hpoint'

theorem MossVocoder.Counted.endOffline (h : s.Counted codec) (hpoint : s.point = .offline o caller)
    {succeeded : Bool} (hstage : o.stage = .finish succeeded) (session : CodecSession σ)
    {returned : Bool} (hreturned : returned = true → succeeded = true) :
    (endOffline { s with session := session } o.results returned caller).Counted codec := by
  cases caller with
  | vocodeBatch =>
    refine .of_plain trivial fun r state hstate => h.whole r state hstate ?_
    rw [hpoint]
    rintro (_ | _)
    rename_i hends
    cases hends
  | fallback requestId =>
    refine ⟨fun r state hstate hnot => h.whole r state hstate fun habout => hnot ?_,
      fun r state hstate hends => h.ended r state hstate ?_,
      nofun, nofun⟩
    · rw [hpoint] at habout
      cases habout with
      | ends hends =>
        cases hends
        exact .ends .closing
    · rw [hpoint]
      cases hends
      exact .fallback o
  | decodeDelta requestId =>
    have hcases {r : R} {state' : LocalStreamState C}
        (hstate' : (endOffline { s with session := session } o.results returned
          (.decodeDelta requestId)).streams r = some state') :
        r ≠ requestId ∧ s.streams r = some state' ∨ r = requestId ∧ ∃ state,
          s.streams requestId = some state ∧ state' = if returned then
            { state with fed := state.fed ++ o.results.flatten }
          else { state with failed := true } := by
      have hupdate : update s.streams requestId ((s.streams requestId).map fun state =>
          if returned then { state with fed := state.fed ++ o.results.flatten }
          else { state with failed := true }) r = some state' := hstate'
      rw [update_apply] at hupdate
      split at hupdate
      next hr =>
        obtain ⟨state, hstate, rfl⟩ := Option.map_eq_some_iff.mp hupdate
        exact .inr ⟨hr, state, hstate, rfl⟩
      next hr =>
        exact .inl ⟨hr, hupdate⟩
    refine ⟨fun r state' hstate' hnot => ?_, fun r state' hstate' hends => ?_, nofun, nofun⟩
    · rcases hcases hstate' with ⟨hr, hold⟩ | ⟨rfl, -⟩
      · refine h.whole r state' hold fun habout => hr ?_
        rw [hpoint] at habout
        cases habout with
        | ends hends => cases hends
        | draining => rfl
      · exact absurd (.ends .closing) hnot
    · cases hends
      rcases hcases hstate' with ⟨hr, -⟩ | ⟨-, state, hstate, rfl⟩
      · exact absurd rfl hr
      · obtain ⟨hpending, hfed, hholds⟩ := h.draining o _ state hpoint hstate
        cases returned with
        | false =>
          refine ⟨?_, nofun⟩
          show state.fed.flatten <+: state.arrived
          rw [hfed]
          exact nil_prefix
        | true =>
          have hresults : o.results.map List.flatten = [state.arrived] := by
            have hfinish := hholds
            simp only [OfflineDecode.Holds, hstage] at hfinish
            exact hfinish (hreturned rfl)
          have hall : (state.fed ++ o.results.flatten).flatten = state.arrived := by
            rw [hfed, nil_append, flatten_flatten, hresults, flatten_singleton]
          exact ⟨hall ▸ prefix_rfl, fun _ => ⟨hpending, hall⟩⟩

/-- **Step.** Until its last reset, a step of `decode_offline` leaves less to do. Its utterances
stay the same, and it fails only with the codec if each of them has a frame. -/
theorem MossVocoder.offlineStep_moves (cfg : MossConfig) (hsound : o.Sound codec s.session.states)
    (caller : OfflineCaller R) (choice : CodecChoice σ)
    (hmore : ∀ succeeded, o.stage ≠ .finish succeeded) :
    ∃ session o', s.offlineStep cfg codec o caller choice =
        { s with session := session, point := .offline o' caller } ∧
      o'.Sound codec session.states ∧ o'.left < o.left ∧
      ∀ codes, o.Holds codes → o'.Holds codes ∧
        ([] ∉ codes → choice = .returns → o'.stage ≠ .finish false) := by
  have hstay {stage : OfflineStage C} {results : List (List (List C))} {todo : List (List C)}
      (hstage : ∀ wave, stage ≠ .steps wave) (states : ℕ → σ) :
      OfflineDecode.Sound codec states
        { o with results := results, todo := todo, stage := stage } :=
    { hsound with slots := fun wave hwave => absurd hwave (hstage wave), decoded :=
      fun wave hwave => absurd hwave (hstage wave) }
  unfold offlineStep OfflineDecode.left OfflineDecode.Holds
  cases hstage : o.stage with
  | reset =>
    by_cases htodo : o.todo = []
    · simp only [if_pos htodo]
      refine ⟨_, _, rfl, hstay (by simp) _, Nat.add_pos_left Nat.one_pos _, fun codes hcodes =>
        ⟨fun _ => ?_, fun _ _ => nofun⟩⟩
      rw [← hcodes, htodo, append_nil]
    · simp only [if_neg htodo]
      have hlength : (o.available.take (o.todo.take o.waveSize).length).length =
          (o.todo.take o.waveSize).length := by
        have hle := hsound.waveSize_le
        rw [length_take, length_take]
        omega
      obtain ⟨hslots, hcodes'⟩ := zipWith_items hlength
      cases choice with
      | returns =>
        refine ⟨_, _, rfl, { hsound with slots := fun wave hwave => ?_, decoded := fun wave hwave
          item hitem => ?_ },
          left_newWave hlength hsound.waveSize_pos htodo, fun codes hcodes =>
          ⟨?_, fun _ _ => nofun⟩⟩
        · obtain rfl := OfflineStage.steps.inj hwave
          have hnodup := hsound.nodup.sublist (take_sublist (o.todo.take o.waveSize).length _)
          rw [← hslots] at hnodup
          exact hnodup
        · obtain rfl := OfflineStage.steps.inj hwave
          have hslot := mem_map_of_mem (f := OfflineItem.slot) hitem
          rw [hslots] at hslot
          obtain ⟨i, hi, rfl⟩ := mem_iff_getElem.mp hitem
          rw [getElem_zipWith] at hslot ⊢
          exact ⟨rfl, Nat.zero_le _, if_pos hslot⟩
        · show o.results.map List.flatten ++ (List.map OfflineItem.codes _ ++ _) = codes
          rw [hcodes', take_append_drop]
          exact hcodes
      | raises states =>
        exact ⟨_, _, rfl, hstay (fun _ hcontra => by cases hcontra) _, Nat.add_pos_left Nat.one_pos
          _,
          fun codes _ => ⟨nofun, fun _ => nofun⟩⟩
  | steps wave =>
    have hdecoded := hsound.decoded wave hstage
    simp only
    split
    next hall =>
      have hfed (item : OfflineItem C) (hitem : item ∈ wave) : item.fed.flatten = item.codes := by
        rw [(hdecoded item hitem).fed, take_of_length_le (hall item hitem)]
      split
      next hnone =>
        obtain ⟨item, hitem, hempty⟩ := hnone
        refine ⟨_, _, rfl, hstay (by simp) _, Nat.add_pos_left (Nat.add_pos_left Nat.two_pos _) _,
          fun codes hcodes => ⟨nofun, fun hsome => absurd ?_ hsome⟩⟩
        rw [← hcodes]
        refine mem_append_right _ (mem_append_left _ (mem_map.mpr ⟨item, hitem, ?_⟩))
        rw [← hfed item hitem, length_eq_zero_iff.mp hempty, flatten_nil]
      · refine ⟨_, _, rfl, hstay (by simp) _, ?_, fun codes hcodes => ⟨?_, fun _ _ => nofun⟩⟩
        · show 1 + (o.todo.map fun codes => codes.length + 2).sum < _
          omega
        · have hwave : (wave.map OfflineItem.fed).map List.flatten = wave.map OfflineItem.codes :=
            by
            rw [map_map]
            exact map_congr_left hfed
          show (o.results ++ wave.map OfflineItem.fed).map List.flatten ++ o.todo = codes
          rw [map_append, hwave, append_assoc]
          exact hcodes
    next hnot =>
      cases choice with
      | returns =>
        obtain ⟨hpos, longest, hlongest, hlong⟩ := offlineStepT_spec cfg hnot
        refine ⟨_, _, rfl, { hsound with slots := fun wave' hwave' => ?_, decoded := fun wave'
          hwave' item hitem => ?_ }, ?_, fun codes hcodes =>
          ⟨?_, fun _ _ => nofun⟩⟩
        · obtain rfl := OfflineStage.steps.inj hwave'
          have hsame : OfflineItem.slot ∘ (OfflineItem.advance · (offlineStepT cfg wave)) =
              (OfflineItem.slot : OfflineItem C → ℕ) :=
            funext fun item => item.advance_slot _
          rw [map_map, hsame]
          exact hsound.slots wave hstage
        · obtain rfl := OfflineStage.steps.inj hwave'
          obtain ⟨old, hold, rfl⟩ := mem_map.mp hitem
          exact (hdecoded old hold).advance (offlinePlan_eq (hsound.slots wave hstage) hold _)
        · refine Nat.add_lt_add_left ?_ _
          rw [map_map]
          refine sum_lt_sum _ _ (fun other _ => ?_) ⟨longest, hlongest, ?_⟩
          · simp only [comp_apply, OfflineItem.advance]
            split
            · exact Nat.sub_le_sub_left (Nat.le_add_right _ _) _
            · exact le_rfl
          · simp only [comp_apply, OfflineItem.advance, if_pos hlong]
            omega
        · show o.results.map List.flatten ++ (List.map OfflineItem.codes (wave.map _) ++ o.todo) =
            codes
          have hsame : OfflineItem.codes ∘ (OfflineItem.advance · (offlineStepT cfg wave)) =
              (OfflineItem.codes : OfflineItem C → List C) :=
            funext fun item => item.advance_codes _
          rw [map_map, hsame]
          exact hcodes
      | raises states =>
        exact ⟨_, _, rfl, hstay (fun _ hcontra => by cases hcontra) _,
          Nat.add_pos_left (Nat.add_pos_left Nat.two_pos _) _,
          fun codes _ => ⟨nofun, fun _ => nofun⟩⟩
  | finish succeeded => exact absurd hstage (hmore succeeded)

theorem MossVocoder.Counted.offlineStep (h : s.Counted codec) (hpoint : s.point = .offline o caller)
    (choice : CodecChoice σ) :
    (s.offlineStep cfg codec o caller choice).Counted codec := by
  by_cases hmore : ∀ succeeded, o.stage ≠ .finish succeeded
  · obtain ⟨session, o', heq, hsound, -, hholds⟩ :=
      offlineStep_moves cfg (h.offline o caller hpoint) caller choice hmore
    rw [heq]
    exact h.offlineMove hpoint hsound fun codes hcodes => (hholds codes hcodes).1
  · simp only [ne_eq, not_forall, not_not] at hmore
    obtain ⟨succeeded, hstage⟩ := hmore
    unfold MossVocoder.offlineStep
    simp only [hstage]
    split
    · exact h.endOffline hpoint hstage s.session id
    · cases choice with
      | returns => exact h.endOffline hpoint hstage _ id
      | raises states => exact h.endOffline hpoint hstage _ nofun

/-- `decode_delta` passes the frames of the buffer to the codec. -/
theorem MossVocoder.Counted.flush (h : s.Counted codec) (hkept : s.Kept cfg codec)
    (hpoint : s.point = .flushing requestId) (hstate : s.streams requestId = some state)
    (choice : CodecChoice σ) :
    (s.flush cfg codec requestId state choice).Counted codec := by
  have hplain : s.point.Plain := by
    rw [hpoint]
    trivial
  have hwhole := h.whole_plain hplain hstate
  have hset {new : LocalStreamState C} {session : CodecSession σ}
      (hnew : new.fed.flatten <+: new.arrived ∧
        (new.failed = false → new.pending = [] ∧ new.fed.flatten = new.arrived)) :
      Counted codec
        { s.setState requestId new with session := session, point := .closing requestId } := by
    refine ⟨fun r state' hstate' hnot => ?_, fun r state' hstate' hends => ?_, nofun, nofun⟩
    · rcases setState_cases hstate' with ⟨rfl, -⟩ | ⟨-, hold⟩
      · exact absurd (.ends .closing) hnot
      · exact h.whole_plain hplain hold
    · cases hends
      rcases setState_cases hstate' with ⟨-, rfl⟩ | ⟨hr, -⟩
      · exact hnew
      · exact absurd rfl hr
  have hall (hpending : state.pending = []) : state.fed.flatten = state.arrived := by
    have hframes := hwhole.frames
    rw [hpending, append_nil] at hframes
    exact hframes
  rcases s.flush_cases cfg codec requestId state choice with
    ⟨-, hpending, heq⟩ | ⟨hnone, hpending, heq⟩ | ⟨slot, hslot, ⟨hpending, heq⟩ | ⟨-, heq⟩⟩
  · rw [heq]
    refine ⟨fun r state' hstate' _ => h.whole_plain hplain hstate',
      fun r state' hstate' hends => ?_, nofun,
      nofun⟩
    cases hends
    obtain rfl := Option.some.inj (hstate.symm.trans hstate')
    exact ⟨hall hpending ▸ prefix_rfl, fun _ => ⟨hpending, hall hpending⟩⟩
  · rw [heq]
    have hfed := (hkept.tidy.unfed requestId state hstate hnone).resolve_right
      (hplain.not_ends requestId)
    have hframes := hwhole.frames
    rw [hfed] at hframes
    have hset' := hkept.setState { state with pending := [] } hstate rfl rfl id
    refine ⟨fun r state' hstate' hnot => ?_, nofun,
      fun o r state' hoffline hstate' => ?_, fun o caller hoffline => ?_⟩
    · rcases setState_cases hstate' with ⟨rfl, -⟩ | ⟨-, hold⟩
      · exact absurd (.draining _) hnot
      · exact h.whole_plain hplain hold
    · obtain ⟨-, hcaller⟩ := MossPoint.offline.inj hoffline
      obtain rfl := OfflineCaller.decodeDelta.inj hcaller
      rcases setState_cases hstate' with ⟨-, rfl⟩ | ⟨hr, -⟩
      · refine ⟨rfl, hfed, ?_⟩
        have hholds := (hset'.sound_beginOffline (cons_ne_nil _ _) hoffline s.session.states).2
        exact hframes ▸ hholds
      · exact absurd rfl hr
    · exact (hset'.sound_beginOffline (cons_ne_nil _ _) hoffline _).1
  · rw [heq _ rfl]
    refine hset ?_
    cases (s.session.release codec slot choice).2 with
    | true => exact ⟨hall hpending ▸ prefix_rfl, fun _ => ⟨hpending, hall hpending⟩⟩
    | false => exact ⟨hall hpending ▸ prefix_rfl, nofun⟩
  · rw [heq _ rfl _ rfl]
    cases choice with
    | raises states =>
      exact hset ⟨hwhole.frames ▸ prefix_append _ _, nofun⟩
    | returns =>
      refine .of_plain hplain fun r state' hstate' => ?_
      rcases setState_cases hstate' with ⟨-, rfl⟩ | ⟨-, hold⟩
      · exact hwhole.feed _
      · exact h.whole_plain hplain hold

theorem MossVocoder.latchedThreshold_pos (s : MossVocoder R C σ) (requestId : R)
    (initial : Option ℕ) : 0 < s.latchedThreshold cfg requestId initial := by
  have hlatched (frames : ℕ) :
      0 < if 0 < frames ∧ requestId ∉ s.emitted then frames else cfg.streamChunkFrames := by
    split
    next hfirst =>
      exact hfirst.1
    · exact cfg.chunk_pos
  exact hlatched _

theorem MossVocoder.whole_setState (h : ∀ r state, s.streams r = some state → state.Whole)
    {new : LocalStreamState C} (hnew : new.Whole) (r : R) (state : LocalStreamState C)
    (hstate : (s.setState requestId new).streams r = some state) :
    state.Whole := by
  rcases setState_cases hstate with ⟨-, rfl⟩ | ⟨-, hold⟩
  · exact hnew
  · exact h r state hold

theorem MossVocoder.whole_getOrCreate (h : ∀ r state, s.streams r = some state → state.Whole)
    (requestId r : R) (state : LocalStreamState C)
    (hstate : (s.getOrCreate requestId).1.streams r = some state) : state.Whole := by
  revert hstate
  unfold getOrCreate
  cases s.streams requestId with
  | some old => exact h r state
  | none => exact whole_setState h newState_whole r state

theorem MossVocoder.whole_payload (h : ∀ r state, s.streams r = some state → state.Whole)
    (requestId : R) (initial : Option ℕ) (r : R) (state : LocalStreamState C)
    (hstate : (s.payload cfg requestId initial).streams r = some state) : state.Whole := by
  have hold := whole_getOrCreate h requestId
  have hframes := (hold requestId _ (s.getOrCreate_streams requestId)).frames
  have hnew : LocalStreamState.Whole { (s.getOrCreate requestId).2 with
      threshold := (s.getOrCreate requestId).1.latchedThreshold cfg requestId initial } :=
    ⟨hframes, fun _ => latchedThreshold_pos _ requestId initial⟩
  exact whole_setState hold hnew r state hstate

theorem MossVocoder.whole_ingest (h : ∀ r state, s.streams r = some state → state.Whole)
    (requestId : R) (frame : C) (initial : Option ℕ) (r : R) (state : LocalStreamState C)
    (hstate : (s.ingest cfg requestId frame initial).streams r = some state) : state.Whole := by
  have hall := whole_getOrCreate h requestId
  have hframes := (hall requestId _ (s.getOrCreate_streams requestId)).frames
  have hnew (slot : Option ℕ) (threshold : ℕ) (hpos : 0 < threshold) :
      LocalStreamState.Whole { (s.getOrCreate requestId).2 with
        slot := slot
        threshold := threshold
        pending := (s.getOrCreate requestId).2.pending ++ [frame]
        arrived := (s.getOrCreate requestId).2.arrived ++ [frame] } := by
    refine ⟨?_, fun _ => hpos⟩
    show (s.getOrCreate requestId).2.fed.flatten ++ (_ ++ [frame]) = _ ++ [frame]
    rw [← append_assoc, hframes]
  have hthreshold : 0 < if (s.getOrCreate requestId).2.threshold = 0 then
      (s.getOrCreate requestId).1.latchedThreshold cfg requestId initial
      else (s.getOrCreate requestId).2.threshold := by
    split
    · exact latchedThreshold_pos _ requestId initial
    next hne =>
      exact Nat.pos_of_ne_zero hne
  revert hstate
  simp only [ingest, ensureSlot]
  split
  · exact whole_setState hall (hnew _ _ hthreshold) r state
  · exact whole_setState hall (hnew _ _ hthreshold) r state

theorem MossVocoder.clearStreamState_streams
    (h : (s.clearStreamState codec requestId choice).1.streams r = some state) :
    r ≠ requestId ∧ s.streams r = some state := by
  rw [(s.clearStreamState_eq codec requestId choice).2] at h
  exact dropped_streams h

theorem MossVocoder.whole_pump (h : ∀ r state, s.streams r = some state → state.Whole)
    (choice : CodecChoice σ) (marked : Finset R) (r : R) (state : LocalStreamState C)
    (hstate : (s.pump cfg codec choice marked).streams r = some state) : state.Whole := by
  rcases s.pump_cases cfg codec choice marked with ⟨-, heq⟩ | ⟨-, hpump⟩
  · rw [heq] at hstate
    exact h r state hstate
  · obtain ⟨-, -, hstreams, -⟩ := hpump _ rfl _ rfl
    rw [hstreams] at hstate
    obtain ⟨old, hold, rfl⟩ := Option.map_eq_some_iff.mp hstate
    split
    · exact (h r old hold).pumped _ _
    · exact h r old hold

theorem MossVocoder.pump_plain (s : MossVocoder R C σ) (choice : CodecChoice σ)
    (marked : Finset R) : (s.pump cfg codec choice marked).point.Plain := by
  rcases s.pump_cases cfg codec choice marked with ⟨-, heq⟩ | ⟨-, hpump⟩
  · rw [heq]
    trivial
  · obtain ⟨-, -, -, hpoint⟩ := hpump _ rfl _ rfl
    rw [hpoint]
    split <;> trivial

/-- Every step keeps what holds of the frames. -/
theorem MossVocoder.Counted.step (h : s.Counted codec) (hkept : s.Kept cfg codec)
    (hstep : s.step cfg codec a = some t) : t.Counted codec := by
  have hwhole (hplain : s.point.Plain) (r : R) (state : LocalStreamState C)
      (hstate : s.streams r = some state) : state.Whole :=
    h.whole_plain hplain hstate
  cases stepped hstep with
  | payload requestId initial hpoint =>
    refine .of_plain ?_ (whole_payload (hwhole (hpoint ▸ trivial)) requestId initial)
    show (s.getOrCreate requestId).1.point.Plain
    rw [s.getOrCreate_point, hpoint]
    trivial
  | ingest requestId frame initial hpoint =>
    have hplain := MossPoint.plain_of_or hpoint trivial trivial
    exact .of_plain trivial (whole_ingest (hwhole hplain) requestId frame initial)
  | ingestFails requestId choice hpoint =>
    have hplain := MossPoint.plain_of_or hpoint trivial trivial
    exact .of_plain (by split <;> trivial) fun r state hstate =>
      hwhole hplain r state (clearStreamState_streams hstate).2
  | pump choice marked hpoint =>
    have hplain := MossPoint.plain_of_or hpoint trivial trivial
    exact .of_plain (s.pump_plain choice marked) (whole_pump (hwhole hplain) choice marked)
  | failed choice hpoint => exact .of_plain trivial (hwhole (hpoint ▸ trivial))
  | failNext choice requestId rest hpoint =>
    exact .of_plain (by split <;> trivial) fun r state hstate =>
      hwhole (hpoint ▸ trivial) r state (clearStreamState_streams hstate).2
  | done requestId hpoint =>
    exact .of_plain trivial (whole_getOrCreate (hwhole (hpoint ▸ trivial)) requestId)
  | flush choice requestId state hpoint hstate => exact h.flush hkept hpoint hstate choice
  | vocodeBatch codes hcodes hpoint =>
    refine ⟨fun r state hstate _ => hwhole (hpoint ▸ trivial) r state hstate,
      fun r state _ hends => (by cases hends), fun _ _ _ hcontra => (by cases hcontra),
      fun o caller hoffline => (hkept.sound_beginOffline hcodes hoffline _).1⟩
  | fallback codes requestId hcodes hpoint =>
    refine ⟨fun r state hstate hnot => h.whole r state hstate fun habout => hnot ?_,
      fun r state hstate hends => h.ended r state hstate ?_,
      fun _ _ _ hcontra => (by cases hcontra),
      fun o caller hoffline => (hkept.sound_beginOffline hcodes hoffline _).1⟩
    · rw [hpoint] at habout
      cases habout with
      | ends hends =>
        cases hends
        exact .ends (.fallback _)
    · rw [hpoint]
      cases hends
      exact .closing
  | offline choice o caller hpoint => exact h.offlineStep hpoint choice
  | close choice requestId hpoint =>
    refine .of_plain trivial fun r state hstate => ?_
    obtain ⟨hr, hold⟩ := clearStreamState_streams hstate
    refine h.whole r state hold fun habout => hr ?_
    rw [hpoint] at habout
    cases habout with
    | ends hends =>
      cases hends
      rfl
  | abort requestId choice hpoint =>
    refine .of_plain ?_ fun r state hstate =>
      hwhole (hpoint ▸ trivial) r state (clearStreamState_streams hstate).2
    rw [(s.clearStreamState_eq codec requestId choice).1, hpoint]
    trivial
  | renew hpoint => exact .of_plain (hpoint ▸ trivial) (hwhole (hpoint ▸ trivial))

theorem MossVocoder.pump_ends (cfg : MossConfig) (codec : SlotCodec C σ) (s : MossVocoder R C σ) :
    Inevitable (step cfg codec) (fun t => t.point ≠ .pumping) s := by
  refine inevitable_of_measure (I := fun _ => True) backlog (fun s _ hgoal => ?_)
    (fun s a t _ hgoal hstep => ?_) trivial
  · have hpoint := Classical.not_not.mp hgoal
    refine ⟨.pump .returns ∅, s.pump cfg codec .returns ∅, ?_⟩
    simp only [step, hpoint]
  · have hpoint := Classical.not_not.mp hgoal
    by_cases hgoal' : t.point = .pumping
    · refine .inr ⟨trivial, ?_⟩
      cases stepped hstep with
      | pump choice marked => exact backlog_pump hgoal'
      | ingest _ _ _ hat | ingestFails _ _ hat => simp [hpoint] at hat
      | _ => simp_all
    · exact .inl hgoal'

theorem MossVocoder.offlineStep_point (s : MossVocoder R C σ) (o : OfflineDecode C)
    (caller : OfflineCaller R) (choice : CodecChoice σ) :
    ((∀ succeeded, o.stage ≠ .finish succeeded) ∧
      ∃ o', (s.offlineStep cfg codec o caller choice).point = .offline o' caller) ∨
    (s.offlineStep cfg codec o caller choice).point = match caller with
      | .vocodeBatch => .idle
      | .fallback requestId | .decodeDelta requestId => .closing requestId := by
  unfold offlineStep
  cases hstage : o.stage with
  | reset =>
    refine .inl ⟨nofun, ?_⟩
    simp only
    split <;> exact ⟨_, rfl⟩
  | steps wave =>
    refine .inl ⟨nofun, ?_⟩
    simp only
    split
    · split <;> exact ⟨_, rfl⟩
    · exact ⟨_, rfl⟩
  | finish succeeded =>
    right
    simp only
    split
    · cases caller <;> rfl
    · cases choice <;> cases caller <;> rfl

theorem MossVocoder.flushing_live (hstep : s.step cfg codec a = some t)
    (hpoint : t.point = .flushing requestId) :
    ∃ state, t.streams requestId = some state := by
  cases stepped hstep with
  | payload r _ hidle =>
    have hsame : (s.getOrCreate r).1.point = .flushing requestId := hpoint
    rw [s.getOrCreate_point, hidle] at hsame
    cases hsame
  | ingest | failed | vocodeBatch | fallback | close => cases hpoint
  | ingestFails | failNext =>
    split at hpoint <;> cases hpoint
  | pump choice marked =>
    rcases s.pump_cases cfg codec choice marked with ⟨-, heq⟩ | ⟨-, hpump⟩
    · rw [heq] at hpoint
      cases hpoint
    · obtain ⟨-, -, -, hpoint'⟩ := hpump _ rfl _ rfl
      rw [hpoint'] at hpoint
      split at hpoint <;> cases hpoint
  | done r =>
    obtain rfl := MossPoint.flushing.inj hpoint
    exact ⟨_, s.getOrCreate_streams r⟩
  | flush choice r state hflushing hstate =>
    rcases s.flush_cases cfg codec r state choice with
      ⟨-, -, heq⟩ | ⟨-, -, heq⟩ | ⟨slot, -, ⟨-, heq⟩ | ⟨-, heq⟩⟩
    · rw [heq] at hpoint
      cases hpoint
    · rw [heq] at hpoint
      cases hpoint
    · rw [heq _ rfl] at hpoint
      cases hpoint
    · rw [heq _ rfl _ rfl] at hpoint ⊢
      cases choice with
      | returns =>
        obtain rfl := MossPoint.flushing.inj (hflushing.symm.trans hpoint)
        exact ⟨_, update_self r _ s.streams⟩
      | raises states => cases hpoint
  | offline choice o caller =>
    rcases s.offlineStep_point o caller choice with ⟨-, o', hpoint'⟩ | hpoint'
    · rw [hpoint'] at hpoint
      cases hpoint
    · rw [hpoint'] at hpoint
      cases caller <;> cases hpoint
  | abort r choice hidle =>
    rw [(s.clearStreamState_eq codec r choice).1, hidle] at hpoint
    cases hpoint
  | renew hidle =>
    rw [hidle] at hpoint
    cases hpoint

/-- What is left of a `decode_delta`. -/
def MossVocoder.flushLeft (s : MossVocoder R C σ) : ℕ :=
  match s.point with
  | .flushing requestId => ((s.streams requestId).elim 0 fun state => state.pending.length) + 4
  | .offline o _ => o.left
  | _ => 0

/-- `decode_delta` ends. -/
theorem MossVocoder.Kept.flush_ends (hkept : s.Kept cfg codec) (h : s.Counted codec)
    (hpoint : s.point = .flushing requestId) (hstate : s.streams requestId = some state) :
    Inevitable (MossVocoder.step cfg codec) (fun t => t.point = .closing requestId) s := by
  refine inevitable_of_measure (I := fun s => s.Kept cfg codec ∧ s.Counted codec ∧
      ((s.point = .flushing requestId ∧ ∃ state, s.streams requestId = some state) ∨
        ∃ o, s.point = .offline o (.decodeDelta requestId))) MossVocoder.flushLeft
    (fun s hs _ => ?_) (fun s a t hs _ hstep => ?_) ⟨hkept, h, .inl ⟨hpoint, state, hstate⟩⟩
  · obtain ⟨-, -, ⟨hflushing, state, hstate⟩ | ⟨o, hoffline⟩⟩ := hs
    · refine ⟨.flush .returns, s.flush cfg codec requestId state .returns, ?_⟩
      simp only [MossVocoder.step, hflushing, hstate, Option.map_some]
    · refine ⟨.offline .returns, s.offlineStep cfg codec o (.decodeDelta requestId) .returns, ?_⟩
      simp only [MossVocoder.step, hoffline]
  · obtain ⟨hkept, hcounted, ⟨hflushing, state, hstate⟩ | ⟨o, hoffline⟩⟩ := hs
    · have hkept' := hkept.step hstep
      have hcounted' := hcounted.step hkept hstep
      have hbefore : s.flushLeft = state.pending.length + 4 := by
        simp only [MossVocoder.flushLeft, hflushing, hstate, Option.elim_some]
      rw [hbefore]
      cases a with
      | flush choice =>
        simp only [MossVocoder.step, hflushing, hstate, Option.map_some, Option.some.injEq] at hstep
        subst hstep
        rcases s.flush_cases cfg codec requestId state choice with
          ⟨-, -, heq⟩ | ⟨-, -, heq⟩ | ⟨slot, -, ⟨-, heq⟩ | ⟨hpending, heq⟩⟩
        · exact .inl (by rw [heq])
        · refine .inr ⟨⟨hkept', hcounted', .inr ⟨_, by rw [heq]; rfl⟩⟩, ?_⟩
          rw [heq]
          show 1 + ([state.pending].map fun codes => codes.length + 2).sum < _
          rw [map_singleton, sum_singleton]
          omega
        · exact .inl (by rw [heq _ rfl])
        · cases choice with
          | raises states => exact .inl (by rw [heq _ rfl _ rfl]; rfl)
          | returns =>
            have hlive : ∃ state', (s.flush cfg codec requestId state .returns).streams
                requestId = some state' := by
              rw [heq _ rfl _ rfl]
              exact ⟨_, update_self requestId _ s.streams⟩
            refine .inr ⟨⟨hkept', hcounted', .inl ⟨?_, hlive⟩⟩, ?_⟩
            · rw [heq _ rfl _ rfl]
              exact hflushing
            · rw [heq _ rfl _ rfl]
              simp only [MossVocoder.flushLeft, CodecSession.step, if_true, hflushing,
                MossVocoder.setState, update_self, Option.elim_some,
                LocalStreamState.flushed, LocalStreamState.feed, length_drop]
              have hpos := length_pos_iff.mpr hpending
              have hmax := cfg.chunk_pos.trans_le cfg.chunk_le
              omega
      | decodeOffline codes =>
        simp only [MossVocoder.step, hflushing] at hstep
        split at hstep <;> cases hstep
      | _ =>
        simp only [MossVocoder.step, hflushing] at hstep
        cases hstep
    · have hkept' := hkept.step hstep
      have hcounted' := hcounted.step hkept hstep
      have hbefore : s.flushLeft = o.left := by
        simp only [MossVocoder.flushLeft, hoffline]
      rw [hbefore]
      cases a with
      | offline choice =>
        simp only [MossVocoder.step, hoffline] at hstep
        cases hstep
        rcases s.offlineStep_point o (.decodeDelta requestId) choice with ⟨hmore, -⟩ | hpoint'
        · obtain ⟨session, o', heq, -, hless, -⟩ := MossVocoder.offlineStep_moves cfg
            (hcounted.offline o _ hoffline) (.decodeDelta requestId) choice hmore
          refine .inr ⟨⟨hkept', hcounted', .inr ⟨o', by rw [heq]⟩⟩, ?_⟩
          rw [heq]
          exact hless
        · exact .inl hpoint'
      | decodeOffline codes =>
        simp only [MossVocoder.step, hoffline] at hstep
        split at hstep <;> cases hstep
      | _ =>
        simp only [MossVocoder.step, hoffline] at hstep
        cases hstep

/-- What a turn of the pump takes from the buffers of its participants. -/
theorem MossVocoder.pump_feeds (hpoint : (s.pump cfg codec choice marked).point = .pumping) :
    ∃ stepT, 0 < stepT ∧ ∀ item ∈ s.selectStepParticipants cfg,
      stepT ≤ item.2.pending.length ∧ (s.pump cfg codec choice marked).streams item.1 =
        some { item.2.feed stepT with threshold := cfg.streamChunkFrames } := by
  rcases s.pump_cases cfg codec choice marked with ⟨-, heq⟩ | ⟨hsome, hpump⟩
  · rw [heq] at hpoint
    cases hpoint
  · obtain ⟨-, -, hstreams, hpoint'⟩ := hpump _ rfl _ rfl
    rw [hpoint] at hpoint'
    obtain ⟨hpos, hle⟩ := stepT_bounds hsome
    refine ⟨_, hpos, fun item hitem => ⟨hle item hitem, ?_⟩⟩
    have hlive := (mem_items.mp (mem_selectStepParticipants hitem).1).2
    rw [hstreams, hlive, Option.map_some, if_pos (mem_map_of_mem hitem)]
    cases choice with
    | returns => rfl
    | raises states => cases hpoint'

section Runs

variable {as : List (MossVocoderAction R C σ)}

theorem counted_of_run
    (hrun : Run (step cfg codec) anyAction (init cfg codec) as s) :
    s.Kept cfg codec ∧ s.Counted codec ∧
      ∀ requestId, s.point = .flushing requestId → ∃ state, s.streams requestId = some state :=
  hrun.invariant (I := fun s => s.Kept cfg codec ∧ s.Counted codec ∧
      ∀ requestId, s.point = .flushing requestId → ∃ state, s.streams requestId = some state)
    (fun _ _ _ ⟨hkept, hcounted, _⟩ _ hstep => ⟨hkept.step hstep, hcounted.step hkept hstep,
      fun _ hpoint => flushing_live hstep hpoint⟩)
    ⟨kept_init, counted_init, nofun⟩

/-- Every stream slot is in exactly one place, no two streams share one, the state of a leased slot
is what the frames of its owner have made of a reset one, and a free slot has been reset. -/
theorem slots_kept
    (hrun : Run (MossVocoder.step cfg codec) anyAction (MossVocoder.init cfg codec) as s) :
    (∀ slot < cfg.streamSlots,
      s.session.freeStreamSlots.count slot + s.session.streamSlotsInUse.count slot +
        (s.point.borrowed.count slot + s.session.quarantined.count slot) = 1) ∧
    (∀ r r' state state' slot, s.streams r = some state → s.streams r' = some state' →
      state.slot = some slot → state'.slot = some slot → r = r') ∧
    (∀ r state slot, s.streams r = some state → state.slot = some slot →
      slot ∈ s.session.streamSlotsInUse ∧ state.fed.flatten <+: state.arrived ∧
        (state.failed = false →
          s.session.states slot = state.fed.foldl codec.advance codec.fresh)) ∧
    (∀ o caller, s.point = .offline o caller → ∀ slot ∈ o.available,
      slot ∉ s.session.streamSlotsInUse) ∧
    ∀ slot ∈ s.session.freeStreamSlots, s.session.states slot = codec.fresh := by
  obtain ⟨hkept, hcounted, -⟩ := counted_of_run hrun
  refine ⟨fun slot hslot => ?_, hkept.single, fun r state slot hstate hslot => ?_,
    fun o caller hoffline slot hslot hinUse => ?_, hkept.clean⟩
  · have hcount := hkept.parts.count_eq slot
    rw [count_append, count_append, count_append,
      count_eq_one_of_mem nodup_range (mem_range.mpr hslot)] at hcount
    exact hcount
  · exact ⟨hkept.leased r state slot hstate hslot, hcounted.prefix_arrived hstate,
      hkept.advanced r state slot hstate hslot⟩
  · exact hkept.not_available hoffline (.inr hinUse) hslot

/-- A session of one slot. -/
def oneSlot : MossConfig where
  streamSlots := 1
  streamChunkFrames := 2
  initialChunkFrames := 1
  coalesceFloorFrames := 1
  maxStepFrames := 2
  maxBatchSize := 1
  slots_pos := Nat.one_pos
  chunk_pos := Nat.two_pos
  chunk_le := le_rfl

/-- A codec whose state is the frames that it has been passed. -/
def recorder : SlotCodec ℕ (List ℕ) := ⟨[], (· ++ ·)⟩

/-- The first stream holds the slot, and the second is flushed through `decode_offline`. -/
def starvedStream : List (MossVocoderAction ℕ ℕ (List ℕ)) :=
  [.ingest 0 7 none, .ingest 1 8 none, .pump .returns ∅, .pump .returns ∅, .done 1, .flush .returns]

/-- The slot is leased while another stream is in `decode_offline`. -/
theorem slots_kept_starved : ∃ s : MossVocoder ℕ ℕ (List ℕ), s.session.states 0 = [7] ∧
    s.session.freeStreamSlots.count 0 + s.session.streamSlotsInUse.count 0 +
      (s.point.borrowed.count 0 + s.session.quarantined.count 0) = 1 := by
  have hrun := run_of_isSome (step oneSlot recorder) (.init oneSlot recorder) starvedStream rfl
  obtain ⟨hparts, -, hleased, -⟩ := slots_kept hrun
  exact ⟨_, (hleased 0 _ 0 rfl rfl).2.2 rfl, hparts 0 Nat.one_pos⟩

/-- The codec returns. -/
def codecReturns (_ : MossVocoder R C σ) (a : MossVocoderAction R C σ) : Prop :=
  a = .offline .returns

/-- `decode_offline` of these utterances, while the codec returns. -/
structure MossVocoder.Decoding (codec : SlotCodec C σ) (codes : List (List C))
    (caller : OfflineCaller R) (v : MossVocoder R C σ) (o : OfflineDecode C) : Prop where
  point : v.point = .offline o caller
  sound : o.Sound codec v.session.states
  holds : o.Holds codes
  succeeds : o.stage ≠ .finish false

variable {v : MossVocoder R C σ}

theorem MossVocoder.Decoding.next (cfg : MossConfig) (h : v.Decoding codec codes caller o)
    (hframes : [] ∉ codes) (hmore : o.stage ≠ .finish true) :
    ∃ w o', v.step cfg codec (.offline .returns) = some w ∧ w.Decoding codec codes caller o' ∧
      o'.left < o.left := by
  obtain ⟨session, o', heq, hsound, hless, hholds⟩ := offlineStep_moves cfg h.sound
    caller .returns (Bool.rec h.succeeds hmore)
  obtain ⟨hkeep, hsucceeds⟩ := hholds codes h.holds
  refine ⟨{ v with session := session, point := .offline o' caller }, o', ?_,
    ⟨rfl, hsound, hkeep, hsucceeds hframes rfl⟩, hless⟩
  simp only [step, h.point, heq]

theorem MossVocoder.Decoding.ends (h : v.Decoding codec codes caller o) (hframes : [] ∉ codes) :
    ∃ bs w o', Run (step cfg codec) codecReturns v bs w ∧
      w.Decoding codec codes caller o' ∧ o'.stage = .finish true := by
  induction hleft : o.left using Nat.strong_induction_on generalizing v o with
  | _ left ih =>
    by_cases hmore : o.stage = .finish true
    · exact ⟨[], v, o, .nil v, h, hmore⟩
    · obtain ⟨w, o', hstep, hw, hless⟩ := h.next cfg hframes hmore
      obtain ⟨bs, u, o'', hrun, hu, hends⟩ := ih _ (hleft ▸ hless) hw rfl
      exact ⟨_, u, o'', .cons rfl hstep hrun, hu, hends⟩

theorem offlineStepT_le (cfg : MossConfig) (wave : List (OfflineItem C)) :
    offlineStepT cfg wave ≤ cfg.maxStepFrames := by
  simp only [offlineStepT]
  split
  · exact le_rfl
  next hshort =>
    cases hmin : ((wave.map fun item => item.codes.length - item.cursor).filter (0 < ·)).min? with
    | none => exact Nat.zero_le _
    | some least =>
      by_contra hlong
      exact hshort (any_eq_true.mpr ⟨least, (min?_eq_some_iff.mp hmin).1,
        decide_eq_true (Nat.le_of_not_le hlong)⟩)

theorem MossVocoder.Decoding.of_run {w : MossVocoder R C σ} (h : v.Decoding codec codes caller o)
    (hframes : [] ∉ codes) (hrun : Run (step cfg codec) codecReturns v as w) :
    ∀ o', w.point = .offline o' caller → w.Decoding codec codes caller o' := by
  refine hrun.invariant (I := fun w => ∀ o', w.point = .offline o' caller →
    w.Decoding codec codes caller o') (fun v a w hv hreturns hstep o' hpoint => ?_) fun o' hpoint =>
      ?_
  · obtain rfl : a = .offline .returns := hreturns
    cases stepped hstep with
    | offline _ o caller' hoffline =>
      rcases v.offlineStep_point o caller' .returns with ⟨hmore, o'', hat⟩ | hat
      · obtain ⟨rfl, rfl⟩ := MossPoint.offline.inj (hat.symm.trans hpoint)
        obtain ⟨w, o', hstep', hw, -⟩ := (hv o hoffline).next cfg hframes (hmore true)
        obtain rfl := Option.some.inj (hstep'.symm.trans hstep)
        obtain ⟨rfl, -⟩ := MossPoint.offline.inj (hw.point.symm.trans hat)
        exact hw
      · rw [hat] at hpoint
        cases caller' <;> cases hpoint
  · obtain ⟨rfl, -⟩ := MossPoint.offline.inj (h.point.symm.trans hpoint)
    exact h

end Runs

end Omni.Tts
