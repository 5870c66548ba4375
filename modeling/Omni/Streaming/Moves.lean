import Omni.Streaming.Abort

/-!
# What one request sees of a step

The serving loop in six moves, and the steps of the handler that leave a request alone.
-/

namespace Omni.Streaming

open Transition Simple Collector Vocoder

variable {D : Type} {cfg : StreamConfig D} {kind : Kind} {ids : List String}

section Loop

variable {c c' : Collector D} {msg : Incoming D} {discarded : List String}

/-- What a step of the loop does with the message in hand. -/
inductive LoopMove (c c' : Collector D) (discarded : List String) : Prop
  /-- A message has been taken. -/
  | take (msg : Incoming D) (hpoint : c.point = .idle) (hpoint' : c'.point = .taken msg)
    (hlog : c'.log = c.log) (hmarks : c'.aborted = c.aborted) (herrors : c'.errors = c.errors)
    (harrived : c'.arrived = c.arrived)
  /-- It is passed over. -/
  | skip (msg : Incoming D) (hmsg : msg.requestId ∈ c.aborted)
    (hopened : c'.point.opened = c.point.opened) (hfree : ∀ batch, c'.point ≠ .handling batch)
    (hlog : c'.log = c.log ++ [(msg, .aborted)]) (hmarks : c'.aborted = c.aborted)
    (herrors : c'.errors = c.errors) (harrived : c'.arrived = c.arrived)
  /-- A request fails. -/
  | fail (msg : Incoming D) (hmsg : msg.requestId ∉ c.aborted) (htype : msg.type = .newRequest)
    (hopened : c'.point.opened = c.point.opened) (hfree : ∀ batch, c'.point ≠ .handling batch)
    (hlog : c'.log = c.log ++ [(msg, .failed)])
    (hmarks : recordAborted c.aborted msg.requestId discarded = some c'.aborted)
    (herrors : c'.errors = c.errors ++ [msg.requestId]) (harrived : c'.arrived = c.arrived)
  /-- It joins the batch. -/
  | enter (msg : Incoming D) (hmsg : msg.requestId ∉ c.aborted) (htype : msg.type ≠ .streamDone)
    (hopened : c'.point.opened = c.point.opened ++ [msg])
    (hfree : ∀ batch, c'.point ≠ .handling batch)
    (hlog : c'.log = c.log ++ [(msg, .batched)]) (hmarks : c'.aborted = c.aborted)
    (herrors : c'.errors = c.errors) (harrived : c'.arrived = c.arrived)
  /-- It is a batch. -/
  | single (msg : Incoming D) (hmsg : msg.requestId ∉ c.aborted) (hopened : c.point.opened = [])
    (hpoint : c'.point = .handling [msg]) (hlog : c'.log = c.log ++ [(msg, .batched)])
    (hmarks : c'.aborted = c.aborted) (herrors : c'.errors = c.errors)
    (harrived : c'.arrived = c.arrived)
  /-- The batch is closed. -/
  | close (hopened : c.point.opened ≠ []) (hpoint : c'.point = .handling c.point.opened)
    (hlog : c'.log = c.log) (hmarks : c'.aborted = c.aborted) (herrors : c'.errors = c.errors)
    (harrived : c'.arrived = c.arrived)

theorem failMsg_eq (h : c.failMsg msg discarded = some c') : c'.point = c.point ∧
    c'.log = c.log ++ [(msg, .failed)] ∧ c'.errors = c.errors ++ [msg.requestId] ∧
    recordAborted c.aborted msg.requestId discarded = some c'.aborted ∧
    c'.arrived = c.arrived := by
  obtain ⟨aborted, haborted, rfl⟩ := Option.map_eq_some_iff.mp h
  exact ⟨rfl, rfl, rfl, haborted, rfl⟩

theorem loopMove_checkNew (hpoint : c.point = .taken msg) (hmsg : msg.requestId ∉ c.aborted)
    (hnew : msg.type = .newRequest) (h : c.checkNew cfg msg discarded = some c') :
    LoopMove c c' discarded := by
  have hopened : c.point.opened = [] := by rw [hpoint]; rfl
  have hfail : ({ c with point := .idle } : Collector D).failMsg msg discarded = some c' →
      LoopMove c c' discarded := by
    intro hfail
    obtain ⟨hidle, hlog, herrors, hmarks, harrived⟩ := failMsg_eq hfail
    refine .fail msg hmsg hnew ?_ (fun batch hbatch => ?_) hlog hmarks herrors harrived
    · rw [hidle, hopened]
      rfl
    · rw [hidle] at hbatch
      cases hbatch
  unfold Collector.checkNew at h
  split at h
  · cases h
    exact .single msg hmsg hopened rfl rfl rfl rfl rfl
  · split at h
    · exact hfail h
    · cases h
      exact .single msg hmsg hopened rfl rfl rfl rfl rfl
    · split at h
      · exact hfail h
      · cases h
        refine .enter msg hmsg (by simp [hnew]) ?_ nofun rfl rfl rfl rfl
        rw [hopened]
        rfl

theorem loopMove_check (hpoint : c.point = .taken msg) (h : c.check cfg msg discarded = some c') :
    LoopMove c c' discarded := by
  have hopened : c.point.opened = [] := by rw [hpoint]; rfl
  unfold Collector.check at h
  split at h
  next hmsg =>
    cases h
    refine .skip msg hmsg ?_ nofun rfl rfl rfl rfl
    rw [hopened]
    rfl
  next hmsg =>
    split at h
    next hnew => exact loopMove_checkNew hpoint hmsg hnew h
    next hchunk =>
      split at h
      · cases h
        refine .enter msg hmsg (by simp [hchunk]) ?_ nofun rfl rfl rfl rfl
        rw [hopened]
        rfl
      · cases h
        exact .single msg hmsg hopened rfl rfl rfl rfl rfl
    · cases h
      exact .single msg hmsg hopened rfl rfl rfl rfl rfl

variable {batch : List (Incoming D)}

theorem loopMove_pullNew {cost : ℕ} (hpoint : c.point = .collectingNew batch cost)
    (hne : batch ≠ []) (h : c.pullNew cfg batch cost msg discarded = some c') :
    LoopMove c c' discarded := by
  have hopened : c.point.opened = batch := by rw [hpoint]; rfl
  have hback : LoopMove c (c.pushBack msg batch) discarded :=
    .close (hopened ▸ hne) (by rw [hopened]; rfl) rfl rfl rfl rfl
  have hfail : msg.requestId ∉ c.aborted → msg.type = .newRequest →
      c.failMsg msg discarded = some c' → LoopMove c c' discarded := by
    intro hmsg hnew hfail
    obtain ⟨hsame, hlog, herrors, hmarks, harrived⟩ := failMsg_eq hfail
    refine .fail msg hmsg hnew (by rw [hsame]) (fun other hother => ?_) hlog hmarks herrors harrived
    rw [hsame, hpoint] at hother
    cases hother
  unfold Collector.pullNew at h
  split at h
  next hmsg =>
    cases h
    refine .skip msg hmsg rfl (fun other hother => ?_) rfl rfl rfl rfl
    rw [show (c.skip msg).point = c.point from rfl, hpoint] at hother
    cases hother
  next hmsg =>
    split at h
    · cases h
      exact hback
    next hnew =>
      rw [not_not] at hnew
      have henter : ∀ cost', LoopMove c (c.enter msg (.collectingNew (batch ++ [msg]) cost'))
          discarded := fun cost' =>
        .enter msg hmsg (by simp [hnew]) (by rw [hopened]; rfl) nofun
          rfl rfl rfl rfl
      split at h
      · exact hfail hmsg hnew h
      · cases h
        exact hback
      · split at h
        · cases h
          exact henter _
        · split at h
          · exact hfail hmsg hnew h
          · split at h
            · cases h
              exact hback
            · cases h
              exact henter _

theorem loopMove_pullChunk (hpoint : c.point = .collectingChunks batch) (hne : batch ≠ []) :
    LoopMove c (c.pullChunk cfg batch msg) discarded := by
  have hopened : c.point.opened = batch := by rw [hpoint]; rfl
  have hback : LoopMove c (c.pushBack msg batch) discarded :=
    .close (hopened ▸ hne) (by rw [hopened]; rfl) rfl rfl rfl rfl
  unfold Collector.pullChunk
  split
  · exact hback
  next hchunk =>
    rw [not_not] at hchunk
    split
    next hmsg =>
      refine .skip msg hmsg rfl (fun other hother => ?_) rfl rfl rfl rfl
      rw [show (c.skip msg).point = c.point from rfl, hpoint] at hother
      cases hother
    next hmsg =>
      split
      · exact hback
      · exact .enter msg hmsg (by simp [hchunk]) (by rw [hopened]; rfl)
          nofun rfl rfl rfl rfl

/-- The message has been got from the inbox first. -/
theorem LoopMove.of_inbox {rest : List (Incoming D)}
    (h : LoopMove { c with inbox := rest } c' discarded) : LoopMove c c' discarded := by
  cases h with
  | take msg hpoint hpoint' hlog hmarks herrors harrived =>
    exact .take msg hpoint hpoint' hlog hmarks herrors harrived
  | skip msg hmsg hopened hfree hlog hmarks herrors harrived =>
    exact .skip msg hmsg hopened hfree hlog hmarks herrors harrived
  | fail msg hmsg htype hopened hfree hlog hmarks herrors harrived =>
    exact .fail msg hmsg htype hopened hfree hlog hmarks herrors harrived
  | enter msg hmsg htype hopened hfree hlog hmarks herrors harrived =>
    exact .enter msg hmsg htype hopened hfree hlog hmarks herrors harrived
  | single msg hmsg hopened hpoint hlog hmarks herrors harrived =>
    exact .single msg hmsg hopened hpoint hlog hmarks herrors harrived
  | close hopened hpoint hlog hmarks herrors harrived =>
    exact .close hopened hpoint hlog hmarks herrors harrived

/-- The loop looks at one message, or closes its batch. -/
theorem loopMove_of_step {a : CollectAction D} (ha : LoopAction a discarded)
    (hgood : GoodPoint cfg c.point) (h : Collector.step cfg c a = some c') :
    LoopMove c c' discarded := by
  cases ha with
  | take =>
    simp only [Collector.step] at h
    split at h
    next hpoint =>
      unfold Collector.take at h
      split at h
      next msg rest hpending =>
        cases h
        exact .take msg hpoint rfl rfl rfl rfl rfl
      next msg rest hpending hinbox =>
        cases h
        exact .take msg hpoint rfl rfl rfl rfl rfl
      · cases h
    · cases h
  | check =>
    simp only [Collector.step] at h
    split at h
    next msg hpoint => exact loopMove_check hpoint h
    · cases h
  | pull =>
    simp only [Collector.step] at h
    unfold Collector.pull at h
    split at h
    next batch cost msg rest hpoint hinbox =>
      rw [hpoint] at hgood
      obtain _ | _ | ⟨hne, hopen⟩ | _ | _ := hgood
      split at h
      · exact (loopMove_pullNew (c := { c with inbox := rest }) hpoint hne h).of_inbox
      · cases h
    next batch msg rest hpoint hinbox =>
      rw [hpoint] at hgood
      obtain _ | _ | _ | ⟨hne, hopen⟩ | _ := hgood
      split at h
      · cases h
        exact (loopMove_pullChunk (c := { c with inbox := rest }) hpoint hne).of_inbox
      · cases h
    · cases h
  | close =>
    simp only [Collector.step] at h
    unfold Collector.close at h
    split at h
    next batch cost hpoint =>
      rw [hpoint] at hgood
      obtain _ | _ | ⟨hne, hopen⟩ | _ | _ := hgood
      split at h
      · cases h
        exact .close (by rw [hpoint]; exact hne) (by rw [hpoint]; rfl) rfl rfl rfl rfl
      · cases h
    next batch hpoint =>
      rw [hpoint] at hgood
      obtain _ | _ | _ | ⟨hne, hopen⟩ | _ := hgood
      split at h
      · cases h
        exact .close (by rw [hpoint]; exact hne) (by rw [hpoint]; rfl) rfl rfl rfl rfl
      · cases h
    · cases h

end Loop

/-- The messages of the request and the type. -/
def uses (r : String) (type : MessageType) (msgs : List (Incoming D)) : ℕ :=
  msgs.countP fun msg => msg.requestId = r ∧ msg.type = type

/-- The payloads of the request that the loop has looked at. -/
def Vocoder.pays (r : String) (s : Vocoder D) : ℕ := uses r .newRequest (s.loop.log.map Prod.fst)

/-- Its `stream_done` messages. -/
def Vocoder.fins (r : String) (s : Vocoder D) : ℕ := uses r .streamDone (s.loop.log.map Prod.fst)

/-- The kinds of its messages in the outbox. -/
def Vocoder.kindsOf (r : String) (s : Vocoder D) : List Kind := (s.outboxOf r).map (·.kind)

/-- Nothing changes for the request, but that it can be forgotten. -/
structure Apart (r : String) (s t : Vocoder D) : Prop where
  marks : r ∈ t.marks → r ∈ s.marks
  completedStream : r ∈ t.completedStream → r ∈ s.completedStream
  completedNonStreaming : r ∈ t.completedNonStreaming → r ∈ s.completedNonStreaming
  payload : r ∈ t.payloads ↔ r ∈ s.payloads
  pendingDone : r ∈ t.pendingDone ↔ r ∈ s.pendingDone
  state : r ∈ t.states ↔ r ∈ s.states
  emitted : r ∈ t.emitted ↔ r ∈ s.emitted
  kinds : t.kindsOf r = s.kindsOf r
  pays : t.pays r = s.pays r
  fins : t.fins r = s.fins r
  arrived : t.loop.arrived = s.loop.arrived
  aborting : t.aborting = s.aborting

variable {s s' t u : Vocoder D} {r id : String}

theorem Apart.refl (s : Vocoder D) (r : String) : Apart r s s :=
  ⟨fun h => h, fun h => h, fun h => h, .rfl, .rfl, .rfl, .rfl, rfl, rfl, rfl, rfl, rfl⟩

theorem Apart.trans (h : Apart r s t) (h' : Apart r t u) : Apart r s u where
  marks hmem := h.marks (h'.marks hmem)
  completedStream hmem := h.completedStream (h'.completedStream hmem)
  completedNonStreaming hmem := h.completedNonStreaming (h'.completedNonStreaming hmem)
  payload := h'.payload.trans h.payload
  pendingDone := h'.pendingDone.trans h.pendingDone
  state := h'.state.trans h.state
  emitted := h'.emitted.trans h.emitted
  kinds := h'.kinds.trans h.kinds
  pays := h'.pays.trans h.pays
  fins := h'.fins.trans h.fins
  arrived := h'.arrived.trans h.arrived
  aborting := h'.aborting.trans h.aborting

/-- Where the handler and the loop are plays no part. -/
theorem Apart.withWork (h : Apart r s t) (work : Work D) : Apart r s { t with work := work } :=
  { h with }

theorem Apart.finish (h : Apart r s t) : Apart r s t.finish :=
  { h with }

theorem Apart.continueWith (h : Apart r s t) (next : Next D) : Apart r s (t.continueWith next) := by
  cases next with
  | streams todo nonStreaming => exact h.withWork _
  | finish => exact h.finish

theorem kindsOf_put (hne : r ≠ id) : (s.put id kind).kindsOf r = s.kindsOf r := by
  unfold Vocoder.kindsOf
  rw [outboxOf_put hne]

theorem kindsOf_put_self : (s.put r kind).kindsOf r = s.kindsOf r ++ [kind] := by
  simp [Vocoder.kindsOf, Vocoder.outboxOf, Vocoder.put]

theorem mem_addId_ne (hne : r ≠ id) : r ∈ addId ids id ↔ r ∈ ids := by
  rw [mem_addId]
  exact or_iff_left hne

theorem mem_dropId_ne (hne : r ≠ id) : r ∈ dropId ids id ↔ r ∈ ids := by
  rw [mem_dropId]
  exact and_iff_left hne

theorem not_mem_dropId : r ∉ dropId ids r := fun h => (mem_dropId.mp h).2 rfl

section Other

variable (hne : r ≠ id)
include hne

theorem apart_put (kind : Kind) : Apart r s (s.put id kind) :=
  ⟨fun h => h, fun h => h, fun h => h, .rfl, .rfl, .rfl, .rfl, kindsOf_put hne, rfl, rfl, rfl,
    rfl⟩

theorem apart_clearState : Apart r s (s.clearState id) :=
  ⟨fun h => h, fun h => h, fun h => h, mem_dropId_ne hne, mem_dropId_ne hne, mem_dropId_ne hne,
    mem_dropId_ne hne, rfl, rfl, rfl, rfl, rfl⟩

theorem apart_recordCompletedStream : Apart r s (s.recordCompletedStream id) := by
  refine ⟨fun h => h, fun h => ?_, fun h => h, .rfl, .rfl, .rfl, .rfl, rfl, rfl, rfl, rfl, rfl⟩
  simp only [Vocoder.recordCompletedStream] at h
  split at h
  · exact (mem_addId_ne hne).mp h
  · exact (mem_addId_ne hne).mp (List.mem_of_mem_drop h)

variable {discarded : List String}

theorem apart_recordCompleted (h : s.recordCompleted id discarded = some s') : Apart r s s' := by
  obtain ⟨ids, hids, rfl⟩ := Option.map_eq_some_iff.mp h
  refine ⟨fun h => h, fun h => h, fun h => ?_, .rfl, .rfl, .rfl, .rfl, rfl, rfl, rfl, rfl, rfl⟩
  exact (mem_recordAborted hids h).resolve_right hne

theorem apart_failId (h : s.failId id discarded = some s') :
    Apart r s s' := by
  obtain ⟨loop, hloop, rfl⟩ := Option.map_eq_some_iff.mp h
  obtain ⟨marks, hmarks, rfl⟩ := Option.map_eq_some_iff.mp hloop
  refine ⟨fun hmem => (mem_recordAborted hmarks hmem).resolve_right hne, fun h => h, fun h => h,
    mem_dropId_ne hne, mem_dropId_ne hne, mem_dropId_ne hne, mem_dropId_ne hne, ?_, rfl, rfl, rfl,
    rfl⟩
  exact kindsOf_put hne

theorem apart_register (next : Next D) (x : Choice) : Apart r s (s.register id next x) := by
  have hregistered : Apart r s { s with
      completedNonStreaming := dropId s.completedNonStreaming id
      payloads := addId s.payloads id
      completedStream := dropId s.completedStream id } :=
    ⟨fun h => h, fun h => (mem_dropId_ne hne).mp h, fun h => (mem_dropId_ne hne).mp h,
      mem_addId_ne hne, .rfl, .rfl, .rfl, rfl, rfl, rfl, rfl, rfl⟩
  have hstate : ∀ t : Vocoder D, Apart r s t →
      Apart r s (if t.hasState id then { t with states := addId t.states id } else t) := by
    intro t ht
    split
    · exact ht.trans ⟨fun h => h, fun h => h, fun h => h, .rfl, .rfl, mem_addId_ne hne, .rfl, rfl,
        rfl, rfl, rfl, rfl⟩
    · exact ht
  have hgo : ∀ u : Vocoder D, Apart r s u → Apart r s { u with work := .failing } ∧
      Apart r s (if id ∈ u.pendingDone then
        { u with pendingDone := dropId u.pendingDone id, work := .flush id next }
        else u.continueWith next) := by
    intro u hu
    refine ⟨hu.withWork _, ?_⟩
    split
    · exact hu.trans ⟨fun h => h, fun h => h, fun h => h, .rfl, mem_dropId_ne hne, .rfl, .rfl, rfl,
        rfl, rfl, rfl, rfl⟩
    · exact hu.continueWith next
  unfold Vocoder.register
  simp only
  split
  · exact (hgo _ (hstate _ hregistered)).1
  · exact (hgo _ (hstate _ hregistered)).2

theorem apart_handleDone : Apart r s (s.handleDone id) := by
  unfold Vocoder.handleDone
  split
  · exact (Apart.refl s r).withWork _
  · split
    · exact (Apart.refl s r).finish
    · exact ⟨fun h => h, fun h => h, fun h => h, .rfl, mem_addId_ne hne, .rfl, .rfl, rfl, rfl, rfl,
        rfl, rfl⟩

theorem apart_stream (emitted : Bool) : Apart r s { s with
    states := addId s.states id
    emitted := if emitted then addId s.emitted id else s.emitted } := by
  refine ⟨fun h => h, fun h => h, fun h => h, .rfl, .rfl, mem_addId_ne hne, ?_, rfl, rfl, rfl, rfl,
    rfl⟩
  cases emitted with
  | true => exact mem_addId_ne hne
  | false => exact .rfl

theorem apart_flush (next : Next D) (x : Choice) : Apart r s (s.flush id next x) := by
  unfold Vocoder.flush
  split
  · simp only
    split
    · exact ((apart_stream hne x.waveform).trans (apart_recordCompletedStream hne)).withWork _
    · exact (apart_stream hne x.waveform).withWork _
  · exact (Apart.refl s r).withWork _

theorem apart_reply (closing : Bool) (next : Next D) (outs : List Kind) :
    Apart r s (s.reply id closing next outs) := by
  cases outs with
  | nil =>
    simp only [Vocoder.reply]
    split
    · exact (Apart.refl s r).withWork _
    · exact (Apart.refl s r).continueWith next
  | cons kind outs =>
    have hput : Apart r s (if id ∈ s.marks then s else s.put id kind) := by
      split
      · exact Apart.refl s r
      · exact apart_put hne kind
    exact hput.withWork _

theorem apart_chunk (x : Choice) : Apart r s (s.chunk id x) := by
  have hstream := apart_stream (s := s) hne false
  unfold Vocoder.chunk
  split
  · split
    · exact hstream.withWork _
    · split
      · exact (apart_stream hne true).withWork _
      · exact hstream.finish
  · exact (Apart.refl s r).finish

theorem apart_ingest {items : List String} {x : Choice} (h : s.ingest id items x = some s') :
    Apart r s s' := by
  unfold Vocoder.ingest at h
  split at h
  · cases h
    exact (Apart.refl s r).withWork _
  · split at h
    · have hstream := (apart_stream (s := s) hne false).withWork (.ingest items)
      split at h
      · cases h
        exact hstream
      · exact hstream.trans (apart_failId hne h)
    · cases h
      exact (Apart.refl s r).withWork _

theorem apart_emitDecoded (todo waveforms : List String) :
    Apart r s (s.emitDecoded id todo waveforms) := by
  unfold Vocoder.emitDecoded
  split
  · refine (apart_put hne .stream).trans ⟨fun h => h, fun h => h, fun h => h, .rfl, .rfl, .rfl,
      mem_addId_ne hne, rfl, rfl, rfl, rfl, rfl⟩
  · exact (Apart.refl s r).withWork _

theorem apart_answer (h : s.answer id kind discarded = some s') :
    Apart r s s' := by
  unfold Vocoder.answer at h
  split at h
  · cases h
    exact Apart.refl s r
  · exact (apart_put hne kind).trans (apart_recordCompleted hne h)

end Other

theorem apart_removeMark (id : String) : Apart r s (s.removeMark id) :=
  ⟨fun h => (mem_dropId.mp h).1, fun h => h, fun h => h, .rfl, .rfl, .rfl, .rfl, rfl, rfl, rfl, rfl,
    rfl⟩

end Omni.Streaming
