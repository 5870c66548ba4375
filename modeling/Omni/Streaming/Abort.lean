import Omni.Streaming.Vocoder

/-!
# Aborts of streaming requests

What is left of a request once `abort` has returned and the scheduler's thread has finished the
message that it was handling.
-/

namespace Omni.Streaming

open Transition Simple Collector Vocoder List

variable {D : Type} {cfg : StreamConfig D} {requestId other : String} {batch : List (Incoming D)}
  {kind : Kind} {work before : Work D} {t : Vocoder D} {a : CollectAction D} {ids : List String}
  {loop : Collector D}

/-- The batch that is being collected or handled. -/
def batchOf : CollectPoint D → List (Incoming D)
  | .collectingNew batch _ | .collectingChunks batch | .handling batch => batch
  | _ => []

/-- The loop looks at the marks before a message becomes part of a batch or fails. -/
structure LoopStep (c c' : Collector D) (discarded : List String) : Prop where
  marks : ∀ id ∈ c.aborted, id ∉ discarded → id ∈ c'.aborted
  batch : ∀ msg ∈ batchOf c'.point, msg ∈ batchOf c.point ∨ msg.requestId ∉ c.aborted
  errors : c'.errors = c.errors ∨ ∃ id, id ∉ c.aborted ∧ c'.errors = c.errors ++ [id]

section Loop

variable {c c' : Collector D} {msg : Incoming D} {discarded : List String}

theorem record_spec (h : c.record requestId discarded = some c') :
    (∀ id ∈ c.aborted, id ∉ discarded → id ∈ c'.aborted) ∧
      (requestId ∉ discarded → requestId ∈ c'.aborted) ∧ c'.point = c.point ∧
      c'.errors = c.errors := by
  obtain ⟨aborted, haborted, rfl⟩ := Option.map_eq_some_iff.mp h
  exact ⟨fun id hid hkept => recordAborted_keeps haborted (Or.inl hid) hkept,
    fun hkept => recordAborted_keeps haborted (Or.inr rfl) hkept, rfl, rfl⟩

theorem failId_spec (h : c.failId requestId discarded = some c') :
    (∀ id ∈ c.aborted, id ∉ discarded → id ∈ c'.aborted) ∧ c'.point = c.point ∧
      c'.errors = c.errors ++ [requestId] := by
  obtain ⟨hmarks, _, hpoint, herrors⟩ := record_spec h
  exact ⟨hmarks, hpoint, herrors⟩

theorem loopStep_failMsg (hmsg : msg.requestId ∉ c.aborted)
    (h : c.failMsg msg discarded = some c') : LoopStep c c' discarded := by
  obtain ⟨hmarks, hpoint, herrors⟩ := failId_spec h
  exact ⟨hmarks, fun other hother => Or.inl (hpoint ▸ hother), Or.inr ⟨_, hmsg, herrors⟩⟩

/-- The marks and the errors stay as they are. -/
theorem loopStep_same (hmarks : c'.aborted = c.aborted) (herrors : c'.errors = c.errors)
    (hbatch : ∀ msg ∈ batchOf c'.point, msg ∈ batchOf c.point ∨ msg.requestId ∉ c.aborted) :
    LoopStep c c' discarded :=
  ⟨fun _ hid _ => hmarks ▸ hid, hbatch, Or.inl herrors⟩

theorem loopStep_checkNew (hmsg : msg.requestId ∉ c.aborted)
    (h : c.checkNew cfg msg discarded = some c') : LoopStep c c' discarded := by
  have hfail : ({ c with point := .idle } : Collector D).failMsg msg discarded = some c' →
      LoopStep c c' discarded := by
    intro hfail
    obtain ⟨hmarks, hpoint, herrors⟩ := failId_spec hfail
    refine ⟨hmarks, fun other hother => ?_, Or.inr ⟨_, hmsg, herrors⟩⟩
    rw [hpoint] at hother
    cases hother
  have hsingle : ∀ other ∈ [msg], other ∈ batchOf c.point ∨ other.requestId ∉ c.aborted :=
    fun other hother => Or.inr (mem_singleton.mp hother ▸ hmsg)
  unfold Collector.checkNew at h
  split at h
  · cases h
    exact loopStep_same rfl rfl hsingle
  · split at h
    · exact hfail h
    · cases h
      exact loopStep_same rfl rfl hsingle
    · split at h
      · exact hfail h
      · cases h
        exact loopStep_same rfl rfl hsingle

theorem loopStep_check (h : c.check cfg msg discarded = some c') : LoopStep c c' discarded := by
  unfold Collector.check at h
  split at h
  · cases h
    exact loopStep_same rfl rfl nofun
  next hmsg =>
    have hsingle : ∀ other ∈ [msg], other ∈ batchOf c.point ∨ other.requestId ∉ c.aborted :=
      fun other hother => Or.inr (mem_singleton.mp hother ▸ hmsg)
    split at h
    · exact loopStep_checkNew hmsg h
    · split at h
      · cases h
        exact loopStep_same rfl rfl hsingle
      · cases h
        exact loopStep_same rfl rfl hsingle
    · cases h
      exact loopStep_same rfl rfl hsingle

/-- A message joins the batch. -/
theorem loopStep_append (hpoint : batchOf c.point = batch) (hmsg : msg.requestId ∉ c.aborted) :
    ∀ other ∈ batch ++ [msg], other ∈ batchOf c.point ∨ other.requestId ∉ c.aborted := by
  intro other hother
  rcases mem_append.mp hother with hold | hlast
  · exact Or.inl (hpoint ▸ hold)
  · exact Or.inr (mem_singleton.mp hlast ▸ hmsg)

theorem loopStep_pullNew {cost : ℕ} (hpoint : batchOf c.point = batch)
    (h : c.pullNew cfg batch cost msg discarded = some c') : LoopStep c c' discarded := by
  have hback : LoopStep c (c.pushBack msg batch) discarded :=
    loopStep_same rfl rfl fun other hother => Or.inl (hpoint ▸ hother)
  unfold Collector.pullNew at h
  split at h
  · cases h
    exact loopStep_same rfl rfl fun other hother => Or.inl hother
  next hmsg =>
    split at h
    · cases h
      exact hback
    · split at h
      · exact loopStep_failMsg hmsg h
      · cases h
        exact hback
      · split at h
        · cases h
          exact loopStep_same rfl rfl (loopStep_append hpoint hmsg)
        · split at h
          · exact loopStep_failMsg hmsg h
          · split at h
            · cases h
              exact hback
            · cases h
              exact loopStep_same rfl rfl (loopStep_append hpoint hmsg)

theorem loopStep_pullChunk (hpoint : batchOf c.point = batch) :
    LoopStep c (c.pullChunk cfg batch msg) discarded := by
  have hback : LoopStep c (c.pushBack msg batch) discarded :=
    loopStep_same rfl rfl fun other hother => Or.inl (hpoint ▸ hother)
  unfold Collector.pullChunk
  split
  · exact hback
  · split
    · exact loopStep_same rfl rfl fun other hother => Or.inl hother
    next hmsg =>
      split
      · exact hback
      · exact loopStep_same rfl rfl (loopStep_append hpoint hmsg)

theorem loopStep_pull (h : c.pull cfg discarded = some c') : LoopStep c c' discarded := by
  unfold Collector.pull at h
  split at h
  next batch cost msg rest hpoint hinbox =>
    split at h
    · have hsame : LoopStep { c with inbox := rest } c' discarded :=
        loopStep_pullNew (by simp only [hpoint, batchOf]) h
      exact { hsame with }
    · cases h
  next batch msg rest hpoint hinbox =>
    split at h
    · cases h
      have hsame : LoopStep { c with inbox := rest }
          (({ c with inbox := rest } : Collector D).pullChunk cfg batch msg) discarded :=
        loopStep_pullChunk (by simp only [hpoint, batchOf])
      exact { hsame with }
    · cases h
  · cases h

theorem loopStep_close (h : c.close cfg = some c') : LoopStep c c' [] := by
  have hsame : ∀ {batch : List (Incoming D)}, batchOf c.point = batch →
      LoopStep c (c.handle batch) [] :=
    fun hpoint => loopStep_same rfl rfl fun other hother => Or.inl (hpoint ▸ hother)
  unfold Collector.close at h
  split at h
  next batch cost hpoint =>
    split at h
    · cases h
      exact hsame (by rw [hpoint]; rfl)
    · cases h
  next batch hpoint =>
    split at h
    · cases h
      exact hsame (by rw [hpoint]; rfl)
    · cases h
  · cases h

theorem loopStep_take (h : c.take = some c') : LoopStep c c' [] := by
  unfold Collector.take at h
  split at h
  · cases h
    exact loopStep_same rfl rfl nofun
  · cases h
    exact loopStep_same rfl rfl nofun
  · cases h

/-- The steps of the serving loop, and what their evictions discard. -/
inductive LoopAction : CollectAction D → List String → Prop
  | take : LoopAction .take []
  | check (discarded : List String) : LoopAction (.check discarded) discarded
  | pull (discarded : List String) : LoopAction (.pull discarded) discarded
  | close : LoopAction .close []

/-- The loop does not run while a batch is being handled. -/
theorem loopStep_of_step (ha : LoopAction a discarded) (h : Collector.step cfg c a = some c') :
    LoopStep c c' discarded ∧ ∀ batch, c.point ≠ .handling batch := by
  cases ha with
  | take =>
    simp only [Collector.step] at h
    split at h
    next hpoint => exact ⟨loopStep_take h, fun _ heq => by simp [hpoint] at heq⟩
    · cases h
  | check discarded =>
    simp only [Collector.step] at h
    split at h
    next hpoint => exact ⟨loopStep_check h, fun _ heq => by simp [hpoint] at heq⟩
    · cases h
  | pull discarded =>
    refine ⟨loopStep_pull h, fun batch heq => ?_⟩
    simp [Collector.step, Collector.pull, heq] at h
  | close =>
    refine ⟨loopStep_close h, fun batch heq => ?_⟩
    simp [Collector.step, Collector.close, heq] at h

end Loop

/-- The request whose mark the next step removes. -/
def Work.unmarks : Work D → Option String
  | .unmark requestId _ | .closed requestId _ => some requestId
  | _ => none

/-- The request whose payload the next step stores. -/
def Work.registers : Work D → Option String
  | .register requestId _ => some requestId
  | _ => none

/-- The request whose `stream_done` is waiting for the lock. -/
def Work.waits : Work D → Option String
  | .done requestId => some requestId
  | _ => none

/-- The ids that may be named later. -/
def Next.mentions : Next D → List String
  | .streams todo nonStreaming => (todo ++ nonStreaming).map (·.requestId)
  | .finish => []

/-- The ids that a handler has before it. -/
def Work.mentions : Work D → List String
  | .idle | .pump | .failing => []
  | .classify todo streaming nonStreaming =>
    (todo ++ streaming ++ nonStreaming).map (·.requestId)
  | .streams todo nonStreaming => (todo ++ nonStreaming).map (·.requestId)
  | .unmark requestId next | .register requestId next | .flush requestId next
  | .replies requestId _ _ next | .closed requestId next => requestId :: next.mentions
  | .done requestId | .chunk requestId => [requestId]
  | .validate todo items => todo.map (·.requestId) ++ items
  | .ingest items => items
  | .decoded todo _ | .stepFailed todo => todo
  | .active batch | .compute batch | .computeBatch batch => batch.map (·.requestId)
  | .validateData todo valid => (todo ++ valid).map (·.requestId)
  | .answer todo rest => todo.map Prod.fst ++ rest.map (·.requestId)

/-- Nothing is kept for the request. -/
structure NoEntries (r : String) (s : Vocoder D) : Prop where
  payload : r ∉ s.payloads
  pendingDone : r ∉ s.pendingDone
  state : r ∉ s.states
  emitted : r ∉ s.emitted

/-- The messages of a request in the outbox. -/
def Vocoder.outboxOf (r : String) (s : Vocoder D) : List Reply :=
  s.outbox.filter (·.requestId = r)

open Vocoder

variable {s s' : Vocoder D} {r : String} {id : String}

theorem mem_addId :
    other ∈ addId ids id ↔ other ∈ ids ∨ other = id := by
  unfold addId
  split
  next hmem =>
    refine ⟨Or.inl, fun h => ?_⟩
    rcases h with hold | rfl
    · exact hold
    · exact hmem
  · rw [mem_append, mem_singleton]

theorem mem_dropId :
    other ∈ dropId ids id ↔ other ∈ ids ∧ other ≠ id := by
  simp [dropId]

theorem NoEntries.clearState (h : NoEntries r s) (id : String) : NoEntries r (s.clearState id) :=
  ⟨fun hmem => h.payload (mem_dropId.mp hmem).1, fun hmem => h.pendingDone (mem_dropId.mp hmem).1,
    fun hmem => h.state (mem_dropId.mp hmem).1, fun hmem => h.emitted (mem_dropId.mp hmem).1⟩

/-- After `_clear_request_state` nothing is left. -/
theorem noEntries_clearState (r : String) (s : Vocoder D) : NoEntries r (s.clearState r) :=
  ⟨fun hmem => (mem_dropId.mp hmem).2 rfl, fun hmem => (mem_dropId.mp hmem).2 rfl,
    fun hmem => (mem_dropId.mp hmem).2 rfl, fun hmem => (mem_dropId.mp hmem).2 rfl⟩

/-- What a step of the handler does, seen by the aborts. -/
structure HandlerStep (s s' : Vocoder D) (discarded : List String) : Prop where
  calls : s'.calls = s.calls
  aborting : s'.aborting = s.aborting
  returned : s'.returned = s.returned
  marks : ∀ r ∈ s.marks, r ∉ discarded → s.work.unmarks ≠ some r → r ∈ s'.marks
  unmarks : ∀ r, s'.work.unmarks = some r → r ∉ s.marks
  registers : ∀ r, s'.work.registers = some r → s.work.unmarks = some r
  waits : s'.work.waits = none
  point : s'.work ≠ .idle → s'.loop.point = s.loop.point
  batch : s'.loop.point = s.loop.point ∨ s'.loop.point = .idle
  ordered : ∀ (cfg : StreamConfig D) (held opened : List (Incoming D)),
    Ordered cfg s.loop held opened → Ordered cfg s'.loop held opened
  entries : ∀ r, NoEntries r s → r ∈ s.marks → s.work.registers ≠ some r →
    (s.work.waits = some r → r ∈ s.completedNonStreaming) → NoEntries r s'
  mentions : ∀ r ∈ s'.work.mentions, r ∈ s.work.mentions ∨ r ∈ s.states
  outbox : ∀ r, r ∉ s.work.mentions → r ∉ (batchOf s.loop.point).map (·.requestId) →
    s'.outboxOf r = s.outboxOf r

/-- A change that concerns one request, before the handler goes on. -/
structure Touch (s t : Vocoder D) (id : String) (discarded : List String) : Prop where
  calls : t.calls = s.calls
  aborting : t.aborting = s.aborting
  returned : t.returned = s.returned
  point : t.loop.point = s.loop.point
  ordered : ∀ (cfg : StreamConfig D) (held opened : List (Incoming D)),
    Ordered cfg s.loop held opened → Ordered cfg t.loop held opened
  marks : ∀ r ∈ s.marks, r ∉ discarded → s.work.unmarks ≠ some r → r ∈ t.marks
  entries : ∀ r, NoEntries r s → r ∈ s.marks → s.work.registers ≠ some r →
    (s.work.waits = some r → r ∈ s.completedNonStreaming) → NoEntries r t
  outbox : ∀ r, r ≠ id → t.outboxOf r = s.outboxOf r

/-- Nothing but the handler's place changes. -/
theorem touch_refl (s : Vocoder D) (id : String) (discarded : List String) :
    Touch s s id discarded :=
  ⟨rfl, rfl, rfl, rfl, fun _ _ _ h => h, fun _ hr _ _ => hr, fun _ h _ _ _ => h, fun _ _ => rfl⟩

/-- A message for another request does not count. -/
theorem outboxOf_put (hne : r ≠ id) :
    (s.put id kind).outboxOf r = s.outboxOf r := by
  unfold outboxOf put
  rw [filter_append]
  have hnone : [(⟨id, kind⟩ : Reply)].filter (·.requestId = r) = [] := by
    simp [Ne.symm hne]
  rw [hnone, append_nil]

theorem NoEntries.put (h : NoEntries r s) (id : String) (kind : Kind) :
    NoEntries r (s.put id kind) :=
  { h with }

theorem touch_put (s : Vocoder D) (id : String) (kind : Kind) (discarded : List String) :
    Touch s (s.put id kind) id discarded :=
  ⟨rfl, rfl, rfl, rfl, fun _ _ _ h => h, fun _ hr _ _ => hr, fun _ h _ _ _ => h.put id kind,
    fun _ hne => outboxOf_put hne⟩

variable {discarded : List String}

/-- A request is failed by the scheduler's thread. -/
theorem touch_failId (h : ({ s with work := work } : Vocoder D).failId id discarded = some s') :
    ∃ t, Touch s t id discarded ∧ s' = { t with work := work } := by
  obtain ⟨loop, hloop, rfl⟩ := Option.map_eq_some_iff.mp h
  obtain ⟨hmarks, hpoint, _⟩ := failId_spec hloop
  have htouch : Touch s (({ s with loop := loop }.put id .error).clearState id) id discarded := by
    refine ⟨rfl, rfl, rfl, hpoint, fun _ _ _ h => (h.failId hloop).1,
      fun r hr hkept _ => hmarks r hr hkept, fun r hentries _ _ _ => ?_,
      fun r hne => outboxOf_put (s := { s with loop := loop }) hne⟩
    have hsame : NoEntries r { s with loop := loop } :=
      { hentries with }
    exact (hsame.put id .error).clearState id
  exact ⟨_, htouch, rfl⟩

/-- A request without entries that is marked has no stream state, and gets none. -/
theorem hasState_false (h : NoEntries r s) (hmark : r ∈ s.marks) : s.hasState r = false := by
  simp [hasState, h.state, hmark]

theorem touch_stream (states emitted completedStream : List String) (hstate : s.hasState id = true)
    (hstates : ∀ r ∈ states, r ∈ s.states ∨ r = id)
    (hemitted : ∀ r ∈ emitted, r ∈ s.emitted ∨ r = id) (discarded : List String) :
    Touch s { s with states := states, emitted := emitted, completedStream := completedStream }
      id discarded := by
  refine ⟨rfl, rfl, rfl, rfl, fun _ _ _ h => h, fun _ hr _ _ => hr, fun r h hmark _ _ => ?_,
    fun _ _ => rfl⟩
  have hne : r ≠ id := by
    rintro rfl
    rw [hasState_false h hmark] at hstate
    cases hstate
  exact ⟨h.payload, h.pendingDone, fun hmem => (hstates r hmem).elim h.state hne,
    fun hmem => (hemitted r hmem).elim h.emitted hne⟩

/-- Only the request that the handler names, or its batch, gets a message. -/
theorem Touch.silent (h : Touch s t id discarded)
    (hid : id ∈ s.work.mentions ∨ id ∈ (batchOf s.loop.point).map (·.requestId))
    (hnot : r ∉ s.work.mentions) (hbatch : r ∉ (batchOf s.loop.point).map (·.requestId)) :
    t.outboxOf r = s.outboxOf r := by
  refine h.outbox r fun heq => ?_
  rcases hid with hmem | hmem
  · exact hnot (heq ▸ hmem)
  · exact hbatch (heq ▸ hmem)

theorem Touch.goOn (h : Touch s t id discarded)
    (hid : id ∈ s.work.mentions ∨ id ∈ (batchOf s.loop.point).map (·.requestId))
    (hunmarks : ∀ r, work.unmarks = some r → r ∉ s.marks)
    (hregisters : ∀ r, work.registers = some r → s.work.unmarks = some r)
    (hwaits : work.waits = none)
    (hmentions : ∀ r ∈ work.mentions, r ∈ s.work.mentions ∨ r ∈ s.states) :
    HandlerStep s { t with work := work } discarded := { h with
  unmarks := hunmarks
  registers := hregisters
  waits := hwaits
  point _ := h.point
  batch := Or.inl h.point
  entries r hentries hmark hregister hwait := by
    have hsame := h.entries r hentries hmark hregister hwait
    exact { hsame with }
  mentions := hmentions
  outbox _ hnot hbatch := h.silent hid hnot hbatch }

theorem Touch.finish (h : Touch s t id discarded)
    (hid : id ∈ s.work.mentions ∨ id ∈ (batchOf s.loop.point).map (·.requestId)) :
    HandlerStep s t.finish discarded := { h with
  unmarks _ hr := by cases hr
  registers _ hr := by cases hr
  waits := rfl
  point hne := absurd rfl hne
  batch := Or.inr rfl
  ordered cfg held opened hordered := (h.ordered cfg held opened hordered).withPoint .idle
  entries r hentries hmark hregister hwait := by
    have hsame := h.entries r hentries hmark hregister hwait
    exact { hsame with }
  mentions _ hr := by cases hr
  outbox _ hnot hbatch := h.silent hid hnot hbatch }

/-- The handling of a streaming request ends. -/
theorem Touch.continueWith {next : Next D} (h : Touch s t id discarded)
    (hid : id ∈ s.work.mentions ∨ id ∈ (batchOf s.loop.point).map (·.requestId))
    (hmentions : ∀ r ∈ next.mentions, r ∈ s.work.mentions) :
    HandlerStep s (t.continueWith next) discarded := by
  cases next with
  | streams todo nonStreaming =>
    exact h.goOn hid nofun nofun rfl fun r hr => Or.inl (hmentions r hr)
  | finish => exact h.finish hid

theorem handlerStep_work (hunmarks : ∀ r, work.unmarks = some r → r ∉ s.marks)
    (hregisters : work.registers = none) (hwaits : work.waits = none)
    (hmentions : ∀ r ∈ work.mentions, r ∈ s.work.mentions ∨ r ∈ s.states) :
    HandlerStep s { s with work := work } discarded where
  calls := rfl
  aborting := rfl
  returned := rfl
  marks _ hr _ _ := hr
  unmarks := hunmarks
  registers r hr := by
    rw [hregisters] at hr
    cases hr
  waits := hwaits
  point _ := rfl
  batch := Or.inl rfl
  ordered _ _ _ h := h
  entries _ h _ _ _ := { h with }
  mentions := hmentions
  outbox _ _ _ := rfl

theorem handlerStep_passes (hwork : s.work = before) (hunmarks : work.unmarks = none)
    (hregisters : work.registers = none) (hwaits : work.waits = none)
    (hmentions : work.mentions ⊆ before.mentions) :
    HandlerStep s { s with work := work } discarded :=
  handlerStep_work (fun _ hr => absurd (hunmarks.symm.trans hr) nofun) hregisters hwaits
    fun _ hr => Or.inl (hwork ▸ hmentions hr)

theorem mentioned (hwork : s.work = before) (hid : id ∈ before.mentions) :
    id ∈ s.work.mentions ∨ id ∈ (batchOf s.loop.point).map (·.requestId) :=
  Or.inl (hwork ▸ hid)

theorem Touch.passes (h : Touch s t id discarded) (hwork : s.work = before)
    (hid : id ∈ before.mentions) (hunmarks : work.unmarks = none)
    (hregisters : work.registers = none) (hwaits : work.waits = none)
    (hmentions : work.mentions ⊆ before.mentions) :
    HandlerStep s { t with work := work } discarded :=
  h.goOn (mentioned hwork hid) (fun _ hr => absurd (hunmarks.symm.trans hr) nofun)
    (fun _ hr => absurd (hregisters.symm.trans hr) nofun) hwaits
    fun _ hr => Or.inl (hwork ▸ hmentions hr)

/-- The handler ends, and nothing else changes. -/
theorem handlerStep_finish : HandlerStep s s.finish discarded where
  calls := rfl
  aborting := rfl
  returned := rfl
  marks _ hr _ _ := hr
  unmarks _ hr := by cases hr
  registers _ hr := by cases hr
  waits := rfl
  point hne := absurd rfl hne
  batch := Or.inr rfl
  ordered _ _ _ h := h.withPoint .idle
  entries _ h _ _ _ := { h with }
  mentions _ hr := by cases hr
  outbox _ _ _ := rfl

section Handlers

variable {id : String} {next : Next D} {x : Choice} {discarded : List String}

theorem handlerStep_register (hwork : s.work = .register id next) :
    HandlerStep s (s.register id next x) discarded := by
  have hid := mentioned hwork mem_cons_self
  have hnext : ∀ r ∈ next.mentions, r ∈ s.work.mentions := by
    rw [hwork]
    exact fun r hr => mem_cons_of_mem _ hr
  have htouch : ∀ (cs cns states pending : List String),
      (∀ r ∈ states, r ∈ s.states ∨ r = id) → (∀ r ∈ pending, r ∈ s.pendingDone) →
      Touch s { s with
        completedNonStreaming := cns
        payloads := addId s.payloads id
        completedStream := cs
        states := states
        pendingDone := pending } id discarded := by
    intro cs cns states pending hstates hpending
    refine ⟨rfl, rfl, rfl, rfl, fun _ _ _ h => h, fun _ hr _ _ => hr,
      fun r h _ hregister _ => ?_, fun _ _ => rfl⟩
    have hne : r ≠ id := by
      rintro rfl
      rw [hwork] at hregister
      exact hregister rfl
    exact ⟨fun hmem => (mem_addId.mp hmem).elim h.payload hne,
      fun hmem => h.pendingDone (hpending r hmem), fun hmem => (hstates r hmem).elim h.state hne,
      h.emitted⟩
  have hall : ∀ states : List String, (∀ r ∈ states, r ∈ s.states ∨ r = id) →
      ∀ u : Vocoder D, u = { s with
        completedNonStreaming := dropId s.completedNonStreaming id
        payloads := addId s.payloads id
        completedStream := dropId s.completedStream id
        states := states } →
      HandlerStep s { u with work := .failing } discarded ∧
        HandlerStep s (if id ∈ u.pendingDone then
          { u with pendingDone := dropId u.pendingDone id, work := .flush id next }
          else u.continueWith next) discarded := by
    rintro states hstates u rfl
    refine ⟨(htouch _ _ states s.pendingDone hstates fun _ hr => hr).goOn hid
      nofun nofun rfl nofun, ?_⟩
    split
    · refine (htouch _ _ states (dropId s.pendingDone id) hstates
        fun _ hr => (mem_dropId.mp hr).1).goOn hid nofun nofun rfl fun r hr => Or.inl ?_
      rw [hwork]
      exact hr
    · exact (htouch _ _ states s.pendingDone hstates fun _ hr => hr).continueWith hid hnext
  unfold register
  simp only
  split
  · split
    · exact (hall _ (fun r hr => mem_addId.mp hr) _ rfl).1
    · exact (hall s.states (fun r hr => Or.inl hr) _ rfl).1
  · split
    · exact (hall _ (fun r hr => mem_addId.mp hr) _ rfl).2
    · exact (hall s.states (fun r hr => Or.inl hr) _ rfl).2

theorem handlerStep_done (hwork : s.work = .done id) :
    HandlerStep s (s.handleDone id) discarded := by
  have hid := mentioned hwork mem_cons_self
  unfold handleDone
  split
  · exact handlerStep_passes hwork rfl rfl rfl fun r hr => hr
  · split
    · exact handlerStep_finish
    next hcompleted =>
      have htouch : Touch s { s with pendingDone := addId s.pendingDone id } id discarded := by
        refine ⟨rfl, rfl, rfl, rfl, fun _ _ _ h => h, fun _ hr _ _ => hr,
          fun r h _ _ hwait => ?_, fun _ _ => rfl⟩
        have hne : r ≠ id := by
          rintro rfl
          rw [hwork] at hwait
          exact hcompleted (hwait rfl)
        exact { h with pendingDone := fun hmem => (mem_addId.mp hmem).elim h.pendingDone hne }
      exact htouch.finish hid

theorem handlerStep_flush (hwork : s.work = .flush id next) :
    HandlerStep s (s.flush id next x) discarded := by
  have hid := mentioned hwork mem_cons_self
  have hmentions : ∀ (outs : List Kind) (closing : Bool),
      ∀ r ∈ (Work.replies id outs closing next).mentions, r ∈ s.work.mentions ∨ r ∈ s.states := by
    rw [hwork]
    exact fun _ _ r hr => Or.inl hr
  have hemitted : ∀ r ∈ (if x.waveform then addId s.emitted id else s.emitted),
      r ∈ s.emitted ∨ r = id := by
    intro r hr
    split at hr
    · exact mem_addId.mp hr
    · exact Or.inl hr
  unfold flush
  split
  next hstate =>
    simp only
    split
    · exact (touch_stream _ _ _ hstate (fun r hr => mem_addId.mp hr) hemitted discarded).goOn hid
        nofun nofun rfl (hmentions _ true)
    · exact (touch_stream _ _ _ hstate (fun r hr => mem_addId.mp hr) hemitted discarded).goOn hid
        nofun nofun rfl nofun
  · exact handlerStep_work nofun rfl rfl (hmentions [] true)

theorem handlerStep_reply {outs : List Kind} {closing : Bool}
    (hwork : s.work = .replies id outs closing next) :
    HandlerStep s (s.reply id closing next outs) discarded := by
  have hid := mentioned hwork mem_cons_self
  cases outs with
  | cons kind outs =>
    simp only [reply]
    split
    · exact handlerStep_passes hwork rfl rfl rfl fun r hr => hr
    · refine (touch_put s id kind discarded).goOn hid nofun nofun rfl fun r hr => Or.inl ?_
      rw [hwork]
      exact hr
  | nil =>
    simp only [reply]
    split
    next hopen =>
      refine handlerStep_work (fun r hr => ?_) rfl rfl fun r hr => Or.inl ?_
      · cases hr
        exact hopen.2
      · rw [hwork]
        exact hr
    · refine (touch_refl s id discarded).continueWith hid fun r hr => ?_
      rw [hwork]
      exact mem_cons_of_mem _ hr

theorem handlerStep_chunk (hwork : s.work = .chunk id) :
    HandlerStep s (s.chunk id x) discarded := by
  have hid := mentioned hwork mem_cons_self
  unfold chunk
  split
  next hstate =>
    have htouch := fun emitted hemitted =>
      touch_stream _ emitted s.completedStream hstate (fun r hr => mem_addId.mp hr) hemitted
        discarded
    simp only
    split
    · exact (htouch s.emitted fun _ hr => Or.inl hr).goOn hid nofun nofun rfl nofun
    · split
      · refine (htouch _ fun r hr => mem_addId.mp hr).goOn hid nofun nofun rfl fun r hr => Or.inl ?_
        rw [hwork]
        exact hr
      · exact (htouch s.emitted fun _ hr => Or.inl hr).finish hid
  · exact handlerStep_finish

theorem handlerStep_ingest {items : List String} (hwork : s.work = .ingest (id :: items))
    (h : s.ingest id items x = some s') : HandlerStep s s' x.discarded := by
  have hskip : HandlerStep s { s with work := .ingest items } x.discarded :=
    handlerStep_passes hwork rfl rfl rfl fun r hr => mem_cons_of_mem _ hr
  unfold ingest at h
  split at h
  · cases h
    exact hskip
  · split at h
    next hstate =>
      have htouch := touch_stream _ s.emitted s.completedStream hstate
        (fun r hr => mem_addId.mp hr) (fun _ hr => Or.inl hr) x.discarded
      simp only at h
      split at h
      · cases h
        exact htouch.passes hwork mem_cons_self rfl rfl rfl fun r hr => mem_cons_of_mem _ hr
      · obtain ⟨loop, hloop, rfl⟩ := Option.map_eq_some_iff.mp h
        obtain ⟨hmarks, hpoint, _⟩ := failId_spec hloop
        have hfailed : Touch s (({ s with loop := loop, states := addId s.states id }.put id
            .error).clearState id) id x.discarded := by
          refine ⟨rfl, rfl, rfl, hpoint, fun _ _ _ h => (h.failId hloop).1,
            fun r hr hkept _ => hmarks r hr hkept, fun r hentries hmark hregister hwait => ?_,
              fun r hne =>
              outboxOf_put (s := { s with loop := loop, states := addId s.states id }) hne⟩
          have hsame := htouch.entries r hentries hmark hregister hwait
          have hloopSame : NoEntries r { s with loop := loop, states := addId s.states id } :=
            { hsame with }
          exact (hloopSame.put id .error).clearState id
        exact hfailed.passes hwork mem_cons_self rfl rfl rfl fun r hr => mem_cons_of_mem _ hr
    · cases h
      exact hskip

theorem handlerStep_pump (h : s.pump x = some s') :
    HandlerStep s s' discarded := by
  unfold pump at h
  split at h
  next hparticipants =>
    split at h
    · cases h
      exact handlerStep_finish
    · split at h
      · cases h
        exact handlerStep_work nofun rfl rfl fun r hr => Or.inr (hparticipants.2 r hr)
      · cases h
        exact handlerStep_work nofun rfl rfl fun r hr => Or.inr (hparticipants.2 r hr)
  · cases h

theorem handlerStep_emitDecoded {todo waveforms : List String}
    (hwork : s.work = .decoded (id :: todo) waveforms) :
    HandlerStep s (s.emitDecoded id todo waveforms) discarded := by
  unfold emitDecoded
  split
  next hopen =>
    have htouch : Touch s { s.put id .stream with emitted := addId s.emitted id } id discarded := by
      refine ⟨rfl, rfl, rfl, rfl, fun _ _ _ h => h, fun _ hr _ _ => hr,
        fun r h hmark _ _ => ?_, fun r hne => outboxOf_put hne⟩
      have hne : r ≠ id := by
        rintro rfl
        exact hopen.2 hmark
      exact { h with emitted := fun hmem => (mem_addId.mp hmem).elim h.emitted hne }
    exact htouch.passes hwork mem_cons_self rfl rfl rfl fun r hr => mem_cons_of_mem _ hr
  · exact handlerStep_passes hwork rfl rfl rfl fun r hr => mem_cons_of_mem _ hr

/-- A reply that is not for a streaming request. -/
theorem touch_recordCompleted
    (h : ({ s with work := work }.put id kind).recordCompleted id discarded = some s') :
    ∃ t, Touch s t id discarded ∧ s' = { t with work := work } := by
  obtain ⟨ids, _, rfl⟩ := Option.map_eq_some_iff.mp h
  have htouch : Touch s { s.put id kind with completedNonStreaming := ids } id discarded :=
    ⟨rfl, rfl, rfl, rfl, fun _ _ _ h => h, fun _ hr _ _ => hr,
      fun _ h _ _ _ => { h with },
      fun _ hne => outboxOf_put hne⟩
  exact ⟨_, htouch, rfl⟩

theorem handlerStep_answer {todo : List (String × Kind)} {rest : List (Incoming D)}
    (hwork : s.work = .answer ((id, kind) :: todo) rest)
    (h : ({ s with work := .answer todo rest } : Vocoder D).answer id kind discarded = some s') :
    HandlerStep s s' discarded := by
  unfold answer at h
  split at h
  · cases h
    exact handlerStep_passes hwork rfl rfl rfl fun r hr => mem_cons_of_mem _ hr
  · obtain ⟨t, htouch, rfl⟩ := touch_recordCompleted h
    exact htouch.passes hwork mem_cons_self rfl rfl rfl fun r hr => mem_cons_of_mem _ hr

theorem handlerStep_fail (h : s.fail discarded = some s') : HandlerStep s s' discarded := by
  unfold fail at h
  split at h
  next msg rest hpoint =>
    obtain ⟨t, ht, rfl⟩ := Option.map_eq_some_iff.mp h
    have hsame : ({ s with work := s.work } : Vocoder D).failId msg.requestId discarded =
        some t := ht
    obtain ⟨u, htouch, rfl⟩ := touch_failId hsame
    refine (Touch.finish (t := u) htouch (Or.inr ?_) :)
    rw [hpoint]
    exact mem_cons_self
  · cases h

theorem handlerStep_computeValid {valid : List (Incoming D)}
    (hwork : s.work = .validateData [] valid) :
    HandlerStep s (s.computeValid cfg valid) discarded := by
  unfold computeValid
  split
  · exact handlerStep_finish
  · split
    · exact handlerStep_passes hwork rfl rfl rfl fun r hr => hr
    · exact handlerStep_passes hwork rfl rfl rfl fun r hr => hr

end Handlers

/-- Ids of messages that remain are ids of messages. -/
theorem ids_subset {msgs msgs' : List (Incoming D)} (h : msgs' ⊆ msgs) :
    msgs'.map (·.requestId) ⊆ msgs.map (·.requestId) :=
  map_subset _ h

theorem ordered_removeMark {held opened : List (Incoming D)} (h : Ordered cfg s.loop held opened)
    (id : String) :
    Ordered cfg (s.removeMark id).loop held opened :=
  { h with marked := fun other hother => h.marked other (mem_dropId.mp hother).1 }

variable {x : Choice}

theorem handlerStep_workStep (h : s.workStep cfg x = some s') :
    HandlerStep s s' x.discarded := by
  unfold workStep at h
  split at h
  · cases h
  next msg todo streaming nonStreaming hwork =>
    split at h
    · obtain ⟨t, htouch, rfl⟩ := touch_failId h
      exact htouch.passes hwork mem_cons_self rfl rfl rfl fun r hr => mem_cons_of_mem _ hr
    · cases h
      refine handlerStep_passes hwork rfl rfl rfl (ids_subset fun m hm => ?_)
      simp only [cons_append, mem_append, mem_cons, not_mem_nil, or_false] at hm ⊢
      tauto
    · cases h
      refine handlerStep_passes hwork rfl rfl rfl (ids_subset fun m hm => ?_)
      simp only [cons_append, mem_append, mem_cons, not_mem_nil, or_false] at hm ⊢
      tauto
  next streaming nonStreaming hwork =>
    cases h
    exact handlerStep_passes hwork rfl rfl rfl fun r hr => hr
  next msg todo nonStreaming hwork =>
    split at h
    · cases h
      exact handlerStep_passes hwork rfl rfl rfl fun r hr => mem_cons_of_mem _ hr
    next hmark =>
      cases h
      refine handlerStep_work (fun r hr => ?_) rfl rfl fun r hr => Or.inl ?_
      · cases hr
        exact hmark
      · rw [hwork]
        exact hr
  next nonStreaming hwork =>
    split at h
    · cases h
      exact handlerStep_finish
    · cases h
      exact handlerStep_passes hwork rfl rfl rfl fun r hr => hr
  next id next hwork =>
    cases h
    have htouch : Touch s (s.removeMark id) id x.discarded := by
      refine ⟨rfl, rfl, rfl, rfl, fun _ _ _ h => ordered_removeMark h id,
        fun r hr _ hunmark => mem_dropId.mpr ⟨hr, ?_⟩,
        fun _ h _ _ _ => { h with }, fun _ _ => rfl⟩
      rintro rfl
      rw [hwork] at hunmark
      exact hunmark rfl
    exact htouch.goOn (mentioned hwork mem_cons_self) nofun (fun r hr => hwork ▸ hr) rfl
      fun r hr => Or.inl (hwork ▸ hr)
  next id next hwork =>
    cases h
    exact handlerStep_register hwork
  next id hwork =>
    cases h
    exact handlerStep_done hwork
  next id next hwork =>
    cases h
    exact handlerStep_flush hwork
  next id outs closing next hwork =>
    cases h
    exact handlerStep_reply hwork
  next id next hwork =>
    cases h
    have htouch : Touch s ((s.clearState id).removeMark id) id x.discarded := by
      refine ⟨rfl, rfl, rfl, rfl, fun _ _ _ h => ordered_removeMark h id,
        fun r hr _ hunmark => mem_dropId.mpr ⟨hr, ?_⟩, fun r h _ _ _ => ?_, fun _ _ => rfl⟩
      · rintro rfl
        rw [hwork] at hunmark
        exact hunmark rfl
      · have hsame := h.clearState id
        exact { hsame with }
    exact htouch.continueWith (mentioned hwork mem_cons_self)
      fun r hr => hwork ▸ mem_cons_of_mem _ hr
  next id hwork =>
    cases h
    exact handlerStep_chunk hwork
  next msg todo items hwork =>
    split at h
    · cases h
      exact handlerStep_passes hwork rfl rfl rfl fun r hr => mem_cons_of_mem _ hr
    · cases h
      refine handlerStep_passes hwork rfl rfl rfl fun r hr => ?_
      simp only [Work.mentions, mem_append, map_cons, mem_cons, not_mem_nil, or_false] at hr ⊢
      tauto
  next items hwork =>
    split at h
    · cases h
      exact handlerStep_finish
    · cases h
      exact handlerStep_passes hwork rfl rfl rfl fun r hr => (mem_filter.mp hr).1
  next id items hwork => exact handlerStep_ingest hwork h
  · cases h
    exact handlerStep_work nofun rfl rfl nofun
  · exact handlerStep_pump h
  next id todo waveforms hwork =>
    cases h
    exact handlerStep_emitDecoded hwork
  · cases h
    exact handlerStep_work nofun rfl rfl nofun
  next id todo hwork =>
    obtain ⟨t, htouch, rfl⟩ := touch_failId h
    exact htouch.passes hwork mem_cons_self rfl rfl rfl fun r hr => mem_cons_of_mem _ hr
  · cases h
    exact handlerStep_finish
  next batch hwork =>
    simp only at h
    split at h
    · cases h
      exact handlerStep_finish
    · cases h
      have hstep : HandlerStep s { s with
          work := .validateData (batch.filter (·.requestId ∉ s.marks)) [] } x.discarded := by
        refine handlerStep_passes hwork rfl rfl rfl (ids_subset fun m hm => ?_)
        rw [append_nil] at hm
        exact (mem_filter.mp hm).1
      exact { hstep with calls := rfl, aborting := rfl, returned := rfl, waits := rfl, entries :=
        fun _ h _ _ _ => ⟨h.payload, fun hmem => h.pendingDone (mem_filter.mp hmem).1,
          h.state, h.emitted⟩ }
  next msg todo valid hwork =>
    split at h
    · cases h
      refine handlerStep_passes hwork rfl rfl rfl (ids_subset fun m hm => ?_)
      simp only [cons_append, mem_append, mem_cons, not_mem_nil, or_false] at hm ⊢
      tauto
    · obtain ⟨t, htouch, rfl⟩ := touch_recordCompleted h
      exact htouch.passes hwork mem_cons_self rfl rfl rfl fun r hr => mem_cons_of_mem _ hr
  next valid hwork =>
    cases h
    exact handlerStep_computeValid hwork
  next msg todo hwork =>
    split at h
    · cases h
      exact handlerStep_passes hwork rfl rfl rfl fun r hr => mem_cons_of_mem _ hr
    · cases h
      exact handlerStep_passes hwork rfl rfl rfl fun r hr => hr
  · cases h
    exact handlerStep_finish
  next valid hwork =>
    cases h
    refine handlerStep_passes hwork rfl rfl rfl fun r hr => ?_
    simpa [Work.mentions, map_map] using hr
  next id kind todo rest hwork => exact handlerStep_answer hwork h
  next rest hwork =>
    cases h
    exact handlerStep_passes hwork rfl rfl rfl fun r hr => hr
  · exact handlerStep_fail h

/-- What a step of the loop does. -/
structure LoopTurn (cfg : StreamConfig D) (s s' : Vocoder D) (discarded : List String) : Prop where
  idle : s.work = .idle
  calls : s'.calls = s.calls
  aborting : s'.aborting = s.aborting
  returned : s'.returned = s.returned
  marks : ∀ r ∈ s.marks, r ∉ discarded → r ∈ s'.marks
  entries : ∀ r, NoEntries r s → NoEntries r s'
  outbox : ∀ r ∈ s.marks, s'.outboxOf r = s.outboxOf r
  work : s'.work = .idle ∨ ∃ batch, s'.loop.point = .handling batch ∧ s'.work = handler cfg batch
  batch : ∀ msg ∈ batchOf s'.loop.point, msg ∈ batchOf s.loop.point ∨ msg.requestId ∉ s.marks
  free : ∀ batch, s.loop.point ≠ .handling batch
  collected : Collected cfg s.loop → Collected cfg s'.loop

variable (cfg) in
/-- A message for which the loop has failed. -/
theorem collected_eq (loop : Collector D) (herrors : loop.errors = s.loop.errors ∨
    ∃ id, id ∉ s.marks ∧ loop.errors = s.loop.errors ++ [id]) :
    ∃ t : Vocoder D, (t = { s with loop := loop } ∨
      ∃ id, id ∉ s.marks ∧ t = ({ s with loop := loop }.put id .error).clearState id) ∧
      (s.collected cfg loop = t ∨ ∃ batch, loop.point = .handling batch ∧
        s.collected cfg loop = { t with work := handler cfg batch }) := by
  have hfold : ∃ t : Vocoder D, (t = { s with loop := loop } ∨
      ∃ id, id ∉ s.marks ∧ t = ({ s with loop := loop }.put id .error).clearState id) ∧
      (loop.errors.drop s.loop.errors.length).foldl
        (fun t requestId => (t.put requestId .error).clearState requestId)
        { s with loop := loop } = t := by
    rcases herrors with hsame | ⟨id, hid, hmore⟩
    · refine ⟨_, Or.inl rfl, ?_⟩
      rw [hsame, drop_length, foldl_nil]
    · refine ⟨_, Or.inr ⟨id, hid, rfl⟩, ?_⟩
      rw [hmore, drop_left, foldl_cons, foldl_nil]
  obtain ⟨t, ht, hfold⟩ := hfold
  refine ⟨t, ht, ?_⟩
  unfold collected
  rw [hfold]
  split
  next batch hpoint => exact Or.inr ⟨batch, hpoint, rfl⟩
  · exact Or.inl rfl

theorem loopTurn (ha : LoopAction a discarded) (h : s.loopStep cfg a = some s') :
    LoopTurn cfg s s' discarded := by
  unfold loopStep at h
  split at h
  next hidle =>
    obtain ⟨loop, hloop, rfl⟩ := Option.map_eq_some_iff.mp h
    obtain ⟨hspec, hfree⟩ := loopStep_of_step ha hloop
    obtain ⟨t, ht, hcollected⟩ := collected_eq cfg loop hspec.errors
    have htouch : t.calls = s.calls ∧ t.aborting = s.aborting ∧ t.returned = s.returned ∧
        t.loop = loop ∧ t.work = s.work ∧ (∀ r, NoEntries r s → NoEntries r t) ∧
        ∀ r ∈ s.marks, t.outboxOf r = s.outboxOf r := by
      have hsame : ∀ r, NoEntries r s → NoEntries r { s with loop := loop } :=
        fun r hr => { hr with }
      rcases ht with rfl | ⟨id, hid, rfl⟩
      · exact ⟨rfl, rfl, rfl, rfl, rfl, hsame, fun _ _ => rfl⟩
      · refine ⟨rfl, rfl, rfl, rfl, rfl, fun r hr => ((hsame r hr).put id .error).clearState id,
          fun r hr => ?_⟩
        have hne : r ≠ id := by
          rintro rfl
          exact hid hr
        exact outboxOf_put (s := { s with loop := loop }) hne
    obtain ⟨hcalls, haborting, hreturned, htloop, htwork, hentries, houtbox⟩ := htouch
    have hwork : ∀ u : Vocoder D, u = t ∨ (∃ batch, loop.point = .handling batch ∧
        u = { t with work := handler cfg batch }) → LoopTurn cfg s u discarded := by
      rintro u (rfl | ⟨batch, hpoint, rfl⟩)
      · refine ⟨hidle, hcalls, haborting, hreturned, fun r hr hkept => ?_, hentries, houtbox,
          Or.inl (htwork.trans hidle), ?_, hfree, fun hc => htloop ▸ hc.step hloop⟩
        · change r ∈ u.loop.aborted
          rw [htloop]
          exact hspec.marks r hr hkept
        · exact htloop.symm ▸ hspec.batch
      · refine ⟨hidle, hcalls, haborting, hreturned, fun r hr hkept => ?_, fun r hr => ?_, houtbox,
          Or.inr ⟨batch, htloop.symm ▸ hpoint, rfl⟩, ?_, hfree, fun hc => ?_⟩
        · exact (htloop.symm ▸ hspec.marks r hr hkept : r ∈ t.loop.aborted)
        · have hsame := hentries r hr
          exact { hsame with }
        · exact (htloop.symm ▸ hspec.batch : ∀ msg ∈ batchOf t.loop.point, _)
        · exact (htloop.symm ▸ hc.step hloop : Collected cfg t.loop)
    exact hwork _ hcollected
  · cases h

/-- No abort records its mark, or clears the state, in one of the windows: between the last look at
the mark and its removal, and between the last look at the mark and the section that stores the
payload or the early `stream_done`. No eviction discards the mark of an aborted request. -/
def Undisturbed (s : Vocoder D) : VocoderAction D → Prop
  | .record requestId discarded =>
    s.work.unmarks ≠ some requestId ∧ ∀ id ∈ discarded, id ∉ s.calls ∧ id ≠ requestId
  | .clear => ∀ requestId ∈ s.aborting, s.work.registers ≠ some requestId ∧
    (s.work.waits = some requestId → requestId ∈ s.completedNonStreaming)
  | .check discarded | .pull discarded => ∀ id ∈ discarded, id ∉ s.calls
  | .work x => ∀ id ∈ x.discarded, id ∉ s.calls
  | _ => True

instance : ∀ (s : Vocoder D) (a : VocoderAction D), Decidable (Undisturbed s a)
  | s, .record requestId discarded => inferInstanceAs (Decidable
      (s.work.unmarks ≠ some requestId ∧ ∀ id ∈ discarded, id ∉ s.calls ∧ id ≠ requestId))
  | s, .clear => inferInstanceAs (Decidable (∀ requestId ∈ s.aborting,
      s.work.registers ≠ some requestId ∧
        (s.work.waits = some requestId → requestId ∈ s.completedNonStreaming)))
  | s, .check discarded | s, .pull discarded =>
    inferInstanceAs (Decidable (∀ id ∈ discarded, id ∉ s.calls))
  | s, .work x => inferInstanceAs (Decidable (∀ id ∈ x.discarded, id ∉ s.calls))
  | _, .put _ _ _ | _, .take | _, .close => inferInstanceAs (Decidable True)

/-- What aborts can rely on. -/
structure Settling (cfg : StreamConfig D) (s : Vocoder D) : Prop where
  collected : Collected cfg s.loop
  handling : s.work ≠ .idle → ∃ batch, s.loop.point = .handling batch
  called : ∀ r ∈ s.calls, r ∈ s.marks
  unmarks : ∀ r, s.work.unmarks = some r → r ∉ s.calls
  aborting : ∀ r, s.aborting = some r → r ∈ s.calls
  returned : ∀ r ∈ s.returned, r ∈ s.calls ∧ NoEntries r s ∧ s.work.registers ≠ some r ∧
    (s.work.waits = some r → r ∈ s.completedNonStreaming)

theorem settling_init : Settling cfg (init D) where
  collected := collected_init
  handling hne := absurd rfl hne
  called _ h := by cases h
  unmarks _ h := by cases h
  aborting _ h := by cases h
  returned _ h := by cases h

/-- What a handler begins with. -/
inductive Begins : List (Incoming D) → Work D → Prop
  | nothing : Begins [] .idle
  | payloads (msg : Incoming D) (rest : List (Incoming D)) (htype : msg.type = .newRequest) :
    Begins (msg :: rest) (.classify (msg :: rest) [] [])
  | chunks (msg : Incoming D) (rest : List (Incoming D)) (htype : msg.type = .streamChunk) :
    Begins (msg :: rest) (.validate (msg :: rest) [])
  | chunk (msg : Incoming D) (rest : List (Incoming D)) (htype : msg.type = .streamChunk) :
    Begins (msg :: rest) (.chunk msg.requestId)
  | done (msg : Incoming D) (rest : List (Incoming D)) (htype : msg.type = .streamDone) :
    Begins (msg :: rest) (.done msg.requestId)

variable (cfg) in
theorem begins_handler (batch : List (Incoming D)) : Begins batch (handler cfg batch) := by
  cases batch with
  | nil => exact .nothing
  | cons msg rest =>
    simp only [handler]
    split
    next htype => exact .payloads msg rest htype
    next htype =>
      split
      · exact .chunks msg rest htype
      · exact .chunk msg rest htype
    next htype => exact .done msg rest htype

theorem Begins.free (h : Begins batch work) : work.unmarks = none ∧ work.registers = none := by
  cases h <;> exact ⟨rfl, rfl⟩

theorem Begins.waits (h : Begins batch work) (hwaits : work.waits = some r) :
    ∃ msg ∈ batch, msg.requestId = r ∧ msg.type = .streamDone := by
  cases h <;> cases hwaits
  next msg rest htype => exact ⟨msg, mem_cons_self, rfl, htype⟩

theorem Begins.mentions (h : Begins batch work) (hmem : r ∈ work.mentions) :
    r ∈ batch.map (·.requestId) := by
  cases h with
  | nothing => cases hmem
  | payloads msg rest htype => simpa [Work.mentions] using hmem
  | chunks msg rest htype => simpa [Work.mentions] using hmem
  | chunk msg rest htype =>
    rw [mem_singleton.mp hmem]
    exact mem_cons_self
  | done msg rest htype =>
    rw [mem_singleton.mp hmem]
    exact mem_cons_self

theorem batchOf_type (h : Collected cfg s.loop) (hfree : ∀ batch, s.loop.point ≠ .handling batch)
    {msg : Incoming D} (hmsg : msg ∈ batchOf s.loop.point) : msg.type ≠ .streamDone := by
  have hpoint := h.point
  cases hp : s.loop.point with
  | idle =>
    rw [hp] at hmsg
    cases hmsg
  | taken other =>
    rw [hp] at hmsg
    cases hmsg
  | collectingNew batch cost =>
    rw [hp] at hpoint hmsg
    obtain _ | _ | ⟨_, hopen⟩ | _ | _ := hpoint
    rw [hopen.requests msg hmsg]
    exact nofun
  | collectingChunks batch =>
    rw [hp] at hpoint hmsg
    obtain _ | _ | _ | ⟨_, hopen⟩ | _ := hpoint
    rw [hopen.chunks msg hmsg]
    exact nofun
  | handling batch => exact absurd hp (hfree batch)

theorem Settling.loopTurn (h : Settling cfg s) (hturn : LoopTurn cfg s s' discarded)
    (hkept : ∀ id ∈ discarded, id ∉ s.calls) :
    Settling cfg s' where
  collected := hturn.collected h.collected
  handling hne := by
    rcases hturn.work with hidle | ⟨batch, hpoint, _⟩
    · exact absurd hidle hne
    · exact ⟨batch, hpoint⟩
  called r hr := by
    rw [hturn.calls] at hr
    exact hturn.marks r (h.called r hr) fun hmem => hkept r hmem hr
  unmarks r hr := by
    rcases hturn.work with hidle | ⟨batch, _, hwork⟩
    · rw [hidle] at hr
      cases hr
    · rw [hwork, (begins_handler cfg batch).free.1] at hr
      cases hr
  aborting r hr := by
    rw [hturn.aborting] at hr
    rw [hturn.calls]
    exact h.aborting r hr
  returned r hr := by
    rw [hturn.returned] at hr
    obtain ⟨hcalls, hentries, _, _⟩ := h.returned r hr
    refine ⟨hturn.calls.symm ▸ hcalls, hturn.entries r hentries, ?_, fun hwait => ?_⟩
    · rcases hturn.work with hidle | ⟨batch, _, hwork⟩
      · rw [hidle]
        exact nofun
      · rw [hwork, (begins_handler cfg batch).free.2]
        exact nofun
    · rcases hturn.work with hidle | ⟨batch, hpoint, hwork⟩
      · rw [hidle] at hwait
        cases hwait
      · rw [hwork] at hwait
        obtain ⟨msg, hmsg, hid, htype⟩ := (begins_handler cfg batch).waits hwait
        have hbatch : msg ∈ batchOf s'.loop.point := by
          rw [hpoint]
          exact hmsg
        rcases hturn.batch msg hbatch with hold | hmark
        · exact absurd htype (batchOf_type h.collected hturn.free hold)
        · exact absurd (h.called r hcalls) (hid ▸ hmark)

theorem Settling.workStep (h : Settling cfg s) (hkept : ∀ id ∈ x.discarded, id ∉ s.calls)
    (hstep : s.workStep cfg x = some s') :
    Settling cfg s' := by
  have hspec := handlerStep_workStep hstep
  have hbusy : s.work ≠ .idle := by
    intro hidle
    simp [Vocoder.workStep, hidle] at hstep
  obtain ⟨batch, hbatch⟩ := h.handling hbusy
  have hmarks : ∀ r ∈ s.calls, r ∈ s'.marks := fun r hr =>
    hspec.marks r (h.called r hr) (fun hmem => hkept r hmem hr)
      fun hunmark => h.unmarks r hunmark hr
  refine ⟨⟨?_, ?_⟩, fun hne => ⟨batch, (hspec.point hne).trans hbatch⟩, fun r hr => ?_,
    fun r hr hmem => ?_, fun r hr => ?_, fun r hr => ?_⟩
  · have hordered := hspec.ordered cfg _ _ h.collected.ordered
    rw [hbatch] at hordered
    rcases hspec.batch with hsame | hidle
    · rw [hsame, hbatch]
      exact hordered
    · rw [hidle]
      exact hordered
  · rcases hspec.batch with hsame | hidle
    · rw [hsame]
      exact h.collected.point
    · rw [hidle]
      exact .idle
  · rw [hspec.calls] at hr
    exact hmarks r hr
  · rw [hspec.calls] at hmem
    exact hspec.unmarks r hr (h.called r hmem)
  · rw [hspec.aborting] at hr
    rw [hspec.calls]
    exact h.aborting r hr
  · rw [hspec.returned] at hr
    obtain ⟨hcalls, hentries, hregisters, hwaits⟩ := h.returned r hr
    refine ⟨hspec.calls.symm ▸ hcalls,
      hspec.entries r hentries (h.called r hcalls) hregisters hwaits, fun hregister => ?_,
      fun hwait => ?_⟩
    · exact h.unmarks r (hspec.registers r hregister) hcalls
    · rw [hspec.waits] at hwait
      cases hwait

theorem Settling.put {type : MessageType} {data : D} (h : Settling cfg s)
    (hloop : Collector.step cfg s.loop (.put requestId type data) = some loop) :
    Settling cfg { s with loop := loop } := by
  have hcollected := h.collected.step hloop
  cases hloop
  exact { h with collected := hcollected, returned := fun r hr =>
    ⟨(h.returned r hr).1, ⟨(h.returned r hr).2.1.payload, (h.returned r hr).2.1.pendingDone,
      (h.returned r hr).2.1.state, (h.returned r hr).2.1.emitted⟩, (h.returned r hr).2.2⟩ }

theorem Settling.record (h : Settling cfg s) (hunmarks : s.work.unmarks ≠ some requestId)
    (hkept : ∀ id ∈ discarded, id ∉ s.calls ∧ id ≠ requestId)
    (hloop : s.loop.record requestId discarded = some loop) :
    Settling cfg { s with
      loop := loop, aborting := some requestId, calls := addId s.calls requestId } := by
  obtain ⟨hmarks, hnew, hpoint, _⟩ := record_spec hloop
  refine ⟨h.collected.step (a := .abort requestId discarded) hloop,
    fun hne => hpoint.symm ▸ h.handling hne, fun r hr => ?_, fun r hr hmem => ?_, fun r hr => ?_,
    fun r hr => ?_⟩
  · rcases mem_addId.mp hr with hold | rfl
    · exact hmarks r (h.called r hold) fun hmem => (hkept r hmem).1 hold
    · exact hnew fun hmem => (hkept r hmem).2 rfl
  · rcases mem_addId.mp hmem with hold | rfl
    · exact h.unmarks r hr hold
    · exact hunmarks hr
  · cases hr
    exact mem_addId.mpr (Or.inr rfl)
  · obtain ⟨hcalls, hentries, hregisters, hwaits⟩ := h.returned r hr
    exact ⟨mem_addId.mpr (Or.inl hcalls), { hentries with }, hregisters, hwaits⟩

theorem Settling.clear (h : Settling cfg s) (haborting : s.aborting = some requestId)
    (hregisters : s.work.registers ≠ some requestId)
    (hwaits : s.work.waits = some requestId → requestId ∈ s.completedNonStreaming) :
    Settling cfg { s.clearState requestId with
      aborting := none, returned := addId s.returned requestId } := by
  refine { h with aborting := nofun, returned := fun r hr => ?_ }
  rcases mem_addId.mp hr with hold | rfl
  · obtain ⟨hcalls, hentries, hregister, hwait⟩ := h.returned r hold
    have hsame := hentries.clearState requestId
    exact ⟨hcalls, { hsame with }, hregister, hwait⟩
  · have hnone := noEntries_clearState r s
    exact ⟨h.aborting r haborting, { hnone with }, hregisters, hwaits⟩

/-- A request whose abort is over, and which no thread has in hand. -/
structure Quiet (r : String) (s : Vocoder D) : Prop where
  called : r ∈ s.calls
  entries : NoEntries r s
  mentions : r ∉ s.work.mentions
  batch : r ∉ (batchOf s.loop.point).map (·.requestId)

theorem registers_mentions (h : work.registers = some r) :
    r ∈ work.mentions := by
  cases work <;> cases h
  exact mem_cons_self

theorem waits_mentions (h : work.waits = some r) : r ∈ work.mentions := by
  cases work <;> cases h
  exact mem_cons_self

theorem Quiet.loopTurn (hquiet : Quiet r s) (h : Settling cfg s)
    (hturn : LoopTurn cfg s s' discarded) : Quiet r s' ∧ s'.outboxOf r = s.outboxOf r := by
  have hmark := h.called r hquiet.called
  have hbatch : r ∉ (batchOf s'.loop.point).map (·.requestId) := by
    intro hmem
    obtain ⟨msg, hmsg, rfl⟩ := mem_map.mp hmem
    rcases hturn.batch msg hmsg with hold | hopen
    · exact hquiet.batch (mem_map_of_mem hold)
    · exact hopen hmark
  refine ⟨⟨hturn.calls.symm ▸ hquiet.called, hturn.entries r hquiet.entries, fun hmem => ?_,
    hbatch⟩, hturn.outbox r hmark⟩
  rcases hturn.work with hidle | ⟨batch, hpoint, hwork⟩
  · rw [hidle] at hmem
    cases hmem
  · rw [hwork] at hmem
    rw [hpoint] at hbatch
    exact hbatch ((begins_handler cfg batch).mentions hmem)

theorem Quiet.workStep (hquiet : Quiet r s) (h : Settling cfg s)
    (hstep : s.workStep cfg x = some s') : Quiet r s' ∧ s'.outboxOf r = s.outboxOf r := by
  have hspec := handlerStep_workStep hstep
  have hmark := h.called r hquiet.called
  refine ⟨⟨hspec.calls.symm ▸ hquiet.called, ?_, fun hmem => ?_, fun hmem => ?_⟩,
    hspec.outbox r hquiet.mentions hquiet.batch⟩
  · exact hspec.entries r hquiet.entries hmark
      (fun hregister => hquiet.mentions (registers_mentions hregister))
      fun hwait => absurd (waits_mentions hwait) hquiet.mentions
  · rcases hspec.mentions r hmem with hold | hstate
    · exact hquiet.mentions hold
    · exact hquiet.entries.state hstate
  · rcases hspec.batch with hsame | hidle
    · exact hquiet.batch (hsame ▸ hmem)
    · rw [hidle] at hmem
      cases hmem

/-- Every step keeps what aborts rely on, and puts nothing into the outbox for a request that is
quiet. -/
theorem Settling.step {a : VocoderAction D} (h : Settling cfg s) (hok : Undisturbed s a)
    (hstep : step cfg s a = some s') :
    Settling cfg s' ∧ ∀ r, Quiet r s → Quiet r s' ∧ s'.outboxOf r = s.outboxOf r := by
  have hturn : ∀ {a : CollectAction D} {discarded : List String}, LoopAction a discarded →
      (∀ id ∈ discarded, id ∉ s.calls) → s.loopStep cfg a = some s' →
      Settling cfg s' ∧ ∀ r, Quiet r s → Quiet r s' ∧ s'.outboxOf r = s.outboxOf r := by
    intro a discarded ha hkept hloop
    have hturn := Streaming.loopTurn ha hloop
    exact ⟨h.loopTurn hturn hkept, fun r hquiet => hquiet.loopTurn h hturn⟩
  cases a with
  | put requestId type data =>
    simp only [Vocoder.step] at hstep
    obtain ⟨loop, hloop, rfl⟩ := Option.map_eq_some_iff.mp hstep
    refine ⟨h.put hloop, fun r hquiet => ⟨?_, rfl⟩⟩
    cases hloop
    exact { hquiet with entries := ⟨hquiet.entries.payload, hquiet.entries.pendingDone,
      hquiet.entries.state, hquiet.entries.emitted⟩ }
  | record requestId discarded =>
    simp only [Vocoder.step] at hstep
    split at hstep
    · obtain ⟨loop, hloop, rfl⟩ := Option.map_eq_some_iff.mp hstep
      refine ⟨h.record hok.1 hok.2 hloop, fun r hquiet => ⟨?_, rfl⟩⟩
      obtain ⟨_, _, hpoint, _⟩ := record_spec hloop
      exact ⟨mem_addId.mpr (Or.inl hquiet.called), ⟨hquiet.entries.payload,
        hquiet.entries.pendingDone, hquiet.entries.state, hquiet.entries.emitted⟩,
        hquiet.mentions, hpoint.symm ▸ hquiet.batch⟩
    · cases hstep
  | clear =>
    simp only [Vocoder.step] at hstep
    split at hstep
    next requestId haborting =>
      split at hstep
      · cases hstep
      · cases hstep
        obtain ⟨hregisters, hwaits⟩ := hok requestId haborting
        refine ⟨h.clear haborting hregisters hwaits, fun r hquiet => ⟨?_, rfl⟩⟩
        have hsame := hquiet.entries.clearState requestId
        exact { hquiet with entries := { hsame with } }
    · cases hstep
  | take => exact hturn .take nofun hstep
  | check discarded => exact hturn (.check discarded) hok hstep
  | pull discarded => exact hturn (.pull discarded) hok hstep
  | close => exact hturn .close nofun hstep
  | work x => exact ⟨h.workStep hok hstep, fun r hquiet => hquiet.workStep h hstep⟩

theorem settling_run {as : List (VocoderAction D)}
    (hrun : Run (Vocoder.step cfg) Undisturbed (.init D) as s) : Settling cfg s :=
  hrun.invariant (I := Settling cfg) (fun _ _ _ h hok hstep => (h.step hok hstep).1) settling_init

/-- Once the abort of a request has returned and the scheduler's thread is between two messages,
nothing is kept for the request, it is marked, and no message for it is put into the outbox, in
this state and ever after. -/
theorem aborted_for_good {t : Vocoder D} {as bs : List (VocoderAction D)}
    (hrun : Run (Vocoder.step cfg) Undisturbed (.init D) as s) (hreturned : r ∈ s.returned)
    (hidle : s.loop.point = .idle) (hlater : Run (Vocoder.step cfg) Undisturbed s bs t) :
    NoEntries r t ∧ r ∈ t.marks ∧ t.outboxOf r = s.outboxOf r := by
  have h := settling_run hrun
  have hwork : s.work = .idle := by
    by_contra hbusy
    obtain ⟨batch, hbatch⟩ := h.handling hbusy
    rw [hidle] at hbatch
    cases hbatch
  obtain ⟨hcalls, hentries, _, _⟩ := h.returned r hreturned
  have hquiet : Quiet r s := by
    refine ⟨hcalls, hentries, ?_, ?_⟩
    · rw [hwork]
      exact not_mem_nil
    · rw [hidle]
      exact not_mem_nil
  have hlate : Settling cfg t ∧ Quiet r t ∧ t.outboxOf r = s.outboxOf r := by
    refine hlater.invariant
      (I := fun t => Settling cfg t ∧ Quiet r t ∧ t.outboxOf r = s.outboxOf r) ?_
      ⟨h, hquiet, rfl⟩
    rintro u a v ⟨hu, hquietU, hsame⟩ hok hstep
    obtain ⟨hv, hquietV⟩ := hu.step hok hstep
    exact ⟨hv, (hquietV r hquietU).1, (hquietV r hquietU).2.trans hsame⟩
  exact ⟨hlate.2.1.entries, hlate.1.called r hlate.2.1.called, hlate.2.2⟩

/-- One message at a time. A payload of 1 is streaming. -/
def oneByOne : StreamConfig ℕ where
  hasBatchFn := false
  maxBatchSize := 1
  maxBatchCost := none
  requestCostFn := none
  isStreamingPayload data := .ok (decide (data = 1))
  canBatchStreamChunks := false
  streamChunkBatchMax := none
  distinctRequests := false
  maxBatchSize_pos := Nat.one_pos

/-- A request with two chunks, aborted while the first one is decoded. -/
def abortedRun : List (VocoderAction ℕ) :=
  [.put "a" .newRequest 1, .put "a" .streamChunk 0, .put "a" .streamChunk 0, .take, .check [],
    .work {}, .work {}, .work {}, .work {}, .work {}, .work {}, .take, .check [],
    .work { waveform := true }, .work {}, .record "a" [], .work {}, .clear]

theorem abortedRun_isSome :
    (exec (fun s a => if Undisturbed s a then step oneByOne s a else none) (.init ℕ)
      abortedRun).isSome := by
  decide +kernel

/-- An abort while a chunk is decoded, and another chunk after it. -/
theorem aborted_for_good_chunk : ∃ s t : Vocoder ℕ, t.outbox = [⟨"a", .stream⟩] ∧
    NoEntries "a" t ∧ "a" ∈ t.marks ∧ t.outboxOf "a" = s.outboxOf "a" := by
  have hrun := run_of_isSome_guarded (Vocoder.step oneByOne) Undisturbed (.init ℕ) abortedRun
    abortedRun_isSome
  have hlater := run_of_isSome_guarded (Vocoder.step oneByOne) Undisturbed
    (Option.get _ abortedRun_isSome) [.take, .check []] (by decide +kernel)
  exact ⟨_, _, by decide +kernel,
    aborted_for_good (r := "a") hrun (by decide +kernel) (by decide +kernel) hlater⟩

/-- The abort comes between the last look at the mark and its removal: the payload and the state
stay, and the request is not marked. -/
theorem abort_undone : ∃ s : Vocoder ℕ, Reachable (Vocoder.step oneByOne) (.init ℕ) s ∧
    "a" ∈ s.returned ∧ s.loop.point = .idle ∧ "a" ∈ s.payloads ∧ "a" ∈ s.states ∧
    "a" ∉ s.marks := by
  have hrun := run_of_isSome (Vocoder.step oneByOne) (.init ℕ)
    [.put "a" .newRequest 1, .take, .check [], .work {}, .work {}, .work {}, .record "a" [],
      .clear, .work {}, .work {}, .work {}] (by decide +kernel)
  exact ⟨_, ⟨_, hrun⟩, by decide +kernel, by decide +kernel, by decide +kernel, by decide +kernel,
    by decide +kernel⟩

end Omni.Streaming
