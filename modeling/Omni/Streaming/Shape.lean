import Omni.Streaming.Moves

/-!
# The shape of a handler's work

The handler works on the first message of its batch where it can fail, and a streaming request is a
batch of its own.
-/

namespace Omni.Streaming

open Transition Simple Collector Vocoder List

variable {D : Type} {cfg : StreamConfig D} {loop : Collector D} {discarded items : List String}
  {msg : Incoming D}

/-- Nothing comes after a streaming request. -/
def Next.Empty (next : Next D) : Prop := next = .streams [] [] ∨ next = .finish

/-- The handler works on the first message of its batch, and a streaming request is a batch of its
own. -/
def Work.Fits (cfg : StreamConfig D) (batch : List (Incoming D)) : Work D → Prop
  | .classify todo streaming nonStreaming =>
    (∀ msg ∈ todo, cfg.isStreamingPayload msg.data = .ok true →
      todo = [msg] ∧ streaming = [] ∧ nonStreaming = [] ∧ batch = [msg]) ∧
    (streaming ≠ [] → ∃ msg, streaming = [msg] ∧ todo = [] ∧ nonStreaming = [] ∧ batch = [msg])
  | .streams todo nonStreaming => todo ≠ [] →
    ∃ msg, todo = [msg] ∧ nonStreaming = [] ∧ batch = [msg]
  | .unmark id next | .register id next | .flush id next | .replies id _ _ next
  | .closed id next => batch.head?.map (·.requestId) = some id ∧ next.Empty
  | .done id | .chunk id => batch.head?.map (·.requestId) = some id
  | .answer todo _ => ∀ entry ∈ todo, entry.2 ≠ .stream
  | _ => True

/-- What holds of the loop and of the handler's work. -/
structure Shaped (cfg : StreamConfig D) (s : Vocoder D) : Prop where
  collected : Collected cfg s.loop
  idle : s.work = .idle → ∀ batch, s.loop.point ≠ .handling batch
  busy : s.work ≠ .idle → ∃ batch, s.loop.point = .handling batch ∧ s.work.Fits cfg batch

variable {s s' t : Vocoder D} {r id : String}

theorem shaped_init : Shaped cfg (init D) where
  collected := collected_init
  idle _ _ h := by cases h
  busy h := absurd rfl h

/-- The handler is at its next work or at its end. -/
def Goes (cfg : StreamConfig D) (batch : List (Incoming D)) (s s' : Vocoder D) : Prop :=
  (s'.work = .idle ∧ s'.loop.point = .idle) ∨
    (s'.work ≠ .idle ∧ s'.loop.point = s.loop.point ∧ s'.work.Fits cfg batch)

theorem Shaped.work {x : Choice} (h : Shaped cfg s) (hstep : s.workStep cfg x = some s')
    (hfits : ∀ batch, s.loop.point = .handling batch → s.work.Fits cfg batch →
      Goes cfg batch s s') : Shaped cfg s' := by
  have hbusy : s.work ≠ .idle := by
    intro hidle
    simp [workStep, hidle] at hstep
  obtain ⟨batch, hpoint, hfit⟩ := h.busy hbusy
  have hhandler := handlerStep_workStep hstep
  have hordered : Ordered cfg s.loop [] [] := by
    have hcollected := h.collected.ordered
    rwa [hpoint] at hcollected
  have hordered' := hhandler.ordered cfg [] [] hordered
  rcases hfits batch hpoint hfit with ⟨hidle, hpoint'⟩ | ⟨hbusy', hpoint', hfit'⟩
  · refine ⟨⟨?_, ?_⟩, fun _ other hother => ?_, fun hne => absurd hidle hne⟩
    · rw [hpoint']
      exact hordered'
    · rw [hpoint']
      exact .idle
    · rw [hpoint'] at hother
      cases hother
  · rw [hpoint] at hpoint'
    refine ⟨⟨?_, ?_⟩, fun hidle => absurd hidle hbusy', fun _ => ⟨batch, hpoint', hfit'⟩⟩
    · rw [hpoint']
      exact hordered'
    · rw [hpoint']
      exact .handling batch

variable {batch : List (Incoming D)}

theorem goodBatch_alone (hgood : GoodBatch cfg batch) (hmsg : msg ∈ batch)
    (hnew : ∀ other ∈ batch.head?, other.type = .newRequest)
    (hstreaming : cfg.isStreamingPayload msg.data = .ok true) : batch = [msg] := by
  obtain ⟨first, rest, rfl⟩ := exists_cons_of_ne_nil (ne_nil_of_mem hmsg)
  have hfirst := hnew first rfl
  rcases hgood with hbatch | hchunk | ⟨last, hlast, hdone⟩
  · by_cases hmore : 1 < (first :: rest).length
    · rw [hbatch.streaming hmore msg hmsg] at hstreaming
      cases hstreaming
    · obtain rfl : rest = [] := eq_nil_of_length_eq_zero (by
        simp only [length_cons] at hmore
        omega)
      rw [mem_singleton.mp hmsg]
  · rw [hchunk.chunks first mem_cons_self] at hfirst
    cases hfirst
  · obtain ⟨rfl, -⟩ := List.cons.inj hlast
    rw [hfirst] at hdone
    cases hdone

theorem fits_handler (hgood : GoodBatch cfg batch) (hne : batch ≠ []) :
    (handler cfg batch).Fits cfg batch ∧ handler cfg batch ≠ .idle := by
  obtain ⟨msg, rest, rfl⟩ := exists_cons_of_ne_nil hne
  cases htype : msg.type with
  | newRequest =>
    simp only [handler, htype]
    refine ⟨⟨fun other hother hstreaming => ?_, fun hnone => absurd rfl hnone⟩, by simp⟩
    have halone := goodBatch_alone hgood hother (fun first hfirst => by
      cases hfirst
      exact htype) hstreaming
    exact ⟨halone, rfl, rfl, halone⟩
  | streamChunk =>
    simp only [handler, htype]
    split
    · exact ⟨trivial, by simp⟩
    · exact ⟨rfl, by simp⟩
  | streamDone =>
    simp only [handler, htype]
    exact ⟨rfl, by simp⟩

theorem collected_same (herrors : loop.errors = s.loop.errors)
    (hfree : ∀ batch, loop.point ≠ .handling batch) :
    s.collected cfg loop = { s with loop := loop } := by
  unfold collected
  rw [herrors, drop_length]
  split
  next batch hpoint => exact absurd hpoint (hfree batch)
  · rfl

variable (cfg) in
theorem collected_handling (herrors : loop.errors = s.loop.errors)
    (hpoint : loop.point = .handling batch) :
    s.collected cfg loop = { s with loop := loop, work := handler cfg batch } := by
  unfold collected
  rw [herrors, drop_length, hpoint]
  rfl

theorem collected_failed (herrors : loop.errors = s.loop.errors ++ [id])
    (hfree : ∀ batch, loop.point ≠ .handling batch) :
    s.collected cfg loop = ({ s with loop := loop }.put id .error).clearState id := by
  unfold collected
  rw [herrors, drop_left]
  split
  next batch hpoint => exact absurd hpoint (hfree batch)
  · rfl

theorem goodPoint_opened {point : CollectPoint D} (h : GoodPoint cfg point)
    (hopened : point.opened ≠ []) : GoodBatch cfg point.opened := by
  cases h with
  | idle => exact absurd rfl hopened
  | taken msg => exact absurd rfl hopened
  | collectingNew hne hopen => exact hopen.good
  | collectingChunks hne hopen => exact Or.inr (Or.inl hopen)
  | handling batch => exact absurd rfl hopened

/-- The loop hands good batches over. -/
theorem shaped_loopTurn {a : CollectAction D} (ha : LoopAction a discarded) (h : Shaped cfg s)
    (hstep : s.loopStep cfg a = some s') : Shaped cfg s' := by
  have hturn := loopTurn ha hstep
  have hcollected := hturn.collected h.collected
  unfold loopStep at hstep
  split at hstep
  next hidle =>
    obtain ⟨loop, hloop, rfl⟩ := Option.map_eq_some_iff.mp hstep
    have hmove := loopMove_of_step ha h.collected.point hloop
    have hfreed : ∀ t : Vocoder D, s.collected cfg loop = t → t.loop = loop → t.work = s.work →
        (∀ batch, loop.point ≠ .handling batch) → Shaped cfg (s.collected cfg loop) := by
      intro t ht htloop htwork hfree
      refine ⟨hcollected, fun _ batch => ?_, fun hne => ?_⟩
      · rw [ht, htloop]
        exact hfree batch
      · rw [ht, htwork] at hne
        exact absurd hidle hne
    have hhanded : ∀ batch, batch ≠ [] → GoodBatch cfg batch → loop.point = .handling batch →
        loop.errors = s.loop.errors → Shaped cfg (s.collected cfg loop) := by
      intro batch hne hgood hpoint herrors
      have heq := collected_handling cfg herrors hpoint
      obtain ⟨hfits, hbusy⟩ := fits_handler hgood hne
      refine ⟨hcollected, fun hnot => ?_, fun _ => ⟨batch, ?_, ?_⟩⟩
      · rw [heq] at hnot
        exact absurd hnot hbusy
      · rw [heq]
        exact hpoint
      · rw [heq]
        exact hfits
    cases hmove with
    | take msg hpoint hpoint' hlog hmarks herrors harrived =>
      have hfree : ∀ batch, loop.point ≠ .handling batch := by simp [hpoint']
      exact hfreed _ (collected_same herrors hfree) rfl rfl hfree
    | skip msg hmsg hopened hfree hlog hmarks herrors harrived =>
      exact hfreed _ (collected_same herrors hfree) rfl rfl hfree
    | fail msg hmsg htype hopened hfree hlog hmarks herrors harrived =>
      exact hfreed _ (collected_failed herrors hfree) rfl rfl hfree
    | enter msg hmsg htype hopened hfree hlog hmarks herrors harrived =>
      exact hfreed _ (collected_same herrors hfree) rfl rfl hfree
    | single msg hmsg hopened hpoint hlog hmarks herrors harrived =>
      exact hhanded [msg] (by simp) (goodBatch_single msg) hpoint herrors
    | close hopened hpoint hlog hmarks herrors harrived =>
      exact hhanded _ hopened (goodPoint_opened h.collected.point hopened) hpoint herrors
  · cases hstep

section Handler

variable {batch : List (Incoming D)} {next : Next D} {x : Choice}

theorem goes_finish (t : Vocoder D) : Goes cfg batch s t.finish := Or.inl ⟨rfl, rfl⟩

theorem goes_continueWith (hempty : next.Empty) (hpoint : t.loop.point = s.loop.point) :
    Goes cfg batch s (t.continueWith next) := by
  rcases hempty with rfl | rfl
  · exact Or.inr ⟨by simp [continueWith], hpoint, fun hnone => absurd rfl hnone⟩
  · exact goes_finish t

theorem failId_loop (h : s.failId id discarded = some s') :
    s'.loop.point = s.loop.point ∧ s'.work = s.work := by
  obtain ⟨loop, hloop, rfl⟩ := Option.map_eq_some_iff.mp h
  exact ⟨(failId_spec hloop).2.1, rfl⟩

theorem recordCompleted_loop (h : s.recordCompleted id discarded = some s') :
    s'.loop = s.loop ∧ s'.work = s.work := by
  obtain ⟨ids, -, rfl⟩ := Option.map_eq_some_iff.mp h
  exact ⟨rfl, rfl⟩

theorem answer_loop {kind : Kind} (h : s.answer id kind discarded = some s') :
    s'.loop = s.loop ∧ s'.work = s.work := by
  unfold answer at h
  split at h
  · cases h
    exact ⟨rfl, rfl⟩
  · exact recordCompleted_loop (s := s.put id kind) h

theorem goes_register (hfit : (Work.register id next).Fits cfg batch) :
    Goes cfg batch s (s.register id next x) := by
  have hgo : ∀ u : Vocoder D, u.loop.point = s.loop.point →
      Goes cfg batch s { u with work := .failing } ∧
      Goes cfg batch s (if id ∈ u.pendingDone then
        { u with pendingDone := dropId u.pendingDone id, work := .flush id next }
        else u.continueWith next) := by
    intro u hu
    refine ⟨Or.inr ⟨by simp, hu, trivial⟩, ?_⟩
    split
    · exact Or.inr ⟨by simp, hu, hfit⟩
    · exact goes_continueWith hfit.2 hu
  unfold register
  simp only
  split
  · refine (hgo _ ?_).1
    split <;> rfl
  · refine (hgo _ ?_).2
    split <;> rfl

theorem goes_handleDone (hfit : (Work.done id : Work D).Fits cfg batch) :
    Goes cfg batch s (s.handleDone id) := by
  unfold handleDone
  split
  · exact Or.inr ⟨by simp, rfl, hfit, Or.inr rfl⟩
  · split
    · exact goes_finish s
    · exact goes_finish _

theorem goes_flush (hfit : (Work.flush id next).Fits cfg batch) :
    Goes cfg batch s (s.flush id next x) := by
  unfold flush
  split
  · simp only
    split
    · exact Or.inr ⟨by simp, rfl, hfit⟩
    · exact Or.inr ⟨by simp, rfl, trivial⟩
  · exact Or.inr ⟨by simp, rfl, hfit⟩

theorem goes_reply {outs : List Kind} {closing : Bool}
    (hfit : (Work.replies id outs closing next).Fits cfg batch) :
    Goes cfg batch s (s.reply id closing next outs) := by
  cases outs with
  | nil =>
    simp only [reply]
    split
    · exact Or.inr ⟨by simp, rfl, hfit⟩
    · exact goes_continueWith hfit.2 rfl
  | cons kind outs =>
    simp only [reply]
    refine Or.inr ⟨by simp, ?_, hfit⟩
    split <;> rfl

theorem goes_chunk (hfit : (Work.chunk id : Work D).Fits cfg batch) :
    Goes cfg batch s (s.chunk id x) := by
  unfold chunk
  split
  · split
    · exact Or.inr ⟨by simp, rfl, trivial⟩
    · split
      · exact Or.inr ⟨by simp, rfl, hfit, Or.inr rfl⟩
      · exact goes_finish _
  · exact goes_finish s

theorem ingest_loop (h : s.ingest id items x = some s') :
    s'.loop.point = s.loop.point ∧ s'.work = .ingest items := by
  unfold ingest at h
  split at h
  · cases h
    exact ⟨rfl, rfl⟩
  · split at h
    · split at h
      · cases h
        exact ⟨rfl, rfl⟩
      · exact failId_loop h
    · cases h
      exact ⟨rfl, rfl⟩

theorem goes_ingest (h : s.ingest id items x = some s') :
    Goes cfg batch s s' := by
  obtain ⟨hpoint, hwork⟩ := ingest_loop h
  exact Or.inr ⟨by simp [hwork], hpoint, by rw [hwork]; trivial⟩

theorem emitDecoded_loop (id : String) (todo waveforms : List String) :
    (s.emitDecoded id todo waveforms).loop.point = s.loop.point ∧
      (s.emitDecoded id todo waveforms).work = .decoded todo waveforms := by
  unfold emitDecoded
  split <;> exact ⟨rfl, rfl⟩

theorem goes_emitDecoded (todo waveforms : List String) :
    Goes cfg batch s (s.emitDecoded id todo waveforms) := by
  unfold emitDecoded
  split <;> exact Or.inr ⟨by simp, rfl, trivial⟩

theorem goes_computeValid (valid : List (Incoming D)) :
    Goes cfg batch s (s.computeValid cfg valid) := by
  unfold computeValid
  split
  · exact goes_finish s
  · split <;> exact Or.inr ⟨by simp, rfl, trivial⟩

theorem goes_classify {todo streaming nonStreaming : List (Incoming D)}
    (hfit : (Work.classify (msg :: todo) streaming nonStreaming).Fits cfg batch)
    (h : s.workStep cfg x = some s')
    (hwork : s.work = .classify (msg :: todo) streaming nonStreaming) :
    Goes cfg batch s s' := by
  obtain ⟨htodo, hstreaming⟩ := hfit
  -- only the first message can be a streaming request
  have hnone : streaming = [] := by
    by_contra hsome
    obtain ⟨_, _, hnil, _⟩ := hstreaming hsome
    cases hnil
  have hrest : ∀ other ∈ todo, cfg.isStreamingPayload other.data ≠ .ok true := by
    intro other hother hflag
    obtain ⟨hlist, -⟩ := htodo other (mem_cons_of_mem _ hother) hflag
    obtain ⟨-, rfl⟩ := List.cons.inj hlist
    cases hother
  simp only [workStep, hwork] at h
  split at h
  · obtain ⟨hpoint, hsame⟩ := failId_loop h
    refine Or.inr ⟨by simp [hsame], hpoint, ?_⟩
    rw [hsame]
    exact ⟨fun other hother hflag => absurd hflag (hrest other hother),
      fun hsome => absurd hnone hsome⟩
  next hflag =>
    cases h
    obtain ⟨hlist, -, rfl, hbatch⟩ := htodo msg mem_cons_self hflag
    obtain ⟨-, rfl⟩ := List.cons.inj hlist
    refine Or.inr ⟨by simp, rfl, fun other hother => (by cases hother), fun _ => ⟨msg, ?_, rfl,
      rfl, hbatch⟩⟩
    rw [hnone, nil_append]
  · cases h
    exact Or.inr ⟨by simp, rfl, fun other hother hflag => absurd hflag (hrest other hother),
      fun hsome => absurd hnone hsome⟩

theorem shaped_workStep (h : Shaped cfg s) (hstep : s.workStep cfg x = some s') :
    Shaped cfg s' := by
  refine h.work hstep fun batch hpoint hfit => ?_
  have hwork := hstep
  unfold workStep at hwork
  split at hwork
  · cases hwork
  next hat => exact goes_classify (hat ▸ hfit) hstep hat
  next streaming nonStreaming hat =>
    cases hwork
    rw [hat] at hfit
    refine Or.inr ⟨by simp, rfl, fun hsome => ?_⟩
    obtain ⟨msg, hmsg, -, hnone, hbatch⟩ := hfit.2 hsome
    exact ⟨msg, hmsg, hnone, hbatch⟩
  next msg todo nonStreaming hat =>
    rw [hat] at hfit
    obtain ⟨first, hlist, rfl, rfl⟩ := hfit (cons_ne_nil _ _)
    obtain ⟨rfl, rfl⟩ := List.cons.inj hlist
    split at hwork
    · cases hwork
      exact Or.inr ⟨by simp, rfl, fun hnone => absurd rfl hnone⟩
    · cases hwork
      exact Or.inr ⟨by simp, rfl, rfl, Or.inl rfl⟩
  · split at hwork
    · cases hwork
      exact goes_finish s
    · cases hwork
      exact Or.inr ⟨by simp, rfl, trivial⟩
  next hat =>
    cases hwork
    rw [hat] at hfit
    exact Or.inr ⟨by simp, rfl, hfit⟩
  next hat =>
    cases hwork
    exact goes_register (hat ▸ hfit)
  next hat =>
    cases hwork
    exact goes_handleDone (hat ▸ hfit)
  next hat =>
    cases hwork
    exact goes_flush (hat ▸ hfit)
  next hat =>
    cases hwork
    exact goes_reply (hat ▸ hfit)
  next hat =>
    cases hwork
    rw [hat] at hfit
    exact goes_continueWith hfit.2 rfl
  next hat =>
    cases hwork
    exact goes_chunk (hat ▸ hfit)
  · split at hwork
    all_goals
      cases hwork
      exact Or.inr ⟨by simp, rfl, trivial⟩
  · split at hwork
    · cases hwork
      exact goes_finish s
    · cases hwork
      exact Or.inr ⟨by simp, rfl, trivial⟩
  · exact goes_ingest hwork
  · cases hwork
    exact Or.inr ⟨by simp, rfl, trivial⟩
  · unfold pump at hwork
    split at hwork
    · split at hwork
      · cases hwork
        exact goes_finish s
      · split at hwork
        all_goals
          cases hwork
          exact Or.inr ⟨by simp, rfl, trivial⟩
    · cases hwork
  · cases hwork
    exact goes_emitDecoded _ _
  · cases hwork
    exact Or.inr ⟨by simp, rfl, trivial⟩
  · obtain ⟨hsame, hat⟩ := failId_loop hwork
    exact Or.inr ⟨by simp [hat], hsame, by rw [hat]; trivial⟩
  · cases hwork
    exact goes_finish s
  · simp only at hwork
    split at hwork
    · cases hwork
      exact goes_finish s
    · cases hwork
      exact Or.inr ⟨by simp, rfl, trivial⟩
  · split at hwork
    · cases hwork
      exact Or.inr ⟨by simp, rfl, trivial⟩
    · obtain ⟨hsame, hat⟩ := recordCompleted_loop hwork
      exact Or.inr ⟨by rw [hat]; simp [put], by rw [hsame]; rfl, by rw [hat]; trivial⟩
  · cases hwork
    exact goes_computeValid _
  · split at hwork
    · cases hwork
      exact Or.inr ⟨by simp, rfl, trivial⟩
    · cases hwork
      refine Or.inr ⟨by simp, rfl, fun entry hentry => ?_⟩
      obtain rfl := mem_singleton.mp hentry
      split <;> simp
  · cases hwork
    exact goes_finish s
  · cases hwork
    refine Or.inr ⟨by simp, rfl, fun entry hentry => ?_⟩
    obtain ⟨msg, -, rfl⟩ := mem_map.mp hentry
    split <;> simp
  next hat =>
    obtain ⟨hsame, hwork'⟩ := answer_loop hwork
    rw [hat] at hfit
    refine Or.inr ⟨by simp [hwork'], by rw [hsame], ?_⟩
    rw [hwork']
    exact fun entry hentry => hfit entry (mem_cons_of_mem _ hentry)
  · cases hwork
    exact Or.inr ⟨by simp, rfl, trivial⟩
  · unfold fail at hwork
    split at hwork
    · obtain ⟨t, -, rfl⟩ := Option.map_eq_some_iff.mp hwork
      exact goes_finish t
    · cases hwork

end Handler

/-- Every step keeps the shape. -/
theorem shaped_step {a : VocoderAction D} (h : Shaped cfg s) (hstep : step cfg s a = some s') :
    Shaped cfg s' := by
  have hsame : ∀ t : Vocoder D, Collected cfg t.loop → t.loop.point = s.loop.point →
      t.work = s.work → Shaped cfg t := by
    intro t hcollected hpoint hwork
    refine ⟨hcollected, fun hidle => ?_, fun hbusy => ?_⟩
    · rw [hpoint]
      exact h.idle (hwork ▸ hidle)
    · rw [hpoint, hwork]
      exact h.busy (hwork ▸ hbusy)
  cases a with
  | put requestId type data =>
    cases hstep
    exact hsame _ (h.collected.step (a := .put requestId type data) rfl) rfl rfl
  | record requestId discarded =>
    simp only [Vocoder.step] at hstep
    split at hstep
    · obtain ⟨loop, hloop, rfl⟩ := Option.map_eq_some_iff.mp hstep
      obtain ⟨-, -, hpoint, -⟩ := record_spec hloop
      have haction : Collector.step cfg s.loop (.abort requestId discarded) = some loop := hloop
      exact hsame _ (h.collected.step haction) hpoint rfl
    · cases hstep
  | clear =>
    simp only [Vocoder.step] at hstep
    split at hstep
    · split at hstep
      · cases hstep
      · cases hstep
        exact hsame _ h.collected rfl rfl
    · cases hstep
  | take => exact shaped_loopTurn .take h hstep
  | check discarded => exact shaped_loopTurn (.check discarded) h hstep
  | pull discarded => exact shaped_loopTurn (.pull discarded) h hstep
  | close => exact shaped_loopTurn .close h hstep
  | work x => exact shaped_workStep h hstep

end Omni.Streaming
