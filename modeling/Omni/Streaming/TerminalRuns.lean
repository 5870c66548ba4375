import Omni.Streaming.Terminal

/-!
# One terminal message in every run

The steps of the handler with a request, by where the request is, and from them what every run of a
vocoder sends for it.
-/

namespace Omni.Streaming

open Transition Simple Collector Vocoder List

variable {D : Type} {cfg : StreamConfig D} {s s' t : Vocoder D} {r id : String} {x : Choice}
  {batch todo nonStreaming valid : List (Incoming D)} {next : Next D} {discarded : List String}
  {outs : List Kind} {a : VocoderAction D} {msg : Incoming D} {work : Work D}

/-- While a batch is handled, the handler has all payloads that are in the scheduler's hands. -/
theorem requests_handling (hpoint : s.loop.point = .handling batch) :
    s.requests = s.work.requests := by
  unfold requests
  rw [hpoint]
  rfl

theorem mem_requests (hpoint : s.loop.point = .handling batch)
    (hsame : t.loop.point = s.loop.point) (hmem : r ∈ t.work.requests) : r ∈ t.requests := by
  rwa [requests_handling (hsame.trans hpoint)]

theorem mem_work_requests (hpoint : s.loop.point = .handling batch) (hmem : r ∈ t.requests)
    (hsame : t.loop.point = s.loop.point) : r ∈ t.work.requests := by
  rwa [requests_handling (hsame.trans hpoint)] at hmem

theorem count_requests (hpoint : s.loop.point = .handling batch)
    (hsame : t.loop.point = s.loop.point) : t.requests.count r = t.work.requests.count r := by
  rw [requests_handling (hsame.trans hpoint)]

theorem not_requested (hpoint : s.loop.point = .handling batch)
    (hsame : t.loop.point = s.loop.point) (hnone : t.work.requests = []) : r ∉ t.requests := by
  rw [requests_handling (hsame.trans hpoint), hnone]
  exact not_mem_nil

theorem requests_finish (t : Vocoder D) : t.finish.requests = [] := rfl

theorem requests_continueWith (hempty : next.Empty) (hpoint : t.loop.point = .handling batch) :
    (t.continueWith next).requests = [] := by
  rcases hempty with rfl | rfl
  · exact requests_handling hpoint
  · exact requests_finish t

/-- After a request's end the handler is not engaged, does not compute and steps no streams. -/
theorem continueWith_free (hempty : next.Empty) : ¬(t.continueWith next).Engaged r ∧
    (t.continueWith next).work.computing = false ∧ (t.continueWith next).work.stepping = [] := by
  rcases hempty with rfl | rfl
  · exact ⟨fun h => h, rfl, rfl⟩
  · exact ⟨fun h => h, rfl, rfl⟩

/-- The entries and the marks after a request's end. -/
structure Continued (t u : Vocoder D) : Prop where
  loop : u.loop.log = t.loop.log ∧ u.loop.arrived = t.loop.arrived ∧ u.loop.aborted = t.loop.aborted
  rest : u.aborting = t.aborting ∧ u.outbox = t.outbox
  entries : u.payloads = t.payloads ∧ u.pendingDone = t.pendingDone ∧ u.states = t.states ∧
    u.emitted = t.emitted
  completed : u.completedStream = t.completedStream ∧
    u.completedNonStreaming = t.completedNonStreaming

theorem continued (t : Vocoder D) (next : Next D) : Continued t (t.continueWith next) := by
  cases next with
  | streams todo nonStreaming => exact ⟨⟨rfl, rfl, rfl⟩, ⟨rfl, rfl⟩, ⟨rfl, rfl, rfl, rfl⟩, rfl, rfl⟩
  | finish => exact ⟨⟨rfl, rfl, rfl⟩, ⟨rfl, rfl⟩, ⟨rfl, rfl, rfl, rfl⟩, rfl, rfl⟩

theorem head_of_fits (hpoint : s.loop.point = .handling batch)
    (hhead : batch.head?.map (·.requestId) = some r) : headOf s.loop.point = some r := by
  rw [hpoint]
  exact hhead

/-- A live request has a stream state, or can get one. -/
theorem Live.hasState (h : Live r s) : s.hasState r = true := by
  simp [Vocoder.hasState, h.marks, h.stream]

theorem Sound.handleDone (h : Sound cfg r s) (hwork : s.work = .done r) (hlive : Live r s)
    (hpayload : 1 ≤ s.pays r → r ∈ s.payloads) (hfins : 1 ≤ s.fins r)
    (hshaped : Shaped cfg (s.handleDone r)) : Sound cfg r (s.handleDone r) := by
  obtain ⟨batch, hpoint, -⟩ := h.shaped.busy (by simp [hwork])
  unfold Vocoder.handleDone at hshaped ⊢
  by_cases hmem : r ∈ s.payloads
  · rw [if_pos hmem] at hshaped ⊢
    exact ⟨hshaped, h.aborting, h.usedPay, h.usedDone, h.emitted,
      fun _ => h.paid (Or.inl hmem), fun _ => hfins,
      by rw [requests_handling (s := { s with work := .flush r .finish }) hpoint]
         exact Nat.zero_le 1,
      Nat.zero_le 1, nofun, .flush .finish { hlive with } rfl (h.paid (Or.inl hmem)) hfins⟩
  · rw [if_neg hmem, if_neg hlive.single] at hshaped ⊢
    have hpays : ¬1 ≤ s.pays r := fun hpays => hmem (hpayload hpays)
    refine ⟨hshaped, h.aborting, h.usedPay, h.usedDone, h.emitted, ?_, fun _ => hfins,
      Nat.zero_le 1, Nat.zero_le 1, nofun,
      .live { hlive with } (fun hengaged => hengaged)
        ⟨fun hpaid => absurd hpaid hpays, fun _ => Or.inl (mem_addId.mpr (Or.inr rfl)),
          fun hpayload => absurd hpayload hmem⟩
        nofun nofun⟩
    rintro (hpayload | hmem | hmem | hmem)
    · exact absurd hpayload hmem
    · exact absurd hmem hlive.stream
    · exact absurd hmem hlive.single
    · cases hmem

theorem Sound.doneAfter (h : Sound cfg r s) (hkinds : OneTerminal (s.kindsOf r))
    (hentries : NoEntries r s) (hsingle : r ∈ s.completedNonStreaming)
    (hshaped : Shaped cfg (s.handleDone r)) : Sound cfg r (s.handleDone r) := by
  unfold Vocoder.handleDone at hshaped ⊢
  rw [if_neg hentries.payload, if_pos hsingle] at hshaped ⊢
  exact h.toEnded hshaped rfl rfl hkinds { hentries with } not_mem_nil not_mem_nil
    (fun hengaged => hengaged) (fun hwhere => h.paid (Or.inr (hwhere.imp_right Or.inl)))
    fun hmem => h.finished (Or.inl hmem)

/-- The log, the messages that have arrived and the request that is being aborted are as before. -/
structure Unmoved (s t : Vocoder D) : Prop where
  log : t.loop.log = s.loop.log
  arrived : t.loop.arrived = s.loop.arrived
  aborting : t.aborting = s.aborting

theorem Unmoved.pays (h : Unmoved s t) : t.pays r = s.pays r := by
  unfold Vocoder.pays
  rw [h.log]

theorem Unmoved.fins (h : Unmoved s t) : t.fins r = s.fins r := by
  unfold Vocoder.fins
  rw [h.log]

theorem Sound.entered (h : Sound cfg r s) : r ∈ s.payloads ∨ r ∈ s.completedStream ∨
    r ∈ s.completedNonStreaming → 1 ≤ s.pays r :=
  fun hwhere => h.paid (hwhere.imp_right (Or.imp_right Or.inl))

/-- What is owed while the payload is not in the scheduler's hands. -/
theorem Owed.settle (h : Owed r s) (hnone : r ∉ s.requests) (hsame : Unmoved s t)
    (hpayloads : t.payloads = s.payloads) (hpending : t.pendingDone = s.pendingDone) :
    Owed r t where
  payload hpays := by
    rw [hpayloads]
    exact Or.inl ((h.payload (hsame.pays ▸ hpays)).resolve_right hnone)
  finished hfins := by
    rw [hpending]
    exact Or.inl ((h.finished (hsame.fins ▸ hfins)).resolve_right fun hmem => hnone hmem.1)
  once := by
    rw [hpayloads, hpending]
    exact h.once

theorem Sound.settle (h : Sound cfg r s) (hshaped : Shaped cfg t) (hsame : Unmoved s t)
    (hpaid : r ∈ t.payloads ∨ r ∈ t.completedStream ∨ r ∈ t.completedNonStreaming → 1 ≤ s.pays r)
    (hemitted : r ∈ t.emitted → r ∈ t.states)
    (hfinished : r ∈ t.completedStream ∨ r ∈ t.pendingDone → 1 ≤ s.fins r)
    (hrequests : r ∉ t.requests) (hstepping : r ∉ t.work.stepping) (hphase : Phase r t) :
    Sound cfg r t where
  shaped := hshaped
  aborting := hsame.aborting ▸ h.aborting
  usedPay := hsame.arrived ▸ h.usedPay
  usedDone := hsame.arrived ▸ h.usedDone
  emitted := hemitted
  paid hwhere := by
    rw [hsame.pays]
    rcases hwhere with hmem | hmem | hmem | hmem
    · exact hpaid (Or.inl hmem)
    · exact hpaid (Or.inr (Or.inl hmem))
    · exact hpaid (Or.inr (Or.inr hmem))
    · exact absurd hmem hrequests
  finished hwhere := hsame.fins ▸ hfinished hwhere
  once := by
    rw [count_eq_zero_of_not_mem hrequests]
    exact Nat.zero_le 1
  stepping := by
    rw [count_eq_zero_of_not_mem hstepping]
    exact Nat.zero_le 1
  states hmem := absurd hmem hstepping
  phase := hphase

theorem Sound.goesLive (h : Sound cfg r s) (hlive : Live r t) (howed : Owed r s)
    (hnone : r ∉ s.requests) (hshaped : Shaped cfg t) (hsame : Unmoved s t)
    (hpayloads : t.payloads = s.payloads) (hpending : t.pendingDone = s.pendingDone)
    (hemitted : r ∈ t.emitted → r ∈ t.states) (hrequests : r ∉ t.requests)
    (hstepping : r ∉ t.work.stepping) (hfree : ¬t.Engaged r) : Sound cfg r t := by
  refine h.settle hshaped hsame ?_ hemitted ?_ hrequests hstepping (.live hlive hfree
    (howed.settle hnone hsame hpayloads hpending) (fun hmem => absurd hmem hrequests)
    fun hmem => absurd hmem hrequests)
  · rintro (hpayload | hstream | hsingle)
    · exact h.entered (Or.inl (hpayloads ▸ hpayload))
    · exact absurd hstream hlive.stream
    · exact absurd hsingle hlive.single
  · rintro (hstream | hmem)
    · exact absurd hstream hlive.stream
    · exact h.finished (Or.inr (hpending ▸ hmem))

/-- `on_stream_done`. -/
theorem Sound.flush (h : Sound cfg r s) (hlive : Live r s) (hwork : s.work = .flush r next)
    (hpays : 1 ≤ s.pays r) (hfins : 1 ≤ s.fins r) (hshaped : Shaped cfg (s.flush r next x)) :
    Sound cfg r (s.flush r next x) := by
  obtain ⟨batch, hpoint, hfit⟩ := h.shaped.busy (by simp [hwork])
  rw [hwork] at hfit
  have hemitted : r ∈ (if x.waveform then addId s.emitted r else s.emitted) →
      r ∈ addId s.states r := fun _ => mem_addId.mpr (Or.inr rfl)
  unfold Vocoder.flush at hshaped ⊢
  rw [if_pos hlive.hasState] at hshaped ⊢
  by_cases hok : x.ok = true
  · rw [if_pos hok] at hshaped ⊢
    refine h.settle hshaped ⟨rfl, rfl, rfl⟩ (fun _ => hpays) hemitted (fun _ => hfins)
      (not_requested hpoint rfl rfl) not_mem_nil (.closing _ next hlive.marks rfl ?_ hpays hfins)
    obtain ⟨n, hn⟩ := hlive.kinds
    have hkinds : s.kindsOf r ++ (if x.waveform then [Kind.stream, .result] else [.result]) =
        List.replicate (if x.waveform then n + 1 else n) .stream ++ [.result] := by
      rw [hn]
      split
      · rw [replicate_succ', append_assoc]
        rfl
      · rfl
    exact ⟨_, .result, by simp, hkinds⟩
  · rw [if_neg hok] at hshaped ⊢
    exact h.settle hshaped ⟨rfl, rfl, rfl⟩ (fun _ => hpays) hemitted
      (fun hwhere => h.finished hwhere) (not_requested hpoint rfl rfl) not_mem_nil
      (.failing { hlive with } rfl (head_of_fits hpoint hfit.1))

/-- The exception handler of `start` fails the request. -/
theorem Sound.fail (h : Sound cfg r s) (hlive : Live r s) (hhead : headOf s.loop.point = some r)
    (hstep : s.fail discarded = some s') (hshaped : Shaped cfg s') : Sound cfg r s' := by
  unfold Vocoder.fail at hstep
  split at hstep
  next msg rest hpoint =>
    obtain rfl : msg.requestId = r := by
      rw [hpoint] at hhead
      exact Option.some.inj hhead
    obtain ⟨t, hfail, rfl⟩ := Option.map_eq_some_iff.mp hstep
    have hf := failed_of_failId hfail
    have hf' : Failed msg.requestId s t.finish := { hf with entries := ⟨hf.entries.payload,
      hf.entries.pendingDone, hf.entries.state, hf.entries.emitted⟩ }
    exact h.failed hlive hshaped hf' not_mem_nil not_mem_nil fun hengaged => hengaged
  · cases hstep

/-- The stream messages of a chunk. -/
theorem Sound.streaming (h : Sound cfg r s) (hlive : Live r s)
    (hwork : s.work = .replies r outs false .finish) (houts : ∀ kind ∈ outs, kind = .stream)
    (howed : Owed r s) (hshaped : Shaped cfg (s.reply r false .finish outs)) :
    Sound cfg r (s.reply r false .finish outs) := by
  obtain ⟨batch, hpoint, -⟩ := h.shaped.busy (by simp [hwork])
  have hnone : r ∉ s.requests := not_requested hpoint rfl (by rw [hwork]; rfl)
  cases outs with
  | cons kind outs =>
    simp only [reply] at hshaped ⊢
    rw [if_neg hlive.marks] at hshaped ⊢
    have hkind : kind = .stream := houts kind mem_cons_self
    have hkinds : ∃ n, (s.put r kind).kindsOf r = List.replicate n .stream := by
      obtain ⟨n, hn⟩ := hlive.kinds
      exact ⟨n + 1, by rw [kindsOf_put_self, hn, hkind, replicate_succ']⟩
    exact h.settle hshaped ⟨rfl, rfl, rfl⟩ h.entered h.emitted h.finished
      (not_requested hpoint rfl rfl) not_mem_nil
      (.streaming outs { hlive with kinds := hkinds } rfl
        (fun other hother => houts other (mem_cons_of_mem _ hother))
        (howed.settle hnone ⟨rfl, rfl, rfl⟩ rfl rfl))
  | nil =>
    simp only [reply, Bool.false_eq_true, false_and, if_false] at hshaped ⊢
    exact h.goesLive { hlive with } howed hnone hshaped ⟨rfl, rfl, rfl⟩ rfl rfl h.emitted
      not_mem_nil not_mem_nil fun hengaged => hengaged

/-- The messages of `on_stream_done`. -/
theorem Sound.closing (h : Sound cfg r s) (hmarks : r ∉ s.marks)
    (hwork : s.work = .replies r outs true next) (hkinds : OneTerminal (s.kindsOf r ++ outs))
    (hpays : 1 ≤ s.pays r) (hfins : 1 ≤ s.fins r)
    (hshaped : Shaped cfg (s.reply r true next outs)) :
    Sound cfg r (s.reply r true next outs) := by
  obtain ⟨batch, hpoint, -⟩ := h.shaped.busy (by simp [hwork])
  cases outs with
  | cons kind outs =>
    simp only [reply] at hshaped ⊢
    rw [if_neg hmarks] at hshaped ⊢
    refine h.settle hshaped ⟨rfl, rfl, rfl⟩ (fun _ => hpays) h.emitted h.finished (not_requested
      hpoint rfl rfl)
      not_mem_nil (.closing outs next hmarks rfl ?_ hpays hfins)
    change OneTerminal ((s.put r kind).kindsOf r ++ outs)
    rw [kindsOf_put_self, append_assoc]
    exact hkinds
  | nil =>
    simp only [reply] at hshaped ⊢
    rw [if_pos ⟨trivial, hmarks⟩] at hshaped ⊢
    rw [append_nil] at hkinds
    exact h.settle hshaped ⟨rfl, rfl, rfl⟩ (fun _ => hpays) h.emitted h.finished (not_requested
      hpoint rfl rfl)
      not_mem_nil (.closed next rfl hkinds hpays hfins)

theorem Sound.closed (h : Sound cfg r s) (hwork : s.work = .closed r next)
    (hkinds : OneTerminal (s.kindsOf r)) (hpays : 1 ≤ s.pays r) (hfins : 1 ≤ s.fins r)
    (hshaped : Shaped cfg (((s.clearState r).removeMark r).continueWith next)) :
    Sound cfg r (((s.clearState r).removeMark r).continueWith next) := by
  obtain ⟨batch, hpoint, hfit⟩ := h.shaped.busy (by simp [hwork])
  rw [hwork] at hfit
  obtain ⟨hfree, -, hstepping⟩ :=
    continueWith_free (t := (s.clearState r).removeMark r) (r := r) hfit.2
  have hc := continued ((s.clearState r).removeMark r) next
  have hentries := noEntries_clearState r s
  have hsame : Unmoved s (((s.clearState r).removeMark r).continueWith next) :=
    ⟨hc.loop.1, hc.loop.2.1, hc.rest.1⟩
  refine h.toEnded hshaped hsame.arrived hsame.aborting ?_ ?_ ?_ ?_ hfree ?_ ?_
  · have houtbox : (((s.clearState r).removeMark r).continueWith next).kindsOf r =
        s.kindsOf r := by
      unfold kindsOf outboxOf
      rw [hc.rest.2]
      rfl
    rw [houtbox]
    exact hkinds
  · refine ⟨?_, ?_, ?_, ?_⟩
    · rw [hc.entries.1]
      exact hentries.payload
    · rw [hc.entries.2.1]
      exact hentries.pendingDone
    · rw [hc.entries.2.2.1]
      exact hentries.state
    · rw [hc.entries.2.2.2]
      exact hentries.emitted
  · rw [requests_continueWith (t := (s.clearState r).removeMark r) hfit.2 hpoint]
    exact not_mem_nil
  · rw [hstepping]
    exact not_mem_nil
  · exact fun _ => hsame.pays ▸ hpays
  · exact fun _ => hsame.fins ▸ hfins

theorem Sound.engaged (h : Sound cfg r s) (hengaged : s.Engaged r)
    (hstep : s.workStep cfg x = some s') : Sound cfg r s' := by
  have hshaped := shaped_workStep h.shaped hstep
  cases h.phase with
  | live hlive hfree howed hcomputing hfresh => exact absurd hengaged hfree
  | done hlive hwork hpayload hfins =>
    simp only [workStep, hwork] at hstep
    cases hstep
    exact h.handleDone hwork hlive hpayload hfins hshaped
  | flush next hlive hwork hpays hfins =>
    simp only [workStep, hwork] at hstep
    cases hstep
    exact h.flush hlive hwork hpays hfins hshaped
  | failing hlive hwork hhead =>
    simp only [workStep, hwork] at hstep
    exact h.fail hlive hhead hstep hshaped
  | streaming outs hlive hwork houts howed =>
    simp only [workStep, hwork] at hstep
    cases hstep
    exact h.streaming hlive hwork houts howed hshaped
  | closing outs next hmarks hwork hkinds hpays hfins =>
    simp only [workStep, hwork] at hstep
    cases hstep
    exact h.closing hmarks hwork hkinds hpays hfins hshaped
  | closed next hwork hkinds hpays hfins =>
    simp only [workStep, hwork] at hstep
    cases hstep
    exact h.closed hwork hkinds hpays hfins hshaped
  | ended hkinds hentries hrequests hwork =>
    rcases hwork with hfree | ⟨hwork, hsingle⟩
    · exact absurd hengaged hfree
    · simp only [workStep, hwork] at hstep
      cases hstep
      exact h.doneAfter hkinds hentries hsingle hshaped

theorem Sound.requested (h : Sound cfg r s) (hfree : ¬s.Engaged r) (hmem : r ∈ s.requests) :
    Live r s ∧ Owed r s ∧ (s.work.computing = true → NoEntries r s) ∧ r ∉ s.payloads := by
  rcases h.free hfree with ⟨hlive, howed, hcomputing, hfresh⟩ | ⟨-, -, hnone⟩
  · exact ⟨hlive, howed, hcomputing hmem, hfresh hmem⟩
  · exact absurd hmem hnone

/-- A request with a stream state is live. -/
theorem Sound.stated (h : Sound cfg r s) (hfree : ¬s.Engaged r) (hmem : r ∈ s.states) :
    Live r s ∧ Owed r s := by
  rcases h.free hfree with ⟨hlive, howed, -, -⟩ | ⟨-, hentries, -⟩
  · exact ⟨hlive, howed⟩
  · exact absurd hmem hentries.state

/-- `_handle_streaming_new_request`. -/
theorem Sound.register (h : Sound cfg r s) (hwork : s.work = .register r next)
    (hshaped : Shaped cfg (s.register r next x)) : Sound cfg r (s.register r next x) := by
  obtain ⟨batch, hpoint, hfit⟩ := h.shaped.busy (by simp [hwork])
  rw [hwork] at hfit
  have hfree : ¬s.Engaged r := by simp [Engaged, hwork]
  have hmem : r ∈ s.requests := by
    rw [requests_handling hpoint, hwork]
    exact mem_singleton_self r
  obtain ⟨hlive, howed, -, -⟩ := h.requested hfree hmem
  have hpays := h.paid (Or.inr (Or.inr (Or.inr hmem)))
  have hstate : ({ s with
      completedNonStreaming := dropId s.completedNonStreaming r
      payloads := addId s.payloads r
      completedStream := dropId s.completedStream r } : Vocoder D).hasState r = true := by
    simp [hasState, not_mem_dropId]
    exact Or.inr hlive.marks
  have hlive' : ∀ u : Vocoder D, u.loop.aborted = s.loop.aborted → u.outbox = s.outbox →
      u.completedStream = dropId s.completedStream r →
      u.completedNonStreaming = dropId s.completedNonStreaming r → Live r u := by
    intro u hmarks houtbox hstream hsingle
    refine ⟨fun hmark => hlive.marks ?_, ?_, ?_, ?_⟩
    · exact (hmarks ▸ hmark : r ∈ s.loop.aborted)
    · rw [hstream]
      exact not_mem_dropId
    · rw [hsingle]
      exact not_mem_dropId
    · unfold kindsOf outboxOf
      rw [houtbox]
      exact hlive.kinds
  unfold Vocoder.register at hshaped ⊢
  simp only [hstate, if_true, true_and] at hshaped ⊢
  by_cases hok : x.ok = false
  · rw [if_pos hok] at hshaped ⊢
    refine h.settle hshaped ⟨rfl, rfl, rfl⟩ (fun _ => hpays) (fun _ => mem_addId.mpr (Or.inr rfl))
      ?_
      (not_requested hpoint rfl rfl) not_mem_nil
      (.failing (hlive' _ rfl rfl rfl rfl) rfl (head_of_fits hpoint hfit.1))
    exact fun hwhere => h.finished (hwhere.imp_left fun hdrop => absurd hdrop not_mem_dropId)
  · rw [if_neg hok] at hshaped ⊢
    by_cases hpending : r ∈ s.pendingDone
    · rw [if_pos hpending] at hshaped ⊢
      have hfins := h.finished (Or.inr hpending)
      exact h.settle hshaped ⟨rfl, rfl, rfl⟩ (fun _ => hpays) (fun _ => mem_addId.mpr (Or.inr rfl))
        (fun _ => hfins) (not_requested hpoint rfl rfl) not_mem_nil
        (.flush next (hlive' _ rfl rfl rfl rfl) rfl hpays hfins)
    · rw [if_neg hpending] at hshaped ⊢
      generalize hu : ({ s with
        completedNonStreaming := dropId s.completedNonStreaming r
        payloads := addId s.payloads r
        completedStream := dropId s.completedStream r
        states := addId s.states r } : Vocoder D) = u at hshaped ⊢
      have hc := continued u next
      obtain ⟨hfree', -, hstepping⟩ := continueWith_free (t := u) (r := r) hfit.2
      have hpoint' : u.loop.point = .handling batch := hu ▸ hpoint
      have hnone := requests_continueWith hfit.2 hpoint'
      have hfins : ¬1 ≤ s.fins r := by
        intro hfins
        rcases howed.finished hfins with hmem | ⟨-, hflag⟩
        · exact hpending hmem
        · rw [hwork] at hflag
          cases hflag
      have hsame : Unmoved s (u.continueWith next) := by
        subst hu
        exact ⟨hc.loop.1, hc.loop.2.1, hc.rest.1⟩
      refine h.settle hshaped hsame (fun _ => hpays) ?_ ?_ ?_ ?_ (.live ?_ hfree' ⟨?_, ?_, ?_⟩ ?_
        ?_)
      · rw [hc.entries.2.2.1, ← hu]
        exact fun _ => mem_addId.mpr (Or.inr rfl)
      · rw [hc.completed.1, hc.entries.2.1, ← hu]
        exact fun hwhere => h.finished (hwhere.imp_left fun hdrop => absurd hdrop not_mem_dropId)
      · rw [hnone]
        exact not_mem_nil
      · rw [hstepping]
        exact not_mem_nil
      · exact hlive' _ (hc.loop.2.2.trans (by rw [← hu])) (hc.rest.2.trans (by rw [← hu]))
          (hc.completed.1.trans (by rw [← hu])) (hc.completed.2.trans (by rw [← hu]))
      · rw [hc.entries.1, ← hu]
        exact fun _ => Or.inl (mem_addId.mpr (Or.inr rfl))
      · exact fun hdone => absurd (hsame.fins ▸ hdone) hfins
      · rw [hc.entries.2.1, ← hu]
        exact fun _ => hpending
      · rw [hnone]
        exact fun h => by cases h
      · rw [hnone]
        exact fun h => by cases h

theorem Sound.failsAt {u : Vocoder D} (h : Sound cfg r s) (hfail : u.failId r discarded = some s')
    (hlive : Live r u) (hsame : Unmoved s u) (hshaped : Shaped cfg s')
    (hpoint : s.loop.point = .handling batch) (hat : u.loop.point = s.loop.point)
    (hrequests : r ∉ u.work.requests) (hstepping : r ∉ u.work.stepping)
    (hfree : ¬({ s' with work := u.work } : Vocoder D).Engaged r) :
    Sound cfg r s' := by
  obtain ⟨hkept, hwork⟩ := failId_loop hfail
  have hf := failed_of_failId hfail
  refine h.toEnded hshaped (hf.arrived.trans hsame.arrived) (hf.aborting.trans hsame.aborting) ?_
    hf.entries ?_ ?_ ?_ ?_ ?_
  · rw [hf.kinds]
    exact hlive.oneTerminal (by simp)
  · rw [requests_handling (hkept.trans (hat.trans hpoint)), hwork]
    exact hrequests
  · rw [hwork]
    exact hstepping
  · rwa [← hwork] at hfree
  · rintro (hmem | hmem)
    · exact absurd (hf.completedStream ▸ hmem) hlive.stream
    · exact absurd (hf.completedNonStreaming ▸ hmem) hlive.single
  · exact fun hmem => absurd (hf.completedStream ▸ hmem) hlive.stream

/-- A chunk of a request that has ended is dropped. -/
theorem hasState_ended (hok : Orderly r s a) (hkinds : OneTerminal (s.kindsOf r))
    (hentries : NoEntries r s) (hawaits : r ∈ s.work.mentions)
    (hafter : r ∉ s.completedNonStreaming) : s.hasState r = false := by
  rcases hok.remembers (OneTerminal.ended hkinds) (Or.inr hawaits) with hmark | hstream | hsingle
  · exact hasState_false hentries hmark
  · simp [hasState, hentries.state, hstream]
  · exact absurd hsingle hafter

theorem Sound.chunk (h : Sound cfg r s) (hok : Orderly r s a) (hafter : r ∉ s.completedNonStreaming)
    (hwork : s.work = .chunk r) (hshaped : Shaped cfg (s.chunk r x)) :
    Sound cfg r (s.chunk r x) := by
  obtain ⟨batch, hpoint, hfit⟩ := h.shaped.busy (by simp [hwork])
  rw [hwork] at hfit
  have hfree : ¬s.Engaged r := by simp [Engaged, hwork]
  have hnone : r ∉ s.requests := not_requested hpoint rfl (by rw [hwork]; rfl)
  have hstate : r ∈ addId s.states r := mem_addId.mpr (Or.inr rfl)
  rcases h.free hfree with ⟨hlive, howed, -, -⟩ | ⟨hkinds, hentries, -⟩
  · unfold Vocoder.chunk at hshaped ⊢
    rw [if_pos hlive.hasState] at hshaped ⊢
    by_cases hok : x.ok = false
    · rw [if_pos hok] at hshaped ⊢
      exact h.settle hshaped ⟨rfl, rfl, rfl⟩ h.entered (fun _ => hstate) h.finished
        (not_requested hpoint rfl rfl) not_mem_nil
        (.failing { hlive with } rfl (head_of_fits hpoint hfit))
    · rw [if_neg hok] at hshaped ⊢
      by_cases hwaveform : x.waveform = true
      · rw [if_pos hwaveform] at hshaped ⊢
        exact h.settle hshaped ⟨rfl, rfl, rfl⟩ h.entered (fun _ => hstate) h.finished
          (not_requested hpoint rfl rfl) not_mem_nil
          (.streaming [.stream] { hlive with } rfl
            (by simp) (howed.settle hnone ⟨rfl, rfl, rfl⟩ rfl rfl))
      · rw [if_neg hwaveform] at hshaped ⊢
        exact h.goesLive { hlive with } howed hnone hshaped ⟨rfl, rfl, rfl⟩ rfl rfl
          (fun _ => hstate) not_mem_nil not_mem_nil fun hengaged => hengaged
  · have hdrop := hasState_ended hok hkinds hentries (by simp [hwork, Work.mentions]) hafter
    unfold Vocoder.chunk at hshaped ⊢
    simp only [hdrop, Bool.false_eq_true, if_false] at hshaped ⊢
    exact h.toEnded hshaped rfl rfl hkinds
      { hentries with } not_mem_nil
      not_mem_nil (fun hengaged => hengaged) (fun hwhere => h.entered (Or.inr hwhere))
      fun hmem => h.finished (Or.inl hmem)

/-- What the handler can do next once it is at a streaming request. -/
def Work.About (id : String) : Work D → Prop
  | .idle | .failing => True
  | .streams todo nonStreaming => todo = [] ∧ nonStreaming = []
  | .flush other _ | .replies other _ _ _ | .closed other _ => other = id
  | _ => False

theorem about_continueWith (hempty : next.Empty) : (t.continueWith next).work.About id := by
  rcases hempty with rfl | rfl
  · exact ⟨rfl, rfl⟩
  · trivial

theorem about_register (hempty : next.Empty) : (s.register id next x).work.About id := by
  have hgo : ∀ u : Vocoder D, (if id ∈ u.pendingDone then
      { u with pendingDone := dropId u.pendingDone id, work := .flush id next }
      else u.continueWith next).work.About id := by
    intro u
    split
    · exact rfl
    · exact about_continueWith hempty
  unfold register
  simp only
  split
  · trivial
  · exact hgo _

theorem about_handleDone : (s.handleDone id).work.About id := by
  unfold handleDone
  split
  · exact rfl
  · split <;> trivial

theorem about_flush : (s.flush id next x).work.About id := by
  unfold flush
  split
  · simp only
    split
    · exact rfl
    · trivial
  · exact rfl

theorem about_reply {closing : Bool} (hempty : next.Empty) :
    (s.reply id closing next outs).work.About id := by
  cases outs with
  | nil =>
    simp only [reply]
    split
    · exact rfl
    · exact about_continueWith hempty
  | cons kind outs => exact rfl

theorem about_chunk : (s.chunk id x).work.About id := by
  unfold chunk
  split
  · split
    · trivial
    · split
      · exact rfl
      · trivial
  · trivial

section Unengaged

variable (h : Sound cfg r s) (hfree : ¬s.Engaged r) (hpoint : s.loop.point = .handling batch)
  {before after : Work D}

include h hfree hpoint

/-- A step with another streaming request. -/
theorem Sound.about (hne : r ≠ id) (hhead : batch.head?.map (·.requestId) = some id)
    (hnone : r ∉ s.work.requests) (hgoes : Goes cfg batch s t) (hshaped : Shaped cfg t)
    (ha : Apart r s t) (habout : t.work.About id) : Sound cfg r t := by
  have hzero : s.requests.count r = 0 := by
    rw [requests_handling hpoint]
    exact count_eq_zero.mpr hnone
  have hlist : t.work.requests = [] ∧ t.work.stepping = [] := by
    generalize t.work = work at habout
    cases work with
    | idle => exact ⟨rfl, rfl⟩
    | failing => exact ⟨rfl, rfl⟩
    | streams todo nonStreaming =>
      obtain ⟨rfl, rfl⟩ := habout
      exact ⟨rfl, rfl⟩
    | flush other next => exact ⟨rfl, rfl⟩
    | replies other outs closing next => exact ⟨rfl, rfl⟩
    | closed other next => exact ⟨rfl, rfl⟩
    | _ => cases habout
  have hrequests : t.requests = [] := by
    unfold requests
    rw [hlist.1]
    rcases hgoes with ⟨-, hidle⟩ | ⟨-, hsame, -⟩
    · rw [hidle]
      rfl
    · rw [hsame, hpoint]
      rfl
  refine h.apart hshaped ha ?_ (fun hmem => ?_) ?_ hfree ?_
  · rw [hrequests, hzero]
    rfl
  · rw [requests_handling hpoint] at hmem
    exact absurd hmem hnone
  · rw [hlist.2]
    exact Nat.zero_le _
  · intro hengaged
    unfold Engaged at hengaged
    split at hengaged
    next hat =>
      rw [hat] at habout
      exact hne (hengaged.symm.trans habout)
    next hat =>
      rw [hat] at habout
      exact hne (hengaged.symm.trans habout)
    next hat =>
      rw [hat] at habout
      exact hne (hengaged.symm.trans habout)
    next hat =>
      rw [hat] at habout
      exact habout
    next hat =>
      rcases hgoes with ⟨hidle, -⟩ | ⟨-, hsame, -⟩
      · rw [hat] at hidle
        cases hidle
      · rw [hsame, hpoint] at hengaged
        exact hne (Option.some.inj (hengaged.symm.trans hhead))
    · exact hengaged

/-- The handler goes on with its batch, and nothing changes for the request. -/
theorem Sound.goesOn (hshaped : Shaped cfg t) (ha : Apart r s t)
    (hsame : t.loop.point = s.loop.point) (hwork : s.work = before) (hat : t.work = after)
    (hcount : after.requests.count r = before.requests.count r)
    (hcomputing : r ∈ before.requests → after.computing = before.computing)
    (hstepping : after.stepping.count r ≤ before.stepping.count r)
    (hfree' : ¬({ t with work := after } : Vocoder D).Engaged r) : Sound cfg r t := by
  subst hwork hat
  refine h.apart hshaped ha ?_ (fun hmem => ?_) hstepping hfree hfree'
  · rw [requests_handling hpoint, requests_handling (hsame.trans hpoint)]
    exact hcount
  · rw [requests_handling hpoint] at hmem
    exact hcomputing hmem

/-- The handler goes on without a change of anything else. -/
theorem Sound.passes (hshaped : Shaped cfg { s with work := work }) (hwork : s.work = before)
    (hcount : work.requests.count r = before.requests.count r)
    (hcomputing : work.computing = before.computing) (hstepping : work.stepping = [])
    (hfree' : ¬({ s with work := work } : Vocoder D).Engaged r) :
    Sound cfg r { s with work := work } := by
  refine h.goesOn hfree hpoint hshaped ((Apart.refl s r).withWork _) rfl hwork rfl hcount
    (fun _ => hcomputing) ?_ hfree'
  rw [hstepping]
  exact Nat.zero_le _

/-- The handler ends. -/
theorem Sound.finishes (hshaped : Shaped cfg t.finish) (ha : Apart r s t)
    (hnone : r ∉ s.work.requests) : Sound cfg r t.finish := by
  refine h.apart hshaped ha.finish ?_ (fun hmem => ?_) (Nat.zero_le _) hfree fun hengaged =>
    hengaged
  · rw [requests_handling hpoint, count_eq_zero.mpr hnone]
    rfl
  · rw [requests_handling hpoint] at hmem
    exact absurd hmem hnone

/-- A request whose payload is before the handler is not marked. -/
theorem Sound.unmarked (hmem : id ∈ s.work.requests) (hmark : id ∈ s.marks) : id ≠ r := by
  rintro rfl
  exact (h.requested hfree (mem_requests hpoint rfl hmem)).1.marks hmark

omit hfree in
/-- The handler has one payload of the request before it. -/
theorem Sound.first {rest : List String} (hrequests : s.work.requests = r :: rest) :
    r ∈ s.requests ∧ r ∉ rest := by
  have honce := h.once
  rw [requests_handling hpoint, hrequests, count_cons_self] at honce
  refine ⟨mem_requests hpoint rfl ?_, count_eq_zero.mp (by omega)⟩
  rw [hrequests]
  exact mem_cons_self

omit hpoint in
/-- A participant of a shared step is live, and takes part once. -/
theorem Sound.participant {todo : List String} (hsteps : s.work.stepping = r :: todo) :
    r ∈ s.states ∧ r ∉ todo ∧ Live r s ∧ Owed r s := by
  have hstate : r ∈ s.states := h.states (by rw [hsteps]; exact mem_cons_self)
  have honce := h.stepping
  rw [hsteps, count_cons_self] at honce
  exact ⟨hstate, count_eq_zero.mp (by omega), h.stated hfree hstate⟩

theorem Sound.ingest {items : List String} (hok : Orderly r s a)
    (hafter : r ∉ s.completedNonStreaming) (hwork : s.work = .ingest (r :: items))
    (hstep : s.ingest r items x = some s') (hshaped : Shaped cfg s') : Sound cfg r s' := by
  have hnone : r ∉ s.requests := not_requested hpoint rfl (by rw [hwork]; rfl)
  have hskip : ({ s with work := .ingest items } : Vocoder D) = s' → Sound cfg r s' := by
    rintro rfl
    exact h.passes hfree hpoint hshaped hwork rfl rfl rfl fun hengaged => hengaged
  unfold Vocoder.ingest at hstep
  split at hstep
  · exact hskip (Option.some.inj hstep)
  · split at hstep
    next hstate =>
      rcases h.free hfree with ⟨hlive, howed, -, -⟩ | ⟨hkinds, hentries, -⟩
      · simp only at hstep
        split at hstep
        · cases hstep
          exact h.goesLive { hlive with } howed hnone hshaped ⟨rfl, rfl, rfl⟩ rfl rfl
            (fun _ => mem_addId.mpr (Or.inr rfl)) (not_requested hpoint rfl rfl) not_mem_nil
            fun hengaged => hengaged
        · exact h.failsAt hstep { hlive with }
            ⟨rfl, rfl, rfl⟩ hshaped hpoint rfl not_mem_nil not_mem_nil
            fun hengaged => hengaged
      · have hdrop := hasState_ended hok hkinds hentries (by simp [hwork, Work.mentions]) hafter
        rw [hdrop] at hstate
        cases hstate
    · exact hskip (Option.some.inj hstep)

/-- A participant of a step. -/
theorem Sound.emitDecoded {todo waveforms : List String}
    (hwork : s.work = .decoded (r :: todo) waveforms)
    (hshaped : Shaped cfg (s.emitDecoded r todo waveforms)) :
    Sound cfg r (s.emitDecoded r todo waveforms) := by
  have hnone : r ∉ s.requests := not_requested hpoint rfl (by rw [hwork]; rfl)
  obtain ⟨hstate, hlast, hlive, howed⟩ := h.participant hfree (by rw [hwork]; rfl)
  unfold Vocoder.emitDecoded at hshaped ⊢
  by_cases hwaveform : r ∈ waveforms ∧ r ∉ s.marks
  · rw [if_pos hwaveform] at hshaped ⊢
    have hkinds : ∃ n, (s.put r .stream).kindsOf r = List.replicate n .stream := by
      obtain ⟨n, hn⟩ := hlive.kinds
      exact ⟨n + 1, by rw [kindsOf_put_self, hn, replicate_succ']⟩
    exact h.goesLive { hlive with kinds := hkinds } howed hnone hshaped
      ⟨rfl, rfl, rfl⟩ rfl rfl (fun _ => hstate) (not_requested hpoint rfl rfl) hlast
      fun hengaged => hengaged
  · rw [if_neg hwaveform] at hshaped ⊢
    exact h.goesLive { hlive with } howed hnone hshaped ⟨rfl, rfl, rfl⟩ rfl rfl h.emitted
      (not_requested hpoint rfl rfl) hlast fun hengaged => hengaged

theorem Sound.stepFailed {todo : List String} (hwork : s.work = .stepFailed (r :: todo))
    (hstep : ({ s with work := .stepFailed todo } : Vocoder D).failId r discarded = some s')
    (hshaped : Shaped cfg s') : Sound cfg r s' := by
  obtain ⟨-, hlast, hlive, -⟩ := h.participant hfree (by rw [hwork]; rfl)
  exact h.failsAt hstep { hlive with } ⟨rfl, rfl, rfl⟩
    hshaped hpoint rfl not_mem_nil hlast fun hengaged => hengaged

theorem Sound.classifyFailed {streaming : List (Incoming D)}
    (hwork : s.work = .classify (msg :: todo) streaming nonStreaming) (hid : msg.requestId = r)
    (hstep : ({ s with work := .classify todo streaming nonStreaming } : Vocoder D).failId r
      discarded = some s') (hshaped : Shaped cfg s') : Sound cfg r s' := by
  obtain ⟨hmem, hlast⟩ : r ∈ s.requests ∧ r ∉ (Work.classify todo streaming nonStreaming).requests
    :=
    h.first hpoint (by rw [hwork, ← hid]; rfl)
  obtain ⟨hlive, -⟩ := h.requested hfree hmem
  exact h.failsAt hstep { hlive with } ⟨rfl, rfl, rfl⟩
    hshaped hpoint rfl hlast not_mem_nil fun hengaged => hengaged

theorem Sound.replied {kind : Kind} (hmem : r ∈ s.requests)
    (hcomputing : s.work.computing = true) (hkind : kind ≠ .stream)
    (hstep : (({ s with work := work } : Vocoder D).put r kind).recordCompleted r discarded =
      some s') (hrequests : r ∉ work.requests) (hstepping : r ∉ work.stepping)
    (hfree' : ¬({ s' with work := work } : Vocoder D).Engaged r) (hshaped : Shaped cfg s') :
    Sound cfg r s' := by
  obtain ⟨hlive, -, hentries, -⟩ := h.requested hfree hmem
  have hentries := hentries hcomputing
  have hpays := h.paid (Or.inr (Or.inr (Or.inr hmem)))
  obtain ⟨ids, hids, rfl⟩ := Option.map_eq_some_iff.mp hstep
  refine h.toEnded hshaped rfl rfl ?_
    { hentries with } ?_ hstepping hfree'
    (fun _ => hpays) fun hstream => absurd hstream hlive.stream
  · change OneTerminal ((({ s with work := work } : Vocoder D).put r kind).kindsOf r)
    rw [kindsOf_put_self]
    exact hlive.oneTerminal hkind
  · exact fun hasked => hrequests (mem_work_requests hpoint hasked rfl)

variable (hshaped : Shaped cfg s') (hstep : s.workStep cfg x = some s')

include hshaped hstep

/-- `_run_non_streaming_batch` begins. -/
theorem Sound.activate {msgs : List (Incoming D)} (hwork : s.work = .active msgs)
    (hbefore : r ∈ msgs.map (·.requestId) → r ∉ s.states) : Sound cfg r s' := by
  have hrequests : s.requests = msgs.map (·.requestId) := by
    rw [requests_handling hpoint, hwork]
    rfl
  simp only [workStep, hwork] at hstep
  by_cases hmem : r ∈ s.requests
  · obtain ⟨hlive, howed, -, hfresh⟩ := h.requested hfree hmem
    have hstate := hbefore (hrequests ▸ hmem)
    have hactive : r ∈ (msgs.filter (·.requestId ∉ s.marks)).map (·.requestId) := by
      rw [hrequests] at hmem
      obtain ⟨msg, hmsg, hid⟩ := mem_map.mp hmem
      refine mem_map.mpr ⟨msg, mem_filter.mpr ⟨hmsg, ?_⟩, hid⟩
      rw [hid]
      exact decide_eq_true hlive.marks
    have honce : ((msgs.filter (·.requestId ∉ s.marks)).map (·.requestId)).count r ≤ 1 := by
      refine le_trans ?_ (hrequests ▸ h.once)
      exact (filter_sublist.map _).count_le r
    split at hstep
    next hnil =>
      rw [hnil] at hactive
      cases hactive
    · cases hstep
      have hnone : r ∉ s.pendingDone.filter
          (· ∉ (msgs.filter (·.requestId ∉ s.marks)).map (·.requestId)) := by
        intro hpending
        exact of_decide_eq_true (mem_filter.mp hpending).2 hactive
      have hlist : (Work.validateData (msgs.filter (·.requestId ∉ s.marks)) []).requests =
          (msgs.filter (·.requestId ∉ s.marks)).map (·.requestId) := by
        simp only [Work.requests, append_nil]
      refine ⟨hshaped, h.aborting, h.usedPay, h.usedDone, h.emitted, ?_, ?_, ?_, Nat.zero_le 1,
        fun hmem => (by cases hmem),
        .live { hlive with } (fun hengaged => hengaged)
          ⟨?_, ?_, fun hpayload => absurd hpayload hfresh⟩ (fun _ _ => ?_) fun _ => hfresh⟩
      · exact fun _ => h.paid (Or.inr (Or.inr (Or.inr hmem)))
      · exact fun hwhere => h.finished (hwhere.imp_right fun hpending => absurd hpending hnone)
      · exact le_of_eq_of_le (count_requests hpoint rfl) (hlist ▸ honce)
      · exact fun _ => Or.inr (mem_requests hpoint rfl (hlist ▸ hactive))
      · exact fun _ => Or.inr ⟨mem_requests hpoint rfl (hlist ▸ hactive), rfl⟩
      · exact ⟨hfresh, hnone, hstate, fun hemitted => hstate (h.emitted hemitted)⟩
  · have hnot : r ∉ (msgs.filter (·.requestId ∉ s.marks)).map (·.requestId) := by
      intro hactive
      rw [hrequests] at hmem
      exact hmem ((filter_sublist.map _).subset hactive)
    have hcount := count_eq_zero.mpr hmem
    split at hstep
    · cases hstep
      exact h.apart hshaped (Apart.refl s r).finish hcount.symm (fun hm => absurd hm hmem)
        (Nat.zero_le _) hfree fun hengaged => hengaged
    · cases hstep
      refine h.apart hshaped ⟨fun hm => hm, fun hm => hm, fun hm => hm, .rfl, ?_, .rfl, .rfl, rfl,
        rfl, rfl, rfl, rfl⟩ ?_ (fun hm => absurd hm hmem) (Nat.zero_le _) hfree
        fun hengaged => hengaged
      · refine ⟨fun hpending => (mem_filter.mp hpending).1, fun hpending => ?_⟩
        exact mem_filter.mpr ⟨hpending, decide_eq_true hnot⟩
      · rw [hcount]
        refine count_eq_zero.mpr fun hm => hnot ?_
        have hm := mem_work_requests hpoint hm rfl
        simpa only [Work.requests, append_nil] using hm

theorem Sound.classify {streaming : List (Incoming D)}
    (hwork : s.work = .classify (msg :: todo) streaming nonStreaming) : Sound cfg r s' := by
  simp only [workStep, hwork] at hstep
  split at hstep
  · by_cases hid : msg.requestId = r
    · exact h.classifyFailed hfree hpoint hwork hid (hid ▸ hstep) hshaped
    · obtain ⟨hsame, hat⟩ := failId_loop hstep
      exact h.goesOn hfree hpoint hshaped (((Apart.refl s r).withWork _).trans
        (apart_failId (Ne.symm hid) hstep)) hsame hwork hat (count_cons_of_ne hid).symm
        (fun _ => rfl) (Nat.zero_le _) fun hengaged => hengaged
  · cases hstep
    refine h.passes hfree hpoint hshaped hwork ?_ rfl rfl fun hengaged => hengaged
    simp only [Work.requests, map_append, map_cons, count_append, count_cons, map_nil, count_nil]
    omega
  · cases hstep
    refine h.passes hfree hpoint hshaped hwork ?_ rfl rfl fun hengaged => hengaged
    simp only [Work.requests, map_append, map_cons, count_append, count_cons, map_nil, count_nil]
    omega

/-- `_handle_new_request_batch_with_loop`, second loop. -/
theorem Sound.streams (hwork : s.work = .streams todo nonStreaming) : Sound cfg r s' := by
  obtain ⟨_, _, hfit⟩ := h.shaped.busy (by simp [hwork])
  rw [hwork] at hfit
  cases todo with
  | nil =>
    simp only [workStep, hwork] at hstep
    split at hstep
    next hnil =>
      cases hstep
      refine h.finishes hfree hpoint hshaped (Apart.refl s r) ?_
      rw [hwork, hnil]
      exact not_mem_nil
    · cases hstep
      exact h.passes hfree hpoint hshaped hwork rfl rfl rfl fun hengaged => hengaged
  | cons msg todo =>
    obtain ⟨first, hlist, rfl, rfl⟩ := hfit (cons_ne_nil _ _)
    obtain ⟨rfl, rfl⟩ := List.cons.inj hlist
    simp only [workStep, hwork] at hstep
    split at hstep
    next hmark =>
      cases hstep
      have hne := h.unmarked hfree hpoint (by rw [hwork]; exact mem_singleton_self _) hmark
      refine h.passes hfree hpoint hshaped hwork ?_ rfl rfl fun hengaged => hengaged
      simp [Work.requests, hne]
    · cases hstep
      exact h.passes hfree hpoint hshaped hwork rfl rfl rfl fun hengaged => hengaged

theorem Sound.validateData (hwork : s.work = .validateData todo valid) : Sound cfg r s' := by
  cases todo with
  | nil =>
    simp only [workStep, hwork] at hstep
    cases hstep
    unfold computeValid at hshaped ⊢
    split
    next hnil =>
      rw [if_pos hnil] at hshaped
      refine h.finishes hfree hpoint hshaped (Apart.refl s r) ?_
      rw [hwork, hnil]
      exact not_mem_nil
    next hsome =>
      rw [if_neg hsome] at hshaped
      split
      next hsingle =>
        rw [if_pos hsingle] at hshaped
        exact h.passes hfree hpoint hshaped hwork rfl rfl rfl fun hengaged => hengaged
      next hmany =>
        rw [if_neg hmany] at hshaped
        exact h.passes hfree hpoint hshaped hwork rfl rfl rfl fun hengaged => hengaged
  | cons msg todo =>
    simp only [workStep, hwork] at hstep
    split at hstep
    · cases hstep
      refine h.passes hfree hpoint hshaped hwork ?_ rfl rfl fun hengaged => hengaged
      simp only [Work.requests, map_append, map_cons, count_append, count_cons, map_nil, count_nil]
      omega
    · have hrequests : s.work.requests =
          msg.requestId :: (Work.validateData todo valid).requests := by
        rw [hwork]
        rfl
      by_cases hid : msg.requestId = r
      · rw [hid] at hstep hrequests
        obtain ⟨hmem, hlast⟩ := h.first hpoint hrequests
        exact h.replied hfree hpoint hmem (by rw [hwork]; rfl) (by simp) hstep hlast not_mem_nil
          (fun hengaged => hengaged) hshaped
      · obtain ⟨hsame, hat⟩ := recordCompleted_loop hstep
        have hne : r ≠ msg.requestId := Ne.symm hid
        exact h.goesOn hfree hpoint hshaped ((((Apart.refl s r).withWork _).trans
          (apart_put hne .error)).trans (apart_recordCompleted hne hstep)) (by rw [hsame]; rfl)
          hwork hat (count_cons_of_ne hid).symm (fun _ => rfl) (Nat.zero_le _)
          fun hengaged => hengaged

theorem Sound.compute (hwork : s.work = .compute todo) : Sound cfg r s' := by
  cases todo with
  | nil =>
    simp only [workStep, hwork] at hstep
    cases hstep
    exact h.finishes hfree hpoint hshaped (Apart.refl s r) (by rw [hwork]; exact not_mem_nil)
  | cons msg todo =>
    simp only [workStep, hwork] at hstep
    split at hstep
    next hmark =>
      cases hstep
      have hne := h.unmarked hfree hpoint (by rw [hwork]; exact mem_cons_self) hmark
      refine h.passes hfree hpoint hshaped hwork ?_ rfl rfl fun hengaged => hengaged
      simp [Work.requests, hne]
    · cases hstep
      exact h.passes hfree hpoint hshaped hwork rfl rfl rfl fun hengaged => hengaged

/-- The payloads are computed at once. -/
theorem Sound.computeBatch (hwork : s.work = .computeBatch valid) : Sound cfg r s' := by
  simp only [workStep, hwork] at hstep
  cases hstep
  refine h.passes hfree hpoint hshaped hwork ?_ rfl rfl fun hengaged => hengaged
  simp only [Work.requests, map_map, map_nil, append_nil]
  rfl

/-- A request that is not streaming gets its reply. -/
theorem Sound.answer {todo : List (String × Kind)} {rest : List (Incoming D)}
    (hwork : s.work = .answer todo rest) : Sound cfg r s' := by
  obtain ⟨_, _, hfit⟩ := h.shaped.busy (by simp [hwork])
  rw [hwork] at hfit
  cases todo with
  | nil =>
    simp only [workStep, hwork] at hstep
    cases hstep
    exact h.passes hfree hpoint hshaped hwork rfl rfl rfl fun hengaged => hengaged
  | cons entry todo =>
    obtain ⟨id, kind⟩ := entry
    simp only [workStep, hwork] at hstep
    have hrequests : s.work.requests = id :: (Work.answer todo rest).requests := by
      rw [hwork]
      rfl
    by_cases hid : id = r
    · subst hid
      obtain ⟨hmem, hlast⟩ := h.first hpoint hrequests
      unfold answer at hstep
      split at hstep
      next hmark => exact absurd hmark (h.requested hfree hmem).1.marks
      · exact h.replied hfree hpoint hmem (by rw [hwork]; rfl) (hfit _ mem_cons_self) hstep hlast
          not_mem_nil (fun hengaged => hengaged) hshaped
    · obtain ⟨hsame, hat⟩ := answer_loop hstep
      exact h.goesOn hfree hpoint hshaped (((Apart.refl s r).withWork _).trans
        (apart_answer (Ne.symm hid) hstep)) (by rw [hsame]) hwork hat (count_cons_of_ne hid).symm
        (fun _ => rfl) (Nat.zero_le _) fun hengaged => hengaged

/-- A chunk of a batch, and the shared steps. -/
theorem Sound.pump (hwork : s.work = .pump) : Sound cfg r s' := by
  have hnone : r ∉ s.requests := not_requested hpoint rfl (by rw [hwork]; rfl)
  simp only [workStep, hwork] at hstep
  unfold Vocoder.pump at hstep
  split at hstep
  next hparticipants =>
    obtain ⟨hnodup, hstates⟩ := hparticipants
    have hstepped : ∀ work : Work D, work.requests = [] → work.stepping = x.participants →
        (¬({ s with work := work } : Vocoder D).Engaged r) →
        Shaped cfg { s with work := work } → Sound cfg r { s with work := work } := by
      intro work hrequests hstepping hfree' hshaped
      have hnone' : r ∉ ({ s with work := work } : Vocoder D).requests :=
        not_requested hpoint rfl hrequests
      have hf : Frame r s { s with work := work } := ⟨fun hm => hm, fun hm => hm, fun hm => hm,
        .rfl, .rfl, .rfl, .rfl, rfl, rfl, rfl,
        ⟨fun hm => absurd hm hnone', fun hm => absurd hm hnone⟩,
        fun hm => absurd hm hnone⟩
      refine { h with
        shaped := hshaped, paid := ?_, once := ?_, stepping := ?_, states := ?_
        phase := h.phase.frame hf (Or.inl ⟨hfree, hfree'⟩) }
      · exact fun hwhere => h.paid (hwhere.imp_right (Or.imp_right (Or.imp_right fun hm =>
          absurd hm hnone')))
      · rw [count_eq_zero.mpr hnone']
        exact Nat.zero_le 1
      · change work.stepping.count r ≤ 1
        rw [hstepping]
        exact nodup_iff_count_le_one.mp hnodup r
      · intro hmem
        exact hstates r (hstepping ▸ hmem)
    split at hstep
    · cases hstep
      refine h.finishes hfree hpoint hshaped (Apart.refl s r) ?_
      rw [hwork]
      exact not_mem_nil
    · split at hstep
      · cases hstep
        exact hstepped _ rfl rfl (fun hengaged => hengaged) hshaped
      · cases hstep
        exact hstepped _ rfl rfl (fun hengaged => hengaged) hshaped
  · cases hstep

end Unengaged

theorem Sound.unengaged (h : Sound cfg r s) (hok : Orderly r s (.work x)) (hfree : ¬s.Engaged r)
    (hstep : s.workStep cfg x = some s') : Sound cfg r s' := by
  have hshaped := shaped_workStep h.shaped hstep
  have hmeets : s.work.Meets r s := hok.admits
  have hbusy : s.work ≠ .idle := by
    intro hidle
    simp [workStep, hidle] at hstep
  obtain ⟨batch, hpoint, hfit⟩ := h.shaped.busy hbusy
  cases hwork : s.work with
  | idle => exact absurd hwork hbusy
  | classify todo streaming nonStreaming =>
    cases todo with
    | cons msg todo => exact h.classify hfree hpoint hshaped hstep hwork
    | nil =>
      simp only [workStep, hwork] at hstep
      cases hstep
      exact h.passes hfree hpoint hshaped hwork rfl rfl rfl fun hengaged => hengaged
  | streams todo nonStreaming => exact h.streams hfree hpoint hshaped hstep hwork
  | unmark id next =>
    simp only [workStep, hwork] at hstep
    cases hstep
    exact h.goesOn hfree hpoint hshaped ((apart_removeMark id).withWork _) rfl hwork rfl rfl
      (fun _ => rfl) (Nat.zero_le _) fun hengaged => hengaged
  | register id next =>
    rw [hwork] at hfit
    simp only [workStep, hwork] at hstep
    cases hstep
    by_cases hid : id = r
    · subst hid
      exact h.register hwork hshaped
    · have hne : r ≠ id := Ne.symm hid
      refine h.about hfree hpoint hne hfit.1 ?_ (goes_register hfit) hshaped
        (apart_register hne next x) (about_register hfit.2)
      rw [hwork]
      exact fun hmem => hne (mem_singleton.mp hmem)
  | done id =>
    rw [hwork] at hfit
    simp only [workStep, hwork] at hstep
    cases hstep
    have hne : r ≠ id := fun hid => hfree (by simp [Engaged, hwork, hid])
    exact h.about hfree hpoint hne hfit (by rw [hwork]; exact not_mem_nil)
      (goes_handleDone hfit) hshaped (apart_handleDone hne) about_handleDone
  | flush id next =>
    rw [hwork] at hfit
    simp only [workStep, hwork] at hstep
    cases hstep
    have hne : r ≠ id := fun hid => hfree (by simp [Engaged, hwork, hid])
    exact h.about hfree hpoint hne hfit.1 (by rw [hwork]; exact not_mem_nil)
      (goes_flush hfit) hshaped (apart_flush hne next x) about_flush
  | replies id outs closing next =>
    rw [hwork] at hfit
    simp only [workStep, hwork] at hstep
    cases hstep
    have hne : r ≠ id := fun hid => hfree (by simp [Engaged, hwork, hid])
    exact h.about hfree hpoint hne hfit.1 (by rw [hwork]; exact not_mem_nil)
      (goes_reply hfit) hshaped (apart_reply hne closing next outs) (about_reply hfit.2)
  | closed id next =>
    rw [hwork] at hfit
    simp only [workStep, hwork] at hstep
    cases hstep
    have hne : r ≠ id := fun hid => hfree (by simp [Engaged, hwork, hid])
    exact h.about hfree hpoint hne hfit.1 (by rw [hwork]; exact not_mem_nil)
      (goes_continueWith hfit.2 rfl) hshaped
      (((apart_clearState hne).trans (apart_removeMark id)).continueWith next)
      (about_continueWith hfit.2)
  | chunk id =>
    rw [hwork] at hfit
    simp only [workStep, hwork] at hstep
    cases hstep
    by_cases hid : id = r
    · subst hid
      rw [hwork] at hmeets
      exact h.chunk hok (hmeets rfl) hwork hshaped
    · have hne : r ≠ id := Ne.symm hid
      exact h.about hfree hpoint hne hfit (by rw [hwork]; exact not_mem_nil) (goes_chunk hfit)
        hshaped (apart_chunk hne x) about_chunk
  | validate todo items =>
    cases todo with
    | cons msg todo =>
      simp only [workStep, hwork] at hstep
      split at hstep
      all_goals
        cases hstep
        exact h.passes hfree hpoint hshaped hwork rfl rfl rfl fun hengaged => hengaged
    | nil =>
      simp only [workStep, hwork] at hstep
      split at hstep
      · cases hstep
        exact h.finishes hfree hpoint hshaped (Apart.refl s r) (by rw [hwork]; exact not_mem_nil)
      · cases hstep
        exact h.passes hfree hpoint hshaped hwork rfl rfl rfl fun hengaged => hengaged
  | ingest items =>
    cases items with
    | nil =>
      simp only [workStep, hwork] at hstep
      cases hstep
      exact h.passes hfree hpoint hshaped hwork rfl rfl rfl fun hengaged => hengaged
    | cons id items =>
      simp only [workStep, hwork] at hstep
      by_cases hid : id = r
      · subst hid
        rw [hwork] at hmeets
        exact h.ingest hfree hpoint hok (hmeets rfl) hwork hstep hshaped
      · obtain ⟨hsame, hat⟩ := ingest_loop hstep
        exact h.goesOn hfree hpoint hshaped (apart_ingest (Ne.symm hid) hstep) hsame hwork hat rfl
          (fun _ => rfl) (Nat.zero_le _) fun hengaged => hengaged
  | pump => exact h.pump hfree hpoint hshaped hstep hwork
  | decoded todo waveforms =>
    cases todo with
    | nil =>
      simp only [workStep, hwork] at hstep
      cases hstep
      exact h.passes hfree hpoint hshaped hwork rfl rfl rfl fun hengaged => hengaged
    | cons id todo =>
      simp only [workStep, hwork] at hstep
      cases hstep
      by_cases hid : id = r
      · subst hid
        exact h.emitDecoded hfree hpoint hwork hshaped
      · obtain ⟨hsame, hat⟩ := emitDecoded_loop (s := s) id todo waveforms
        exact h.goesOn hfree hpoint hshaped (apart_emitDecoded (Ne.symm hid) todo waveforms) hsame
          hwork hat rfl (fun _ => rfl) (le_of_eq (count_cons_of_ne hid).symm)
          fun hengaged => hengaged
  | stepFailed todo =>
    cases todo with
    | nil =>
      simp only [workStep, hwork] at hstep
      cases hstep
      exact h.finishes hfree hpoint hshaped (Apart.refl s r) (by rw [hwork]; exact not_mem_nil)
    | cons id todo =>
      simp only [workStep, hwork] at hstep
      by_cases hid : id = r
      · subst hid
        exact h.stepFailed hfree hpoint hwork hstep hshaped
      · obtain ⟨hsame, hat⟩ := failId_loop hstep
        exact h.goesOn hfree hpoint hshaped (((Apart.refl s r).withWork _).trans
          (apart_failId (Ne.symm hid) hstep)) hsame hwork hat rfl (fun _ => rfl)
          (le_of_eq (count_cons_of_ne hid).symm) fun hengaged => hengaged
  | active msgs =>
    rw [hwork] at hmeets
    exact h.activate hfree hpoint hshaped hstep hwork hmeets
  | validateData todo valid => exact h.validateData hfree hpoint hshaped hstep hwork
  | compute todo => exact h.compute hfree hpoint hshaped hstep hwork
  | computeBatch valid => exact h.computeBatch hfree hpoint hshaped hstep hwork
  | answer todo rest => exact h.answer hfree hpoint hshaped hstep hwork
  | failing =>
    simp only [workStep, hwork] at hstep
    unfold Vocoder.fail at hstep
    split at hstep
    next msg rest hat =>
      obtain ⟨u, hfail, rfl⟩ := Option.map_eq_some_iff.mp hstep
      have hne : r ≠ msg.requestId := by
        intro hid
        refine hfree ?_
        simp [Engaged, hwork, headOf, hat, hid]
      exact h.finishes hfree hpoint hshaped (apart_failId hne hfail)
        (by rw [hwork]; exact not_mem_nil)
    · cases hstep

theorem Sound.step (h : Sound cfg r s) (hok : Orderly r s a)
    (hstep : step cfg s a = some s') : Sound cfg r s' := by
  cases a with
  | put requestId type data => exact h.put hok hstep
  | record requestId discarded => exact h.record hok hstep
  | clear => exact h.clear hstep
  | take => exact h.loopTurn .take hok hstep
  | check discarded => exact h.loopTurn (.check discarded) hok hstep
  | pull discarded => exact h.loopTurn (.pull discarded) hok hstep
  | close => exact h.loopTurn .close hok hstep
  | work x =>
    by_cases hengaged : s.Engaged r
    · exact h.engaged hengaged hstep
    · exact h.unengaged hok hengaged hstep

theorem sound_init (r : String) : Sound cfg r (init D) where
  shaped := shaped_init
  aborting := by simp [Vocoder.init]
  usedPay := Nat.zero_le 1
  usedDone := Nat.zero_le 1
  emitted h := by cases h
  paid := by rintro (h | h | h | h) <;> cases h
  finished := by rintro (h | h) <;> cases h
  once := Nat.zero_le 1
  stepping := Nat.zero_le 1
  states h := by cases h
  phase := by
    refine .live ⟨nofun, nofun, nofun, 0, rfl⟩
      (fun h => h) ⟨fun h => ?_, fun h => ?_, nofun⟩ nofun nofun
    · exact absurd h (Nat.not_succ_le_zero 0)
    · exact absurd h (Nat.not_succ_le_zero 0)

/-- A part of stream messages and one terminal message. -/
theorem kinds_of_split {kinds : List Kind} (outs : List Kind) (h : OneTerminal (kinds ++ outs)) :
    ∃ n last, kinds = List.replicate n .stream ++ last ∧ last.length ≤ 1 ∧ .stream ∉ last := by
  obtain ⟨n, kind, hkind, hall⟩ := h
  rcases append_eq_append_iff.mp hall with ⟨more, hmore, -⟩ | ⟨last, hlast, hrest⟩
  · refine ⟨kinds.length, [], ?_, Nat.zero_le 1, not_mem_nil⟩
    rw [append_nil]
    refine eq_replicate_iff.mpr ⟨rfl, fun other hother => ?_⟩
    exact eq_of_mem_replicate (hmore.symm ▸ mem_append_left _ hother)
  · refine ⟨n, last, hlast, ?_, fun hmem => hkind ?_⟩
    · have hlength := congrArg List.length hrest
      simp only [length_singleton, length_append] at hlength
      omega
    · have hstream : Kind.stream ∈ [kind] := hrest.symm ▸ mem_append_left _ hmem
      exact (mem_singleton.mp hstream).symm

theorem Live.not_ended (h : Live r s) : ¬s.Ended r := by
  rintro ⟨kind, hmem, hkind⟩
  obtain ⟨n, hn⟩ := h.kinds
  rw [hn] at hmem
  exact hkind (eq_of_mem_replicate hmem)

/-- The messages of the request in the outbox, and its entries. -/
theorem Sound.outcome (h : Sound cfg r s) :
    (∃ n last, s.kindsOf r = List.replicate n .stream ++ last ∧ last.length ≤ 1 ∧ .stream ∉ last) ∧
    (s.Ended r → NoEntries r s ∨ (∃ outs next, s.work = .replies r outs true next) ∨
      ∃ next, s.work = .closed r next) := by
  have hlive : Live r s → (∃ n last, s.kindsOf r = List.replicate n .stream ++ last ∧
      last.length ≤ 1 ∧ .stream ∉ last) := by
    intro hlive
    obtain ⟨n, hn⟩ := hlive.kinds
    exact ⟨n, [], by rw [hn, append_nil], Nat.zero_le 1, not_mem_nil⟩
  have hone : OneTerminal (s.kindsOf r) → ∃ n last,
      s.kindsOf r = List.replicate n .stream ++ last ∧ last.length ≤ 1 ∧ .stream ∉ last := by
    intro hkinds
    exact kinds_of_split [] (by rwa [append_nil])
  cases h.phase with
  | live h hfree howed hcomputing hfresh => exact ⟨hlive h, fun he => absurd he h.not_ended⟩
  | done h hwork hpayload hfins => exact ⟨hlive h, fun he => absurd he h.not_ended⟩
  | flush next h hwork hpays hfins => exact ⟨hlive h, fun he => absurd he h.not_ended⟩
  | failing h hwork hhead => exact ⟨hlive h, fun he => absurd he h.not_ended⟩
  | streaming outs h hwork houts howed => exact ⟨hlive h, fun he => absurd he h.not_ended⟩
  | closing outs next hmarks hwork hkinds hpays hfins =>
    exact ⟨kinds_of_split outs hkinds, fun _ => Or.inr (Or.inl ⟨outs, next, hwork⟩)⟩
  | closed next hwork hkinds hpays hfins =>
    exact ⟨hone hkinds, fun _ => Or.inr (Or.inr ⟨next, hwork⟩)⟩
  | ended hkinds hentries hrequests hwork => exact ⟨hone hkinds, fun _ => Or.inl hentries⟩

theorem uses_of_handled {type : MessageType} (h : Shaped cfg s) (hidle : ¬s.Awaits r)
    (harrived : ∃ msg ∈ s.loop.arrived, msg.requestId = r ∧ msg.type = type) :
    1 ≤ uses r type (s.loop.log.map Prod.fst) := by
  obtain ⟨msg, hmsg, hid, htype⟩ := harrived
  rw [h.collected.ordered.order] at hmsg
  have hnot : msg ∉ s.loop.point.held ++ s.loop.point.opened ++ s.loop.pending ++ s.loop.inbox :=
    fun hmem => hidle (Or.inl (mem_map.mpr ⟨msg, hmem, hid⟩))
  simp only [mem_append, not_or] at hmsg hnot
  have hlog : msg ∈ s.loop.log.map Prod.fst := by
    rcases hmsg with ((hlog | hheld) | hpending) | hinbox
    · exact hlog
    · exact absurd hheld hnot.1.1.1
    · exact absurd hpending hnot.1.2
    · exact absurd hinbox hnot.2
  exact countP_pos_iff.mpr ⟨msg, hlog, decide_eq_true ⟨hid, htype⟩⟩

/-- Once payload and `stream_done` have been handled, the request has ended. -/
theorem Sound.settled (h : Sound cfg r s) (hidle : s.work = .idle) (hawaits : ¬s.Awaits r)
    (hpayload : ∃ msg ∈ s.loop.arrived, msg.requestId = r ∧ msg.type = .newRequest)
    (hdone : ∃ msg ∈ s.loop.arrived, msg.requestId = r ∧ msg.type = .streamDone) :
    OneTerminal (s.kindsOf r) ∧ NoEntries r s := by
  rcases h.free (not_engaged_idle hidle) with ⟨hlive, howed, -⟩ | ⟨hkinds, hentries, -⟩
  · have hrequests : r ∉ s.requests := by
      rw [requests_idle hidle]
      intro hmem
      obtain ⟨msg, hmsg, hid⟩ := mem_map.mp hmem
      refine hawaits (Or.inl (mem_map.mpr ⟨msg, ?_, hid⟩))
      simp only [mem_append]
      exact Or.inl (Or.inl (Or.inr (mem_filter.mp hmsg).1))
    have hpaid := (howed.payload (uses_of_handled h.shaped hawaits hpayload)).resolve_right
      hrequests
    have hpending := (howed.finished (uses_of_handled h.shaped hawaits hdone)).resolve_right
      fun hmem => hrequests hmem.1
    exact absurd hpending (howed.once hpaid)
  · exact ⟨hkinds, hentries⟩

/-- In every run in which a request uses its id once and nobody aborts it, and in which it is
remembered while messages of it are there and no chunk of it meets its non-streaming payload: its
messages are stream messages and at most one terminal message after them; once that is there and the
section that has sent it is over, no entry of the request is left; and when the handler is idle and
has handled payload and `stream_done`, the terminal message is there. -/
theorem one_terminal {as : List (VocoderAction D)}
    (hrun : Run (Vocoder.step cfg) (Orderly r) (.init D) as s) :
    (∃ n last, s.kindsOf r = List.replicate n .stream ++ last ∧ last.length ≤ 1 ∧ .stream ∉ last) ∧
    (s.Ended r → NoEntries r s ∨ (∃ outs next, s.work = .replies r outs true next) ∨
      ∃ next, s.work = .closed r next) ∧
    (s.work = .idle → ¬s.Awaits r →
      (∃ msg ∈ s.loop.arrived, msg.requestId = r ∧ msg.type = .newRequest) →
      (∃ msg ∈ s.loop.arrived, msg.requestId = r ∧ msg.type = .streamDone) →
      OneTerminal (s.kindsOf r) ∧ NoEntries r s) := by
  have hsound : Sound cfg r s := hrun.invariant (I := Sound cfg r)
    (fun _ _ _ h hok hstep => h.step hok hstep) (sound_init r)
  exact ⟨hsound.outcome.1, hsound.outcome.2, hsound.settled⟩

/-- A streaming request whose `stream_done` comes first, with a chunk before its payload and one
after its result. -/
def doneFirst : List (VocoderAction ℕ) :=
  [.put "a" .streamChunk 0, .put "a" .streamDone 0, .put "a" .newRequest 1, .put "a" .streamChunk 0,
    .take, .check [], .work { waveform := true }, .work {}, .work {}, .take, .check [], .work {},
    .take, .check [], .work {}, .work {}, .work {}, .work {}, .work {}, .work { waveform := true },
    .work {}, .work {}, .work {}, .work {}, .work {}, .take, .check [], .work {}]

theorem one_terminal_doneFirst : ∃ s : Vocoder ℕ,
    s.kindsOf "a" = [.stream, .stream, .result] ∧ OneTerminal (s.kindsOf "a") ∧
      NoEntries "a" s := by
  have hrun := run_of_isSome_guarded (Vocoder.step oneByOne) (Orderly "a") (.init ℕ) doneFirst
    (by decide +kernel)
  exact ⟨_, by decide +kernel, (one_terminal hrun).2.2 rfl (by decide +kernel)
    (by decide +kernel) (by decide +kernel)⟩

/-- A request that is not streaming, with a chunk after its result: the chunk gets a state, and its
error is a second terminal message. -/
theorem chunk_after_result : ∃ s : Vocoder ℕ,
    Reachable (Vocoder.step oneByOne) (.init ℕ) s ∧ "a" ∉ s.calls ∧
      s.kindsOf "a" = [.result, .error] := by
  have hrun := run_of_isSome (Vocoder.step oneByOne) (.init ℕ)
    [.put "a" .newRequest 0, .put "a" .streamDone 0, .put "a" .streamChunk 0, .take, .check [],
      .work {}, .work {}, .work {}, .work {}, .work {}, .work {}, .work {}, .work {}, .work {},
      .work {}, .take, .check [], .work {}, .take, .check [], .work { ok := false }, .work {}]
    (by decide +kernel)
  exact ⟨_, ⟨_, hrun⟩, by decide +kernel, by decide +kernel⟩

end Omni.Streaming
