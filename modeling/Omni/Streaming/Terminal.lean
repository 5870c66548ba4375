import Omni.Streaming.Shape

/-!
# One terminal message

A request of a streaming vocoder that nobody aborts from outside gets its stream messages, then one
result or one error, and nothing after it.
-/

namespace Omni.Streaming

open Transition Simple Collector Vocoder List

variable {D : Type} {cfg : StreamConfig D} {msgs batch : List (Incoming D)}
  {discarded : List String} {a : VocoderAction D}

/-- The requests whose payloads the handler has before it. -/
def Work.requests : Work D → List String
  | .classify todo streaming nonStreaming =>
    (todo ++ streaming ++ nonStreaming).map (·.requestId)
  | .streams todo nonStreaming => (todo ++ nonStreaming).map (·.requestId)
  | .unmark id _ | .register id _ => [id]
  | .active batch | .compute batch | .computeBatch batch => batch.map (·.requestId)
  | .validateData todo valid => (todo ++ valid).map (·.requestId)
  | .answer todo rest => todo.map Prod.fst ++ rest.map (·.requestId)
  | _ => []

/-- They are being computed. -/
def Work.computing : Work D → Bool
  | .validateData _ _ | .compute _ | .computeBatch _ | .answer _ _ => true
  | _ => false

/-- The streams of a shared step. -/
def Work.stepping : Work D → List String
  | .decoded todo _ | .stepFailed todo => todo
  | _ => []

/-- The payloads in the scheduler's hands. -/
def Vocoder.requests (s : Vocoder D) : List String :=
  (s.loop.point.opened.filter (·.type = .newRequest)).map (·.requestId) ++ s.work.requests

/-- The first request of the batch that is being handled. -/
def headOf : CollectPoint D → Option String
  | .handling batch => batch.head?.map (·.requestId)
  | _ => none

/-- The handler is at the end of the request, or of its `stream_done`. -/
def Vocoder.Engaged (r : String) (s : Vocoder D) : Prop :=
  match s.work with
  | .flush id _ | .replies id _ _ _ | .closed id _ | .done id => id = r
  | .failing => headOf s.loop.point = some r
  | _ => False

variable {s s' t : Vocoder D} {r id : String}

/-- The request has no terminal message. -/
structure Live (r : String) (s : Vocoder D) : Prop where
  marks : r ∉ s.marks
  stream : r ∉ s.completedStream
  single : r ∉ s.completedNonStreaming
  kinds : ∃ n, s.kindsOf r = List.replicate n .stream

/-- The payload and the `stream_done` that have been handled are kept, until both are there. -/
structure Owed (r : String) (s : Vocoder D) : Prop where
  payload : 1 ≤ s.pays r → r ∈ s.payloads ∨ r ∈ s.requests
  finished : 1 ≤ s.fins r → r ∈ s.pendingDone ∨ r ∈ s.requests ∧ s.work.computing = true
  once : r ∈ s.payloads → r ∉ s.pendingDone

/-- Its messages are stream messages and one terminal message. -/
def OneTerminal (kinds : List Kind) : Prop :=
  ∃ n kind, kind ≠ .stream ∧ kinds = List.replicate n .stream ++ [kind]

/-- Where the request is. -/
inductive Phase (r : String) (s : Vocoder D) : Prop
  | live (h : Live r s) (hfree : ¬s.Engaged r) (howed : Owed r s)
    (hcomputing : r ∈ s.requests → s.work.computing = true → NoEntries r s)
    (hfresh : r ∈ s.requests → r ∉ s.payloads)
  | done (h : Live r s) (hwork : s.work = .done r) (hpayload : 1 ≤ s.pays r → r ∈ s.payloads)
    (hfins : 1 ≤ s.fins r)
  | flush (next : Next D) (h : Live r s) (hwork : s.work = .flush r next) (hpays : 1 ≤ s.pays r)
    (hfins : 1 ≤ s.fins r)
  | failing (h : Live r s) (hwork : s.work = .failing) (hhead : headOf s.loop.point = some r)
  | streaming (outs : List Kind) (h : Live r s) (hwork : s.work = .replies r outs false .finish)
    (houts : ∀ kind ∈ outs, kind = .stream) (howed : Owed r s)
  | closing (outs : List Kind) (next : Next D) (hmarks : r ∉ s.marks)
    (hwork : s.work = .replies r outs true next) (hkinds : OneTerminal (s.kindsOf r ++ outs))
    (hpays : 1 ≤ s.pays r) (hfins : 1 ≤ s.fins r)
  | closed (next : Next D) (hwork : s.work = .closed r next) (hkinds : OneTerminal (s.kindsOf r))
    (hpays : 1 ≤ s.pays r) (hfins : 1 ≤ s.fins r)
  | ended (hkinds : OneTerminal (s.kindsOf r)) (hentries : NoEntries r s)
    (hrequests : r ∉ s.requests)
    (hwork : ¬s.Engaged r ∨ s.work = .done r ∧ r ∈ s.completedNonStreaming)

/-- The invariant of a request whose id is used once. -/
structure Sound (cfg : StreamConfig D) (r : String) (s : Vocoder D) : Prop where
  shaped : Shaped cfg s
  aborting : s.aborting ≠ some r
  usedPay : uses r .newRequest s.loop.arrived ≤ 1
  usedDone : uses r .streamDone s.loop.arrived ≤ 1
  emitted : r ∈ s.emitted → r ∈ s.states
  paid : r ∈ s.payloads ∨ r ∈ s.completedStream ∨ r ∈ s.completedNonStreaming ∨ r ∈ s.requests →
    1 ≤ s.pays r
  finished : r ∈ s.completedStream ∨ r ∈ s.pendingDone → 1 ≤ s.fins r
  once : s.requests.count r ≤ 1
  stepping : s.work.stepping.count r ≤ 1
  states : r ∈ s.work.stepping → r ∈ s.states
  phase : Phase r s

/-- What other requests' steps leave of a request. -/
structure Frame (r : String) (s t : Vocoder D) : Prop where
  marks : r ∈ t.marks → r ∈ s.marks
  completedStream : r ∈ t.completedStream → r ∈ s.completedStream
  completedNonStreaming : r ∈ t.completedNonStreaming → r ∈ s.completedNonStreaming
  payload : r ∈ t.payloads ↔ r ∈ s.payloads
  pendingDone : r ∈ t.pendingDone ↔ r ∈ s.pendingDone
  state : r ∈ t.states ↔ r ∈ s.states
  emitted : r ∈ t.emitted ↔ r ∈ s.emitted
  kinds : t.kindsOf r = s.kindsOf r
  pays : t.pays r = s.pays r
  fins : t.fins r = s.fins r
  requests : r ∈ t.requests ↔ r ∈ s.requests
  computing : r ∈ s.requests → t.work.computing = s.work.computing

theorem Live.frame (h : Live r s) (hf : Frame r s t) : Live r t where
  marks hmem := h.marks (hf.marks hmem)
  stream hmem := h.stream (hf.completedStream hmem)
  single hmem := h.single (hf.completedNonStreaming hmem)
  kinds := hf.kinds ▸ h.kinds

theorem Owed.frame (h : Owed r s) (hf : Frame r s t) : Owed r t where
  payload hpays := by
    rw [hf.payload, hf.requests]
    exact h.payload (hf.pays ▸ hpays)
  finished hfins := by
    rcases h.finished (hf.fins ▸ hfins) with hpending | ⟨hrequest, hcomputing⟩
    · exact Or.inl (hf.pendingDone.mpr hpending)
    · exact Or.inr ⟨hf.requests.mpr hrequest, (hf.computing hrequest).trans hcomputing⟩
  once hmem hpending := h.once (hf.payload.mp hmem) (hf.pendingDone.mp hpending)

theorem noEntries_frame (h : NoEntries r s) (hf : Frame r s t) : NoEntries r t where
  payload hmem := h.payload (hf.payload.mp hmem)
  pendingDone hmem := h.pendingDone (hf.pendingDone.mp hmem)
  state hmem := h.state (hf.state.mp hmem)
  emitted hmem := h.emitted (hf.emitted.mp hmem)

/-- A request that the handler is not at the end of. -/
theorem Phase.frame (h : Phase r s) (hf : Frame r s t)
    (hwork : (¬s.Engaged r ∧ ¬t.Engaged r) ∨ (t.work = s.work ∧ t.loop.point = s.loop.point ∧
      t.completedNonStreaming = s.completedNonStreaming)) : Phase r t := by
  have hengaged : t.Engaged r → s.Engaged r := by
    rcases hwork with ⟨-, hfree⟩ | ⟨hsame, hpoint, -⟩
    · exact fun h => absurd h hfree
    · unfold Engaged
      rw [hsame, hpoint]
      exact id
  cases h with
  | live h hfree howed hcomputing hfresh =>
    refine .live (h.frame hf) (fun h => hfree (hengaged h)) (howed.frame hf) ?_ ?_
    · intro hrequest hflag
      have hrequest := hf.requests.mp hrequest
      exact noEntries_frame (hcomputing hrequest (hf.computing hrequest ▸ hflag)) hf
    · exact fun hrequest hmem => hfresh (hf.requests.mp hrequest) (hf.payload.mp hmem)
  | ended hkinds hentries hrequests hpoint =>
    refine .ended (hf.kinds ▸ hkinds) (noEntries_frame hentries hf)
      (fun hrequest => hrequests (hf.requests.mp hrequest)) ?_
    rcases hwork with ⟨-, hfree⟩ | ⟨hsame, -, hcompleted⟩
    · exact Or.inl hfree
    · rcases hpoint with hfree | ⟨hdone, hmem⟩
      · exact Or.inl fun h => hfree (hengaged h)
      · exact Or.inr ⟨hsame.trans hdone, hcompleted ▸ hmem⟩
  | done h hat hpayload hfins =>
    rcases hwork with ⟨hfree, -⟩ | ⟨hsame, -, -⟩
    · exact absurd (by simp [Engaged, hat]) hfree
    · exact .done (h.frame hf) (hsame.trans hat)
        (fun hpays => hf.payload.mpr (hpayload (hf.pays ▸ hpays))) (hf.fins ▸ hfins)
  | flush next h hat hpays hfins =>
    rcases hwork with ⟨hfree, -⟩ | ⟨hsame, -, -⟩
    · exact absurd (by simp [Engaged, hat]) hfree
    · exact .flush next (h.frame hf) (hsame.trans hat) (hf.pays ▸ hpays) (hf.fins ▸ hfins)
  | failing h hat hhead =>
    rcases hwork with ⟨hfree, -⟩ | ⟨hsame, hpoint, -⟩
    · exact absurd (by simp [Engaged, hat, hhead]) hfree
    · exact .failing (h.frame hf) (hsame.trans hat) (hpoint ▸ hhead)
  | streaming outs h hat houts howed =>
    rcases hwork with ⟨hfree, -⟩ | ⟨hsame, -, -⟩
    · exact absurd (by simp [Engaged, hat]) hfree
    · exact .streaming outs (h.frame hf) (hsame.trans hat) houts (howed.frame hf)
  | closing outs next hmarks hat hkinds hpays hfins =>
    rcases hwork with ⟨hfree, -⟩ | ⟨hsame, -, -⟩
    · exact absurd (by simp [Engaged, hat]) hfree
    · exact .closing outs next (fun hmem => hmarks (hf.marks hmem)) (hsame.trans hat)
        (hf.kinds ▸ hkinds) (hf.pays ▸ hpays) (hf.fins ▸ hfins)
  | closed next hat hkinds hpays hfins =>
    rcases hwork with ⟨hfree, -⟩ | ⟨hsame, -, -⟩
    · exact absurd (by simp [Engaged, hat]) hfree
    · exact .closed next (hsame.trans hat) (hf.kinds ▸ hkinds) (hf.pays ▸ hpays)
        (hf.fins ▸ hfins)

/-- A step that leaves the request where it is. -/
theorem Sound.frame (h : Sound cfg r s) (hshaped : Shaped cfg t) (hf : Frame r s t)
    (haborting : t.aborting ≠ some r) (hpay : uses r .newRequest t.loop.arrived ≤ 1)
    (hdone : uses r .streamDone t.loop.arrived ≤ 1)
    (hrequests : t.requests.count r = s.requests.count r)
    (hstepping : t.work.stepping.count r ≤ s.work.stepping.count r) (hphase : Phase r t) :
    Sound cfg r t := by
  refine ⟨hshaped, haborting, hpay, hdone, ?_, ?_, ?_, hrequests ▸ h.once,
    hstepping.trans h.stepping, ?_, hphase⟩
  · rw [hf.emitted, hf.state]
    exact h.emitted
  · intro hwhere
    rw [hf.pays]
    exact h.paid (hwhere.imp hf.payload.mp (Or.imp hf.completedStream
      (Or.imp hf.completedNonStreaming hf.requests.mp)))
  · intro hwhere
    rw [hf.fins]
    exact h.finished (hwhere.imp hf.completedStream hf.pendingDone.mp)
  · intro hstep
    rw [hf.state]
    refine h.states (count_pos_iff.mp (Nat.lt_of_lt_of_le ?_ hstepping))
    exact count_pos_iff.mpr hstep

/-- A step of the handler for other requests. -/
theorem Sound.apart (h : Sound cfg r s) (hshaped : Shaped cfg t) (ha : Apart r s t)
    (hrequests : t.requests.count r = s.requests.count r)
    (hcomputing : r ∈ s.requests → t.work.computing = s.work.computing)
    (hstepping : t.work.stepping.count r ≤ s.work.stepping.count r) (hfree : ¬s.Engaged r)
    (hfree' : ¬t.Engaged r) : Sound cfg r t := by
  have hmem : r ∈ t.requests ↔ r ∈ s.requests := by
    rw [← count_pos_iff, hrequests, count_pos_iff]
  have hf : Frame r s t := { ha with requests := hmem, computing := hcomputing }
  exact h.frame hshaped hf (ha.aborting ▸ h.aborting) (ha.arrived ▸ h.usedPay)
    (ha.arrived ▸ h.usedDone) hrequests hstepping (h.phase.frame hf (Or.inl ⟨hfree, hfree'⟩))

/-- The request is remembered as aborted or completed. -/
def Vocoder.Remembers (r : String) (s : Vocoder D) : Prop :=
  r ∈ s.marks ∨ r ∈ s.completedStream ∨ r ∈ s.completedNonStreaming

/-- The request has a terminal message. -/
def Vocoder.Ended (r : String) (s : Vocoder D) : Prop := ∃ kind ∈ s.kindsOf r, kind ≠ .stream

/-- A message of the request has not been handled yet. -/
def Vocoder.Awaits (r : String) (s : Vocoder D) : Prop :=
  r ∈ (s.loop.point.held ++ s.loop.point.opened ++ s.loop.pending ++ s.loop.inbox).map
    (·.requestId) ∨ r ∈ s.work.mentions

/-- No chunk of the request is handled before its non-streaming payload or after the reply to it. -/
def Work.Meets (r : String) (s : Vocoder D) : Work D → Prop
  | .active batch => r ∈ batch.map (·.requestId) → r ∉ s.states
  | .chunk id | .ingest (id :: _) => id = r → r ∉ s.completedNonStreaming
  | _ => True

/-- The request uses its id for one payload and one `stream_done`, and nobody aborts it. -/
def Vocoder.Admits (r : String) (s : Vocoder D) : VocoderAction D → Prop
  | .put id type _ => id = r → type ≠ .streamChunk →
    ∀ msg ∈ s.loop.arrived, msg.requestId = r → msg.type ≠ type
  | .record id _ => id ≠ r
  | .work _ => s.work.Meets r s
  | _ => True

/-- The request uses its id once, nobody aborts it from outside, and no chunk of it meets its
non-streaming payload. While a message of it is there after its terminal message, it is
remembered. -/
structure Orderly (r : String) (s : Vocoder D) (a : VocoderAction D) : Prop where
  remembers : s.Ended r → s.Awaits r → s.Remembers r
  admits : s.Admits r a

instance (s : Vocoder D) : ∀ work : Work D, Decidable (work.Meets r s)
  | .active batch => inferInstanceAs (Decidable (r ∈ batch.map (·.requestId) → r ∉ s.states))
  | .chunk id | .ingest (id :: _) =>
    inferInstanceAs (Decidable (id = r → r ∉ s.completedNonStreaming))
  | .idle | .classify _ _ _ | .streams _ _ | .unmark _ _ | .register _ _ | .done _ | .flush _ _ |
    .replies _ _ _ _ | .closed _ _ | .validate _ _ | .ingest [] | .pump | .decoded _ _ |
    .stepFailed _ | .validateData _ _ | .compute _ | .computeBatch _ | .answer _ _ | .failing =>
    isTrue trivial

instance (s : Vocoder D) : ∀ a : VocoderAction D, Decidable (s.Admits r a)
  | .put id type _ => inferInstanceAs (Decidable (id = r → type ≠ .streamChunk →
      ∀ msg ∈ s.loop.arrived, msg.requestId = r → msg.type ≠ type))
  | .record id _ => inferInstanceAs (Decidable (id ≠ r))
  | .work _ => inferInstanceAs (Decidable (s.work.Meets r s))
  | .clear | .take | .check _ | .pull _ | .close => isTrue trivial

instance (s : Vocoder D) : Decidable (s.Ended r) :=
  inferInstanceAs (Decidable (∃ kind ∈ s.kindsOf r, kind ≠ .stream))

instance (s : Vocoder D) : Decidable (s.Awaits r) :=
  inferInstanceAs (Decidable (r ∈ (s.loop.point.held ++ s.loop.point.opened ++ s.loop.pending ++
    s.loop.inbox).map (·.requestId) ∨ r ∈ s.work.mentions))

instance (s : Vocoder D) : Decidable (s.Remembers r) :=
  inferInstanceAs (Decidable (r ∈ s.marks ∨ r ∈ s.completedStream ∨ r ∈ s.completedNonStreaming))

instance (s : Vocoder D) (a : VocoderAction D) : Decidable (Orderly r s a) :=
  decidable_of_iff ((s.Ended r → s.Awaits r → s.Remembers r) ∧ s.Admits r a)
    ⟨fun ⟨hremembers, hadmits⟩ => ⟨hremembers, hadmits⟩, fun h => ⟨h.remembers, h.admits⟩⟩

/-- A step of the stage's thread for another request, or a message that arrives. -/
theorem Sound.world (h : Sound cfg r s) (hshaped : Shaped cfg t) (hf : Frame r s t)
    (hwork : t.work = s.work) (hpoint : t.loop.point = s.loop.point)
    (hcompleted : t.completedNonStreaming = s.completedNonStreaming)
    (haborting : t.aborting ≠ some r)
    (hpay : uses r .newRequest t.loop.arrived ≤ 1) (hdone : uses r .streamDone t.loop.arrived ≤ 1) :
    Sound cfg r t := by
  have hrequests : t.requests = s.requests := by
    unfold Vocoder.requests
    rw [hwork, hpoint]
  exact h.frame hshaped hf haborting hpay hdone (by rw [hrequests]) (by rw [hwork])
    (h.phase.frame hf (Or.inr ⟨hwork, hpoint, hcompleted⟩))

theorem uses_put {msg : Incoming D} {type : MessageType} (hold : uses r type msgs ≤ 1)
    (hfirst : msg.requestId = r → msg.type = type → ∀ other ∈ msgs, other.requestId = r →
      other.type ≠ type) : uses r type (msgs ++ [msg]) ≤ 1 := by
  unfold uses at hold ⊢
  rw [countP_append, countP_singleton]
  split
  next hmatch =>
    obtain ⟨hid, htype⟩ := of_decide_eq_true hmatch
    have hnone : msgs.countP (fun msg => msg.requestId = r ∧ msg.type = type) = 0 := by
      refine countP_eq_zero.mpr fun other hother hboth => ?_
      obtain ⟨hrequest, hsame⟩ := of_decide_eq_true hboth
      exact hfirst hid htype other hother hrequest hsame
    rw [hnone]
  · exact hold

theorem Sound.put {type : MessageType} {data : D} (h : Sound cfg r s)
    (hok : Orderly r s (.put id type data))
    (hstep : Vocoder.step cfg s (.put id type data) = some s') : Sound cfg r s' := by
  have hshaped := shaped_step h.shaped hstep
  cases hstep
  refine h.world hshaped ⟨fun hmem => hmem, fun hmem => hmem, fun hmem => hmem, .rfl, .rfl, .rfl,
    .rfl, rfl, rfl, rfl, .rfl, fun _ => rfl⟩ rfl rfl rfl h.aborting ?_ ?_
  · refine uses_put h.usedPay fun hid htype => ?_
    obtain rfl : type = .newRequest := htype
    exact hok.admits hid (by simp)
  · refine uses_put h.usedDone fun hid htype => ?_
    obtain rfl : type = .streamDone := htype
    exact hok.admits hid (by simp)

theorem Sound.record (h : Sound cfg r s) (hok : Orderly r s (.record id discarded))
    (hstep : Vocoder.step cfg s (.record id discarded) = some s') : Sound cfg r s' := by
  have hshaped := shaped_step h.shaped hstep
  have hne : r ≠ id := Ne.symm hok.admits
  simp only [Vocoder.step] at hstep
  split at hstep
  · obtain ⟨loop, hloop, rfl⟩ := Option.map_eq_some_iff.mp hstep
    obtain ⟨marks, hmarks, rfl⟩ := Option.map_eq_some_iff.mp hloop
    refine h.world hshaped ⟨fun hmem => ?_, fun hmem => hmem, fun hmem => hmem, .rfl, .rfl, .rfl,
      .rfl, rfl, rfl, rfl, .rfl, fun _ => rfl⟩ rfl rfl rfl ?_ h.usedPay h.usedDone
    · exact (mem_recordAborted hmarks hmem).resolve_right hne
    · exact fun heq => hne (Option.some.inj heq).symm
  · cases hstep

theorem Sound.clear (h : Sound cfg r s) (hstep : Vocoder.step cfg s .clear = some s') :
    Sound cfg r s' := by
  have hshaped := shaped_step h.shaped hstep
  simp only [Vocoder.step] at hstep
  split at hstep
  next id haborting =>
    have hne : r ≠ id := by
      rintro rfl
      exact h.aborting haborting
    split at hstep
    · cases hstep
    · cases hstep
      exact h.world hshaped ⟨fun h => h, fun h => h, fun h => h, mem_dropId_ne hne,
        mem_dropId_ne hne, mem_dropId_ne hne, mem_dropId_ne hne, rfl, rfl, rfl, .rfl, fun _ => rfl⟩
        rfl rfl rfl (by simp) h.usedPay h.usedDone
  · cases hstep

theorem Sound.toEnded (h : Sound cfg r s) (hshaped : Shaped cfg t)
    (harrived : t.loop.arrived = s.loop.arrived) (haborting : t.aborting = s.aborting)
    (hkinds : OneTerminal (t.kindsOf r)) (hentries : NoEntries r t) (hrequests : r ∉ t.requests)
    (hstepping : r ∉ t.work.stepping) (hfree : ¬t.Engaged r)
    (hpaid : r ∈ t.completedStream ∨ r ∈ t.completedNonStreaming → 1 ≤ t.pays r)
    (hfinished : r ∈ t.completedStream → 1 ≤ t.fins r) : Sound cfg r t where
  shaped := hshaped
  aborting := haborting ▸ h.aborting
  usedPay := harrived ▸ h.usedPay
  usedDone := harrived ▸ h.usedDone
  emitted hmem := absurd hmem hentries.emitted
  paid := by
    rintro (hmem | hmem | hmem | hmem)
    · exact absurd hmem hentries.payload
    · exact hpaid (Or.inl hmem)
    · exact hpaid (Or.inr hmem)
    · exact absurd hmem hrequests
  finished := fun hmem => hmem.elim hfinished fun hmem => absurd hmem hentries.pendingDone
  once := by
    rw [count_eq_zero_of_not_mem hrequests]
    exact Nat.zero_le 1
  stepping := by
    rw [count_eq_zero_of_not_mem hstepping]
    exact Nat.zero_le 1
  states hmem := absurd hmem hstepping
  phase := .ended hkinds hentries hrequests (Or.inl hfree)

/-- What failing the request does. -/
structure Failed (r : String) (s t : Vocoder D) : Prop where
  kinds : t.kindsOf r = s.kindsOf r ++ [.error]
  entries : NoEntries r t
  completedStream : t.completedStream = s.completedStream
  completedNonStreaming : t.completedNonStreaming = s.completedNonStreaming
  arrived : t.loop.arrived = s.loop.arrived
  aborting : t.aborting = s.aborting

theorem failed_of_failId (h : s.failId r discarded = some t) :
    Failed r s t := by
  obtain ⟨loop, hloop, rfl⟩ := Option.map_eq_some_iff.mp h
  obtain ⟨marks, hmarks, rfl⟩ := Option.map_eq_some_iff.mp hloop
  exact ⟨kindsOf_put_self, noEntries_clearState r _, rfl, rfl, rfl, rfl⟩

theorem Live.oneTerminal (h : Live r s) {kind : Kind} (hkind : kind ≠ .stream) :
    OneTerminal (s.kindsOf r ++ [kind]) := by
  obtain ⟨n, hn⟩ := h.kinds
  exact ⟨n, kind, hkind, by rw [hn]⟩

theorem Sound.failed (h : Sound cfg r s) (hlive : Live r s) (hshaped : Shaped cfg t)
    (hf : Failed r s t) (hrequests : r ∉ t.requests) (hstepping : r ∉ t.work.stepping)
    (hfree : ¬t.Engaged r) : Sound cfg r t := by
  refine h.toEnded hshaped hf.arrived hf.aborting ?_ hf.entries hrequests hstepping hfree ?_ ?_
  · rw [hf.kinds]
    exact hlive.oneTerminal (by simp)
  · rintro (hmem | hmem)
    · exact absurd (hf.completedStream ▸ hmem) hlive.stream
    · exact absurd (hf.completedNonStreaming ▸ hmem) hlive.single
  · exact fun hmem => absurd (hf.completedStream ▸ hmem) hlive.stream

section Loop

variable {loop : Collector D} {msg : Incoming D} {fate : Fate} {type : MessageType}

theorem uses_append_ne (hne : msg.requestId ≠ r ∨ msg.type ≠ type) :
    uses r type (msgs ++ [msg]) = uses r type msgs := by
  have hnot : ¬(msg.requestId = r ∧ msg.type = type) := by
    rintro ⟨hid, htype⟩
    exact hne.elim (fun h => h hid) fun h => h htype
  simp [uses, countP_append, hnot]

theorem uses_append_self (hid : msg.requestId = r) (htype : msg.type = type) :
    uses r type (msgs ++ [msg]) = uses r type msgs + 1 := by
  simp [uses, countP_append, hid, htype]

/-- The message that the loop has looked at was there before. -/
theorem mem_of_log (hold : Collected cfg s.loop) (hnew : Collected cfg loop)
    (harrived : loop.arrived = s.loop.arrived) (hlog : loop.log = s.loop.log ++ [(msg, fate)]) :
    msg ∈ s.loop.point.held ++ s.loop.point.opened ++ s.loop.pending ++ s.loop.inbox := by
  have hbefore := hold.ordered.order
  have hafter := hnew.ordered.order
  rw [harrived, hlog, hbefore, map_append, map_singleton] at hafter
  simp only [append_assoc, append_cancel_left_eq, singleton_append] at hafter
  have hmem : msg ∈ s.loop.point.held ++ (s.loop.pending ++ s.loop.inbox) := by
    rw [hafter]
    exact mem_cons_self
  simp only [mem_append] at hmem ⊢
  rcases hmem with hheld | hpending | hinbox
  · exact Or.inl (Or.inl (Or.inl hheld))
  · exact Or.inl (Or.inr hpending)
  · exact Or.inr hinbox

theorem uses_log_le (hnew : Collected cfg loop) :
    uses r type (loop.log.map Prod.fst) ≤ uses r type loop.arrived := by
  rw [hnew.ordered.order]
  unfold uses
  simp only [countP_append]
  omega

theorem Sound.fresh (h : Sound cfg r s) (hpays : s.pays r = 0) : r ∉ s.payloads ∧
    r ∉ s.completedStream ∧ r ∉ s.completedNonStreaming ∧ r ∉ s.requests := by
  have hnot : ¬1 ≤ s.pays r := by omega
  exact ⟨fun hmem => hnot (h.paid (Or.inl hmem)), fun hmem => hnot (h.paid (Or.inr (Or.inl hmem))),
    fun hmem => hnot (h.paid (Or.inr (Or.inr (Or.inl hmem)))),
    fun hmem => hnot (h.paid (Or.inr (Or.inr (Or.inr hmem))))⟩

theorem Sound.free (h : Sound cfg r s) (hfree : ¬s.Engaged r) :
    (Live r s ∧ Owed r s ∧ (r ∈ s.requests → s.work.computing = true → NoEntries r s) ∧
      (r ∈ s.requests → r ∉ s.payloads)) ∨
    (OneTerminal (s.kindsOf r) ∧ NoEntries r s ∧ r ∉ s.requests) := by
  cases h.phase with
  | live hlive _ howed hcomputing hfresh => exact Or.inl ⟨hlive, howed, hcomputing, hfresh⟩
  | done hlive hwork hpayload hfins => exact absurd (by simp [Engaged, hwork]) hfree
  | flush next hlive hwork hpays hfins => exact absurd (by simp [Engaged, hwork]) hfree
  | failing hlive hwork hhead => exact absurd (by simp [Engaged, hwork, hhead]) hfree
  | streaming outs hlive hwork houts howed => exact absurd (by simp [Engaged, hwork]) hfree
  | closing outs next hmarks hwork hkinds hpays hfins =>
    exact absurd (by simp [Engaged, hwork]) hfree
  | closed next hwork hkinds hpays hfins => exact absurd (by simp [Engaged, hwork]) hfree
  | ended hkinds hentries hrequests _ => exact Or.inr ⟨hkinds, hentries, hrequests⟩

theorem not_engaged_idle (hidle : s.work = .idle) : ¬s.Engaged r := by
  simp [Engaged, hidle]

theorem OneTerminal.ended (h : OneTerminal (s.kindsOf r)) : s.Ended r := by
  obtain ⟨n, kind, hkind, hkinds⟩ := h
  exact ⟨kind, by simp [hkinds], hkind⟩

variable {work : Work D}

/-- The loop looks at a message that does not count. -/
theorem apart_log (hlog : loop.log = s.loop.log ++ [(msg, fate)])
    (hmarks : r ∈ loop.aborted → r ∈ s.loop.aborted) (harrived : loop.arrived = s.loop.arrived)
    (hother : msg.requestId ≠ r ∨ msg.type = .streamChunk) :
    Apart r s { s with loop := loop, work := work } := by
  have huses : ∀ type, type ≠ .streamChunk →
      uses r type (loop.log.map Prod.fst) = uses r type (s.loop.log.map Prod.fst) := by
    intro type htype
    rw [hlog, map_append, map_singleton]
    refine uses_append_ne (hother.imp_right fun hchunk => ?_)
    rw [hchunk]
    exact Ne.symm htype
  exact ⟨hmarks, fun hmem => hmem, fun hmem => hmem, .rfl, .rfl, .rfl, .rfl, rfl,
    huses _ (by simp), huses _ (by simp), harrived, rfl⟩

theorem apart_sameLog (hlog : loop.log = s.loop.log) (hmarks : loop.aborted = s.loop.aborted)
    (harrived : loop.arrived = s.loop.arrived) :
    Apart r s { s with loop := loop, work := work } := by
  have huses : ∀ type, uses r type (loop.log.map Prod.fst) =
      uses r type (s.loop.log.map Prod.fst) := fun type => by rw [hlog]
  refine ⟨fun hmem => ?_, fun hmem => hmem, fun hmem => hmem, .rfl, .rfl, .rfl, .rfl, rfl,
    huses _, huses _, harrived, rfl⟩
  exact (hmarks ▸ hmem : r ∈ s.loop.aborted)

/-- While the handler is idle, only payloads of the open batch are in the scheduler's hands. -/
theorem requests_idle (hidle : s.work = .idle) :
    s.requests = (s.loop.point.opened.filter (·.type = .newRequest)).map (·.requestId) := by
  unfold Vocoder.requests
  rw [hidle]
  exact append_nil _

/-- A message of the request is passed over. -/
theorem Sound.skip (h : Sound cfg r s) (hidle : s.work = .idle)
    (hshaped : Shaped cfg { s with loop := loop }) (hmsg : msg.requestId ∈ s.loop.aborted)
    (hopened : loop.point.opened = s.loop.point.opened)
    (hlog : loop.log = s.loop.log ++ [(msg, fate)]) (hmarks : loop.aborted = s.loop.aborted)
    (harrived : loop.arrived = s.loop.arrived) : Sound cfg r { s with loop := loop } := by
  have hrequests : ({ s with loop := loop } : Vocoder D).requests = s.requests := by
    rw [requests_idle hidle, requests_idle (s := { s with loop := loop }) hidle, hopened]
  by_cases hid : msg.requestId = r
  · rcases h.free (not_engaged_idle hidle) with ⟨hlive, -⟩ | ⟨hkinds, hentries, hnone⟩
    · exact absurd (hid ▸ hmsg) hlive.marks
    · have hmore : ∀ type, uses r type (s.loop.log.map Prod.fst) ≤
          uses r type (loop.log.map Prod.fst) := by
        intro type
        rw [hlog, map_append]
        unfold uses
        rw [countP_append]
        exact Nat.le_add_right _ _
      refine h.toEnded hshaped harrived rfl hkinds
        { hentries with }
        (hrequests ▸ hnone) (by simp [hidle, Work.stepping])
        (not_engaged_idle (s := { s with loop := loop }) hidle) (fun hmem => ?_) fun hmem => ?_
      · exact (h.paid (Or.inr (hmem.imp_right Or.inl))).trans (hmore _)
      · exact (h.finished (Or.inl hmem)).trans (hmore _)
  · have ha : Apart r s { s with loop := loop, work := s.work } :=
      apart_log hlog (fun hmem => hmarks ▸ hmem) harrived (Or.inl hid)
    exact h.apart hshaped ha (by rw [hrequests]) (fun _ => rfl) (le_refl _)
      (not_engaged_idle hidle) (not_engaged_idle (s := { s with loop := loop }) hidle)

/-- What the loop has looked at has not been counted. -/
theorem Sound.unseen (h : Sound cfg r s) (hcollected : Collected cfg loop)
    (hlog : loop.log = s.loop.log ++ [(msg, fate)]) (harrived : loop.arrived = s.loop.arrived)
    (hid : msg.requestId = r) :
    (msg.type = .newRequest → s.pays r = 0) ∧ (msg.type = .streamDone → s.fins r = 0) := by
  have hle : ∀ type, uses r type (loop.log.map Prod.fst) ≤ uses r type s.loop.arrived :=
    fun type => (uses_log_le hcollected).trans (le_of_eq (by rw [harrived]))
  have heq : ∀ type, msg.type = type →
      uses r type (loop.log.map Prod.fst) = uses r type (s.loop.log.map Prod.fst) + 1 := by
    intro type htype
    rw [hlog, map_append, map_singleton]
    exact uses_append_self hid htype
  refine ⟨fun htype => ?_, fun htype => ?_⟩
  · have hone := hle .newRequest
    rw [heq _ htype] at hone
    have := h.usedPay
    unfold Vocoder.pays
    omega
  · have hone := hle .streamDone
    rw [heq _ htype] at hone
    have := h.usedDone
    unfold Vocoder.fins
    omega

theorem Sound.live_of_payload (h : Sound cfg r s) (hidle : s.work = .idle) (hok : Orderly r s a)
    (hcollected : Collected cfg loop) (hlog : loop.log = s.loop.log ++ [(msg, fate)])
    (harrived : loop.arrived = s.loop.arrived) (hid : msg.requestId = r)
    (hmsg : msg.requestId ∉ s.loop.aborted) (htype : msg.type = .newRequest) :
    Live r s ∧ Owed r s ∧ s.pays r = 0 := by
  have hpays := (h.unseen hcollected hlog harrived hid).1 htype
  obtain ⟨hpayload, hstream, hsingle, hrequest⟩ := h.fresh hpays
  rcases h.free (not_engaged_idle hidle) with ⟨hlive, howed, -⟩ | ⟨hkinds, -, -⟩
  · exact ⟨hlive, howed, hpays⟩
  · have hawaits : s.Awaits r := Or.inl (mem_map.mpr
      ⟨msg, mem_of_log h.shaped.collected hcollected harrived hlog, hid⟩)
    rcases hok.remembers (OneTerminal.ended hkinds) hawaits with hmark | hmem | hmem
    · exact absurd hmark (hid ▸ hmsg)
    · exact absurd hmem hstream
    · exact absurd hmem hsingle

theorem Sound.loopFail (h : Sound cfg r s) (hidle : s.work = .idle) (hok : Orderly r s a)
    (hcollected : Collected cfg loop)
    (hshaped : Shaped cfg (({ s with loop := loop }.put msg.requestId .error).clearState
      msg.requestId)) (hmsg : msg.requestId ∉ s.loop.aborted) (htype : msg.type = .newRequest)
    (hopened : loop.point.opened = s.loop.point.opened)
    (hlog : loop.log = s.loop.log ++ [(msg, fate)])
    (hmarks : recordAborted s.loop.aborted msg.requestId discarded = some loop.aborted)
    (harrived : loop.arrived = s.loop.arrived) :
    Sound cfg r (({ s with loop := loop }.put msg.requestId .error).clearState msg.requestId) := by
  have hrequests : (({ s with loop := loop }.put msg.requestId .error).clearState
      msg.requestId).requests = s.requests := by
    rw [requests_idle hidle, ← hopened]
    exact requests_idle (s := ({ s with loop := loop }.put msg.requestId .error).clearState
      msg.requestId) hidle
  have hfree : ¬(({ s with loop := loop }.put msg.requestId .error).clearState
      msg.requestId).Engaged r :=
    not_engaged_idle (s := ({ s with loop := loop }.put msg.requestId .error).clearState
      msg.requestId) hidle
  by_cases hid : msg.requestId = r
  · obtain ⟨hlive, -, hpays⟩ :=
      h.live_of_payload hidle hok hcollected hlog harrived hid hmsg htype
    obtain ⟨-, -, -, hnone⟩ := h.fresh hpays
    obtain rfl := hid
    refine h.toEnded hshaped harrived rfl ?_ (noEntries_clearState _ _) (hrequests ▸ hnone) ?_
      hfree ?_ fun hmem => absurd hmem hlive.stream
    · have hkinds : (({ s with loop := loop }.put msg.requestId .error).clearState
          msg.requestId).kindsOf msg.requestId = s.kindsOf msg.requestId ++ [.error] :=
        kindsOf_put_self (s := { s with loop := loop })
      rw [hkinds]
      exact hlive.oneTerminal (by simp)
    · simp [hidle, Work.stepping, Vocoder.clearState, Vocoder.put]
    · exact fun hmem => hmem.elim (fun h => absurd h hlive.stream) fun h => absurd h hlive.single
  · have hne : r ≠ msg.requestId := Ne.symm hid
    have ha : Apart r s { s with loop := loop, work := s.work } := apart_log hlog
      (fun hmem => (mem_recordAborted hmarks hmem).resolve_right hne) harrived (Or.inl hid)
    have hput := (ha.trans (apart_put hne .error)).trans (apart_clearState hne)
    exact h.apart hshaped hput (by rw [hrequests]) (fun _ => rfl) (le_refl _)
      (not_engaged_idle hidle) hfree

theorem Sound.asked (h : Sound cfg r s) (work : Work D)
    (hshaped : Shaped cfg { s with loop := loop, work := work }) (hlive : Live r s)
    (howed : Owed r s) (hpays : s.pays r = 0) (hlog : loop.log = s.loop.log ++ [(msg, fate)])
    (hid : msg.requestId = r) (htype : msg.type = .newRequest)
    (hmarks : loop.aborted = s.loop.aborted) (harrived : loop.arrived = s.loop.arrived)
    (hcount : ({ s with loop := loop, work := work } : Vocoder D).requests.count r = 1)
    (hcomputing : work.computing = false) (hstepping : work.stepping = [])
    (hfree : ¬({ s with loop := loop, work := work } : Vocoder D).Engaged r) :
    Sound cfg r { s with loop := loop, work := work } := by
  obtain ⟨hpayload, -, -, hnone⟩ := h.fresh hpays
  have hmem : r ∈ ({ s with loop := loop, work := work } : Vocoder D).requests :=
    count_pos_iff.mp (by rw [hcount]; exact Nat.one_pos)
  have hpaid : 1 ≤ ({ s with loop := loop, work := work } : Vocoder D).pays r := by
    change 1 ≤ uses r .newRequest (loop.log.map Prod.fst)
    rw [hlog, map_append, map_singleton, uses_append_self hid htype]
    exact Nat.le_add_left 1 _
  have hfins : ({ s with loop := loop, work := work } : Vocoder D).fins r = s.fins r := by
    change uses r .streamDone (loop.log.map Prod.fst) = _
    rw [hlog, map_append, map_singleton, uses_append_ne (Or.inr (by simp [htype]))]
    rfl
  have hstep : r ∉ work.stepping := by
    rw [hstepping]
    exact not_mem_nil
  refine ⟨hshaped, h.aborting, harrived ▸ h.usedPay, harrived ▸ h.usedDone, h.emitted,
    fun _ => hpaid, fun hwhere => hfins ▸ h.finished hwhere, le_of_eq hcount, ?_,
    fun hmem => absurd hmem hstep, .live ?_ hfree ?_ ?_ fun _ => hpayload⟩
  · change work.stepping.count r ≤ 1
    rw [hstepping]
    exact Nat.zero_le 1
  · refine { hlive with marks := fun hmark => hlive.marks ?_ }
    exact (hmarks ▸ hmark : r ∈ s.loop.aborted)
  · refine ⟨fun _ => Or.inr hmem, fun hdone => ?_, fun hmem => absurd hmem hpayload⟩
    rcases howed.finished (hfins ▸ hdone) with hpending | ⟨hrequest, -⟩
    · exact Or.inl hpending
    · exact absurd hrequest hnone
  · intro _ hflag
    rw [show _ = work.computing from rfl, hcomputing] at hflag
    cases hflag

/-- A message that is no payload of the request does not count for it. -/
theorem other_counts (hown : ¬(msg.requestId = r ∧ msg.type = .newRequest)) :
    (([msg].filter (·.type = .newRequest)).map (·.requestId)).count r = 0 ∧
      (¬(msg.requestId = r ∧ msg.type = .streamDone) →
        msg.requestId ≠ r ∨ msg.type = .streamChunk) := by
  refine ⟨count_eq_zero_of_not_mem fun hmem => ?_, fun hdone => ?_⟩
  · obtain ⟨other, hother, hid⟩ := mem_map.mp hmem
    obtain ⟨hsame, hnew⟩ := mem_filter.mp hother
    obtain rfl := mem_singleton.mp hsame
    exact hown ⟨hid, of_decide_eq_true hnew⟩
  · by_cases hid : msg.requestId = r
    · refine Or.inr ?_
      cases hkind : msg.type with
      | newRequest => exact absurd ⟨hid, hkind⟩ hown
      | streamChunk => rfl
      | streamDone => exact absurd ⟨hid, hkind⟩ hdone
    · exact Or.inl hid

/-- A message joins the open batch. -/
theorem Sound.enter (h : Sound cfg r s) (hidle : s.work = .idle) (hok : Orderly r s a)
    (hcollected : Collected cfg loop) (hshaped : Shaped cfg { s with loop := loop })
    (hmsg : msg.requestId ∉ s.loop.aborted) (htype : msg.type ≠ .streamDone)
    (hopened : loop.point.opened = s.loop.point.opened ++ [msg])
    (hlog : loop.log = s.loop.log ++ [(msg, fate)]) (hmarks : loop.aborted = s.loop.aborted)
    (harrived : loop.arrived = s.loop.arrived) : Sound cfg r { s with loop := loop } := by
  have hfree : ¬({ s with loop := loop } : Vocoder D).Engaged r :=
    not_engaged_idle (s := { s with loop := loop }) hidle
  have hrequests : ({ s with loop := loop } : Vocoder D).requests = s.requests ++
      ([msg].filter (·.type = .newRequest)).map (·.requestId) := by
    rw [requests_idle (s := { s with loop := loop }) hidle, requests_idle hidle, hopened,
      filter_append, map_append]
  by_cases hown : msg.requestId = r ∧ msg.type = .newRequest
  · obtain ⟨hid, hnew⟩ := hown
    obtain ⟨hlive, howed, hpays⟩ :=
      h.live_of_payload hidle hok hcollected hlog harrived hid hmsg hnew
    obtain ⟨-, -, -, hnone⟩ := h.fresh hpays
    refine h.asked s.work hshaped hlive howed hpays hlog hid hnew hmarks harrived ?_
      (by rw [hidle]; rfl) (by rw [hidle]; rfl) hfree
    have hone : ([msg].filter (·.type = .newRequest)).map (·.requestId) = [r] := by
      simp [hnew, hid]
    rw [hrequests, hone, count_append, count_eq_zero_of_not_mem hnone]
    simp
  · obtain ⟨hzero, hother⟩ := other_counts hown
    have hother := hother fun hdone => htype hdone.2
    have ha : Apart r s { s with loop := loop, work := s.work } :=
      apart_log hlog (fun hmem => hmarks ▸ hmem) harrived hother
    refine h.apart hshaped ha ?_ (fun _ => rfl) (le_refl _) (not_engaged_idle hidle) hfree
    rw [hrequests, count_append, hzero, Nat.add_zero]

theorem begins_resting (h : Begins batch work) : work.computing = false ∧ work.stepping = [] := by
  cases h <;> exact ⟨rfl, rfl⟩

/-- The payloads in a batch of one kind. -/
theorem begins_requests (h : Begins batch work)
    (hkinds : (∀ msg ∈ batch, msg.type = .newRequest) ∨ ∀ msg ∈ batch, msg.type ≠ .newRequest) :
    work.requests = (batch.filter (·.type = .newRequest)).map (·.requestId) := by
  have hnone : (∀ msg ∈ batch, msg.type ≠ .newRequest) →
      batch.filter (·.type = .newRequest) = [] := by
    refine fun hother => filter_eq_nil_iff.mpr fun other hmem => ?_
    rw [decide_eq_true_eq]
    exact hother other hmem
  cases h with
  | nothing => rfl
  | payloads msg rest htype =>
    have hnew := hkinds.resolve_right fun hother => hother msg mem_cons_self htype
    rw [filter_eq_self.mpr fun other hmem => decide_eq_true (hnew other hmem)]
    simp [Work.requests]
  | chunks msg rest htype =>
    rw [hnone (hkinds.resolve_left fun hnew => by simp [hnew msg mem_cons_self] at htype)]
    rfl
  | chunk msg rest htype =>
    rw [hnone (hkinds.resolve_left fun hnew => by simp [hnew msg mem_cons_self] at htype)]
    rfl
  | done msg rest htype =>
    rw [hnone (hkinds.resolve_left fun hnew => by simp [hnew msg mem_cons_self] at htype)]
    rfl

theorem begins_engaged (h : Begins batch work)
    (hengaged : ({ s with loop := loop, work := work } : Vocoder D).Engaged r) :
    ∃ msg rest, batch = msg :: rest ∧ msg.type = .streamDone ∧ msg.requestId = r ∧
      work = .done r := by
  cases h with
  | done msg rest htype => exact ⟨msg, rest, rfl, htype, hengaged, congrArg Work.done hengaged⟩
  | _ => cases hengaged

variable (cfg s) in
theorem requests_handed (hpoint : loop.point = .handling batch) :
    ({ s with loop := loop, work := handler cfg batch } : Vocoder D).requests =
      (handler cfg batch).requests := by
  unfold Vocoder.requests
  simp only [hpoint]
  rfl

theorem Sound.handDone (h : Sound cfg r s) (hidle : s.work = .idle) (hok : Orderly r s a)
    (hcollected : Collected cfg loop)
    (hshaped : Shaped cfg { s with loop := loop, work := .done r })
    (hmsg : msg.requestId ∉ s.loop.aborted) (hopened : s.loop.point.opened = [])
    (hpoint : loop.point = .handling [msg]) (hlog : loop.log = s.loop.log ++ [(msg, fate)])
    (hmarks : loop.aborted = s.loop.aborted) (harrived : loop.arrived = s.loop.arrived)
    (hid : msg.requestId = r) (htype : msg.type = .streamDone) :
    Sound cfg r { s with loop := loop, work := .done r } := by
  have hfins := (h.unseen hcollected hlog harrived hid).2 htype
  have hnone : s.requests = [] := by
    rw [requests_idle hidle, hopened]
    rfl
  have hrequests : ({ s with loop := loop, work := .done r } : Vocoder D).requests = [] := by
    unfold Vocoder.requests
    simp only [hpoint]
    rfl
  have hpays : ({ s with loop := loop, work := .done r } : Vocoder D).pays r = s.pays r := by
    change uses r .newRequest (loop.log.map Prod.fst) = _
    rw [hlog, map_append, map_singleton, uses_append_ne (Or.inr (by simp [htype]))]
    rfl
  have hstream : r ∉ s.completedStream := by
    intro hmem
    have := h.finished (Or.inl hmem)
    omega
  have hdone : 1 ≤ ({ s with loop := loop, work := .done r } : Vocoder D).fins r := by
    change 1 ≤ uses r .streamDone (loop.log.map Prod.fst)
    rw [hlog, map_append, map_singleton, uses_append_self hid htype]
    exact Nat.le_add_left 1 _
  refine ⟨hshaped, h.aborting, harrived ▸ h.usedPay, harrived ▸ h.usedDone, h.emitted, ?_,
    fun _ => hdone, by rw [hrequests]; exact Nat.zero_le 1, Nat.zero_le 1,
    nofun, ?_⟩
  · rintro (hmem | hmem | hmem | hmem)
    · exact hpays ▸ h.paid (Or.inl hmem)
    · exact absurd hmem hstream
    · exact hpays ▸ h.paid (Or.inr (Or.inr (Or.inl hmem)))
    · rw [hrequests] at hmem
      cases hmem
  · rcases h.free (not_engaged_idle hidle) with ⟨hlive, howed, -⟩ | ⟨hkinds, hentries, -⟩
    · refine .done { hlive with marks := fun hmark => hlive.marks ?_ } rfl ?_
        hdone
      · exact (hmarks ▸ hmark : r ∈ s.loop.aborted)
      · intro hpaid
        rcases howed.payload (hpays ▸ hpaid) with hmem | hmem
        · exact hmem
        · rw [hnone] at hmem
          cases hmem
    · have hawaits : s.Awaits r := Or.inl (mem_map.mpr
        ⟨msg, mem_of_log h.shaped.collected hcollected harrived hlog, hid⟩)
      have hsingle : r ∈ s.completedNonStreaming := by
        rcases hok.remembers (OneTerminal.ended hkinds) hawaits with hmark | hmem | hmem
        · exact absurd hmark (hid ▸ hmsg)
        · exact absurd hmem hstream
        · exact hmem
      exact .ended hkinds
        { hentries with }
        (by rw [hrequests]; exact not_mem_nil) (Or.inr ⟨rfl, hsingle⟩)

/-- A message is a batch of its own. -/
theorem Sound.single (h : Sound cfg r s) (hidle : s.work = .idle) (hok : Orderly r s a)
    (hcollected : Collected cfg loop)
    (hshaped : Shaped cfg { s with loop := loop, work := handler cfg [msg] })
    (hmsg : msg.requestId ∉ s.loop.aborted) (hopened : s.loop.point.opened = [])
    (hpoint : loop.point = .handling [msg]) (hlog : loop.log = s.loop.log ++ [(msg, fate)])
    (hmarks : loop.aborted = s.loop.aborted) (harrived : loop.arrived = s.loop.arrived) :
    Sound cfg r { s with loop := loop, work := handler cfg [msg] } := by
  obtain ⟨hcomputing, hstepping⟩ := begins_resting (begins_handler cfg [msg])
  have hkinds : (∀ other ∈ [msg], other.type = .newRequest) ∨
      ∀ other ∈ [msg], other.type ≠ .newRequest := by
    simp only [mem_singleton, forall_eq]
    exact em _
  have hrequests := (requests_handed cfg s hpoint).trans
    (begins_requests (begins_handler cfg [msg]) hkinds)
  have hnone : s.requests = [] := by
    rw [requests_idle hidle, hopened]
    rfl
  by_cases hdone : ({ s with loop := loop, work := handler cfg [msg] } : Vocoder D).Engaged r
  · obtain ⟨first, rest, hbatch, htype, hid, hwork⟩ := begins_engaged (begins_handler cfg [msg])
      hdone
    obtain ⟨rfl, -⟩ := List.cons.inj hbatch
    rw [hwork] at hshaped ⊢
    exact h.handDone hidle hok hcollected hshaped hmsg hopened hpoint hlog hmarks harrived hid htype
  · by_cases hown : msg.requestId = r ∧ msg.type = .newRequest
    · obtain ⟨hid, hnew⟩ := hown
      obtain ⟨hlive, howed, hpays⟩ :=
        h.live_of_payload hidle hok hcollected hlog harrived hid hmsg hnew
      refine h.asked _ hshaped hlive howed hpays hlog hid hnew hmarks harrived ?_ hcomputing
        hstepping hdone
      rw [hrequests]
      simp [hnew, hid]
    · obtain ⟨hzero, hother⟩ := other_counts hown
      have hother := hother fun ⟨hid, htype⟩ => hdone (by simp [Engaged, handler, htype, hid])
      have ha : Apart r s { s with loop := loop, work := handler cfg [msg] } :=
        apart_log hlog (fun hmem => hmarks ▸ hmem) harrived hother
      refine h.apart hshaped ha ?_ (fun hmem => ?_) ?_ (not_engaged_idle hidle) hdone
      · rw [hrequests, hnone]
        exact hzero
      · rw [hnone] at hmem
        cases hmem
      · change (handler cfg [msg]).stepping.count r ≤ _
        rw [hstepping]
        exact Nat.zero_le _

/-- A batch is complete. -/
theorem Sound.close (h : Sound cfg r s) (hidle : s.work = .idle)
    (hshaped : Shaped cfg { s with loop := loop, work := handler cfg s.loop.point.opened })
    (hopened : s.loop.point.opened ≠ []) (hpoint : loop.point = .handling s.loop.point.opened)
    (hlog : loop.log = s.loop.log) (hmarks : loop.aborted = s.loop.aborted)
    (harrived : loop.arrived = s.loop.arrived) :
    Sound cfg r { s with loop := loop, work := handler cfg s.loop.point.opened } := by
  obtain ⟨hcomputing, hstepping⟩ := begins_resting (begins_handler cfg s.loop.point.opened)
  have hkinds : (∀ msg ∈ s.loop.point.opened, msg.type = .newRequest) ∨
      ∀ msg ∈ s.loop.point.opened, msg.type = .streamChunk := by
    have hgood := h.shaped.collected.point
    generalize s.loop.point = point at hgood hopened ⊢
    cases hgood with
    | idle => exact absurd rfl hopened
    | taken msg => exact absurd rfl hopened
    | collectingNew hne hopen => exact Or.inl hopen.requests
    | collectingChunks hne hopen => exact Or.inr hopen.chunks
    | handling batch => exact absurd rfl hopened
  have hrequests := (requests_handed cfg s hpoint).trans (begins_requests (begins_handler cfg _)
    (hkinds.imp_right fun hchunks msg hmsg => by simp [hchunks msg hmsg]))
  have hfree : ¬({ s with loop := loop, work := handler cfg s.loop.point.opened } :
      Vocoder D).Engaged r := by
    intro hengaged
    obtain ⟨msg, rest, hbatch, htype, -, -⟩ := begins_engaged (begins_handler cfg _) hengaged
    have hmem : msg ∈ s.loop.point.opened := hbatch ▸ mem_cons_self
    rcases hkinds with hnew | hchunk
    · rw [hnew msg hmem] at htype
      cases htype
    · rw [hchunk msg hmem] at htype
      cases htype
  refine h.apart hshaped (apart_sameLog hlog hmarks harrived) ?_ (fun _ => ?_) ?_
    (not_engaged_idle hidle) hfree
  · rw [hrequests, requests_idle hidle]
  · rw [hidle]
    exact hcomputing
  · change (handler cfg s.loop.point.opened).stepping.count r ≤ _
    rw [hstepping]
    exact Nat.zero_le _

theorem Sound.loopTurn {a : CollectAction D} {b : VocoderAction D} (h : Sound cfg r s)
    (ha : LoopAction a discarded) (hok : Orderly r s b) (hstep : s.loopStep cfg a = some s') :
    Sound cfg r s' := by
  have hshaped := shaped_loopTurn ha h.shaped hstep
  unfold Vocoder.loopStep at hstep
  split at hstep
  next hidle =>
    obtain ⟨loop, hloop, rfl⟩ := Option.map_eq_some_iff.mp hstep
    have hcollected := h.shaped.collected.step hloop
    cases loopMove_of_step ha h.shaped.collected.point hloop with
    | take msg hpoint hpoint' hlog hmarks herrors harrived =>
      rw [collected_same herrors (by simp [hpoint'])] at hshaped ⊢
      have ha' : Apart r s { s with loop := loop, work := s.work } :=
        apart_sameLog hlog hmarks harrived
      have hrequests : ({ s with loop := loop } : Vocoder D).requests = s.requests := by
        rw [requests_idle hidle, requests_idle (s := { s with loop := loop }) hidle, hpoint,
          hpoint']
        rfl
      exact h.apart hshaped ha' (by rw [hrequests]) (fun _ => rfl) (le_refl _)
        (not_engaged_idle hidle) (not_engaged_idle (s := { s with loop := loop }) hidle)
    | skip msg hmsg hopened hfree hlog hmarks herrors harrived =>
      rw [collected_same herrors hfree] at hshaped ⊢
      exact h.skip hidle hshaped hmsg hopened hlog hmarks harrived
    | fail msg hmsg htype hopened hfree hlog hmarks herrors harrived =>
      rw [collected_failed herrors hfree] at hshaped ⊢
      exact h.loopFail hidle hok hcollected hshaped hmsg htype hopened hlog hmarks harrived
    | enter msg hmsg htype hopened hfree hlog hmarks herrors harrived =>
      rw [collected_same herrors hfree] at hshaped ⊢
      exact h.enter hidle hok hcollected hshaped hmsg htype hopened hlog hmarks harrived
    | single msg hmsg hopened hpoint hlog hmarks herrors harrived =>
      rw [collected_handling cfg herrors hpoint] at hshaped ⊢
      exact h.single hidle hok hcollected hshaped hmsg hopened hpoint hlog hmarks harrived
    | close hopened hpoint hlog hmarks herrors harrived =>
      rw [collected_handling cfg herrors hpoint] at hshaped ⊢
      exact h.close hidle hshaped hopened hpoint hlog hmarks harrived
  · cases hstep

end Loop

end Omni.Streaming
