import Mathlib.Data.List.Induction
import Omni.Simple.Desk

/-!
# The prepared requests of Qwen3-TTS

The preprocessing stage leaves what it has prepared in `_PREPARED_REQUESTS`, and the request
builder of the engine takes it out. In between, an abort drops it: at once on the stage's thread,
and once more on the scheduler's thread if that finds the mark of the abort.
-/

namespace Omni.Tts

open Transition Simple List

variable {P V α : Type} {i : ℕ} {isResult : Bool} {requestId : String} {l₁ l₂ : List α} (l : List α)

/-- A request that the stage has put into the inbox of its scheduler. -/
structure PrepRequest (P : Type) where
  seq : ℕ
  requestId : String
  payload : P
  deriving DecidableEq

/-- A `Qwen3TTSPreparedRequest`, and the request that it has been made for. -/
structure PreparedRequest (P V : Type) where
  owner : PrepRequest P
  value : V
  deriving DecidableEq

/-- Where the scheduler's thread is. -/
inductive PrepPoint (P : Type)
  | idle
  /-- `_start_serial` has taken the message. -/
  | taken (req : PrepRequest P)
  /-- `_run_single` begins. -/
  | entered (req : PrepRequest P)
  /-- `_prepare_qwen3_tts_request`. -/
  | preparing (req : PrepRequest P)
  /-- The entry is in the map, `to_dict` is next. -/
  | stored (req : PrepRequest P)
  /-- `compute_fn` has returned. -/
  | returned (req : PrepRequest P)
  /-- `compute_fn` has raised. -/
  | raised (req : PrepRequest P)
  /-- The exception handler of `_start_serial`. -/
  | failing (req : PrepRequest P)
  | emitting (req : PrepRequest P)
  | emittingError (req : PrepRequest P)
  /-- The mark has been consumed, `_cleanup_aborted_request` is next. -/
  | cleaning (req : PrepRequest P)

namespace PrepPoint

/-- The message in hand. -/
def held : PrepPoint P → List (PrepRequest P)
  | idle => []
  | taken req | entered req | preparing req | stored req | returned req | raised req
  | failing req | emitting req | emittingError req | cleaning req => [req]

/-- `_consume_if_aborted` is called for the message: now, and where a message without a mark
goes. -/
def passed : PrepPoint P → Option (PrepRequest P × PrepPoint P)
  | taken req => some (req, entered req)
  | entered req => some (req, preparing req)
  | returned req => some (req, emitting req)
  | raised req => some (req, failing req)
  | failing req => some (req, emittingError req)
  | _ => none

/-- The message, while a call of `_consume_if_aborted` for it is still to come. -/
def unchecked : PrepPoint P → List (PrepRequest P)
  | taken req | entered req | preparing req | stored req | returned req | raised req
  | failing req => [req]
  | _ => []

/-- The message, when the map may have an entry for it. -/
def late : PrepPoint P → List (PrepRequest P)
  | stored req | returned req | raised req | failing req | emitting req | emittingError req
  | cleaning req => [req]
  | _ => []

/-- The message, when the map has an entry for it unless it is aborted. -/
def bears : PrepPoint P → List (PrepRequest P)
  | stored req | returned req | emitting req => [req]
  | _ => []

/-- The message, when an abort before now leads to the removal of its entry. -/
def due : PrepPoint P → List (PrepRequest P)
  | stored req | returned req | raised req | failing req | cleaning req => [req]
  | _ => []

end PrepPoint

/-- The preprocessing stage, its scheduler, the map, and what is on the way to the engine. -/
structure PrepStage (P V : Type) where
  inbox : List (PrepRequest P)
  point : PrepPoint P
  /-- `SimpleScheduler._aborted`. -/
  marks : List String
  /-- Results and errors. -/
  outbox : List (PrepRequest P × Bool)
  /-- `Stage._aborted`. -/
  gate : List String
  /-- An abort on the stage's thread that has still to call `_cleanup_aborted_request`. -/
  cleanup : Option String
  /-- Payloads for the engine. Their marker is the id of their request. -/
  flight : List (PrepRequest P)
  /-- `_PREPARED_REQUESTS`. -/
  prepared : String → Option (PreparedRequest P V)
  /-- All requests that have been put into the inbox. -/
  accepted : List (PrepRequest P)
  /-- Requests that an abort on this stage has hit. -/
  aborted : List (PrepRequest P)
  /-- Requests that an abort on the engine's stage has hit. -/
  engineAborted : List (PrepRequest P)
  /-- Requests that have failed here or on the way, until the coordinator's abort comes. -/
  failed : List (PrepRequest P)
  made : List (PreparedRequest P V)
  /-- The builds, with what they have found. -/
  built : List (PrepRequest P × Option (PreparedRequest P V))
  /-- Requests whose mark has been consumed. -/
  skipped : List (PrepRequest P)

/-- What the threads do. What computations return is given, as are the ids that an eviction from
a set discards, and the fate of a payload on its way. -/
inductive PrepAction (P V : Type)
  | submit (requestId : String) (payload : P)
  | abort (requestId : String) (gateDiscarded discarded : List String)
  | cleanup
  | take
  | check
  | prepare (outcome : Option V)
  | render (ok : Bool)
  | emit
  | clean
  | route (forward : Bool) (gateDiscarded : List String)
  | build (i : ℕ)
  | drop (i : ℕ)
  | engineAbort (requestId : String)

namespace PrepStage

/-- Before the first request. -/
def init (P V : Type) : PrepStage P V :=
  ⟨[], .idle, [], [], [], none, [], fun _ => none, [], [], [], [], [], [], []⟩

variable (s : PrepStage P V)

/-- `cleanup_prepared_qwen3_tts_request`, and the removal by `pop_prepared_qwen3_tts_request`. -/
def forget (requestId : String) : PrepStage P V :=
  { s with prepared := fun id => if id = requestId then none else s.prepared id }

/-- The requests that have not reached their end. -/
def present : List (PrepRequest P) :=
  s.failed ++ s.flight ++ s.outbox.map Prod.fst ++ s.point.held ++ s.inbox

/-- `_on_submit`. -/
def submit (requestId : String) (payload : P) : PrepStage P V :=
  if requestId ∈ s.gate then s
  else
    let req : PrepRequest P := ⟨s.accepted.length, requestId, payload⟩
    { s with inbox := s.inbox ++ [req], accepted := s.accepted ++ [req] }

/-- The requests that have been accepted under an id. -/
def under (requestId : String) : List (PrepRequest P) :=
  s.accepted.filter (·.requestId = requestId)

/-- `_on_abort`, until the scheduler has its mark. -/
def abort (requestId : String) (gateDiscarded discarded : List String) :
    Option (PrepStage P V) :=
  (recordAborted s.gate requestId gateDiscarded).bind fun gate =>
    (recordAborted s.marks requestId discarded).map fun marks =>
      { s with
        gate := gate
        marks := marks
        cleanup := some requestId
        aborted := s.aborted ++ s.under requestId
        failed := s.failed.filter (·.requestId ≠ requestId) }

/-- `_consume_if_aborted`, until the cleanup. -/
def check (req : PrepRequest P) (next : PrepPoint P) : PrepStage P V :=
  if req.requestId ∈ s.marks then
    { s with
      marks := s.marks.filter (· ≠ req.requestId)
      point := .cleaning req
      skipped := s.skipped ++ [req] }
  else { s with point := next }

/-- `_prepare_qwen3_tts_request`, and its entry in the map. -/
def prepare (req : PrepRequest P) : Option V → PrepStage P V
  | none => { s with point := .raised req }
  | some value =>
    { s with
      prepared := fun id => if id = req.requestId then some ⟨req, value⟩ else s.prepared id
      point := .stored req
      made := s.made ++ [⟨req, value⟩] }

/-- The reply. -/
def emit (req : PrepRequest P) (isResult : Bool) : PrepStage P V :=
  { s with outbox := s.outbox ++ [(req, isResult)], point := .idle }

/-- A result is sent to the engine, an error to the coordinator. -/
def send (req : PrepRequest P) (isResult : Bool) (gateDiscarded : List String) :
    Option (PrepStage P V) :=
  if isResult then some { s with flight := s.flight ++ [req] }
  else (recordAborted s.gate req.requestId gateDiscarded).map fun gate =>
    { s with gate := gate, failed := s.failed ++ [req] }

/-- `build_sglang_qwen3_tts_request`, as far as it takes the entry out. -/
def build (i : ℕ) (req : PrepRequest P) : PrepStage P V :=
  { s.forget req.requestId with
    flight := s.flight.eraseIdx i
    built := s.built ++ [(req, s.prepared req.requestId)] }

variable [DecidableEq P]

/-- A payload does not get to its build. -/
def drop (i : ℕ) (req : PrepRequest P) : PrepStage P V :=
  { s with
    flight := s.flight.eraseIdx i
    failed := if req ∈ s.aborted then s.failed else s.failed ++ [req] }

/-- The transition function. Submits, aborts and results are handled by the stage's one thread,
which forwards a reply unless its request has been aborted. -/
def step (s : PrepStage P V) : PrepAction P V → Option (PrepStage P V)
  | .submit requestId payload =>
    if s.cleanup = none then some (s.submit requestId payload) else none
  | .abort requestId gateDiscarded discarded =>
    if s.cleanup = none then s.abort requestId gateDiscarded discarded else none
  | .cleanup => s.cleanup.map fun requestId => { s.forget requestId with cleanup := none }
  | .take =>
    match s.point, s.inbox with
    | .idle, req :: rest => some { s with inbox := rest, point := .taken req }
    | _, _ => none
  | .check => s.point.passed.map fun (req, next) => s.check req next
  | .prepare outcome =>
    match s.point with
    | .preparing req => some (s.prepare req outcome)
    | _ => none
  | .render ok =>
    match s.point with
    | .stored req => some { s with point := if ok then .returned req else .raised req }
    | _ => none
  | .emit =>
    match s.point with
    | .emitting req => some (s.emit req true)
    | .emittingError req => some (s.emit req false)
    | _ => none
  | .clean =>
    match s.point with
    | .cleaning req => some { s.forget req.requestId with point := .idle }
    | _ => none
  | .route forward gateDiscarded =>
    match s.cleanup, s.outbox with
    | none, (req, isResult) :: rest =>
      if forward then { s with outbox := rest }.send req isResult gateDiscarded
      else if req ∈ s.aborted then some { s with outbox := rest }
      else none
    | _, _ => none
  | .build i => (s.flight[i]?).map fun req => s.build i req
  | .drop i => (s.flight[i]?).map fun req => s.drop i req
  | .engineAbort requestId =>
    some { s.forget requestId with engineAborted := s.engineAborted ++ s.under requestId }

/-- An id is accepted again when nothing is left of its earlier requests, and no eviction discards
the mark of a request that waits or is being processed. -/
def MarksKept (s : PrepStage P V) : PrepAction P V → Prop
  | .submit requestId _ =>
    requestId ∉ s.gate → requestId ∉ s.marks ∧ ∀ req ∈ s.present, req.requestId ≠ requestId
  | .abort _ _ discarded => ∀ req ∈ s.point.unchecked ++ s.inbox, req.requestId ∉ discarded
  | _ => True

instance : ∀ (s : PrepStage P V) (a : PrepAction P V), Decidable (MarksKept s a)
  | s, .submit requestId _ => inferInstanceAs (Decidable (requestId ∉ s.gate →
      requestId ∉ s.marks ∧ ∀ req ∈ s.present, req.requestId ≠ requestId))
  | s, .abort _ _ discarded => inferInstanceAs
      (Decidable (∀ req ∈ s.point.unchecked ++ s.inbox, req.requestId ∉ discarded))
  | _, .cleanup | _, .take | _, .check | _, .prepare _ | _, .render _ | _, .emit | _, .clean
  | _, .route _ _ | _, .build _ | _, .drop _ | _, .engineAbort _ =>
    inferInstanceAs (Decidable True)

omit [DecidableEq P] in
/-- The request has been built, or its abort is over. -/
def Ended (s : PrepStage P V) (req : PrepRequest P) : Prop :=
  (∃ b ∈ s.built, b.1 = req) ∨
    (req ∈ s.aborted ∧ s.cleanup ≠ some req.requestId ∧ req ∉ s.point.held ++ s.inbox)

omit [DecidableEq P] in
/-- The requests whose entry has to be in the map. -/
def bearers (s : PrepStage P V) : List (PrepRequest P) :=
  s.flight ++ (s.outbox.filter (·.2)).map Prod.fst ++ s.point.bears

omit [DecidableEq P] in
/-- The requests that may have an entry in the map. -/
def holders (s : PrepStage P V) : List (PrepRequest P) :=
  s.failed ++ s.flight ++ s.outbox.map Prod.fst ++ s.point.late

end PrepStage

open PrepStage

/-- What an entry says. -/
structure GoodEntry (s : PrepStage P V) (requestId : String) (e : PreparedRequest P V) : Prop where
  id : e.owner.requestId = requestId
  made : e ∈ s.made
  accepted : e.owner ∈ s.accepted
  notBuilt : ∀ b ∈ s.built, b.1 ≠ e.owner
  live : s.cleanup = some requestId ∨
    (e.owner ∈ s.holders ∧ (e.owner ∈ s.aborted → e.owner ∈ s.point.due))

/-- The invariant of the stage. -/
structure SoundPrep (s : PrepStage P V) : Prop where
  ids : (s.present.map (·.requestId)).Nodup
  accepted : ∀ req ∈ s.present, req ∈ s.accepted
  seqs : ∀ req ∈ s.accepted, req.seq < s.accepted.length
  builtAccepted : ∀ b ∈ s.built, b.1 ∈ s.accepted
  gone : ∀ b ∈ s.built, b.1 ∉ s.present
  entry : ∀ requestId e, s.prepared requestId = some e → GoodEntry s requestId e
  kept : ∀ req ∈ s.bearers, req ∉ s.aborted → req ∉ s.engineAborted →
    ∃ value, s.prepared req.requestId = some ⟨req, value⟩
  marked : ∀ req ∈ s.point.unchecked ++ s.inbox, req ∈ s.aborted → req.requestId ∈ s.marks
  unmarked : ∀ req ∈ s.point.unchecked ++ s.inbox, req ∉ s.aborted → req.requestId ∉ s.marks
  cleanup : ∀ requestId, s.cleanup = some requestId → ∀ req ∈ s.accepted,
    req.requestId = requestId → req ∈ s.aborted
  builds : ∀ b ∈ s.built, b.1 ∉ s.aborted → b.1 ∉ s.engineAborted →
    ∃ e ∈ s.made, b.2 = some e ∧ e.owner = b.1
  skips : ∀ req ∈ s.skipped, req ∈ s.aborted
  abortedAccepted : ∀ req ∈ s.aborted, req ∈ s.accepted

theorem sound_prep_init : SoundPrep (init P V) where
  ids := nodup_nil
  accepted _ h := by cases h
  seqs _ h := by cases h
  builtAccepted _ h := by cases h
  gone _ h := by cases h
  entry _ _ h := by cases h
  kept _ h := by cases h
  marked _ h := by cases h
  unmarked _ h := by cases h
  cleanup _ h := by cases h
  builds _ h := by cases h
  skips _ h := by cases h
  abortedAccepted _ h := by cases h

theorem append_subset_append_of_right (h : l₁ ⊆ l₂) :
    l ++ l₁ ⊆ l ++ l₂ :=
  append_subset.mpr ⟨subset_append_left _ _, fun _ hmem => mem_append_right _ (h hmem)⟩

theorem append_subset_append_of_left (h : l₁ ⊆ l₂) :
    l₁ ++ l ⊆ l₂ ++ l :=
  append_subset.mpr ⟨fun _ hmem => mem_append_left _ (h hmem), subset_append_right _ _⟩

section Steps

variable {s : PrepStage P V} {req : PrepRequest P}

variable (point : PrepPoint P)

theorem PrepPoint.unchecked_subset : point.unchecked ⊆ point.held := by
  cases point <;> simp [unchecked, held]

theorem PrepPoint.late_subset : point.late ⊆ point.held := by
  cases point <;> simp [late, held]

theorem PrepPoint.bears_subset : point.bears ⊆ point.late := by
  cases point <;> simp [bears, late]

theorem PrepPoint.due_subset : point.due ⊆ point.late := by
  cases point <;> simp [due, late]

/-- What has to have an entry may have one. -/
theorem PrepStage.bearers_subset : s.bearers ⊆ s.holders := by
  intro req hreq
  simp only [bearers, holders, mem_append] at hreq ⊢
  rcases hreq with (hflight | hresult) | hpoint
  · exact Or.inl (Or.inl (Or.inr hflight))
  · obtain ⟨reply, hreply, rfl⟩ := mem_map.mp hresult
    exact Or.inl (Or.inr (mem_map_of_mem (mem_filter.mp hreply).1))
  · exact Or.inr (s.point.bears_subset hpoint)

/-- What may have an entry has not reached its end. -/
theorem PrepStage.holders_subset : s.holders ⊆ s.present := by
  intro req hreq
  simp only [holders, present, mem_append] at hreq ⊢
  rcases hreq with hreq | hpoint
  · exact Or.inl (Or.inl hreq)
  · exact Or.inl (Or.inr (s.point.late_subset hpoint))

/-- What has still to be checked has not reached its end. -/
theorem PrepStage.unchecked_subset : s.point.unchecked ++ s.inbox ⊆ s.present := by
  intro req hreq
  simp only [present, mem_append] at hreq ⊢
  rcases hreq with hpoint | hinbox
  · exact Or.inl (Or.inr (s.point.unchecked_subset hpoint))
  · exact Or.inr hinbox

/-- A request has an id of its own among those that have not reached their end. -/
theorem SoundPrep.apart (h : SoundPrep s) {rest : List (PrepRequest P)}
    (hperm : s.present.Perm (req :: rest)) :
    req ∈ s.present ∧ (rest.map (·.requestId)).Nodup ∧
      ∀ other ∈ rest, other ∈ s.present ∧ other.requestId ≠ req.requestId := by
  have hnodup := (hperm.map (·.requestId)).nodup_iff.mp h.ids
  rw [map_cons, nodup_cons] at hnodup
  refine ⟨hperm.mem_iff.mpr mem_cons_self, hnodup.2, fun other hother => ⟨?_, fun heq => ?_⟩⟩
  · exact hperm.mem_iff.mpr (mem_cons_of_mem _ hother)
  · exact hnodup.1 (heq ▸ mem_map_of_mem (f := (·.requestId)) hother)

/-- The request in hand, and the others. -/
theorem PrepStage.present_held (hheld : s.point.held = [req]) :
    s.present.Perm (req :: (s.failed ++ s.flight ++ s.outbox.map Prod.fst ++ s.inbox)) := by
  unfold present
  rw [hheld, append_assoc, singleton_append]
  exact perm_middle

/-- A request on its way, and the others. -/
theorem PrepStage.present_flight (hi : s.flight[i]? = some req) :
    s.present.Perm (req :: (s.failed ++ s.flight.eraseIdx i ++ s.outbox.map Prod.fst ++
      s.point.held ++ s.inbox)) := by
  obtain ⟨hlt, rfl⟩ := List.getElem?_eq_some_iff.mp hi
  have hflight := (getElem_cons_eraseIdx_perm hlt).symm
  have hall := (((hflight.append_left s.failed).append_right (s.outbox.map Prod.fst)).append_right
    s.point.held).append_right s.inbox
  refine hall.trans ?_
  simp only [append_assoc, cons_append]
  exact perm_middle

/-- The thread goes on, and the map stays as it is. -/
theorem SoundPrep.move (h : SoundPrep s) (point : PrepPoint P)
    (hheld : point.held = s.point.held) (hlate : s.point.late ⊆ point.late)
    (hdue : ∀ req ∈ s.point.due, req ∈ s.aborted → req ∈ point.due)
    (hbears : point.bears ⊆ s.point.bears) (hunchecked : point.unchecked ⊆ s.point.unchecked) :
    SoundPrep { s with point := point } := by
  have hpresent : present { s with point := point } = s.present := by
    simp only [present, hheld]
  have hwaiting : point.unchecked ++ s.inbox ⊆ s.point.unchecked ++ s.inbox :=
    append_subset_append_of_left _ hunchecked
  refine { h with
    ids := hpresent ▸ h.ids, accepted := hpresent ▸ h.accepted, gone := hpresent ▸ h.gone
    entry := fun requestId e he => ?_, kept := fun req hreq => ?_
    marked := fun req hreq => h.marked req (hwaiting hreq)
    unmarked := fun req hreq => h.unmarked req (hwaiting hreq) }
  · have hentry := h.entry requestId e he
    refine { hentry with live := hentry.live.imp_right ?_ }
    rintro ⟨hholder, habort⟩
    refine ⟨append_subset_append_of_right _ hlate hholder, fun haborted => ?_⟩
    exact hdue e.owner (habort haborted) haborted
  · exact h.kept req (append_subset_append_of_right _ hbears hreq)

theorem SoundPrep.take (h : SoundPrep s) {rest : List (PrepRequest P)} (hpoint : s.point = .idle)
    (hinbox : s.inbox = req :: rest) :
    SoundPrep { s with inbox := rest, point := .taken req } := by
  have hpresent : present { s with inbox := rest, point := .taken req } = s.present := by
    simp only [present, hpoint, hinbox, PrepPoint.held, append_nil, append_assoc, singleton_append]
  have hwaiting : PrepPoint.unchecked (.taken req) ++ rest = s.point.unchecked ++ s.inbox := by
    rw [hpoint, hinbox]
    rfl
  refine { h with
    ids := hpresent ▸ h.ids, accepted := hpresent ▸ h.accepted, gone := hpresent ▸ h.gone
    entry := fun requestId e he => ?_, kept := fun other hother => ?_, marked := ?_
    unmarked := ?_ }
  · have hentry := h.entry requestId e he
    refine { hentry with live := ?_ }
    have hlive := hentry.live
    simp only [holders, hpoint] at hlive
    exact hlive
  · refine h.kept other ?_
    simp only [bearers, hpoint]
    exact hother
  · change ∀ other ∈ PrepPoint.unchecked (.taken req) ++ rest, _
    rw [hwaiting]
    exact h.marked
  · change ∀ other ∈ PrepPoint.unchecked (.taken req) ++ rest, _
    rw [hwaiting]
    exact h.unmarked

theorem SoundPrep.consume (h : SoundPrep s) (hheld : s.point.held = [req])
    (hunchecked : s.point.unchecked = [req]) (hmark : req.requestId ∈ s.marks) :
    SoundPrep { s with
      marks := s.marks.filter (· ≠ req.requestId)
      point := .cleaning req
      skipped := s.skipped ++ [req] } := by
  obtain ⟨hreq, _, hothers⟩ := h.apart (present_held hheld)
  have haborted : req ∈ s.aborted := by
    by_contra hlive
    exact h.unmarked req (mem_append_left _ (hunchecked ▸ mem_singleton_self req)) hlive hmark
  have hpresent : present { s with
      marks := s.marks.filter (· ≠ req.requestId)
      point := .cleaning req
      skipped := s.skipped ++ [req] } = s.present := by
    unfold present
    rw [hheld]
    rfl
  have hlate : s.point.late ⊆ [req] := hheld ▸ s.point.late_subset
  refine ⟨hpresent ▸ h.ids, hpresent ▸ h.accepted, h.seqs, h.builtAccepted, hpresent ▸ h.gone,
    fun requestId e he => ?_, fun other hother => ?_, fun other hother hab => ?_,
    fun other hother hlive hmem => ?_, h.cleanup, h.builds, fun other hother => ?_,
    h.abortedAccepted⟩
  · have hentry := h.entry requestId e he
    refine { hentry with live := hentry.live.imp_right ?_ }
    rintro ⟨hholder, habort⟩
    refine ⟨append_subset_append_of_right _ hlate hholder, fun hab => ?_⟩
    exact hlate (s.point.due_subset (habort hab))
  · exact h.kept other (append_subset_append_of_right _ (nil_subset _) hother)
  · have hinbox : other ∈ s.inbox := hother
    have hne := (hothers other (mem_append_right _ hinbox)).2
    exact mem_filter.mpr ⟨h.marked other (mem_append_right _ hinbox) hab,
      decide_eq_true hne⟩
  · have hinbox : other ∈ s.inbox := hother
    exact h.unmarked other (mem_append_right _ hinbox) hlive (mem_filter.mp hmem).1
  · rcases mem_append.mp hother with hold | hlast
    · exact h.skips other hold
    · exact mem_singleton.mp hlast ▸ haborted

/-- The entry goes into the map. -/
theorem SoundPrep.store (h : SoundPrep s) (hpoint : s.point = .preparing req) (value : V) :
    SoundPrep (s.prepare req (some value)) := by
  have hheld : s.point.held = [req] := by rw [hpoint]; rfl
  obtain ⟨hreq, _, hothers⟩ := h.apart (present_held hheld)
  have hpresent : (s.prepare req (some value)).present = s.present := by
    simp only [present, prepare, hpoint, PrepPoint.held]
  have hwaiting : (s.prepare req (some value)).point.unchecked ++ s.inbox =
      s.point.unchecked ++ s.inbox := by
    rw [hpoint]
    rfl
  refine ⟨hpresent ▸ h.ids, hpresent ▸ h.accepted, h.seqs, h.builtAccepted, hpresent ▸ h.gone,
    fun requestId e he => ?_, fun other hother hlive hengine => ?_, ?_, ?_, h.cleanup,
    fun b hb hlive hengine => ?_, h.skips, h.abortedAccepted⟩
  · simp only [prepare] at he
    split at he
    next hid =>
      cases he
      refine ⟨hid.symm, mem_append_right _ (mem_singleton_self _), h.accepted req hreq,
        fun b hb heq => h.gone b hb (heq ▸ hreq), Or.inr ⟨?_, fun _ => ?_⟩⟩
      · exact mem_append_right _ (mem_singleton_self _)
      · exact mem_singleton_self _
    · have hentry := h.entry requestId e he
      refine { hentry with made := mem_append_left _ hentry.made, live := hentry.live.imp_right ?_ }
      rintro ⟨hholder, habort⟩
      have hlate : s.point.late = [] := by rw [hpoint]; rfl
      have hdue : s.point.due = [] := by rw [hpoint]; rfl
      refine ⟨?_, fun hab => ?_⟩
      · simp only [holders, hlate, append_nil] at hholder
        exact mem_append_left _ hholder
      · exact absurd (hdue ▸ habort hab) not_mem_nil
  · rcases mem_append.mp hother with hold | hlast
    · have hbears : other ∈ s.bearers := mem_append_left _ hold
      have hrest : other ∈ s.failed ++ s.flight ++ s.outbox.map Prod.fst ++ s.inbox := by
        simp only [mem_append] at hold ⊢
        rcases hold with hflight | hresult
        · exact Or.inl (Or.inl (Or.inr hflight))
        · obtain ⟨reply, hreply, rfl⟩ := mem_map.mp hresult
          exact Or.inl (Or.inr (mem_map_of_mem (mem_filter.mp hreply).1))
      obtain ⟨value', hvalue'⟩ := h.kept other hbears hlive hengine
      refine ⟨value', ?_⟩
      rw [← hvalue']
      exact if_neg (hothers other hrest).2
    · cases mem_singleton.mp hlast
      exact ⟨value, if_pos rfl⟩
  · change ∀ other ∈ (s.prepare req (some value)).point.unchecked ++ s.inbox, _
    rw [hwaiting]
    exact h.marked
  · change ∀ other ∈ (s.prepare req (some value)).point.unchecked ++ s.inbox, _
    rw [hwaiting]
    exact h.unmarked
  · obtain ⟨e, hmade, he, howner⟩ := h.builds b hb hlive hengine
    exact ⟨e, mem_append_left _ hmade, he, howner⟩

/-- The reply is put into the outbox. -/
theorem SoundPrep.emit (h : SoundPrep s) (hheld : s.point.held = [req]) (hdue : s.point.due = [])
    (hbears : isResult = true → s.point.bears = [req]) :
    SoundPrep (s.emit req isResult) := by
  have hpresent : (s.emit req isResult).present = s.present := by
    change s.failed ++ s.flight ++ (s.outbox ++ [(req, isResult)]).map Prod.fst ++ [] ++ s.inbox =
      s.failed ++ s.flight ++ s.outbox.map Prod.fst ++ s.point.held ++ s.inbox
    rw [hheld, map_append, append_nil, ← append_assoc (s.failed ++ s.flight)]
    rfl
  have hwaiting : ∀ other ∈ s.inbox, other ∈ s.point.unchecked ++ s.inbox :=
    fun other hother => mem_append_right _ hother
  refine { h with
    ids := hpresent ▸ h.ids, accepted := hpresent ▸ h.accepted, gone := hpresent ▸ h.gone
    entry := fun requestId e he => ?_, kept := fun other hother => ?_
    marked := fun other hother => h.marked other (hwaiting other hother)
    unmarked := fun other hother => h.unmarked other (hwaiting other hother) }
  · have hentry := h.entry requestId e he
    refine { hentry with live := hentry.live.imp_right ?_ }
    rintro ⟨hholder, habort⟩
    refine ⟨?_, fun hab => absurd (hdue ▸ habort hab) not_mem_nil⟩
    simp only [holders, PrepStage.emit, map_append, mem_append] at hholder ⊢
    rcases hholder with (hrest | houtbox) | hlate
    · exact Or.inl (Or.inl hrest)
    · exact Or.inl (Or.inr (Or.inl houtbox))
    · have howner := hheld ▸ s.point.late_subset hlate
      exact Or.inl (Or.inr (Or.inr howner))
  · refine h.kept other ?_
    simp only [bearers, PrepStage.emit, filter_append, map_append, mem_append] at hother ⊢
    rcases hother with (hflight | (hold | hlast)) | hnone
    · exact Or.inl (Or.inl hflight)
    · exact Or.inl (Or.inr hold)
    · cases isResult with
      | true =>
        rw [hbears rfl]
        exact Or.inr hlast
      | false => cases hlast
    · cases hnone

/-- The entry of a request whose mark has been consumed is dropped. -/
theorem SoundPrep.clean (h : SoundPrep s) (hpoint : s.point = .cleaning req) :
    SoundPrep { s.forget req.requestId with point := .idle } := by
  have hheld : s.point.held = [req] := by rw [hpoint]; rfl
  obtain ⟨hreq, hnodup, hothers⟩ := h.apart (present_held hheld)
  have hpresent : present { s.forget req.requestId with point := .idle } =
      s.failed ++ s.flight ++ s.outbox.map Prod.fst ++ s.inbox := by
    simp only [present, forget, PrepPoint.held, append_nil]
  have hwaiting : ∀ other ∈ s.inbox, other ∈ s.point.unchecked ++ s.inbox :=
    fun other hother => mem_append_right _ hother
  refine { h with
    ids := ?_, accepted := ?_, gone := ?_, entry := fun requestId e he => ?_
    kept := fun other hother hlive hengine => ?_
    marked := fun other hother => h.marked other (hwaiting other hother)
    unmarked := fun other hother => h.unmarked other (hwaiting other hother) }
  · rw [hpresent]
    exact hnodup
  · rw [hpresent]
    exact fun other hother => h.accepted other (hothers other hother).1
  · rw [hpresent]
    exact fun b hb hmem => h.gone b hb (hothers b.1 hmem).1
  · simp only [forget, Option.ite_none_left_eq_some] at he
    have hentry := h.entry requestId e he.2
    refine { hentry with live := hentry.live.imp_right ?_ }
    rintro ⟨hholder, habort⟩
    have hne : e.owner ≠ req := fun heq => he.1 (hentry.id ▸ heq ▸ rfl)
    refine ⟨?_, fun hab => ?_⟩
    · simp only [holders, hpoint, PrepPoint.late, mem_append, mem_singleton] at hholder
      simp only [holders, forget, mem_append]
      rcases hholder with hrest | heq
      · exact Or.inl hrest
      · exact absurd heq hne
    · have hdue := habort hab
      rw [hpoint] at hdue
      exact absurd (mem_singleton.mp hdue) hne
  · have hold : other ∈ s.flight ++ (s.outbox.filter (·.2)).map Prod.fst := by
      simpa only [bearers, forget, PrepPoint.bears, append_nil] using hother
    have hrest : other ∈ s.failed ++ s.flight ++ s.outbox.map Prod.fst ++ s.inbox := by
      simp only [mem_append] at hold ⊢
      rcases hold with hflight | hresult
      · exact Or.inl (Or.inl (Or.inr hflight))
      · obtain ⟨reply, hreply, rfl⟩ := mem_map.mp hresult
        exact Or.inl (Or.inr (mem_map_of_mem (mem_filter.mp hreply).1))
    obtain ⟨value, hvalue⟩ := h.kept other (mem_append_left _ hold) hlive hengine
    refine ⟨value, ?_⟩
    rw [← hvalue]
    exact if_neg (hothers other hrest).2

/-- The entry for an id is dropped when every request that has to have it is excused. -/
theorem SoundPrep.forget (h : SoundPrep s)
    (hexcused : ∀ req ∈ s.bearers, req.requestId = requestId →
      req ∈ s.aborted ∨ req ∈ s.engineAborted) : SoundPrep (s.forget requestId) := by
  refine { h with entry := fun id e he => ?_, kept := fun req hreq hlive hengine => ?_ }
  · simp only [PrepStage.forget, Option.ite_none_left_eq_some] at he
    have hentry := h.entry id e he.2
    exact { hentry with }
  · have hne : req.requestId ≠ requestId := by
      intro heq
      rcases hexcused req hreq heq with haborted | habortedEngine
      · exact hlive haborted
      · exact hengine habortedEngine
    obtain ⟨value, hvalue⟩ := h.kept req hreq hlive hengine
    exact ⟨value, (if_neg hne).trans hvalue⟩

theorem PrepStage.mem_under :
    req ∈ s.under requestId ↔ req ∈ s.accepted ∧ req.requestId = requestId := by
  simp [under]

theorem SoundPrep.engineAbort (h : SoundPrep s) (requestId : String) :
    SoundPrep { s.forget requestId with
      engineAborted := s.engineAborted ++ s.under requestId } := by
  have hmore : SoundPrep { s with engineAborted := s.engineAborted ++ s.under requestId } :=
    { h with entry := fun id e he => ⟨(h.entry id e he).id, (h.entry id e he).made,
      (h.entry id e he).accepted,
        (h.entry id e he).notBuilt, (h.entry id e he).live⟩, kept := fun req hreq hlive hengine =>
        h.kept req hreq hlive fun hmem => hengine (mem_append_left _ hmem), builds := fun b hb
          hlive hengine =>
        h.builds b hb hlive fun hmem => hengine (mem_append_left _ hmem) }
  refine hmore.forget fun req hreq hid => Or.inr (mem_append_right _ ?_)
  exact mem_under.mpr ⟨h.accepted req (holders_subset (bearers_subset hreq)), hid⟩

theorem SoundPrep.finishAbort (h : SoundPrep s) (hcleanup : s.cleanup = some requestId) :
    SoundPrep { s.forget requestId with cleanup := none } := by
  have hforgot : SoundPrep (s.forget requestId) := by
    refine h.forget fun req hreq hid => Or.inl ?_
    exact h.cleanup requestId hcleanup req
      (h.accepted req (holders_subset (bearers_subset hreq))) hid
  refine { hforgot with entry := fun id e he => ?_, cleanup := nofun }
  have hentry := hforgot.entry id e he
  refine { hentry with live := Or.inr ?_ }
  rcases hentry.live with hsame | hlive
  · -- the entry under the id of the abort has just been dropped
    have hid : id = requestId := Option.some.inj (hsame.symm.trans hcleanup)
    change (if id = requestId then none else s.prepared id) = some e at he
    rw [if_pos hid] at he
    cases he
  · exact hlive

theorem SoundPrep.submit (h : SoundPrep s) {payload : P} (hcleanup : s.cleanup = none)
    (hfresh : requestId ∉ s.gate →
      requestId ∉ s.marks ∧ ∀ req ∈ s.present, req.requestId ≠ requestId) :
    SoundPrep (s.submit requestId payload) := by
  unfold PrepStage.submit
  split
  · exact h
  next hgate =>
    obtain ⟨hmark, hothers⟩ := hfresh hgate
    have hnew : ∀ req ∈ s.accepted, req ≠ ⟨s.accepted.length, requestId, payload⟩ := by
      intro req hreq heq
      have hlt := h.seqs req hreq
      rw [heq] at hlt
      exact Nat.lt_irrefl _ hlt
    have hpresent : ∀ req ∈ s.present ++ [⟨s.accepted.length, requestId, payload⟩],
        req ∈ s.present ∨ req = ⟨s.accepted.length, requestId, payload⟩ := by
      intro req hreq
      exact (mem_append.mp hreq).imp_right mem_singleton.mp
    have hwaiting : ∀ req ∈ s.point.unchecked ++
        (s.inbox ++ [⟨s.accepted.length, requestId, payload⟩]),
        req ∈ s.point.unchecked ++ s.inbox ∨ req = ⟨s.accepted.length, requestId, payload⟩ := by
      intro req hreq
      rw [← append_assoc] at hreq
      exact (mem_append.mp hreq).imp_right mem_singleton.mp
    have hassoc : present { s with
        inbox := s.inbox ++ [⟨s.accepted.length, requestId, payload⟩]
        accepted := s.accepted ++ [⟨s.accepted.length, requestId, payload⟩] } =
        s.present ++ [⟨s.accepted.length, requestId, payload⟩] := by
      simp only [present, append_assoc]
    refine ⟨?_, fun req hreq => ?_, fun req hreq => ?_, fun b hb => ?_, fun b hb hmem => ?_,
      fun id e he => ?_, h.kept, fun req hreq haborted => ?_, fun req hreq hlive => ?_,
      fun id hid => ?_, h.builds, h.skips, fun req hreq => ?_⟩
    · rw [hassoc, map_append, nodup_append_comm]
      refine nodup_cons.mpr ⟨fun hmem => ?_, h.ids⟩
      obtain ⟨req, hreq, heq⟩ := mem_map.mp hmem
      exact hothers req hreq heq
    · rw [hassoc] at hreq
      rcases hpresent req hreq with hold | rfl
      · exact mem_append_left _ (h.accepted req hold)
      · exact mem_append_right _ (mem_singleton_self _)
    · rw [length_append, length_singleton]
      rcases mem_append.mp hreq with hold | hlast
      · exact Nat.lt_succ_of_lt (h.seqs req hold)
      · rw [mem_singleton.mp hlast]
        exact Nat.lt_succ_self _
    · exact mem_append_left _ (h.builtAccepted b hb)
    · rw [hassoc] at hmem
      rcases hpresent b.1 hmem with hold | heq
      · exact h.gone b hb hold
      · exact hnew b.1 (h.builtAccepted b hb) heq
    · have hentry := h.entry id e he
      exact { hentry with accepted := mem_append_left _ hentry.accepted }
    · rcases hwaiting req hreq with hold | rfl
      · exact h.marked req hold haborted
      · exact absurd rfl (hnew _ (h.abortedAccepted _ haborted))
    · rcases hwaiting req hreq with hold | rfl
      · exact h.unmarked req hold hlive
      · exact hmark
    · rw [hcleanup] at hid
      cases hid
    · exact mem_append_left _ (h.abortedAccepted req hreq)

variable {s' : PrepStage P V}

theorem SoundPrep.abort (h : SoundPrep s) {gateDiscarded discarded : List String}
    (hkept : ∀ req ∈ s.point.unchecked ++ s.inbox, req.requestId ∉ discarded)
    (habort : s.abort requestId gateDiscarded discarded = some s') (hcleanup : s.cleanup = none) :
    SoundPrep s' := by
  obtain ⟨gate, _, habort⟩ := Option.bind_eq_some_iff.mp habort
  obtain ⟨marks, hmarks, rfl⟩ := Option.map_eq_some_iff.mp habort
  have hsublist : List.Sublist
      (s.failed.filter (·.requestId ≠ requestId) ++ s.flight ++ s.outbox.map Prod.fst ++
        s.point.held ++ s.inbox) s.present :=
    (((filter_sublist.append_right _).append_right _).append_right _).append_right _
  have hother : ∀ req ∈ s.accepted, req ∈ s.aborted ++ s.under requestId →
      req ∈ s.aborted ∨ req.requestId = requestId := by
    intro req _ hmem
    rcases mem_append.mp hmem with hold | hunder
    · exact Or.inl hold
    · exact Or.inr (mem_under.mp hunder).2
  have hhit : ∀ req ∈ s.accepted, req ∉ s.aborted ++ s.under requestId →
      req ∉ s.aborted ∧ req.requestId ≠ requestId := by
    intro req hreq hmem
    refine ⟨fun hold => hmem (mem_append_left _ hold), fun hid => ?_⟩
    exact hmem (mem_append_right _ (mem_under.mpr ⟨hreq, hid⟩))
  have haccepted : ∀ req ∈ s.point.unchecked ++ s.inbox, req ∈ s.accepted :=
    fun req hreq => h.accepted req (unchecked_subset hreq)
  refine ⟨h.ids.sublist (hsublist.map _), fun req hreq => h.accepted req (hsublist.subset hreq),
    h.seqs, h.builtAccepted, fun b hb hmem => h.gone b hb (hsublist.subset hmem),
    fun id e he => ?_, fun req hreq hlive => ?_, fun req hreq haborted => ?_,
    fun req hreq hlive hmem => ?_, fun id hid req hreq heq => ?_, fun b hb hlive => ?_,
    fun req hreq => mem_append_left _ (h.skips req hreq), fun req hreq => ?_⟩
  · have hentry := h.entry id e he
    refine { hentry with live := ?_ }
    by_cases hid : id = requestId
    · exact Or.inl (congrArg some hid.symm)
    · right
      rcases hentry.live with hsame | ⟨hholder, hdue⟩
      · rw [hcleanup] at hsame
        cases hsame
      · refine ⟨?_, fun haborted => ?_⟩
        · simp only [holders, mem_append] at hholder ⊢
          refine hholder.imp_left (Or.imp_left (Or.imp_left fun hfailed => ?_))
          exact mem_filter.mpr ⟨hfailed, decide_eq_true (hentry.id ▸ hid)⟩
        · rcases hother e.owner hentry.accepted haborted with hold | heq
          · exact hdue hold
          · exact absurd (hentry.id.symm.trans heq) hid
  · exact h.kept req hreq fun hold => hlive (mem_append_left _ hold)
  · refine recordAborted_keeps hmarks ?_ (hkept req hreq)
    exact (hother req (haccepted req hreq) haborted).imp_left (h.marked req hreq)
  · obtain ⟨hold, hne⟩ := hhit req (haccepted req hreq) hlive
    rcases mem_recordAborted hmarks hmem with hmark | heq
    · exact h.unmarked req hreq hold hmark
    · exact hne heq
  · have hsame : requestId = id := Option.some.inj hid
    exact mem_append_right _ (mem_under.mpr ⟨hreq, heq.trans hsame.symm⟩)
  · exact h.builds b hb fun hold => hlive (mem_append_left _ hold)
  · rcases mem_append.mp hreq with hold | hunder
    · exact h.abortedAccepted req hold
    · exact (mem_under.mp hunder).1

/-- Replies and payloads move, and the map stays as it is. -/
theorem SoundPrep.reroute (h : SoundPrep s) (gate : List String)
    (failed flight : List (PrepRequest P)) {outbox : List (PrepRequest P × Bool)}
    (hids : ((failed ++ flight ++ outbox.map Prod.fst ++ s.point.held ++ s.inbox).map
      (·.requestId)).Nodup)
    (hpresent : failed ++ flight ++ outbox.map Prod.fst ++ s.point.held ++ s.inbox ⊆ s.present)
    (hlive : ∀ req ∈ s.holders, (req ∈ s.aborted → req ∈ s.point.due) →
      req ∈ failed ++ flight ++ outbox.map Prod.fst ++ s.point.late)
    (hbears : flight ++ (outbox.filter (·.2)).map Prod.fst ++ s.point.bears ⊆ s.bearers) :
    SoundPrep { s with gate := gate, failed := failed, flight := flight, outbox := outbox } :=
  { h with ids := hids, accepted := fun req hreq => h.accepted req (hpresent hreq), gone :=
    fun b hb hmem => h.gone b hb (hpresent hmem), entry := fun id e he =>
      ⟨(h.entry id e he).id, (h.entry id e he).made, (h.entry id e he).accepted,
        (h.entry id e he).notBuilt, (h.entry id e he).live.imp_right
          fun hlate => ⟨hlive e.owner hlate.1 hlate.2, hlate.2⟩⟩, kept := fun req hreq => h.kept req
            (hbears hreq) }

variable {rest : List (PrepRequest P × Bool)}

/-- A reply, and the other requests. -/
theorem PrepStage.present_outbox (houtbox : s.outbox = (req, isResult) :: rest) :
    s.present.Perm (req :: (s.failed ++ s.flight ++ rest.map Prod.fst ++ s.point.held ++
      s.inbox)) := by
  simp only [present, houtbox, map_cons, append_assoc, cons_append]
  exact (perm_middle.append_left s.failed).trans perm_middle

/-- A request on its way is not in hand. -/
theorem SoundPrep.not_due (h : SoundPrep s) {rest : List (PrepRequest P)}
    (hperm : s.present.Perm (req :: rest)) (hheld : s.point.held ⊆ rest) :
    req ∉ s.point.due := by
  intro hdue
  obtain ⟨_, _, hothers⟩ := h.apart hperm
  have hmem := hheld (s.point.late_subset (s.point.due_subset hdue))
  exact (hothers req hmem).2 rfl

theorem SoundPrep.dropReply (h : SoundPrep s) (houtbox : s.outbox = (req, isResult) :: rest)
    (haborted : req ∈ s.aborted) : SoundPrep { s with outbox := rest } := by
  have hperm := present_outbox houtbox
  obtain ⟨_, hnodup, hothers⟩ := h.apart hperm
  have hnotDue : req ∉ s.point.due := h.not_due hperm fun other hother => by
    simp only [mem_append]
    exact Or.inl (Or.inr hother)
  refine h.reroute _ _ _ hnodup (fun other hother => (hothers other hother).1)
    (fun other hother hdue => ?_) ?_
  · simp only [holders, houtbox, map_cons, mem_append, mem_cons] at hother ⊢
    rcases hother with (hrest | rfl | hrest) | hlate
    · exact Or.inl (Or.inl hrest)
    · exact absurd (hdue haborted) hnotDue
    · exact Or.inl (Or.inr hrest)
    · exact Or.inr hlate
  · simp only [bearers, houtbox]
    refine append_subset_append_of_left _ (append_subset_append_of_right _ ?_)
    exact map_subset _ ((sublist_cons_self _ _).filter _).subset

/-- A result is sent to the engine. -/
theorem SoundPrep.sendResult (h : SoundPrep s) (houtbox : s.outbox = (req, true) :: rest) :
    SoundPrep { s with outbox := rest, flight := s.flight ++ [req] } := by
  have hpresent : s.failed ++ (s.flight ++ [req]) ++ rest.map Prod.fst ++ s.point.held ++ s.inbox =
      s.present := by
    simp only [present, houtbox, map_cons, append_assoc, singleton_append]
  refine h.reroute s.gate s.failed _ (hpresent ▸ h.ids)
    (hpresent ▸ List.Subset.refl _) (fun other hother _ => ?_) ?_
  · simp only [holders, houtbox, map_cons, mem_append, mem_cons,
      not_mem_nil, or_false] at hother ⊢
    tauto
  · intro other hother
    simp only [bearers, houtbox, filter_cons_of_pos, map_cons, mem_append,
      mem_cons, not_mem_nil, or_false] at hother ⊢
    tauto

/-- An error is sent to the coordinator. -/
theorem SoundPrep.sendError (h : SoundPrep s) (houtbox : s.outbox = (req, false) :: rest)
    (gate : List String) :
    SoundPrep { s with outbox := rest, gate := gate, failed := s.failed ++ [req] } := by
  have hperm : s.present.Perm
      (s.failed ++ [req] ++ s.flight ++ rest.map Prod.fst ++ s.point.held ++ s.inbox) := by
    refine (present_outbox houtbox).trans ?_
    simp only [append_assoc, singleton_append]
    exact perm_middle.symm
  refine h.reroute gate _ s.flight ((hperm.map _).nodup_iff.mp h.ids)
    hperm.symm.subset (fun other hother _ => ?_) ?_
  · simp only [holders, houtbox, map_cons, mem_append, mem_cons,
      not_mem_nil, or_false] at hother ⊢
    tauto
  · intro other hother
    simp only [bearers, houtbox, mem_append] at hother ⊢
    rcases hother with (hflight | hresult) | hpoint
    · exact Or.inl (Or.inl hflight)
    · exact Or.inl (Or.inr hresult)
    · exact Or.inr hpoint

/-- What is left of the payloads on their way when one has arrived. -/
theorem mem_flight {flight : List (PrepRequest P)} (hi : flight[i]? = some req)
    {other : PrepRequest P} (hother : other ∈ flight) :
    other = req ∨ other ∈ flight.eraseIdx i := by
  obtain ⟨hlt, rfl⟩ := List.getElem?_eq_some_iff.mp hi
  exact mem_cons.mp ((getElem_cons_eraseIdx_perm hlt).mem_iff.mpr hother)

/-- The engine's builder takes the entry out. -/
theorem SoundPrep.build (h : SoundPrep s) (hi : s.flight[i]? = some req) :
    SoundPrep (s.build i req) := by
  have hperm := present_flight hi
  obtain ⟨hreq, hnodup, hothers⟩ := h.apart hperm
  have hbears : req ∈ s.bearers :=
    mem_append_left _ (mem_append_left _ (mem_of_getElem? hi))
  refine { h with
    ids := hnodup, accepted := fun other hother => h.accepted other (hothers other hother).1
    builtAccepted := fun b hb => ?_, gone := fun b hb hmem => ?_, entry := fun id e he => ?_
    kept := fun other hother hlive hengine => ?_, builds := fun b hb hlive hengine => ?_ }
  · rcases mem_append.mp hb with hold | hlast
    · exact h.builtAccepted b hold
    · exact mem_singleton.mp hlast ▸ h.accepted req hreq
  · have hne := hothers b.1 hmem
    rcases mem_append.mp hb with hold | hlast
    · exact h.gone b hold hne.1
    · exact hne.2 (mem_singleton.mp hlast ▸ rfl)
  · change (if id = req.requestId then none else s.prepared id) = some e at he
    rw [Option.ite_none_left_eq_some] at he
    have hentry := h.entry id e he.2
    have hne : e.owner ≠ req := fun heq => he.1 (hentry.id ▸ heq ▸ rfl)
    refine { hentry with notBuilt := fun b hb heq => ?_, live := hentry.live.imp_right ?_ }
    · rcases mem_append.mp hb with hold | hlast
      · exact hentry.notBuilt b hold heq
      · rw [mem_singleton.mp hlast] at heq
        exact hne heq.symm
    · rintro ⟨hholder, hdue⟩
      refine ⟨?_, hdue⟩
      simp only [holders, PrepStage.build, PrepStage.forget, mem_append] at hholder ⊢
      rcases hholder with ((hfailed | hflight) | houtbox) | hlate
      · exact Or.inl (Or.inl (Or.inl hfailed))
      · exact Or.inl (Or.inl (Or.inr ((mem_flight hi hflight).resolve_left hne)))
      · exact Or.inl (Or.inr houtbox)
      · exact Or.inr hlate
  · have hbearer : other ∈ s.bearers := by
      refine append_subset_append_of_left _ (append_subset_append_of_left _ ?_) hother
      exact (eraseIdx_sublist _ _).subset
    have hrest : other ∈ s.failed ++ s.flight.eraseIdx i ++ s.outbox.map Prod.fst ++
        s.point.held ++ s.inbox := by
      have hholder : other ∈ (s.build i req).holders := bearers_subset hother
      exact holders_subset hholder
    obtain ⟨value, hvalue⟩ := h.kept other hbearer hlive hengine
    exact ⟨value, (if_neg (hothers other hrest).2).trans hvalue⟩
  · rcases mem_append.mp hb with hold | hlast
    · exact h.builds b hold hlive hengine
    · rw [mem_singleton.mp hlast] at hlive hengine ⊢
      obtain ⟨value, hvalue⟩ := h.kept req hbears hlive hengine
      exact ⟨⟨req, value⟩, (h.entry _ _ hvalue).made, hvalue, rfl⟩

/-- A payload does not get to its build. -/
theorem SoundPrep.drop [DecidableEq P] (h : SoundPrep s) (hi : s.flight[i]? = some req) :
    SoundPrep (s.drop i req) := by
  have hperm := present_flight hi
  obtain ⟨hreq, hnodup, hothers⟩ := h.apart hperm
  have hnotDue : req ∉ s.point.due := h.not_due hperm fun other hother => by
    simp only [mem_append]
    exact Or.inl (Or.inr hother)
  have hbears : s.flight.eraseIdx i ++ (s.outbox.filter (·.2)).map Prod.fst ++ s.point.bears ⊆
      s.bearers :=
    append_subset_append_of_left _ (append_subset_append_of_left _ (eraseIdx_sublist _ _).subset)
  unfold PrepStage.drop
  split
  next haborted =>
    refine h.reroute _ _ _ hnodup (fun other hother => (hothers other hother).1)
      (fun other hother hdue => ?_) hbears
    have hne : other ≠ req := fun heq => hnotDue (heq ▸ hdue (heq ▸ haborted))
    simp only [holders, mem_append] at hother ⊢
    rcases hother with ((hfailed | hflight) | houtbox) | hlate
    · exact Or.inl (Or.inl (Or.inl hfailed))
    · exact Or.inl (Or.inl (Or.inr ((mem_flight hi hflight).resolve_left hne)))
    · exact Or.inl (Or.inr houtbox)
    · exact Or.inr hlate
  · have hmoved : s.present.Perm (s.failed ++ [req] ++ s.flight.eraseIdx i ++
        s.outbox.map Prod.fst ++ s.point.held ++ s.inbox) := by
      refine hperm.trans ?_
      simp only [append_assoc, singleton_append]
      exact perm_middle.symm
    refine h.reroute _ _ _ ((hmoved.map _).nodup_iff.mp h.ids) hmoved.symm.subset
      (fun other hother _ => ?_) hbears
    simp only [holders, mem_append, mem_singleton] at hother ⊢
    rcases hother with ((hfailed | hflight) | houtbox) | hlate
    · exact Or.inl (Or.inl (Or.inl (Or.inl hfailed)))
    · rcases mem_flight hi hflight with heq | hrest
      · exact Or.inl (Or.inl (Or.inl (Or.inr heq)))
      · exact Or.inl (Or.inl (Or.inr hrest))
    · exact Or.inl (Or.inr houtbox)
    · exact Or.inr hlate

/-- `_consume_if_aborted`. -/
theorem SoundPrep.check (h : SoundPrep s) {next : PrepPoint P}
    (hpassed : s.point.passed = some (req, next)) : SoundPrep (s.check req next) := by
  have hheld : s.point.held = [req] ∧ s.point.unchecked = [req] ∧ next.held = s.point.held ∧
      s.point.late ⊆ next.late ∧ next.bears ⊆ s.point.bears ∧
      next.unchecked ⊆ s.point.unchecked := by
    cases hpoint : s.point <;> rw [hpoint] at hpassed <;> cases hpassed <;>
      simp [PrepPoint.held, PrepPoint.unchecked, PrepPoint.late, PrepPoint.bears]
  obtain ⟨hheld, hunchecked, hsame, hlate, hbears, hfewer⟩ := hheld
  unfold PrepStage.check
  split
  next hmark => exact h.consume hheld hunchecked hmark
  next hmark =>
    refine h.move _ hsame hlate (fun other hother haborted => ?_) hbears hfewer
    -- an aborted request would have a mark
    have hother : other = req :=
      mem_singleton.mp (hheld ▸ s.point.late_subset (s.point.due_subset hother))
    have hreq : req ∈ s.point.unchecked ++ s.inbox :=
      mem_append_left _ (hunchecked ▸ mem_singleton_self req)
    exact absurd (h.marked req hreq (hother ▸ haborted)) hmark

/-- Every step keeps the invariant. -/
theorem SoundPrep.step [DecidableEq P] (h : SoundPrep s) {a : PrepAction P V} (hok : MarksKept s a)
    (hstep : step s a = some s') :
    SoundPrep s' := by
  cases a with
  | submit requestId payload =>
    simp only [PrepStage.step, Option.ite_none_right_eq_some, Option.some.injEq] at hstep
    exact hstep.2 ▸ h.submit hstep.1 hok
  | abort requestId gateDiscarded discarded =>
    simp only [PrepStage.step, Option.ite_none_right_eq_some] at hstep
    exact h.abort hok hstep.2 hstep.1
  | cleanup =>
    obtain ⟨requestId, hcleanup, rfl⟩ := Option.map_eq_some_iff.mp hstep
    exact h.finishAbort hcleanup
  | take =>
    simp only [PrepStage.step] at hstep
    split at hstep
    next req rest hpoint hinbox =>
      cases hstep
      exact h.take hpoint hinbox
    · cases hstep
  | check =>
    obtain ⟨⟨req, next⟩, hpassed, rfl⟩ := Option.map_eq_some_iff.mp hstep
    exact h.check hpassed
  | prepare outcome =>
    simp only [PrepStage.step] at hstep
    split at hstep
    next req hpoint =>
      cases hstep
      cases outcome with
      | none =>
        refine h.move (.raised req) ?_ ?_ ?_ ?_ ?_ <;> rw [hpoint] <;>
          simp [PrepPoint.held, PrepPoint.late, PrepPoint.due, PrepPoint.bears, PrepPoint.unchecked]
      | some value => exact h.store hpoint value
    · cases hstep
  | render ok =>
    simp only [PrepStage.step] at hstep
    split at hstep
    next req hpoint =>
      cases hstep
      refine h.move _ ?_ ?_ ?_ ?_ ?_ <;> rw [hpoint] <;> cases ok <;>
        simp [PrepPoint.held, PrepPoint.late, PrepPoint.due, PrepPoint.bears, PrepPoint.unchecked]
    · cases hstep
  | emit =>
    simp only [PrepStage.step] at hstep
    split at hstep
    next req hpoint =>
      cases hstep
      exact h.emit (by rw [hpoint]; rfl) (by rw [hpoint]; rfl) fun _ => by rw [hpoint]; rfl
    next req hpoint =>
      cases hstep
      exact h.emit (by rw [hpoint]; rfl) (by rw [hpoint]; rfl) nofun
    · cases hstep
  | clean =>
    simp only [PrepStage.step] at hstep
    split at hstep
    next req hpoint =>
      cases hstep
      exact h.clean hpoint
    · cases hstep
  | route forward gateDiscarded =>
    simp only [PrepStage.step] at hstep
    split at hstep
    next req isResult rest hcleanup houtbox =>
      split at hstep
      · cases isResult with
        | true =>
          cases hstep
          exact h.sendResult houtbox
        | false =>
          obtain ⟨gate, _, rfl⟩ := Option.map_eq_some_iff.mp hstep
          exact h.sendError houtbox gate
      · split at hstep
        next haborted =>
          cases hstep
          exact h.dropReply houtbox haborted
        · cases hstep
    · cases hstep
  | build i =>
    obtain ⟨req, hi, rfl⟩ := Option.map_eq_some_iff.mp hstep
    exact h.build hi
  | drop i =>
    obtain ⟨req, hi, rfl⟩ := Option.map_eq_some_iff.mp hstep
    exact h.drop hi
  | engineAbort requestId =>
    cases hstep
    exact h.engineAbort requestId

end Steps

variable [DecidableEq P]

/-- In every run in which an id is accepted again only when nothing is left of it, and no mark of a
request is evicted while it waits or is being processed: a build of a request that has not been
aborted finds what has been prepared for it, the map holds no entry for a request that has ended,
and only aborted requests are skipped. -/
theorem prepared_of_run {s : PrepStage P V} {as : List (PrepAction P V)}
    (hrun : Run PrepStage.step MarksKept (PrepStage.init P V) as s) :
    (∀ b ∈ s.built, b.1 ∉ s.aborted → b.1 ∉ s.engineAborted →
      ∃ e ∈ s.made, b.2 = some e ∧ e.owner = b.1) ∧
    (∀ requestId e, s.prepared requestId = some e →
      e.owner ∈ s.accepted ∧ e.owner.requestId = requestId ∧ ¬s.Ended e.owner) ∧
    ∀ req ∈ s.skipped, req ∈ s.aborted := by
  have h : SoundPrep s :=
    hrun.invariant (I := SoundPrep) (fun _ _ _ h hok hstep => h.step hok hstep) sound_prep_init
  refine ⟨h.builds, fun requestId e he => ?_, h.skips⟩
  have hentry := h.entry requestId e he
  refine ⟨hentry.accepted, hentry.id, ?_⟩
  rintro (⟨b, hb, heq⟩ | ⟨haborted, hcleanup, hgone⟩)
  · exact hentry.notBuilt b hb heq
  · rcases hentry.live with hsame | ⟨_, hdue⟩
    · exact hcleanup (hsame.trans (congrArg some hentry.id.symm))
    · have hheld := s.point.late_subset (s.point.due_subset (hdue haborted))
      exact hgone (mem_append_left _ hheld)

/-- A request is built, another one is aborted while it is being prepared, and the id of the first
one is used again. -/
theorem prepared_of_run_three : ∃ s : PrepStage Unit ℕ,
    s.built.map (fun b => (b.1.seq, b.2.map (·.value))) = [(0, some 7), (2, some 9)] ∧
      s.prepared "b" = none ∧ s.skipped.map (·.seq) = [1] ∧
      ∀ req ∈ s.skipped, req ∈ s.aborted := by
  have hrun := run_of_isSome_guarded PrepStage.step MarksKept (PrepStage.init Unit ℕ)
    [.submit "a" (), .take, .check, .check, .prepare (some 7), .submit "b" (), .render true, .check,
      .emit, .take, .check, .route true [], .check, .abort "b" [] [], .prepare (some 8), .build 0,
      .cleanup, .render true, .check, .submit "a" (), .clean, .take, .check, .check,
      .prepare (some 9), .render true, .check, .emit, .route true [], .build 0]
    (by decide +kernel)
  exact ⟨_, by decide +kernel, by decide +kernel, by decide +kernel, (prepared_of_run hrun).2.2⟩

/-- So many ids have been aborted that the next abort evicts. -/
def PrepStage.abortedBefore (ids : List String) : PrepStage Unit Unit :=
  { init Unit Unit with gate := ids, marks := ids }

/-- Aborts of ids that are not known leave their marks. -/
theorem PrepStage.abortedBefore_reachable {ids : List String} (hnodup : ids.Nodup)
    (hroom : ids.length ≤ 10000) :
    Reachable PrepStage.step (PrepStage.init Unit Unit) (PrepStage.abortedBefore ids) := by
  induction ids using List.reverseRecOn with
  | nil => exact ⟨[], .nil _⟩
  | append_singleton ids id ih =>
    rw [nodup_append_comm, singleton_append, nodup_cons] at hnodup
    rw [length_append, length_singleton] at hroom
    obtain ⟨as, hrun⟩ := ih hnodup.2 (Nat.le_of_succ_le hroom)
    have hrecord := recordAborted_room hnodup.1 hroom
    have habort : exec step (abortedBefore ids) [.abort id [] [], .cleanup] =
        some (abortedBefore (ids ++ [id])) := by
      simp [exec, step, abort, abortedBefore, init, hrecord, under, forget]
    exact ⟨_, hrun.trans (run_of_exec habort)⟩

/-- With 10000 marks in the set, the abort of a request that is being prepared discards its own
mark: the entry stays in the map. -/
theorem prepared_entry_left : ∃ s : PrepStage Unit Unit,
    Reachable PrepStage.step (PrepStage.init Unit Unit) s ∧ s.present = [] ∧
      ∃ e, s.prepared "r" = some e ∧ s.Ended e.owner := by
  obtain ⟨ids, hnodup, hlength, hnew⟩ : ∃ ids : List String,
      ids.Nodup ∧ ids.length = 10000 ∧ "r" ∉ ids := by
    refine ⟨(List.range 10000).map fun n => String.ofList (List.replicate n 'a'), ?_, ?_, ?_⟩
    · refine nodup_range.map fun m n heq => ?_
      have hlengths := congrArg List.length (String.ofList_injective heq)
      rwa [length_replicate, length_replicate] at hlengths
    · rw [length_map, length_range]
    · intro hmem
      obtain ⟨n, _, heq⟩ := mem_map.mp hmem
      have hchars : List.replicate n 'a' = ['r'] := String.ofList_injective heq
      have hin : 'r' ∈ List.replicate n 'a' := hchars ▸ mem_singleton_self _
      exact absurd (eq_of_mem_replicate hin) (by decide)
  have htake : ∀ n ≤ 10000, (ids.take n).length = n := by
    intro n hn
    rw [length_take, hlength, Nat.min_eq_left hn]
  have hgate := recordAborted_full hnew hlength (hnodup.sublist (take_sublist 5001 ids))
    (fun id hid => mem_append_left _ (mem_of_mem_take hid)) (htake 5001 (by decide))
  have hmarks := recordAborted_full hnew hlength
    (show ("r" :: ids.take 5000).Nodup from nodup_cons.mpr ⟨fun hmem => hnew (mem_of_mem_take hmem),
      hnodup.sublist (take_sublist 5000 ids)⟩)
    (fun id hid => by
      rcases mem_cons.mp hid with rfl | hold
      · exact mem_append_right _ (mem_singleton_self _)
      · exact mem_append_left _ (mem_of_mem_take hold))
    (by rw [length_cons, htake 5000 (by decide)])
  have hevicted : "r" ∉ (ids ++ ["r"]).filter (· ∉ "r" :: ids.take 5000) := by
    intro hmem
    exact of_decide_eq_true (mem_filter.mp hmem).2 mem_cons_self
  generalize (ids ++ ["r"]).filter (· ∉ "r" :: ids.take 5000) = marks at hmarks hevicted
  generalize (ids ++ ["r"]).filter (· ∉ ids.take 5001) = gate at hgate
  obtain ⟨as, hrun⟩ := abortedBefore_reachable hnodup (Nat.le_of_eq hlength)
  let req : PrepRequest Unit := ⟨0, "r", ()⟩
  have hexec : exec PrepStage.step (abortedBefore ids)
      [.submit "r" (), .take, .check, .check, .abort "r" (ids.take 5001) ("r" :: ids.take 5000),
        .cleanup, .prepare (some ()), .render true, .check, .emit, .route false []] =
      some { abortedBefore ids with
        gate := gate
        marks := marks
        prepared := fun id => if id = "r" then some ⟨req, ()⟩ else none
        accepted := [req]
        aborted := [req]
        made := [⟨req, ()⟩] } := by
    simp [exec, PrepStage.step, PrepStage.submit, PrepStage.check, PrepStage.abort,
      PrepStage.prepare, PrepStage.emit, PrepStage.forget, abortedBefore, PrepStage.init, under,
      PrepPoint.passed, hnew, hgate, hmarks, hevicted, req]
  refine ⟨_, ⟨_, hrun.trans (run_of_exec hexec)⟩, rfl, ⟨req, ()⟩, rfl, Or.inr ⟨?_, ?_, ?_⟩⟩
  · exact mem_singleton_self _
  · exact fun hnone => by cases hnone
  · exact not_mem_nil

end Omni.Tts
