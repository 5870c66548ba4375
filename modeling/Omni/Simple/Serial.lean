import Omni.Simple.Desk

/-!
# The serial loop

`_start_serial`: one request after another, or batches that are collected from the inbox.
-/

namespace Omni.Simple

open Transition List

variable {D R E : Type} {first : Incoming D} {rest : List (Incoming D)} {batchCost : ℕ}

/-- How batches are collected. -/
structure Batching (E : Type) where
  /-- There is a `batch_compute_fn`. -/
  hasBatchFn : Bool
  maxBatchSize : ℕ
  /-- There is a `request_cost_fn`. -/
  hasCostFn : Bool
  maxBatchCost : Option ℕ
  /-- The error of a batch with a wrong number of results. -/
  lengthError : ℕ → ℕ → E

/-- Where the loop is. -/
inductive SerialPoint (D R E : Type)
  | idle
  /-- A request has been taken. -/
  | taken (msg : Incoming D)
  /-- `_collect_batch`, with what has been collected after the first request. -/
  | collecting (first : Incoming D) (rest : List (Incoming D)) (cost : ℕ)
  /-- `_run_single`. -/
  | single (msg : Incoming D)
  | computed (msg : Incoming D) (outcome : Except E R)
  /-- `_run_batch`. -/
  | batch (msgs : List (Incoming D))
  | answering (rest : List (Incoming D × R))
  /-- The exception handler. -/
  | failing (rest : List (Incoming D)) (error : E)

/-- The messages that the loop has in hand. -/
def SerialPoint.held : SerialPoint D R E → List (Incoming D)
  | idle => []
  | taken msg | single msg | computed msg _ => [msg]
  | collecting first rest _ => first :: rest
  | batch msgs | failing msgs _ => msgs
  | answering rest => rest.map Prod.fst

/-- The scheduler. -/
structure Serial (D R E : Type) where
  desk : Desk D R E
  /-- `_pending_messages`. -/
  pending : List (Incoming D)
  point : SerialPoint D R E

/-- The steps of the loop, and what other threads do. What user code returns is given. -/
inductive SerialAction (D R E : Type)
  | put (requestId : String) (type : MessageType) (data : D)
  | abort (requestId : String) (discarded : List String)
  | take
  | collect (cost : Except E ℕ)
  | pull (cost : Except E ℕ)
  | close
  | compute (outcome : Except E R)
  | computeBatch (outcome : Except E (List R))
  | answer

namespace Serial

/-- Before the first message. -/
def init (D R E : Type) : Serial D R E := ⟨.init D R E, [], .idle⟩

variable (cfg : Batching E) (s : Serial D R E)

/-- `_message_cost` of a request. -/
def messageCost (cost : Except E ℕ) : Except E ℕ := if cfg.hasCostFn then cost else .ok 0

/-- `_run_batch` starts. -/
def runBatch (first : Incoming D) (rest : List (Incoming D)) : SerialPoint D R E :=
  if rest = [] then .single first else .batch (first :: rest)

/-- A message has been taken. -/
def took (msg : Incoming D) : Serial D R E :=
  if msg.type = .newRequest then { s with point := .taken msg }
  else { s with desk := s.desk.ignore msg }

/-- `_next_message`. -/
def take : Option (Serial D R E) :=
  match s.pending, s.desk.inbox with
  | msg :: rest, _ => some (took { s with pending := rest } msg)
  | [], msg :: rest => some (took { s with desk := { s.desk with inbox := rest } } msg)
  | [], [] => none

/-- The first check of a request, and the begin of its batch. -/
def collect (msg : Incoming D) (cost : Except E ℕ) : Serial D R E :=
  if s.desk.isMarked msg then { s with desk := s.desk.consume msg, point := .idle }
  else if cfg.hasBatchFn = false ∨ cfg.maxBatchSize ≤ 1 then { s with point := .single msg }
  else match messageCost cfg cost with
    | .error error => { s with point := .failing [msg] error }
    | .ok cost => { s with point := .collecting msg [] cost }

/-- A request that `_collect_batch` has got. -/
def pulled (first : Incoming D) (rest : List (Incoming D)) (batchCost : ℕ) (msg : Incoming D)
    (cost : Except E ℕ) : Serial D R E :=
  match cfg.maxBatchCost with
  | none => { s with point := .collecting first (rest ++ [msg]) batchCost }
  | some bound =>
    match messageCost cfg cost with
    | .error error => { s with
        desk := { s.desk with lost := s.desk.lost ++ (rest ++ [msg]) }
        point := .failing [first] error }
    | .ok cost =>
      if bound < batchCost + cost then
        { s with pending := msg :: s.pending, point := runBatch first rest }
      else { s with point := .collecting first (rest ++ [msg]) (batchCost + cost) }

/-- A turn of the loop of `_collect_batch`. -/
def pull (first : Incoming D) (rest : List (Incoming D)) (batchCost : ℕ) (cost : Except E ℕ) :
    Option (Serial D R E) :=
  if rest.length + 1 < cfg.maxBatchSize then
    match s.desk.inbox with
    | [] => none
    | msg :: tail =>
      let s := { s with desk := { s.desk with inbox := tail } }
      if msg.type = .newRequest then some (pulled cfg s first rest batchCost msg cost)
      else some { s with pending := s.pending ++ [msg] }
  else none

/-- `_run_single` up to the result. -/
def compute (msg : Incoming D) (outcome : Except E R) : Serial D R E :=
  if s.desk.isMarked msg then { s with desk := s.desk.consume msg, point := .idle }
  else match outcome with
    | .ok result => { s with
        desk := s.desk.returned [msg] [result]
        point := .computed msg (.ok result) }
    | .error error => { s with point := .computed msg (.error error) }

/-- `_run_batch` of more than one request up to the results. -/
def computeBatch (msgs : List (Incoming D)) (outcome : Except E (List R)) : Serial D R E :=
  match outcome with
  | .error error => { s with point := .failing msgs error }
  | .ok results =>
    if results.length = msgs.length then
      { s with
        desk := s.desk.returned msgs results
        point := .answering (msgs.zip results) }
    else { s with point := .failing msgs (cfg.lengthError results.length msgs.length) }

/-- The next reply. -/
def answer : Option (Serial D R E) :=
  match s.point with
  | .computed msg (.ok result) =>
    some { s with desk := s.desk.answer msg (.ok result), point := .idle }
  | .computed msg (.error error) =>
    if s.desk.isMarked msg then some { s with desk := s.desk.consume msg, point := .idle }
    else some { s with point := .failing [msg] error }
  | .answering [] | .failing [] _ => some { s with point := .idle }
  | .answering ((msg, result) :: rest) =>
    some { s with desk := s.desk.answer msg (.ok result), point := .answering rest }
  | .failing (msg :: rest) error =>
    some { s with desk := s.desk.answer msg (.error error), point := .failing rest error }
  | _ => none

/-- The transition function. -/
def step (s : Serial D R E) : SerialAction D R E → Option (Serial D R E)
  | .put requestId type data => some { s with desk := s.desk.put requestId type data }
  | .abort requestId discarded =>
    (s.desk.abort requestId discarded).map fun desk => { s with desk := desk }
  | .take =>
    match s.point with
    | .idle => s.take
    | _ => none
  | .collect cost =>
    match s.point with
    | .taken msg => some (s.collect cfg msg cost)
    | _ => none
  | .pull cost =>
    match s.point with
    | .collecting first rest batchCost => s.pull cfg first rest batchCost cost
    | _ => none
  | .close =>
    match s.point with
    | .collecting first rest _ =>
      if cfg.maxBatchSize ≤ rest.length + 1 ∨ s.desk.inbox = [] then
        some { s with point := runBatch first rest }
      else none
    | _ => none
  | .compute outcome =>
    match s.point with
    | .single msg => some (s.compute msg outcome)
    | _ => none
  | .computeBatch outcome =>
    match s.point with
    | .batch msgs => some (s.computeBatch cfg msgs outcome)
    | _ => none
  | .answer => s.answer

/-- What the loop has computed has been computed. -/
def Made (d : Desk D R E) : SerialPoint D R E → Prop
  | .computed msg (.ok result) => d.Computed msg result
  | .answering rest => ∀ entry ∈ rest, d.Computed entry.1 entry.2
  | _ => True

/-- The accounts of the scheduler. -/
structure Accounts (s : Serial D R E) : Prop where
  sound : Sound s.desk (s.pending ++ s.point.held)
  requests : ∀ msg ∈ s.point.held, msg.type = .newRequest
  made : Made s.desk s.point

theorem accounts_init : Accounts (init D R E) where
  sound := sound_init
  requests _ h := by cases h
  made := trivial

variable {point : SerialPoint D R E}

/-- What has been computed stays computed. -/
theorem Made.mono {d d' : Desk D R E} (h : Made d point)
    (hcalls : ∀ call ∈ d.calls, call ∈ d'.calls) : Made d' point := by
  cases point with
  | computed msg outcome =>
    cases outcome with
    | ok result =>
      have hmade : d.Computed msg result := h
      exact hmade.mono hcalls
    | error error => trivial
  | answering rest => exact fun entry hentry => (h entry hentry).mono hcalls
  | _ => trivial

variable {cost : Except E ℕ}

section Steps

variable {cfg : Batching E} {s : Serial D R E} {msg : Incoming D}

/-- A message that has been taken is looked at, or passed over. -/
theorem accounts_took (hsound : Sound s.desk (msg :: s.pending)) (hidle : s.point = .idle) :
    Accounts (took s msg) := by
  unfold took
  split
  next hnew =>
    refine ⟨hsound.held_congr ?_, fun other hother => ?_, trivial⟩
    · simp only [SerialPoint.held, ← Multiset.coe_add, ← Multiset.cons_coe, Multiset.coe_nil,
        ← Multiset.singleton_add]
      abel
    · rw [mem_singleton.mp hother]
      exact hnew
  next hold =>
    rw [hidle]
    refine ⟨?_, nofun, trivial⟩
    simpa [SerialPoint.held] using hsound.ignore fun hnew => absurd hnew hold

variable {t : Serial D R E}

theorem Accounts.take (h : Accounts s) (hidle : s.point = .idle) (htake : s.take = some t) :
    Accounts t := by
  have hsound := h.sound
  rw [hidle, SerialPoint.held, append_nil] at hsound
  unfold Serial.take at htake
  split at htake
  next msg rest hpending =>
    cases htake
    rw [hpending] at hsound
    exact accounts_took hsound hidle
  next msg rest hpending hinbox =>
    cases htake
    exact accounts_took (hsound.take hinbox) hidle
  next => cases htake

/-- A request in hand whose mark is consumed. -/
theorem Accounts.consume (h : Accounts s) (hheld : s.point.held = [msg])
    (hmarked : s.desk.isMarked msg = true) :
    Accounts { s with desk := s.desk.consume msg, point := .idle } where
  sound := by
    refine Sound.consume (h.sound.held_congr ?_) hmarked
    rw [hheld, SerialPoint.held, append_nil]
    exact Multiset.coe_eq_coe.mpr perm_append_comm
  requests _ hmem := by cases hmem
  made := trivial

/-- The loop moves on with the same messages in hand. -/
theorem Accounts.move (h : Accounts s) (hheld : point.held = s.point.held)
    (hmade : Made s.desk point) :
    Accounts { s with point := point } where
  sound := by
    rw [hheld]
    exact h.sound
  requests := by
    rw [hheld]
    exact h.requests
  made := hmade

theorem Accounts.collect (h : Accounts s) (hpoint : s.point = .taken msg) (cost : Except E ℕ) :
    Accounts (s.collect cfg msg cost) := by
  have hheld : s.point.held = [msg] := by rw [hpoint, SerialPoint.held]
  unfold Serial.collect
  split
  next hmarked => exact h.consume hheld hmarked
  next =>
    split
    · exact h.move hheld.symm trivial
    · split <;> exact h.move hheld.symm trivial

theorem held_runBatch (first : Incoming D) (rest : List (Incoming D)) :
    (runBatch first rest : SerialPoint D R E).held = first :: rest := by
  unfold runBatch
  split
  next hnil => rw [hnil, SerialPoint.held]
  next => rfl

theorem made_runBatch (d : Desk D R E) (first : Incoming D) (rest : List (Incoming D)) :
    Made d (runBatch first rest) := by
  unfold runBatch
  split <;> exact trivial

/-- A pulled request is in hand, or waits again, or is lost. -/
theorem Accounts.pulled (h : Accounts s) (hpoint : s.point = .collecting first rest batchCost)
    {tail : List (Incoming D)} (hinbox : s.desk.inbox = msg :: tail) (hnew : msg.type = .newRequest)
    (cost : Except E ℕ) :
    Accounts (Serial.pulled cfg { s with desk := { s.desk with inbox := tail } } first rest
      batchCost msg cost) := by
  have hsound := h.sound.take hinbox
  have hheld : s.point.held = first :: rest := by rw [hpoint, SerialPoint.held]
  have hrequests := h.requests
  rw [hheld] at hsound hrequests
  have hmore (cost : ℕ) : Accounts { s with
      desk := { s.desk with inbox := tail }
      point := (.collecting first (rest ++ [msg]) cost : SerialPoint D R E) } := by
    refine ⟨hsound.held_congr ?_, fun other hother => ?_, trivial⟩
    · simp only [SerialPoint.held, ← Multiset.coe_add, ← Multiset.cons_coe, Multiset.coe_nil,
        ← Multiset.singleton_add]
      abel
    · rw [SerialPoint.held, ← cons_append, mem_append, mem_singleton] at hother
      rcases hother with hold | rfl
      · exact hrequests other hold
      · exact hnew
  unfold Serial.pulled
  split
  · exact hmore batchCost
  · split
    · refine ⟨?_, fun other hother => ?_, trivial⟩
      · have hlost : Sound { s.desk with inbox := tail } ((rest ++ [msg]) ++ (s.pending ++ [first]))
          := by
          refine hsound.held_congr ?_
          simp only [← Multiset.coe_add, ← Multiset.cons_coe, Multiset.coe_nil,
            ← Multiset.singleton_add]
          abel
        exact hlost.lose
      · rw [mem_singleton.mp hother]
        exact hrequests first mem_cons_self
    · split
      · refine ⟨hsound.held_congr ?_, ?_, made_runBatch _ _ _⟩
        · rw [held_runBatch]
          rfl
        · rw [held_runBatch]
          exact hrequests
      · exact hmore _

theorem Accounts.pull (h : Accounts s) (hpoint : s.point = .collecting first rest batchCost)
    (hpull : s.pull cfg first rest batchCost cost = some t) :
    Accounts t := by
  unfold Serial.pull at hpull
  obtain ⟨_, hpull⟩ := Option.ite_none_right_eq_some.mp hpull
  split at hpull
  · cases hpull
  next msg tail hinbox =>
    dsimp only at hpull
    split at hpull
    next hnew =>
      cases hpull
      exact h.pulled hpoint hinbox hnew cost
    next =>
      cases hpull
      refine ⟨(h.sound.take hinbox).held_congr ?_, h.requests, ?_⟩
      · simp only [← Multiset.coe_add, ← Multiset.cons_coe, Multiset.coe_nil,
          ← Multiset.singleton_add]
        abel
      · rw [hpoint]
        trivial

theorem Accounts.close (h : Accounts s) (hpoint : s.point = .collecting first rest batchCost) :
    Accounts { s with point := runBatch first rest } := by
  refine h.move ?_ (made_runBatch _ _ _)
  rw [held_runBatch, hpoint, SerialPoint.held]

theorem Accounts.returned (h : Accounts s) (msgs : List (Incoming D)) (results : List R)
    (hheld : point.held = s.point.held) (hmade : Made (s.desk.returned msgs results) point) :
    Accounts { s with desk := s.desk.returned msgs results, point := point } where
  sound := by
    rw [hheld]
    exact h.sound.returned msgs results
  requests := by
    rw [hheld]
    exact h.requests
  made := hmade

theorem Accounts.compute (h : Accounts s) (hpoint : s.point = .single msg) (outcome : Except E R) :
    Accounts (s.compute msg outcome) := by
  have hheld : s.point.held = [msg] := by rw [hpoint, SerialPoint.held]
  unfold Serial.compute
  split
  next hmarked => exact h.consume hheld hmarked
  next =>
    split
    · refine h.returned _ _ hheld.symm ?_
      exact ⟨_, mem_append_right _ (mem_singleton_self _), 0, rfl, rfl⟩
    · exact h.move hheld.symm trivial

theorem Accounts.computeBatch {msgs : List (Incoming D)} (h : Accounts s)
    (hpoint : s.point = .batch msgs) (outcome : Except E (List R)) :
    Accounts (s.computeBatch cfg msgs outcome) := by
  have hheld : s.point.held = msgs := by rw [hpoint, SerialPoint.held]
  unfold Serial.computeBatch
  split
  · exact h.move hheld.symm trivial
  next results =>
    split
    next hlength =>
      refine h.returned _ _ ?_ fun entry hentry => ?_
      · rw [SerialPoint.held, map_fst_zip (Nat.le_of_eq hlength.symm), hheld]
      · obtain ⟨i, hi⟩ := mem_iff_getElem?.mp hentry
        obtain ⟨hmsg, hresult⟩ := getElem?_zip_eq_some.mp hi
        exact ⟨_, mem_append_right _ (mem_singleton_self _), i, hmsg, hresult⟩
    next => exact h.move hheld.symm trivial

/-- The next request in hand is answered. -/
theorem Accounts.reply (h : Accounts s) (hheld : s.point.held = msg :: rest) {body : Except E R}
    (hbody : ∀ result, body = .ok result → s.desk.Computed msg result) (hrest : point.held = rest)
    (hmade : Made s.desk point) :
    Accounts { s with desk := s.desk.answer msg body, point := point } where
  sound := by
    refine Sound.answer (h.sound.held_congr ?_) (h.requests msg ?_) hbody
    · rw [hheld, hrest]
      exact Multiset.coe_eq_coe.mpr perm_middle
    · rw [hheld]
      exact mem_cons_self
  requests other hother := by
    rw [hrest] at hother
    exact h.requests other (hheld ▸ mem_cons_of_mem _ hother)
  made := hmade.mono fun call hcall => (s.desk.answer_frame msg body).2.2.2.2 ▸ hcall

theorem Accounts.answer (h : Accounts s) (hanswer : s.answer = some t) :
    Accounts t := by
  unfold Serial.answer at hanswer
  split at hanswer
  next msg result hpoint =>
    cases hanswer
    refine h.reply (by rw [hpoint]; rfl) (fun other hother => ?_) rfl trivial
    cases hother
    have hmade := h.made
    rw [hpoint] at hmade
    exact hmade
  next msg error hpoint =>
    have hheld : s.point.held = [msg] := by rw [hpoint, SerialPoint.held]
    split at hanswer
    next hmarked =>
      cases hanswer
      exact h.consume hheld hmarked
    next =>
      cases hanswer
      exact h.move hheld.symm trivial
  next hpoint =>
    cases hanswer
    exact h.move (by rw [hpoint]; rfl) trivial
  next error hpoint =>
    cases hanswer
    exact h.move (by rw [hpoint]; rfl) trivial
  next msg result rest hpoint =>
    cases hanswer
    have hmade := h.made
    rw [hpoint] at hmade
    refine h.reply (by rw [hpoint]; rfl) (fun other hother => ?_) rfl fun entry hentry => ?_
    · cases hother
      exact hmade (msg, result) mem_cons_self
    · exact hmade entry (mem_cons_of_mem _ hentry)
  next msg rest error hpoint =>
    cases hanswer
    exact h.reply (by rw [hpoint]; rfl) nofun rfl trivial
  next => cases hanswer

variable {a : SerialAction D R E}

theorem Accounts.step (h : Accounts s) (hstep : s.step cfg a = some t) :
    Accounts t := by
  unfold Serial.step at hstep
  cases a with
  | put requestId type data =>
    cases hstep
    exact ⟨h.sound.put requestId type data, h.requests, h.made.mono fun _ hcall => hcall⟩
  | abort requestId discarded =>
    obtain ⟨desk, hdesk, rfl⟩ := Option.map_eq_some_iff.mp hstep
    obtain ⟨hsound, _, _, _, hcalls⟩ := h.sound.abort hdesk
    exact ⟨hsound, h.requests, h.made.mono fun call hcall => hcalls ▸ hcall⟩
  | take =>
    dsimp only at hstep
    split at hstep
    next hidle => exact h.take hidle hstep
    next => cases hstep
  | collect cost =>
    dsimp only at hstep
    split at hstep
    next msg hpoint =>
      cases hstep
      exact h.collect hpoint cost
    next => cases hstep
  | pull cost =>
    dsimp only at hstep
    split at hstep
    next first rest batchCost hpoint => exact h.pull hpoint hstep
    next => cases hstep
  | close =>
    dsimp only at hstep
    split at hstep
    next first rest batchCost hpoint =>
      obtain ⟨_, hstep⟩ := Option.ite_none_right_eq_some.mp hstep
      cases hstep
      exact h.close hpoint
    next => cases hstep
  | compute outcome =>
    dsimp only at hstep
    split at hstep
    next msg hpoint =>
      cases hstep
      exact h.compute hpoint outcome
    next => cases hstep
  | computeBatch outcome =>
    dsimp only at hstep
    split at hstep
    next msgs hpoint =>
      cases hstep
      exact h.computeBatch hpoint outcome
    next => cases hstep
  | answer => exact h.answer hstep

end Steps

/-- The cost function raises for a request that `_collect_batch` has got from the inbox. -/
def costRaises (cfg : Batching E) (s : Serial D R E) : SerialAction D R E → Bool
  | .pull (.error _) => cfg.hasCostFn && cfg.maxBatchCost.isSome &&
      s.desk.inbox.head?.any fun msg => msg.type = .newRequest
  | _ => false

/-- A step of the loop itself. -/
def isOwn : SerialAction D R E → Bool
  | .put _ _ _ | .abort _ _ => false
  | _ => true

/-- The cost function raises for no request that has been got from the inbox. -/
def CostsKnown (cfg : Batching E) (s : Serial D R E) (a : SerialAction D R E) : Prop :=
  costRaises cfg s a = false

instance (cfg : Batching E) (s : Serial D R E) (a : SerialAction D R E) :
    Decidable (CostsKnown cfg s a) := inferInstanceAs (Decidable (_ = false))

/-- The steps of the loop itself, with known costs. -/
def ownStep (cfg : Batching E) (s : Serial D R E) (a : SerialAction D R E) :
    Option (Serial D R E) :=
  if isOwn a = true ∧ costRaises cfg s a = false then s.step cfg a else none

/-- Nothing is left to do. -/
def AtRest (s : Serial D R E) : Prop := s.point = .idle ∧ s.pending = [] ∧ s.desk.inbox = []

/-- How far the loop is from the end of an iteration. -/
def weight : SerialPoint D R E → ℕ
  | .idle => 0
  | .taken _ => 9
  | .collecting _ rest _ => 8 + 2 * rest.length
  | .single _ => 4
  | .computed _ _ => 3
  | .batch msgs => 3 + msgs.length
  | .answering rest => 1 + rest.length
  | .failing rest _ => 1 + rest.length

/-- What is left to do. -/
def measure (s : Serial D R E) : ℕ :=
  12 * s.desk.inbox.length + 11 * s.pending.length + weight s.point

/-- The loop has come closer to its rest, and has lost nothing. -/
structure Advances (s t : Serial D R E) : Prop where
  arrived : t.desk.arrived = s.desk.arrived
  abortCalls : t.desk.abortCalls = s.desk.abortCalls
  lost : t.desk.lost = s.desk.lost
  less : measure t < measure s

section Rest

variable {cfg : Batching E} {s t : Serial D R E}

theorem advances_took {msg : Incoming D} (hidle : s.point = .idle) {bound : ℕ}
    (hbound : measure s + 10 ≤ bound) : measure (took s msg) < bound ∧
      (took s msg).desk.arrived = s.desk.arrived ∧
      (took s msg).desk.abortCalls = s.desk.abortCalls ∧
      (took s msg).desk.lost = s.desk.lost := by
  unfold measure at hbound
  rw [hidle] at hbound
  unfold took
  split
  · refine ⟨?_, rfl, rfl, rfl⟩
    unfold measure
    dsimp only [weight] at hbound ⊢
    omega
  · refine ⟨?_, rfl, rfl, rfl⟩
    unfold measure Desk.ignore
    dsimp only
    rw [hidle]
    dsimp only [weight] at hbound ⊢
    omega

theorem advances_take (hidle : s.point = .idle) (htake : s.take = some t) : Advances s t := by
  unfold Serial.take at htake
  split at htake
  next msg rest hpending =>
    cases htake
    obtain ⟨hless, harrived, haborts, hlost⟩ := @advances_took _ _ _
      { s with pending := rest } msg hidle (measure s) (by
        unfold measure
        rw [hpending, length_cons]
        dsimp only
        omega)
    exact ⟨harrived, haborts, hlost, hless⟩
  next msg rest hpending hinbox =>
    cases htake
    obtain ⟨hless, harrived, haborts, hlost⟩ := @advances_took _ _ _
      { s with desk := { s.desk with inbox := rest } } msg hidle (measure s) (by
        unfold measure
        rw [hinbox, length_cons]
        dsimp only
        omega)
    exact ⟨harrived, haborts, hlost, hless⟩
  next => cases htake

/-- The loop moves to a lighter point. -/
theorem advances_move (hlighter : weight point < weight s.point) {desk : Desk D R E}
    (harrived : desk.arrived = s.desk.arrived) (haborts : desk.abortCalls = s.desk.abortCalls)
    (hlost : desk.lost = s.desk.lost) (hinbox : desk.inbox = s.desk.inbox) :
    Advances s { s with desk := desk, point := point } where
  arrived := harrived
  abortCalls := haborts
  lost := hlost
  less := by
    unfold measure
    dsimp only
    rw [hinbox]
    omega

theorem weight_runBatch (first : Incoming D) (rest : List (Incoming D)) :
    weight (runBatch first rest : SerialPoint D R E) < 8 + 2 * rest.length := by
  unfold runBatch
  split
  · dsimp only [weight]
    omega
  · dsimp only [weight]
    rw [length_cons]
    omega

theorem advances_pull (hpoint : s.point = .collecting first rest batchCost)
    (hknown : costRaises (R := R) cfg s (.pull cost) = false)
    (hpull : s.pull cfg first rest batchCost cost = some t) : Advances s t := by
  unfold Serial.pull at hpull
  obtain ⟨_, hpull⟩ := Option.ite_none_right_eq_some.mp hpull
  split at hpull
  · cases hpull
  next msg tail hinbox =>
    dsimp only at hpull
    have hlength : s.desk.inbox.length = tail.length + 1 := by rw [hinbox, length_cons]
    split at hpull
    swap
    · cases hpull
      refine ⟨rfl, rfl, rfl, ?_⟩
      unfold measure
      dsimp only
      rw [hlength, length_append, length_singleton]
      omega
    next hnew =>
      cases hpull
      unfold Serial.pulled
      split
      next =>
        refine ⟨rfl, rfl, rfl, ?_⟩
        unfold measure
        rw [hlength, hpoint]
        dsimp only [weight]
        rw [length_append, length_singleton]
        omega
      next bound hbound =>
        split
        next error hcost =>
          exfalso
          unfold messageCost at hcost
          split at hcost
          next hfn =>
            rw [hcost] at hknown
            unfold costRaises at hknown
            rw [hfn, hbound, hinbox] at hknown
            simp [hnew] at hknown
          next => cases hcost
        next k _ =>
          split
          next =>
            refine ⟨rfl, rfl, rfl, ?_⟩
            have hlighter := weight_runBatch (D := D) (R := R) (E := E) first rest
            have hhere : weight s.point = 8 + 2 * rest.length := by rw [hpoint, weight]
            unfold measure
            rw [hlength, hhere]
            dsimp only
            rw [length_cons]
            omega
          next =>
            refine ⟨rfl, rfl, rfl, ?_⟩
            unfold measure
            rw [hlength, hpoint]
            dsimp only [weight]
            rw [length_append, length_singleton]
            omega

variable {a : SerialAction D R E}

theorem advances_of_ownStep (hstep : ownStep cfg s a = some t) :
    Advances s t := by
  obtain ⟨⟨hown, hknown⟩, hstep⟩ := Option.ite_none_right_eq_some.mp hstep
  unfold Serial.step at hstep
  cases a with
  | put requestId type data => cases hown
  | abort requestId discarded => cases hown
  | take =>
    dsimp only at hstep
    split at hstep
    next hidle => exact advances_take hidle hstep
    next => cases hstep
  | collect cost =>
    dsimp only at hstep
    split at hstep
    next msg hpoint =>
      cases hstep
      unfold Serial.collect
      split
      · exact advances_move (by simp [hpoint, weight]) rfl rfl rfl rfl
      · split
        · exact advances_move (by simp [hpoint, weight]) rfl rfl rfl rfl
        · split <;> exact advances_move (by simp [hpoint, weight]) rfl rfl rfl rfl
    next => cases hstep
  | pull cost =>
    dsimp only at hstep
    split at hstep
    next first rest batchCost hpoint => exact advances_pull hpoint hknown hstep
    next => cases hstep
  | close =>
    dsimp only at hstep
    split at hstep
    next first rest batchCost hpoint =>
      obtain ⟨_, hstep⟩ := Option.ite_none_right_eq_some.mp hstep
      cases hstep
      refine advances_move ?_ rfl rfl rfl rfl
      rw [hpoint]
      exact weight_runBatch first rest
    next => cases hstep
  | compute outcome =>
    dsimp only at hstep
    split at hstep
    next msg hpoint =>
      cases hstep
      unfold Serial.compute
      split
      · exact advances_move (by simp [hpoint, weight]) rfl rfl rfl rfl
      · split <;> exact advances_move (by simp [hpoint, weight]) rfl rfl rfl rfl
    next => cases hstep
  | computeBatch outcome =>
    dsimp only at hstep
    split at hstep
    next msgs hpoint =>
      cases hstep
      have hhere : weight s.point = 3 + msgs.length := by rw [hpoint, weight]
      unfold Serial.computeBatch
      split
      · exact advances_move (by rw [hhere, weight]; omega) rfl rfl rfl rfl
      next results =>
        split
        next hlength =>
          refine advances_move ?_ rfl rfl rfl rfl
          rw [hhere, weight, length_zip, hlength, Nat.min_self]
          omega
        next => exact advances_move (by rw [hhere, weight]; omega) rfl rfl rfl rfl
    next => cases hstep
  | answer =>
    dsimp only at hstep
    unfold Serial.answer at hstep
    split at hstep
    next msg result hpoint =>
      cases hstep
      obtain ⟨harrived, haborts, hlost, hinbox, _⟩ := s.desk.answer_frame msg (.ok result)
      exact advances_move (by simp [hpoint, weight]) harrived haborts hlost hinbox
    next msg error hpoint =>
      split at hstep
      · cases hstep
        exact advances_move (by simp [hpoint, weight]) rfl rfl rfl rfl
      · cases hstep
        exact advances_move (by simp [hpoint, weight]) rfl rfl rfl rfl
    next hpoint =>
      cases hstep
      exact advances_move (by simp [hpoint, weight]) rfl rfl rfl rfl
    next error hpoint =>
      cases hstep
      exact advances_move (by simp [hpoint, weight]) rfl rfl rfl rfl
    next msg result rest hpoint =>
      cases hstep
      obtain ⟨harrived, haborts, hlost, hinbox, _⟩ := s.desk.answer_frame msg (.ok result)
      refine advances_move ?_ harrived haborts hlost hinbox
      rw [hpoint, weight, weight, length_cons]
      omega
    next msg rest error hpoint =>
      cases hstep
      obtain ⟨harrived, haborts, hlost, hinbox, _⟩ := s.desk.answer_frame msg (.error error)
      refine advances_move ?_ harrived haborts hlost hinbox
      rw [hpoint, weight, weight, length_cons]
      omega
    next => cases hstep

theorem lost_of_step (hknown : CostsKnown cfg s a) (hstep : s.step cfg a = some t) :
    t.desk.lost = s.desk.lost := by
  by_cases hown : isOwn a = true
  · exact (advances_of_ownStep (a := a) ((if_pos ⟨hown, hknown⟩).trans hstep)).lost
  · cases a with
    | put requestId type data =>
      cases hstep
      rfl
    | abort requestId discarded =>
      obtain ⟨desk, hdesk, rfl⟩ := Option.map_eq_some_iff.mp hstep
      unfold Desk.abort at hdesk
      obtain ⟨_, hdesk⟩ := Option.ite_none_right_eq_some.mp hdesk
      rw [← Option.some.inj hdesk]
    | _ => exact absurd rfl hown

/-- While something is left to do, the loop can go on. -/
theorem exists_ownStep (hwork : ¬AtRest s) : ∃ a t, ownStep cfg s a = some t := by
  have hgo {a : SerialAction D R E} {t : Serial D R E} (hown : isOwn a = true)
      (hknown : costRaises cfg s a = false) (hstep : s.step cfg a = some t) :
      ∃ a t, ownStep cfg s a = some t := ⟨a, t, (if_pos ⟨hown, hknown⟩).trans hstep⟩
  cases hpoint : s.point with
  | idle =>
    obtain ⟨t, ht⟩ : ∃ t, s.take = some t := by
      unfold Serial.take
      cases hpending : s.pending with
      | cons msg rest => exact ⟨_, rfl⟩
      | nil =>
        cases hinbox : s.desk.inbox with
        | cons msg rest => exact ⟨_, rfl⟩
        | nil => exact absurd ⟨hpoint, hpending, hinbox⟩ hwork
    exact hgo (a := .take) rfl rfl (by simp only [Serial.step, hpoint]; exact ht)
  | taken msg => exact hgo (a := .collect (.ok 0)) rfl rfl (by simp only [Serial.step, hpoint]; rfl)
  | collecting first rest batchCost =>
    by_cases hclose : cfg.maxBatchSize ≤ rest.length + 1 ∨ s.desk.inbox = []
    · exact hgo (a := .close) rfl rfl (by simp only [Serial.step, hpoint]; exact if_pos hclose)
    · rw [not_or, Nat.not_le] at hclose
      obtain ⟨t, ht⟩ : ∃ t, s.pull cfg first rest batchCost (.ok 0) = some t := by
        unfold Serial.pull
        rw [if_pos hclose.1]
        cases hinbox : s.desk.inbox with
        | nil => exact absurd hinbox hclose.2
        | cons msg tail =>
          dsimp only
          split <;> exact ⟨_, rfl⟩
      exact hgo (a := .pull (.ok 0)) rfl rfl (by simp only [Serial.step, hpoint]; exact ht)
  | single msg =>
    exact hgo (a := .compute (.error (cfg.lengthError 0 0))) rfl rfl
      (by simp only [Serial.step, hpoint]; rfl)
  | computed msg outcome =>
    obtain ⟨t, ht⟩ : ∃ t, s.answer = some t := by
      unfold Serial.answer
      rw [hpoint]
      cases outcome with
      | ok result => exact ⟨_, rfl⟩
      | error error =>
        dsimp only
        split <;> exact ⟨_, rfl⟩
    exact hgo (a := .answer) rfl rfl ht
  | batch msgs =>
    exact hgo (a := .computeBatch (.error (cfg.lengthError 0 0))) rfl rfl
      (by simp only [Serial.step, hpoint]; rfl)
  | answering rest =>
    obtain ⟨t, ht⟩ : ∃ t, s.answer = some t := by
      unfold Serial.answer
      rw [hpoint]
      cases rest <;> exact ⟨_, rfl⟩
    exact hgo (a := .answer) rfl rfl ht
  | failing rest error =>
    obtain ⟨t, ht⟩ : ∃ t, s.answer = some t := by
      unfold Serial.answer
      rw [hpoint]
      cases rest <;> exact ⟨_, rfl⟩
    exact hgo (a := .answer) rfl rfl ht

end Rest

end Serial

end Omni.Simple
