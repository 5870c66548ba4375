import Omni.Simple.Serial

/-!
# Concurrent workers

`_run_workers`: a bridge moves the messages to a queue of the event loop, from which a number of
workers take them. A request is answered once, by one reply that is its own, unless the cost
function raises for a request that a batch has got from the inbox.
-/

namespace Omni.Simple

open Transition List Option

variable {D R E : Type} {i : ℕ} {d : Desk D R E} {as : List (SerialAction D R E)}

/-- A worker with a request: the outcome, when its thread has returned. -/
structure Task (D R E : Type) where
  msg : Incoming D
  outcome : Option (Except E R)

/-- The scheduler. The workers without a request wait at the queue. -/
structure Concurrent (D R E : Type) where
  desk : Desk D R E
  /-- What `bridge_inbox` has got and not yet put. -/
  bridge : Option (Incoming D)
  asyncInbox : List (Incoming D)
  busy : List (Task D R E)

/-- The steps of the bridge and the workers, and what other threads do. -/
inductive ConcurrentAction (D R E : Type)
  | put (requestId : String) (type : MessageType) (data : D)
  | abort (requestId : String) (discarded : List String)
  | fetch
  | forward
  | take
  | compute (i : ℕ) (outcome : Except E R)
  | answer (i : ℕ)

namespace Concurrent

/-- Before the first message. -/
def init (D R E : Type) : Concurrent D R E := ⟨.init D R E, none, [], []⟩

/-- A worker gets a message. -/
def took (s : Concurrent D R E) (msg : Incoming D) : Concurrent D R E :=
  if msg.type = .newRequest then
    if s.desk.isMarked msg then { s with desk := s.desk.consume msg }
    else { s with busy := s.busy ++ [⟨msg, none⟩] }
  else { s with desk := s.desk.ignore msg }

/-- A thread returns. -/
def computed (s : Concurrent D R E) (i : ℕ) (msg : Incoming D) (outcome : Except E R) :
    Concurrent D R E :=
  let s := { s with busy := s.busy.set i ⟨msg, some outcome⟩ }
  match outcome with
  | .ok result => { s with desk := s.desk.returned [msg] [result] }
  | .error _ => s

/-- The transition function, with a number of workers. -/
def step (maxConcurrency : ℕ) (s : Concurrent D R E) :
    ConcurrentAction D R E → Option (Concurrent D R E)
  | .put requestId type data => some { s with desk := s.desk.put requestId type data }
  | .abort requestId discarded =>
    (s.desk.abort requestId discarded).map fun desk => { s with desk := desk }
  | .fetch =>
    match s.bridge, s.desk.inbox with
    | none, msg :: rest =>
      some { s with desk := { s.desk with inbox := rest }, bridge := some msg }
    | _, _ => none
  | .forward => s.bridge.map fun msg =>
      { s with bridge := none, asyncInbox := s.asyncInbox ++ [msg] }
  | .take =>
    if s.busy.length < maxConcurrency then
      match s.asyncInbox with
      | msg :: rest => some (took { s with asyncInbox := rest } msg)
      | [] => none
    else none
  | .compute i outcome =>
    match s.busy[i]? with
    | some ⟨msg, none⟩ => some (s.computed i msg outcome)
    | _ => none
  | .answer i =>
    match s.busy[i]? with
    | some ⟨msg, some outcome⟩ =>
      some { s with desk := s.desk.answer msg outcome, busy := s.busy.eraseIdx i }
    | _ => none

/-- The messages between the inbox and the outbox. -/
def held (s : Concurrent D R E) : List (Incoming D) :=
  s.bridge.toList ++ s.asyncInbox ++ s.busy.map Task.msg

/-- The accounts of the scheduler. -/
structure Accounts (s : Concurrent D R E) : Prop where
  sound : Sound s.desk s.held
  requests : ∀ task ∈ s.busy, task.msg.type = .newRequest
  made : ∀ task ∈ s.busy, ∀ result, task.outcome = some (.ok result) →
    s.desk.Computed task.msg result
  lost : s.desk.lost = []

theorem accounts_init : Accounts (init D R E) where
  sound := sound_init
  requests _ h := by cases h
  made _ h := by cases h
  lost := rfl

/-- Nothing is left to do. -/
def AtRest (s : Concurrent D R E) : Prop :=
  s.desk.inbox = [] ∧ s.bridge = none ∧ s.asyncInbox = [] ∧ s.busy = []

/-- A step of the bridge or a worker. -/
def isOwn : ConcurrentAction D R E → Bool
  | .put _ _ _ | .abort _ _ => false
  | _ => true

/-- The steps of the bridge and the workers. -/
def ownStep (maxConcurrency : ℕ) (s : Concurrent D R E) (a : ConcurrentAction D R E) :
    Option (Concurrent D R E) :=
  if isOwn a then s.step maxConcurrency a else none

/-- What is left to do for a worker. -/
def taskWeight (task : Task D R E) : ℕ := if task.outcome.isNone then 2 else 1

/-- What is left to do. -/
def measure (s : Concurrent D R E) : ℕ :=
  5 * s.desk.inbox.length + 4 * s.bridge.toList.length + 3 * s.asyncInbox.length +
    (s.busy.map taskWeight).sum

/-- The scheduler has come closer to its rest. -/
structure Advances (s t : Concurrent D R E) : Prop where
  arrived : t.desk.arrived = s.desk.arrived
  abortCalls : t.desk.abortCalls = s.desk.abortCalls
  less : measure t < measure s

section Steps

variable {maxConcurrency : ℕ} {s t : Concurrent D R E} {msg : Incoming D}

/-- A worker gets a message. -/
theorem accounts_took (hsound : Sound s.desk (msg :: s.held))
    (hrequests : ∀ task ∈ s.busy, task.msg.type = .newRequest)
    (hmade : ∀ task ∈ s.busy, ∀ result, task.outcome = some (.ok result) →
      s.desk.Computed task.msg result) (hlost : s.desk.lost = []) : Accounts (took s msg) := by
  unfold took
  split
  next hnew =>
    split
    next hmarked => exact ⟨hsound.consume hmarked, hrequests, hmade, hlost⟩
    next =>
      refine ⟨hsound.held_congr ?_, fun task htask => ?_, fun task htask result hresult => ?_,
        hlost⟩
      · unfold held
        simp only [map_append, map_cons, map_nil, ← Multiset.coe_add,
          ← Multiset.cons_coe, Multiset.coe_nil, ← Multiset.singleton_add]
        abel
      · rcases mem_append.mp htask with hold | hlast
        · exact hrequests task hold
        · rw [mem_singleton.mp hlast]
          exact hnew
      · rcases mem_append.mp htask with hold | hlast
        · exact hmade task hold result hresult
        · rw [mem_singleton.mp hlast] at hresult
          cases hresult
  next hold => exact ⟨hsound.ignore fun hnew => absurd hnew hold, hrequests, hmade, hlost⟩

/-- A thread returns: the messages in hand are the same. -/
theorem held_computed (htask : s.busy[i]? = some ⟨msg, none⟩) (outcome : Except E R) :
    (s.busy.set i ⟨msg, some outcome⟩).map Task.msg = s.busy.map Task.msg := by
  obtain ⟨hlt, hget⟩ := List.getElem?_eq_some_iff.mp htask
  rw [map_set]
  refine ext_getElem? fun j => ?_
  rw [getElem?_set]
  split
  next heq =>
    subst heq
    rw [if_pos (by rwa [length_map]), getElem?_map, htask, map_some]
  next => rfl

theorem Accounts.computed (h : Accounts s) (htask : s.busy[i]? = some ⟨msg, none⟩)
    (outcome : Except E R) : Accounts (s.computed i msg outcome) := by
  have hmem : (⟨msg, none⟩ : Task D R E) ∈ s.busy := mem_of_getElem? htask
  have hrequests : ∀ task ∈ s.busy.set i ⟨msg, some outcome⟩, task.msg.type = .newRequest := by
    intro task hset
    rcases mem_or_eq_of_mem_set hset with hold | rfl
    · exact h.requests task hold
    · exact h.requests ⟨msg, none⟩ hmem
  unfold Concurrent.computed
  cases outcome with
  | ok result =>
    dsimp only
    refine ⟨?_, hrequests, fun task hset other hother => ?_, h.lost⟩
    · refine (h.sound.returned [msg] [result]).held_congr ?_
      unfold held
      rw [held_computed htask]
    · rcases mem_or_eq_of_mem_set hset with hold | rfl
      · exact (h.made task hold other hother).mono fun _ hcall => mem_append_left _ hcall
      · cases hother
        exact ⟨_, mem_append_right _ (mem_singleton_self _), 0, rfl, rfl⟩
  | error error =>
    dsimp only
    refine ⟨?_, hrequests, fun task hset other hother => ?_, h.lost⟩
    · refine h.sound.held_congr ?_
      unfold held
      rw [held_computed htask]
    · rcases mem_or_eq_of_mem_set hset with hold | rfl
      · exact h.made task hold other hother
      · cases hother

theorem Accounts.answer (h : Accounts s) {outcome : Except E R}
    (htask : s.busy[i]? = some ⟨msg, some outcome⟩) :
    Accounts { s with desk := s.desk.answer msg outcome, busy := s.busy.eraseIdx i } := by
  obtain ⟨hlt, hget⟩ := List.getElem?_eq_some_iff.mp htask
  have hmem : (⟨msg, some outcome⟩ : Task D R E) ∈ s.busy := mem_of_getElem? htask
  obtain ⟨_, _, hlost, _, hcalls⟩ := s.desk.answer_frame msg outcome
  refine ⟨Sound.answer (h.sound.held_congr ?_) (h.requests _ hmem) fun result hresult => ?_,
    fun task herase => h.requests task (mem_of_mem_eraseIdx herase),
    fun task herase result hresult => ?_, hlost.trans h.lost⟩
  · have hperm : (s.busy.map Task.msg).Perm (msg :: (s.busy.eraseIdx i).map Task.msg) := by
      have hbusy := (getElem_cons_eraseIdx_perm hlt).symm.map Task.msg
      rwa [hget, map_cons] at hbusy
    unfold held
    simp only [← Multiset.coe_add, ← Multiset.cons_coe, ← Multiset.singleton_add,
      Multiset.coe_eq_coe.mpr hperm]
    abel
  · exact h.made _ hmem result (congrArg some hresult)
  · exact (h.made task (mem_of_mem_eraseIdx herase) result hresult).mono
      fun call hcall => hcalls ▸ hcall

variable {a : ConcurrentAction D R E}

theorem Accounts.step (h : Accounts s) (hstep : s.step maxConcurrency a = some t) : Accounts t := by
  unfold Concurrent.step at hstep
  cases a with
  | put requestId type data =>
    cases hstep
    exact { h with sound := h.sound.put requestId type data }
  | abort requestId discarded =>
    obtain ⟨desk, hdesk, rfl⟩ := map_eq_some_iff.mp hstep
    obtain ⟨hsound, _, _, hlost, hcalls⟩ := h.sound.abort hdesk
    exact ⟨hsound, h.requests, fun task htask result hresult =>
      (h.made task htask result hresult).mono fun call hcall => hcalls ▸ hcall,
      hlost.trans h.lost⟩
  | fetch =>
    dsimp only at hstep
    split at hstep
    next msg rest hbridge hinbox =>
      cases hstep
      refine { h with sound := (h.sound.take hinbox).held_congr ?_ }
      unfold held
      rw [hbridge]
      simp only [Option.toList, ← Multiset.coe_add, ← Multiset.cons_coe, Multiset.coe_nil,
        ← Multiset.singleton_add]
      abel
    next => cases hstep
  | forward =>
    obtain ⟨msg, hbridge, rfl⟩ := map_eq_some_iff.mp hstep
    refine { h with sound := h.sound.held_congr ?_ }
    unfold held
    rw [hbridge]
    simp only [Option.toList, ← Multiset.coe_add]
    abel
  | take =>
    obtain ⟨_, hstep⟩ := ite_none_right_eq_some.mp hstep
    split at hstep
    next msg rest hinbox =>
      cases hstep
      refine accounts_took (h.sound.held_congr ?_) h.requests h.made h.lost
      unfold held
      rw [hinbox]
      simp only [← Multiset.coe_add, ← Multiset.cons_coe, ← Multiset.singleton_add]
      abel
    next => cases hstep
  | compute i outcome =>
    dsimp only at hstep
    split at hstep
    next msg htask =>
      cases hstep
      exact h.computed htask outcome
    next => cases hstep
  | answer i =>
    dsimp only at hstep
    split at hstep
    next msg outcome htask =>
      cases hstep
      exact h.answer htask
    next => cases hstep

end Steps

section Rest

variable {maxConcurrency : ℕ} {s t : Concurrent D R E}

variable {busy : List (Task D R E)} {task : Task D R E}

/-- What is left to do for one worker and the others. -/
theorem sum_busy (htask : busy[i]? = some task) :
    (busy.map taskWeight).sum = taskWeight task + ((busy.eraseIdx i).map taskWeight).sum := by
  obtain ⟨hlt, rfl⟩ := List.getElem?_eq_some_iff.mp htask
  have hperm := (getElem_cons_eraseIdx_perm hlt).symm.map taskWeight
  rw [hperm.sum_nat, map_cons, sum_cons]

theorem sum_set (htask : busy[i]? = some task) (task' : Task D R E) :
    ((busy.set i task').map taskWeight).sum =
      taskWeight task' + ((busy.eraseIdx i).map taskWeight).sum := by
  obtain ⟨hlt, _⟩ := List.getElem?_eq_some_iff.mp htask
  have hperm := (set_perm_cons_eraseIdx hlt task').map taskWeight
  rw [hperm.sum_nat, map_cons, sum_cons]

variable {a : ConcurrentAction D R E}

theorem advances_of_ownStep (hstep : ownStep maxConcurrency s a = some t) : Advances s t := by
  obtain ⟨hown, hstep⟩ := ite_none_right_eq_some.mp hstep
  unfold Concurrent.step at hstep
  cases a with
  | put requestId type data => cases hown
  | abort requestId discarded => cases hown
  | fetch =>
    dsimp only at hstep
    split at hstep
    next msg rest hbridge hinbox =>
      cases hstep
      refine ⟨rfl, rfl, ?_⟩
      unfold measure
      rw [hbridge, hinbox]
      simp only [Option.toList, length_cons, length_nil]
      omega
    next => cases hstep
  | forward =>
    obtain ⟨msg, hbridge, rfl⟩ := map_eq_some_iff.mp hstep
    refine ⟨rfl, rfl, ?_⟩
    unfold measure
    rw [hbridge]
    simp only [Option.toList, length_cons, length_nil, length_append]
    omega
  | take =>
    obtain ⟨_, hstep⟩ := ite_none_right_eq_some.mp hstep
    split at hstep
    next msg rest hinbox =>
      cases hstep
      have hlength : s.asyncInbox.length = rest.length + 1 := by rw [hinbox, length_cons]
      unfold took
      split
      · split
        · refine ⟨rfl, rfl, ?_⟩
          unfold measure Desk.consume Desk.ignore
          dsimp only
          omega
        · refine ⟨rfl, rfl, ?_⟩
          unfold measure
          dsimp only
          rw [map_append, sum_append, map_singleton, sum_singleton]
          simp only [taskWeight, isNone_none, if_true]
          omega
      · refine ⟨rfl, rfl, ?_⟩
        unfold measure Desk.ignore
        dsimp only
        omega
    next => cases hstep
  | compute i outcome =>
    dsimp only at hstep
    split at hstep
    next msg htask =>
      cases hstep
      have hbefore := sum_busy htask
      have hafter := sum_set htask ⟨msg, some outcome⟩
      simp only [taskWeight, isNone_none, if_true, isNone_some, Bool.false_eq_true,
        if_false] at hbefore hafter
      unfold computed
      cases outcome with
      | ok result =>
        refine ⟨rfl, rfl, ?_⟩
        unfold measure Desk.returned
        dsimp only
        omega
      | error error =>
        refine ⟨rfl, rfl, ?_⟩
        unfold measure
        dsimp only
        omega
    next => cases hstep
  | answer i =>
    dsimp only at hstep
    split at hstep
    next msg outcome htask =>
      cases hstep
      obtain ⟨harrived, haborts, _, hinbox, _⟩ := s.desk.answer_frame msg outcome
      have hbefore := sum_busy htask
      simp only [taskWeight, isNone_some, Bool.false_eq_true, if_false] at hbefore
      refine ⟨harrived, haborts, ?_⟩
      unfold measure
      dsimp only
      rw [hinbox]
      omega
    next => cases hstep

/-- While something is left to do, the scheduler can go on. -/
theorem exists_ownStep [Inhabited E] (hworkers : 0 < maxConcurrency) (hwork : ¬AtRest s) :
    ∃ a t, ownStep maxConcurrency s a = some t := by
  have hgo {a : ConcurrentAction D R E} (hown : isOwn a = true)
      (hstep : ∃ t, s.step maxConcurrency a = some t) :
      ∃ a t, ownStep maxConcurrency s a = some t := by
    obtain ⟨t, ht⟩ := hstep
    exact ⟨a, t, (if_pos hown).trans ht⟩
  cases hbusy : s.busy with
  | cons task rest =>
    obtain ⟨msg, outcome⟩ := task
    cases outcome with
    | none =>
      refine hgo (a := .compute 0 (.error default)) rfl ?_
      simp [Concurrent.step, hbusy]
    | some outcome =>
      refine hgo (a := .answer 0) rfl ?_
      simp [Concurrent.step, hbusy]
  | nil =>
    cases hasync : s.asyncInbox with
    | cons msg rest =>
      refine hgo (a := .take) rfl ?_
      simp [Concurrent.step, hbusy, hasync, hworkers]
    | nil =>
      cases hbridge : s.bridge with
      | some msg =>
        refine hgo (a := .forward) rfl ?_
        simp [Concurrent.step, hbridge]
      | none =>
        cases hinbox : s.desk.inbox with
        | cons msg rest =>
          refine hgo (a := .fetch) rfl ?_
          simp [Concurrent.step, hbridge, hinbox]
        | nil => exact absurd ⟨hinbox, hbridge, hasync, hbusy⟩ hwork

end Rest

end Concurrent

/-- The message has one reply, which is its own: an error, or what has been computed for it. -/
def OneReply (d : Desk D R E) (msg : Incoming D) : Prop :=
  ∃ reply, d.repliesTo msg = [reply] ∧ reply.requestId = msg.requestId ∧
    ∀ result, reply.body = .ok result → d.Computed msg result

/-- No request has more than one reply, and there is no other reply. -/
structure Answers (d : Desk D R E) : Prop where
  atMostOne : ∀ msg ∈ d.arrived, d.repliesTo msg = [] ∨ OneReply d msg
  ofRequests : ∀ reply ∈ d.outbox, ∃ msg ∈ d.arrived, msg.type = .newRequest ∧
    reply ∈ d.repliesTo msg

/-- All requests that have arrived and have not been aborted have got their reply. -/
def Settled (d d' : Desk D R E) : Prop :=
  ∀ msg ∈ d.arrived, msg.type = .newRequest → msg.requestId ∉ d.abortCalls → OneReply d' msg

theorem Sound.answersAll {held : List (Incoming D)} (h : Sound d held) :
    Answers d where
  atMostOne msg harrived := by
    by_cases hanswered : msg ∈ d.answered
    · exact Or.inr (h.replies hanswered)
    · exact Or.inl (h.no_replies harrived hanswered)
  ofRequests reply hreply := by
    obtain ⟨i, hi⟩ := mem_iff_getElem?.mp hreply
    obtain ⟨hlt, _⟩ := List.getElem?_eq_some_iff.mp hi
    obtain ⟨msg, hmsg⟩ : ∃ msg, d.answered[i]? = some msg :=
      ⟨_, getElem?_eq_getElem (h.answers.length_eq.symm ▸ hlt)⟩
    have hanswered := mem_of_getElem? hmsg
    have hentry : (msg, reply) ∈ d.answered.zip d.outbox :=
      mem_of_getElem? (getElem?_zip_eq_some.mpr ⟨hmsg, hi⟩)
    refine ⟨msg, h.mem_iff.mpr (Or.inr (Or.inr (Or.inl hanswered))), h.requests _ hanswered, ?_⟩
    exact mem_map.mpr ⟨(msg, reply), mem_filter.mpr ⟨hentry, by simp⟩, rfl⟩

/-- At rest, everything is settled. -/
theorem Sound.settled {d' : Desk D R E} (h : Sound d' []) (hrest : d'.inbox = [])
    (hlost : d'.lost = []) (harrived : d'.arrived = d.arrived)
    (haborts : d'.abortCalls = d.abortCalls) : Settled d d' := by
  intro msg hmsg hnew habort
  refine h.replies (h.answered_of_rest hrest (harrived ▸ hmsg) hnew (haborts ▸ habort) ?_)
  rw [hlost]
  exact not_mem_nil

namespace Serial

variable {cfg : Batching E} {s : Serial D R E}

theorem accounts_of_run (hrun : Run (Serial.step cfg) (CostsKnown cfg) (init D R E) as s) :
    Accounts s ∧ s.desk.lost = [] :=
  hrun.invariant (I := fun s => Accounts s ∧ s.desk.lost = [])
    (fun _ _ _ h hknown hstep => ⟨h.1.step hstep, (lost_of_step hknown hstep).trans h.2⟩)
    ⟨accounts_init, rfl⟩

/-- The loop comes to rest, and then everything is settled. -/
theorem inevitable_settled (h : Accounts s) (hlost : s.desk.lost = []) :
    Inevitable (ownStep cfg) (fun t => Settled s.desk t.desk) s := by
  let I (t : Serial D R E) : Prop := Accounts t ∧ t.desk.lost = [] ∧
    t.desk.arrived = s.desk.arrived ∧ t.desk.abortCalls = s.desk.abortCalls
  have hrest : Inevitable (ownStep cfg) (fun t => I t ∧ AtRest t) s := by
    refine inevitable_of_measure (I := I) measure (fun t ht hgoal => ?_)
      (fun t a u ht _ hstep => Or.inr ?_) ⟨h, hlost, rfl, rfl⟩
    · exact exists_ownStep fun hrest => hgoal ⟨ht, hrest⟩
    · have hadvances := advances_of_ownStep hstep
      obtain ⟨_, hstep⟩ := ite_none_right_eq_some.mp hstep
      exact ⟨⟨ht.1.step hstep, hadvances.lost.trans ht.2.1, hadvances.arrived.trans ht.2.2.1,
        hadvances.abortCalls.trans ht.2.2.2⟩, hadvances.less⟩
  refine hrest.mono fun t ht => ?_
  obtain ⟨⟨haccounts, hlost, harrived, haborts⟩, hidle, hpending, hinbox⟩ := ht
  have hsound := haccounts.sound
  rw [hidle, hpending] at hsound
  exact hsound.settled hinbox hlost harrived haborts

theorem lost_mono {t : Serial D R E} {a : SerialAction D R E} (hstep : s.step cfg a = some t)
    {msg : Incoming D} (hmsg : msg ∈ s.desk.lost) : msg ∈ t.desk.lost := by
  by_cases hknown : CostsKnown cfg s a
  · rw [lost_of_step hknown hstep]
    exact hmsg
  · cases a with
    | pull cost =>
      unfold Serial.step at hstep
      dsimp only at hstep
      split at hstep
      swap
      · cases hstep
      unfold Serial.pull at hstep
      obtain ⟨_, hstep⟩ := ite_none_right_eq_some.mp hstep
      split at hstep
      · cases hstep
      dsimp only at hstep
      split at hstep
      · cases hstep
        unfold Serial.pulled
        split
        · exact hmsg
        · split
          · exact mem_append_left _ hmsg
          · split <;> exact hmsg
      · cases hstep
        exact hmsg
    | _ => exact absurd rfl hknown

/-- A lost message is never answered. -/
theorem no_reply_of_lost (h : Accounts s) {msg : Incoming D} (hmsg : msg ∈ s.desk.lost)
    {t : Serial D R E} (hrun : Run (Serial.step cfg) anyAction s as t) :
    t.desk.repliesTo msg = [] := by
  obtain ⟨haccounts, hlost⟩ := hrun.invariant
    (I := fun t => Accounts t ∧ msg ∈ t.desk.lost)
    (fun _ _ _ ht _ hstep => ⟨ht.1.step hstep, lost_mono hstep ht.2⟩) ⟨h, hmsg⟩
  have hsound := haccounts.sound
  refine hsound.no_replies (hsound.mem_iff.mpr (Or.inr (Or.inr (Or.inr (Or.inr hlost))))) ?_
  intro hanswered
  exact hsound.not_lost hanswered hlost

end Serial

namespace Concurrent

variable {maxConcurrency : ℕ} {s : Concurrent D R E}

/-- The workers come to rest, and then everything is settled. -/
theorem inevitable_settled [Inhabited E] (hworkers : 0 < maxConcurrency) (h : Accounts s) :
    Inevitable (ownStep maxConcurrency) (fun t => Settled s.desk t.desk) s := by
  let I (t : Concurrent D R E) : Prop := Accounts t ∧
    t.desk.arrived = s.desk.arrived ∧ t.desk.abortCalls = s.desk.abortCalls
  have hrest : Inevitable (ownStep maxConcurrency) (fun t => I t ∧ AtRest t) s := by
    refine inevitable_of_measure (I := I) measure (fun t ht hgoal => ?_)
      (fun t a u ht _ hstep => Or.inr ?_) ⟨h, rfl, rfl⟩
    · exact exists_ownStep hworkers fun hrest => hgoal ⟨ht, hrest⟩
    · have hadvances := advances_of_ownStep hstep
      obtain ⟨_, hstep⟩ := ite_none_right_eq_some.mp hstep
      exact ⟨⟨ht.1.step hstep, hadvances.arrived.trans ht.2.1,
        hadvances.abortCalls.trans ht.2.2⟩, hadvances.less⟩
  refine hrest.mono fun t ht => ?_
  obtain ⟨⟨haccounts, harrived, haborts⟩, hinbox, hbridge, hasync, hbusy⟩ := ht
  have hsound := haccounts.sound
  unfold held at hsound
  rw [hbridge, hasync, hbusy] at hsound
  exact hsound.settled hinbox haccounts.lost harrived haborts

end Concurrent

/-- **One reply for each request.** In the serial and in the batched mode, as long as the cost
function raises for no request that a batch has got from the inbox, and in the concurrent mode: no
request has two replies, every reply is the own one of a request, and whatever the scheduler has
reached, its own steps come to the state in which every request that has not been aborted has
got its reply. -/
theorem replies_of_run [Inhabited E] (cfg : Batching E) (maxConcurrency : ℕ)
    (hworkers : 1 < maxConcurrency) :
    (∀ (as : List (SerialAction D R E)) (s : Serial D R E),
      Run (Serial.step cfg) (Serial.CostsKnown cfg) (.init D R E) as s →
      Answers s.desk ∧ Inevitable (Serial.ownStep cfg) (fun t => Settled s.desk t.desk) s) ∧
    (∀ (as : List (ConcurrentAction D R E)) (s : Concurrent D R E),
      Run (Concurrent.step maxConcurrency) anyAction (.init D R E) as s →
      Answers s.desk ∧
        Inevitable (Concurrent.ownStep maxConcurrency) (fun t => Settled s.desk t.desk) s) := by
  refine ⟨fun as s hrun => ?_, fun as s hrun => ?_⟩
  · obtain ⟨haccounts, hlost⟩ := Serial.accounts_of_run hrun
    exact ⟨haccounts.sound.answersAll, Serial.inevitable_settled haccounts hlost⟩
  · have haccounts := hrun.invariant (I := Concurrent.Accounts)
      (fun _ _ _ h _ hstep => h.step hstep) Concurrent.accounts_init
    exact ⟨haccounts.sound.answersAll,
      Concurrent.inevitable_settled (Nat.lt_of_succ_lt hworkers) haccounts⟩

/-- Batches of at most two requests, whose costs are bounded. -/
def pairs : Batching String where
  hasBatchFn := true
  maxBatchSize := 2
  hasCostFn := true
  maxBatchCost := some 10
  lengthError _ _ := "length"

/-- A batch of two requests, of which the second one is aborted, and two requests at two
workers. -/
theorem replies_of_run_two : ∃ (s : Serial Unit ℕ String) (t : Concurrent Unit ℕ String),
    s.desk.outbox.map Outgoing.requestId = ["a"] ∧ Answers s.desk ∧
      Inevitable (Serial.ownStep pairs) (fun t => Settled s.desk t.desk) s ∧
    t.desk.outbox.map Outgoing.requestId = ["b"] ∧ Answers t.desk ∧
      Inevitable (Concurrent.ownStep 2) (fun u => Settled t.desk u.desk) t := by
  have hserial := run_of_isSome_guarded (Serial.step pairs) (Serial.CostsKnown pairs)
    (.init Unit ℕ String)
    [.put "a" .newRequest (), .put "b" .newRequest (), .take, .collect (.ok 1), .pull (.ok 1),
      .close, .computeBatch (.ok [7, 8]), .abort "b" [], .answer, .answer, .answer]
    (by decide +kernel)
  have hconcurrent := run_of_isSome (Concurrent.step 2) (.init Unit ℕ String)
    [.put "a" .newRequest (), .put "b" .newRequest (), .fetch, .forward, .fetch, .take, .forward,
      .take, .compute 1 (.ok 8), .answer 1] (by decide +kernel)
  have hboth := replies_of_run (D := Unit) (R := ℕ) pairs 2 (by decide)
  obtain ⟨hanswers, hsettled⟩ := hboth.1 _ _ hserial
  obtain ⟨hanswers', hsettled'⟩ := hboth.2 _ _ hconcurrent
  exact ⟨_, _, by decide +kernel, hanswers, hsettled, by decide +kernel, hanswers', hsettled'⟩

/-- The cost function raises for the second request of a batch: the first one gets the error, and
the second one never gets a reply. -/
theorem pulled_request_never_answered : ∃ s : Serial Unit ℕ String,
    Reachable (Serial.step pairs) (.init Unit ℕ String) s ∧ Serial.AtRest s ∧
    s.desk.outbox.map Outgoing.requestId = ["a"] ∧
    (⟨1, "b", .newRequest, ()⟩ : Incoming Unit) ∈ s.desk.arrived ∧ s.desk.abortCalls = [] ∧
    ∀ as t, Run (Serial.step pairs) anyAction s as t →
      t.desk.repliesTo ⟨1, "b", .newRequest, ()⟩ = [] := by
  have hrun := run_of_isSome (Serial.step pairs) (.init Unit ℕ String)
    [.put "a" .newRequest (), .put "b" .newRequest (), .take, .collect (.ok 1),
      .pull (.error "cost"), .answer, .answer] (by decide +kernel)
  have haccounts := hrun.invariant (I := Serial.Accounts)
    (fun _ _ _ h _ hstep => h.step hstep) Serial.accounts_init
  refine ⟨_, ⟨_, hrun⟩, ?_, by decide +kernel, by decide +kernel, by decide +kernel,
    fun as t => Serial.no_reply_of_lost haccounts (by decide +kernel)⟩
  exact ⟨rfl, by decide +kernel, by decide +kernel⟩

end Omni.Simple
