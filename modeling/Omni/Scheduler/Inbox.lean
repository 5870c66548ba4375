import Mathlib.Data.List.Perm.Basic
import Omni.Library.Transition
import Omni.Scheduler.State

/-!
# Draining the inbox from two threads

`_drain_inbox_for_request` on the stage thread and `_drain_local_inbox` on the scheduler
thread take messages from one queue. The first puts back what it retains, so a message
that the second takes in between can overtake an older one.
-/

namespace Omni.Scheduler.Inbox

open Omni.Transition Omni.Scheduler List Option

variable {V : Type}

/-- Where `abort` stands in `_drain_inbox_for_request`. -/
inductive Drain (V : Type)
  | idle
  /-- In the loop over `get_nowait`. -/
  | taking (requestId : String) (retained : List (IncomingMessage V))
  /-- In the loop over `put`, with the messages that have still to be put back. -/
  | putting (retained : List (IncomingMessage V))

/-- Where `recv_requests` stands. -/
inductive Recv (V : Type)
  | idle
  /-- In `_drain_local_inbox`. -/
  | draining (recvMsgs : List (IncomingMessage V))
  /-- In the loop over the messages that have been taken. -/
  | delivering (recvMsgs : List (IncomingMessage V))

/-- The inbox and both threads. `arrived` and `delivered` only record what happens. -/
structure State (V : Type) where
  inbox : List (IncomingMessage V)
  drain : Drain V
  recv : Recv V
  aborted : AbortedIds
  arrived : List (IncomingMessage V)
  delivered : List (IncomingMessage V)

/-- A single operation of one of the threads. -/
inductive Action (V : Type)
  /-- The stage puts a message on the inbox. -/
  | arrive (msg : IncomingMessage V)
  /-- The stage calls `abort`, up to the drain of the inbox. -/
  | abort (requestId : String)
  | drainGet
  | drainPut
  /-- The scheduler calls `recv_requests`. -/
  | recv
  | recvGet
  /-- `recv_requests` handles the next message. -/
  | deliver
  deriving DecidableEq

/-- The transition function. The stage thread drains before it puts anything else. -/
def step (s : State V) : Action V → Option (State V)
  | .arrive msg =>
    match s.drain with
    | .idle => some { s with inbox := s.inbox ++ [msg], arrived := s.arrived ++ [msg] }
    | _ => none
  | .abort requestId =>
    match s.drain with
    | .idle => some { s with
        aborted := s.aborted.add requestId
        drain := .taking requestId [] }
    | _ => none
  | .drainGet =>
    match s.drain, s.inbox with
    | .taking requestId retained, msg :: rest => some { s with
        inbox := rest
        drain := .taking requestId
          (if msg.requestId ≠ requestId then retained ++ [msg] else retained) }
    | .taking _ retained, [] => some { s with drain := .putting retained }
    | _, _ => none
  | .drainPut =>
    match s.drain with
    | .putting (msg :: rest) => some { s with inbox := s.inbox ++ [msg], drain := .putting rest }
    | .putting [] => some { s with drain := .idle }
    | _ => none
  | .recv =>
    match s.recv with
    | .idle => some { s with recv := .draining [] }
    | _ => none
  | .recvGet =>
    match s.recv, s.inbox with
    | .draining recvMsgs, msg :: rest => some { s with
        inbox := rest
        recv := .draining (recvMsgs ++ [msg]) }
    | .draining recvMsgs, [] => some { s with recv := .delivering recvMsgs }
    | _, _ => none
  | .deliver =>
    match s.recv with
    | .delivering (msg :: rest) => some { s with
        recv := .delivering rest
        delivered := if msg.requestId ∈ s.aborted.ids then s.delivered
          else s.delivered ++ [msg] }
    | .delivering [] => some { s with recv := .idle }
    | _ => none

/-- The messages of one request, in their order. -/
def ofRequest (q : String) (msgs : List (IncomingMessage V)) : List (IncomingMessage V) :=
  msgs.filter fun msg => msg.requestId = q

/-- The messages that `recv_requests` has in hand. -/
def Recv.msgs : Recv V → List (IncomingMessage V)
  | .idle => []
  | .draining recvMsgs => recvMsgs
  | .delivering recvMsgs => recvMsgs

/-- The messages in the inbox and in the hands of the drain, the next to be taken first. -/
def State.queued (s : State V) : List (IncomingMessage V) :=
  match s.drain with
  | .idle => s.inbox
  | .taking _ retained => retained ++ s.inbox
  | .putting retained => s.inbox ++ retained

/-- Both threads are between two calls and the inbox is empty. -/
def State.Settled (s : State V) : Prop :=
  s.drain = .idle ∧ s.recv = .idle ∧ s.inbox = []

/-- The scheduler takes a message of request `q` while the drain holds an older one. -/
def Overtakes (q : String) (s : State V) : Action V → Prop
  | .recvGet => ∃ requestId retained recvMsgs msg rest,
      s.drain = .taking requestId retained ∧ s.recv = .draining recvMsgs ∧
        s.inbox = msg :: rest ∧ msg.requestId = q ∧ ofRequest q retained ≠ []
  | _ => False

section OfRequest

variable {q : String} {msg : IncomingMessage V} (msgs more : List (IncomingMessage V))

@[simp] theorem ofRequest_nil : ofRequest q ([] : List (IncomingMessage V)) = [] := rfl

@[simp] theorem ofRequest_append :
    ofRequest q (msgs ++ more) = ofRequest q msgs ++ ofRequest q more :=
  filter_append ..

theorem ofRequest_cons_self (hq : msg.requestId = q) :
    ofRequest q (msg :: msgs) = msg :: ofRequest q msgs := by
  simp [ofRequest, hq]

theorem ofRequest_cons_other (hq : msg.requestId ≠ q) :
    ofRequest q (msg :: msgs) = ofRequest q msgs := by
  simp [ofRequest, hq]

end OfRequest

/-- Request `q` has not been aborted, and is not being aborted. -/
structure Live (q : String) (s : State V) : Prop where
  aborted : q ∉ s.aborted.ids
  drain : ∀ retained, s.drain ≠ .taking q retained

variable {s t : State V} {a : Action V} {q : String}

/-- Only an abort of the request itself ends that. -/
theorem Live.step (h : Live q s) (hother : a ≠ .abort q) (hstep : step s a = some t) :
    Live q t := by
  cases a with
  | abort requestId =>
    have hne : q ≠ requestId := fun heq => hother (heq ▸ rfl)
    simp only [Inbox.step] at hstep
    split at hstep
    · rw [← some.inj hstep]
      exact ⟨fun hmem => h.aborted (mem_of_mem_add hmem hne), by simp [Ne.symm hne]⟩
    · cases hstep
  | drainGet =>
    simp only [Inbox.step] at hstep
    split at hstep
    next requestId retained msg rest hdrain _ =>
      rw [← some.inj hstep]
      refine ⟨h.aborted, fun retained' htaking => ?_⟩
      simp only [Drain.taking.injEq] at htaking
      exact h.drain retained (htaking.1 ▸ hdrain)
    · rw [← some.inj hstep]
      exact ⟨h.aborted, by simp⟩
    · cases hstep
  | drainPut =>
    simp only [Inbox.step] at hstep
    split at hstep
    · rw [← some.inj hstep]
      exact ⟨h.aborted, by simp⟩
    · rw [← some.inj hstep]
      exact ⟨h.aborted, by simp⟩
    · cases hstep
  | arrive msg =>
    simp only [Inbox.step] at hstep
    split at hstep
    · rw [← some.inj hstep]
      exact ⟨h.aborted, h.drain⟩
    · cases hstep
  | recv =>
    simp only [Inbox.step] at hstep
    split at hstep
    · rw [← some.inj hstep]
      exact ⟨h.aborted, h.drain⟩
    · cases hstep
  | recvGet =>
    simp only [Inbox.step] at hstep
    split at hstep
    · rw [← some.inj hstep]
      exact ⟨h.aborted, h.drain⟩
    · rw [← some.inj hstep]
      exact ⟨h.aborted, h.drain⟩
    · cases hstep
  | deliver =>
    simp only [Inbox.step] at hstep
    split at hstep
    · rw [← some.inj hstep]
      exact ⟨h.aborted, h.drain⟩
    · rw [← some.inj hstep]
      exact ⟨h.aborted, h.drain⟩
    · cases hstep

/-- What a step means for the messages of request `q`: some arrive, some are delivered,
or the scheduler takes some off the queue, past those that are held. -/
inductive Moves (q : String) (s t : State V) (a : Action V) : Prop
  | arrives (new : List (IncomingMessage V)) :
      ofRequest q t.arrived = ofRequest q s.arrived ++ new →
      ofRequest q t.delivered = ofRequest q s.delivered →
      ofRequest q t.recv.msgs = ofRequest q s.recv.msgs →
      ofRequest q t.queued = ofRequest q s.queued ++ new → Moves q s t a
  | delivers (msgs : List (IncomingMessage V)) :
      ofRequest q t.arrived = ofRequest q s.arrived →
      ofRequest q t.delivered = ofRequest q s.delivered ++ msgs →
      ofRequest q s.recv.msgs = msgs ++ ofRequest q t.recv.msgs →
      ofRequest q t.queued = ofRequest q s.queued → Moves q s t a
  | takes (held msgs rest : List (IncomingMessage V)) :
      ofRequest q t.arrived = ofRequest q s.arrived →
      ofRequest q t.delivered = ofRequest q s.delivered →
      ofRequest q t.recv.msgs = ofRequest q s.recv.msgs ++ msgs →
      ofRequest q s.queued = held ++ (msgs ++ rest) → ofRequest q t.queued = held ++ rest →
      (¬Overtakes q s a → held = [] ∨ msgs = []) → Moves q s t a

/-- The scheduler thread takes a message. -/
theorem moves_recvGet {recvMsgs rest : List (IncomingMessage V)} {msg : IncomingMessage V}
    (hrecv : s.recv = .draining recvMsgs) (hinbox : s.inbox = msg :: rest) :
    Moves q s { s with inbox := rest, recv := .draining (recvMsgs ++ [msg]) } .recvGet := by
  have htaken : ofRequest q (Recv.draining (recvMsgs ++ [msg])).msgs =
      ofRequest q s.recv.msgs ++ ofRequest q [msg] := by
    rw [hrecv]
    exact ofRequest_append recvMsgs [msg]
  have hsplit : ∀ more : List (IncomingMessage V),
      ofRequest q (msg :: more) = ofRequest q [msg] ++ ofRequest q more :=
    fun more => ofRequest_append [msg] more
  cases hdrain : s.drain with
  | idle =>
    refine .takes [] (ofRequest q [msg]) (ofRequest q rest) rfl rfl htaken ?_ ?_ fun _ => Or.inl rfl
    · simp only [State.queued, hdrain, hinbox, nil_append]
      exact hsplit rest
    · simp only [State.queued, nil_append]
  | taking requestId retained =>
    refine .takes (ofRequest q retained) (ofRequest q [msg]) (ofRequest q rest) rfl rfl htaken
      ?_ ?_ fun hpast => ?_
    · simp only [State.queued, hdrain, hinbox, ofRequest_append, hsplit rest]
    · simp only [State.queued, ofRequest_append]
    · by_cases hq : msg.requestId = q
      · left
        by_contra hheld
        exact hpast ⟨requestId, retained, recvMsgs, msg, rest, hdrain, hrecv, hinbox, hq, hheld⟩
      · right
        rw [ofRequest_cons_other _ hq, ofRequest_nil]
  | putting retained =>
    refine .takes [] (ofRequest q [msg]) (ofRequest q (rest ++ retained)) rfl rfl htaken ?_ ?_
      fun _ => Or.inl rfl
    · simp only [State.queued, hdrain, hinbox, nil_append, cons_append]
      exact hsplit (rest ++ retained)
    · simp only [State.queued, nil_append]

/-- **Step lemma.** -/
theorem moves_of_step (h : Live q s) (hstep : step s a = some t) : Moves q s t a := by
  cases a with
  | arrive msg =>
    simp only [step] at hstep
    split at hstep
    next hdrain =>
      rw [← some.inj hstep]
      exact .arrives (ofRequest q [msg]) (ofRequest_append ..) rfl rfl
        (by simp [State.queued, hdrain])
    · cases hstep
  | abort requestId =>
    simp only [step] at hstep
    split at hstep
    next hdrain =>
      rw [← some.inj hstep]
      exact .arrives [] (by simp) rfl rfl (by simp [State.queued, hdrain])
    · cases hstep
  | drainGet =>
    simp only [step] at hstep
    split at hstep
    next requestId retained msg rest hdrain hinbox =>
      have hne : requestId ≠ q := by
        rintro rfl
        exact h.drain retained hdrain
      rw [← some.inj hstep]
      refine .arrives [] (by simp) rfl rfl ?_
      simp only [State.queued, hdrain, hinbox, append_nil]
      by_cases hid : msg.requestId ≠ requestId
      · rw [if_pos hid, append_assoc, singleton_append]
      · have hother : msg.requestId ≠ q := by
          rw [not_not.mp hid]
          exact hne
        rw [if_neg hid, ofRequest_append, ofRequest_append, ofRequest_cons_other _ hother]
    next requestId retained hdrain hinbox =>
      rw [← some.inj hstep]
      exact .arrives [] (by simp) rfl rfl (by simp [State.queued, hdrain, hinbox])
    · cases hstep
  | drainPut =>
    simp only [step] at hstep
    split at hstep
    next hdrain =>
      rw [← some.inj hstep]
      exact .arrives [] (by simp) rfl rfl (by simp [State.queued, hdrain])
    next hdrain =>
      rw [← some.inj hstep]
      exact .arrives [] (by simp) rfl rfl (by simp [State.queued, hdrain])
    · cases hstep
  | recv =>
    simp only [step] at hstep
    split at hstep
    next hrecv =>
      rw [← some.inj hstep]
      exact .arrives [] (by simp) rfl (by rw [hrecv]; rfl) (by simp [State.queued])
    · cases hstep
  | recvGet =>
    simp only [step] at hstep
    split at hstep
    next recvMsgs msg rest hrecv hinbox =>
      rw [← some.inj hstep]
      exact moves_recvGet hrecv hinbox
    next recvMsgs hrecv _ =>
      rw [← some.inj hstep]
      exact .arrives [] (by simp) rfl (by rw [hrecv]; rfl) (by simp [State.queued])
    · cases hstep
  | deliver =>
    simp only [step] at hstep
    split at hstep
    next msg rest hrecv =>
      rw [← some.inj hstep]
      by_cases hq : msg.requestId = q
      · have hnot : msg.requestId ∉ s.aborted.ids := hq ▸ h.aborted
        refine .delivers [msg] rfl ?_ ?_ rfl
        · rw [if_neg hnot, ofRequest_append, ofRequest_cons_self _ hq, ofRequest_nil]
        · rw [hrecv]
          exact ofRequest_cons_self rest hq
      · refine .delivers [] rfl ?_ ?_ rfl
        · split
          · rw [append_nil]
          · rw [ofRequest_append, ofRequest_cons_other _ hq, ofRequest_nil]
        · rw [hrecv]
          exact ofRequest_cons_other rest hq
    next hrecv =>
      rw [← some.inj hstep]
      exact .delivers [] rfl (by simp) (by rw [hrecv]; rfl) rfl
    · cases hstep

/-- Every message of the request is delivered, taken or queued, in any order. -/
def Kept (q : String) (s : State V) : Prop :=
  (ofRequest q s.arrived).Perm
    (ofRequest q s.delivered ++ (ofRequest q s.recv.msgs ++ ofRequest q s.queued))

/-- They are so in the order of their arrival. -/
def InOrder (q : String) (s : State V) : Prop :=
  ofRequest q s.arrived =
    ofRequest q s.delivered ++ (ofRequest q s.recv.msgs ++ ofRequest q s.queued)

/-- No step loses or duplicates a message. -/
theorem Kept.step (h : Kept q s) (hmoves : Moves q s t a) : Kept q t := by
  unfold Kept at h ⊢
  cases hmoves with
  | arrives new harrived hdelivered hrecv hqueued =>
    rw [harrived, hdelivered, hrecv, hqueued, ← append_assoc _ _ new, ← append_assoc _ _ new]
    exact h.append_right new
  | delivers msgs harrived hdelivered hrecv hqueued =>
    rw [hrecv] at h
    rw [harrived, hdelivered, hqueued]
    simpa only [append_assoc] using h
  | takes held msgs rest harrived hdelivered hrecv hbefore hafter _ =>
    rw [hbefore] at h
    rw [harrived, hdelivered, hrecv, hafter]
    refine h.trans (List.Perm.append_left _ ?_)
    rw [append_assoc]
    refine List.Perm.append_left _ ?_
    rw [← append_assoc, ← append_assoc]
    exact List.Perm.append_right rest perm_append_comm

theorem InOrder.step (h : InOrder q s) (hmoves : Moves q s t a) (hpast : ¬Overtakes q s a) :
    InOrder q t := by
  unfold InOrder at h ⊢
  cases hmoves with
  | arrives new harrived hdelivered hrecv hqueued =>
    rw [harrived, hdelivered, hrecv, hqueued, h]
    simp only [append_assoc]
  | delivers msgs harrived hdelivered hrecv hqueued =>
    rw [hrecv] at h
    rw [harrived, hdelivered, hqueued, h]
    simp only [append_assoc]
  | takes held msgs rest harrived hdelivered hrecv hbefore hafter hfirst =>
    rw [hbefore] at h
    rw [harrived, hdelivered, hrecv, hafter, h]
    rcases hfirst hpast with rfl | rfl
    · simp only [nil_append, append_assoc]
    · simp only [nil_append, append_nil]

/-- A state between two calls of either thread, from which the messages are counted. -/
structure Start (q : String) (s : State V) : Prop where
  drain : s.drain = .idle
  recv : s.recv = .idle
  aborted : q ∉ s.aborted.ids
  arrived : s.arrived = s.inbox
  delivered : s.delivered = []

theorem Start.live (h : Start q s) : Live q s :=
  ⟨h.aborted, by simp [h.drain]⟩

theorem Start.inOrder (h : Start q s) : InOrder q s := by
  simp [InOrder, State.queued, h.drain, h.recv, h.arrived, h.delivered, Recv.msgs]

/-- From any inbox, in every interleaving of the two threads, no message of a request
that is not aborted itself is lost or duplicated. They are delivered in the order of
their arrival, and all of them, provided that the scheduler never takes one while the
drain of an abort holds an older one. -/
theorem delivers_in_order {q : String} {s t : State V} {as : List (Action V)}
    (hstart : Start q s) (hrun : Run step (fun _ a => a ≠ .abort q) s as t) :
    Kept q t ∧ (Run step (fun s a => a ≠ .abort q ∧ ¬Overtakes q s a) s as t →
      ofRequest q t.delivered <+: ofRequest q t.arrived ∧
        (t.Settled → ofRequest q t.delivered = ofRequest q t.arrived)) := by
  constructor
  · exact (hrun.invariant (I := fun s => Live q s ∧ Kept q s)
      (fun u a v hu hother hstep =>
        ⟨hu.1.step hother hstep, hu.2.step (moves_of_step hu.1 hstep)⟩)
      ⟨hstart.live, .of_eq hstart.inOrder⟩).2
  · intro hpast
    have horder := (hpast.invariant (I := fun s => Live q s ∧ InOrder q s)
      (fun u a v hu hok hstep =>
        ⟨hu.1.step hok.1 hstep, hu.2.step (moves_of_step hu.1 hstep) hok.2⟩)
      ⟨hstart.live, hstart.inOrder⟩).2
    refine ⟨⟨_, horder.symm⟩, fun hsettled => ?_⟩
    obtain ⟨hdrain, hrecv, hinbox⟩ := hsettled
    rw [InOrder, State.queued, hdrain, hrecv, hinbox] at horder
    simpa [Recv.msgs] using horder.symm

/-- An inbox with two chunks of request `"b"`. -/
def twoChunks : State ℕ where
  inbox := [⟨"b", .streamChunk, 1⟩, ⟨"b", .streamChunk, 2⟩]
  drain := .idle
  recv := .idle
  aborted := ⟨∅, []⟩
  arrived := [⟨"b", .streamChunk, 1⟩, ⟨"b", .streamChunk, 2⟩]
  delivered := []

theorem start_twoChunks : Start "b" twoChunks :=
  ⟨rfl, rfl, by decide, rfl, rfl⟩

/-- The scheduler takes one chunk before the drain and the other after it. -/
theorem delivers_in_order_twoChunks : ∃ as t,
    Run step (fun _ a => a ≠ .abort "b") twoChunks as t ∧ t.delivered.length = 1 ∧
      ofRequest "b" t.delivered <+: ofRequest "b" t.arrived := by
  have hrun : Run step (fun s a => a ≠ .abort "b" ∧ ¬Overtakes "b" s a) twoChunks
      [.recv, .recvGet, .abort "a", .drainGet, .drainGet, .recvGet, .deliver] _ :=
    .cons ⟨by decide, id⟩ rfl <|
    .cons ⟨by decide, fun ⟨_, _, _, _, _, h, _⟩ => by cases h⟩ rfl <|
    .cons ⟨by decide, id⟩ rfl <| .cons ⟨by decide, id⟩ rfl <| .cons ⟨by decide, id⟩ rfl <|
    .cons ⟨by decide, fun ⟨_, _, _, _, _, _, _, h, _⟩ => by cases h⟩ rfl <|
    .cons ⟨by decide, id⟩ rfl (.nil _)
  have hany := hrun.mono fun _ _ hok => hok.1
  exact ⟨_, _, hany, by decide +kernel, ((delivers_in_order start_twoChunks hany).2 hrun).1⟩

/-- The drain of `abort("a")` holds the first chunk when the scheduler takes the second. -/
theorem drain_reorders : ∃ as t,
    Run step (fun _ a => a ≠ .abort "b") twoChunks as t ∧ t.Settled ∧
      t.arrived = [⟨"b", .streamChunk, 1⟩, ⟨"b", .streamChunk, 2⟩] ∧
      t.delivered = [⟨"b", .streamChunk, 2⟩, ⟨"b", .streamChunk, 1⟩] := by
  refine ⟨[.abort "a", .drainGet, .recv, .recvGet, .drainGet, .recvGet, .deliver, .deliver,
    .drainPut, .drainPut, .recv, .recvGet, .recvGet, .deliver, .deliver], _,
    run_of_exec_of_forall (fun a ha _ => ?_) rfl, ⟨rfl, rfl, rfl⟩, rfl, rfl⟩
  rintro rfl
  revert ha
  decide

end Omni.Scheduler.Inbox
