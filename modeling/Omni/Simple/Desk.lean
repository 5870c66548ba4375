import Mathlib.Data.List.Basic
import Mathlib.Data.List.Nodup
import Mathlib.Algebra.Order.Group.Multiset
import Mathlib.Tactic.Abel
import Omni.Library.Transition

/-!
# Requests at a simple scheduler

The inbox and the outbox of `SimpleScheduler`, and its marks of aborted requests. Every message
that is put into the inbox is waiting, in hand, answered, ignored or lost, and only one of these.
-/

namespace Omni.Simple

open List

variable {D R E : Type} {aborted discarded aborted' : List String} {requestId id : String}
  {body : Except E R}

/-- `IncomingMessage.type`. -/
inductive MessageType
  | newRequest
  | streamChunk
  | streamDone
  deriving DecidableEq

/-- `IncomingMessage`, with its place among all messages that arrive. -/
structure Incoming (D : Type) where
  seq : ℕ
  requestId : String
  type : MessageType
  data : D
  deriving DecidableEq

/-- `OutgoingMessage` of type `result` or `error`. -/
structure Outgoing (R E : Type) where
  requestId : String
  body : Except E R

/-- `_record_aborted_request_id`. From 10001 ids on, so many are discarded that 5000 are left. -/
def recordAborted (aborted : List String) (requestId : String) (discarded : List String) :
    Option (List String) :=
  let ids := if requestId ∈ aborted then aborted else aborted ++ [requestId]
  let excess := if 10000 < ids.length then ids.length - 5000 else 0
  if discarded.Nodup ∧ (∀ id ∈ discarded, id ∈ ids) ∧ discarded.length = excess then
    some (ids.filter (· ∉ discarded))
  else none

theorem mem_recordAborted (h : recordAborted aborted requestId discarded = some aborted')
    (hid : id ∈ aborted') :
    id ∈ aborted ∨ id = requestId := by
  have hmem : id ∈ if requestId ∈ aborted then aborted else aborted ++ [requestId] := by
    simp only [recordAborted, Option.ite_none_right_eq_some, Option.some.injEq] at h
    exact (mem_filter.mp (h.2 ▸ hid)).1
  split at hmem
  · exact Or.inl hmem
  · rcases mem_append.mp hmem with hold | hlast
    · exact Or.inl hold
    · exact Or.inr (mem_singleton.mp hlast)

/-- Only the ids that are discarded are taken away. -/
theorem recordAborted_keeps (h : recordAborted aborted requestId discarded = some aborted')
    (hid : id ∈ aborted ∨ id = requestId) (hkept : id ∉ discarded) : id ∈ aborted' := by
  simp only [recordAborted, Option.ite_none_right_eq_some, Option.some.injEq] at h
  rw [← h.2]
  refine mem_filter.mpr ⟨?_, decide_eq_true hkept⟩
  split
  next hmem =>
    rcases hid with hold | rfl
    · exact hold
    · exact hmem
  · rcases hid with hold | rfl
    · exact mem_append_left _ hold
    · exact mem_append_right _ (mem_singleton_self _)

/-- An id is added to a set that is not full. -/
theorem recordAborted_room (hnew : requestId ∉ aborted) (hroom : aborted.length < 10000) :
    recordAborted aborted requestId [] = some (aborted ++ [requestId]) := by
  have hlength : ¬10000 < aborted.length + 1 := Nat.not_lt.mpr hroom
  have hkeep : (aborted ++ [requestId]).filter (· ∉ ([] : List String)) = aborted ++ [requestId] :=
    filter_eq_self.mpr fun _ _ => decide_eq_true not_mem_nil
  simp only [recordAborted, if_neg hnew, length_append, length_singleton,
    if_neg hlength]
  rw [if_pos ⟨nodup_nil, fun _ hid => absurd hid not_mem_nil, length_nil⟩, hkeep]

theorem recordAborted_full (hnew : requestId ∉ aborted) (hfull : aborted.length = 10000)
    (hnodup : discarded.Nodup) (hmem : ∀ id ∈ discarded, id ∈ aborted ++ [requestId])
    (hlength : discarded.length = 5001) :
    recordAborted aborted requestId discarded =
      some ((aborted ++ [requestId]).filter (· ∉ discarded)) := by
  simp only [recordAborted, if_neg hnew, length_append, length_singleton, hfull, hlength]
  exact if_pos ⟨hnodup, hmem, rfl⟩

/-- What the threads share, and what has happened. -/
structure Desk (D R E : Type) where
  inbox : List (Incoming D)
  outbox : List (Outgoing R E)
  /-- `_aborted`. -/
  aborted : List String
  /-- All messages that have been put into the inbox. -/
  arrived : List (Incoming D)
  /-- The messages that the messages of the outbox answer, in their order. -/
  answered : List (Incoming D)
  /-- Messages that are not requests, and requests whose mark has been consumed. -/
  ignored : List (Incoming D)
  /-- Messages that an exception has taken along. -/
  lost : List (Incoming D)
  /-- The calls that have returned, with a result for each message. -/
  calls : List (List (Incoming D) × List R)
  /-- All ids that have been aborted. -/
  abortCalls : List String

namespace Desk

/-- Before the first message. -/
def init (D R E : Type) : Desk D R E := ⟨[], [], [], [], [], [], [], [], []⟩

variable (d : Desk D R E)

/-- `inbox.put`. -/
def put (requestId : String) (type : MessageType) (data : D) : Desk D R E :=
  let msg : Incoming D := ⟨d.arrived.length, requestId, type, data⟩
  { d with inbox := d.inbox ++ [msg], arrived := d.arrived ++ [msg] }

/-- `_aborted.add`. -/
def mark (requestId : String) : List String :=
  if requestId ∈ d.aborted then d.aborted else d.aborted ++ [requestId]

/-- `abort`. From 10001 marks on, so many are discarded that 5000 are left. Which ones is not
known. -/
def abort (requestId : String) (discarded : List String) : Option (Desk D R E) :=
  let marks := d.mark requestId
  let excess := if 10000 < marks.length then marks.length - 5000 else 0
  if discarded.Nodup ∧ (∀ id ∈ discarded, id ∈ marks) ∧ discarded.length = excess then
    some { d with
      aborted := marks.filter (· ∉ discarded)
      abortCalls := d.abortCalls ++ [requestId] }
  else none

/-- A message that is not answered. -/
def ignore (msg : Incoming D) : Desk D R E := { d with ignored := d.ignored ++ [msg] }

/-- The request has a mark. -/
def isMarked (msg : Incoming D) : Bool := msg.requestId ∈ d.aborted

/-- `_consume_if_aborted` for a request with a mark. -/
def consume (msg : Incoming D) : Desk D R E :=
  { d.ignore msg with aborted := d.aborted.filter (· ≠ msg.requestId) }

/-- `_emit_result` or `_emit_error`. -/
def emit (msg : Incoming D) (body : Except E R) : Desk D R E :=
  { d with
    outbox := d.outbox ++ [⟨msg.requestId, body⟩]
    answered := d.answered ++ [msg] }

/-- `_consume_if_aborted`, and the reply otherwise. -/
def answer (msg : Incoming D) (body : Except E R) : Desk D R E :=
  if d.isMarked msg then d.consume msg else d.emit msg body

/-- A call returns with results for its messages. -/
def returned (msgs : List (Incoming D)) (results : List R) : Desk D R E :=
  { d with calls := d.calls ++ [(msgs, results)] }

/-- The result has been computed for the message. -/
def Computed (msg : Incoming D) (result : R) : Prop :=
  ∃ call ∈ d.calls, ∃ i : ℕ, call.1[i]? = some msg ∧ call.2[i]? = some result

/-- The replies to a message. -/
def repliesTo (msg : Incoming D) : List (Outgoing R E) :=
  ((d.answered.zip d.outbox).filter fun reply => reply.1.seq = msg.seq).map Prod.snd

end Desk

/-- The accounts of a scheduler that has some messages in hand. -/
structure Sound (d : Desk D R E) (held : List (Incoming D)) : Prop where
  balance : (d.arrived : Multiset (Incoming D)) = d.inbox + held + d.answered + d.ignored + d.lost
  numbered : d.arrived.map (·.seq) = List.range d.arrived.length
  marks : ∀ id ∈ d.aborted, id ∈ d.abortCalls
  ignored : ∀ msg ∈ d.ignored, msg.type = .newRequest → msg.requestId ∈ d.abortCalls
  answers : List.Forall₂ (fun msg reply => reply.requestId = msg.requestId ∧
    ∀ result, reply.body = .ok result → d.Computed msg result) d.answered d.outbox
  requests : ∀ msg ∈ d.answered, msg.type = .newRequest

theorem sound_init : Sound (Desk.init D R E) [] where
  balance := rfl
  numbered := rfl
  marks _ h := by cases h
  ignored _ h := by cases h
  answers := .nil
  requests _ h := by cases h

section Steps

variable {d : Desk D R E} {held : List (Incoming D)} {msg : Incoming D}

variable {d' : Desk D R E}

/-- What has been computed stays computed. -/
theorem Desk.Computed.mono {result : R} (h : d.Computed msg result)
    (hcalls : ∀ call ∈ d.calls, call ∈ d'.calls) : d'.Computed msg result := by
  obtain ⟨call, hcall, i, hmsg, hresult⟩ := h
  exact ⟨call, hcalls call hcall, i, hmsg, hresult⟩

theorem Sound.put (h : Sound d held) (requestId : String) (type : MessageType) (data : D) :
    Sound (d.put requestId type data) held := { h with
  balance := by
    have hbalance := h.balance
    unfold Desk.put
    simp only [← Multiset.coe_add]
    rw [hbalance]
    abel
  numbered := by
    have hnumbered := h.numbered
    unfold Desk.put
    dsimp only
    rw [map_append, hnumbered, length_append, length_singleton, range_succ]
    rfl }

theorem Sound.abort (h : Sound d held) (habort : d.abort requestId discarded = some d') :
    Sound d' held ∧ d'.arrived = d.arrived ∧ d'.inbox = d.inbox ∧ d'.lost = d.lost ∧
      d'.calls = d.calls := by
  unfold Desk.abort at habort
  dsimp only at habort
  obtain ⟨_, habort⟩ := Option.ite_none_right_eq_some.mp habort
  cases habort
  refine ⟨{ h with marks := fun id hid => ?_, ignored := fun msg hmsg hnew => ?_ }, rfl, rfl, rfl,
    rfl⟩
  · have hmark := mem_of_mem_filter hid
    unfold Desk.mark at hmark
    split at hmark
    · exact mem_append_left _ (h.marks id hmark)
    · rcases mem_append.mp hmark with hold | hnew
      · exact mem_append_left _ (h.marks id hold)
      · exact mem_append_right _ hnew
  · exact mem_append_left _ (h.ignored msg hmsg hnew)

/-- Only which messages are in hand matters. -/
theorem Sound.held_congr {held' : List (Incoming D)} (h : Sound d held)
    (heq : (held : Multiset (Incoming D)) = held') : Sound d held' :=
  { h with balance := heq ▸ h.balance }

/-- A message is taken out of the inbox. -/
theorem Sound.take (h : Sound d held) {rest : List (Incoming D)} (hinbox : d.inbox = msg :: rest) :
    Sound { d with inbox := rest } (msg :: held) := { h with
  balance := by
    have hbalance := h.balance
    rw [hinbox] at hbalance
    simp only [← Multiset.cons_coe, ← Multiset.singleton_add] at hbalance ⊢
    rw [hbalance]
    abel }

/-- A message in hand is not answered. -/
theorem Sound.ignore (h : Sound d (msg :: held))
    (hmsg : msg.type = .newRequest → msg.requestId ∈ d.abortCalls) : Sound (d.ignore msg) held :=
  { h with
  balance := by
    have hbalance := h.balance
    unfold Desk.ignore
    simp only [← Multiset.cons_coe, ← Multiset.singleton_add, ← Multiset.coe_add] at hbalance ⊢
    rw [hbalance, Multiset.coe_nil]
    abel
  ignored other hother hnew := by
    rcases mem_append.mp hother with hold | hlast
    · exact h.ignored other hold hnew
    · rw [mem_singleton.mp hlast] at hnew ⊢
      exact hmsg hnew }

theorem Sound.consume (h : Sound d (msg :: held)) (hmarked : d.isMarked msg = true) :
    Sound (d.consume msg) held := by
  have hsound := h.ignore fun _ => h.marks _ (of_decide_eq_true hmarked)
  exact { hsound with marks := fun id hid => h.marks id (mem_of_mem_filter hid) }

/-- A request in hand gets its reply. -/
theorem Sound.emit (h : Sound d (msg :: held)) (hnew : msg.type = .newRequest)
    (hbody : ∀ result, body = .ok result → d.Computed msg result) :
    Sound (d.emit msg body) held := { h with
  balance := by
    have hbalance := h.balance
    unfold Desk.emit
    simp only [← Multiset.cons_coe, ← Multiset.singleton_add, ← Multiset.coe_add] at hbalance ⊢
    rw [hbalance, Multiset.coe_nil]
    abel
  answers := rel_append h.answers (.cons ⟨rfl, hbody⟩ .nil)
  requests other hother := by
    rcases mem_append.mp hother with hold | hlast
    · exact h.requests other hold
    · rw [mem_singleton.mp hlast]
      exact hnew }

/-- A request in hand is answered, unless it has a mark. -/
theorem Sound.answer (h : Sound d (msg :: held)) (hnew : msg.type = .newRequest)
    (hbody : ∀ result, body = .ok result → d.Computed msg result) :
    Sound (d.answer msg body) held := by
  unfold Desk.answer
  split
  next hmarked => exact h.consume hmarked
  next => exact h.emit hnew hbody

theorem Sound.returned (h : Sound d held) (msgs : List (Incoming D)) (results : List R) :
    Sound (d.returned msgs results) held := { h with
  answers := h.answers.imp fun _ _ hreply => ⟨hreply.1, fun result hresult =>
    (hreply.2 result hresult).mono fun _ hcall => mem_append_left _ hcall⟩ }

variable {msgs : List (Incoming D)}

/-- Messages in hand are lost. -/
theorem Sound.lose (h : Sound d (msgs ++ held)) :
    Sound { d with lost := d.lost ++ msgs } held := { h with
  balance := by
    have hbalance := h.balance
    simp only [← Multiset.coe_add] at hbalance ⊢
    rw [hbalance]
    abel }

/-- A reply changes neither what has arrived nor what has been aborted or lost. -/
theorem Desk.answer_frame (d : Desk D R E) (msg : Incoming D) (body : Except E R) :
    (d.answer msg body).arrived = d.arrived ∧ (d.answer msg body).abortCalls = d.abortCalls ∧
      (d.answer msg body).lost = d.lost ∧ (d.answer msg body).inbox = d.inbox ∧
      (d.answer msg body).calls = d.calls := by
  unfold Desk.answer
  split <;> exact ⟨rfl, rfl, rfl, rfl, rfl⟩

/-- No message has arrived twice. -/
theorem Sound.nodup (h : Sound d held) : d.arrived.Nodup := by
  refine List.Nodup.of_map (fun msg : Incoming D => msg.seq) ?_
  rw [h.numbered]
  exact nodup_range

/-- Messages that have arrived under the same number are the same. -/
theorem Sound.eq_of_seq (h : Sound d held) {msg' : Incoming D} (hmsg : msg ∈ d.arrived)
    (hmsg' : msg' ∈ d.arrived) (hseq : msg.seq = msg'.seq) : msg = msg' := by
  refine inj_on_of_nodup_map (f := fun msg : Incoming D => msg.seq) ?_ hmsg hmsg' hseq
  rw [h.numbered]
  exact nodup_range

/-- A message that has arrived is in one of the places. -/
theorem Sound.mem_iff (h : Sound d held) : msg ∈ d.arrived ↔
    msg ∈ d.inbox ∨ msg ∈ held ∨ msg ∈ d.answered ∨ msg ∈ d.ignored ∨ msg ∈ d.lost := by
  rw [← Multiset.mem_coe, h.balance]
  simp only [Multiset.mem_add, Multiset.mem_coe, or_assoc]

theorem Sound.not_lost (h : Sound d held) (hanswered : msg ∈ d.answered) : msg ∉ d.lost := by
  intro hlost
  have hnodup : (d.arrived : Multiset (Incoming D)).Nodup := h.nodup
  rw [h.balance, Multiset.nodup_add] at hnodup
  refine absurd hlost (Multiset.disjoint_left.mp hnodup.2.2 ?_)
  simp only [Multiset.mem_add, Multiset.mem_coe]
  exact Or.inl (Or.inr hanswered)

/-- No message has been answered twice. -/
theorem Sound.nodup_answered (h : Sound d held) : (d.answered.map (·.seq)).Nodup := by
  have hle : (d.answered : Multiset (Incoming D)) ≤ d.arrived := by
    refine Multiset.le_iff_exists_add.mpr ⟨d.inbox + held + d.ignored + d.lost, ?_⟩
    rw [h.balance]
    abel
  have hseqs : (((d.arrived : Multiset (Incoming D)).map (·.seq)) : Multiset ℕ).Nodup := by
    rw [Multiset.map_coe, h.numbered]
    exact nodup_range
  exact Multiset.nodup_of_le (Multiset.map_le_map hle) hseqs

end Steps

variable {msgs : List (Incoming D)} {msg : Incoming D}

/-- In two related lists, the entry of a message that occurs once. -/
theorem filter_zip_of_mem {P : Incoming D → Outgoing R E → Prop} {replies : List (Outgoing R E)}
    (h : List.Forall₂ P msgs replies) (hnodup : (msgs.map (·.seq)).Nodup) (hmsg : msg ∈ msgs) :
    ∃ reply, ((msgs.zip replies).filter fun entry => entry.1.seq = msg.seq) = [(msg, reply)] ∧
      P msg reply := by
  induction h with
  | nil => cases hmsg
  | @cons first reply msgs replies hfirst hrest ih =>
    rw [map_cons, nodup_cons] at hnodup
    rw [zip_cons_cons]
    rcases mem_cons.mp hmsg with rfl | hmem
    · refine ⟨reply, ?_, hfirst⟩
      rw [filter_cons_of_pos (by simp), filter_eq_nil_iff.mpr]
      intro entry hentry hseq
      refine hnodup.1 (mem_map.mpr ⟨entry.1, (of_mem_zip hentry).1, ?_⟩)
      exact of_decide_eq_true hseq
    · obtain ⟨reply', hfilter, hreply'⟩ := ih hnodup.2 hmem
      refine ⟨reply', ?_, hreply'⟩
      rw [filter_cons_of_neg, hfilter]
      intro hseq
      exact hnodup.1 (mem_map.mpr ⟨msg, hmem, (of_decide_eq_true hseq).symm⟩)

variable {d : Desk D R E} {held : List (Incoming D)}

theorem Sound.replies (h : Sound d held) (hmsg : msg ∈ d.answered) :
    ∃ reply, d.repliesTo msg = [reply] ∧ reply.requestId = msg.requestId ∧
      ∀ result, reply.body = .ok result → d.Computed msg result := by
  obtain ⟨reply, hfilter, hreply⟩ := filter_zip_of_mem h.answers h.nodup_answered hmsg
  refine ⟨reply, ?_, hreply⟩
  unfold Desk.repliesTo
  rw [hfilter]
  rfl

/-- A message that has not been answered has no reply. -/
theorem Sound.no_replies (h : Sound d held) (harrived : msg ∈ d.arrived) (hmsg : msg ∉ d.answered) :
    d.repliesTo msg = [] := by
  unfold Desk.repliesTo
  rw [filter_eq_nil_iff.mpr]
  · rfl
  intro entry hentry hseq
  have hanswered := (of_mem_zip hentry).1
  have hmem : entry.1 ∈ d.arrived := h.mem_iff.mpr (Or.inr (Or.inr (Or.inl hanswered)))
  exact hmsg (h.eq_of_seq hmem harrived (of_decide_eq_true hseq) ▸ hanswered)

/-- A request that nothing waits for any more, and that has not been aborted or lost, has been
answered. -/
theorem Sound.answered_of_rest (h : Sound d []) (hrest : d.inbox = []) (harrived : msg ∈ d.arrived)
    (hnew : msg.type = .newRequest) (habort : msg.requestId ∉ d.abortCalls) (hlost : msg ∉ d.lost) :
    msg ∈ d.answered := by
  rcases h.mem_iff.mp harrived with hin | hheld | hdone | hignored | hgone
  · rw [hrest] at hin
    cases hin
  · cases hheld
  · exact hdone
  · exact absurd (h.ignored msg hignored hnew) habort
  · exact absurd hgone hlost

end Omni.Simple
