import Omni.Comm.AccountRuns

/-!
# Sends with the id of a transfer in flight

`_register_pending` raises inside the `try` block whose `except` clause fails the
pending entry of that id. That entry belongs to the transfer in flight, which is
harmed unless its acknowledgement has arrived and its watcher has been armed.
-/

namespace Omni.Comm

open Omni.Transition

variable {D L : Type} {c i e : ℕ} {stageName : String} {s t : State D L} {A : Account c}

/-- Send `i` fails to its own caller, or goes on to its next put, and transfer `e` is
as it was. -/
structure Unharmed (s t : State D L) (i e : ℕ) : Prop where
  send : (∃ exc, (t.sends i).phase = .ended (.error exc)) ∨
    ∃ held remaining, (t.sends i).phase = .putting held remaining
  pending : t.pending (s.sends i).job.objectId = some e
  transfer : t.transfers e = s.transfers e
  ops : ∀ o ∈ (s.transfers e).ops, t.ops o = s.ops o

/-- A step of a send whose id belongs to a transfer in flight leaves that alone. -/
def LeavesInFlight (stageName : String) (s : State D L) (a : Action) : Prop :=
  ∀ i outcome e t, a = .put i outcome → s.pending (s.sends i).job.objectId = some e →
    step stageName s a = some t → Unharmed s t i e

/-- The step takes a send past its last put to `_register_pending`, where it finds its
id pending, and that transfer has not been acknowledged or not been armed. -/
def Harms (s : State D L) : Action → Prop
  | .put i .succeeds => ∃ held remaining e, (s.sends i).phase = .putting held remaining ∧
      remaining ≤ 1 ∧ s.pending (s.sends i).job.objectId = some e ∧
      ¬((s.transfers e).ack.done = true ∧ (s.transfers e).task ≠ .unarmed)
  | _ => False

theorem unharmed_endSend (exc : Failure) (hpending : t.pending (s.sends i).job.objectId = some e)
    (htransfer : t.transfers e = s.transfers e)
    (hops : ∀ o ∈ (s.transfers e).ops, t.ops o = s.ops o) :
    Unharmed s (endSend t i (.error exc)) i e where
  send := Or.inl ⟨exc, by simp [endSend]⟩
  pending := hpending
  transfer := htransfer
  ops := hops

/-- `_fail_pending` leaves a transfer alone exactly if it has been acknowledged and armed. -/
theorem failPending_transfer_iff {objectId : String} (hpending : s.pending objectId = some e)
    (exc : Failure) :
    (failPending s objectId exc).transfers e = s.transfers e ↔
      (s.transfers e).ack.done = true ∧ (s.transfers e).task ≠ .unarmed := by
  have hfailed : (failPending s objectId exc).transfers e = { s.transfers e with
      ack := if (s.transfers e).ack.done then (s.transfers e).ack else .failed exc
      task := if (s.transfers e).task = .unarmed then .waiting else (s.transfers e).task } := by
    unfold failPending
    rw [hpending]
    exact updateTransfer_self ..
  rw [hfailed]
  generalize s.transfers e = pending
  obtain ⟨objectId, ops, ack, task⟩ := pending
  simp only [PendingTransfer.mk.injEq, true_and]
  constructor
  · rintro ⟨hack, htask⟩
    constructor
    · by_contra hnot
      rw [if_neg hnot] at hack
      exact hnot (hack ▸ rfl)
    · rintro rfl
      simp at htask
  · rintro ⟨hack, htask⟩
    rw [if_pos hack, if_neg htask]
    exact ⟨rfl, rfl⟩

/-- The operations of a transfer are not touched by the next put. -/
theorem Accounts.putAsync_ops (h : Accounts s A) {o : ℕ} (ho : o ∈ (s.transfers e).ops) :
    (Omni.Comm.putAsync s).ops o = s.ops o := by
  have hne : o ≠ s.opCount := by
    rintro rfl
    rw [h.transfers, h.owner_opCount] at ho
    cases ho
  simp [Omni.Comm.putAsync, hne]

theorem Accounts.announce_unharmed_iff (h : Accounts s A) (held : List ℕ)
    (hpending : s.pending (s.sends i).job.objectId = some e) :
    Unharmed s (Omni.Comm.announce (Omni.Comm.putAsync s) i held) i e ↔
      (s.transfers e).ack.done = true ∧ (s.transfers e).task ≠ .unarmed := by
  have hpending' : (Omni.Comm.putAsync s).pending
      ((Omni.Comm.putAsync s).sends i).job.objectId = some e := hpending
  rw [Omni.Comm.announce, registerPending, hpending']
  refine Iff.trans ?_ (failPending_transfer_iff (s := Omni.Comm.putAsync s) hpending'
    (.runtimeError s!"duplicate pending transfer '{(s.sends i).job.objectId}'"))
  constructor
  · exact fun hunharmed => hunharmed.transfer
  · intro htransfer
    refine unharmed_endSend _ ?_ htransfer fun o ho => ?_
    · unfold Omni.Comm.failPending
      rw [hpending']
      exact hpending'
    · rw [← h.putAsync_ops ho]
      unfold Omni.Comm.failPending
      rw [hpending']
      rfl

/-- The piece around a put of a send with the id of a transfer in flight. -/
theorem Accounts.put_unharmed_iff (h : Accounts s A) {remaining : ℕ} {held : List ℕ}
    {outcome : PutOutcome} (hphase : (s.sends i).phase = .putting held remaining)
    (hpending : s.pending (s.sends i).job.objectId = some e)
    (hstep : Omni.Comm.put s i held remaining outcome = some t) :
    Unharmed s t i e ↔ ¬Harms s (.put i outcome) := by
  cases outcome with
  | raisesBefore message =>
    rw [← Option.some.inj hstep]
    exact iff_of_true (unharmed_endSend _ hpending rfl fun _ _ => rfl) id
  | raisesInside message =>
    obtain ⟨_, hafter⟩ := Option.ite_none_right_eq_some.mp hstep
    rw [← Option.some.inj hafter]
    exact iff_of_true (unharmed_endSend _ hpending rfl fun _ _ => rfl) id
  | raisesAfter message =>
    obtain ⟨_, hafter⟩ := Option.ite_none_right_eq_some.mp hstep
    rw [← Option.some.inj hafter]
    exact iff_of_true (unharmed_endSend _ hpending rfl fun _ ho => h.putAsync_ops ho) id
  | succeeds =>
    obtain ⟨_, hafter⟩ := Option.ite_none_right_eq_some.mp hstep
    rw [← Option.some.inj hafter]
    by_cases hlast : remaining ≤ 1
    · rw [if_pos hlast, h.announce_unharmed_iff _ hpending]
      constructor
      · rintro hready ⟨_, _, d, _, _, hd, hnot⟩
        obtain rfl := Option.some.inj (hpending.symm.trans hd)
        exact hnot hready
      · intro hharms
        by_contra hnot
        exact hharms ⟨held, remaining, e, hphase, hlast, hpending, hnot⟩
    · rw [if_neg hlast]
      refine iff_of_true ⟨Or.inr ⟨_, _, setSend_self ..⟩, hpending, rfl,
        fun _ ho => h.putAsync_ops ho⟩ ?_
      rintro ⟨_, remaining', _, hphase', hlast', _⟩
      rw [hphase] at hphase'
      cases hphase'
      exact hlast hlast'

/-- **Step lemma.** A step leaves transfers in flight alone exactly if it does not take
a second send to `_register_pending` while the transfer is not acknowledged and armed. -/
theorem Accounts.leavesInFlight_iff (h : Accounts s A) {a : Action}
    (hstep : Omni.Comm.step stageName s a = some t) :
    LeavesInFlight stageName s a ↔ ¬Harms s a := by
  cases a with
  | put i outcome =>
    have hput := hstep
    simp only [Omni.Comm.step] at hput
    split at hput
    next held remaining hphase =>
      cases hpending : s.pending (s.sends i).job.objectId with
      | none =>
        refine iff_of_true ?_ ?_
        · rintro _ _ e _ ⟨⟩ hsome
          rw [hpending] at hsome
          cases hsome
        · cases outcome <;> simp [Harms, hpending]
      | some e =>
        rw [← h.put_unharmed_iff hphase hpending hput]
        constructor
        · exact fun hleaves => hleaves i outcome e t rfl hpending hstep
        · rintro hunharmed _ _ d u ⟨⟩ hsome hu
          obtain rfl := Option.some.inj (hpending.symm.trans hsome)
          obtain rfl := Option.some.inj (hstep.symm.trans hu)
          exact hunharmed
    · cases hput
  | start | sent | ack | watch | timeout =>
    exact iff_of_true (fun _ _ _ _ hput => by cases hput) id

/-- In a run every send with the id of a transfer in flight fails to its own caller and
leaves that transfer alone exactly if no such send gets past its last put before the
transfer has been acknowledged and armed. -/
theorem duplicates_harmless {jobs : ℕ → SendJob D L} {as : List Action}
    {p : State D L × Account c} :
    Run (watched stageName) (fun p a => LeavesInFlight stageName p.1 a)
        (State.init c jobs, Account.empty c) as p ↔
      Run (watched stageName) (fun p a => ¬Harms p.1 a) (State.init c jobs, Account.empty c) as p :=
  Run.congr (I := fun p => Accounts p.1 p.2) (fun _ _ _ h _ hstep => h.step hstep)
    (fun _ _ _ h hstep => h.leavesInFlight_iff (watch_eq_some.mp hstep).1) (accounts_init c jobs)

/-- The payload of request `"r"` for the next stage. -/
def payloadJob : SendJob Unit Unit :=
  .payload "r" "preprocessing" "thinker" (.dict [("prompt", .str "hello")])

/-- A second send of a payload fails the transfer of the first, which was waiting for its
acknowledgement. -/
theorem second_send_fails_first : ∃ p q : State Unit Unit × Account 2,
    Run (watched "preprocessing") anyAction (State.init 2 fun _ => payloadJob, Account.empty 2)
      [.start 0, .put 0 .succeeds, .sent 0 none, .start 1] p ∧
    watched "preprocessing" p (.put 1 .succeeds) = some q ∧
    p.1.pending payloadJob.objectId = some 0 ∧
    p.1.transfers 0 = ⟨payloadJob.objectId, [0], .waiting, .waiting⟩ ∧
    (q.1.transfers 0).ack = .failed (.runtimeError
      "duplicate pending transfer 'r:payload:preprocessing:thinker'") := by
  have hrun := run_of_isSome (watched "preprocessing")
    (State.init 2 fun _ => payloadJob, Account.empty 2)
    [.start 0, .put 0 .succeeds, .sent 0 none, .start 1] (by decide +kernel)
  refine ⟨_, _, hrun, rfl, by decide +kernel, by decide +kernel, by decide +kernel⟩

end Omni.Comm
