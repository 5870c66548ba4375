import Omni.Comm.AccountSteps

/-!
# The account along runs

Watchers complete the operations of their transfers, which releases the credits.
With the lemmas on sends, every step keeps the account, and so does every run.
-/

namespace Omni.Comm

open Omni.Transition Function Option

variable {D L : Type} {c e o i : ℕ} {s t : State D L} {A : Account c} {failure : Option Failure}
  {rest held : List ℕ} {stageName : String} {ok : State D L × Account c → Action → Prop}
  {as : List Action} {p : State D L × Account c}

/-- An operation of one transfer is not among those of another. -/
theorem Accounts.notMem_ops (h : Accounts s A) {d : ℕ} (ho : o ∈ (s.transfers e).ops)
    (hne : d ≠ e) :
    o ∉ (s.transfers d).ops := by
  intro hd
  rw [h.transfers] at ho hd
  exact hne (by simpa [ho] using hd.symm)

theorem Accounts.lt_transferCount (h : Accounts s A) (htask : (s.transfers e).task ≠ .unarmed) :
    e < s.transferCount := by
  by_contra hle
  exact htask (h.unused e (not_lt.mp hle)).2

theorem Accounts.mark (h : Accounts s A) (htask : (s.transfers e).task = .waiting)
    {receipt : Receipt} (hreceipt : receipt ≠ .waiting) (hdone : failure = none → receipt = .done)
    (hack : (s.transfers e).ack.done = true) :
    Accounts ((markReceivers s (s.transfers e).ops receipt).updateTransfer e fun pending =>
      { pending with task := .completing pending.ops failure }) A := by
  have hnew := (taskAgrees_iff_new (by rw [htask]; rfl)).mp (h.tasks e)
  have hmarked : ∀ o ∈ (s.transfers e).ops,
      (markReceivers s (s.transfers e).ops receipt).ops o = ⟨receipt, false⟩ := by
    intro o ho
    simp [markReceivers, ho, hnew o ho, PutOperation.new]
  have hsame : ∀ {o}, o ∉ (s.transfers e).ops →
      (markReceivers s (s.transfers e).ops receipt).ops o = s.ops o := by
    intro o ho
    simp [markReceivers, ho]
  have hcompleted : ∀ o, ((markReceivers s (s.transfers e).ops receipt).ops o).completed =
      (s.ops o).completed := by
    intro o
    by_cases ho : o ∈ (s.transfers e).ops
    · rw [hmarked o ho, hnew o ho]
      rfl
    · rw [hsame ho]
  have hlt := h.lt_transferCount (e := e) (by simp [htask])
  have hothers : ∀ {d}, d ≠ e → ((markReceivers s (s.transfers e).ops receipt).updateTransfer e
      fun pending => { pending with task := .completing pending.ops failure }).transfers d =
        s.transfers d := fun hd => updateTransfer_ne _ _ _ _ hd
  exact { h with
    out := fun o => by
      rw [h.out, ← hcompleted o]
      rfl
    back := fun o => by
      rw [h.back, ← hcompleted o]
      rfl
    transfers := fun d o => by
      rw [← h.transfers]
      by_cases hd : d = e
      · subst hd
        rw [updateTransfer_self]
        rfl
      · rw [hothers hd]
    sending := fun {o i} howner => by
      have ho : o ∉ (s.transfers e).ops := by
        rw [h.transfers, howner]
        simp
      exact (hsame ho).trans (h.sending howner)
    nobody := fun {o} howner => (hcompleted o).trans (h.nobody howner)
    tasks := fun d => by
      by_cases hd : d = e
      · subst hd
        rw [TaskAgrees, updateTransfer_self]
        intro o ho
        have hop : ((markReceivers s (s.transfers d).ops receipt).updateTransfer d fun pending =>
            { pending with task := .completing pending.ops failure }).ops o = ⟨receipt, false⟩ :=
          hmarked o ho
        rw [hop]
        exact ⟨hreceipt, Or.inr ho, hdone⟩
      · exact (h.tasks d).congr (hothers hd) fun o ho => hsame fun he => h.notMem_ops he hd ho
    rests := fun d rest failure' hrest => by
      by_cases hd : d = e
      · subst hd
        rw [updateTransfer_self] at hrest ⊢
        simp only [Watcher.completing.injEq] at hrest
        rw [← hrest.1]
        exact fun _ ho => ho
      · rw [hothers hd] at hrest ⊢
        exact h.rests d rest failure' hrest
    acked := fun d hd' => by
      by_cases hd : d = e
      · subst hd
        rw [updateTransfer_self]
        exact hack
      · rw [hothers hd] at hd' ⊢
        exact h.acked d hd'
    unused := fun d hd' => by
      have hd : d ≠ e := by
        change s.transferCount ≤ d at hd'
        omega
      rw [hothers hd]
      exact h.unused d hd'
    pending := fun {objectId d} hpending => by
      obtain ⟨hlt', hobject, hopen⟩ := h.pending hpending
      refine ⟨hlt', ?_⟩
      by_cases hd : d = e
      · subst hd
        rw [updateTransfer_self]
        exact ⟨hobject, by simp⟩
      · rw [hothers hd]
        exact ⟨hobject, hopen⟩
    unended := fun {d} hlt' hopen => by
      by_cases hd : d = e
      · subst hd
        rw [updateTransfer_self]
        exact h.unended hlt' (by simp [htask])
      · rw [hothers hd] at hopen ⊢
        exact h.unended hlt' hopen }

/-- Completing an operation gives its credit back. -/
theorem Accounts.completeOp (h : Accounts s A)
    (htask : (s.transfers e).task = .completing (o :: rest) failure)
    (hopen : (s.ops o).completed = false) :
    Accounts (completeOp s o) (A.release o) := by
  have hmem : o ∈ (s.transfers e).ops := h.rests e _ _ htask o (List.mem_cons_self ..)
  have howner := (h.transfers e o).mp hmem
  have hlt : o < s.opCount := (h.owned o).mp (by simp [howner])
  have hout : o ∈ A.pool.out := (h.out o).mpr ⟨hlt, hopen⟩
  have hself : (Omni.Comm.completeOp s o).ops o = { s.ops o with completed := true } := by
    simp [Omni.Comm.completeOp]
  have hother : ∀ {p}, p ≠ o → (Omni.Comm.completeOp s o).ops p = s.ops p := by
    intro p hp
    simp [Omni.Comm.completeOp, hp]
  exact { h with
    credits := by
      change s.credits + 1 = (A.pool.release o).free
      rw [Pool.release_free hout, h.credits]
    out := fun p => by
      change p ∈ (A.pool.release o).out ↔ p < s.opCount ∧ _
      rw [Pool.release_out hout, Finset.mem_erase, h.out]
      by_cases hp : p = o
      · subst hp
        simp [hself]
      · rw [hother hp]
        simp [hp]
    back := fun p => by
      change p ∈ (A.pool.release o).back ↔ p < s.opCount ∧ _
      rw [Pool.release_back hout, Finset.mem_insert, h.back]
      by_cases hp : p = o
      · subst hp
        simp [hself, hlt]
      · rw [hother hp]
        simp [hp]
    releases := fun p => by
      change update A.releases o (A.releases o + 1) p =
        if p ∈ (A.pool.release o).back then 1 else 0
      rw [Pool.release_back hout]
      by_cases hp : p = o
      · have hback : o ∉ A.pool.back := Finset.disjoint_left.mp A.pool.disjoint hout
        have hzero := h.releases o
        rw [if_neg hback] at hzero
        simp [hp, hzero]
      · simp [hp, h.releases p]
    sending := fun {p i} hp => by
      have hne : p ≠ o := by
        rintro rfl
        simp [howner] at hp
      exact (hother hne).trans (h.sending hp)
    nobody := fun {p} hp => by
      have hne : p ≠ o := by
        rintro rfl
        simp [howner] at hp
      rw [hother hne]
      exact h.nobody hp
    tasks := fun d => by
      by_cases hd : d = e
      · subst hd
        have hold := h.tasks d
        have htask' : ((Omni.Comm.completeOp s o).transfers d).task =
            .completing (o :: rest) failure := htask
        rw [TaskAgrees, htask] at hold
        rw [TaskAgrees, htask']
        intro p hp
        by_cases hpo : p = o
        · subst hpo
          rw [hself]
          exact ⟨(hold p hp).1, Or.inl rfl, (hold p hp).2.2⟩
        · rw [hother hpo]
          exact hold p hp
      · exact (h.tasks d).congr rfl fun p hp =>
          hother fun heq => h.notMem_ops hmem hd (heq ▸ hp)
}

/-- A watcher leaves an operation that is complete. -/
theorem Accounts.advance (h : Accounts s A)
    (htask : (s.transfers e).task = .completing (o :: rest) failure)
    (hdone : (s.ops o).completed = true) :
    Accounts (s.updateTransfer e fun pending =>
      { pending with task := .completing rest failure }) A := by
  have hlt := h.lt_transferCount (e := e) (by simp [htask])
  refine h.updateTransfer e rfl rfl (by simp [htask]) ?_ (fun rest' failure' hrest => ?_)
    (fun _ => h.acked e (by rw [htask]; rfl)) (fun hle => by omega)
  · have hold := h.tasks e
    rw [TaskAgrees, htask] at hold
    rw [TaskAgrees, updateTransfer_self]
    intro p hp
    obtain ⟨hreceipt, hrest, hfailure⟩ := hold p hp
    refine ⟨hreceipt, ?_, hfailure⟩
    rcases hrest with hcompleted | hmem
    · exact Or.inl hcompleted
    · rcases List.mem_cons.mp hmem with rfl | hmem
      · exact Or.inl hdone
      · exact Or.inr hmem
  · rw [updateTransfer_self] at hrest ⊢
    simp only [Watcher.completing.injEq] at hrest
    rw [← hrest.1]
    exact fun p hp => h.rests e _ _ htask p (List.mem_cons_of_mem _ hp)

theorem Accounts.endWatch (h : Accounts s A)
    (htask : (s.transfers e).task = .completing [] failure) :
    Accounts (endWatch s e failure) A := by
  have hlt := h.lt_transferCount (e := e) (by simp [htask])
  have hmine := h.unended hlt (by simp [htask])
  have hself : (Omni.Comm.endWatch s e failure).transfers e =
      { s.transfers e with task := .ended failure } := by
    simp [Omni.Comm.endWatch, State.updateTransfer]
  have hothers : ∀ {d}, d ≠ e → (Omni.Comm.endWatch s e failure).transfers d = s.transfers d := by
    intro d hd
    simp [Omni.Comm.endWatch, State.updateTransfer, hd]
  exact { h with
    transfers := fun d p => by
      rw [← h.transfers]
      by_cases hd : d = e
      · subst hd
        rw [hself]
      · rw [hothers hd]
    tasks := fun d => by
      by_cases hd : d = e
      · subst hd
        have hold := h.tasks d
        rw [TaskAgrees, htask] at hold
        rw [TaskAgrees, hself]
        intro p hp
        exact (hold p hp).2.1.resolve_right (by simp)
      · exact (h.tasks d).congr (hothers hd) fun _ _ => rfl
    rests := fun d rest' failure' hrest => by
      by_cases hd : d = e
      · subst hd
        rw [hself] at hrest
        simp at hrest
      · rw [hothers hd] at hrest ⊢
        exact h.rests d rest' failure' hrest
    acked := fun d hd' => by
      by_cases hd : d = e
      · subst hd
        rw [hself]
        exact h.acked d (by rw [htask]; rfl)
      · rw [hothers hd] at hd' ⊢
        exact h.acked d hd'
    unused := fun d hd' => by
      have hd : d ≠ e := by
        change s.transferCount ≤ d at hd'
        omega
      rw [hothers hd]
      exact h.unused d hd'
    pending := fun {objectId d} hpending => by
      change update s.pending (s.transfers e).objectId none objectId = some d at hpending
      by_cases hid : objectId = (s.transfers e).objectId
      · rw [hid] at hpending
        simp at hpending
      · rw [update_of_ne hid] at hpending
        obtain ⟨hlt', hobject, hopen⟩ := h.pending hpending
        have hd : d ≠ e := by
          rintro rfl
          exact hid hobject.symm
        rw [hothers hd]
        exact ⟨hlt', hobject, hopen⟩
    unended := fun {d} hlt' hopen => by
      have hd : d ≠ e := by
        rintro rfl
        rw [hself] at hopen
        simp at hopen
      rw [hothers hd] at hopen ⊢
      have hold := h.unended hlt' hopen
      have hid : (s.transfers d).objectId ≠ (s.transfers e).objectId := by
        intro heq
        rw [heq, hmine] at hold
        exact hd (some.inj hold).symm
      change update s.pending (s.transfers e).objectId none (s.transfers d).objectId = _
      rw [update_of_ne hid, hold] }

theorem Accounts.watchCompletion (h : Accounts s A)
    (htask : (s.transfers e).task = .completing (o :: rest) failure)
    (hstep : watchCompletion s e o rest failure = some t) :
    Accounts t (if (s.ops o).completed then A else A.record [.released o]) := by
  by_cases hdone : (s.ops o).completed = true
  · simp only [Omni.Comm.watchCompletion, if_pos hdone] at hstep
    rw [if_pos hdone]
    exact some.inj hstep ▸ h.advance htask hdone
  · have hreceipt := h.tasks e
    rw [TaskAgrees, htask] at hreceipt
    have hsent := (hreceipt o (h.rests e _ _ htask o (List.mem_cons_self ..))).2.2
    have hcomplete := h.completeOp htask (by simpa using hdone)
    have hnext := hcomplete.advance (e := e) htask (by simp [Omni.Comm.completeOp])
    simp only [Omni.Comm.watchCompletion, if_neg hdone] at hstep
    rw [if_neg hdone]
    split at hstep
    · cases hstep
    next exc hfailed =>
      rw [hsent rfl] at hfailed
      cases hfailed
    · rw [← some.inj hstep]
      exact hnext

/-- Registering the operations, or failing to, once the last put has succeeded. -/
theorem Accounts.announce (h : Accounts (s.setSend i (.putting held 1)) A) :
    Accounts (announce s i held) (match s.pending (s.sends i).job.objectId with
      | some _ => A.pass (.send i) .nobody
      | none => A.pass (.send i) (.transfer s.transferCount)) := by
  have hheld := h.sends i
  rw [SendAgrees, setSend_self] at hheld
  unfold Omni.Comm.announce registerPending
  cases hpending : s.pending (s.sends i).job.objectId with
  | some e =>
    have hfailed := h.failPending (s.sends i).job.objectId
      (.runtimeError s!"duplicate pending transfer '{(s.sends i).job.objectId}'")
    rw [failPending_setSend] at hfailed
    have hdropped := hfailed.dropSend i
      (.error (.runtimeError s!"duplicate pending transfer '{(s.sends i).job.objectId}'"))
    rw [endSend_setSend] at hdropped
    exact hdropped
  | none =>
    have hok : registerPending (s.setSend i (.putting held 1)) (s.sends i).job.objectId held =
        .ok { s.setSend i (.putting held 1) with
          pending := update s.pending (s.sends i).job.objectId (some s.transferCount)
          transfers := update s.transfers s.transferCount
            ⟨(s.sends i).job.objectId, held, .waiting, .unarmed⟩
          transferCount := s.transferCount + 1 } := by
      have hsame : (s.setSend i (.putting held 1)).pending = s.pending := rfl
      rw [registerPending, hsame, hpending]
      rfl
    have hregistered := h.register (i := i) hheld.2.2 hok
    simp only [State.setSend, update_self, update_idem] at hregistered ⊢
    exact hregistered

/-- The piece around a put keeps the account. -/
theorem Accounts.put (h : Accounts s A) {remaining : ℕ}
    (hphase : (s.sends i).phase = .putting held remaining) {outcome : PutOutcome}
    (hstep : put s i held remaining outcome = some t) :
    Accounts t (A.record (observePut s i remaining outcome)) := by
  have hacquire := fun (hcredit : 0 < s.credits) {left : ℕ} (hleft : 0 < left) =>
    h.putAsync (i := i) hphase hcredit hleft
  cases outcome with
  | raisesBefore message =>
    rw [← some.inj hstep]
    exact h.dropSend i _
  | raisesInside message =>
    simp only [Omni.Comm.put] at hstep
    split at hstep
    · rw [← some.inj hstep]
      exact h.dropSend i _
    · cases hstep
  | raisesAfter message =>
    simp only [Omni.Comm.put] at hstep
    split at hstep
    next hcredit =>
      rw [← some.inj hstep,
        ← endSend_setSend (Omni.Comm.putAsync s) i (.putting (held ++ [s.opCount]) 1)]
      exact (hacquire hcredit Nat.one_pos).dropSend i _
    · cases hstep
  | succeeds =>
    simp only [Omni.Comm.put] at hstep
    split at hstep
    next hcredit =>
      rw [← some.inj hstep]
      unfold observePut
      by_cases hlast : remaining ≤ 1
      · have hannounced := (hacquire hcredit Nat.one_pos).announce
        rw [if_pos hlast]
        simp only [if_neg (show ¬1 < remaining by omega)]
        have hsame : (Omni.Comm.putAsync s).pending ((Omni.Comm.putAsync s).sends i).job.objectId =
          s.pending (s.sends i).job.objectId := rfl
        rw [hsame] at hannounced
        cases hpending : s.pending (s.sends i).job.objectId <;>
          simp only [hpending] at hannounced ⊢ <;> exact hannounced
      · rw [if_neg hlast]
        simp only [if_pos (show 1 < remaining by omega)]
        exact hacquire hcredit (by omega)
    · cases hstep

theorem Accounts.notPutting (h : Accounts s A)
    (hphase : ∀ held remaining, (s.sends i).phase ≠ .putting held remaining) :
    ∀ o, A.owner o ≠ some (.send i) := by
  have hagrees := h.sends i
  unfold SendAgrees at hagrees
  split at hagrees
  next held remaining hputting => exact absurd hputting (hphase held remaining)
  · exact hagrees

/-- A send whose announcement has raised, or cannot be armed. -/
theorem Accounts.failSend (h : Accounts s A) (exc : Failure)
    (hnone : ∀ o, A.owner o ≠ some (.send i)) : Accounts (failSend s i exc) A :=
  (h.failPending _ exc).endSend _ hnone

/-- A send whose announcement has gone out. -/
theorem Accounts.announced (h : Accounts s A) (hnone : ∀ o, A.owner o ≠ some (.send i)) :
    Accounts (announced s i) A := by
  unfold Omni.Comm.announced
  split
  · exact h.failSend _ hnone
  next t harm =>
    refine Accounts.endSend ?_ _ hnone
    unfold armPending at harm
    split at harm
    · cases harm
    next e hpending =>
      split at harm
      next htask =>
        rw [← Except.ok.inj harm]
        have hlt := (h.pending hpending).1
        exact h.updateAck e rfl rfl (Or.inr (by simp [htask, Watcher.early])) id fun hle => by omega
      · cases harm

/-- **Step lemma.** Every piece keeps the account. -/
theorem Accounts.step {B : Account c} {a : Action} (h : Accounts s A)
    (hstep : watched stageName (s, A) a = some (t, B)) : Accounts t B := by
  obtain ⟨hmove, rfl⟩ := watch_eq_some.mp hstep
  cases a with
  | start i =>
    simp only [Omni.Comm.step] at hmove
    split at hmove
    next hphase _ =>
      rw [← some.inj hmove]
      exact h.startSend (h.notPutting (by simp [hphase]))
    · cases hmove
  | put i outcome =>
    simp only [Omni.Comm.step] at hmove
    split at hmove
    next held remaining hphase =>
      simp only [observe, hphase]
      exact h.put hphase hmove
    · cases hmove
  | sent i error =>
    simp only [Omni.Comm.step] at hmove
    split at hmove
    next hphase =>
      have hnone := h.notPutting (i := i) (by simp [hphase])
      rw [← some.inj hmove]
      cases error with
      | none => exact h.announced hnone
      | some message => exact h.failSend _ hnone
    · cases hmove
  | ack msg =>
    simp only [Omni.Comm.step] at hmove
    split at hmove
    · rw [← some.inj hmove]
      exact h
    next u hok =>
      rw [← some.inj hmove]
      exact h.ackTransfer hok
  | watch e =>
    simp only [Omni.Comm.step] at hmove
    split at hmove
    next htask =>
      unfold watchAck at hmove
      simp only [observe, htask]
      split at hmove
      · cases hmove
      · cases hmove
      next hack =>
        rw [← some.inj hmove]
        exact h.mark htask (by simp) (fun _ => rfl) (by rw [hack]; rfl)
      next hack =>
        rw [← some.inj hmove]
        exact h.mark htask (by simp) (by simp) (by rw [hack]; rfl)
    next o rest failure htask =>
      simp only [observe, htask]
      have hdone := h.watchCompletion htask hmove
      split <;> simp_all
    next failure htask =>
      rw [← some.inj hmove]
      simp only [observe, htask]
      exact h.endWatch htask
    · cases hmove
  | timeout e =>
    simp only [Omni.Comm.step] at hmove
    split at hmove
    next htask _ =>
      have hcancelled := h.updateAck e (f := fun pending => { pending with ack := .cancelled })
        rfl rfl (Or.inl rfl) (fun _ => rfl) fun hle => (h.unused e hle).2
      rw [← some.inj hmove]
      exact hcancelled.mark (by simpa using htask) (by simp) (by simp)
        (by rw [updateTransfer_self]; rfl)
    · cases hmove

/-- What a step of a watcher means for the account. -/
theorem record_watch (s : State D L) (A : Account c) (e : ℕ) :
    (observe s (.watch e)).elim A A.record = A ∨
      ∃ o rest failure, (s.transfers e).task = .completing (o :: rest) failure ∧
        (observe s (.watch e)).elim A A.record = A.release o := by
  simp only [observe]
  split
  next o rest failure htask =>
    split
    · exact Or.inl rfl
    · exact Or.inr ⟨o, rest, failure, htask, rfl⟩
  · exact Or.inl rfl

/-- Watchers change no owner. -/
theorem record_watch_owner (s : State D L) (A : Account c) (e : ℕ) :
    ((observe s (.watch e)).elim A A.record).owner = A.owner := by
  rcases record_watch s A e with hsame | ⟨o, _, _, _, hrelease⟩
  · rw [hsame]
  · rw [hrelease, release_owner]

/-- **Run lemma.** The engine agrees with its account along every run. -/
theorem accounts_of_run {jobs : ℕ → SendJob D L}
    (hrun : Run (watched stageName) ok (State.init c jobs, Account.empty c) as p) :
    Accounts p.1 p.2 :=
  hrun.invariant (I := fun p => Accounts p.1 p.2)
    (fun _ _ _ hagrees _ hstep => hagrees.step hstep) (accounts_init c jobs)

end Omni.Comm
