import Omni.Comm.AccountRuns

/-!
# Credits come back

A credit is lost exactly when a send raises while it holds operations that have not
been registered. In every other run the credit of each operation is released once,
by the watcher of its transfer.
-/

namespace Omni.Comm

open Omni.Transition

variable {D L : Type} {c o : ℕ} {s : State D L} {A : Account c}

/-- The step raises out of a send that holds operations which are not registered:
a later put fails, the data ref of a put cannot be built, or the id is still pending. -/
def Leaks (s : State D L) : Action → Prop
  | .put i outcome =>
    match (s.sends i).phase, outcome with
    | .putting held _, .raisesBefore _ => held ≠ []
    | .putting held _, .raisesInside _ => held ≠ []
    | .putting _ _, .raisesAfter _ => True
    | .putting _ remaining, .succeeds =>
      remaining ≤ 1 ∧ s.pending (s.sends i).job.objectId ≠ none
    | _, _ => False
  | _ => False

/-- Operation `o` is in the hands of a send, or of a pending transfer. -/
def UnderWay (s : State D L) (o : ℕ) : Prop :=
  (∃ i held remaining, (s.sends i).phase = .putting held remaining ∧ o ∈ held) ∨
    ∃ objectId e, s.pending objectId = some e ∧ o ∈ (s.transfers e).ops

/-- The credit of operation `o` has been released once, after its transfer was
acknowledged, failed or timed out. -/
def Settled (s : State D L) (A : Account c) (o : ℕ) : Prop :=
  A.releases o = 1 ∧ ∃ e, o ∈ (s.transfers e).ops ∧ (s.transfers e).ack.done = true

/-- No send is running and no transfer is pending. -/
def Quiescent (s : State D L) : Prop :=
  (∀ i, (s.sends i).phase = .queued ∨ ∃ ready, (s.sends i).phase = .ended ready) ∧
    ∀ objectId, s.pending objectId = none

/-- No operation has been left to nobody. -/
def Account.Kept (A : Account c) : Prop :=
  ∀ o, A.owner o ≠ some .nobody

theorem Accounts.underWay_or_settled (h : Accounts s A) (hlt : o < s.opCount)
    (hkept : A.owner o ≠ some .nobody) : UnderWay s o ∨ Settled s A o := by
  obtain ⟨owner, howner⟩ := Option.ne_none_iff_exists'.mp ((h.owned o).mpr hlt)
  cases owner with
  | nobody => exact absurd howner hkept
  | send i =>
    have hsend := h.sends i
    unfold SendAgrees at hsend
    split at hsend
    next held remaining hphase =>
      exact Or.inl (Or.inl ⟨i, held, remaining, hphase, (hsend.2.2 o).mpr howner⟩)
    · exact absurd howner (hsend o)
  | transfer e =>
    have hmem := (h.transfers e o).mpr howner
    by_cases hended : ∃ failure, (s.transfers e).task = .ended failure
    · obtain ⟨failure, htask⟩ := hended
      have hcompleted := h.tasks e
      rw [TaskAgrees, htask] at hcompleted
      have hback : o ∈ A.pool.back := (h.back o).mpr ⟨hlt, hcompleted o hmem⟩
      have hreleases := h.releases o
      rw [if_pos hback] at hreleases
      exact Or.inr ⟨hreleases, e, hmem, h.acked e (by rw [htask]; rfl)⟩
    · have hopen : ∀ failure, (s.transfers e).task ≠ .ended failure :=
        fun failure htask => hended ⟨failure, htask⟩
      have hcount : e < s.transferCount := by
        by_contra hle
        rw [(h.unused e (not_lt.mp hle)).1] at hmem
        cases hmem
      exact Or.inl (Or.inr ⟨_, e, h.unended hcount hopen, hmem⟩)

/-- An operation that has been left to nobody is neither. -/
theorem Accounts.lost (h : Accounts s A) (hnobody : A.owner o = some .nobody) :
    ¬(UnderWay s o ∨ Settled s A o) := by
  have hnotMem : ∀ e, o ∉ (s.transfers e).ops := by
    intro e hmem
    rw [h.transfers, hnobody] at hmem
    cases hmem
  rintro ((⟨i, held, remaining, hphase, hmem⟩ | ⟨_, e, _, hmem⟩) | ⟨_, e, hmem, _⟩)
  · have hsend := h.sends i
    rw [SendAgrees, hphase] at hsend
    rw [hsend.2.2, hnobody] at hmem
    cases hmem
  · exact hnotMem e hmem
  · exact hnotMem e hmem

/-- Every operation made so far is under way or settled exactly if none was left to
nobody. -/
theorem Accounts.kept_iff (h : Accounts s A) :
    A.Kept ↔ ∀ o < s.opCount, UnderWay s o ∨ Settled s A o := by
  constructor
  · intro hkept o hlt
    exact h.underWay_or_settled hlt (hkept o)
  · intro hall o hnobody
    have hlt : o < s.opCount := (h.owned o).mp (by simp [hnobody])
    exact h.lost hnobody (hall o hlt)

theorem Quiescent.not_underWay (h : Quiescent s) (o : ℕ) : ¬UnderWay s o := by
  rintro (⟨i, held, remaining, hphase, _⟩ | ⟨objectId, e, hpending, _⟩)
  · rcases h.1 i with hqueued | ⟨ready, hended⟩
    · simp [hphase] at hqueued
    · simp [hphase] at hended
  · simp [h.2 objectId] at hpending

/-- All credits are free in a quiescent state once every operation is settled. -/
theorem Accounts.credits_eq (h : Accounts s A) (hkept : A.Kept) (hquiescent : Quiescent s) :
    s.credits = c := by
  rw [h.credits, A.pool.free_eq_iff, Finset.eq_empty_iff_forall_notMem]
  intro o hout
  obtain ⟨hlt, _⟩ := (h.out o).mp hout
  rcases h.kept_iff.mp hkept o hlt with hunder | ⟨hreleases, _⟩
  · exact hquiescent.not_underWay o hunder
  · have hback := h.releases o
    rw [if_neg (Finset.disjoint_left.mp A.pool.disjoint hout), hreleases] at hback
    cases hback

theorem pass_kept_iff {a b : Owner} (ha : a ≠ .nobody) :
    (A.pass a b).Kept ↔ A.Kept ∧ (b = .nobody → ∀ o, A.owner o ≠ some a) := by
  simp only [Account.Kept, ne_eq, pass_eq_some_iff, not_or, not_and]
  constructor
  · intro hkept
    refine ⟨fun o hnobody => ?_, fun hb o howner => (hkept o).1 howner hb⟩
    refine (hkept o).2 (fun howner => ?_) hnobody
    exact ha (Option.some.inj (howner.symm.trans hnobody))
  · rintro ⟨hkept, hnone⟩ o
    exact ⟨fun howner hb => hnone hb o howner, fun _ => hkept o⟩

theorem acquire_kept_iff {i : ℕ} (hnew : A.owner o = none) :
    (A.acquire i o).Kept ↔ A.Kept := by
  refine forall_congr' fun p => ?_
  by_cases hp : p = o
  · subst hp
    simp [Account.acquire, hnew]
  · simp [Account.acquire, hp]

/-- **Step lemma.** A step leaves an operation to nobody exactly if it raises out of a
send that holds operations. -/
theorem Accounts.kept_step {stageName : String} {t : State D L} {B : Account c} {a : Action}
    (h : Accounts s A) (hstep : watched stageName (s, A) a = some (t, B)) :
    B.Kept ↔ A.Kept ∧ ¬Leaks s a := by
  obtain ⟨hmove, rfl⟩ := watch_eq_some.mp hstep
  have hnew := h.owner_opCount
  cases a with
  | put i outcome =>
    simp only [Omni.Comm.step] at hmove
    split at hmove
    next held remaining hphase =>
      have hheld := h.sends i
      rw [SendAgrees, hphase] at hheld
      have hnone : (∀ o, A.owner o ≠ some (.send i)) ↔ ¬held ≠ [] := by
        rw [not_not, List.eq_nil_iff_forall_not_mem]
        exact forall_congr' fun o => not_congr (hheld.2.2 o).symm
      have hmine : ¬∀ o, (A.acquire i s.opCount).owner o ≠ some (.send i) :=
        fun hnone => hnone s.opCount (by simp [Account.acquire])
      have hdropped : ((A.acquire i s.opCount).pass (.send i) .nobody).Kept ↔ False := by
        rw [pass_kept_iff (by simp)]
        exact iff_of_false (fun hkept => hmine (hkept.2 rfl)) id
      simp only [observe, hphase, Leaks]
      cases outcome with
      | raisesBefore message =>
        change (A.pass (.send i) .nobody).Kept ↔ _
        rw [pass_kept_iff (by simp), ← hnone]
        simp
      | raisesInside message =>
        change (A.pass (.send i) .nobody).Kept ↔ _
        rw [pass_kept_iff (by simp), ← hnone]
        simp
      | raisesAfter message =>
        change ((A.acquire i s.opCount).pass (.send i) .nobody).Kept ↔ _
        rw [hdropped]
        simp
      | succeeds =>
        by_cases hlast : 1 < remaining
        · have hacquired := acquire_kept_iff (i := i) hnew
          have hmore : ¬remaining ≤ 1 := by omega
          simp only [observePut, hlast, if_true, hmore, false_and, not_false_eq_true, and_true]
          exact hacquired
        · have hone : remaining ≤ 1 := by omega
          simp only [observePut, hlast, if_false, hone, true_and]
          cases hpending : s.pending (s.sends i).job.objectId with
          | some e =>
            change ((A.acquire i s.opCount).pass (.send i) .nobody).Kept ↔ _
            rw [hdropped]
            simp
          | none =>
            change ((A.acquire i s.opCount).pass (.send i) (.transfer s.transferCount)).Kept ↔ _
            rw [pass_kept_iff (by simp), acquire_kept_iff hnew]
            simp
    · cases hmove
  | watch e =>
    simp [Account.Kept, record_watch_owner, Leaks]
  | start | sent | ack | timeout => simp [observe, Leaks]

/-- **Run lemma.** No operation has been left to nobody exactly if no step of the run
raised out of a send that held operations. -/
theorem kept_iff_run {stageName : String} {jobs : ℕ → SendJob D L} {as : List Action}
    {p : State D L × Account c}
    (hrun : Run (watched stageName) anyAction (State.init c jobs, Account.empty c) as p) :
    p.2.Kept ↔ Run (watched stageName) (fun p a => ¬Leaks p.1 a)
      (State.init c jobs, Account.empty c) as p := by
  constructor
  · intro hkept
    refine hrun.restrict (I := fun p => Accounts p.1 p.2) (B := fun p => ¬p.2.Kept)
      (fun _ _ _ hagrees hstep => hagrees.step hstep) (fun p a q hagrees hstep hbad => ?_)
      (accounts_init c jobs) (not_not.mpr hkept)
    rw [hagrees.kept_step hstep, not_and_or]
    exact hbad
  · intro hsafe
    have hboth := hsafe.invariant (I := fun p => Accounts p.1 p.2 ∧ p.2.Kept)
      (fun p a q hp hok hstep =>
        ⟨hp.1.step hstep, (hp.1.kept_step hstep).mpr ⟨hp.2, hok⟩⟩)
      ⟨accounts_init c jobs, fun o => by simp [Account.empty]⟩
    exact hboth.2

/-- Every operation ever made is under way or has had its credit released once, and all
credits are free whenever nothing is under way: this holds after a run exactly if no step
of the run raised out of a send that held operations. -/
theorem credits_return {stageName : String} {jobs : ℕ → SendJob D L} {as : List Action}
    {p : State D L × Account c}
    (hrun : Run (watched stageName) anyAction (State.init c jobs, Account.empty c) as p) :
    ((∀ o < p.1.opCount, UnderWay p.1 o ∨ Settled p.1 p.2 o) ∧ (Quiescent p.1 → p.1.credits = c)) ↔
      Run (watched stageName) (fun p a => ¬Leaks p.1 a)
        (State.init c jobs, Account.empty c) as p := by
  have hagrees := accounts_of_run hrun
  rw [← kept_iff_run hrun, ← hagrees.kept_iff]
  exact ⟨fun hboth => hboth.1, fun hkept => ⟨hkept, hagrees.credits_eq hkept⟩⟩

/-- Chunk `chunkId` of request `"r"`, with one tensor in its metadata. -/
def chunkJob (chunkId : ℕ) : SendJob Unit Unit :=
  .stream "r" "thinker" "talker" chunkId ⟨[4], "torch.float32", "cpu", ()⟩
    (some (.dict [("hidden", .tensor ⟨[8], "torch.float32", "cpu", ()⟩)]))

/-- One chunk is sent and acknowledged, and both credits come back. -/
theorem credits_return_acknowledged :
    ∃ as p, Run (watched "thinker") (fun p a => ¬Leaks p.1 a)
      (State.init 2 chunkJob, Account.empty 2) as p ∧ p.1.opCount = 2 ∧ p.1.credits = 2 := by
  have hrun := run_of_isSome (watched "thinker") (State.init 2 chunkJob, Account.empty 2)
    [.start 0, .put 0 .succeeds, .put 0 .succeeds, .sent 0 none,
      .ack ⟨"r:stream:thinker:talker:0", "thinker", true, none⟩,
      .watch 0, .watch 0, .watch 0, .watch 0] (by decide +kernel)
  refine ⟨_, _, (credits_return hrun).mp ⟨fun o ho => Or.inr ?_, fun _ => ?_⟩, ?_, ?_⟩
  · obtain rfl | rfl : o = 0 ∨ o = 1 := by
      have hlt : o < 2 := ho.trans_eq (by decide +kernel)
      omega
    · exact ⟨by decide +kernel, 0, by decide +kernel, by decide +kernel⟩
    · exact ⟨by decide +kernel, 0, by decide +kernel, by decide +kernel⟩
  all_goals decide +kernel

/-- The second put of a chunk fails: the credit of the first is never released, although
no send is running and no transfer is pending. -/
theorem failed_put_keeps_credit :
    ∃ as p, Run (watched "thinker") anyAction (State.init 2 chunkJob, Account.empty 2) as p ∧
      Quiescent p.1 ∧ p.1.opCount = 1 ∧ p.2.releases 0 = 0 ∧ p.1.credits = 1 := by
  have hrun := run_of_isSome (watched "thinker") (State.init 2 chunkJob, Account.empty 2)
    [.start 0, .put 0 .succeeds, .put 0 (.raisesInside "no space left on device")]
    (by decide +kernel)
  refine ⟨_, _, hrun, ⟨fun i => ?_, fun objectId => ?_⟩, ?_, ?_, ?_⟩
  · rcases i with _ | i
    · exact Or.inr ⟨.error (.external "no space left on device"), by decide +kernel⟩
    · left
      rfl
  · by_contra hne
    obtain ⟨e, hpending⟩ := Option.ne_none_iff_exists'.mp hne
    have hlt := ((accounts_of_run hrun).pending hpending).1.trans_eq (show _ = 0 by decide +kernel)
    exact absurd hlt (Nat.not_lt_zero e)
  all_goals decide +kernel

end Omni.Comm
