import Mathlib.Algebra.BigOperators.Group.Finset.Basic
import Mathlib.Algebra.Order.BigOperators.Group.Finset
import Omni.Comm.AccountRuns

/-!
# A stream send that waits for itself

A stream send takes its credits one after another and registers its operations only
after the last. It gets through on its own exactly if all of them fit next to the
credits that no announced transfer will give back.
-/

namespace Omni.Comm

open Omni.Transition Function Option Finset

variable {D L : Type} {c e i n remaining : ℕ} {stageName : String} {s t : State D L} {A : Account c}
  {S : Finset ℕ} {held : List ℕ}

/-- What can happen without any send registering operations: send `i` goes through its
puts, and the watchers of announced transfers go on. -/
def alone (stageName : String) (i : ℕ) (s : State D L) : Action → Option (State D L)
  | .put j .succeeds => if j = i then step stageName s (.put i .succeeds) else none
  | .watch e => step stageName s (.watch e)
  | _ => none

/-- All puts of send `i` have returned. -/
def Returned (i : ℕ) (s : State D L) : Prop :=
  ∀ held remaining, (s.sends i).phase ≠ .putting held remaining

/-- The operation does not belong to a transfer that has been announced. -/
def unannounced (s : State D L) (A : Account c) (o : ℕ) : Bool :=
  match A.owner o with
  | some (.transfer e) => (s.transfers e).task = .unarmed
  | _ => true

/-- The credits that only the end of some send, if anything, can give back. -/
def stuck (s : State D L) (A : Account c) : Finset ℕ :=
  A.pool.out.filter fun o => unannounced s A o

/-- Every announced transfer has been acknowledged, positively or negatively. -/
def Acknowledged (s : State D L) : Prop :=
  ∀ e, (s.transfers e).task = .waiting →
    (s.transfers e).ack = .received ∨ ∃ exc, (s.transfers e).ack = .failed exc

/-- The steps that the watcher of a transfer has still to take. -/
def PendingTransfer.work (pending : PendingTransfer) : ℕ :=
  match pending.task with
  | .unarmed | .ended _ => 0
  | .waiting => pending.ops.length + 2
  | .completing rest _ => rest.length + 1

theorem Accounts.watch_cases (h : Accounts s A)
    (hstep : Omni.Comm.step stageName s (.watch e) = some t) :
    ∃ watcher : Watcher,
      t.transfers = update s.transfers e { s.transfers e with task := watcher } ∧
        t.transferCount = s.transferCount ∧ watcher.early = false ∧
        (s.transfers e).task ≠ .unarmed ∧
        PendingTransfer.work { s.transfers e with task := watcher } < (s.transfers e).work := by
  simp only [Omni.Comm.step] at hstep
  split at hstep
  next htask =>
    have hwork : (s.transfers e).work = (s.transfers e).ops.length + 2 := by
      simp [PendingTransfer.work, htask]
    unfold watchAck at hstep
    split at hstep
    · cases hstep
    · cases hstep
    · refine ⟨.completing (s.transfers e).ops none, ?_, ?_, rfl, by simp [htask], ?_⟩
      · rw [← some.inj hstep]
        rfl
      · rw [← some.inj hstep]
        rfl
      · rw [hwork]
        exact Nat.lt_succ_self _
    next exc _ =>
      refine ⟨.completing (s.transfers e).ops (some exc), ?_, ?_, rfl, by simp [htask], ?_⟩
      · rw [← some.inj hstep]
        rfl
      · rw [← some.inj hstep]
        rfl
      · rw [hwork]
        exact Nat.lt_succ_self _
  next o rest failure htask =>
    have hwork : (s.transfers e).work = rest.length + 2 := by
      simp [PendingTransfer.work, htask]
    have hagrees := h.tasks e
    rw [TaskAgrees, htask] at hagrees
    have hsent := (hagrees o (h.rests e _ _ htask o (List.mem_cons_self ..))).2.2
    refine ⟨.completing rest failure, ?_, ?_, rfl, by simp [htask], ?_⟩
    · unfold Omni.Comm.watchCompletion at hstep
      split at hstep
      · rw [← some.inj hstep]
        rfl
      · split at hstep
        · cases hstep
        next exc hfailed =>
          rw [hsent rfl] at hfailed
          cases hfailed
        · rw [← some.inj hstep]
          rfl
    · unfold Omni.Comm.watchCompletion at hstep
      split at hstep
      · rw [← some.inj hstep]
        rfl
      · split at hstep
        · cases hstep
        · rw [← some.inj hstep]
          rfl
        · rw [← some.inj hstep]
          rfl
    · rw [hwork]
      exact Nat.lt_succ_self _
  next failure htask =>
    refine ⟨.ended failure, ?_, ?_, rfl, by simp [htask], ?_⟩
    · rw [← some.inj hstep]
      rfl
    · rw [← some.inj hstep]
      rfl
    · simp [PendingTransfer.work, htask]
  · cases hstep

/-- A watcher can go on unless it waits for its acknowledgement. -/
theorem Accounts.watch_enabled (h : Accounts s A) (hacked : Acknowledged s)
    (harmed : (s.transfers e).task ≠ .unarmed)
    (hopen : ∀ failure, (s.transfers e).task ≠ .ended failure) :
    ∃ t, Omni.Comm.step stageName s (.watch e) = some t := by
  simp only [Omni.Comm.step]
  split
  next htask =>
    unfold watchAck
    rcases hacked e htask with hreceived | ⟨exc, hfailed⟩
    · simp [hreceived]
    · simp [hfailed]
  next o rest failure htask =>
    have hagrees := h.tasks e
    rw [TaskAgrees, htask] at hagrees
    have hmarked := (hagrees o (h.rests e _ _ htask o (List.mem_cons_self ..))).1
    unfold Omni.Comm.watchCompletion
    split
    · exact ⟨_, rfl⟩
    · split
      next hwaiting => exact absurd hwaiting hmarked
      · exact ⟨_, rfl⟩
      · exact ⟨_, rfl⟩
  · exact ⟨_, rfl⟩
  next hneither hnone _ =>
    cases htask : (s.transfers e).task with
    | unarmed => exact absurd htask harmed
    | waiting => simp_all
    | completing rest failure => cases rest <;> simp_all
    | ended failure => exact absurd htask (hopen failure)

/-- Send `i` is in the middle of its `n` puts, and the credits in `S` are stuck. -/
structure Putting (s : State D L) (A : Account c) (i n : ℕ) (S : Finset ℕ) : Prop where
  agrees : Accounts s A
  phase : ∃ held remaining, (s.sends i).phase = .putting held remaining ∧
    held.length + remaining = n
  stuck : ∀ o ∈ S, o ∈ A.pool.out ∧ A.owner o ≠ some (.send i) ∧ unannounced s A o = true
  rest : ∀ o ∈ A.pool.out, o ∈ S ∨ A.owner o = some (.send i) ∨ unannounced s A o = false
  acked : Acknowledged s

/-- What the send and the watchers have still to do. -/
def effort (i : ℕ) (s : State D L) : ℕ :=
  (match (s.sends i).phase with
    | .putting _ remaining => remaining
    | _ => 0) + ∑ e ∈ Finset.range s.transferCount, (s.transfers e).work

theorem putting_of_start (h : Accounts s A) (hphase : (s.sends i).phase = .putting [] n)
    (hacked : Acknowledged s) :
    Putting s A i n (stuck s A) where
  agrees := h
  phase := ⟨[], _, hphase, Nat.zero_add n⟩
  stuck o ho := by
    obtain ⟨hout, hunannounced⟩ := mem_filter.mp ho
    have hsend := h.sends i
    rw [SendAgrees, hphase] at hsend
    exact ⟨hout, fun howner => by simpa using (hsend.2.2 o).mpr howner, hunannounced⟩
  rest o ho := by
    by_cases hunannounced : unannounced s A o = true
    · exact Or.inl (mem_filter.mpr ⟨ho, hunannounced⟩)
    · exact Or.inr (Or.inr (by simpa using hunannounced))
  acked := hacked

/-- The credits in hand, the stuck ones and the free ones are different credits. -/
theorem Putting.card_le (h : Putting s A i n S)
    (hphase : (s.sends i).phase = .putting held remaining) :
    s.credits + (held.length + S.card) ≤ c := by
  have hsend := h.agrees.sends i
  rw [SendAgrees, hphase] at hsend
  have hdisjoint : Disjoint held.toFinset S := by
    rw [disjoint_left]
    intro o hheld hstuck
    exact (h.stuck o hstuck).2.1 ((hsend.2.2 o).mp (List.mem_toFinset.mp hheld))
  have hsubset : held.toFinset ∪ S ⊆ A.pool.out := by
    intro o ho
    rcases mem_union.mp ho with hheld | hstuck
    · have howner := (hsend.2.2 o).mp (List.mem_toFinset.mp hheld)
      have hnew : s.ops o = .new := h.agrees.sending howner
      exact (h.agrees.out o).mpr ⟨(h.agrees.owned o).mp (by simp [howner]), by rw [hnew]; rfl⟩
    · exact (h.stuck o hstuck).1
  have hle := A.pool.free_add_le hsubset
  rw [card_union_of_disjoint hdisjoint, List.toFinset_card_of_nodup hsend.2.1] at hle
  rw [h.agrees.credits]
  exact hle

/-- If no credit is free, one that is neither in hand nor stuck is coming back. -/
theorem Putting.coming_back (h : Putting s A i n S)
    (hphase : (s.sends i).phase = .putting held remaining) (hnone : s.credits = 0)
    (hfew : held.length + S.card < c) :
    ∃ t e, Omni.Comm.step stageName s (.watch e) = some t := by
  have hsend := h.agrees.sends i
  rw [SendAgrees, hphase] at hsend
  have hcard : A.pool.out.card = c := by
    have hbalance := A.pool.balance
    rw [← h.agrees.credits, hnone] at hbalance
    omega
  have hmore : ¬A.pool.out ⊆ held.toFinset ∪ S := by
    intro hsubset
    have hle := (card_le_card hsubset).trans (card_union_le _ _)
    rw [List.toFinset_card_of_nodup hsend.2.1] at hle
    omega
  obtain ⟨o, hout, hneither⟩ := not_subset.mp hmore
  rw [mem_union, not_or, List.mem_toFinset, hsend.2.2] at hneither
  rcases h.rest o hout with hstuck | howner | hannounced
  · exact absurd hstuck hneither.2
  · exact absurd howner hneither.1
  · unfold unannounced at hannounced
    split at hannounced
    next e howner =>
      have hmem := (h.agrees.transfers e o).mpr howner
      have hopen : ∀ failure, (s.transfers e).task ≠ .ended failure := by
        intro failure htask
        have hcompleted := h.agrees.tasks e
        rw [TaskAgrees, htask] at hcompleted
        have hfalse := ((h.agrees.out o).mp hout).2
        rw [hcompleted o hmem] at hfalse
        cases hfalse
      obtain ⟨t, hstep⟩ : ∃ t, Omni.Comm.step stageName s (.watch e) = some t :=
        h.agrees.watch_enabled h.acked (by simpa using hannounced) hopen
      exact ⟨t, e, hstep⟩
    · cases hannounced

/-- A step of a watcher changes no owner and gives back no stuck credit. -/
theorem Accounts.watch (h : Accounts s A) (hstep : Omni.Comm.step stageName s (.watch e) = some t) :
    ∃ B : Account c, Accounts t B ∧ B.owner = A.owner ∧ B.pool.out ⊆ A.pool.out ∧
      (∀ o ∈ A.pool.out, unannounced s A o = true → o ∈ B.pool.out) ∧
      ∀ o, unannounced t B o = unannounced s A o := by
  obtain ⟨watcher, htransfers, _, hseen, harmed, _⟩ := h.watch_cases hstep
  refine ⟨(observe s (.watch e)).elim A A.record, h.step (watch_eq_some.mpr ⟨hstep, rfl⟩),
    record_watch_owner s A e, ?_, ?_, ?_⟩
  · rcases record_watch s A e with hsame | ⟨o, _, _, _, hrelease⟩
    · rw [hsame]
    · rw [hrelease]
      exact Pool.release_out_subset
  · intro o hout hstuck
    rcases record_watch s A e with hsame | ⟨o', rest, failure, htask, hrelease⟩
    · rwa [hsame]
    · have howner := (h.transfers e o').mp (h.rests e _ _ htask o' (List.mem_cons_self ..))
      have hne : o ≠ o' := by
        rintro rfl
        simp [unannounced, howner, htask] at hstuck
      rw [hrelease]
      exact Pool.mem_release_out hout hne
  · intro o
    unfold unannounced
    rw [record_watch_owner, htransfers]
    split
    next d _ =>
      by_cases hd : d = e
      · subst hd
        have hunarmed : watcher ≠ .unarmed := by
          rintro rfl
          cases hseen
        simp [hunarmed, harmed]
      · rw [update_of_ne hd]
    · rfl

/-- A step of a watcher leaves the send where it is. -/
theorem Putting.watch (h : Putting s A i n S)
    (hstep : Omni.Comm.step stageName s (.watch e) = some t) :
    (∃ B : Account c, Putting t B i n S) ∧ effort i t < effort i s := by
  obtain ⟨watcher, htransfers, hcount, hseen, harmed, hwork⟩ := h.agrees.watch_cases hstep
  obtain ⟨B, hagrees, howner, hsubset, hkept, hunannounced⟩ := h.agrees.watch hstep
  have hsends := watch_sends hstep
  constructor
  · refine ⟨B, hagrees, ?_, fun o ho => ?_, fun o ho => ?_, fun d htask => ?_⟩
    · rw [hsends]
      exact h.phase
    · obtain ⟨hout, hsend, hstuck⟩ := h.stuck o ho
      rw [hunannounced, howner]
      exact ⟨hkept o hout hstuck, hsend, hstuck⟩
    · rw [hunannounced, howner]
      exact h.rest o (hsubset ho)
    · rw [htransfers] at htask ⊢
      by_cases hd : d = e
      · subst hd
        rw [update_self] at htask
        change watcher = .waiting at htask
        rw [htask] at hseen
        cases hseen
      · rw [update_of_ne hd] at htask ⊢
        exact h.acked d htask
  · have hlt : e < s.transferCount := h.agrees.lt_transferCount harmed
    unfold effort
    rw [hsends, hcount, htransfers]
    refine Nat.add_lt_add_left (sum_lt_sum (fun d _ => ?_)
      ⟨e, mem_range.mpr hlt, by rw [update_self]; exact hwork⟩) _
    by_cases hd : d = e
    · subst hd
      rw [update_self]
      exact hwork.le
    · rw [update_of_ne hd]

/-- What a successful put needs and does. -/
theorem put_succeeds (hphase : (s.sends i).phase = .putting held remaining) :
    Omni.Comm.step stageName s (.put i .succeeds) = some t ↔
      0 < s.credits ∧
        t = if remaining ≤ 1 then announce (putAsync s) i (held ++ [s.opCount])
          else (putAsync s).setSend i (.putting (held ++ [s.opCount]) (remaining - 1)) := by
  simp only [Omni.Comm.step, hphase, Omni.Comm.put, ite_none_right_eq_some, Option.some.injEq]
  exact and_congr_right fun _ => eq_comm

/-- After the last put the send is no longer putting. -/
theorem returned_announce (s : State D L) (i : ℕ) (held : List ℕ) :
    Returned i (announce s i held) := by
  intro held' remaining
  unfold announce
  split
  · simp [failSend, endSend]
  · simp

/-- A put that is not the last takes one more credit. -/
theorem Putting.put (h : Putting s A i n S)
    (hstep : Omni.Comm.step stageName s (.put i .succeeds) = some t) (hmore : ¬Returned i t) :
    (∃ B : Account c, Putting t B i n S) ∧ effort i t < effort i s := by
  obtain ⟨held, remaining, hphase, hputs⟩ := h.phase
  obtain ⟨hcredit, hafter⟩ := (put_succeeds hphase).mp hstep
  have hlast : ¬remaining ≤ 1 := by
    intro hlast
    rw [if_pos hlast] at hafter
    exact hmore (hafter ▸ returned_announce _ _ _)
  rw [if_neg hlast] at hafter
  subst hafter
  have hnone := h.agrees.owner_opCount
  have hfree : 0 < A.pool.free := h.agrees.credits ▸ hcredit
  have hout : s.opCount ∉ A.pool.out := fun ho => absurd ((h.agrees.out _).mp ho).1 (lt_irrefl _)
  have hback : s.opCount ∉ A.pool.back :=
    fun ho => absurd ((h.agrees.back _).mp ho).1 (lt_irrefl _)
  have hacquired : (A.acquire i s.opCount).pool.out = insert s.opCount A.pool.out :=
    Pool.acquire_out hfree hout hback
  have howner : ∀ {o}, o ∈ A.pool.out → (A.acquire i s.opCount).owner o = A.owner o := by
    intro o ho
    have hne : o ≠ s.opCount := fun heq => hout (heq ▸ ho)
    simp [Account.acquire, hne]
  have hunannounced : ∀ {o}, o ∈ A.pool.out →
      unannounced ((Omni.Comm.putAsync s).setSend i (.putting (held ++ [s.opCount])
        (remaining - 1))) (A.acquire i s.opCount) o = unannounced s A o := by
    intro o ho
    unfold unannounced
    rw [howner ho]
    rfl
  constructor
  · refine ⟨A.acquire i s.opCount, h.agrees.putAsync hphase hcredit (by omega),
      ⟨_, _, setSend_self .., ?_⟩, fun o ho => ?_, fun o ho => ?_, h.acked⟩
    · rw [List.length_append, List.length_singleton]
      omega
    · obtain ⟨hout', hsend, hstuck⟩ := h.stuck o ho
      rw [hunannounced hout', howner hout', hacquired]
      exact ⟨mem_insert_of_mem hout', hsend, hstuck⟩
    · rw [hacquired, mem_insert] at ho
      rcases ho with rfl | ho
      · exact Or.inr (Or.inl (by simp [Account.acquire]))
      · rw [hunannounced ho, howner ho]
        exact h.rest o ho
  · unfold effort
    rw [setSend_self, hphase]
    exact Nat.add_lt_add_right (show remaining - 1 < remaining by omega) _

/-- Only puts of the send and watchers go on. -/
theorem alone_eq_some {a : Action} (hstep : alone stageName i s a = some t) :
    step stageName s (.put i .succeeds) = some t ∨ ∃ e, step stageName s (.watch e) = some t := by
  unfold alone at hstep
  split at hstep
  · split at hstep
    · exact Or.inl hstep
    · cases hstep
  · exact Or.inr ⟨_, hstep⟩
  · cases hstep

/-- Each of these steps ends the puts or brings their end nearer. -/
theorem Putting.alone (h : Putting s A i n S) {a : Action} (hstep : alone stageName i s a = some t)
    (hmore : ¬Returned i t) : (∃ B : Account c, Putting t B i n S) ∧ effort i t < effort i s := by
  rcases alone_eq_some hstep with hput | ⟨e, hwatch⟩
  · exact h.put hput hmore
  · exact h.watch hwatch

/-- The send gets through if its credits fit. -/
theorem Putting.inevitable (h : Putting s A i n S) (hfits : n + S.card ≤ c) :
    Inevitable (Omni.Comm.alone stageName i) (Returned i) s := by
  refine inevitable_of_measure (I := fun s => ∃ A : Account c, Putting s A i n S) (effort i)
    (fun u hu hmore => ?_) (fun u a t hu _ hstep => ?_) ⟨A, h⟩
  · obtain ⟨B, hB⟩ := hu
    obtain ⟨held, remaining, hphase, hputs⟩ := hB.phase
    have hpos : 0 < remaining := by
      have hsend := hB.agrees.sends i
      rw [SendAgrees, hphase] at hsend
      exact hsend.1
    rcases Nat.eq_zero_or_pos u.credits with hnone | hcredit
    · obtain ⟨t, e, hstep⟩ : ∃ t e, Omni.Comm.step stageName u (.watch e) = some t :=
        hB.coming_back hphase hnone (by omega)
      exact ⟨.watch e, t, hstep⟩
    · obtain ⟨t, hput⟩ : ∃ t, Omni.Comm.step stageName u (.put i .succeeds) = some t :=
        ⟨_, (put_succeeds hphase).mpr ⟨hcredit, rfl⟩⟩
      exact ⟨.put i .succeeds, t, by rw [Omni.Comm.alone, if_pos rfl, hput]⟩
  · obtain ⟨B, hB⟩ := hu
    by_cases hdone : Returned i t
    · exact Or.inl hdone
    · exact Or.inr (hB.alone hstep hdone)

/-- It never does if they do not fit. -/
theorem Putting.not_inevitable (h : Putting s A i n S) (hmany : c < n + S.card) :
    ¬Inevitable (Omni.Comm.alone stageName i) (Returned i) s := by
  have hputting : ∀ (u : State D L) (B : Account c), Putting u B i n S → ¬Returned i u := by
    intro u B hB hdone
    obtain ⟨held, remaining, hphase, _⟩ := hB.phase
    exact hdone held remaining hphase
  refine not_inevitable_of_invariant (I := fun s => ∃ A : Account c, Putting s A i n S)
    (fun u ⟨B, hB⟩ => hputting u B hB) (fun u a t ⟨B, hB⟩ hstep => ?_) ⟨A, h⟩
  suffices hmore : ¬Returned i t from (hB.alone hstep hmore).1
  obtain ⟨held, remaining, hphase, hputs⟩ := hB.phase
  rcases alone_eq_some hstep with hput | ⟨e, hwatch⟩
  · obtain ⟨hcredit, hafter⟩ := (put_succeeds hphase).mp hput
    have hle := hB.card_le hphase
    have hlast : ¬remaining ≤ 1 := by omega
    rw [if_neg hlast] at hafter
    subst hafter
    exact fun hdone => hdone _ _ (setSend_self ..)
  · have hsends := watch_sends hwatch
    exact fun hdone => hdone held remaining (by rw [hsends, hphase])

/-- At the beginning of a stream send, once every announced transfer has been
acknowledged: without any send registering operations in the meantime, the puts of the
send all return exactly if there are credits for the chunk and for each tensor of its
metadata next to those that are stuck. -/
theorem stream_send_returns {jobs : ℕ → SendJob D L} {as : List Action}
    {p : State D L × Account c}
    (hrun : Run (watched stageName) anyAction (State.init c jobs, Account.empty c) as p)
    {i chunkId : ℕ} {requestId fromStage targetStage : String} {data : Tensor D}
    {metadata : Option (Tree D L)}
    (hjob : (p.1.sends i).job = .stream requestId fromStage targetStage chunkId data metadata)
    (hphase : (p.1.sends i).phase = .putting [] (p.1.sends i).job.puts)
    (hacked : Acknowledged p.1) :
    Inevitable (alone stageName i) (Returned i) p.1 ↔
      1 + (metadataTensors metadata).length + (stuck p.1 p.2).card ≤ c := by
  have hputs : (p.1.sends i).job.puts = 1 + (metadataTensors metadata).length := by
    rw [hjob]
    rfl
  rw [hputs] at hphase
  have hputting := putting_of_start (accounts_of_run hrun) hphase hacked
  constructor
  · intro hreturns
    by_contra hmany
    exact hputting.not_inevitable (not_le.mp hmany) hreturns
  · exact hputting.inevitable

/-- A chunk whose metadata holds the given number of tensors, in one list. -/
def tensorsJob (k : ℕ) : SendJob Unit Unit :=
  .stream "r" "thinker" "talker" 0 ⟨[4], "torch.float32", "cpu", ()⟩
    (some (.dict [("layers",
      .list (List.replicate k (.tensor ⟨[8], "torch.float32", "cpu", ()⟩)))]))

/-- With two credits a chunk with one tensor gets through. -/
theorem stream_send_returns_one : ∃ p : State Unit Unit × Account 2,
    Run (watched "thinker") anyAction (State.init 2 fun _ => tensorsJob 1, Account.empty 2)
      [.start 0] p ∧ Inevitable (alone "thinker" 0) (Returned 0) p.1 := by
  have hrun := run_of_isSome (watched "thinker")
    (State.init 2 fun _ => tensorsJob 1, Account.empty 2) [.start 0]
    (by decide +kernel)
  refine ⟨_, hrun, (stream_send_returns hrun (by rfl) (by rfl) ?_).mpr (by decide +kernel)⟩
  exact nofun

/-- With two credits a chunk with two tensors blocks on itself: all credits are free
when it starts, and its last put never finds one. -/
theorem two_tensors_block : ∃ p : State Unit Unit × Account 2,
    Run (watched "thinker") anyAction (State.init 2 fun _ => tensorsJob 2, Account.empty 2)
      [.start 0] p ∧ p.1.credits = 2 ∧ ¬Inevitable (alone "thinker" 0) (Returned 0) p.1 := by
  have hrun := run_of_isSome (watched "thinker")
    (State.init 2 fun _ => tensorsJob 2, Account.empty 2) [.start 0]
    (by decide +kernel)
  refine ⟨_, hrun, by decide +kernel, ?_⟩
  have hputting := putting_of_start (accounts_of_run hrun) (i := 0) (n := 3) (by rfl) nofun
  exact hputting.not_inevitable (by decide +kernel)

end Omni.Comm
