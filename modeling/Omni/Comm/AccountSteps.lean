import Omni.Comm.Account

/-!
# Sends keep the account

One lemma for each way in which a send changes who is responsible for an operation:
a put takes a credit, and the send registers its operations or drops them. Changes of
a pending transfer leave the account alone.
-/

namespace Omni.Comm

open Function

variable {D L : Type} {c : ℕ}

section Access

variable (s : State D L) (i j e d : ℕ) (phase : SendPhase) (f : PendingTransfer → PendingTransfer)
  (ready : Except Failure String) (objectId : String) (exc : Failure)

@[simp] theorem setSend_self : ((s.setSend i phase).sends i).phase = phase := by
  simp [State.setSend]

@[simp] theorem updateTransfer_self :
    (s.updateTransfer e f).transfers e = f (s.transfers e) := by
  simp [State.updateTransfer]

theorem updateTransfer_ne (hne : d ≠ e) :
    (s.updateTransfer e f).transfers d = s.transfers d := by
  simp [State.updateTransfer, hne]

/-- Only the last phase that a send is given counts. -/
theorem endSend_setSend : endSend (s.setSend i phase) i ready = endSend s i ready := by
  simp [endSend, State.setSend]

theorem failPending_setSend :
    failPending (s.setSend i phase) objectId exc =
    (failPending s objectId exc).setSend i phase := by
  have hsame : (s.setSend i phase).pending = s.pending := rfl
  unfold failPending
  rw [hsame]
  cases s.pending objectId <;> rfl

end Access

section Pass

variable (A : Account c) {a b d : Owner} (o : ℕ)

/-- What belonged to the first owner belongs to the second. -/
theorem pass_eq_some_iff :
    (A.pass a b).owner o = some d ↔
      (A.owner o = some a ∧ b = d) ∨ (A.owner o ≠ some a ∧ A.owner o = some d) := by
  by_cases ha : A.owner o = some a <;> simp [Account.pass, ha]

theorem pass_ne_none : (A.pass a b).owner o ≠ none ↔ A.owner o ≠ none := by
  by_cases ha : A.owner o = some a <;> simp [Account.pass, ha]

/-- The operations of any third owner stay with it. -/
theorem pass_eq_some_of_ne (ha : d ≠ a) (hb : d ≠ b) :
    (A.pass a b).owner o = some d ↔ A.owner o = some d := by
  rw [pass_eq_some_iff]
  constructor
  · rintro (⟨_, hbd⟩ | ⟨_, hd⟩)
    · exact absurd hbd.symm hb
    · exact hd
  · intro hd
    refine Or.inr ⟨fun ha' => ha ?_, hd⟩
    exact Option.some.inj (hd.symm.trans ha')

/-- The first owner has nothing left. -/
theorem pass_ne_self (hne : a ≠ b) : (A.pass a b).owner o ≠ some a := by
  rw [Ne, pass_eq_some_iff]
  rintro (⟨_, hba⟩ | ⟨hna, ha⟩)
  · exact hne hba.symm
  · exact hna ha

end Pass

variable {s : State D L}

/-- Before the acknowledgement has been seen the operations are as they were made. -/
theorem taskAgrees_iff_new {e : ℕ} (hearly : (s.transfers e).task.early = true) :
    TaskAgrees s e ↔ ∀ o ∈ (s.transfers e).ops, s.ops o = .new := by
  unfold TaskAgrees
  cases htask : (s.transfers e).task <;> simp_all [Watcher.early]

/-- What a task says about its operations does not depend on any other operation. -/
theorem TaskAgrees.congr {t : State D L} {e : ℕ} (h : TaskAgrees s e)
    (htransfer : t.transfers e = s.transfers e)
    (hops : ∀ o ∈ (s.transfers e).ops, t.ops o = s.ops o) : TaskAgrees t e := by
  unfold TaskAgrees at h ⊢
  rw [htransfer]
  cases htask : (s.transfers e).task <;> simp only [htask] at h ⊢ <;>
    exact fun o ho => by rw [hops o ho]; exact h o ho

variable {A : Account c} {f : PendingTransfer → PendingTransfer}

/-- Changing a transfer that keeps its operations and does not end. -/
theorem Accounts.updateTransfer (h : Accounts s A) (e : ℕ)
    (hobject : (f (s.transfers e)).objectId = (s.transfers e).objectId)
    (hops : (f (s.transfers e)).ops = (s.transfers e).ops)
    (hend : ∀ failure, (f (s.transfers e)).task = .ended failure ↔
      (s.transfers e).task = .ended failure) (htask : TaskAgrees (s.updateTransfer e f) e)
    (hrest : RestAgrees (s.updateTransfer e f) e)
    (hack : (f (s.transfers e)).task.early = false → (f (s.transfers e)).ack.done = true)
    (hused : s.transferCount ≤ e → (f (s.transfers e)).task = .unarmed) :
    Accounts (s.updateTransfer e f) A := by
  have hothers : ∀ {d}, d ≠ e → (s.updateTransfer e f).transfers d = s.transfers d :=
    fun hd => updateTransfer_ne _ _ _ _ hd
  have hsame : ∀ d, ((s.updateTransfer e f).transfers d).objectId = (s.transfers d).objectId ∧
      ((s.updateTransfer e f).transfers d).ops = (s.transfers d).ops := by
    intro d
    by_cases hd : d = e
    · subst hd
      simp [hobject, hops]
    · simp [hothers hd]
  have hended : ∀ d failure, ((s.updateTransfer e f).transfers d).task = .ended failure ↔
      (s.transfers d).task = .ended failure := by
    intro d failure
    by_cases hd : d = e
    · subst hd
      rw [updateTransfer_self, hend]
    · rw [hothers hd]
  exact { h with
    transfers := fun d o => by
      rw [(hsame d).2]
      exact h.transfers d o
    tasks := fun d => by
      by_cases hd : d = e
      · exact hd ▸ htask
      · exact (h.tasks d).congr (hothers hd) fun _ _ => rfl
    rests := fun d => by
      by_cases hd : d = e
      · exact hd ▸ hrest
      · unfold RestAgrees
        rw [hothers hd]
        exact h.rests d
    acked := fun d hd' => by
      by_cases hd : d = e
      · subst hd
        rw [updateTransfer_self] at hd' ⊢
        exact hack hd'
      · rw [hothers hd] at hd' ⊢
        exact h.acked d hd'
    unused := fun d hd' => by
      refine ⟨(hsame d).2.trans (h.unused d hd').1, ?_⟩
      by_cases hd : d = e
      · subst hd
        rw [updateTransfer_self]
        exact hused hd'
      · rw [hothers hd]
        exact (h.unused d hd').2
    pending := fun {objectId d} hd => by
      obtain ⟨hlt, hid, hopen⟩ := h.pending hd
      exact ⟨hlt, (hsame d).1.trans hid, fun failure hend => hopen failure ((hended d _).mp hend)⟩
    unended := fun {d} hlt hopen => by
      rw [(hsame d).1]
      exact h.unended hlt fun failure hend => hopen failure ((hended d _).mpr hend) }

/-- Changing the future of a transfer, and its task only while that has not seen the
acknowledgement. -/
theorem Accounts.updateAck (h : Accounts s A) (e : ℕ)
    (hobject : (f (s.transfers e)).objectId = (s.transfers e).objectId)
    (hops : (f (s.transfers e)).ops = (s.transfers e).ops)
    (htask : (f (s.transfers e)).task = (s.transfers e).task ∨
      ((s.transfers e).task.early = true ∧ (f (s.transfers e)).task.early = true))
    (hack : (s.transfers e).ack.done = true → (f (s.transfers e)).ack.done = true)
    (hused : s.transferCount ≤ e → (f (s.transfers e)).task = .unarmed) :
    Accounts (s.updateTransfer e f) A := by
  rcases htask with hsame | ⟨hbefore, hafter⟩
  · refine h.updateTransfer e hobject hops (fun _ => by rw [hsame]) ?_ ?_
      (fun hseen => hack (h.acked e (hsame ▸ hseen))) hused
    · have hold := h.tasks e
      unfold TaskAgrees at hold ⊢
      rw [updateTransfer_self, hops, hsame]
      exact hold
    · unfold RestAgrees
      rw [updateTransfer_self, hops, hsame]
      exact h.rests e
  · refine h.updateTransfer e hobject hops (fun failure => ?_) ?_ (fun rest failure hrest => ?_)
      (by simp [hafter]) hused
    · constructor <;> intro hend <;> simp [hend, Watcher.early] at hbefore hafter
    · have hold := (taskAgrees_iff_new hbefore).mp (h.tasks e)
      refine (taskAgrees_iff_new (by rwa [updateTransfer_self])).mpr fun o ho => ?_
      rw [updateTransfer_self, hops] at ho
      exact hold o ho
    · rw [updateTransfer_self] at hrest
      simp [hrest, Watcher.early] at hafter

theorem Accounts.failPending (h : Accounts s A) (objectId : String) (exc : Failure) :
    Accounts (failPending s objectId exc) A := by
  unfold Omni.Comm.failPending
  split
  · exact h
  next e hpending =>
    refine h.updateAck e rfl rfl ?_ (fun hdone => by simp [hdone]) fun hunused => ?_
    · by_cases htask : (s.transfers e).task = .unarmed
      · exact Or.inr (by simp [htask, Watcher.early])
      · exact Or.inl (by simp [htask])
    · have hlt := (h.pending hpending).1
      omega

/-- So does an acknowledgement. -/
theorem Accounts.ackTransfer {t : State D L} (h : Accounts s A) {stageName : String}
    {msg : DataAckMessage} (hok : ackTransfer stageName s msg = .ok t) :
    Accounts t A := by
  unfold Omni.Comm.ackTransfer at hok
  split at hok
  · cases hok
  · split at hok
    · exact Except.ok.inj hok ▸ h
    next e hpending =>
      have hused : s.transferCount ≤ e → (s.transfers e).task = .unarmed :=
        fun hunused => (h.unused e hunused).2
      split at hok
      · rw [← Except.ok.inj hok]
        exact h.updateAck e rfl rfl (Or.inl rfl) (fun hdone => by simp [hdone]) hused
      · split at hok
        · cases hok
        · rw [← Except.ok.inj hok]
          exact h.updateAck e rfl rfl (Or.inl rfl) (fun hdone => by simp [hdone]) hused

variable {i : ℕ}

/-- A send that is not putting moves on without operations in hand. -/
theorem Accounts.endSend (h : Accounts s A) (ready : Except Failure String)
    (hnone : ∀ o, A.owner o ≠ some (.send i)) :
    Accounts (endSend s i ready) A := { h with
  sends j := by
    by_cases hj : j = i
    · subst hj
      simpa [SendAgrees, Omni.Comm.endSend] using hnone
    · have hold := h.sends j
      unfold SendAgrees at hold ⊢
      simpa only [Omni.Comm.endSend, setSend_ne _ _ hj] using hold }

/-- A send that has just been taken from its queue has no operations. -/
theorem Accounts.startSend (h : Accounts s A) (hnone : ∀ o, A.owner o ≠ some (.send i)) :
    Accounts (startSend s i) A := { h with
  sends j := by
    by_cases hj : j = i
    · subst hj
      have hpos := (s.sends j).job.puts_pos
      simpa [SendAgrees, Omni.Comm.startSend, hpos] using hnone
    · have hold := h.sends j
      unfold SendAgrees at hold ⊢
      simpa only [Omni.Comm.startSend, setSend_ne _ _ hj] using hold }

/-- A send that raises leaves its operations to nobody. -/
theorem Accounts.dropSend (h : Accounts s A) (i : ℕ) (ready : Except Failure String) :
    Accounts (Omni.Comm.endSend s i ready) (A.pass (.send i) .nobody) := { h with
  owned o := by
    rw [pass_ne_none]
    exact h.owned o
  sends j := by
    by_cases hj : j = i
    · subst hj
      have hnone := fun o => pass_ne_self A o (a := .send j) (b := .nobody) (by simp)
      simpa [SendAgrees, Omni.Comm.endSend] using hnone
    · have hold := h.sends j
      have hpass := fun o => pass_eq_some_of_ne A o (a := .send i) (b := .nobody)
        (d := .send j) (by simpa using hj) (by simp)
      unfold SendAgrees at hold ⊢
      simpa only [Omni.Comm.endSend, setSend_ne _ _ hj, hpass, ne_eq] using hold
  transfers e o := by
    rw [pass_eq_some_of_ne A o (by simp) (by simp)]
    exact h.transfers e o
  sending {o j} hj := by
    rcases (pass_eq_some_iff A o).mp hj with ⟨_, hbad⟩ | ⟨_, hsend⟩
    · simp at hbad
    · exact h.sending hsend
  nobody {o} ho := by
    rcases (pass_eq_some_iff A o).mp ho with ⟨hsend, _⟩ | ⟨_, hnobody⟩
    · have hnew : s.ops o = .new := h.sending hsend
      simp [Omni.Comm.endSend, State.setSend, hnew, PutOperation.new]
    · exact h.nobody hnobody }

/-- The next operation has no owner yet. -/
theorem Accounts.owner_opCount (h : Accounts s A) :
    A.owner s.opCount = none := by
  by_contra hne
  exact absurd ((h.owned _).mp hne) (lt_irrefl _)

variable {held : List ℕ}

theorem Accounts.putAsync (h : Accounts s A) {remaining : ℕ}
    (hphase : (s.sends i).phase = .putting held remaining) (hcredit : 0 < s.credits) {left : ℕ}
    (hleft : 0 < left) :
    Accounts ((putAsync s).setSend i (.putting (held ++ [s.opCount]) left))
      (A.acquire i s.opCount) := by
  have hout : s.opCount ∉ A.pool.out := fun ho => absurd ((h.out _).mp ho).1 (lt_irrefl _)
  have hback : s.opCount ∉ A.pool.back := fun ho => absurd ((h.back _).mp ho).1 (lt_irrefl _)
  have hfree : 0 < A.pool.free := h.credits ▸ hcredit
  have hnone := h.owner_opCount
  have hhere : (A.acquire i s.opCount).owner s.opCount = some (.send i) := by
    simp [Account.acquire]
  have hother : ∀ {o}, o ≠ s.opCount → (A.acquire i s.opCount).owner o = A.owner o := by
    intro o ho
    simp [Account.acquire, ho]
  have hops : ∀ {o}, o ≠ s.opCount → (Omni.Comm.putAsync s).ops o = s.ops o := by
    intro o ho
    simp [Omni.Comm.putAsync, ho]
  have hnew : (Omni.Comm.putAsync s).ops s.opCount = .new := by
    simp [Omni.Comm.putAsync]
  have hfresh : ∀ e, s.opCount ∉ (s.transfers e).ops := by
    intro e he
    rw [h.transfers e, hnone] at he
    simp at he
  exact { h with
    credits := by
      change s.credits - 1 = (A.pool.acquire s.opCount).free
      rw [Pool.acquire_free hfree hout hback, h.credits]
    out := fun o => by
      change o ∈ (A.pool.acquire s.opCount).out ↔
        o < s.opCount + 1 ∧ ((Omni.Comm.putAsync s).ops o).completed = false
      rw [Pool.acquire_out hfree hout hback, Finset.mem_insert, h.out]
      by_cases ho : o = s.opCount
      · subst ho
        simp [hnew, PutOperation.new]
      · rw [hops ho]
        have hlt : o < s.opCount + 1 ↔ o < s.opCount := by omega
        simp [ho, hlt]
    back := fun o => by
      change o ∈ (A.pool.acquire s.opCount).back ↔
        o < s.opCount + 1 ∧ ((Omni.Comm.putAsync s).ops o).completed = true
      rw [Pool.acquire_back, h.back]
      by_cases ho : o = s.opCount
      · subst ho
        simp [hnew, PutOperation.new]
      · rw [hops ho]
        have hlt : o < s.opCount + 1 ↔ o < s.opCount := by omega
        simp [hlt]
    releases := fun o => by
      change A.releases o = if o ∈ (A.pool.acquire s.opCount).back then 1 else 0
      rw [Pool.acquire_back]
      exact h.releases o
    owned := fun o => by
      change _ ↔ o < s.opCount + 1
      by_cases ho : o = s.opCount
      · subst ho
        simp [hhere]
      · rw [hother ho, h.owned]
        omega
    sends := fun j => by
      by_cases hj : j = i
      · subst hj
        have hold := h.sends j
        rw [SendAgrees, hphase] at hold
        rw [SendAgrees, setSend_self]
        have hnotheld : s.opCount ∉ held := fun ho => by
          rw [hold.2.2, hnone] at ho
          simp at ho
        refine ⟨hleft, ?_, fun o => ?_⟩
        · exact List.nodup_append.mpr ⟨hold.2.1, by simp, by
            rintro o ho _ hmem rfl
            exact hnotheld (List.mem_singleton.mp hmem ▸ ho)⟩
        · by_cases ho : o = s.opCount
          · subst ho
            simp [hhere]
          · rw [hother ho]
            simp [ho, hold.2.2 o]
      · have hold := h.sends j
        have howner : ∀ o, (A.acquire i s.opCount).owner o = some (.send j) ↔
            A.owner o = some (.send j) := by
          intro o
          by_cases ho : o = s.opCount
          · subst ho
            simp [hhere, hnone, Ne.symm hj]
          · rw [hother ho]
        have hsends : (Omni.Comm.putAsync s).sends j = s.sends j := rfl
        unfold SendAgrees at hold ⊢
        simpa only [setSend_ne _ _ hj, hsends, howner, ne_eq] using hold
    transfers := fun e o => by
      change o ∈ (s.transfers e).ops ↔ _
      by_cases ho : o = s.opCount
      · subst ho
        simp [hhere, hfresh e]
      · rw [hother ho]
        exact h.transfers e o
    sending := fun {o j} howner => by
      by_cases ho : o = s.opCount
      · exact ho ▸ hnew
      · exact (hops ho).trans (h.sending (hother ho ▸ howner))
    nobody := fun {o} howner => by
      by_cases ho : o = s.opCount
      · rw [ho, hhere] at howner
        simp at howner
      · change ((Omni.Comm.putAsync s).ops o).completed = false
        rw [hops ho]
        exact h.nobody (hother ho ▸ howner)
    tasks := fun e => (h.tasks e).congr rfl fun o ho =>
      hops fun heq => hfresh e (heq ▸ ho)
}

theorem Accounts.register {t : State D L} (h : Accounts s A) {objectId : String}
    (hheld : ∀ o, o ∈ held ↔ A.owner o = some (.send i))
    (hok : registerPending s objectId held = .ok t) :
    Accounts (t.setSend i .announcing) (A.pass (.send i) (.transfer s.transferCount)) := by
  unfold registerPending at hok
  split at hok
  · cases hok
  next hpending =>
  obtain rfl := Except.ok.inj hok
  clear hok
  have hself : update s.transfers s.transferCount
      ⟨objectId, held, .waiting, .unarmed⟩ s.transferCount =
        ⟨objectId, held, .waiting, .unarmed⟩ := by simp
  have hother : ∀ {e}, e ≠ s.transferCount → update s.transfers s.transferCount
      ⟨objectId, held, .waiting, .unarmed⟩ e = s.transfers e := by
    intro e he
    simp [he]
  exact { h with
    owned := fun o => by
      rw [pass_ne_none]
      exact h.owned o
    sends := fun j => by
      by_cases hj : j = i
      · subst hj
        have hnone := fun o => pass_ne_self A o (a := .send j) (b := .transfer s.transferCount)
          (by simp)
        simpa [SendAgrees] using hnone
      · have hold := h.sends j
        have hpass := fun o => pass_eq_some_of_ne A o (a := .send i)
          (b := .transfer s.transferCount) (d := .send j) (by simpa using hj) (by simp)
        unfold SendAgrees at hold ⊢
        simpa only [setSend_ne _ _ hj, hpass, ne_eq] using hold
    transfers := fun e o => by
      change o ∈ (update s.transfers _ _ e).ops ↔ _
      by_cases he : e = s.transferCount
      · subst he
        have hunused : A.owner o ≠ some (.transfer s.transferCount) := by
          rw [Ne, ← h.transfers, (h.unused _ le_rfl).1]
          simp
        rw [hself, pass_eq_some_iff]
        simp [hheld o, hunused]
      · rw [hother he, pass_eq_some_of_ne A o (by simp) (by simpa using he)]
        exact h.transfers e o
    sending := fun {o j} howner => by
      rcases (pass_eq_some_iff A o).mp howner with ⟨_, hbad⟩ | ⟨_, hsend⟩
      · simp at hbad
      · exact h.sending hsend
    nobody := fun {o} howner =>
      h.nobody ((pass_eq_some_of_ne A o (by simp) (by simp)).mp howner)
    tasks := fun e => by
      by_cases he : e = s.transferCount
      · subst he
        refine (taskAgrees_iff_new ?_).mpr fun o ho => ?_
        · change (update s.transfers _ _ s.transferCount).task.early = true
          rw [hself]
          rfl
        · change o ∈ (update s.transfers _ _ s.transferCount).ops at ho
          rw [hself] at ho
          exact h.sending ((hheld o).mp ho)
      · exact (h.tasks e).congr (hother he) fun _ _ => rfl
    rests := fun e rest failure htask => by
      by_cases he : e = s.transferCount
      · subst he
        change (update s.transfers _ _ s.transferCount).task = _ at htask
        rw [hself] at htask
        simp at htask
      · exact (hother he ▸ h.rests e rest failure) htask
    acked := fun e he => by
      change (update s.transfers _ _ e).task.early = false at he
      change (update s.transfers _ _ e).ack.done = true
      by_cases hnew : e = s.transferCount
      · subst hnew
        rw [hself] at he
        simp [Watcher.early] at he
      · rw [hother hnew] at he ⊢
        exact h.acked e he
    unused := fun e he => by
      have hne : e ≠ s.transferCount := by
        change s.transferCount + 1 ≤ e at he
        omega
      have hold := h.unused e (by change s.transferCount + 1 ≤ e at he; omega)
      change (update s.transfers _ _ e).ops = [] ∧ (update s.transfers _ _ e).task = .unarmed
      rwa [hother hne]
    pending := fun {objectId' e} he => by
      change update s.pending objectId (some s.transferCount) objectId' = some e at he
      change e < s.transferCount + 1 ∧ (update s.transfers _ _ e).objectId = objectId' ∧
        ∀ failure, (update s.transfers _ _ e).task ≠ .ended failure
      by_cases hid : objectId' = objectId
      · subst hid
        obtain rfl : s.transferCount = e := by simpa using he
        rw [hself]
        exact ⟨by omega, rfl, by simp⟩
      · rw [update_of_ne hid] at he
        obtain ⟨hlt, hobject, hopen⟩ := h.pending he
        rw [hother (by omega)]
        exact ⟨by omega, hobject, hopen⟩
    unended := fun {e} hlt hopen => by
      change e < s.transferCount + 1 at hlt
      change ∀ failure, (update s.transfers _ _ e).task ≠ .ended failure at hopen
      change update s.pending objectId (some s.transferCount)
        (update s.transfers _ _ e).objectId = some e
      by_cases he : e = s.transferCount
      · subst he
        rw [hself]
        simp
      · rw [hother he] at hopen ⊢
        have hold := h.unended (by omega) hopen
        have hid : (s.transfers e).objectId ≠ objectId := by
          intro heq
          rw [heq, hpending] at hold
          simp at hold
        rw [update_of_ne hid, hold] }

end Omni.Comm
