import Omni.Relay.CudaIpc
import Omni.Relay.Sharing

/-!
# Slots of unfinished reads

The slots of a put are given back when its receiver has confirmed the read, and not
otherwise. A put that has timed out or failed keeps them, and the relay ends with it.
-/

namespace Omni.Relay

open Function CudaIpcRelay Option

/-- The slots that a put has and has not given back. -/
def Put.allocated (slotSize : ℕ) : Put → Option SlotRange
  | .acquiring _ numSlots (.done allocation) _ => some ⟨allocation.offset / slotSize, numSlots⟩
  | .operation op =>
    if op.status = .completed then none else some ⟨op.info.offset / slotSize, op.info.numSlots⟩
  | _ => none

/-- The task asks for the given number of slots, or has them. -/
def AcquireTask.Ok (numSlots slotSize : ℕ) : AcquireTask → Prop
  | .created call | .asleep call | .awake call => call.numSlots = numSlots
  | .done allocation => ∃ slotIndex, allocation.offset = slotIndex * slotSize

/-- What holds of each put, in a relay that has failed or has not. -/
def Put.Ok (slotSize : ℕ) (failed : Prop) : Put → Prop
  | .acquiring _ numSlots task failSeen =>
    0 < numSlots ∧ task.Ok numSlots slotSize ∧ (failSeen = true → failed)
  | .operation op => 0 < op.info.numSlots ∧
      (∃ slotIndex, op.info.offset = slotIndex * slotSize) ∧
      (op.status = .completed → op.receiverDone = .done) ∧
      ∀ error, op.status = .ended error → failed
  | _ => True

/-- The invariant of all runs. -/
structure CudaIpcRelay.Sound (s : CudaIpcRelay) : Prop where
  allocator : s.allocator.Sound
  new : ∀ k ≥ s.putCount, s.puts k = .notCalled
  puts : ∀ k, (s.puts k).Ok s.allocator.slotSize (s.failedError.isSome = true)
  holds : Holds s.allocator.free fun k => (s.puts k).allocated s.allocator.slotSize

variable {slotSize offset slotIndex : ℕ} {failed : Prop} {task : AcquireTask}
  {copyError : Option String} {a : RelayAction}

theorem CudaIpcRelay.sound_init {slotCount : ℕ} {allocator : SlotAllocator}
    (hnew : SlotAllocator.new slotCount slotSize = .ok allocator) :
    (init allocator).Sound where
  allocator := SlotAllocator.sound_new hnew
  new _ _ := rfl
  puts _ := trivial
  holds := ⟨(fun _ _ h => nomatch h), fun _ _ _ _ _ h => nomatch h⟩

@[simp] theorem Put.allocated_wake (slotSize : ℕ) (put : Put) :
    put.wake.allocated slotSize = put.allocated slotSize := by
  cases put with
  | acquiring size numSlots task failSeen => cases task <;> rfl
  | _ => rfl

variable {put : Put}

theorem Put.Ok.wake (h : put.Ok slotSize failed) :
    put.wake.Ok slotSize failed := by
  cases put with
  | acquiring size numSlots task failSeen =>
    refine ⟨h.1, ?_, h.2.2⟩
    cases task <;> exact h.2.1
  | _ => exact h

theorem Put.Ok.mono {failed' : Prop} (h : put.Ok slotSize failed) (himp : failed → failed') :
    put.Ok slotSize failed' := by
  cases put with
  | acquiring size numSlots task failSeen => exact ⟨h.1, h.2.1, fun hseen => himp (h.2.2 hseen)⟩
  | operation op => exact ⟨h.1, h.2.1, h.2.2.1, fun e he => himp (h.2.2.2 e he)⟩
  | _ => trivial

/-- What the puts own after one of them has changed. -/
theorem allocated_update (slotSize : ℕ) (puts : ℕ → Put) (k : ℕ) (put : Put) :
    (fun l => (update puts k put l).allocated slotSize) =
      update (fun l => (puts l).allocated slotSize) k (put.allocated slotSize) := by
  funext l
  by_cases hlk : l = k
  · subst hlk
    simp
  · simp [hlk]

variable {s : CudaIpcRelay} {k : ℕ}

theorem CudaIpcRelay.Sound.setPut (h : s.Sound) (hk : k < s.putCount)
    (hput : put.Ok s.allocator.slotSize (s.failedError.isSome = true))
    (hsame : put.allocated s.allocator.slotSize = (s.puts k).allocated s.allocator.slotSize ∨
      put.allocated s.allocator.slotSize = none) : (s.setPut k put).Sound where
  allocator := h.allocator
  new l hl := by
    have hne : l ≠ k := ne_of_gt (hk.trans_le hl)
    simpa [CudaIpcRelay.setPut, hne] using h.new l hl
  puts l := by
    by_cases hlk : l = k
    · subst hlk
      simpa [setPut] using hput
    · simpa [CudaIpcRelay.setPut, hlk] using h.puts l
  holds := by
    simp only [CudaIpcRelay.setPut, allocated_update]
    rcases hsame with hsame | hnone
    · have heq := update_eq_self k fun l => (s.puts l).allocated s.allocator.slotSize
      rw [hsame, heq]
      exact h.holds
    · rw [hnone]
      exact h.holds.drop k

/-- Recording a failure. -/
theorem CudaIpcRelay.Sound.markFailed (h : s.Sound) (error : TransferError) :
    (s.markFailed error).Sound := { h with
  puts l := (h.puts l).mono fun _ => by simp [CudaIpcRelay.markFailed] }

variable {numSlots : ℕ}

theorem SlotAllocator.Sound.release_taken {pool : SlotAllocator} (h : pool.Sound)
    (hpos : 0 < numSlots) (hoffset : offset = slotIndex * pool.slotSize)
    (htaken : Uniform pool.free false ⟨offset / pool.slotSize, numSlots⟩) :
    ∃ pool', pool.release offset numSlots = .ok pool' ∧
      pool'.free = setRange pool.free true ⟨offset / pool.slotSize, numSlots⟩ ∧
      pool'.slotSize = pool.slotSize := by
  have hrange := rangeAt_allocation pool offset numSlots
  rcases h.release_cases offset numSlots with ⟨hnot, _⟩ | ⟨_, heq⟩
  · refine absurd ⟨by omega, ?_, ?_, hrange ▸ htaken⟩ hnot
    · rw [hoffset]
      simp
    · exact Int.ediv_nonneg (Int.natCast_nonneg _) (Int.natCast_nonneg _)
  · exact ⟨_, heq, by rw [hrange], rfl⟩

/-- A put gives its slots back and has ended then. -/
theorem CudaIpcRelay.Sound.release (h : s.Sound) (hk : k < s.putCount) (hpos : 0 < numSlots)
    (hoffset : offset = slotIndex * s.allocator.slotSize)
    (hallocated : (s.puts k).allocated s.allocator.slotSize =
      some ⟨offset / s.allocator.slotSize, numSlots⟩)
    (hput : put.Ok s.allocator.slotSize (s.failedError.isSome = true))
    (hnone : put.allocated s.allocator.slotSize = none) :
    ((s.release offset numSlots).setPut k put).Sound := by
  obtain ⟨pool', hok, hfree, hsize⟩ :=
    h.allocator.release_taken hpos hoffset (h.holds.taken k _ hallocated)
  have hputs : ∀ l, (s.release offset numSlots).puts l = s.puts l ∨
      (s.release offset numSlots).puts l = (s.puts l).wake := by
    intro l
    simp only [CudaIpcRelay.release, hok]
    split
    · exact Or.inl rfl
    · exact Or.inr rfl
  have hallocated' : (fun l => ((s.release offset numSlots).puts l).allocated
      s.allocator.slotSize) = fun l => (s.puts l).allocated s.allocator.slotSize := by
    funext l
    rcases hputs l with hl | hl <;> simp [hl]
  have hrelease : (s.release offset numSlots).allocator = pool' ∧
      (s.release offset numSlots).putCount = s.putCount ∧
      (s.release offset numSlots).failedError = s.failedError := by
    simp [CudaIpcRelay.release, hok]
  obtain ⟨hpool, hcount, hfailed⟩ := hrelease
  refine ⟨?_, fun l hl => ?_, fun l => ?_, ?_⟩
  · simp only [CudaIpcRelay.setPut, hpool]
    exact h.allocator.release hok
  · simp only [CudaIpcRelay.setPut, hcount] at hl ⊢
    rw [update_of_ne (ne_of_gt (hk.trans_le hl))]
    rcases hputs l with heq | heq <;> rw [heq, h.new l hl]
    rfl
  · simp only [CudaIpcRelay.setPut, hpool, hsize, hfailed]
    by_cases hlk : l = k
    · subst hlk
      rwa [update_self]
    · rw [update_of_ne hlk]
      rcases hputs l with heq | heq <;> rw [heq]
      · exact h.puts l
      · exact (h.puts l).wake
  · simp only [CudaIpcRelay.setPut, hpool, hsize, hfree, allocated_update, hallocated', hnone]
    exact h.holds.giveBack hallocated

variable {size : ℕ} {failSeen : Bool}

theorem CudaIpcRelay.Sound.acquireRound (h : s.Sound) (hk : k < s.putCount) {call : AcquireCall}
    (hpos : 0 < numSlots) (hcall : call.numSlots = numSlots)
    (hfailed : failSeen = true → s.failedError.isSome = true)
    (hnone : (s.puts k).allocated s.allocator.slotSize = none) :
    (s.acquireRound k size numSlots call failSeen).Sound := by
  subst hcall
  have hsound := h.allocator.acquireRound hpos
  have hnew : ∀ put, ∀ l ≥ s.putCount, update s.puts k put l = .notCalled := by
    intro put l hl
    rw [update_of_ne (ne_of_gt (hk.trans_le hl))]
    exact h.new l hl
  have hputs : ∀ put : Put, put.Ok s.allocator.slotSize (s.failedError.isSome = true) →
      ∀ l, (update s.puts k put l).Ok s.allocator.slotSize (s.failedError.isSome = true) := by
    intro put hput l
    by_cases hlk : l = k
    · subst hlk
      rwa [update_self]
    · rw [update_of_ne hlk]
      exact h.puts l
  rcases s.allocator.acquireRound_cases hpos with
    ⟨slotIndex, allocation, hfit, hoffset, hresult, heq⟩ | ⟨call', _, hsame, hresult, heq⟩
  · have hrange : (Put.acquiring size call.numSlots (.done allocation) failSeen).allocated
        s.allocator.slotSize = some ⟨slotIndex, call.numSlots⟩ := by
      simp [Put.allocated, hoffset, h.allocator.slotSize_pos]
    simp only [acquireRound, hresult]
    rw [heq] at hsound ⊢
    refine ⟨hsound, hnew _, hputs _ ⟨hpos, ⟨slotIndex, hoffset⟩, hfailed⟩, ?_⟩
    simp only [allocated_update, hrange]
    exact h.holds.take hfit.1 hnone
  · simp only [acquireRound, hresult]
    rw [heq] at hsound ⊢
    refine ⟨hsound, hnew _, hputs _ ⟨hpos, hsame, hfailed⟩, ?_⟩
    simp only [allocated_update]
    have hsleep : (Put.acquiring size call.numSlots (.asleep call') failSeen).allocated
        s.allocator.slotSize = none := rfl
    rw [hsleep]
    exact h.holds.drop k

theorem CudaIpcRelay.Sound.lt_putCount (h : s.Sound) (hput : s.puts k = put)
    (hcalled : put ≠ .notCalled) : k < s.putCount := by
  by_contra hge
  exact hcalled (hput.symm.trans (h.new k (not_lt.mp hge)))

theorem CudaIpcRelay.beginPut_ok (s : CudaIpcRelay) (request : PutRequest) :
    (s.beginPut request).Ok s.allocator.slotSize (s.failedError.isSome = true) ∧
      (s.beginPut request).allocated s.allocator.slotSize = none := by
  unfold beginPut
  split
  · exact ⟨trivial, rfl⟩
  · split
    · exact ⟨trivial, rfl⟩
    · split
      · exact ⟨trivial, rfl⟩
      · dsimp only
        split
        · exact ⟨trivial, rfl⟩
        · split
          · exact ⟨trivial, rfl⟩
          next call hbegin =>
            have hslots : call.numSlots = slotsForSize request.size s.allocator.slotSize := by
              unfold SlotAllocator.beginAcquire at hbegin
              split at hbegin
              · cases hbegin
              · split at hbegin
                · cases hbegin
                · cases hbegin
                  simp
            exact ⟨⟨lt_of_lt_of_le Nat.zero_lt_one (le_max_left 1 _), hslots, by simp⟩, rfl⟩

variable {t : CudaIpcRelay}

theorem CudaIpcRelay.Sound.resumePut (h : s.Sound)
    (hput : s.puts k = .acquiring size numSlots task failSeen)
    (hstep : s.resumePut k size numSlots task failSeen copyError = some t) : t.Sound := by
  have hk := h.lt_putCount hput (by simp)
  have hok := h.puts k
  rw [hput] at hok
  obtain ⟨hpos, htask, _⟩ := hok
  cases task with
  | done allocation =>
    obtain ⟨slotIndex, hoffset⟩ := htask
    have hallocated : (s.puts k).allocated s.allocator.slotSize =
        some ⟨allocation.offset / s.allocator.slotSize, numSlots⟩ := by
      rw [hput]
      rfl
    simp only [CudaIpcRelay.resumePut] at hstep
    cases hstep
    split
    · exact h.release hk hpos hoffset hallocated trivial rfl
    · split
      · exact h.release hk hpos hoffset hallocated trivial rfl
      · refine h.setPut hk ⟨hpos, ⟨slotIndex, hoffset⟩, ?_, ?_⟩ (Or.inl hallocated.symm)
        · simp [newOperation]
        · simp [newOperation]
  | _ =>
    simp only [CudaIpcRelay.resumePut] at hstep
    split at hstep
    · rw [← some.inj hstep]
      exact h.setPut hk trivial (Or.inr rfl)
    · cases hstep

variable {op : PutOperation}

/-- An operation changes and keeps its slots. -/
theorem CudaIpcRelay.Sound.setOperation (h : s.Sound) (hput : s.puts k = .operation op)
    (op' : PutOperation) (hinfo : op'.info = op.info) (hbefore : op.status ≠ .completed)
    (hafter : op'.status ≠ .completed)
    (hfailed : ∀ error, op'.status = .ended error → s.failedError.isSome = true) :
    (s.setPut k (.operation op')).Sound := by
  have hok := h.puts k
  rw [hput] at hok
  refine h.setPut (h.lt_putCount hput (by simp)) ⟨hinfo ▸ hok.1, hinfo ▸ hok.2.1, ?_, hfailed⟩
    (Or.inl ?_)
  · exact fun hcompleted => absurd hcompleted hafter
  · rw [hput]
    simp [Put.allocated, hbefore, hafter, hinfo]

/-- Hearing of the receiver leaves the status of an operation as it is. -/
theorem CudaIpcRelay.Sound.setReceiver (h : s.Sound) (hput : s.puts k = .operation op)
    (hpending : op.receiverDone = .pending) (receiverDone : ReceiverDone) :
    (s.setPut k (.operation { op with receiverDone := receiverDone })).Sound := by
  have hok := h.puts k
  rw [hput] at hok
  have hbefore : op.status ≠ .completed := fun hcompleted => by
    have hdone := hok.2.2.1 hcompleted
    rw [hpending] at hdone
    cases hdone
  exact h.setOperation hput { op with receiverDone := receiverDone } rfl hbefore hbefore hok.2.2.2

theorem CudaIpcRelay.Sound.endOperation (h : s.Sound) (hput : s.puts k = .operation op)
    (op' : PutOperation) (hinfo : op'.info = op.info) (hbefore : op.status = .waiting)
    {error : TransferError} (hafter : op'.status = .ended error) :
    ((s.setPut k (.operation op')).markFailed error).Sound := by
  have hmarked := (h.markFailed error).setOperation hput op' hinfo
    (by simp [hbefore]) (by simp [hafter]) (by simp [CudaIpcRelay.markFailed])
  exact hmarked

/-- Every step keeps the invariant. -/
theorem CudaIpcRelay.Sound.step (h : s.Sound) (hstep : s.step a = some t) :
    t.Sound := by
  cases a with
  | put request =>
    rw [← some.inj hstep]
    have hnext : Sound { s with putCount := s.putCount + 1 } :=
      { h with new := fun l hl => h.new l (Nat.le_of_succ_le hl) }
    obtain ⟨hok, hnone⟩ := s.beginPut_ok request
    exact hnext.setPut (Nat.lt_succ_self s.putCount) hok (Or.inr hnone)
  | acquire k =>
    simp only [CudaIpcRelay.step] at hstep
    split at hstep
    next hput =>
      have hok := h.puts k
      rw [hput] at hok
      rw [← some.inj hstep]
      exact h.acquireRound (h.lt_putCount hput (by simp)) hok.1 hok.2.1 hok.2.2
        (by simp [hput, Put.allocated])
    next hput =>
      have hok := h.puts k
      rw [hput] at hok
      rw [← some.inj hstep]
      exact h.acquireRound (h.lt_putCount hput (by simp)) hok.1 hok.2.1 hok.2.2
        (by simp [hput, Put.allocated])
    · cases hstep
  | seeFailure k =>
    simp only [CudaIpcRelay.step] at hstep
    split at hstep
    next task _ hput hfailed =>
      have hok := h.puts k
      rw [hput] at hok
      rw [← some.inj hstep]
      refine h.setPut (h.lt_putCount hput (by simp)) ⟨hok.1, hok.2.1, by simp [hfailed]⟩ (Or.inl ?_)
      rw [hput]
      cases task <;> rfl
    · cases hstep
  | resumePut k copyError =>
    simp only [CudaIpcRelay.step] at hstep
    split at hstep
    next hput => exact h.resumePut hput hstep
    · cases hstep
  | cancelPut k =>
    simp only [CudaIpcRelay.step] at hstep
    split at hstep
    next hput =>
      rw [← some.inj hstep]
      exact h.setPut (h.lt_putCount hput (by simp)) trivial (Or.inr rfl)
    · cases hstep
  | receiverDone k =>
    simp only [CudaIpcRelay.step] at hstep
    split at hstep
    next op hput =>
      rw [← some.inj hstep]
      split
      next hpending => exact h.setReceiver hput hpending .done
      · exact h
    · cases hstep
  | receiverFailed k message =>
    simp only [CudaIpcRelay.step] at hstep
    split at hstep
    next op hput =>
      rw [← some.inj hstep]
      split
      next hpending => exact h.setReceiver hput hpending (.failed message)
      · exact h
    · cases hstep
  | wait k =>
    simp only [CudaIpcRelay.step] at hstep
    split at hstep
    next op hput =>
      obtain ⟨hidle, hstep⟩ := ite_none_right_eq_some.mp hstep
      rw [← some.inj hstep]
      exact h.setOperation hput { op with status := .waiting } rfl (by simp [hidle])
        (by simp) (by simp)
    · cases hstep
  | complete k =>
    simp only [CudaIpcRelay.step] at hstep
    split at hstep
    next op hput =>
      obtain ⟨hwaiting, hstep⟩ := ite_none_right_eq_some.mp hstep
      have hok := h.puts k
      rw [hput] at hok
      obtain ⟨hpos, ⟨slotIndex, hoffset⟩, _, _⟩ := hok
      unfold complete at hstep
      split at hstep
      next hdone =>
        rw [← some.inj hstep]
        refine h.release (h.lt_putCount hput (by simp)) hpos hoffset ?_ ?_ ?_
        · rw [hput]
          simp [Put.allocated, hwaiting]
        · exact ⟨hpos, ⟨slotIndex, hoffset⟩, fun _ => hdone, by simp⟩
        · simp [Put.allocated]
      next message _ =>
        rw [← some.inj hstep]
        exact h.endOperation hput { op with status := .ended (.receiver message) } rfl hwaiting rfl
      · cases hstep
    · cases hstep
  | timeout k =>
    simp only [CudaIpcRelay.step] at hstep
    split at hstep
    next op hput =>
      obtain ⟨⟨hwaiting, _⟩, hstep⟩ := ite_none_right_eq_some.mp hstep
      rw [← some.inj hstep]
      exact h.endOperation hput { op with
        receiverDone := .cancelled, status := .ended .timeout } rfl hwaiting rfl
    · cases hstep
  | cancelWait k =>
    simp only [CudaIpcRelay.step] at hstep
    split at hstep
    next op hput =>
      obtain ⟨⟨hwaiting, _⟩, hstep⟩ := ite_none_right_eq_some.mp hstep
      rw [← some.inj hstep]
      exact h.setOperation hput { op with receiverDone := .cancelled, status := .cancelled }
        rfl (by simp [hwaiting]) (by simp) (by simp)
    · cases hstep

/-- The slots of an operation. -/
def PutOperation.slots (op : PutOperation) (slotSize : ℕ) : SlotRange :=
  ⟨op.info.offset / slotSize, op.info.numSlots⟩

/-- From one state to the next nothing takes back a failure, and after a failure no put
returns an operation. -/
structure Moves (s t : CudaIpcRelay) : Prop where
  failed : s.failedError.isSome = true → t.failedError.isSome = true
  operations : s.failedError.isSome = true → ∀ k op, t.puts k = .operation op →
    ∃ op', s.puts k = .operation op'

theorem Moves.refl (s : CudaIpcRelay) : Moves s s := ⟨id, fun _ _ op hop => ⟨op, hop⟩⟩

theorem Moves.trans {u : CudaIpcRelay} (h : Moves s t) (k : Moves t u) : Moves s u where
  failed hs := k.failed (h.failed hs)
  operations hs l op hop := by
    obtain ⟨op', hop'⟩ := k.operations (h.failed hs) l op hop
    exact h.operations hs l op' hop'

theorem moves_markFailed (s : CudaIpcRelay) (error : TransferError) :
    Moves s (s.markFailed error) :=
  ⟨fun _ => by simp [markFailed], fun _ _ op hop => ⟨op, hop⟩⟩

theorem moves_release (s : CudaIpcRelay) (offset numSlots : ℕ) :
    Moves s (s.release offset numSlots) := by
  unfold release
  split
  · exact .refl s
  · refine ⟨id, fun _ k op hop => ?_⟩
    dsimp only at hop
    split at hop
    · exact ⟨op, hop⟩
    · cases hput : s.puts k with
      | operation op' => exact ⟨op', rfl⟩
      | _ => simp [hput, Put.wake] at hop

theorem release_operation (hput : s.puts k = .operation op) (offset numSlots : ℕ) :
    (s.release offset numSlots).puts k = .operation op := by
  unfold release
  split
  · exact hput
  · dsimp only
    split
    · exact hput
    · simp [hput, Put.wake]

/-- One call changes, and is no operation unless it has been one. -/
theorem moves_update (hfailed : t.failedError = s.failedError)
    (hputs : t.puts = update s.puts k put)
    (hput : s.failedError.isSome = true → ∀ op, put = .operation op →
      ∃ op', s.puts k = .operation op') : Moves s t where
  failed hs := by rwa [hfailed]
  operations hs l op hop := by
    rw [hputs] at hop
    by_cases hlk : l = k
    · subst hlk
      rw [update_self] at hop
      exact hput hs op hop
    · rw [update_of_ne hlk] at hop
      exact ⟨op, hop⟩

theorem moves_setPut (hput : s.failedError.isSome = true → ∀ op, put = .operation op →
      ∃ op', s.puts k = .operation op') : Moves s (s.setPut k put) :=
  moves_update rfl rfl hput

theorem CudaIpcRelay.beginPut_of_failed (hfailed : s.failedError.isSome = true)
    (request : PutRequest) :
    s.beginPut request = .raised .relayFailed := by
  simp [beginPut, hfailed]

theorem moves_resumePut (hstep : s.resumePut k size numSlots task failSeen copyError = some t) :
    Moves s t := by
  unfold resumePut at hstep
  split at hstep
  · rw [← some.inj hstep]
    split
    · exact (moves_release s _ _).trans (moves_setPut (by simp))
    next hgood =>
      split
      · exact (moves_release s _ _).trans (moves_setPut (by simp))
      · exact moves_setPut fun hfailed => absurd (Or.inr hfailed) hgood
  · obtain ⟨_, hstep⟩ := ite_none_right_eq_some.mp hstep
    rw [← some.inj hstep]
    exact moves_setPut (by simp)

/-- What one step does after a failure. -/
theorem moves_step (hstep : s.step a = some t) :
    Moves s t := by
  cases a with
  | put request =>
    rw [← some.inj hstep]
    refine moves_update rfl rfl fun hfailed op hop => ?_
    rw [s.beginPut_of_failed hfailed] at hop
    cases hop
  | acquire k =>
    simp only [step] at hstep
    split at hstep
    · rw [← some.inj hstep]
      exact moves_update rfl rfl (by simp)
    · rw [← some.inj hstep]
      exact moves_update rfl rfl (by simp)
    · cases hstep
  | seeFailure k =>
    simp only [step] at hstep
    split at hstep
    · rw [← some.inj hstep]
      exact moves_setPut (by simp)
    · cases hstep
  | resumePut k copyError =>
    simp only [step] at hstep
    split at hstep
    · exact moves_resumePut hstep
    · cases hstep
  | cancelPut k =>
    simp only [step] at hstep
    split at hstep
    · rw [← some.inj hstep]
      exact moves_setPut (by simp)
    · cases hstep
  | complete k =>
    simp only [step] at hstep
    split at hstep
    next op hput =>
      obtain ⟨_, hstep⟩ := ite_none_right_eq_some.mp hstep
      unfold complete at hstep
      split at hstep
      · rw [← some.inj hstep]
        exact (moves_release s _ _).trans
          (moves_setPut fun _ _ _ => ⟨op, release_operation hput _ _⟩)
      · rw [← some.inj hstep]
        exact (moves_setPut fun _ _ _ => ⟨op, hput⟩).trans (moves_markFailed _ _)
      · cases hstep
    · cases hstep
  | timeout k =>
    simp only [step] at hstep
    split at hstep
    next op hput =>
      obtain ⟨_, hstep⟩ := ite_none_right_eq_some.mp hstep
      rw [← some.inj hstep]
      exact (moves_setPut fun _ _ _ => ⟨op, hput⟩).trans (moves_markFailed _ _)
    · cases hstep
  | receiverDone k =>
    simp only [step] at hstep
    split at hstep
    next op hput =>
      rw [← some.inj hstep]
      split
      · exact moves_setPut fun _ _ _ => ⟨op, hput⟩
      · exact .refl s
    · cases hstep
  | receiverFailed k message =>
    simp only [step] at hstep
    split at hstep
    next op hput =>
      rw [← some.inj hstep]
      split
      · exact moves_setPut fun _ _ _ => ⟨op, hput⟩
      · exact .refl s
    · cases hstep
  | wait k =>
    simp only [step] at hstep
    split at hstep
    next op hput =>
      obtain ⟨_, hstep⟩ := ite_none_right_eq_some.mp hstep
      rw [← some.inj hstep]
      exact moves_setPut fun _ _ _ => ⟨op, hput⟩
    · cases hstep
  | cancelWait k =>
    simp only [step] at hstep
    split at hstep
    next op hput =>
      obtain ⟨_, hstep⟩ := ite_none_right_eq_some.mp hstep
      rw [← some.inj hstep]
      exact moves_setPut fun _ _ _ => ⟨op, hput⟩
    · cases hstep

/-- The relay refuses all puts, those that begin and those that wait for slots. -/
structure CudaIpcRelay.Refuses (s : CudaIpcRelay) : Prop where
  begins : ∀ request, s.beginPut request = .raised .relayFailed
  /-- No put returns an operation any more. -/
  returns : ∀ as t, Transition.Run step Transition.anyAction s as t →
    ∀ k op, t.puts k = .operation op → ∃ op', s.puts k = .operation op'
  /-- A put that waits for slots can see the failure, and raises then. -/
  waits : ∀ k size numSlots task failSeen copyError,
    s.puts k = .acquiring size numSlots task failSeen →
      (failSeen = false → ∃ t, s.step (.seeFailure k) = some t ∧
        t.puts k = .acquiring size numSlots task true) ∧
      (failSeen = true → ∃ t, s.step (.resumePut k copyError) = some t ∧
        t.puts k = .raised .relayFailed)

theorem CudaIpcRelay.refuses_of_failed (hfailed : s.failedError.isSome = true) : s.Refuses where
  begins := s.beginPut_of_failed hfailed
  returns as t hrun := by
    have hmoves : Moves s t := by
      refine hrun.invariant (I := fun t => Moves s t) ?_ (.refl s)
      exact fun _ _ _ hbefore _ hstep => hbefore.trans (moves_step hstep)
    exact hmoves.operations hfailed
  waits k size numSlots task failSeen copyError hput := by
    constructor
    · rintro rfl
      obtain ⟨error, herror⟩ := isSome_iff_exists.mp hfailed
      refine ⟨s.setPut k (.acquiring size numSlots task true), ?_, by simp [setPut]⟩
      simp only [step, hput, herror]
    · rintro rfl
      cases task with
      | done allocation =>
        refine ⟨(s.release allocation.offset numSlots).setPut k (.raised .relayFailed), ?_,
          by simp [setPut]⟩
        simp [step, hput, resumePut]
      | _ =>
        refine ⟨s.setPut k (.raised .relayFailed), ?_, by simp [setPut]⟩
        simp [step, hput, resumePut]

/-- The slots of a put whose receiver has not confirmed the read are taken, and belong to no
other put. A put that has timed out or failed ends the relay. -/
theorem unfinished_reads_keep_slots {slotCount slotSize : ℕ} {allocator : SlotAllocator}
    (hnew : SlotAllocator.new slotCount slotSize = .ok allocator) {as : List RelayAction}
    {s : CudaIpcRelay}
    (hrun : Transition.Run CudaIpcRelay.step Transition.anyAction (.init allocator) as s) :
    (∀ k op, s.puts k = .operation op → op.receiverDone ≠ .done →
      Uniform s.allocator.free false (op.slots s.allocator.slotSize) ∧
      ∀ l range, l ≠ k → (s.puts l).allocated s.allocator.slotSize = some range →
        ∀ slot, (op.slots s.allocator.slotSize).Has slot → ¬range.Has slot) ∧
    ∀ k op error, s.puts k = .operation op → op.status = .ended error → s.Refuses := by
  have hsound : s.Sound :=
    hrun.invariant (fun _ _ _ h _ hstep => h.step hstep) (sound_init hnew)
  constructor
  · intro k op hput hunconfirmed
    have hok := hsound.puts k
    rw [hput] at hok
    have hstatus : op.status ≠ .completed := fun hcompleted =>
      hunconfirmed (hok.2.2.1 hcompleted)
    have hallocated : (s.puts k).allocated s.allocator.slotSize =
        some (op.slots s.allocator.slotSize) := by
      simp [hput, Put.allocated, hstatus, PutOperation.slots]
    refine ⟨hsound.holds.taken k _ hallocated, fun l range hne hl => ?_⟩
    exact hsound.holds.disjoint k l _ range hne.symm hallocated hl
  · intro k op error hput hended
    have hok := hsound.puts k
    rw [hput] at hok
    exact refuses_of_failed (hok.2.2.2 error hended)

/-- The first of two puts times out while the second waits for its slots. -/
theorem unfinished_reads_keep_slots_timeout :
    ∃ s : CudaIpcRelay, s.Refuses ∧
      s.puts 1 = .acquiring 4 1 (.asleep ⟨1, false, 1, 0, 0, 0⟩) false := by
  have hrun := Transition.run_of_isSome step (.init ⟨1, 4, [true], 1, true⟩)
    [.put ⟨4, true, "cuda:0", some "talker", false⟩, .acquire 0, .resumePut 0 none, .wait 0,
      .put ⟨4, true, "cuda:0", some "talker", false⟩, .acquire 1, .timeout 0] (by decide +kernel)
  have hended := (unfinished_reads_keep_slots
    (show SlotAllocator.new 1 4 = .ok _ from rfl) hrun).2 0
    ⟨⟨4, 0, 0, 4, 1, 4⟩, .cancelled, .ended .timeout⟩ .timeout (by decide +kernel) rfl
  exact ⟨_, hended, by decide +kernel⟩

end Omni.Relay
