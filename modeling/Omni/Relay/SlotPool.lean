import Omni.Library.Transition
import Omni.Relay.SlotAllocator

/-!
# Calls of the slot pool

Any number of `acquire_async` calls, each in its own task, and calls of `release` between
their rounds. `_changed.set()` wakes all calls that wait, unless it was set already.
-/

namespace Omni.Relay

/-- A call of `acquire_async`. -/
inductive Call
  | notCalled
  /-- It waits for `_changed`. -/
  | asleep (call : AcquireCall)
  /-- `_changed` has been set, the next round has not begun. -/
  | awake (call : AcquireCall)
  | raised (error : SlotError)
  | cancelled
  | live (numSlots : ℕ) (allocation : SlotAllocation)
  | released (numSlots : ℕ) (allocation : SlotAllocation)
  deriving DecidableEq

/-- The allocator with its calls, in the order in which they began. -/
structure Pool where
  allocator : SlotAllocator
  calls : ℕ → Call
  callCount : ℕ

/-- A pool without calls. -/
def Pool.init (allocator : SlotAllocator) : Pool := ⟨allocator, fun _ => .notCalled, 0⟩

/-- Calls that begin, go on or end. -/
inductive PoolAction
  | acquire (numSlots : ℤ) (captureLayout : Bool)
  /-- A call that has been woken runs its next round. -/
  | resume (call : ℕ)
  | cancel (call : ℕ)
  /-- The allocation of a call is released, perhaps once more. -/
  | release (call : ℕ)
  /-- Somebody releases slots of its own choice. -/
  | releaseSlots (offset numSlots : ℤ)

/-- A call that waits is woken. -/
def Call.wake : Call → Call
  | .asleep call => .awake call
  | call => call

/-- A round of a call. -/
def Pool.round (pool : Pool) (k : ℕ) (call : AcquireCall) : Pool :=
  let (allocator, result) := pool.allocator.acquireRound call
  { pool with
    allocator := allocator
    calls := Function.update pool.calls k (match result with
      | .inl allocation => .live call.numSlots allocation
      | .inr call => .asleep call) }

/-- A successful release, with what `_changed.set()` does. -/
def Pool.afterRelease (pool : Pool) (allocator : SlotAllocator) : Pool :=
  { pool with
    allocator := allocator
    calls := if pool.allocator.changed then pool.calls else fun k => (pool.calls k).wake }

/-- Note that the allocation of a call has been released. -/
def Pool.setReleased (pool : Pool) (k numSlots : ℕ) (allocation : SlotAllocation) : Pool :=
  { pool with calls := Function.update pool.calls k (.released numSlots allocation) }

/-- The allocation of a call, whether or not it has been released. -/
def Call.allocation? : Call → Option (ℕ × SlotAllocation)
  | .live numSlots allocation => some (numSlots, allocation)
  | .released numSlots allocation => some (numSlots, allocation)
  | _ => none

/-- The transition function. A call that raises leaves the pool as it is. -/
def Pool.step (pool : Pool) : PoolAction → Option Pool
  | .acquire numSlots captureLayout =>
    let next := { pool with callCount := pool.callCount + 1 }
    some (match pool.allocator.beginAcquire numSlots captureLayout with
      | .error error =>
        { next with calls := Function.update pool.calls pool.callCount (.raised error) }
      | .ok call => next.round pool.callCount call)
  | .resume k =>
    match pool.calls k with
    | .awake call => some (pool.round k call)
    | _ => none
  | .cancel k =>
    match pool.calls k with
    | .asleep _ | .awake _ =>
      some { pool with calls := Function.update pool.calls k .cancelled }
    | _ => none
  | .release k =>
    match (pool.calls k).allocation? with
    | some (numSlots, allocation) =>
      some (match pool.allocator.release allocation.offset numSlots with
        | .error _ => pool
        | .ok allocator => (pool.afterRelease allocator).setReleased k numSlots allocation)
    | none => none
  | .releaseSlots offset numSlots =>
    some (match pool.allocator.release offset numSlots with
      | .error _ => pool
      | .ok allocator => pool.afterRelease allocator)

/-- The slots of a live allocation. -/
def Call.owned (slotSize : ℕ) : Call → Option SlotRange
  | .live numSlots allocation => some ⟨allocation.offset / slotSize, numSlots⟩
  | _ => none

/-- The slots of the allocation of each call, while it is live. -/
def Pool.owned (pool : Pool) (k : ℕ) : Option SlotRange :=
  (pool.calls k).owned pool.allocator.slotSize

/-- The pool has its slots, and its counter counts the free ones. -/
structure SlotAllocator.Sound (pool : SlotAllocator) : Prop where
  slotSize_pos : 0 < pool.slotSize
  length_free : pool.free.length = pool.slotCount
  freeSlots_eq : pool.freeSlots = pool.free.count true

variable {pool : SlotAllocator}

theorem SlotAllocator.sound_new {slotCount slotSize : ℕ}
    (hnew : SlotAllocator.new slotCount slotSize = .ok pool) : pool.Sound := by
  unfold SlotAllocator.new at hnew
  split at hnew
  · cases hnew
  · split at hnew
    · cases hnew
    next hsize =>
      cases hnew
      exact ⟨Nat.pos_of_ne_zero hsize, List.length_replicate .., by simp⟩

variable {call : AcquireCall}

/-- What one round of `acquire_async` does. -/
theorem SlotAllocator.acquireRound_cases (pool : SlotAllocator) (hpos : 0 < call.numSlots) :
    (∃ slotIndex allocation, IsFirstFit pool.free ⟨slotIndex, call.numSlots⟩ ∧
      allocation.offset = slotIndex * pool.slotSize ∧
      (pool.acquireRound call).2 = .inl allocation ∧
      (pool.acquireRound call).1 = { pool with
        free := setRange pool.free false ⟨slotIndex, call.numSlots⟩
        freeSlots := pool.freeSlots - call.numSlots
        changed := if pool.freeSlots - call.numSlots = 0 then false else pool.changed }) ∨
    (∃ call', (∀ start, ¬Uniform pool.free true ⟨start, call.numSlots⟩) ∧
      call'.numSlots = call.numSlots ∧ (pool.acquireRound call).2 = .inr call' ∧
      (pool.acquireRound call).1 = { pool with changed := false }) := by
  have hfit := findContiguous_firstFit pool.free hpos
  unfold SlotAllocator.acquireRound
  split
  next slotIndex hfound =>
    rw [hfound] at hfit
    exact Or.inl ⟨slotIndex, _, hfit, rfl, rfl, rfl⟩
  next hnone =>
    rw [hnone] at hfit
    refine Or.inr ⟨_, hfit, ?_, rfl, rfl⟩
    split <;> rfl

theorem SlotAllocator.Sound.acquireRound (h : pool.Sound) (hpos : 0 < call.numSlots) :
    (pool.acquireRound call).1.Sound := by
  rcases pool.acquireRound_cases hpos with ⟨slotIndex, _, hfit, _, _, heq⟩ | ⟨_, _, _, _, heq⟩
  · have hcount := count_take hfit.1
    rw [heq]
    refine ⟨h.slotSize_pos, (length_setRange ..).trans h.length_free, ?_⟩
    have hbefore := h.freeSlots_eq
    simp only at hcount ⊢
    omega
  · rw [heq]
    exact { h with }

/-- The offset is that of a slot, and the slots from there on are all taken. -/
def SlotAllocator.AllTaken (pool : SlotAllocator) (offset numSlots : ℤ) : Prop :=
  0 < numSlots ∧ offset % pool.slotSize = 0 ∧ 0 ≤ offset / pool.slotSize ∧
    Uniform pool.free false (pool.rangeAt offset numSlots)

theorem SlotAllocator.Sound.release_cases (h : pool.Sound) (offset numSlots : ℤ) :
    (¬pool.AllTaken offset numSlots ∧ ∃ error, pool.release offset numSlots = .error error) ∨
    (pool.AllTaken offset numSlots ∧ pool.release offset numSlots = .ok { pool with
        free := setRange pool.free true (pool.rangeAt offset numSlots)
        freeSlots := pool.freeSlots + numSlots
        changed := true }) := by
  have hlength := h.length_free
  unfold SlotAllocator.release
  by_cases hpos : numSlots ≤ 0
  · left
    exact ⟨fun htaken => by have hlt := htaken.1; omega, _, if_pos hpos⟩
  rw [if_neg hpos]
  by_cases haligned : offset % pool.slotSize ≠ 0
  · left
    exact ⟨fun htaken => haligned htaken.2.1, _, if_pos haligned⟩
  rw [if_neg haligned]
  by_cases hout : offset / pool.slotSize < 0 ∨
      (pool.slotCount : ℤ) < offset / pool.slotSize + numSlots
  · left
    refine ⟨fun ⟨_, _, hstart, huniform⟩ => ?_, _, if_pos hout⟩
    have hinside := huniform.inside (by simp only [rangeAt]; omega)
    simp only [rangeAt] at hinside
    omega
  rw [if_neg hout]
  by_cases htwice : (List.range' (pool.rangeAt offset numSlots).start
      (pool.rangeAt offset numSlots).count).any fun index => pool.free.getD index false
  · left
    refine ⟨fun ⟨_, _, _, huniform⟩ => ?_, _, if_pos htwice⟩
    obtain ⟨index, hindex, hfree⟩ := List.any_eq_true.mp htwice
    have hhas : (pool.rangeAt offset numSlots).Has index := List.mem_range'_1.mp hindex
    rw [List.getD_eq_getElem?_getD, huniform index hhas] at hfree
    simp at hfree
  · right
    refine ⟨⟨by omega, not_not.mp haligned, by omega, fun slot hslot => ?_⟩, if_neg htwice⟩
    have hlt : slot < pool.free.length := by
      obtain ⟨_, hend⟩ := hslot
      simp only [rangeAt] at hend
      omega
    have hfree : pool.free.getD slot false = false := by
      by_contra hfree
      exact htwice (List.any_eq_true.mpr ⟨slot, List.mem_range'_1.mpr hslot,
        by simpa using hfree⟩)
    rw [List.getD_eq_getElem?_getD, List.getElem?_eq_getElem hlt] at hfree
    rw [List.getElem?_eq_getElem hlt]
    exact congrArg some hfree

theorem SlotAllocator.Sound.release {pool' : SlotAllocator} (h : pool.Sound) {offset numSlots : ℤ}
    (hok : pool.release offset numSlots = .ok pool') : pool'.Sound := by
  rcases h.release_cases offset numSlots with ⟨_, error, herror⟩ | ⟨⟨hpos, _, _, huniform⟩, heq⟩
  · rw [herror] at hok
    cases hok
  · rw [heq] at hok
    cases hok
    have hcount := @count_setRange _ true _ huniform
    have hbefore := h.freeSlots_eq
    refine ⟨h.slotSize_pos, (length_setRange ..).trans h.length_free, ?_⟩
    simp only [rangeAt] at hcount ⊢
    omega

end Omni.Relay
