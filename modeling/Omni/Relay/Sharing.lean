import Omni.Relay.SlotPool

/-!
# No slot is shared

The laws of the slot pool over all runs. A release is checked by the flags of its slots
only, so that slots stay with one owner as long as nobody gives back what it does not own.
-/

namespace Omni.Relay

open Function Pool Option

/-- What holds of each call. A call that sleeps does not fit, and `_changed` is clear. -/
def Call.Ok (allocator : SlotAllocator) : Call → Prop
  | .asleep call => 0 < call.numSlots ∧ allocator.changed = false ∧
      ∀ start, ¬Uniform allocator.free true ⟨start, call.numSlots⟩
  | .awake call => 0 < call.numSlots
  | .live numSlots allocation | .released numSlots allocation => 0 < numSlots ∧
      ∃ slotIndex, allocation.offset = slotIndex * allocator.slotSize ∧
        slotIndex + numSlots ≤ allocator.slotCount
  | _ => True

/-- The invariant of all runs. -/
structure Pool.Sound (pool : Pool) : Prop where
  allocator : pool.allocator.Sound
  new : ∀ k ≥ pool.callCount, pool.calls k = .notCalled
  calls : ∀ k, (pool.calls k).Ok pool.allocator

/-- The slots that each call owns are taken, and no two calls own the same slot. -/
def Pool.Separate (pool : Pool) : Prop := Holds pool.allocator.free pool.owned

variable {allocator allocator' : SlotAllocator} {k slotSize : ℕ} {a : PoolAction} {offset : ℤ}

theorem Pool.sound_init {slotCount : ℕ}
    (hnew : SlotAllocator.new slotCount slotSize = .ok allocator) :
    (init allocator).Sound :=
  ⟨SlotAllocator.sound_new hnew, fun _ _ => rfl, fun _ => trivial⟩

theorem Pool.separate_init (allocator : SlotAllocator) : (init allocator).Separate where
  taken _ _ h := nomatch h
  disjoint _ _ _ _ _ h := nomatch h

variable {call : Call}

theorem Call.Ok.allocation (h : call.Ok allocator) {numSlots : ℕ} {allocation : SlotAllocation}
    (hallocation : call.allocation? = some (numSlots, allocation)) :
    0 < numSlots ∧ ∃ slotIndex, allocation.offset = slotIndex * allocator.slotSize ∧
      slotIndex + numSlots ≤ allocator.slotCount := by
  cases call with
  | live n al =>
    obtain ⟨rfl, rfl⟩ : n = numSlots ∧ al = allocation := by
      simpa [Call.allocation?] using hallocation
    exact h
  | released n al =>
    obtain ⟨rfl, rfl⟩ : n = numSlots ∧ al = allocation := by
      simpa [Call.allocation?] using hallocation
    exact h
  | _ => cases hallocation

/-- Taking slots and clearing `_changed` is no reason to wake anybody. -/
theorem Call.Ok.mono (h : call.Ok allocator) (hsize : allocator'.slotSize = allocator.slotSize)
    (hcount : allocator'.slotCount = allocator.slotCount)
    (hfree : ∀ range, Uniform allocator'.free true range → Uniform allocator.free true range)
    (hchanged : allocator.changed = false → allocator'.changed = false) :
    call.Ok allocator' := by
  cases call with
  | asleep call => exact ⟨h.1, hchanged h.2.1, fun start hfit => h.2.2 start (hfree _ hfit)⟩
  | awake call => exact h
  | live n al =>
    obtain ⟨hpos, slotIndex, hoffset, hend⟩ := h
    exact ⟨hpos, slotIndex, by rw [hoffset, hsize], by rwa [hcount]⟩
  | released n al =>
    obtain ⟨hpos, slotIndex, hoffset, hend⟩ := h
    exact ⟨hpos, slotIndex, by rw [hoffset, hsize], by rwa [hcount]⟩
  | _ => trivial

variable {pool : Pool}

/-- One call changes, and with it perhaps the slots. -/
theorem Pool.Sound.replace (h : pool.Sound) (hk : k < pool.callCount) (hsound : allocator.Sound)
    (hcall : call.Ok allocator) (hothers : ∀ l ≠ k, (pool.calls l).Ok allocator) :
    Sound ⟨allocator, update pool.calls k call, pool.callCount⟩ := by
  refine ⟨hsound, fun l hl => ?_, fun l => ?_⟩
  · have hne : l ≠ k := ne_of_gt (hk.trans_le hl)
    simpa [hne] using h.new l hl
  · by_cases hlk : l = k
    · subst hlk
      simpa using hcall
    · simpa [hlk] using hothers l hlk

theorem Pool.Sound.round (h : pool.Sound) (hk : k < pool.callCount) {call : AcquireCall}
    (hpos : 0 < call.numSlots) : (pool.round k call).Sound := by
  have hsound := h.allocator.acquireRound hpos
  rcases pool.allocator.acquireRound_cases hpos with
    ⟨slotIndex, allocation, hfit, hoffset, hresult, heq⟩ | ⟨call', hnot, hsame, hresult, heq⟩
  · simp only [Pool.round, hresult]
    rw [heq] at hsound ⊢
    refine h.replace hk hsound ⟨hpos, slotIndex, hoffset, ?_⟩ fun l _ => ?_
    · have hinside := Uniform.inside hfit.1 hpos
      rwa [h.allocator.length_free] at hinside
    · refine (h.calls l).mono rfl rfl (fun range hfree => hfree.of_take) fun hclear => ?_
      simp only [hclear, ite_self]
  · simp only [Pool.round, hresult]
    rw [heq] at hsound ⊢
    refine h.replace hk hsound ⟨hsame ▸ hpos, rfl, hsame ▸ hnot⟩ fun l _ => ?_
    exact (h.calls l).mono rfl rfl (fun range hfree => hfree) fun _ => rfl

/-- A successful release leaves no call asleep. -/
theorem Pool.Sound.afterRelease_calls (h : pool.Sound) (allocator : SlotAllocator) (k : ℕ) :
    (pool.afterRelease allocator).calls k = (pool.calls k).wake := by
  unfold afterRelease
  dsimp only
  split
  next hset =>
    have hok := h.calls k
    cases hcall : pool.calls k with
    | asleep call =>
      rw [hcall] at hok
      exact absurd hok.2.1 (by simp [hset])
    | _ => rfl
  · rfl

/-- A call that has been woken still has what it had. -/
theorem Call.Ok.wake (h : call.Ok allocator) (hsize : allocator'.slotSize = allocator.slotSize)
    (hcount : allocator'.slotCount = allocator.slotCount) : call.wake.Ok allocator' := by
  cases call with
  | asleep call => exact h.1
  | awake call => exact h
  | live n al =>
    obtain ⟨hpos, slotIndex, hoffset, hend⟩ := h
    exact ⟨hpos, slotIndex, by rw [hoffset, hsize], by rwa [hcount]⟩
  | released n al =>
    obtain ⟨hpos, slotIndex, hoffset, hend⟩ := h
    exact ⟨hpos, slotIndex, by rw [hoffset, hsize], by rwa [hcount]⟩
  | _ => trivial

variable {numSlots : ℤ}

theorem SlotAllocator.beginAcquire_pos (pool : SlotAllocator) {captureLayout : Bool}
    {call : AcquireCall} (hbegin : pool.beginAcquire numSlots captureLayout = .ok call) :
    0 < call.numSlots := by
  unfold beginAcquire at hbegin
  split at hbegin
  · cases hbegin
  · split at hbegin
    · cases hbegin
    · cases hbegin
      simp only
      omega

/-- What a successful release does to the allocator. -/
theorem SlotAllocator.Sound.release_eq {pool pool' : SlotAllocator} (h : pool.Sound)
    (hok : pool.release offset numSlots = .ok pool') :
    pool.AllTaken offset numSlots ∧ pool' = { pool with
      free := setRange pool.free true (pool.rangeAt offset numSlots)
      freeSlots := pool.freeSlots + numSlots
      changed := true } := by
  rcases h.release_cases offset numSlots with ⟨_, error, herror⟩ | ⟨htaken, heq⟩
  · rw [herror] at hok
    cases hok
  · rw [heq] at hok
    cases hok
    exact ⟨htaken, rfl⟩

/-- A successful release wakes everybody. -/
theorem Pool.Sound.afterRelease (h : pool.Sound)
    (hok : pool.allocator.release offset numSlots = .ok allocator) :
    (pool.afterRelease allocator).Sound := by
  have hsound := h.allocator.release hok
  obtain ⟨_, rfl⟩ := h.allocator.release_eq hok
  refine ⟨hsound, fun k hk => ?_, fun k => ?_⟩
  · rw [h.afterRelease_calls, h.new k hk]
    rfl
  · rw [h.afterRelease_calls]
    exact (h.calls k).wake rfl rfl

variable {pool' : Pool}

/-- Every step keeps the invariant. -/
theorem Pool.Sound.step (h : pool.Sound) (hstep : pool.step a = some pool') : pool'.Sound := by
  cases a with
  | acquire numSlots captureLayout =>
    have hnext : Sound { pool with callCount := pool.callCount + 1 } :=
      ⟨h.allocator, fun l hl => h.new l (Nat.le_of_succ_le hl), h.calls⟩
    simp only [step] at hstep
    cases hstep
    split
    · exact hnext.replace (Nat.lt_succ_self _) h.allocator trivial fun l _ => h.calls l
    next call hbegin =>
      exact hnext.round (Nat.lt_succ_self _) (pool.allocator.beginAcquire_pos hbegin)
  | resume k =>
    simp only [step] at hstep
    split at hstep
    next call hcall =>
      have hk : k < pool.callCount := by
        by_contra hge
        rw [h.new k (not_lt.mp hge)] at hcall
        cases hcall
      have hok := h.calls k
      rw [hcall] at hok
      rw [← some.inj hstep]
      exact h.round hk hok
    · cases hstep
  | cancel k =>
    have hk : (pool.calls k ≠ .notCalled) → k < pool.callCount := by
      intro hcalled
      by_contra hge
      exact hcalled (h.new k (not_lt.mp hge))
    simp only [step] at hstep
    split at hstep
    next hcall =>
      rw [← some.inj hstep]
      exact h.replace (hk (by simp [hcall])) h.allocator trivial fun l _ => h.calls l
    next hcall =>
      rw [← some.inj hstep]
      exact h.replace (hk (by simp [hcall])) h.allocator trivial fun l _ => h.calls l
    · cases hstep
  | release k =>
    simp only [step] at hstep
    split at hstep
    next numSlots allocation hallocation =>
      have hk : k < pool.callCount := by
        by_contra hge
        rw [h.new k (not_lt.mp hge)] at hallocation
        cases hallocation
      rw [← some.inj hstep]
      split
      · exact h
      next allocator hok =>
        have hafter := h.afterRelease hok
        refine hafter.replace hk hafter.allocator ?_ fun l _ => hafter.calls l
        obtain ⟨_, rfl⟩ := h.allocator.release_eq hok
        exact (h.calls k).allocation hallocation
    · cases hstep
  | releaseSlots offset numSlots =>
    simp only [step] at hstep
    cases hstep
    split
    · exact h
    next allocator hok => exact h.afterRelease hok

/-- Slots are released by the live allocation that owns them, or are not all taken. -/
def Proper (pool : Pool) : PoolAction → Prop
  | .release k => ∀ numSlots allocation, pool.calls k = .released numSlots allocation →
      ¬pool.allocator.AllTaken allocation.offset numSlots
  | .releaseSlots offset numSlots => ¬pool.allocator.AllTaken offset numSlots
  | _ => True

@[simp] theorem Call.owned_wake (slotSize : ℕ) (call : Call) :
    call.wake.owned slotSize = call.owned slotSize := by
  cases call <;> rfl

theorem owned_update (slotSize : ℕ) (calls : ℕ → Call) (k : ℕ) (call : Call) :
    (fun l => (update calls k call l).owned slotSize) =
      update (fun l => (calls l).owned slotSize) k (call.owned slotSize) := by
  funext l
  by_cases hlk : l = k
  · subst hlk
    simp
  · simp [hlk]

/-- A call that owns nothing, before and after, changes no owner. -/
theorem owned_update_none {calls : ℕ → Call} (hbefore : (calls k).owned slotSize = none)
    (hafter : call.owned slotSize = none) :
    (fun l => (update calls k call l).owned slotSize) = fun l => (calls l).owned slotSize := by
  rw [owned_update, hafter, ← hbefore]
  exact update_eq_self k fun l => (calls l).owned slotSize

/-- The slots that a call of `release` names are those of the allocation. -/
theorem rangeAt_allocation (pool : SlotAllocator) (offset numSlots : ℕ) :
    pool.rangeAt offset numSlots = ⟨offset / pool.slotSize, numSlots⟩ := by
  have hstart : (offset : ℤ) / (pool.slotSize : ℤ) = ((offset / pool.slotSize : ℕ) : ℤ) := by
    norm_cast
  simp only [SlotAllocator.rangeAt, hstart, Int.toNat_natCast]

theorem Pool.Separate.round (h : pool.Separate) (hsound : pool.allocator.Sound) {call : AcquireCall}
    (hpos : 0 < call.numSlots) (hnone : pool.owned k = none) :
    (pool.round k call).Separate := by
  unfold Separate owned
  rcases pool.allocator.acquireRound_cases hpos with
    ⟨slotIndex, allocation, hfit, hoffset, hresult, heq⟩ | ⟨call', _, _, hresult, heq⟩
  · have hrange : (Call.live call.numSlots allocation).owned pool.allocator.slotSize =
        some ⟨slotIndex, call.numSlots⟩ := by
      simp [Call.owned, hoffset, hsound.slotSize_pos]
    simp only [Pool.round, hresult, heq, owned_update, hrange]
    exact Holds.take h hfit.1 hnone
  · simp only [Pool.round, hresult, heq]
    rwa [owned_update_none hnone rfl]

theorem Pool.Separate.giveBack (h : pool.Separate) (hsound : pool.Sound) {numSlots : ℕ}
    {allocation : SlotAllocation} (hlive : pool.calls k = .live numSlots allocation)
    (hok : pool.allocator.release allocation.offset numSlots = .ok allocator) :
    ((pool.afterRelease allocator).setReleased k numSlots allocation).Separate := by
  have howned : pool.owned k = some ⟨allocation.offset / pool.allocator.slotSize, numSlots⟩ := by
    simp [owned, hlive, Call.owned]
  have hback := Holds.giveBack h howned
  have hcalls : (pool.afterRelease allocator).calls = fun l => (pool.calls l).wake :=
    funext (hsound.afterRelease_calls allocator)
  obtain ⟨_, rfl⟩ := hsound.allocator.release_eq hok
  unfold Separate owned
  simp only [setReleased, hcalls, owned_update, Call.owned_wake]
  simp only [afterRelease, rangeAt_allocation]
  exact hback

theorem Pool.Separate.step (h : pool.Separate) (hsound : pool.Sound) (hproper : Proper pool a)
    (hstep : pool.step a = some pool') :
    pool'.Separate := by
  cases a with
  | acquire numSlots captureLayout =>
    have hnone : pool.owned pool.callCount = none := by
      simp [owned, hsound.new _ le_rfl, Call.owned]
    simp only [step] at hstep
    cases hstep
    split
    · unfold Separate owned
      rwa [owned_update_none hnone rfl]
    next call hbegin =>
      have hnext : Separate { pool with callCount := pool.callCount + 1 } := h
      exact hnext.round hsound.allocator (pool.allocator.beginAcquire_pos hbegin) hnone
  | resume k =>
    simp only [step] at hstep
    split at hstep
    next call hcall =>
      have hpos := hsound.calls k
      rw [hcall] at hpos
      rw [← some.inj hstep]
      exact h.round hsound.allocator hpos (by simp [owned, hcall, Call.owned])
    · cases hstep
  | cancel k =>
    simp only [step] at hstep
    split at hstep
    next hcall =>
      rw [← some.inj hstep]
      unfold Separate owned
      rwa [owned_update_none (by simp [hcall, Call.owned]) rfl]
    next hcall =>
      rw [← some.inj hstep]
      unfold Separate owned
      rwa [owned_update_none (by simp [hcall, Call.owned]) rfl]
    · cases hstep
  | release k =>
    simp only [step] at hstep
    split at hstep
    next numSlots allocation hallocation =>
      rw [← some.inj hstep]
      split
      · exact h
      next allocator hok =>
        cases hcall : pool.calls k with
        | live n al =>
          rw [hcall] at hallocation
          obtain ⟨rfl, rfl⟩ : n = numSlots ∧ al = allocation := by
            simpa [Call.allocation?] using hallocation
          exact h.giveBack hsound hcall hok
        | released n al =>
          rw [hcall] at hallocation
          obtain ⟨rfl, rfl⟩ : n = numSlots ∧ al = allocation := by
            simpa [Call.allocation?] using hallocation
          exact absurd (hsound.allocator.release_eq hok).1 (hproper n al hcall)
        | _ =>
          rw [hcall] at hallocation
          cases hallocation
    · cases hstep
  | releaseSlots offset numSlots =>
    simp only [step] at hstep
    cases hstep
    split
    · exact h
    next allocator hok => exact absurd (hsound.allocator.release_eq hok).1 hproper

/-- The laws of a pool in some state, whatever has been released before. -/
structure Pool.Lawful (pool : Pool) : Prop where
  /-- The counter counts the free slots. -/
  counter : pool.allocator.freeSlots = pool.allocator.free.count true
  /-- Live allocations lie inside the pool. -/
  inside : ∀ k range, pool.owned k = some range →
    range.start + range.count ≤ pool.allocator.slotCount
  /-- An allocation gets the first fitting run of free slots. -/
  firstFit : ∀ a pool' k numSlots allocation, pool.step a = some pool' →
    pool.calls k ≠ .live numSlots allocation → pool'.calls k = .live numSlots allocation →
      ∃ slotIndex, allocation.offset = slotIndex * pool.allocator.slotSize ∧
        IsFirstFit pool.allocator.free ⟨slotIndex, numSlots⟩
  /-- Both searches find the same run. -/
  searches : ∀ numSlots > 0, (findContiguousWithLayout pool.allocator.free numSlots).slotIndex =
    findContiguous pool.allocator.free numSlots
  /-- A release that names a free slot raises and leaves the pool as it is. -/
  refusal : ∀ (offset numSlots : ℤ) slot, (pool.allocator.rangeAt offset numSlots).Has slot →
    pool.allocator.free[slot]? = some true →
      (∃ error, pool.allocator.release offset numSlots = .error error) ∧
      pool.step (.releaseSlots offset numSlots) = some pool ∧
      ∀ k n allocation, (pool.calls k).allocation? = some (n, allocation) →
        (allocation.offset : ℤ) = offset → (n : ℤ) = numSlots → pool.step (.release k) = some pool
  /-- No call sleeps that would find free slots. -/
  noLostWakeup : ∀ k call, pool.calls k = .asleep call →
    ∀ start, ¬Uniform pool.allocator.free true ⟨start, call.numSlots⟩

theorem round_firstFit (pool : Pool) {l numSlots : ℕ} {call : AcquireCall}
    {allocation : SlotAllocation} (hpos : 0 < call.numSlots)
    (hbefore : pool.calls l ≠ .live numSlots allocation)
    (hafter : (pool.round k call).calls l = .live numSlots allocation) :
    ∃ slotIndex, allocation.offset = slotIndex * pool.allocator.slotSize ∧
      IsFirstFit pool.allocator.free ⟨slotIndex, numSlots⟩ := by
  by_cases hlk : l = k
  · subst hlk
    rcases pool.allocator.acquireRound_cases hpos with
      ⟨slotIndex, al, hfit, hoffset, hresult, _⟩ | ⟨call', _, _, hresult, _⟩
    · simp only [Pool.round, hresult, update_self, Call.live.injEq] at hafter
      obtain ⟨rfl, rfl⟩ := hafter
      exact ⟨slotIndex, hoffset, hfit⟩
    · simp [Pool.round, hresult] at hafter
  · simp only [Pool.round, update_of_ne hlk] at hafter
    exact absurd hafter hbefore

/-- Only a round of `acquire_async` makes an allocation. -/
theorem Pool.Sound.firstFit (h : pool.Sound) {numSlots : ℕ} {allocation : SlotAllocation}
    (hstep : pool.step a = some pool') (hbefore : pool.calls k ≠ .live numSlots allocation)
    (hafter : pool'.calls k = .live numSlots allocation) :
    ∃ slotIndex, allocation.offset = slotIndex * pool.allocator.slotSize ∧
      IsFirstFit pool.allocator.free ⟨slotIndex, numSlots⟩ := by
  have hwake : (pool.calls k).wake ≠ .live numSlots allocation := by
    cases hcall : pool.calls k with
    | live n al => simpa [Call.wake, hcall] using hbefore
    | _ => simp [Call.wake]
  cases a with
  | acquire n captureLayout =>
    simp only [Pool.step] at hstep
    cases hstep
    split at hafter
    · by_cases hnew : k = pool.callCount
      · simp [hnew] at hafter
      · exact absurd (by simpa [hnew] using hafter) hbefore
    next call hbegin =>
      have hround := round_firstFit { pool with callCount := pool.callCount + 1 }
        (pool.allocator.beginAcquire_pos hbegin) hbefore hafter
      exact hround
  | resume l =>
    simp only [Pool.step] at hstep
    split at hstep
    next call hcall =>
      have hpos := h.calls l
      rw [hcall] at hpos
      rw [← some.inj hstep] at hafter
      exact round_firstFit pool hpos hbefore hafter
    · cases hstep
  | cancel l =>
    have hnot : update pool.calls l .cancelled k ≠ .live numSlots allocation := by
      by_cases hkl : k = l
      · simp [hkl]
      · simpa [hkl] using hbefore
    simp only [Pool.step] at hstep
    split at hstep
    · rw [← some.inj hstep] at hafter
      exact absurd hafter hnot
    · rw [← some.inj hstep] at hafter
      exact absurd hafter hnot
    · cases hstep
  | release l =>
    simp only [Pool.step] at hstep
    split at hstep
    · rw [← some.inj hstep] at hafter
      split at hafter
      · exact absurd hafter hbefore
      · by_cases hkl : k = l
        · simp [setReleased, hkl] at hafter
        · simp only [setReleased, update_of_ne hkl, h.afterRelease_calls] at hafter
          exact absurd hafter hwake
    · cases hstep
  | releaseSlots offset n =>
    simp only [Pool.step] at hstep
    cases hstep
    split at hafter
    · exact absurd hafter hbefore
    · rw [h.afterRelease_calls] at hafter
      exact absurd hafter hwake

/-- The invariant implies the laws. -/
theorem Pool.Sound.lawful (h : pool.Sound) : pool.Lawful where
  counter := h.allocator.freeSlots_eq
  inside k range hrange := by
    have hok := h.calls k
    cases hcall : pool.calls k with
    | live numSlots allocation =>
      rw [hcall] at hok
      obtain ⟨_, slotIndex, hoffset, hend⟩ := hok
      obtain rfl : (⟨slotIndex, numSlots⟩ : SlotRange) = range := by
        simpa [owned, hcall, Call.owned, hoffset, h.allocator.slotSize_pos] using hrange
      exact hend
    | _ => simp [owned, hcall, Call.owned] at hrange
  firstFit _ _ _ _ _ hstep hbefore hafter := h.firstFit hstep hbefore hafter
  searches _ hpos := findContiguousWithLayout_slotIndex _ hpos
  refusal offset numSlots slot hslot hfree := by
    rcases h.allocator.release_cases offset numSlots with ⟨_, error, herror⟩ | ⟨htaken, _⟩
    · refine ⟨⟨error, herror⟩, ?_, fun k n allocation hallocation hoffset hn => ?_⟩
      · simp only [Pool.step, herror]
      · subst hoffset hn
        simp only [Pool.step, hallocation, herror]
    · have hflag := htaken.2.2.2 slot hslot
      rw [hfree] at hflag
      simp at hflag
  noLostWakeup k call hcall := by
    have hok := h.calls k
    rw [hcall] at hok
    exact hok.2.2

/-- The pool keeps its laws in every run, and it keeps the slots of live allocations
separate in every run in which slots are released by their owners, or are not all taken. -/
theorem slots_stay_separate {slotCount slotSize : ℕ} {allocator : SlotAllocator}
    (hnew : SlotAllocator.new slotCount slotSize = .ok allocator) {as : List PoolAction}
    {pool : Pool} (hrun : Transition.Run Pool.step Transition.anyAction (.init allocator) as pool) :
    pool.Lawful ∧
      (Transition.Run Pool.step Proper (.init allocator) as pool →
        ∀ k l range range', k ≠ l → pool.owned k = some range → pool.owned l = some range' →
          ∀ slot, range.Has slot → ¬range'.Has slot) := by
  have hsound : pool.Sound :=
    hrun.invariant (fun _ _ _ h _ hstep => h.step hstep) (sound_init hnew)
  refine ⟨hsound.lawful, fun hproper => ?_⟩
  have hboth : pool.Sound ∧ pool.Separate := by
    refine hproper.invariant (I := fun pool => pool.Sound ∧ pool.Separate)
      (fun _ _ _ h hok hstep => ⟨h.1.step hstep, h.2.step h.1 hok hstep⟩) ?_
    exact ⟨sound_init hnew, separate_init allocator⟩
  exact hboth.2.disjoint

/-- Two calls get a slot each, one of them is released and a third call gets its slot. -/
theorem slots_stay_separate_threeCalls :
    ∃ pool, Transition.Run Pool.step Transition.anyAction
      (.init ⟨2, 4, [true, true], 2, true⟩)
      [.acquire 1 false, .acquire 1 false, .release 0, .acquire 1 true] pool ∧ pool.Lawful := by
  have hrun := Transition.run_of_isSome step (.init ⟨2, 4, [true, true], 2, true⟩)
    [.acquire 1 false, .acquire 1 false, .release 0, .acquire 1 true] (by decide +kernel)
  exact ⟨_, hrun, (slots_stay_separate (show SlotAllocator.new 2 4 = .ok _ from rfl) hrun).1⟩

/-- The allocation of the first call is released twice. The second release finds its slot
taken again, by the second call, and does not raise. Then the third call gets that slot too. -/
theorem doubled_release_shares :
    ∃ pool, Transition.Run Pool.step Transition.anyAction (.init ⟨1, 4, [true], 1, true⟩)
      [.acquire 1 false, .release 0, .acquire 1 false, .release 0, .acquire 1 false] pool ∧
      pool.owned 1 = some ⟨0, 1⟩ ∧ pool.owned 2 = some ⟨0, 1⟩ := by
  have hrun := Transition.run_of_isSome step (.init ⟨1, 4, [true], 1, true⟩)
    [.acquire 1 false, .release 0, .acquire 1 false, .release 0, .acquire 1 false]
    (by decide +kernel)
  exact ⟨_, hrun, by decide +kernel, by decide +kernel⟩

end Omni.Relay
