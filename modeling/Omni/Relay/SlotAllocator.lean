import Omni.Library.Slots
import Mathlib.Data.String.Basic

/-!
# `_ContiguousSlotAllocator`

The slot pool of the CUDA-IPC relay, piece by piece. A call of `acquire_async` runs one
round of its loop at a time and then waits for `_changed`.
-/

namespace Omni.Relay

/-- What an operation of the pool raises. -/
inductive SlotError
  | valueError (message : String)
  | runtimeError (message : String)
  deriving DecidableEq

/-- `_ContiguousSlotAllocator`. The lock is never held across a suspension, so that it is
always free between two pieces. -/
structure SlotAllocator where
  slotCount : ℕ
  slotSize : ℕ
  free : List Bool
  freeSlots : ℤ
  /-- `_changed` is set. -/
  changed : Bool
  deriving DecidableEq

/-- `__init__`. -/
def SlotAllocator.new (slotCount slotSize : ℕ) : Except SlotError SlotAllocator :=
  if slotCount = 0 then .error (.valueError "slot_count must be positive")
  else if slotSize = 0 then .error (.valueError "slot_size must be positive")
  else .ok ⟨slotCount, slotSize, List.replicate slotCount true, slotCount, true⟩

/-- The loop of `_find_contiguous`. -/
def findContiguousFrom (numSlots : ℕ) : ℕ → ℕ → ℕ → List Bool → Option ℕ
  | _, _, _, [] => none
  | index, runStart, runLen, isFree :: rest =>
    if isFree then
      let runStart := if runLen = 0 then index else runStart
      if runLen + 1 = numSlots then some runStart
      else findContiguousFrom numSlots (index + 1) runStart (runLen + 1) rest
    else findContiguousFrom numSlots (index + 1) runStart 0 rest

/-- `_find_contiguous`. -/
def findContiguous (free : List Bool) (numSlots : ℕ) : Option ℕ :=
  findContiguousFrom numSlots 0 0 0 free

/-- `_SlotLayout`. -/
structure SlotLayout where
  slotIndex : Option ℕ
  freeSlots : ℕ
  largestFreeRun : ℕ
  freeRuns : ℕ

/-- The variables of `_find_contiguous_with_layout`. -/
structure LayoutScan extends SlotLayout where
  runStart : ℕ
  runLen : ℕ
  inRun : Bool

/-- One turn of the loop of `_find_contiguous_with_layout`. -/
def LayoutScan.next (numSlots : ℕ) (scan : LayoutScan) (index : ℕ) (isFree : Bool) : LayoutScan :=
  if isFree then
    let runStart := if scan.inRun then scan.runStart else index
    let runLen := (if scan.inRun then scan.runLen else 0) + 1
    { slotIndex := if scan.slotIndex = none ∧ numSlots ≤ runLen then some runStart
        else scan.slotIndex
      freeSlots := scan.freeSlots + 1
      largestFreeRun := max scan.largestFreeRun runLen
      freeRuns := if scan.inRun then scan.freeRuns else scan.freeRuns + 1
      runStart := runStart
      runLen := runLen
      inRun := true }
  else { scan with inRun := false, runLen := 0 }

/-- The loop of `_find_contiguous_with_layout`. -/
def layoutFrom (numSlots : ℕ) : LayoutScan → ℕ → List Bool → LayoutScan
  | scan, _, [] => scan
  | scan, index, isFree :: rest =>
    layoutFrom numSlots (scan.next numSlots index isFree) (index + 1) rest

/-- `_find_contiguous_with_layout`. -/
def findContiguousWithLayout (free : List Bool) (numSlots : ℕ) : SlotLayout :=
  (layoutFrom numSlots ⟨⟨none, 0, 0, 0⟩, 0, 0, false⟩ 0 free).toSlotLayout

/-- The variables of a call of `acquire_async`. -/
structure AcquireCall where
  numSlots : ℕ
  captureLayout : Bool
  waitRounds : ℕ
  lastFailedFreeSlots : ℤ
  lastFailedLargestFreeRun : ℕ
  lastFailedFreeRuns : ℕ
  deriving DecidableEq

/-- `_SlotAllocation`. -/
structure SlotAllocation where
  offset : ℕ
  waitRounds : ℕ
  freeSlotsBefore : ℤ
  largestFreeRunBefore : ℤ
  freeRunsBefore : ℤ
  lastFailedFreeSlots : ℤ
  lastFailedLargestFreeRun : ℕ
  lastFailedFreeRuns : ℕ
  deriving DecidableEq

/-- The beginning of `acquire_async`. -/
def SlotAllocator.beginAcquire (pool : SlotAllocator) (numSlots : ℤ) (captureLayout : Bool) :
    Except SlotError AcquireCall :=
  if numSlots ≤ 0 then .error (.valueError "num_slots must be positive")
  else if pool.slotCount < numSlots then
    .error (.valueError s!"allocation requires {numSlots} slots, but pool has {pool.slotCount}")
  else .ok ⟨numSlots.toNat, captureLayout, 0, 0, 0, 0⟩

/-- One round of `acquire_async`: an allocation, or a call that goes to sleep. -/
def SlotAllocator.acquireRound (pool : SlotAllocator) (call : AcquireCall) :
    SlotAllocator × (SlotAllocation ⊕ AcquireCall) :=
  match findContiguous pool.free call.numSlots with
  | some slotIndex =>
    let freeSlots := pool.freeSlots - call.numSlots
    ({ pool with
        free := setRange pool.free false ⟨slotIndex, call.numSlots⟩
        freeSlots := freeSlots
        changed := if freeSlots = 0 then false else pool.changed },
      .inl { call with
        offset := slotIndex * pool.slotSize, freeSlotsBefore := pool.freeSlots
        largestFreeRunBefore := -1, freeRunsBefore := -1 })
  | none =>
    let layout := findContiguousWithLayout pool.free call.numSlots
    let seen := if call.captureLayout then
        { call with
          lastFailedFreeSlots := pool.freeSlots
          lastFailedLargestFreeRun := layout.largestFreeRun
          lastFailedFreeRuns := layout.freeRuns }
      else call
    ({ pool with changed := false }, .inr { seen with waitRounds := seen.waitRounds + 1 })

/-- The slots that a call of `release` names. -/
def SlotAllocator.rangeAt (pool : SlotAllocator) (offset numSlots : ℤ) : SlotRange :=
  ⟨(offset / pool.slotSize).toNat, numSlots.toNat⟩

/-- `release`. -/
def SlotAllocator.release (pool : SlotAllocator) (offset numSlots : ℤ) :
    Except SlotError SlotAllocator :=
  if numSlots ≤ 0 then .error (.valueError "num_slots must be positive")
  else if offset % pool.slotSize ≠ 0 then .error (.valueError "offset must be slot aligned")
  else if offset / pool.slotSize < 0 ∨ (pool.slotCount : ℤ) < offset / pool.slotSize + numSlots then
    .error (.valueError "slot range is outside the pool")
  else
    let range := pool.rangeAt offset numSlots
    if (List.range' range.start range.count).any fun index => pool.free.getD index false then
      .error (.runtimeError "cuda_ipc slot released twice")
    else .ok { pool with
      free := setRange pool.free true range
      freeSlots := pool.freeSlots + numSlots
      changed := true }

variable {numSlots : ℕ} (rest free : List Bool)

/-- The loop of `_find_contiguous` has seen the slots before `index`, of which the last
`runLen` are free, and no fitting run starts before these. -/
theorem findContiguousFrom_firstFit {flags : List Bool} {index runStart runLen : ℕ}
    (hrest : flags.drop index = rest) (hstart : runLen ≠ 0 → runStart + runLen = index)
    (hle : runLen ≤ index) (hlt : runLen < numSlots)
    (hrun : Uniform flags true ⟨index - runLen, runLen⟩)
    (hbefore : ∀ start < index - runLen, ¬Uniform flags true ⟨start, numSlots⟩) :
    FirstFit flags numSlots (findContiguousFrom numSlots index runStart runLen rest) := by
  induction rest generalizing index runStart runLen with
  | nil =>
    have hend : flags.length ≤ index := List.drop_eq_nil_iff.mp hrest
    intro start huniform
    by_cases hearly : start < index - runLen
    · exact hbefore start hearly huniform
    · have hflag := huniform (max start index) ⟨le_max_left .., by simp only; omega⟩
      have hslot := (List.getElem?_eq_some_iff.mp hflag).1
      omega
  | cons isFree rest ih =>
    have hflag : flags[index]? = some isFree := by
      have hhead := congrArg List.head? hrest
      rwa [List.head?_drop] at hhead
    have htail : flags.drop (index + 1) = rest := by
      have hnext := congrArg List.tail hrest
      rwa [List.tail_drop] at hnext
    cases isFree with
    | true =>
      have hlonger : Uniform flags true ⟨index - runLen, runLen + 1⟩ := by
        intro slot hslot
        by_cases hlast : slot = index
        · rw [hlast]
          exact hflag
        · have hend : slot < index - runLen + (runLen + 1) := hslot.2
          exact hrun slot ⟨hslot.1, by simp only; omega⟩
      have hstart' : (if runLen = 0 then index else runStart) = index - runLen := by
        split
        · omega
        next hne =>
          omega
      simp only [findContiguousFrom, if_true, hstart']
      split
      next hfound =>
        exact ⟨hfound ▸ hlonger, hbefore⟩
      next hmore =>
        have hsame : index + 1 - (runLen + 1) = index - runLen := by omega
        refine ih htail (fun _ => by omega) (by omega) (by omega) ?_ ?_
        · rw [hsame]
          exact hlonger
        · rw [hsame]
          exact hbefore
    | false =>
      refine ih htail (fun hne => absurd rfl hne) (Nat.zero_le _) (by omega) ?_ ?_
      · intro slot hslot
        have hfrom : index + 1 - 0 ≤ slot := hslot.1
        have hend : slot < index + 1 - 0 + 0 := hslot.2
        omega
      · intro start hearly huniform
        by_cases hearlier : start < index - runLen
        · exact hbefore start hearlier huniform
        · have htaken := huniform index ⟨by simp only; omega, by simp only; omega⟩
          rw [hflag] at htaken
          simp at htaken

theorem findContiguous_firstFit (hpos : 0 < numSlots) :
    FirstFit free numSlots (findContiguous free numSlots) := by
  refine findContiguousFrom_firstFit free rfl (fun hne => absurd rfl hne) le_rfl hpos ?_ ?_
  · intro slot hslot
    have hend : slot < 0 := hslot.2
    omega
  · omega

variable {scan : LayoutScan}

theorem layoutFrom_found {slotIndex : ℕ} (hfound : scan.slotIndex = some slotIndex) (index : ℕ) :
    (layoutFrom numSlots scan index rest).slotIndex = some slotIndex := by
  induction rest generalizing scan index with
  | nil => exact hfound
  | cons isFree rest ih =>
    refine ih ?_ (index + 1)
    unfold LayoutScan.next
    split
    · simp [hfound]
    · exact hfound

/-- Until they find a slot, both loops go through the same runs. -/
theorem layoutFrom_slotIndex (hnone : scan.slotIndex = none)
    (hrun : scan.inRun = true ↔ scan.runLen ≠ 0) (hlt : scan.runLen < numSlots) (index : ℕ) :
    (layoutFrom numSlots scan index rest).slotIndex =
      findContiguousFrom numSlots index scan.runStart scan.runLen rest := by
  induction rest generalizing scan index with
  | nil => exact hnone
  | cons isFree rest ih =>
    cases isFree with
    | false =>
      exact @ih (scan.next numSlots index false) hnone (by simp [LayoutScan.next])
        (by simp only [LayoutScan.next]; simp; omega) (index + 1)
    | true =>
      have hstart : (if scan.inRun then scan.runStart else index) =
          if scan.runLen = 0 then index else scan.runStart := by
        by_cases hzero : scan.runLen = 0
        · have hout : scan.inRun = false := by simpa [hzero] using hrun
          simp [hzero, hout]
        · simp [hzero, hrun.mpr hzero]
      have hlen : (if scan.inRun then scan.runLen else 0) = scan.runLen := by
        by_cases hzero : scan.runLen = 0
        · simp [hzero]
        · simp [hrun.mpr hzero]
      simp only [findContiguousFrom, if_true, layoutFrom]
      split
      next hfound =>
        refine layoutFrom_found rest ?_ (index + 1)
        simp only [LayoutScan.next, if_true, hstart, hlen]
        rw [if_pos ⟨hnone, hfound.ge⟩]
      next hmore =>
        have hnext : (scan.next numSlots index true).slotIndex = none := by
          simp only [LayoutScan.next, if_true, hlen]
          rw [if_neg (by omega), hnone]
        have hstep := @ih (scan.next numSlots index true) hnext
          (by simp [LayoutScan.next]) (by simp only [LayoutScan.next, if_true, hlen]; omega)
          (index + 1)
        simpa only [LayoutScan.next, if_true, hstart, hlen] using hstep

/-- The plain search and the one that reports the layout agree. -/
theorem findContiguousWithLayout_slotIndex (hpos : 0 < numSlots) :
    (findContiguousWithLayout free numSlots).slotIndex = findContiguous free numSlots :=
  layoutFrom_slotIndex free rfl (by simp) hpos 0

end Omni.Relay
