import Mathlib.Logic.Function.Basic
import Omni.Library.Transition
import Omni.Relay.CreditAllocator

/-!
# Put operations of `NixlRelay`

The receivers of all puts send the same notification, `b"done"`, and the wait of every put
takes whatever notifications have arrived. A pending notification is kept under the number
of the put whose receiver has sent it, which the code cannot see.
-/

namespace Omni.Relay.Nixl

open List

/-- How far `wait_for_completion` of an operation is. -/
inductive Wait
  | idle
  /-- In `asyncio.sleep`, between two rounds. -/
  | sleeping
  | succeeded
  | timedOut
  deriving DecidableEq

/-- `_completed`. -/
def Wait.completed : Wait → Bool
  | .succeeded => true
  | .timedOut => true
  | _ => false

/-- What `put_async` raises. -/
inductive PutError
  | valueError (message : String)
  /-- The copy into the pool raises, or `get_agent_metadata`. -/
  | copyFailed (message : String)
  deriving DecidableEq

/-- A call of `put_async`. -/
inductive Put
  /-- In `allocator.acquire_async`. -/
  | acquiring (size : ℕ)
  | raised (error : PutError)
  /-- The `PutOperation` that it returned. -/
  | operation (offset : ℕ) (wait : Wait)
  deriving DecidableEq

/-- The relay with the notifications that have arrived and the puts whose receivers have
finished reading. -/
structure NixlRelay where
  allocator : CreditAllocator
  puts : ℕ → Option Put
  newNotifs : List ℕ
  finished : List ℕ

/-- The relay with a new pool. -/
def NixlRelay.init (credits slotSize : ℕ) : NixlRelay :=
  ⟨.new credits slotSize, fun _ => none, [], []⟩

namespace NixlRelay

/-- Assign to one call. -/
def setPut (s : NixlRelay) (k : ℕ) (put : Put) : NixlRelay :=
  { s with puts := Function.update s.puts k (some put) }

@[simp] theorem setPut_self (s : NixlRelay) (k : ℕ) (put : Put) :
    (s.setPut k put).puts k = some put :=
  Function.update_self ..

variable {k : ℕ}

theorem setPut_of_ne (s : NixlRelay) {l : ℕ} (put : Put) (hne : l ≠ k) :
    (s.setPut k put).puts l = s.puts l :=
  Function.update_of_ne hne _ _

/-- The beginning of `put_async`, up to the wait for a credit. -/
def beginPut (s : NixlRelay) (k size : ℕ) : NixlRelay :=
  if s.allocator.slotSize < size then
    s.setPut k (.raised (.valueError s!"Tensor size {size} exceeds slot size"))
  else s.setPut k (.acquiring size)

/-- `put_async` goes on with a credit. -/
def resumePut (s : NixlRelay) (k : ℕ) (copyError : Option String) : Option NixlRelay :=
  match s.allocator.acquire? with
  | none => none
  | some (offset, allocator) => some (match copyError with
    | some message => { s with allocator := allocator.release offset }.setPut k
        (.raised (.copyFailed message))
    | none => { s with allocator := allocator }.setPut k (.operation offset .idle))

/-- The end of `wait_for_completion`: the credit goes back. -/
def finishWait (s : NixlRelay) (k offset : ℕ) (result : Wait) : NixlRelay :=
  { s with allocator := s.allocator.release offset }.setPut k (.operation offset result)

/-- A round of `wait_for_completion`, which takes all notifications that have arrived.
`expired`: the time is up. -/
def waitRound (s : NixlRelay) (k offset : ℕ) (expired : Bool) : NixlRelay :=
  if s.newNotifs ≠ [] then { s with newNotifs := [] }.finishWait k offset .succeeded
  else if expired then s.finishWait k offset .timedOut
  else s.setPut k (.operation offset .sleeping)

end NixlRelay

/-- What can happen to the relay. -/
inductive Action
  | put (k size : ℕ)
  | resumePut (k : ℕ) (copyError : Option String)
  /-- The receiver of a put finishes its read, and its notification arrives. -/
  | finishRead (k : ℕ)
  /-- A round of the wait of a put. -/
  | waitRound (k : ℕ) (expired : Bool)

/-- The transition function. -/
def NixlRelay.step (s : NixlRelay) : Action → Option NixlRelay
  | .put k size =>
    match s.puts k with
    | none => some (s.beginPut k size)
    | some _ => none
  | .resumePut k copyError =>
    match s.puts k with
    | some (.acquiring _) => s.resumePut k copyError
    | _ => none
  | .finishRead k =>
    match s.puts k with
    | some (.operation _ _) =>
      if k ∈ s.finished then none
      else some { s with newNotifs := s.newNotifs ++ [k], finished := k :: s.finished }
    | _ => none
  | .waitRound k expired =>
    match s.puts k with
    | some (.operation offset wait) =>
      if wait.completed = true then none else some (s.waitRound k offset expired)
    | _ => none

/-- The changes that a step can make. -/
inductive Effect (s : NixlRelay) : Action → NixlRelay → Prop
  /-- A call begins, or raises. -/
  | assign {k size : ℕ} {put : Put} :
    (∀ offset wait, s.puts k ≠ some (.operation offset wait)) →
    (∀ offset wait, put ≠ .operation offset wait) → Effect s (.put k size) (s.setPut k put)
  /-- The copy of a call raises. -/
  | fail {k : ℕ} {copyError : Option String} {put : Put} {offset : ℕ}
    {allocator : CreditAllocator} :
    (∀ offset wait, s.puts k ≠ some (.operation offset wait)) →
    (∀ offset wait, put ≠ .operation offset wait) →
    s.allocator.acquire? = some (offset, allocator) →
    Effect s (.resumePut k copyError) ({ s with allocator := allocator.release offset }.setPut k
      put)
  /-- A call returns its operation. -/
  | opened {k offset : ℕ} {copyError : Option String} {allocator : CreditAllocator} :
    (∀ offset wait, s.puts k ≠ some (.operation offset wait)) →
    s.allocator.acquire? = some (offset, allocator) →
    Effect s (.resumePut k copyError)
      ({ s with allocator := allocator }.setPut k (.operation offset .idle))
  /-- A receiver finishes. -/
  | finishRead {k offset : ℕ} {wait : Wait} : s.puts k = some (.operation offset wait) →
    k ∉ s.finished → Effect s (.finishRead k)
      { s with newNotifs := s.newNotifs ++ [k], finished := k :: s.finished }
  /-- A wait returns. -/
  | succeed {k offset : ℕ} {wait : Wait} {expired : Bool} :
    s.puts k = some (.operation offset wait) → wait.completed = false → s.newNotifs ≠ [] →
    Effect s (.waitRound k expired) ({ s with newNotifs := [] }.finishWait k offset .succeeded)
  /-- A wait times out. -/
  | timeOut {k offset : ℕ} {wait : Wait} :
    s.puts k = some (.operation offset wait) → wait.completed = false → s.newNotifs = [] →
    Effect s (.waitRound k true) (s.finishWait k offset .timedOut)
  /-- A wait goes to sleep. -/
  | sleep {k offset : ℕ} {wait : Wait} :
    s.puts k = some (.operation offset wait) → wait.completed = false → s.newNotifs = [] →
    Effect s (.waitRound k false) (s.setPut k (.operation offset .sleeping))

theorem effect_of_step {s t : NixlRelay} {a : Action} (hstep : s.step a = some t) :
    Effect s a t := by
  cases a with
  | put k size =>
    simp only [NixlRelay.step] at hstep
    split at hstep
    next hnone =>
      rw [← Option.some.inj hstep]
      unfold NixlRelay.beginPut
      split
      · exact .assign (by simp [hnone]) (by simp)
      · exact .assign (by simp [hnone]) (by simp)
    · cases hstep
  | resumePut k copyError =>
    simp only [NixlRelay.step] at hstep
    split at hstep
    next hacquiring =>
      unfold NixlRelay.resumePut at hstep
      split at hstep
      · cases hstep
      next offset allocator hacquire =>
        rw [← Option.some.inj hstep]
        cases copyError with
        | some message => exact .fail (by simp [hacquiring]) (by simp) hacquire
        | none => exact .opened (by simp [hacquiring]) hacquire
    · cases hstep
  | finishRead k =>
    simp only [NixlRelay.step] at hstep
    split at hstep
    next hput =>
      obtain ⟨hnew, hstep⟩ := Option.ite_none_left_eq_some.mp hstep
      rw [← Option.some.inj hstep]
      exact .finishRead hput hnew
    · cases hstep
  | waitRound k expired =>
    simp only [NixlRelay.step] at hstep
    split at hstep
    next offset wait hput =>
      obtain ⟨hopen, hstep⟩ := Option.ite_none_left_eq_some.mp hstep
      rw [Bool.not_eq_true] at hopen
      rw [← Option.some.inj hstep]
      unfold NixlRelay.waitRound
      split
      next hnotifs => exact .succeed hput hopen hnotifs
      next hnotifs =>
        rw [ne_eq, not_not] at hnotifs
        cases expired with
        | true => exact .timeOut hput hopen hnotifs
        | false => exact .sleep hput hopen hnotifs
    · cases hstep

/-- The wait of a put has ended. -/
def NixlRelay.Ended (s : NixlRelay) (k : ℕ) : Prop :=
  ∃ offset wait, s.puts k = some (.operation offset wait) ∧ wait.completed = true

/-- The buffer of a wait that has not ended is not free, and no other such wait has it. -/
structure NixlRelay.Buffers (s : NixlRelay) : Prop where
  nodup : s.allocator.freeCredits.Nodup
  taken : ∀ {k offset wait}, s.puts k = some (.operation offset wait) →
    wait.completed = false → offset ∉ s.allocator.freeCredits
  apart : ∀ {k l offset wait wait'}, s.puts k = some (.operation offset wait) →
    s.puts l = some (.operation offset wait') → wait.completed = false →
    wait'.completed = false → k = l

namespace NixlRelay.Buffers

variable {s : NixlRelay} {k offset : ℕ}

/-- The notifications play no part. -/
theorem congr {t : NixlRelay} (h : s.Buffers) (hputs : t.puts = s.puts)
    (hfree : t.allocator.freeCredits = s.allocator.freeCredits) : t.Buffers := by
  constructor
  · exact hfree ▸ h.nodup
  · intro k offset wait hput hopen
    rw [hfree]
    exact h.taken (hputs ▸ hput) hopen
  · intro k l offset wait wait' hk hl
    rw [hputs] at hk hl
    exact h.apart hk hl

variable {put : Put}

/-- A call is in a new place, where it holds no buffer that it did not hold before. -/
theorem assign (h : s.Buffers)
    (hput : ∀ offset wait, put = .operation offset wait → wait.completed = false →
      ∃ wait', s.puts k = some (.operation offset wait') ∧ wait'.completed = false) :
    (s.setPut k put).Buffers := by
  have hkept : ∀ {l offset wait}, (s.setPut k put).puts l = some (.operation offset wait) →
      wait.completed = false →
      ∃ wait', s.puts l = some (.operation offset wait') ∧ wait'.completed = false := by
    intro l offset wait hl hopen
    by_cases heq : l = k
    · subst heq
      rw [setPut_self, Option.some.injEq] at hl
      exact hput offset wait hl hopen
    · rw [setPut_of_ne s put heq] at hl
      exact ⟨wait, hl, hopen⟩
  constructor
  · exact h.nodup
  · intro l offset wait hl hopen
    obtain ⟨_, hl, hopen⟩ := hkept hl hopen
    exact h.taken hl hopen
  · intro l m offset wait wait' hl hm hopen hopen'
    obtain ⟨_, hl, hopen⟩ := hkept hl hopen
    obtain ⟨_, hm, hopen'⟩ := hkept hm hopen'
    exact h.apart hl hm hopen hopen'

/-- A call takes a free buffer. -/
theorem opened (h : s.Buffers) {allocator : CreditAllocator}
    (hacquire : s.allocator.acquire? = some (offset, allocator)) :
    ({ s with allocator := allocator }.setPut k (.operation offset .idle)).Buffers := by
  obtain ⟨hfree, _⟩ := CreditAllocator.acquire?_eq_some.mp hacquire
  have hnodup := h.nodup
  rw [hfree, nodup_cons] at hnodup
  have hput : ∀ {l}, l ≠ k →
      ({ s with allocator := allocator }.setPut k (.operation offset .idle)).puts l = s.puts l :=
    fun hne => setPut_of_ne _ _ hne
  have hnew : ∀ {l wait}, s.puts l = some (.operation offset wait) → wait.completed = false →
      False := by
    intro l wait hl hopen
    exact h.taken hl hopen (hfree ▸ mem_cons_self)
  constructor
  · exact hnodup.2
  · intro l other wait hl hopen
    by_cases heq : l = k
    · subst heq
      rw [setPut_self, Option.some.injEq, Put.operation.injEq] at hl
      exact hl.1 ▸ hnodup.1
    · rw [hput heq] at hl
      intro hmem
      exact h.taken hl hopen (hfree ▸ mem_cons_of_mem _ hmem)
  · intro l m other wait wait' hl hm hopen hopen'
    by_cases hlk : l = k
    · by_cases hmk : m = k
      · rw [hlk, hmk]
      · rw [hlk, setPut_self, Option.some.injEq, Put.operation.injEq] at hl
        rw [hput hmk, ← hl.1] at hm
        exact (hnew hm hopen').elim
    · rw [hput hlk] at hl
      by_cases hmk : m = k
      · rw [hmk, setPut_self, Option.some.injEq, Put.operation.injEq] at hm
        rw [← hm.1] at hl
        exact (hnew hl hopen).elim
      · rw [hput hmk] at hm
        exact h.apart hl hm hopen hopen'

/-- A buffer that nobody holds is given back. -/
theorem release (h : s.Buffers) (hfree : offset ∉ s.allocator.freeCredits)
    (hheld : ∀ k wait, s.puts k = some (.operation offset wait) → wait.completed = true) :
    { s with allocator := s.allocator.release offset }.Buffers := by
  constructor
  · exact CreditAllocator.nodup_release h.nodup hfree
  · intro k other wait hput hopen hmem
    rcases CreditAllocator.mem_of_mem_release hmem with hbefore | rfl
    · exact h.taken hput hopen hbefore
    · rw [hheld k wait hput] at hopen
      cases hopen
  · exact h.apart

/-- A free buffer is taken and given back at once. -/
theorem acquire_release (h : s.Buffers) {allocator : CreditAllocator}
    (hacquire : s.allocator.acquire? = some (offset, allocator)) :
    { s with allocator := allocator.release offset }.Buffers := by
  obtain ⟨hfree, _⟩ := CreditAllocator.acquire?_eq_some.mp hacquire
  have hnodup := h.nodup
  rw [hfree, nodup_cons] at hnodup
  have htaken : { s with allocator := allocator }.Buffers := by
    refine ⟨hnodup.2, fun hput hopen hmem => ?_, h.apart⟩
    exact h.taken hput hopen (hfree ▸ mem_cons_of_mem _ hmem)
  refine htaken.release hnodup.1 fun k wait hput => ?_
  by_contra hopen
  exact h.taken hput (Bool.not_eq_true _ ▸ hopen) (hfree ▸ mem_cons_self)

variable {wait : Wait}

/-- A wait ends and its buffer is given back. -/
theorem finishWait (h : s.Buffers) {result : Wait} (hput : s.puts k = some (.operation offset wait))
    (hopen : wait.completed = false) (hresult : result.completed = true) :
    (s.finishWait k offset result).Buffers := by
  have hended : (s.setPut k (.operation offset result)).Buffers := by
    refine h.assign fun other wait' heq hopen' => ?_
    rw [Put.operation.injEq] at heq
    rw [← heq.2, hresult] at hopen'
    cases hopen'
  refine hended.release (h.taken hput hopen) fun l wait' hl => ?_
  by_cases heq : l = k
  · subst heq
    rw [setPut_self, Option.some.injEq, Put.operation.injEq] at hl
    exact hl.2 ▸ hresult
  · rw [setPut_of_ne s _ heq] at hl
    by_contra hother
    exact heq (h.apart hl hput (Bool.not_eq_true _ ▸ hother) hopen)

theorem step (h : s.Buffers) {a : Action} {t : NixlRelay} (hstep : s.step a = some t) :
    t.Buffers := by
  cases effect_of_step hstep with
  | assign _ hnew => exact h.assign fun offset wait heq => absurd heq (hnew offset wait)
  | fail _ hnew hacquire =>
    exact (h.acquire_release hacquire).assign fun offset wait heq => absurd heq (hnew offset wait)
  | opened _ hacquire => exact h.opened hacquire
  | finishRead => exact h.congr rfl rfl
  | succeed hput hopen _ =>
    have htaken : { s with newNotifs := [] }.Buffers := h.congr rfl rfl
    exact htaken.finishWait hput hopen rfl
  | timeOut hput hopen _ => exact h.finishWait hput hopen rfl
  | sleep hput hopen _ =>
    refine h.assign fun offset wait heq _ => ?_
    rw [Put.operation.injEq] at heq
    exact ⟨_, heq.1 ▸ hput, hopen⟩

/-- The offsets of a new pool are distinct. -/
theorem init (credits slotSize : ℕ) (hsize : 0 < slotSize) :
    (init credits slotSize).Buffers := by
  constructor
  · refine List.Nodup.map ?_ nodup_range
    exact fun i j hij => Nat.eq_of_mul_eq_mul_right hsize hij
  · intro k offset wait hput
    simp [NixlRelay.init] at hput
  · intro k l offset wait wait' hput
    simp [NixlRelay.init] at hput

end NixlRelay.Buffers

/-- The notifications that have arrived, and the reads that have finished, are of puts that
have returned. -/
structure NixlRelay.Sound (s : NixlRelay) : Prop where
  arrived : ∀ {k}, k ∈ s.newNotifs → k ∈ s.finished
  returned : ∀ {k}, k ∈ s.finished → ∃ offset wait, s.puts k = some (.operation offset wait)

/-- A wait returns only after its own receiver has finished, and a receiver that has finished
ends the wait of its put: its notification is still there, or the wait has ended. -/
structure NixlRelay.Paired (s : NixlRelay) : Prop where
  own : ∀ {k offset}, s.puts k = some (.operation offset .succeeded) → k ∈ s.finished
  ends : ∀ {k}, k ∈ s.finished → k ∈ s.newNotifs ∨ s.Ended k

/-- A wait ends, and its buffer becomes reusable, only after its own receiver has finished. -/
def NixlRelay.Kept (s : NixlRelay) : Prop :=
  ∀ k, s.Ended k → k ∈ s.finished

/-- A round that takes notifications takes the one of its own receiver, and else only those
of waits that have ended. -/
def OwnOnly (s : NixlRelay) : Action → Prop
  | .waitRound k _ => s.newNotifs ≠ [] →
      k ∈ s.newNotifs ∧ ∀ l ∈ s.newNotifs, l ≠ k → s.Ended l
  | _ => True

/-- No wait is given up. -/
def InTime (s : NixlRelay) : Action → Prop
  | .waitRound _ expired => s.newNotifs = [] → expired = false
  | _ => True

namespace NixlRelay

variable {s t : NixlRelay} {a : Action}

variable {k : ℕ} {put : Put}

/-- After a change of one call, another one has ended exactly if it had before. -/
theorem ended_setPut_of_ne {l : ℕ} (hne : l ≠ k) :
    (s.setPut k put).Ended l ↔ s.Ended l := by
  unfold Ended
  rw [setPut_of_ne s put hne]

/-- A call that is given an open wait, or none, has not ended. -/
theorem not_ended_setPut
    (hput : ∀ offset wait, put = .operation offset wait → wait.completed = false) :
    ¬(s.setPut k put).Ended k := by
  rintro ⟨offset, wait, heq, hended⟩
  rw [setPut_self, Option.some.injEq] at heq
  rw [hput offset wait heq] at hended
  cases hended

variable {offset : ℕ}

theorem ended_finishWait {result : Wait} (hresult : result.completed = true) :
    (s.finishWait k offset result).Ended k :=
  ⟨offset, result, setPut_self .., hresult⟩

variable {wait : Wait}

theorem not_ended (hput : s.puts k = some (.operation offset wait))
    (hopen : wait.completed = false) :
    ¬s.Ended k := by
  rintro ⟨other, wait', hother, hended⟩
  rw [hput, Option.some.injEq, Put.operation.injEq] at hother
  rw [← hother.2, hopen] at hended
  cases hended

/-- A call that has not ended and does not end now changes nothing about ended waits. -/
theorem ended_setPut (hbefore : ¬s.Ended k)
    (hput : ∀ offset wait, put = .operation offset wait → wait.completed = false) (l : ℕ) :
    (s.setPut k put).Ended l ↔ s.Ended l := by
  by_cases heq : l = k
  · subst heq
    exact iff_of_false (not_ended_setPut hput) hbefore
  · exact ended_setPut_of_ne heq

/-- Such a call keeps waits and receivers paired. -/
theorem Paired.setPut (h : s.Paired) (hbefore : ¬s.Ended k)
    (hput : ∀ offset wait, put = .operation offset wait → wait.completed = false) :
    (s.setPut k put).Paired := by
  constructor
  · intro l offset hl
    by_cases heq : l = k
    · subst heq
      rw [setPut_self, Option.some.injEq] at hl
      cases hput offset .succeeded hl
    · rw [setPut_of_ne s put heq] at hl
      exact h.own hl
  · intro l hl
    rw [ended_setPut hbefore hput]
    exact h.ends hl

/-- Such a call keeps buffers until their receivers have finished. -/
theorem Kept.setPut (h : s.Kept) (hbefore : ¬s.Ended k)
    (hput : ∀ offset wait, put = .operation offset wait → wait.completed = false) :
    (s.setPut k put).Kept := by
  intro l hl
  exact h l ((ended_setPut hbefore hput l).mp hl)

theorem not_ended_of_new (hnew : ∀ offset wait, s.puts k ≠ some (.operation offset wait)) :
    ¬s.Ended k := by
  rintro ⟨offset, wait, hput, _⟩
  exact hnew offset wait hput

/-- Assigning an operation to a call keeps every call that has returned one. -/
theorem Sound.setPut (h : s.Sound)
    (hput : (∀ offset wait, s.puts k ≠ some (.operation offset wait)) ∨
      ∃ offset wait, put = .operation offset wait) : (s.setPut k put).Sound := by
  refine ⟨h.arrived, fun {l} hl => ?_⟩
  obtain ⟨offset, wait, hbefore⟩ := h.returned hl
  by_cases heq : l = k
  · subst heq
    rcases hput with hnew | ⟨offset', wait', rfl⟩
    · exact absurd hbefore (hnew offset wait)
    · exact ⟨offset', wait', setPut_self ..⟩
  · exact ⟨offset, wait, by rw [setPut_of_ne s put heq, hbefore]⟩

/-- The credits play no part. -/
theorem Sound.allocator (h : s.Sound) (allocator : CreditAllocator) :
    { s with allocator := allocator }.Sound :=
  ⟨h.arrived, h.returned⟩

/-- The credits play no part. -/
theorem Paired.allocator (h : s.Paired) (allocator : CreditAllocator) :
    { s with allocator := allocator }.Paired :=
  ⟨h.own, h.ends⟩

/-- Notifications come only from puts that have returned. -/
theorem Sound.step (h : s.Sound) (hstep : s.step a = some t) : t.Sound := by
  cases effect_of_step hstep with
  | assign hnew _ => exact h.setPut (Or.inl hnew)
  | fail hnew _ _ => exact (h.allocator _).setPut (Or.inl hnew)
  | opened hnew _ => exact (h.allocator _).setPut (Or.inl hnew)
  | @finishRead k offset wait hput hnew =>
    constructor
    · intro l hl
      rcases mem_append.mp hl with hbefore | hself
      · exact mem_cons_of_mem k (h.arrived hbefore)
      · exact mem_singleton.mp hself ▸ mem_cons_self
    · intro l hl
      rcases mem_cons.mp hl with rfl | hbefore
      · exact ⟨offset, wait, hput⟩
      · exact h.returned hbefore
  | succeed _ _ _ =>
    have htaken : { s with newNotifs := [] }.Sound := ⟨by simp, h.returned⟩
    exact (htaken.allocator _).setPut (Or.inr ⟨_, _, rfl⟩)
  | timeOut _ _ _ => exact (h.allocator _).setPut (Or.inr ⟨_, _, rfl⟩)
  | sleep _ _ _ => exact h.setPut (Or.inr ⟨_, _, rfl⟩)

/-- A wait that succeeds leaves waits and receivers paired exactly if it takes its own
notification and leaves nobody else without. -/
theorem paired_succeed_iff (hsound : s.Sound) (h : s.Paired)
    (hput : s.puts k = some (.operation offset wait)) (hopen : wait.completed = false) :
    ({ s with newNotifs := [] }.finishWait k offset .succeeded).Paired ↔
      k ∈ s.newNotifs ∧ ∀ l ∈ s.newNotifs, l ≠ k → s.Ended l := by
  have hother : ∀ {l}, l ≠ k →
      (({ s with newNotifs := [] }.finishWait k offset .succeeded).Ended l ↔ s.Ended l) :=
    fun hne => ended_setPut_of_ne hne
  constructor
  · intro hpaired
    have hfinished : k ∈ s.finished := hpaired.own (setPut_self ..)
    constructor
    · rcases h.ends hfinished with harrived | hended
      · exact harrived
      · exact absurd hended (not_ended hput hopen)
    · intro l hl hne
      rcases hpaired.ends (hsound.arrived hl) with hnone | hended
      · cases hnone
      · exact (hother hne).mp hended
  · rintro ⟨hown, hrest⟩
    constructor
    · intro l offset' hl
      by_cases heq : l = k
      · subst heq
        exact hsound.arrived hown
      · exact h.own ((setPut_of_ne _ _ heq).symm.trans hl)
    · intro l hl
      right
      by_cases heq : l = k
      · exact heq ▸ ended_finishWait rfl
      · rw [hother heq]
        rcases h.ends hl with harrived | hended
        · exact hrest l harrived heq
        · exact hended

/-- A wait that is given up leaves waits and receivers paired. -/
theorem Paired.timeOut (h : s.Paired) :
    (s.finishWait k offset .timedOut).Paired := by
  constructor
  · intro l offset' hl
    by_cases heq : l = k
    · subst heq
      simp [finishWait] at hl
    · exact h.own ((setPut_of_ne _ _ heq).symm.trans hl)
  · intro l hl
    rcases h.ends hl with harrived | hended
    · exact Or.inl harrived
    · right
      by_cases heq : l = k
      · exact heq ▸ ended_finishWait rfl
      · exact (ended_setPut_of_ne heq).mpr hended

/-- A receiver that finishes leaves waits and receivers paired. -/
theorem Paired.finishRead (h : s.Paired) (k : ℕ) :
    { s with newNotifs := s.newNotifs ++ [k], finished := k :: s.finished }.Paired := by
  constructor
  · intro l offset hl
    exact mem_cons_of_mem k (h.own hl)
  · intro l hl
    rcases mem_cons.mp hl with rfl | hbefore
    · exact Or.inl (mem_append_right _ (mem_singleton_self l))
    · rcases h.ends hbefore with harrived | hended
      · exact Or.inl (mem_append_left _ harrived)
      · exact Or.inr hended

/-- A step leaves waits and receivers paired exactly if it takes only its own notification. -/
theorem paired_step_iff (hsound : s.Sound) (h : s.Paired) (hstep : s.step a = some t) :
    t.Paired ↔ OwnOnly s a := by
  cases effect_of_step hstep with
  | assign hold hnew =>
    refine iff_of_true (h.setPut (not_ended_of_new hold) ?_) trivial
    exact fun offset wait heq => absurd heq (hnew offset wait)
  | fail hold hnew _ =>
    refine iff_of_true ((h.allocator _).setPut (not_ended_of_new hold) ?_) trivial
    exact fun offset wait heq => absurd heq (hnew offset wait)
  | opened hold _ =>
    exact iff_of_true ((h.allocator _).setPut (not_ended_of_new hold) (by simp [Wait.completed]))
      trivial
  | @finishRead k _ _ _ _ => exact iff_of_true (h.finishRead k) trivial
  | succeed hput hopen hsome =>
    rw [paired_succeed_iff hsound h hput hopen]
    exact ⟨fun hown _ => hown, fun hown => hown hsome⟩
  | timeOut _ _ hnone => exact iff_of_true h.timeOut fun hsome => absurd hnone hsome
  | sleep hput hopen hnone =>
    exact iff_of_true (h.setPut (not_ended hput hopen) (by simp [Wait.completed]))
      fun hsome => absurd hnone hsome

/-- A step that takes only its own notification keeps buffers until their receivers have
finished exactly if it gives up no wait. -/
theorem kept_step_iff (hsound : s.Sound) (h : s.Paired) (hkept : s.Kept)
    (hstep : s.step a = some t) (hown : OwnOnly s a) : t.Kept ↔ InTime s a := by
  cases effect_of_step hstep with
  | assign hold hnew =>
    refine iff_of_true (hkept.setPut (not_ended_of_new hold) ?_) trivial
    exact fun offset wait heq => absurd heq (hnew offset wait)
  | fail hold hnew _ =>
    refine iff_of_true (Kept.setPut (s := { s with allocator := _ }) hkept
      (not_ended_of_new hold) ?_) trivial
    exact fun offset wait heq => absurd heq (hnew offset wait)
  | opened hold _ =>
    exact iff_of_true (Kept.setPut (s := { s with allocator := _ }) hkept
      (not_ended_of_new hold) (by simp [Wait.completed])) trivial
  | @finishRead k _ _ _ _ =>
    exact iff_of_true (fun l hl => mem_cons_of_mem k (hkept l hl)) trivial
  | @succeed k _ _ _ _ _ hsome =>
    refine iff_of_true (fun l hl => ?_) fun hnone => absurd hnone hsome
    by_cases heq : l = k
    · subst heq
      exact hsound.arrived (hown hsome).1
    · exact hkept l ((ended_setPut_of_ne heq).mp hl)
  | @timeOut k _ _ hput hopen hnone =>
    refine iff_of_false (fun hkept' => ?_) fun hintime => by cases hintime hnone
    have hfinished : k ∈ s.finished := hkept' k (ended_finishWait rfl)
    rcases h.ends hfinished with harrived | hended
    · simp [hnone] at harrived
    · exact not_ended hput hopen hended
  | sleep hput hopen _ =>
    exact iff_of_true (hkept.setPut (not_ended hput hopen) (by simp [Wait.completed])) fun _ => rfl

/-- Nothing has happened at first. -/
theorem init_sound (credits slotSize : ℕ) :
    (init credits slotSize).Sound ∧ (init credits slotSize).Paired ∧
      (init credits slotSize).Kept := by
  refine ⟨⟨by simp [init], by simp [init]⟩, ⟨by simp [init], by simp [init]⟩, ?_⟩
  rintro k ⟨offset, wait, hput, _⟩
  simp [init] at hput

end NixlRelay

/-- In exactly the runs whose rounds take only their own notifications, every wait that has
returned has done so after its own receiver, and every receiver ends its own wait. If also no
wait is given up, buffers become reusable only after their receivers, and only then. Buffers of
waits that have not ended are always taken, and apart. -/
theorem completes_own_iff {credits slotSize : ℕ} {as : List Action} {s : NixlRelay} :
    (Transition.Run NixlRelay.step (Transition.Towards NixlRelay.step NixlRelay.Paired)
        (.init credits slotSize) as s ↔
      Transition.Run NixlRelay.step OwnOnly (.init credits slotSize) as s) ∧
    (Transition.Run NixlRelay.step
        (Transition.Towards NixlRelay.step fun t => t.Paired ∧ t.Kept)
        (.init credits slotSize) as s ↔
      Transition.Run NixlRelay.step (fun s a => OwnOnly s a ∧ InTime s a)
        (.init credits slotSize) as s) ∧
    (0 < slotSize →
      Transition.Run NixlRelay.step Transition.anyAction (.init credits slotSize) as s →
      s.Buffers) := by
  obtain ⟨hsound, hpaired, hkept⟩ := NixlRelay.init_sound credits slotSize
  refine ⟨?_, ?_, fun hsize hrun => ?_⟩
  · refine Transition.Run.congr (I := fun s => s.Sound ∧ s.Paired) ?_ ?_ ⟨hsound, hpaired⟩
    · rintro u a v ⟨hu, _⟩ hgood hstep
      exact ⟨hu.step hstep, hgood v hstep⟩
    · rintro u a v ⟨hu, hpaired⟩ hstep
      rw [← NixlRelay.paired_step_iff hu hpaired hstep]
      exact ⟨fun hgood => hgood v hstep, fun hv w hw =>
        Option.some.inj (hstep.symm.trans hw) ▸ hv⟩
  · refine Transition.Run.congr (I := fun s => s.Sound ∧ s.Paired ∧ s.Kept) ?_ ?_
      ⟨hsound, hpaired, hkept⟩
    · rintro u a v ⟨hu, _⟩ hgood hstep
      exact ⟨hu.step hstep, hgood v hstep⟩
    · rintro u a v ⟨hu, hpaired, hkept⟩ hstep
      have hown := NixlRelay.paired_step_iff hu hpaired hstep
      constructor
      · intro hgood
        obtain ⟨hv, hkept'⟩ := hgood v hstep
        exact ⟨hown.mp hv, (NixlRelay.kept_step_iff hu hpaired hkept hstep (hown.mp hv)).mp hkept'⟩
      · rintro ⟨honly, hintime⟩ w hw
        rw [← Option.some.inj (hstep.symm.trans hw)]
        exact ⟨hown.mpr honly, (NixlRelay.kept_step_iff hu hpaired hkept hstep honly).mpr hintime⟩
  · exact hrun.invariant (fun _ _ _ h _ hstep => h.step hstep)
      (NixlRelay.Buffers.init credits slotSize hsize)

/-- Two puts wait, and the one whose receiver has not finished takes the notification of the
other. -/
theorem notification_taken :
    ∃ s : NixlRelay, Transition.Reachable NixlRelay.step (.init 2 64) s ∧
      s.puts 0 = some (.operation 0 .succeeded) ∧ 0 ∉ s.finished ∧ 0 ∈ s.allocator.freeCredits ∧
      s.puts 1 = some (.operation 64 .sleeping) ∧ 1 ∈ s.finished ∧ s.newNotifs = [] := by
  have hrun := Transition.run_of_isSome NixlRelay.step (.init 2 64)
    [.put 0 8, .resumePut 0 none, .put 1 8, .resumePut 1 none, .waitRound 0 false,
      .waitRound 1 false, .finishRead 1, .waitRound 0 false] (by decide +kernel)
  exact ⟨_, ⟨_, hrun⟩, by decide +kernel⟩

end Omni.Relay.Nixl
