import Mathlib.Logic.Function.Basic
import Omni.Library.Transition
import Omni.Relay.CreditAllocator

/-!
# The sending side of `MooncakeRelay`

A put registers an `asyncio.Event` for the notification of its receiver, and the wait for
its completion registers another one in the same place. The listener sets the event that
is registered when it takes the notification. Events are kept under the number of their
creation, puts under their transfer id, which no two puts share.
-/

namespace Omni.Relay.Mooncake

open Function

/-- How far `wait_for_completion` of an operation is. -/
inductive Wait
  | idle
  /-- In `event.wait()` of the event with this number. -/
  | waiting (event : ℕ)
  | succeeded
  | timedOut
  deriving DecidableEq

/-- What `put_async` raises. -/
inductive PutError
  | valueError (message : String)
  /-- The copy into the pool raises. -/
  | copyFailed (message : String)
  deriving DecidableEq

/-- A call of `put_async`. -/
inductive Put
  /-- In `allocator.acquire_async`. -/
  | acquiring (size : ℕ)
  | raised (error : PutError)
  /-- The `PutOperation` that it returned. -/
  | operation (creditId : ℕ) (wait : Wait)
  deriving DecidableEq

/-- The relay, with the registry of its class. -/
structure MooncakeRelay where
  allocator : CreditAllocator
  notificationRegistry : String → Option ℕ
  /-- For every event whether it is set. -/
  events : List Bool
  puts : String → Option Put

/-- The relay with a new pool. -/
def MooncakeRelay.init (credits slotSize : ℕ) : MooncakeRelay :=
  ⟨.new credits slotSize, fun _ => none, [], fun _ => none⟩

namespace MooncakeRelay

/-- Assign to one call. -/
def setPut (s : MooncakeRelay) (transferId : String) (put : Put) : MooncakeRelay :=
  { s with puts := update s.puts transferId (some put) }

/-- `_register_notification`, whose event gets the number `s.events.length`. -/
def registerNotification (s : MooncakeRelay) (transferId : String) : MooncakeRelay :=
  { s with
    notificationRegistry :=
      update s.notificationRegistry transferId (some s.events.length)
    events := s.events ++ [false] }

/-- The listener handles one notification. -/
def handleNotify (s : MooncakeRelay) (name : String) : MooncakeRelay :=
  match s.notificationRegistry name with
  | some event => { s with events := s.events.set event true }
  | none => s

/-- The end of `wait_for_completion`: the registry forgets the transfer and the credit
goes back. -/
def finishWait (s : MooncakeRelay) (transferId : String) (creditId : ℕ) (result : Wait) :
    MooncakeRelay :=
  { s with
    allocator := s.allocator.release creditId
    notificationRegistry := update s.notificationRegistry transferId none
    puts := update s.puts transferId (some (.operation creditId result)) }

/-- The beginning of `put_async`, up to the wait for a credit. -/
def beginPut (s : MooncakeRelay) (transferId : String) (size : ℕ) : MooncakeRelay :=
  if s.allocator.slotSize < size then
    s.setPut transferId (.raised (.valueError
      (s!"Tensor size {size} exceeds slot size {s.allocator.slotSize}")))
  else (s.registerNotification transferId).setPut transferId (.acquiring size)

/-- `put_async` goes on with a credit. -/
def resumePut (s : MooncakeRelay) (transferId : String) (copyError : Option String) :
    Option MooncakeRelay :=
  match s.allocator.acquire? with
  | none => none
  | some (creditId, allocator) => some (match copyError with
    | some message => { s with allocator := allocator.release creditId }.setPut transferId
        (.raised (.copyFailed message))
    | none => { s with allocator := allocator }.setPut transferId (.operation creditId .idle))

end MooncakeRelay

/-- What can happen to the relay. -/
inductive Action
  | put (transferId : String) (size : ℕ)
  | resumePut (transferId : String) (copyError : Option String)
  /-- The listener takes the notifications with these names from `get_notifies`. -/
  | poll (names : List String)
  /-- `wait_for_completion` begins. -/
  | wait (transferId : String)
  /-- `event.wait()` returns. -/
  | complete (transferId : String)
  | timeout (transferId : String)

/-- The transition function. -/
def MooncakeRelay.step (s : MooncakeRelay) : Action → Option MooncakeRelay
  | .put transferId size =>
    match s.puts transferId with
    | none => some (s.beginPut transferId size)
    | some _ => none
  | .resumePut transferId copyError =>
    match s.puts transferId with
    | some (.acquiring _) => s.resumePut transferId copyError
    | _ => none
  | .poll names => some (names.foldl handleNotify s)
  | .wait transferId =>
    match s.puts transferId with
    | some (.operation creditId .idle) =>
      some ((s.registerNotification transferId).setPut transferId
        (.operation creditId (.waiting s.events.length)))
    | _ => none
  | .complete transferId =>
    match s.puts transferId with
    | some (.operation creditId (.waiting event)) =>
      if s.events[event]? = some true then
        some (s.finishWait transferId creditId .succeeded) else none
    | _ => none
  | .timeout transferId =>
    match s.puts transferId with
    | some (.operation creditId (.waiting event)) =>
      if s.events[event]? = some true then none
      else some (s.finishWait transferId creditId .timedOut)
    | _ => none

namespace MooncakeRelay

@[simp] theorem handleNotify_puts (s : MooncakeRelay) (name : String) :
    (s.handleNotify name).puts = s.puts := by
  unfold handleNotify
  split <;> rfl

@[simp] theorem handleNotify_registry (s : MooncakeRelay) (name : String) :
    (s.handleNotify name).notificationRegistry = s.notificationRegistry := by
  unfold handleNotify
  split <;> rfl

@[simp] theorem handleNotify_length (s : MooncakeRelay) (name : String) :
    (s.handleNotify name).events.length = s.events.length := by
  unfold handleNotify
  split
  · exact List.length_set
  · rfl

theorem handleNotify_events {s : MooncakeRelay} {name : String} {event : ℕ} :
    (s.handleNotify name).events[event]? = some true ↔
      s.events[event]? = some true ∨
        s.notificationRegistry name = some event ∧ event < s.events.length := by
  unfold handleNotify
  split
  next registered hregistered =>
    rw [hregistered, Option.some.injEq, List.getElem?_set]
    by_cases heq : registered = event
    · subst heq
      by_cases hlt : registered < s.events.length
      · simp [hlt]
      · simp [hlt]
    · simp [heq]
  next hnone => simp [hnone]

/-- The listener changes nothing but the events. -/
theorem foldl_handleNotify (names : List String) (s : MooncakeRelay) :
    (names.foldl handleNotify s).puts = s.puts ∧
      (names.foldl handleNotify s).notificationRegistry = s.notificationRegistry ∧
      (names.foldl handleNotify s).events.length = s.events.length := by
  induction names generalizing s with
  | nil => exact ⟨rfl, rfl, rfl⟩
  | cons name names ih =>
    obtain ⟨hputs, hregistry, hlength⟩ := ih (s.handleNotify name)
    rw [List.foldl_cons]
    exact ⟨by rw [hputs, handleNotify_puts], by rw [hregistry, handleNotify_registry],
      by rw [hlength, handleNotify_length]⟩

/-- The listener sets the events that are registered under the names it has taken. -/
theorem foldl_handleNotify_events {names : List String} {s : MooncakeRelay} {event : ℕ} :
    (names.foldl handleNotify s).events[event]? = some true ↔
      s.events[event]? = some true ∨
        ∃ name ∈ names, s.notificationRegistry name = some event ∧ event < s.events.length := by
  induction names generalizing s with
  | nil => simp
  | cons name names ih =>
    rw [List.foldl_cons, ih, handleNotify_events, handleNotify_registry, handleNotify_length,
      or_assoc]
    simp only [List.mem_cons, exists_eq_or_imp]

end MooncakeRelay

/-- The places of a call that neither waits nor has been notified. -/
def Put.Plain (put : Put) : Prop :=
  (∀ creditId event, put ≠ .operation creditId (.waiting event)) ∧
    ∀ creditId, put ≠ .operation creditId .succeeded

/-- The changes that a step can make. -/
inductive Effect (s : MooncakeRelay) : Action → MooncakeRelay → Prop
  /-- A call that has not returned an operation goes on. -/
  | assign {a : Action} {id : String} {put : Put} (allocator : CreditAllocator) :
    (∀ creditId wait, s.puts id ≠ some (.operation creditId wait)) → put.Plain →
      Effect s a ({ s with allocator := allocator }.setPut id put)
  /-- A new call, or a wait that begins, registers its event. -/
  | register {a : Action} {id : String} {put : Put} :
    (∀ creditId wait, s.puts id = some (.operation creditId wait) → wait = .idle) →
      put.Plain ∨ (∃ creditId, put = .operation creditId (.waiting s.events.length)) →
      Effect s a ((s.registerNotification id).setPut id put)
  /-- The listener runs. -/
  | poll (names : List String) :
    Effect s (.poll names) (names.foldl MooncakeRelay.handleNotify s)
  /-- A wait ends, with success exactly if its event is set. -/
  | finish {a : Action} {id : String} {creditId event : ℕ} {result : Wait} :
    s.puts id = some (.operation creditId (.waiting event)) →
      (s.events[event]? = some true ∧ result = .succeeded ∨
        s.events[event]? ≠ some true ∧ result = .timedOut) →
      Effect s a (s.finishWait id creditId result)

variable {t : MooncakeRelay} {a : Action}

theorem effect_of_step {s : MooncakeRelay} (hstep : s.step a = some t) :
    Effect s a t := by
  cases a with
  | put id size =>
    simp only [MooncakeRelay.step] at hstep
    split at hstep
    next hnone =>
      rw [← Option.some.inj hstep]
      unfold MooncakeRelay.beginPut
      split
      · exact .assign s.allocator (by simp [hnone]) (by simp [Put.Plain])
      · exact .register (by simp [hnone]) (Or.inl (by simp [Put.Plain]))
    · cases hstep
  | resumePut id copyError =>
    simp only [MooncakeRelay.step] at hstep
    split at hstep
    next hacquiring =>
      unfold MooncakeRelay.resumePut at hstep
      split at hstep
      · cases hstep
      · rw [← Option.some.inj hstep]
        cases copyError with
        | some message => exact .assign _ (by simp [hacquiring]) (by simp [Put.Plain])
        | none => exact .assign _ (by simp [hacquiring]) (by simp [Put.Plain])
    · cases hstep
  | poll names =>
    rw [← Option.some.inj hstep]
    exact .poll names
  | wait id =>
    simp only [MooncakeRelay.step] at hstep
    split at hstep
    next creditId hidle =>
      rw [← Option.some.inj hstep]
      refine .register ?_ (Or.inr ⟨creditId, rfl⟩)
      intro otherCredit wait hput
      rw [hidle, Option.some.injEq, Put.operation.injEq] at hput
      exact hput.2.symm
    · cases hstep
  | complete id =>
    simp only [MooncakeRelay.step] at hstep
    split at hstep
    next hput =>
      obtain ⟨hset, hstep⟩ := Option.ite_none_right_eq_some.mp hstep
      rw [← Option.some.inj hstep]
      exact .finish hput (Or.inl ⟨hset, rfl⟩)
    · cases hstep
  | timeout id =>
    simp only [MooncakeRelay.step] at hstep
    split at hstep
    next hput =>
      obtain ⟨hunset, hstep⟩ := Option.ite_none_left_eq_some.mp hstep
      rw [← Option.some.inj hstep]
      exact .finish hput (Or.inr ⟨hunset, rfl⟩)
    · cases hstep

/-- The names of the notifications that an action brings. -/
def Action.names : Action → List String
  | .poll names => names
  | _ => []

/-- The registry holds the events that are waited for, and an event that is set, or a wait
that has succeeded, has heard of its own transfer. -/
structure Registered (heard : String → Prop) (s : MooncakeRelay) : Prop where
  event_lt : ∀ {id event}, s.notificationRegistry id = some event → event < s.events.length
  injective : ∀ {id other event}, s.notificationRegistry id = some event →
    s.notificationRegistry other = some event → id = other
  waiting : ∀ {id creditId event}, s.puts id = some (.operation creditId (.waiting event)) →
    s.notificationRegistry id = some event
  set : ∀ {id event}, s.notificationRegistry id = some event → s.events[event]? = some true →
    heard id
  succeeded : ∀ {id creditId}, s.puts id = some (.operation creditId .succeeded) → heard id

/-- Nothing is registered at first. -/
theorem registered_init {heard : String → Prop} (credits slotSize : ℕ) :
    Registered heard (.init credits slotSize) where
  event_lt h := by simp [MooncakeRelay.init] at h
  injective h := by simp [MooncakeRelay.init] at h
  waiting h := by simp [MooncakeRelay.init] at h
  set h := by simp [MooncakeRelay.init] at h
  succeeded h := by simp [MooncakeRelay.init] at h

namespace Registered

variable {heard : String → Prop} {s : MooncakeRelay} {id : String}

/-- More may have been heard of. -/
theorem mono {heard' : String → Prop} (himp : ∀ id, heard id → heard' id)
    (h : Registered heard s) : Registered heard' s := { h with
  set hregistered hset := himp _ (h.set hregistered hset)
  succeeded hput := himp _ (h.succeeded hput) }

/-- The credits play no part. -/
theorem allocator (h : Registered heard s) (a : CreditAllocator) :
    Registered heard { s with allocator := a } :=
  { h with }

/-- A call is in a place where it does not wait and has not succeeded. -/
theorem setPut (h : Registered heard s) {put : Put} (hplain : put.Plain) :
    Registered heard (s.setPut id put) := { h with
  waiting := by
    intro other creditId event hput
    by_cases heq : other = id
    · subst heq
      simp only [MooncakeRelay.setPut, update_self, Option.some.injEq] at hput
      exact absurd hput (hplain.1 creditId event)
    · simp only [MooncakeRelay.setPut, update_of_ne heq] at hput
      exact h.waiting hput
  succeeded := by
    intro other creditId hput
    by_cases heq : other = id
    · subst heq
      simp only [MooncakeRelay.setPut, update_self, Option.some.injEq] at hput
      exact absurd hput (hplain.2 creditId)
    · simp only [MooncakeRelay.setPut, update_of_ne heq] at hput
      exact h.succeeded hput }

/-- A call registers a new event, and may wait for it at once. -/
theorem register (h : Registered heard s) {put : Put}
    (hput : put.Plain ∨ ∃ creditId, put = .operation creditId (.waiting s.events.length)) :
    Registered heard ((s.registerNotification id).setPut id put) where
  event_lt := by
    intro other event hregistered
    change update s.notificationRegistry id _ other = some event at hregistered
    change event < (s.events ++ [false]).length
    rw [List.length_append, List.length_singleton]
    by_cases heq : other = id
    · subst heq
      rw [update_self, Option.some.injEq] at hregistered
      omega
    · rw [update_of_ne heq] at hregistered
      have hlt := h.event_lt hregistered
      omega
  injective := by
    intro first second event hfirst hsecond
    change update s.notificationRegistry id _ first = some event at hfirst
    change update s.notificationRegistry id _ second = some event at hsecond
    by_cases hone : first = id <;> by_cases htwo : second = id
    · rw [hone, htwo]
    · rw [hone, update_self, Option.some.injEq] at hfirst
      rw [update_of_ne htwo] at hsecond
      have hlt := h.event_lt hsecond
      omega
    · rw [htwo, update_self, Option.some.injEq] at hsecond
      rw [update_of_ne hone] at hfirst
      have hlt := h.event_lt hfirst
      omega
    · rw [update_of_ne hone] at hfirst
      rw [update_of_ne htwo] at hsecond
      exact h.injective hfirst hsecond
  waiting := by
    intro other creditId event hother
    change update s.puts id (some put) other = _ at hother
    change update s.notificationRegistry id _ other = some event
    by_cases heq : other = id
    · subst heq
      rw [update_self, Option.some.injEq] at hother
      rw [update_self]
      rcases hput with hplain | ⟨credit, rfl⟩
      · exact absurd hother (hplain.1 creditId event)
      · rw [Put.operation.injEq, Wait.waiting.injEq] at hother
        rw [hother.2]
    · rw [update_of_ne heq] at hother
      rw [update_of_ne heq]
      exact h.waiting hother
  set := by
    intro other event hregistered hset
    change update s.notificationRegistry id _ other = some event at hregistered
    change (s.events ++ [false])[event]? = some true at hset
    by_cases heq : other = id
    · subst heq
      rw [update_self] at hregistered
      cases hregistered
      simp at hset
    · rw [update_of_ne heq] at hregistered
      rw [List.getElem?_append_left (h.event_lt hregistered)] at hset
      exact h.set hregistered hset
  succeeded := by
    intro other creditId hother
    change update s.puts id (some put) other = _ at hother
    by_cases heq : other = id
    · subst heq
      rw [update_self, Option.some.injEq] at hother
      rcases hput with hplain | ⟨credit, rfl⟩
      · exact absurd hother (hplain.2 creditId)
      · simp at hother
    · rw [update_of_ne heq] at hother
      exact h.succeeded hother

/-- A wait ends, with success only after its transfer has been heard of. -/
theorem finishWait (h : Registered heard s) {creditId : ℕ} {result : Wait}
    (hwaiting : ∀ event, result ≠ .waiting event) (hheard : result = .succeeded → heard id) :
    Registered heard (s.finishWait id creditId result) where
  event_lt := by
    intro other event hregistered
    change update s.notificationRegistry id none other = some event at hregistered
    by_cases heq : other = id
    · simp [heq] at hregistered
    · rw [update_of_ne heq] at hregistered
      exact h.event_lt hregistered
  injective := by
    intro first second event hfirst hsecond
    change update s.notificationRegistry id none first = some event at hfirst
    change update s.notificationRegistry id none second = some event at hsecond
    by_cases hone : first = id
    · simp [hone] at hfirst
    by_cases htwo : second = id
    · simp [htwo] at hsecond
    rw [update_of_ne hone] at hfirst
    rw [update_of_ne htwo] at hsecond
    exact h.injective hfirst hsecond
  waiting := by
    intro other otherCredit event hput
    change update s.puts id _ other = _ at hput
    change update s.notificationRegistry id none other = some event
    by_cases heq : other = id
    · subst heq
      rw [update_self, Option.some.injEq, Put.operation.injEq] at hput
      exact absurd hput.2 (hwaiting event)
    · rw [update_of_ne heq] at hput
      rw [update_of_ne heq]
      exact h.waiting hput
  set := by
    intro other event hregistered hset
    change update s.notificationRegistry id none other = some event at hregistered
    by_cases heq : other = id
    · simp [heq] at hregistered
    · rw [update_of_ne heq] at hregistered
      exact h.set hregistered hset
  succeeded := by
    intro other otherCredit hput
    change update s.puts id _ other = _ at hput
    by_cases heq : other = id
    · subst heq
      rw [update_self, Option.some.injEq, Put.operation.injEq] at hput
      exact hheard hput.2
    · rw [update_of_ne heq] at hput
      exact h.succeeded hput

/-- The listener sets events of transfers that it has heard of. -/
theorem poll (h : Registered heard s) {names : List String} (hheard : ∀ id ∈ names, heard id) :
    Registered heard (names.foldl MooncakeRelay.handleNotify s) := by
  obtain ⟨hputs, hregistry, hlength⟩ := MooncakeRelay.foldl_handleNotify names s
  constructor
  · intro id event hregistered
    rw [hlength]
    exact h.event_lt (hregistry ▸ hregistered)
  · intro id other event hid hother
    exact h.injective (hregistry ▸ hid) (hregistry ▸ hother)
  · intro id creditId event hput
    rw [hregistry]
    exact h.waiting (hputs ▸ hput)
  · intro id event hregistered hset
    rw [hregistry] at hregistered
    rcases MooncakeRelay.foldl_handleNotify_events.mp hset with hbefore | ⟨name, hname, hset, _⟩
    · exact h.set hregistered hbefore
    · exact h.injective hset hregistered ▸ hheard name hname
  · intro id creditId hput
    exact h.succeeded (hputs ▸ hput)

theorem step (h : Registered heard s) (hheard : ∀ id ∈ a.names, heard id)
    (hstep : s.step a = some t) : Registered heard t := by
  cases effect_of_step hstep with
  | assign allocator _ hplain => exact (h.allocator allocator).setPut hplain
  | register _ hput => exact h.register hput
  | poll names => exact h.poll hheard
  | finish hput hresult =>
    rcases hresult with ⟨hset, rfl⟩ | ⟨_, rfl⟩
    · exact h.finishWait (by simp) fun _ => h.set (h.waiting hput) hset
    · exact h.finishWait (by simp) (by simp)

end Registered

theorem registered_run {credits slotSize : ℕ} {as : List Action} {s : MooncakeRelay}
    (hrun : Transition.Run MooncakeRelay.step Transition.anyAction (.init credits slotSize) as s) :
    Registered (fun id => ∃ a ∈ as, id ∈ a.names) s := by
  induction hrun with
  | nil => exact registered_init credits slotSize
  | snoc _ _ hstep ih =>
    refine (ih.mono ?_).step ?_ hstep
    · rintro id ⟨a, ha, hid⟩
      exact ⟨a, List.mem_append_left _ ha, hid⟩
    · intro id hid
      exact ⟨_, List.mem_append_right _ (List.mem_singleton_self _), hid⟩

/-- The wait of a transfer has been notified, and perhaps returned. -/
def MooncakeRelay.Notified (s : MooncakeRelay) (id : String) : Prop :=
  (∃ creditId event, s.puts id = some (.operation creditId (.waiting event)) ∧
    s.events[event]? = some true) ∨
  ∃ creditId, s.puts id = some (.operation creditId .succeeded)

/-- In every later state the wait of a transfer has not run into its timeout, and while it
is under way it can return and cannot time out. -/
def MooncakeRelay.GetsThrough (s : MooncakeRelay) (id : String) : Prop :=
  ∀ as t, Transition.Run MooncakeRelay.step Transition.anyAction s as t →
    (∀ creditId, t.puts id ≠ some (.operation creditId .timedOut)) ∧
    ∀ creditId event, t.puts id = some (.operation creditId (.waiting event)) →
      t.step (.timeout id) = none ∧ (t.step (.complete id)).isSome

variable {id : String}

/-- A wait that has been notified can only return. -/
theorem MooncakeRelay.Notified.step {s : MooncakeRelay} (h : s.Notified id)
    (hstep : s.step a = some t) : t.Notified id := by
  cases effect_of_step hstep with
  | @assign _ other put allocator hnew _ =>
    have hne : id ≠ other := by
      rintro rfl
      rcases h with ⟨creditId, event, hput, _⟩ | ⟨creditId, hput⟩
      · exact hnew _ _ hput
      · exact hnew _ _ hput
    have hputs : ({ s with allocator := allocator }.setPut other put).puts id = s.puts id :=
      update_of_ne hne _ _
    unfold Notified at h ⊢
    rwa [hputs]
  | @register _ other put hidle _ =>
    have hne : id ≠ other := by
      rintro rfl
      rcases h with ⟨creditId, event, hput, _⟩ | ⟨creditId, hput⟩
      · simpa using hidle _ _ hput
      · simpa using hidle _ _ hput
    have hputs : ((s.registerNotification other).setPut other put).puts id = s.puts id :=
      update_of_ne hne _ _
    rcases h with ⟨creditId, event, hput, hset⟩ | ⟨creditId, hput⟩
    · refine Or.inl ⟨creditId, event, hputs.trans hput, ?_⟩
      have hlt : event < s.events.length := (List.getElem?_eq_some_iff.mp hset).choose
      change (s.events ++ [false])[event]? = some true
      rw [List.getElem?_append_left hlt, hset]
    · exact Or.inr ⟨creditId, hputs.trans hput⟩
  | poll names =>
    have hputs := (foldl_handleNotify names s).1
    rcases h with ⟨creditId, event, hput, hset⟩ | ⟨creditId, hput⟩
    · exact Or.inl ⟨creditId, event, by rw [hputs, hput],
        foldl_handleNotify_events.mpr (Or.inl hset)⟩
    · exact Or.inr ⟨creditId, by rw [hputs, hput]⟩
  | @finish _ other creditId event result hput hresult =>
    by_cases heq : id = other
    · subst heq
      have hset : s.events[event]? = some true := by
        rcases h with ⟨_, _, hwaiting, hset⟩ | ⟨_, hsucceeded⟩
        · rw [hput, Option.some.injEq, Put.operation.injEq, Wait.waiting.injEq] at hwaiting
          exact hwaiting.2 ▸ hset
        · simp [hput] at hsucceeded
      rcases hresult with ⟨_, rfl⟩ | ⟨hunset, _⟩
      · exact Or.inr ⟨creditId, update_self ..⟩
      · exact absurd hset hunset
    · have hputs : (s.finishWait other creditId result).puts id = s.puts id :=
        update_of_ne heq _ _
      unfold Notified at h ⊢
      rwa [hputs]

theorem MooncakeRelay.Notified.getsThrough {s : MooncakeRelay} (h : s.Notified id) :
    s.GetsThrough id := by
  intro as t hrun
  have hnotified : t.Notified id :=
    hrun.invariant (I := fun t => t.Notified id) (fun _ _ _ h _ hstep => h.step hstep) h
  rcases hnotified with ⟨creditId, event, hput, hset⟩ | ⟨creditId, hput⟩
  · refine ⟨by simp [hput], fun otherCredit otherEvent hother => ?_⟩
    constructor
    · simp [MooncakeRelay.step, hput, hset]
    · simp [MooncakeRelay.step, hput, hset]
  · simp [hput]

/-- A wait that begins after the listener has taken the notification can time out. -/
theorem MooncakeRelay.not_getsThrough_of_idle {s : MooncakeRelay} {creditId : ℕ}
    (hidle : s.puts id = some (.operation creditId .idle)) : ¬s.GetsThrough id := by
  intro h
  have hstep : s.step (.wait id) = some ((s.registerNotification id).setPut id
      (.operation creditId (.waiting s.events.length))) := by
    simp [MooncakeRelay.step, hidle]
  have hwaiting := (h _ _ (.single trivial hstep)).2 creditId s.events.length (update_self ..)
  simp [MooncakeRelay.step, MooncakeRelay.setPut, MooncakeRelay.registerNotification] at hwaiting

/-- When the listener takes a notification of an operation, the operation gets through
exactly if its wait has begun and has not timed out. No wait succeeds without a
notification of its own transfer. -/
theorem notification_heard_iff {credits slotSize : ℕ} {as : List Action} {s t : MooncakeRelay}
    (hrun : Transition.Run MooncakeRelay.step Transition.anyAction (.init credits slotSize) as s)
    {names : List String} (hpoll : s.step (.poll names) = some t) :
    (∀ id ∈ names, ∀ creditId wait, s.puts id = some (.operation creditId wait) →
      (t.GetsThrough id ↔ wait ≠ .idle ∧ wait ≠ .timedOut)) ∧
    ∀ id creditId, s.puts id = some (.operation creditId .succeeded) →
      ∃ before, .poll before ∈ as ∧ id ∈ before := by
  have hregistered := registered_run hrun
  constructor
  · intro id hname creditId wait hput
    rw [← Option.some.inj hpoll]
    have hputs := (MooncakeRelay.foldl_handleNotify names s).1
    constructor
    · intro h
      constructor
      · rintro rfl
        exact MooncakeRelay.not_getsThrough_of_idle (hputs ▸ hput) h
      · rintro rfl
        exact (h [] _ (.nil _)).1 creditId (hputs ▸ hput)
    · rintro ⟨hbegun, hintime⟩
      apply MooncakeRelay.Notified.getsThrough
      cases wait with
      | idle => exact absurd rfl hbegun
      | timedOut => exact absurd rfl hintime
      | succeeded => exact Or.inr ⟨creditId, hputs ▸ hput⟩
      | waiting event =>
        have hevent := hregistered.waiting hput
        refine Or.inl ⟨creditId, event, hputs ▸ hput, ?_⟩
        exact MooncakeRelay.foldl_handleNotify_events.mpr
          (Or.inr ⟨id, hname, hevent, hregistered.event_lt hevent⟩)
  · intro id creditId hput
    obtain ⟨a, ha, hid⟩ := hregistered.succeeded hput
    cases a with
    | poll before => exact ⟨before, ha, hid⟩
    | _ => simp [Action.names] at hid

/-- Two puts wait, and the listener takes the notification of the first. -/
theorem notification_heard_iff_waiting :
    ∃ s t : MooncakeRelay, s.step (.poll ["relay_1"]) = some t ∧ t.GetsThrough "relay_1" := by
  have hrun := Transition.run_of_isSome MooncakeRelay.step (.init 2 64)
    [.put "relay_1" 8, .resumePut "relay_1" none, .put "relay_2" 8, .resumePut "relay_2" none,
      .wait "relay_1", .wait "relay_2"] (by decide +kernel)
  have hheard := (notification_heard_iff hrun
    (show _ = some (["relay_1"].foldl _ _) from rfl)).1 "relay_1" (by simp) 0
    (.waiting 2) (by decide +kernel)
  exact ⟨_, _, rfl, hheard.mpr (by simp)⟩

/-- The listener takes the notification of a transfer whose sender does not wait yet, and the
wait of the sender runs into its timeout. -/
theorem early_notification_lost :
    ∃ s t u : MooncakeRelay,
      Transition.Reachable MooncakeRelay.step (.init 2 64) s ∧
      s.puts "relay_1" = some (.operation 0 .idle) ∧
      s.step (.poll ["relay_1"]) = some t ∧
      Transition.Run MooncakeRelay.step Transition.anyAction t
        [.wait "relay_1", .timeout "relay_1"] u ∧
      u.puts "relay_1" = some (.operation 0 .timedOut) := by
  have hrun := Transition.run_of_isSome MooncakeRelay.step (.init 2 64)
    [.put "relay_1" 8, .resumePut "relay_1" none] (by decide +kernel)
  refine ⟨_, _, _, ⟨_, hrun⟩, by decide +kernel, rfl,
    Transition.run_of_isSome MooncakeRelay.step _ _ (by decide +kernel), by decide +kernel⟩

end Omni.Relay.Mooncake
