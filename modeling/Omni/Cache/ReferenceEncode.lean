import Omni.Library.Transition
import Omni.Cache.StageCache

/-!
# Reference encoding with one flight per key

`ReferenceEncodeService.get_or_encode` of `scheduling/reference_encoder.py`, called by any number of
threads. A step of a call is a section under the lock, a call of the hook, or an operation on a
future. The future of a leader is named by the leader.
-/

namespace Omni.Cache

open Transition Function List Option

/-- The hook and the exceptions: `load_artifact`, the exceptions that are `TimeoutError`s, what
`type(exc)(*exc.args)` gives if it does not raise, and `RuntimeError(str(exc))`. -/
structure EncodeHook (A V E : Type) where
  loadArtifact : V → Except E A
  isTimeoutError : E → Bool
  rebuild : E → Option E
  runtimeError : E → E

/-- How the first section under the lock has left a call. -/
inductive EncodeRole (K : Type)
  /-- `cache_key` has returned `None`. -/
  | uncacheable
  | hit (key : K)
  | follower (key : K) (leader : ℕ)
  | leader (key : K)
  deriving DecidableEq

/-- Where a call is. -/
inductive EncodePhase (A E : Type)
  | encoding
  | storing (artifact : A)
  | revalidating
  /-- Before the section under the lock that puts and pops. -/
  | committing
  /-- In the handler, before the section under the lock that pops. -/
  | failing (exc : E)
  /-- Before `set_exception`. -/
  | failed (exc : E)
  /-- Before `set_result`. -/
  | publishing
  /-- `follower_fut.result`. -/
  | waiting
  | loading
  | ended (out : Except E A)
  /-- Ended by the `TimeoutError` of `follower_fut.result`. -/
  | timedOut

/-- A call, with its variables `stored` and `should_cache`. -/
structure EncodeCall (K A V E : Type) where
  role : EncodeRole K
  phase : EncodePhase A E
  stored : Option V
  shouldCache : Bool

/-- `ReferenceEncodeService`, its futures and its calls. -/
structure EncodeService (K A V E : Type) where
  cache : StageOutputCache K V
  inflight : K → Option ℕ
  futures : ℕ → Option (Except E V)
  calls : List (EncodeCall K A V E)

/-- What happens to a call. -/
inductive EncodeEvent (A V E : Type)
  | encoded (artifact : A)
  | stored (stored : V)
  | validated (shouldCache : Bool)
  /-- The hook raises. -/
  | raised (exc : E)
  | commit
  /-- `put` raises, after it has popped the key or before. -/
  | putRaised (exc : E) (popped : Bool)
  /-- The handler pops the key. -/
  | pop
  | publish
  | wake
  | timeout
  | load

/-- A step: a new call, or an event of a call. -/
inductive EncodeAction (K A V E : Type)
  | getOrEncode (cacheKey : Option K)
  | happens (i : ℕ) (event : EncodeEvent A V E)

/-- `_fresh_exception`. -/
def EncodeHook.freshException {A V E : Type} (hook : EncodeHook A V E) (exc : E) : E :=
  (hook.rebuild exc).getD (hook.runtimeError exc)

/-- What a follower raises when the future holds an exception. -/
def EncodeHook.followerException {A V E : Type} (hook : EncodeHook A V E) (exc : E) : E :=
  if hook.isTimeoutError exc then exc else hook.freshException exc

namespace EncodeService

variable {K A V E : Type}

/-- A new service. -/
def init : EncodeService K A V E := ⟨.init, fun _ => none, fun _ => none, []⟩

/-- A call is replaced. -/
def setCall (s : EncodeService K A V E) (i : ℕ) (c : EncodeCall K A V E) : EncodeService K A V E :=
  { s with calls := s.calls.set i c }

variable [DecidableEq K]

/-- `self._inflight.pop(cache_key, None)`. -/
def popInflight (s : EncodeService K A V E) (key : K) : EncodeService K A V E :=
  { s with inflight := update s.inflight key none }

/-- A future is set. -/
def setFuture (s : EncodeService K A V E) (i : ℕ) (out : Except E V) : EncodeService K A V E :=
  { s with futures := update s.futures i (some out) }

/-- `get_or_encode` up to the end of the first section under the lock. -/
def getOrEncode (s : EncodeService K A V E) : Option K → EncodeService K A V E
  | none => { s with calls := s.calls ++ [⟨.uncacheable, .encoding, none, false⟩] }
  | some key =>
    match s.cache.get (some key) with
    | (cache, some stored) =>
      { s with cache := cache, calls := s.calls ++ [⟨.hit key, .loading, some stored, false⟩] }
    | (cache, none) =>
      match s.inflight key with
      | some i =>
        { s with
          cache := cache, calls := s.calls ++ [⟨.follower key i, .waiting, none, false⟩] }
      | none =>
        { s with
          cache := cache
          inflight := update s.inflight key (some s.calls.length)
          calls := s.calls ++ [⟨.leader key, .encoding, none, false⟩] }

/-- An event of a call of a leader. -/
def leaderStep (cfg : CacheConfig V) (s : EncodeService K A V E) (i : ℕ) (c : EncodeCall K A V E)
    (key : K) (event : EncodeEvent A V E) : Option (EncodeService K A V E) :=
  match c.phase, event with
  | .encoding, .encoded artifact => some (s.setCall i { c with phase := .storing artifact })
  | .encoding, .raised exc => some (s.setCall i { c with phase := .failing exc })
  | .storing _, .stored stored =>
    some (s.setCall i { c with phase := .revalidating, stored := some stored })
  | .storing _, .raised exc => some (s.setCall i { c with phase := .failing exc })
  | .revalidating, .validated shouldCache =>
    some (s.setCall i { c with phase := .committing, shouldCache := shouldCache })
  | .revalidating, .raised exc => some (s.setCall i { c with phase := .failing exc })
  | .committing, .commit =>
    c.stored.map fun stored =>
      let s := if c.shouldCache then { s with cache := s.cache.put cfg (some key) stored } else s
      (s.popInflight key).setCall i { c with phase := .publishing }
  | .committing, .putRaised exc popped =>
    if c.shouldCache then
      let s := if popped then { s with cache := s.cache.drop key } else s
      some (s.setCall i { c with phase := .failing exc })
    else none
  | .failing exc, .pop => some ((s.popInflight key).setCall i { c with phase := .failed exc })
  | .failed exc, .publish =>
    some ((s.setFuture i (.error exc)).setCall i { c with phase := .ended (.error exc) })
  | .publishing, .publish =>
    c.stored.map fun stored =>
      (s.setFuture i (.ok stored)).setCall i { c with phase := .loading }
  | _, _ => none

/-- An event of a call that follows. -/
def followerStep (hook : EncodeHook A V E) (s : EncodeService K A V E) (i : ℕ)
    (c : EncodeCall K A V E) (leader : ℕ) (event : EncodeEvent A V E) :
    Option (EncodeService K A V E) :=
  match c.phase, event with
  | .waiting, .wake =>
    (s.futures leader).map fun
      | .ok stored => s.setCall i { c with phase := .loading, stored := some stored }
      | .error exc =>
        s.setCall i { c with phase := .ended (.error (hook.followerException exc)) }
  | .waiting, .timeout =>
    if (s.futures leader).isNone then some (s.setCall i { c with phase := .timedOut }) else none
  | _, _ => none

/-- An event of a call that has no key. -/
def uncacheableStep (s : EncodeService K A V E) (i : ℕ) (c : EncodeCall K A V E)
    (event : EncodeEvent A V E) : Option (EncodeService K A V E) :=
  match c.phase, event with
  | .encoding, .encoded artifact => some (s.setCall i { c with phase := .ended (.ok artifact) })
  | .encoding, .raised exc => some (s.setCall i { c with phase := .ended (.error exc) })
  | _, _ => none

/-- An event of a call. The last step of a call that has a stored artifact is `load_artifact`. -/
def callStep (cfg : CacheConfig V) (hook : EncodeHook A V E) (s : EncodeService K A V E) (i : ℕ)
    (c : EncodeCall K A V E) (event : EncodeEvent A V E) : Option (EncodeService K A V E) :=
  match c.phase, event with
  | .loading, .load =>
    c.stored.map fun stored => s.setCall i { c with phase := .ended (hook.loadArtifact stored) }
  | _, _ =>
    match c.role with
    | .uncacheable => s.uncacheableStep i c event
    | .hit _ => none
    | .follower _ leader => s.followerStep hook i c leader event
    | .leader key => s.leaderStep cfg i c key event

/-- A step. -/
def step (cfg : CacheConfig V) (hook : EncodeHook A V E) (s : EncodeService K A V E) :
    EncodeAction K A V E → Option (EncodeService K A V E)
  | .getOrEncode cacheKey => some (s.getOrEncode cacheKey)
  | .happens i event => s.calls[i]?.bind fun c => s.callStep cfg hook i c event

end EncodeService

variable {K A V E : Type}

/-- The key of a leader is in flight. -/
inductive EncodePhase.Flying : EncodePhase A E → Prop
  | encoding : Flying .encoding
  | storing (artifact : A) : Flying (.storing artifact)
  | revalidating : Flying .revalidating
  | committing : Flying .committing
  | failing (exc : E) : Flying (.failing exc)

/-- A leader that has not set its future. -/
inductive EncodePhase.Running : EncodePhase A E → Prop
  | flying {phase : EncodePhase A E} (hflying : phase.Flying) : Running phase
  | failed (exc : E) : Running (.failed exc)
  | publishing : Running .publishing

/-- A call that has got what is stored. -/
structure EncodeCall.Has (hook : EncodeHook A V E) (c : EncodeCall K A V E) (stored : V) :
    Prop where
  value : c.stored = some stored
  phase : c.phase = .loading ∨ c.phase = .ended (hook.loadArtifact stored)

/-- A leader and its future. -/
inductive EncodeCall.Leads (hook : EncodeHook A V E) (c : EncodeCall K A V E) :
    Option (Except E V) → Prop
  | running (hphase : c.phase.Running) : Leads hook c none
  | stored {stored : V} (hhas : c.Has hook stored) : Leads hook c (some (.ok stored))
  | failed {exc : E} (hphase : c.phase = .ended (.error exc)) : Leads hook c (some (.error exc))

/-- A follower and the future of its leader. -/
inductive EncodeCall.Follows (hook : EncodeHook A V E) (c : EncodeCall K A V E) :
    Option (Except E V) → Prop
  | waiting {future : Option (Except E V)} (hphase : c.phase = .waiting) : Follows hook c future
  | timedOut {future : Option (Except E V)} (hphase : c.phase = .timedOut) : Follows hook c future
  | stored {stored : V} (hhas : c.Has hook stored) : Follows hook c (some (.ok stored))
  | failed {exc : E} (hphase : c.phase = .ended (.error (hook.followerException exc))) :
    Follows hook c (some (.error exc))

/-- A leader whose artifact was encoded, stored, validated and put. -/
structure EncodeCall.Published (hook : EncodeHook A V E) (c : EncodeCall K A V E) (stored : V) :
    Prop where
  value : c.stored = some stored
  shouldCache : c.shouldCache = true
  phase : c.phase = .publishing ∨ c.phase = .loading ∨ c.phase = .ended (hook.loadArtifact stored)

/-- A key is in flight for its leader, futures hold what leaders have, followers get what futures
hold, and what is cached was put by a leader. -/
structure SingleFlight (cfg : CacheConfig V) (hook : EncodeHook A V E) (s : EncodeService K A V E) :
    Prop where
  leads : ∀ (i : ℕ) (c : EncodeCall K A V E) (key : K), s.calls[i]? = some c →
    c.role = .leader key → c.Leads hook (s.futures i) ∧ (c.phase.Flying → s.inflight key = some i)
  inflight : ∀ key i, s.inflight key = some i →
    ∃ c : EncodeCall K A V E, s.calls[i]? = some c ∧ c.role = .leader key ∧ c.phase.Flying
  follows : ∀ (j : ℕ) (c : EncodeCall K A V E) (key : K) (i : ℕ), s.calls[j]? = some c →
    c.role = .follower key i → c.Follows hook (s.futures i) ∧
      ∃ l : EncodeCall K A V E, s.calls[i]? = some l ∧ l.role = .leader key
  cached : ∀ p ∈ s.cache.cache, ∃ (i : ℕ) (c : EncodeCall K A V E) (stored : V),
    s.calls[i]? = some c ∧ c.role = .leader p.1 ∧ c.Published hook stored ∧
      p.2.data = cfg.detachValue stored
  fresh : ∀ i, s.calls.length ≤ i → s.futures i = none

variable {cfg : CacheConfig V} {hook : EncodeHook A V E} {s t : EncodeService K A V E}
  {c c' : EncodeCall K A V E} {i : ℕ} {key : K}

theorem singleFlight_init : SingleFlight cfg hook (.init : EncodeService K A V E) where
  leads _ _ _ hc := by cases hc
  inflight _ _ hi := by cases hi
  follows _ _ _ _ hc := by cases hc
  cached _ hp := absurd hp not_mem_nil
  fresh _ _ := rfl

/-- A follower stays one when futures that are set stay as they are. -/
theorem EncodeCall.Follows.kept {future future' : Option (Except E V)} (h : c.Follows hook future)
    (hkept : ∀ out, future = some out → future' = some out) : c.Follows hook future' := by
  cases h with
  | waiting hphase => exact .waiting hphase
  | timedOut hphase => exact .timedOut hphase
  | stored hhas => exact hkept _ rfl ▸ .stored hhas
  | failed hphase => exact hkept _ rfl ▸ .failed hphase

/-- An event of a leader, by what it leaves: the calls but this one, the futures but its own, and
the entries in flight but the one of its key. -/
theorem SingleFlight.leader_moves (h : SingleFlight cfg hook s) (hc : s.calls[i]? = some c)
    (hrole : c.role = .leader key) (hrole' : c'.role = .leader key)
    (hcalls : t.calls = s.calls.set i c') (hleads : c'.Leads hook (t.futures i))
    (hothers : ∀ j, j ≠ i → t.futures j = s.futures j)
    (hkept : ∀ out, s.futures i = some out → t.futures i = some out)
    (hback : c'.phase.Flying → c.phase.Flying)
    (hinflight : ∀ k j, t.inflight k = some j ↔ s.inflight k = some j ∧ (j = i → c'.phase.Flying))
    (hpublished : ∀ stored, c.Published hook stored → c'.Published hook stored)
    (hcached : ∀ p ∈ t.cache.cache, p ∈ s.cache.cache ∨ p.1 = key ∧
      ∃ stored, c'.Published hook stored ∧ p.2.data = cfg.detachValue stored) :
    SingleFlight cfg hook t := by
  have hlt : i < s.calls.length := (List.getElem?_eq_some_iff.mp hc).1
  have hself : t.calls[i]? = some c' := by rw [hcalls, getElem?_set_self hlt]
  have hrest {j : ℕ} (hne : j ≠ i) : t.calls[j]? = s.calls[j]? := by
    rw [hcalls, getElem?_set_ne (Ne.symm hne)]
  have hleader {j : ℕ} {l : EncodeCall K A V E} {k : K} (hl : s.calls[j]? = some l)
      (hk : l.role = .leader k) : ∃ l', t.calls[j]? = some l' ∧ l'.role = .leader k := by
    by_cases heq : j = i
    · subst heq
      obtain rfl := some.inj (hc.symm.trans hl)
      exact ⟨c', hself, hrole'.trans (hrole.symm.trans hk)⟩
    · exact ⟨l, (hrest heq).trans hl, hk⟩
  refine ⟨fun j d k hd hk => ?_, fun k j hj => ?_, fun j d k l hd hk => ?_, fun p hp => ?_,
    fun j hj => ?_⟩
  · by_cases heq : j = i
    · subst heq
      obtain rfl := some.inj (hself.symm.trans hd)
      obtain rfl := EncodeRole.leader.inj (hrole'.symm.trans hk)
      exact ⟨hleads, fun hflying => (hinflight _ _).mpr
        ⟨(h.leads _ _ _ hc hrole).2 (hback hflying), fun _ => hflying⟩⟩
    · rw [hrest heq] at hd
      obtain ⟨hold, hentry⟩ := h.leads j d k hd hk
      rw [hothers j heq]
      exact ⟨hold, fun hflying => (hinflight _ _).mpr ⟨hentry hflying, fun hji => absurd hji heq⟩⟩
  · obtain ⟨hj, himp⟩ := (hinflight k j).mp hj
    obtain ⟨d, hd, hk, hflying⟩ := h.inflight k j hj
    by_cases heq : j = i
    · subst heq
      obtain rfl := some.inj (hc.symm.trans hd)
      exact ⟨c', hself, hrole'.trans (hrole.symm.trans hk), himp rfl⟩
    · exact ⟨d, (hrest heq).trans hd, hk, hflying⟩
  · have hne : j ≠ i := by
      rintro rfl
      obtain rfl := some.inj (hself.symm.trans hd)
      cases hrole'.symm.trans hk
    rw [hrest hne] at hd
    obtain ⟨hfollows, l', hl', hlk⟩ := h.follows j d k l hd hk
    refine ⟨hfollows.kept fun out hout => ?_, hleader hl' hlk⟩
    by_cases heq : l = i
    · subst heq
      exact hkept out hout
    · exact (hothers l heq).trans hout
  · rcases hcached p hp with hold | ⟨rfl, stored, hput, hdata⟩
    · obtain ⟨j, d, stored, hd, hk, hput, hdata⟩ := h.cached p hold
      by_cases heq : j = i
      · subst heq
        obtain rfl := some.inj (hc.symm.trans hd)
        exact ⟨j, c', stored, hself, hrole'.trans (hrole.symm.trans hk), hpublished _ hput, hdata⟩
      · exact ⟨j, d, stored, (hrest heq).trans hd, hk, hput, hdata⟩
    · exact ⟨i, c', stored, hself, hrole', hput, hdata⟩
  · rw [hcalls, length_set] at hj
    have hne : j ≠ i := by omega
    rw [hothers j hne]
    exact h.fresh j hj

/-- An event of a call that does not lead. -/
theorem SingleFlight.other_moves (h : SingleFlight cfg hook s) (hc : s.calls[i]? = some c)
    (hrole : c'.role = c.role) (hnot : ∀ key, c.role ≠ .leader key)
    (hfollows : ∀ key l, c.role = .follower key l → c'.Follows hook (s.futures l)) :
    SingleFlight cfg hook (s.setCall i c') := by
  have hlt : i < s.calls.length := (List.getElem?_eq_some_iff.mp hc).1
  have hself : (s.setCall i c').calls[i]? = some c' := getElem?_set_self hlt
  have hrest {j : ℕ} (hne : j ≠ i) : (s.setCall i c').calls[j]? = s.calls[j]? :=
    getElem?_set_ne (Ne.symm hne)
  have hleader {j : ℕ} {l : EncodeCall K A V E} {k : K} (hl : s.calls[j]? = some l)
      (hk : l.role = .leader k) : (s.setCall i c').calls[j]? = some l := by
    refine (hrest ?_).trans hl
    rintro rfl
    obtain rfl := some.inj (hc.symm.trans hl)
    exact hnot k hk
  refine ⟨fun j d k hd hk => ?_, fun k j hj => ?_, fun j d k l hd hk => ?_, fun p hp => ?_,
    fun j hj => h.fresh j (length_set ▸ hj)⟩
  · have hne : j ≠ i := by
      rintro rfl
      obtain rfl := some.inj (hself.symm.trans hd)
      exact hnot k (hrole.symm.trans hk)
    exact h.leads j d k ((hrest hne).symm.trans hd) hk
  · obtain ⟨d, hd, hk, hflying⟩ := h.inflight k j hj
    exact ⟨d, hleader hd hk, hk, hflying⟩
  · by_cases heq : j = i
    · subst heq
      obtain rfl := some.inj (hself.symm.trans hd)
      have hk' := hrole.symm.trans hk
      obtain ⟨-, l', hl', hlk⟩ := h.follows j c k l hc hk'
      exact ⟨hfollows k l hk', l', hleader hl' hlk, hlk⟩
    · obtain ⟨hold, l', hl', hlk⟩ := h.follows j d k l ((hrest heq).symm.trans hd) hk
      exact ⟨hold, l', hleader hl' hlk, hlk⟩
  · obtain ⟨j, d, stored, hd, hk, hput, hdata⟩ := h.cached p hp
    exact ⟨j, d, stored, hleader hd hk, hk, hput, hdata⟩

theorem SingleFlight.arrives (h : SingleFlight cfg hook s) (hcalls : t.calls = s.calls ++ [c])
    (hfutures : t.futures = s.futures) (hcache : t.cache.cache ⊆ s.cache.cache)
    (hleader : ∀ key, c.role = .leader key → c.phase = .encoding)
    (hinflight : ∀ k j, t.inflight k = some j ↔
      s.inflight k = some j ∨ j = s.calls.length ∧ c.role = .leader k)
    (hfollows : ∀ key l, c.role = .follower key l →
      c.phase = .waiting ∧ s.inflight key = some l) : SingleFlight cfg hook t := by
  have hlast : t.calls[s.calls.length]? = some c := by
    rw [hcalls]
    exact getElem?_concat_length
  have hrest {j : ℕ} {d : EncodeCall K A V E} (hd : s.calls[j]? = some d) :
      t.calls[j]? = some d := by
    rw [hcalls]
    exact (List.getElem?_append_left (List.getElem?_eq_some_iff.mp hd).1).trans hd
  have hcases {j : ℕ} {d : EncodeCall K A V E} (hd : t.calls[j]? = some d) :
      s.calls[j]? = some d ∨ j = s.calls.length ∧ d = c := by
    rw [hcalls, getElem?_append] at hd
    split at hd
    · exact .inl hd
    next hge =>
      obtain ⟨hlt, rfl⟩ := List.getElem?_eq_some_iff.mp hd
      have hlt' : j - s.calls.length < 1 := hlt
      exact .inr ⟨by omega, getElem_singleton _⟩
  refine ⟨fun j d k hd hk => ?_, fun k j hj => ?_, fun j d k l hd hk => ?_, fun p hp => ?_,
    fun j hj => ?_⟩
  · rw [hfutures]
    rcases hcases hd with hold | ⟨rfl, rfl⟩
    · obtain ⟨hleads, hentry⟩ := h.leads j d k hold hk
      exact ⟨hleads, fun hflying => (hinflight k j).mpr (.inl (hentry hflying))⟩
    · rw [h.fresh _ (Nat.le_refl _)]
      have hflying : d.phase.Flying := hleader k hk ▸ .encoding
      exact ⟨.running (.flying hflying), fun _ => (hinflight _ _).mpr (.inr ⟨rfl, hk⟩)⟩
  · rcases (hinflight k j).mp hj with hold | ⟨rfl, hk⟩
    · obtain ⟨d, hd, hk, hflying⟩ := h.inflight k j hold
      exact ⟨d, hrest hd, hk, hflying⟩
    · exact ⟨c, hlast, hk, hleader k hk ▸ .encoding⟩
  · rw [hfutures]
    rcases hcases hd with hold | ⟨rfl, rfl⟩
    · obtain ⟨hold', l', hl', hlk⟩ := h.follows j d k l hold hk
      exact ⟨hold', l', hrest hl', hlk⟩
    · obtain ⟨hwaiting, hentry⟩ := hfollows k l hk
      obtain ⟨l', hl', hlk, -⟩ := h.inflight k l hentry
      exact ⟨.waiting hwaiting, l', hrest hl', hlk⟩
  · obtain ⟨j, d, stored, hd, hk, hput, hdata⟩ := h.cached p (hcache hp)
    exact ⟨j, d, stored, hrest hd, hk, hput, hdata⟩
  · rw [hfutures]
    rw [hcalls, length_append] at hj
    exact h.fresh j (by omega)

theorem EncodeCall.Leads.eq_none {future : Option (Except E V)} (h : c.Leads hook future)
    (hrunning : c.phase.Running) : future = none := by
  cases h with
  | running => rfl
  | stored hhas =>
    rcases hhas.phase with hphase | hphase
    · rw [hphase] at hrunning
      cases hrunning with
      | flying hflying => cases hflying
    · rw [hphase] at hrunning
      cases hrunning with
      | flying hflying => cases hflying
  | failed hphase =>
    rw [hphase] at hrunning
    cases hrunning with
    | flying hflying => cases hflying

/-- A leader that flies has put nothing. -/
theorem EncodeCall.Published.not_flying {stored : V} (h : c.Published hook stored) :
    ¬c.phase.Flying := by
  rcases h.phase with hphase | hphase | hphase
  · rw [hphase]
    rintro ⟨⟩
  · rw [hphase]
    rintro ⟨⟩
  · rw [hphase]
    rintro ⟨⟩

theorem SingleFlight.flies (h : SingleFlight cfg hook s) (hc : s.calls[i]? = some c)
    (hrole : c.role = .leader key) (hcalls : t.calls = s.calls.set i c')
    (hrole' : c'.role = .leader key) (hflying : c.phase.Flying) (hflying' : c'.phase.Flying)
    (hfutures : t.futures = s.futures) (hinflight : t.inflight = s.inflight)
    (hcache : t.cache.cache ⊆ s.cache.cache) : SingleFlight cfg hook t := by
  have hnone := (h.leads i c key hc hrole).1.eq_none (.flying hflying)
  refine h.leader_moves hc hrole hrole' hcalls ?_ (fun _ _ => by rw [hfutures])
    (fun out hout => by rw [hfutures, hout]) (fun _ => hflying) (fun k j => ?_)
    (fun stored hput => absurd hflying hput.not_flying) (fun p hp => .inl (hcache hp))
  · rw [hfutures, hnone]
    exact .running (.flying hflying')
  · rw [hinflight]
    exact ⟨fun hj => ⟨hj, fun _ => hflying'⟩, And.left⟩

theorem SingleFlight.settles (h : SingleFlight cfg hook s) (hc : s.calls[i]? = some c)
    (hrole : c.role = .leader key) (hcalls : t.calls = s.calls.set i c')
    (hrole' : c'.role = .leader key) (hlanded : ¬c.phase.Flying) (hlanded' : ¬c'.phase.Flying)
    (hleads : c'.Leads hook (t.futures i)) (hothers : ∀ j, j ≠ i → t.futures j = s.futures j)
    (hkept : ∀ out, s.futures i = some out → t.futures i = some out)
    (hinflight : t.inflight = s.inflight)
    (hpublished : ∀ stored, c.Published hook stored → c'.Published hook stored)
    (hcache : t.cache = s.cache) : SingleFlight cfg hook t := by
  refine h.leader_moves hc hrole hrole' hcalls hleads hothers hkept
    (fun hflying' => absurd hflying' hlanded') (fun k j => ?_) hpublished
    (fun p hp => .inl (hcache ▸ hp))
  rw [hinflight]
  refine ⟨fun hj => ⟨hj, ?_⟩, And.left⟩
  rintro rfl
  obtain ⟨d, hd, -, hflying⟩ := h.inflight k j hj
  obtain rfl := some.inj (hc.symm.trans hd)
  exact absurd hflying hlanded

variable {event : EncodeEvent A V E}

theorem SingleFlight.followerStep (h : SingleFlight cfg hook s) (hc : s.calls[i]? = some c)
    {leader : ℕ} (hrole : c.role = .follower key leader)
    (hstep : s.followerStep hook i c leader event = some t) : SingleFlight cfg hook t := by
  have hmoves {c' : EncodeCall K A V E} (hrole' : c'.role = c.role)
      (hfollows : c'.Follows hook (s.futures leader)) :
      SingleFlight cfg hook (s.setCall i c') := by
    refine h.other_moves hc hrole' (fun k hk => ?_) fun k l hk => ?_
    · cases hrole.symm.trans hk
    · obtain ⟨-, rfl⟩ := EncodeRole.follower.inj (hrole.symm.trans hk)
      exact hfollows
  cases hphase : c.phase with
  | waiting =>
    cases event with
    | wake =>
      simp only [EncodeService.followerStep, hphase] at hstep
      obtain ⟨out, hout, rfl⟩ := map_eq_some_iff.mp hstep
      cases out with
      | ok stored => exact hmoves rfl (hout ▸ .stored ⟨rfl, .inl rfl⟩)
      | error exc => exact hmoves rfl (hout ▸ .failed rfl)
    | timeout =>
      simp only [EncodeService.followerStep, hphase] at hstep
      split at hstep
      · cases hstep
        exact hmoves rfl (.timedOut rfl)
      · cases hstep
    | _ => simp [EncodeService.followerStep, hphase] at hstep
  | _ => cases event <;> simp [EncodeService.followerStep, hphase] at hstep

theorem SingleFlight.uncacheableStep (h : SingleFlight cfg hook s) (hc : s.calls[i]? = some c)
    (hrole : c.role = .uncacheable) (hstep : s.uncacheableStep i c event = some t) :
    SingleFlight cfg hook t := by
  have hmoves {c' : EncodeCall K A V E} (hrole' : c'.role = c.role) :
      SingleFlight cfg hook (s.setCall i c') := by
    refine h.other_moves hc hrole' (fun k hk => ?_) fun k l hk => ?_
    · cases hrole.symm.trans hk
    · cases hrole.symm.trans hk
  cases hphase : c.phase with
  | encoding =>
    cases event with
    | encoded artifact =>
      simp only [EncodeService.uncacheableStep, hphase] at hstep
      exact some.inj hstep ▸ hmoves rfl
    | raised exc =>
      simp only [EncodeService.uncacheableStep, hphase] at hstep
      exact some.inj hstep ▸ hmoves rfl
    | _ => simp [EncodeService.uncacheableStep, hphase] at hstep
  | _ => cases event <;> simp [EncodeService.uncacheableStep, hphase] at hstep

theorem SingleFlight.load (h : SingleFlight cfg hook s) (hc : s.calls[i]? = some c)
    (hphase : c.phase = .loading) {stored : V} (hstored : c.stored = some stored) :
    SingleFlight cfg hook (s.setCall i { c with phase := .ended (hook.loadArtifact stored) }) := by
  cases hrole : c.role with
  | uncacheable =>
    refine h.other_moves hc hrole.symm (fun k hk => ?_) fun k l hk => ?_
    · cases hrole.symm.trans hk
    · cases hrole.symm.trans hk
  | hit key =>
    refine h.other_moves hc hrole.symm (fun k hk => ?_) fun k l hk => ?_
    · cases hrole.symm.trans hk
    · cases hrole.symm.trans hk
  | follower key l =>
    refine h.other_moves hc hrole.symm (fun k hk => ?_) fun k l' hk => ?_
    · cases hrole.symm.trans hk
    · obtain ⟨hfollows, -⟩ := h.follows i c k l' hc hk
      generalize s.futures l' = future at hfollows
      cases hfollows with
      | waiting hwaiting => cases hphase.symm.trans hwaiting
      | timedOut htimedOut => cases hphase.symm.trans htimedOut
      | stored hhas =>
        obtain rfl := some.inj (hstored.symm.trans hhas.value)
        exact .stored ⟨hstored, .inr rfl⟩
      | failed hfailed => cases hphase.symm.trans hfailed
  | leader key =>
    obtain ⟨hleads, -⟩ := h.leads i c key hc hrole
    have hlanded : ¬c.phase.Flying := by
      rw [hphase]
      rintro ⟨⟩
    refine h.settles hc hrole rfl rfl hlanded (by rintro ⟨⟩) ?_ (fun _ _ => rfl)
      (fun _ => id) rfl (fun value hput => ?_) rfl
    · show EncodeCall.Leads hook _ (s.futures i)
      generalize s.futures i = future at hleads
      cases hleads with
      | running hrunning =>
        rw [hphase] at hrunning
        cases hrunning with
        | flying hflying => cases hflying
      | stored hhas =>
        obtain rfl := some.inj (hstored.symm.trans hhas.value)
        exact .stored ⟨hstored, .inr rfl⟩
      | failed hfailed => cases hphase.symm.trans hfailed
    · obtain rfl := some.inj (hstored.symm.trans hput.value)
      exact ⟨hstored, hput.shouldCache, .inr (.inr rfl)⟩

variable [DecidableEq K]

theorem SingleFlight.lands (h : SingleFlight cfg hook s) (hc : s.calls[i]? = some c)
    (hrole : c.role = .leader key) (hcalls : t.calls = s.calls.set i c')
    (hrole' : c'.role = .leader key) (hflying : c.phase.Flying) (hrunning : c'.phase.Running)
    (hlanded : ¬c'.phase.Flying) (hfutures : t.futures = s.futures)
    (hinflight : t.inflight = update s.inflight key none)
    (hcached : ∀ p ∈ t.cache.cache, p ∈ s.cache.cache ∨ p.1 = key ∧
      ∃ stored, c'.Published hook stored ∧ p.2.data = cfg.detachValue stored) :
    SingleFlight cfg hook t := by
  obtain ⟨hleads, hentry⟩ := h.leads i c key hc hrole
  refine h.leader_moves hc hrole hrole' hcalls ?_ (fun _ _ => by rw [hfutures])
    (fun out hout => by rw [hfutures, hout]) (fun hflying' => absurd hflying' hlanded)
    (fun k j => ?_) (fun stored hput => absurd hflying hput.not_flying) hcached
  · rw [hfutures, hleads.eq_none (.flying hflying)]
    exact .running hrunning
  · rw [hinflight]
    by_cases heq : k = key
    · subst heq
      rw [update_self, hentry hflying]
      constructor
      · rintro ⟨⟩
      · rintro ⟨hj, himp⟩
        exact absurd (himp (some.inj hj).symm) hlanded
    · rw [update_of_ne heq]
      refine ⟨fun hj => ⟨hj, ?_⟩, And.left⟩
      rintro rfl
      obtain ⟨d, hd, hk, -⟩ := h.inflight k j hj
      obtain rfl := some.inj (hc.symm.trans hd)
      exact absurd (EncodeRole.leader.inj (hk.symm.trans hrole)) heq

theorem SingleFlight.getOrEncode (h : SingleFlight cfg hook s) (cacheKey : Option K) :
    SingleFlight cfg hook (s.getOrEncode cacheKey) := by
  cases cacheKey with
  | none =>
    refine h.arrives rfl rfl (List.Subset.refl _) nofun
      (fun k j => ⟨.inl, ?_⟩) nofun
    rintro (hold | ⟨-, hk⟩)
    · exact hold
    · cases hk
  | some key =>
    have hcache := get_subset s.cache key
    unfold EncodeService.getOrEncode
    dsimp only
    split
    next cache stored hget =>
      rw [hget] at hcache
      refine h.arrives rfl rfl hcache nofun (fun k j => ⟨.inl, ?_⟩) nofun
      rintro (hold | ⟨-, hk⟩)
      · exact hold
      · cases hk
    next cache hget =>
      rw [hget] at hcache
      split
      next l hentry =>
        refine h.arrives rfl rfl hcache nofun (fun k j => ⟨.inl, ?_⟩) (fun k l' hk => ?_)
        · rintro (hold | ⟨-, hk⟩)
          · exact hold
          · cases hk
        · obtain ⟨rfl, rfl⟩ := EncodeRole.follower.inj hk
          exact ⟨rfl, hentry⟩
      next hnone =>
        refine h.arrives rfl rfl hcache (fun _ _ => rfl) (fun k j => ?_) nofun
        show update s.inflight key (some s.calls.length) k = some j ↔ _
        by_cases heq : k = key
        · subst heq
          rw [update_self, hnone]
          constructor
          · intro hj
            exact .inr ⟨(some.inj hj).symm, rfl⟩
          · rintro (hold | ⟨rfl, -⟩)
            · cases hold
            · rfl
        · rw [update_of_ne heq]
          constructor
          · exact .inl
          · rintro (hold | ⟨-, hk⟩)
            · exact hold
            · exact absurd (EncodeRole.leader.inj hk).symm heq

theorem SingleFlight.leaderStep (h : SingleFlight cfg hook s) (hc : s.calls[i]? = some c)
    (hrole : c.role = .leader key) (hstep : s.leaderStep cfg i c key event = some t) :
    SingleFlight cfg hook t := by
  obtain ⟨hleads, -⟩ := h.leads i c key hc hrole
  cases hphase : c.phase with
  | encoding =>
    have hflying : c.phase.Flying := hphase ▸ .encoding
    cases event with
    | encoded artifact =>
      simp only [EncodeService.leaderStep, hphase] at hstep
      cases hstep
      exact h.flies hc hrole rfl hrole hflying (.storing artifact) rfl rfl (List.Subset.refl _)
    | raised exc =>
      simp only [EncodeService.leaderStep, hphase] at hstep
      cases hstep
      exact h.flies hc hrole rfl hrole hflying (.failing exc) rfl rfl (List.Subset.refl _)
    | _ => simp [EncodeService.leaderStep, hphase] at hstep
  | storing artifact =>
    have hflying : c.phase.Flying := hphase ▸ .storing artifact
    cases event with
    | stored stored =>
      simp only [EncodeService.leaderStep, hphase] at hstep
      cases hstep
      exact h.flies hc hrole rfl hrole hflying .revalidating rfl rfl (List.Subset.refl _)
    | raised exc =>
      simp only [EncodeService.leaderStep, hphase] at hstep
      cases hstep
      exact h.flies hc hrole rfl hrole hflying (.failing exc) rfl rfl (List.Subset.refl _)
    | _ => simp [EncodeService.leaderStep, hphase] at hstep
  | revalidating =>
    have hflying : c.phase.Flying := hphase ▸ .revalidating
    cases event with
    | validated shouldCache =>
      simp only [EncodeService.leaderStep, hphase] at hstep
      cases hstep
      exact h.flies hc hrole rfl hrole hflying .committing rfl rfl (List.Subset.refl _)
    | raised exc =>
      simp only [EncodeService.leaderStep, hphase] at hstep
      cases hstep
      exact h.flies hc hrole rfl hrole hflying (.failing exc) rfl rfl (List.Subset.refl _)
    | _ => simp [EncodeService.leaderStep, hphase] at hstep
  | committing =>
    have hflying : c.phase.Flying := hphase ▸ .committing
    cases event with
    | commit =>
      simp only [EncodeService.leaderStep, hphase] at hstep
      obtain ⟨stored, hstored, rfl⟩ := map_eq_some_iff.mp hstep
      split
      next hshould =>
        refine h.lands hc hrole rfl hrole hflying .publishing (by rintro ⟨⟩) rfl rfl fun p hp => ?_
        rcases mem_put hp with hold | ⟨hkey, hdata⟩
        · exact .inl hold
        · exact .inr ⟨hkey, stored, ⟨hstored, hshould, .inl rfl⟩, hdata⟩
      · exact h.lands hc hrole rfl hrole hflying .publishing (by rintro ⟨⟩) rfl rfl
          fun p hp => .inl hp
    | putRaised exc popped =>
      simp only [EncodeService.leaderStep, hphase] at hstep
      split at hstep
      · cases hstep
        split
        · exact h.flies hc hrole rfl hrole hflying (.failing exc) rfl rfl (drop_subset s.cache key)
        · exact h.flies hc hrole rfl hrole hflying (.failing exc) rfl rfl (List.Subset.refl _)
      · cases hstep
    | _ => simp [EncodeService.leaderStep, hphase] at hstep
  | failing exc =>
    cases event with
    | pop =>
      simp only [EncodeService.leaderStep, hphase] at hstep
      cases hstep
      exact h.lands hc hrole rfl hrole (hphase ▸ .failing exc) (.failed exc) (by rintro ⟨⟩) rfl rfl
        fun p hp => .inl hp
    | _ => simp [EncodeService.leaderStep, hphase] at hstep
  | failed exc =>
    have hnone := hleads.eq_none (hphase ▸ .failed exc)
    cases event with
    | publish =>
      simp only [EncodeService.leaderStep, hphase] at hstep
      cases hstep
      refine h.settles hc hrole rfl hrole (by rw [hphase]; rintro ⟨⟩) (by rintro ⟨⟩) ?_
        (fun j hne => update_of_ne hne _ _) (fun out hout => ?_) rfl
        (fun stored hput => ?_) rfl
      · show EncodeCall.Leads hook _ (update s.futures i (some (.error exc)) i)
        rw [update_self]
        exact .failed rfl
      · rw [hnone] at hout
        cases hout
      · rcases hput.phase with hp | hp | hp <;> cases hphase.symm.trans hp
    | _ => simp [EncodeService.leaderStep, hphase] at hstep
  | publishing =>
    have hnone := hleads.eq_none (hphase ▸ .publishing)
    cases event with
    | publish =>
      simp only [EncodeService.leaderStep, hphase] at hstep
      obtain ⟨stored, hstored, rfl⟩ := map_eq_some_iff.mp hstep
      refine h.settles hc hrole rfl hrole (by rw [hphase]; rintro ⟨⟩) (by rintro ⟨⟩) ?_
        (fun j hne => update_of_ne hne _ _) (fun out hout => ?_) rfl
        (fun value hput => ⟨hput.value, hput.shouldCache, .inr (.inl rfl)⟩) rfl
      · show EncodeCall.Leads hook _ (update s.futures i (some (.ok stored)) i)
        rw [update_self]
        exact .stored ⟨hstored, .inl rfl⟩
      · rw [hnone] at hout
        cases hout
    | _ => simp [EncodeService.leaderStep, hphase] at hstep
  | _ => cases event <;> simp [EncodeService.leaderStep, hphase] at hstep

theorem SingleFlight.callStep (h : SingleFlight cfg hook s) (hc : s.calls[i]? = some c)
    (hstep : s.callStep cfg hook i c event = some t) :
    SingleFlight cfg hook t := by
  unfold EncodeService.callStep at hstep
  split at hstep
  next hphase =>
    obtain ⟨stored, hstored, rfl⟩ := map_eq_some_iff.mp hstep
    exact h.load hc hphase hstored
  · split at hstep
    next hrole => exact h.uncacheableStep hc hrole hstep
    · cases hstep
    next hrole => exact h.followerStep hc hrole hstep
    next hrole => exact h.leaderStep hc hrole hstep

theorem SingleFlight.step (h : SingleFlight cfg hook s) {a : EncodeAction K A V E}
    (hstep : s.step cfg hook a = some t) : SingleFlight cfg hook t := by
  cases a with
  | getOrEncode cacheKey => exact some.inj hstep ▸ h.getOrEncode cacheKey
  | happens i event =>
    obtain ⟨c, hc, hstep⟩ := bind_eq_some_iff.mp hstep
    exact h.callStep hc hstep

/-- Whatever the calls do and in whatever order: a key is in flight exactly while its leader has
not taken it out, and it has one such leader at most. A call that has joined a leader waits or has
timed out, or gets what the leader has stored, or ends with an exception made afresh from the one
of the leader; it does not wait for a leader that has ended. What is cached was encoded, stored and
validated by a leader that has not raised. -/
theorem flights_agree {as : List (EncodeAction K A V E)}
    (hrun : Run (EncodeService.step cfg hook) anyAction .init as s) :
    (∀ key i, s.inflight key = some i ↔ ∃ c : EncodeCall K A V E,
      s.calls[i]? = some c ∧ c.role = .leader key ∧ c.phase.Flying) ∧
    (∀ (i j : ℕ) (c d : EncodeCall K A V E) (key : K), s.calls[i]? = some c →
      s.calls[j]? = some d → c.role = .leader key → d.role = .leader key → c.phase.Flying →
      d.phase.Flying → i = j) ∧
    (∀ (j : ℕ) (c : EncodeCall K A V E) (key : K) (i : ℕ), s.calls[j]? = some c →
      c.role = .follower key i → ∃ l : EncodeCall K A V E,
        s.calls[i]? = some l ∧ l.role = .leader key ∧
        (c.phase = .waiting ∨ c.phase = .timedOut ∨
          (∃ stored, l.Has hook stored ∧ c.Has hook stored) ∨
          ∃ exc, l.phase = .ended (.error exc) ∧
            c.phase = .ended (.error (hook.followerException exc))) ∧
        (c.phase = .waiting → ∀ out, l.phase = .ended out →
          (s.step cfg hook (.happens j .wake)).isSome)) ∧
    ∀ p ∈ s.cache.cache, ∃ (i : ℕ) (c : EncodeCall K A V E) (stored : V),
      s.calls[i]? = some c ∧ c.role = .leader p.1 ∧ c.Published hook stored ∧
        p.2.data = cfg.detachValue stored := by
  have h : SingleFlight cfg hook s := hrun.invariant (I := SingleFlight cfg hook)
    (fun _ _ _ h _ hstep => h.step hstep) singleFlight_init
  refine ⟨fun key i => ⟨h.inflight key i, ?_⟩, ?_, fun j c key i hc hrole => ?_, h.cached⟩
  · rintro ⟨c, hc, hrole, hflying⟩
    exact (h.leads i c key hc hrole).2 hflying
  · intro i j c d key hc hd hleads hleads' hflying hflying'
    have hi := (h.leads i c key hc hleads).2 hflying
    have hj := (h.leads j d key hd hleads').2 hflying'
    exact some.inj (hi.symm.trans hj)
  · obtain ⟨hfollows, l, hl, hlead⟩ := h.follows j c key i hc hrole
    obtain ⟨hleads, -⟩ := h.leads i l key hl hlead
    refine ⟨l, hl, hlead, ?_, fun hwaiting out hended => ?_⟩
    · generalize s.futures i = future at hfollows hleads
      cases hfollows with
      | waiting hwaiting => exact .inl hwaiting
      | timedOut htimedOut => exact .inr (.inl htimedOut)
      | @stored stored hhas =>
        cases hleads with
        | stored hhas' => exact .inr (.inr (.inl ⟨stored, hhas', hhas⟩))
      | @failed exc hfailed =>
        cases hleads with
        | failed hfailed' => exact .inr (.inr (.inr ⟨exc, hfailed', hfailed⟩))
    · have hset : ∃ value, s.futures i = some value := by
        generalize s.futures i = future at hleads
        cases hleads with
        | running hrunning =>
          rw [hended] at hrunning
          cases hrunning with
          | flying hflying => cases hflying
        | stored => exact ⟨_, rfl⟩
        | failed => exact ⟨_, rfl⟩
      obtain ⟨value, hvalue⟩ := hset
      simp [EncodeService.step, hc, EncodeService.callStep, hwaiting, hrole,
        EncodeService.followerStep, hvalue]

/-- Two calls with one key, and a third after the first has failed. -/
theorem flights_agree_joined : ∃ (s : EncodeService ℕ ℕ ℕ ℕ) (c l : EncodeCall ℕ ℕ ℕ ℕ),
    s.calls[2]? = some l ∧ s.calls[3]? = some c ∧ l.Has ⟨.ok, (· = 0), some, id⟩ 5 ∧
      c.Has ⟨.ok, (· = 0), some, id⟩ 5 := by
  have hrun : Run (EncodeService.step ⟨some 2, none, id, id, fun a b => a = b⟩
      ⟨.ok, (· = 0), some, id⟩) anyAction (.init : EncodeService ℕ ℕ ℕ ℕ)
      [.getOrEncode (some 7), .getOrEncode (some 7), .happens 0 (.raised 1), .happens 0 .pop,
        .getOrEncode (some 7), .getOrEncode (some 7), .happens 0 .publish, .happens 1 .wake,
        .happens 2 (.encoded 4), .happens 2 (.stored 5), .happens 2 (.validated true),
        .happens 2 .commit, .happens 2 .publish, .happens 3 .wake, .happens 3 .load] _ :=
    run_of_exec rfl
  obtain ⟨-, -, hfollows, -⟩ := flights_agree hrun
  obtain ⟨l, hl, -, hjoined, -⟩ := hfollows 3 _ 7 2 rfl rfl
  rcases hjoined with hphase | hphase | ⟨stored, hhas, hhas'⟩ | ⟨exc, -, hphase⟩
  · cases hphase
  · cases hphase
  · obtain rfl : 5 = stored := some.inj hhas'.value
    exact ⟨_, _, l, hl, rfl, hhas, hhas'⟩
  · cases hphase

/-- A call that has joined times out, and the leader ends with its artifact. -/
theorem joined_times_out : ∃ s : EncodeService ℕ ℕ ℕ ℕ,
    Run (EncodeService.step ⟨none, none, id, id, fun a b => a = b⟩ ⟨.ok, (· = 0), some, id⟩)
      anyAction .init
      [.getOrEncode (some 7), .getOrEncode (some 7), .happens 1 .timeout,
        .happens 0 (.encoded 4), .happens 0 (.stored 5), .happens 0 (.validated true),
        .happens 0 .commit, .happens 0 .publish, .happens 0 .load] s ∧
      s.calls = [⟨.leader 7, .ended (.ok 5), some 5, true⟩,
        ⟨.follower 7 0, .timedOut, none, false⟩] :=
  ⟨_, run_of_exec rfl, rfl⟩

end Omni.Cache
