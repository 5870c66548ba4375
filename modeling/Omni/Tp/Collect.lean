import Omni.Tp.Admin
import Mathlib.Data.Finset.Card
import Mathlib.Data.Finset.Prod
import Mathlib.Data.List.Basic

/-!
# Results of earlier operations

The queue of a follower is never cleared. A call takes the result of its own operation
exactly if the calls of all earlier operations have taken theirs.
-/

namespace Omni.Tp

open Function Option List

variable {D : Type} {stage : String} {followers k f j : ℕ} {α β : Type*} {l : List α}
  {s t : State D} {a : Action D} {g : α → Option β} {rs : List β} {get : Get D}

/-- A call only takes a result when the calls of all earlier operations at that follower
have taken theirs. -/
def InTurn (s : State D) : Action D → Prop
  | .take k f => ∀ j < k, ∃ result, s.gets j f = .got result
  | _ => True

/-- The number of operations whose results are collected, or have been. -/
def State.started (s : State D) : ℕ :=
  if s.phase = .running then s.ops.length - 1 else s.ops.length

/-- What is in a list stays where it is when something is appended. -/
theorem getElem?_append_of_some {i : ℕ} {a : α} (h : l[i]? = some a) (l' : List α) :
    (l ++ l')[i]? = some a := by
  rw [List.getElem?_append_left (List.getElem?_eq_some_iff.mp h).1]
  exact h

/-- The invariant of all runs in which results are taken in turn. -/
structure Sound (followers : ℕ) (s : State D) : Prop where
  ops : s.phase ≠ .idle → s.ops ≠ []
  called : ∀ k f, s.gets k f ≠ .notCalled ↔ k < s.started ∧ f < followers
  sent : ∀ (f j : ℕ) (result : AdminResult D), (s.sent f)[j]? = some result →
    ∃ op : AdminOperation, s.ops[j]? = some op ∧ result.opId = op.opId
  taken : ∀ k f, (∃ result, s.gets k f = .got result) ↔ k < s.taken f
  got : ∀ (k f : ℕ) (result : AdminResult D), s.gets k f = .got result → (s.sent f)[k]? = some
    result
  own : s.phase = .collecting → ∃ result, s.ownResult s.current = some result

theorem sound_init : Sound followers (State.init D) where
  ops h := absurd rfl h
  called k f := by simp [State.init, State.started]
  sent f j result h := by simp [State.init] at h
  taken k f := by simp [State.init]
  got k f result h := by simp [State.init] at h
  own h := by simp [State.init] at h

/-- Setting one call leaves all others. -/
theorem setGet_gets (s : State D) (k f : ℕ) (get : Get D) (j g : ℕ) :
    (s.setGet k f get).gets j g = if j = k ∧ g = f then get else s.gets j g := by
  by_cases hjk : j = k
  · subst hjk
    by_cases hgf : g = f
    · subst hgf
      simp [State.setGet]
    · simp [State.setGet, hgf]
  · simp [State.setGet, hjk]

/-- A call that waits has its turn when all earlier ones have returned. -/
theorem Sound.taken_eq (h : Sound followers s) (hwaiting : s.gets k f = .waiting)
    (hturn : ∀ j < k, ∃ result, s.gets j f = .got result) :
    s.taken f = k := by
  have hle : ¬k < s.taken f := fun hlt => by
    obtain ⟨result, hgot⟩ := (h.taken k f).mpr hlt
    rw [hwaiting] at hgot
    cases hgot
  have hge : ∀ j < k, j < s.taken f := fun j hj => (h.taken j f).mp (hturn j hj)
  rcases k with _ | k
  · omega
  · have hlast := hge k (Nat.lt_succ_self k)
    omega

/-- The operation that is worked on. -/
theorem Sound.current_lt (h : Sound followers s) (hphase : s.phase ≠ .idle) :
    s.current + 1 = s.ops.length := by
  have hpos := length_pos_of_ne_nil (h.ops hphase)
  unfold State.current
  omega

theorem Sound.step (h : Sound followers s) (hturn : InTurn s a)
    (hstep : Omni.Tp.step stage followers s a = some t) : Sound followers t := by
  cases a with
  | begin op =>
    obtain ⟨hidle, hstep⟩ := ite_none_right_eq_some.mp hstep
    rw [← some.inj hstep]
    refine ⟨fun _ => by simp, fun k f => ?_, fun f j result hj => ?_, h.taken, h.got,
      fun hcollecting => by simp at hcollecting⟩
    · simpa [State.started, hidle] using h.called k f
    · obtain ⟨op', hop', hid⟩ := h.sent f j result hj
      exact ⟨op', getElem?_append_of_some hop' _, hid⟩
  | ranOperation result =>
    simp only [Omni.Tp.step] at hstep
    split at hstep
    next op hop =>
      obtain ⟨⟨hrunning, hid⟩, hstep⟩ := ite_none_right_eq_some.mp hstep
      have hcurrent := h.current_lt (by simp [hrunning])
      have hnew : ∀ f, s.gets s.current f = .notCalled := by
        intro f
        by_contra hcalled
        have hlt := ((h.called _ f).mp hcalled).1
        simp only [State.started, hrunning, if_true] at hlt
        omega
      rw [← some.inj hstep]
      refine ⟨fun _ => h.ops (by simp [hrunning]), fun k f => ?_, h.sent, fun k f => ?_,
        fun k f r hgot => ?_, fun _ => ⟨result, by simp [State.current]⟩⟩
      · have hcalled := h.called k f
        simp only [State.started, hrunning, if_true] at hcalled
        by_cases hk : k = s.current
        · subst hk
          by_cases hf : f < followers
          · simp [State.started, hf]
            omega
          · simp [hf]
        · simp only [update_of_ne hk, hcalled, State.started, reduceCtorEq, if_false]
          omega
      · by_cases hk : k = s.current
        · subst hk
          have hnot := (h.taken s.current f).not.mp (by simp [hnew f])
          simp only [update_self]
          split <;> simp <;> omega
        · simpa only [update_of_ne hk] using h.taken k f
      · by_cases hk : k = s.current
        · subst hk
          simp only [update_self] at hgot
          split at hgot <;> cases hgot
        · simp only [update_of_ne hk] at hgot
          exact h.got k f r hgot
    · cases hstep
  | send f result =>
    simp only [Omni.Tp.step] at hstep
    split at hstep
    next op hop =>
      obtain ⟨⟨hf, hid⟩, hstep⟩ := ite_none_right_eq_some.mp hstep
      rw [← some.inj hstep]
      refine { h with sent := fun g j r hj => ?_, got := fun k g r hgot => ?_ }
      · by_cases hgf : g = f
        · subst hgf
          simp only [update_self] at hj
          have hlt := (List.getElem?_eq_some_iff.mp hj).1
          rw [length_append, length_singleton] at hlt
          by_cases hold : j < (s.sent g).length
          · rw [getElem?_append_left hold] at hj
            exact h.sent g j r hj
          · obtain rfl : j = (s.sent g).length := by omega
            obtain rfl : result = r := by simpa using hj
            exact ⟨op, hop, hid⟩
        · simp only [update_of_ne hgf] at hj
          exact h.sent g j r hj
      · by_cases hgf : g = f
        · subst hgf
          simp only [update_self]
          exact getElem?_append_of_some (h.got k g r hgot) _
        · simp only [update_of_ne hgf]
          exact h.got k g r hgot
    · cases hstep
  | take k f =>
    simp only [Omni.Tp.step] at hstep
    split at hstep
    next result hwaiting hresult =>
      rw [← some.inj hstep]
      have hk := h.taken_eq hwaiting hturn
      rw [hk] at hresult
      refine ⟨h.ops, fun j g => ?_, h.sent, fun j g => ?_, fun j g r hgot => ?_, h.own⟩
      · have hcalled := h.called j g
        simp only [setGet_gets]
        split
        next heq =>
          obtain ⟨rfl, rfl⟩ := heq
          have hboth := hcalled.mp (by simp [hwaiting])
          exact ⟨fun _ => hboth, fun _ => by simp⟩
        · exact hcalled
      · have htaken := h.taken j g
        simp only [setGet_gets]
        by_cases hgf : g = f
        · subst hgf
          by_cases hjk : j = k
          · subst hjk
            simp [hk]
          · simp only [hjk, false_and, if_false, update_self, htaken, hk]
            omega
        · simp only [hgf, and_false, if_false, update_of_ne hgf, htaken]
      · simp only [setGet_gets] at hgot
        split at hgot
        next heq =>
          obtain ⟨rfl, rfl⟩ := heq
          obtain rfl : result = r := by simpa using hgot
          exact hresult
        · exact h.got j g r hgot
    · cases hstep
  | timeout k f =>
    simp only [Omni.Tp.step] at hstep
    split at hstep
    next hwaiting _ =>
      rw [← some.inj hstep]
      refine ⟨h.ops, fun j g => ?_, h.sent, fun j g => ?_, fun j g r hgot => ?_, h.own⟩
      · have hcalled := h.called j g
        simp only [setGet_gets]
        split
        next heq =>
          obtain ⟨rfl, rfl⟩ := heq
          have hboth := hcalled.mp (by simp [hwaiting])
          exact ⟨fun _ => hboth, fun _ => by simp⟩
        · exact hcalled
      · have htaken := h.taken j g
        simp only [setGet_gets]
        split
        next heq =>
          obtain ⟨rfl, rfl⟩ := heq
          rw [hwaiting] at htaken
          simpa [State.setGet] using htaken
        · exact htaken
      · simp only [setGet_gets] at hgot
        split at hgot
        · cases hgot
        · exact h.got j g r hgot
    · cases hstep
  | finish =>
    simp only [Omni.Tp.step] at hstep
    split at hstep
    next hphase _ _ _ =>
      rw [← some.inj hstep]
      refine { h with
        ops := fun hidle => absurd rfl hidle, called := fun k f => ?_
        own := fun hcollecting => by simp [State.answer] at hcollecting }
      simpa [State.started, State.answer, hphase] using h.called k f
    · cases hstep
  | fail f =>
    simp only [Omni.Tp.step] at hstep
    split at hstep
    next hphase _ _ _ =>
      rw [← some.inj hstep]
      refine { h with
        ops := fun hidle => absurd rfl hidle, called := fun k f => ?_
        own := fun hcollecting => by simp [State.answer] at hcollecting }
      simpa [State.started, State.answer, hphase] using h.called k f
    · cases hstep

/-- Collecting succeeds when every part does. -/
theorem map_eq_of_mapM (h : l.mapM g = some rs) :
    l.map g = rs.map some := by
  induction l generalizing rs with
  | nil =>
    obtain rfl : [] = rs := by simpa using h
    rfl
  | cons a l ih =>
    rw [mapM_cons] at h
    obtain ⟨b, hb, hrest⟩ := bind_eq_some_iff.mp h
    obtain ⟨bs, hbs, hcons⟩ := bind_eq_some_iff.mp hrest
    obtain rfl : b :: bs = rs := some.inj hcons
    rw [map_cons, map_cons, hb, ih hbs]

/-- The parts of a collection. -/
theorem getElem?_of_mapM_range {g : ℕ → Option β} {n : ℕ} (h : (List.range n).mapM g = some rs) :
    rs.length = n ∧ ∀ i < n, g i = rs[i]? := by
  have hmap := map_eq_of_mapM h
  constructor
  · simpa using (congrArg List.length hmap).symm
  · intro i hi
    have hi' := congrArg (fun l : List (Option β) => l[i]?) hmap
    simp only [getElem?_map, getElem?_range hi, map_some] at hi'
    cases hr : rs[i]? with
    | none => simp [hr] at hi'
    | some r => simpa [hr] using hi'

/-- Results of the operation itself pass the check. -/
theorem checkOpIds_of_forall {opId : String} {results : List (AdminResult D)}
    (h : ∀ result ∈ results, result.opId = opId) : checkOpIds opId results = none := by
  induction results with
  | nil => rfl
  | cons result results ih =>
    rw [checkOpIds, if_neg (not_not.mpr (h result (mem_cons_self ..)))]
    exact ih fun other hother => h other (mem_cons_of_mem result hother)

/-- A call times out only if the result of its own operation has not arrived. -/
theorem Sound.timeout (h : Sound followers s)
    (hstep : Omni.Tp.step stage followers s (.timeout k f) = some t) :
    (s.sent f).length ≤ k := by
  simp only [Omni.Tp.step] at hstep
  split at hstep
  next hwaiting hempty =>
    have hle : ¬k < s.taken f := fun hlt => by
      obtain ⟨result, hgot⟩ := (h.taken k f).mpr hlt
      rw [hwaiting] at hgot
      cases hgot
    have hlength := getElem?_eq_none_iff.mp hempty
    omega
  · cases hstep

/-- The answer to operation `k` is made of the results that the followers sent for it. -/
def AnsweredFromOwn (stage : String) (followers : ℕ) (s : State D) (k : ℕ) (answer : Answer D) :
    Prop :=
  ∃ op own results, s.ops[k]? = some op ∧ s.ownResult k = some own ∧
    results.length = followers ∧ (∀ f < followers, (s.sent f)[k]? = results[f]?) ∧
    answer = combine stage op own results

/-- An answer for which no call has timed out. -/
theorem Sound.answer (h : Sound followers s) (hstep : Omni.Tp.step stage followers s a = some t)
    {answer : Answer D} (hbefore : s.outcome k = none) (hafter : t.outcome k = some answer)
    (hinTime : ∀ f < followers, s.gets k f ≠ .empty) :
    AnsweredFromOwn stage followers s k answer := by
  have hkeep : t.outcome = s.outcome → AnsweredFromOwn stage followers s k answer := by
    intro hsame
    rw [hsame, hbefore] at hafter
    cases hafter
  cases a with
  | finish =>
    simp only [Omni.Tp.step] at hstep
    split at hstep
    next op own results hphase hop hown hresults =>
      obtain rfl : k = s.current := by
        by_contra hk
        refine absurd ?_ (some_ne_none answer)
        rw [← hafter, ← hbefore, ← some.inj hstep]
        simp [State.answer, hk]
      obtain ⟨hlength, hparts⟩ := getElem?_of_mapM_range hresults
      have hown' : ∀ f < followers, (s.sent f)[s.current]? = results[f]? := by
        intro f hf
        have hpart := hparts f hf
        have hsome : ∃ result, results[f]? = some result :=
          ⟨_, getElem?_eq_getElem (hlength.symm ▸ hf)⟩
        obtain ⟨result, hresult⟩ := hsome
        rw [hresult] at hpart ⊢
        cases hget : s.gets s.current f with
        | got r =>
          rw [hget] at hpart
          obtain rfl : r = result := some.inj hpart
          exact h.got _ f r hget
        | _ =>
          rw [hget] at hpart
          cases hpart
      have hids : ∀ result ∈ results, result.opId = op.opId := by
        intro result hmem
        obtain ⟨f, hf, hresult⟩ := getElem_of_mem hmem
        have hsent := hown' f (hlength ▸ hf)
        rw [getElem?_eq_getElem hf, hresult] at hsent
        obtain ⟨op', hop', hid⟩ := h.sent f _ result hsent
        rw [hop] at hop'
        rw [hid, some.inj hop']
      rw [checkOpIds_of_forall hids] at hstep
      refine ⟨op, own, results, hop, hown, hlength, hown', ?_⟩
      rw [← some.inj hstep] at hafter
      simpa [State.answer] using hafter.symm
    · cases hstep
  | fail f =>
    simp only [Omni.Tp.step] at hstep
    split at hstep
    next op own hphase hop hown hempty =>
      by_cases hk : k = s.current
      · subst hk
        have hf := ((h.called s.current f).mp (by simp [hempty])).2
        exact absurd hempty (hinTime f hf)
      · rw [← some.inj hstep] at hafter
        simp [State.answer, hk, hbefore] at hafter
    · cases hstep
  | begin op =>
    obtain ⟨_, hstep⟩ := ite_none_right_eq_some.mp hstep
    exact hkeep (by rw [← some.inj hstep])
  | ranOperation result =>
    simp only [Omni.Tp.step] at hstep
    split at hstep
    · obtain ⟨_, hstep⟩ := ite_none_right_eq_some.mp hstep
      exact hkeep (by rw [← some.inj hstep])
    · cases hstep
  | send f result =>
    simp only [Omni.Tp.step] at hstep
    split at hstep
    · obtain ⟨_, hstep⟩ := ite_none_right_eq_some.mp hstep
      exact hkeep (by rw [← some.inj hstep])
    · cases hstep
  | take j f =>
    simp only [Omni.Tp.step] at hstep
    split at hstep
    · exact hkeep (by rw [← some.inj hstep]; rfl)
    · cases hstep
  | timeout j f =>
    simp only [Omni.Tp.step] at hstep
    split at hstep
    · exact hkeep (by rw [← some.inj hstep]; rfl)
    · cases hstep

/-- The call waits. -/
def Get.isWaiting : Get D → Bool
  | .waiting => true
  | _ => false

/-- The leader collects for operation `k`, and all results for it have arrived. -/
structure Arrived (followers k : ℕ) (s : State D) : Prop where
  phase : s.phase = .collecting
  ops : s.ops.length = k + 1
  own : ∃ result, s.ownResult k = some result
  sent : ∀ f < followers, k < (s.sent f).length
  called : ∀ f < followers, s.gets k f ≠ .notCalled
  waiting : ∀ j f, s.gets j f = .waiting → j ≤ k ∧ f < followers

/-- The calls that wait. -/
def waitingCalls (followers k : ℕ) (s : State D) : Finset (ℕ × ℕ) :=
  (Finset.range (k + 1) ×ˢ Finset.range followers).filter fun p =>
    (s.gets p.1 p.2).isWaiting = true

theorem waitingCalls_setGet (hwaiting : s.gets j f = .waiting) (hj : j ≤ k) (hf : f < followers)
    (hget : get.isWaiting = false) :
    (waitingCalls followers k (s.setGet j f get)).card < (waitingCalls followers k s).card := by
  refine Finset.card_lt_card ⟨fun p hp => ?_, fun hsubset => ?_⟩
  · obtain ⟨hmem, hp⟩ := Finset.mem_filter.mp hp
    rw [setGet_gets] at hp
    split at hp
    · rw [hget] at hp
      cases hp
    · exact Finset.mem_filter.mpr ⟨hmem, hp⟩
  · have hmem : (j, f) ∈ waitingCalls followers k s := by
      refine Finset.mem_filter.mpr ⟨Finset.mem_product.mpr ⟨?_, Finset.mem_range.mpr hf⟩, ?_⟩
      · exact Finset.mem_range.mpr (Nat.lt_succ_of_le hj)
      · rw [hwaiting]
        rfl
    have hstill := (Finset.mem_filter.mp (hsubset hmem)).2
    rw [setGet_gets, if_pos ⟨rfl, rfl⟩, hget] at hstill
    cases hstill

/-- A call that returns leaves everything else as it is. -/
theorem Arrived.setGet (h : Arrived followers k s) (hcalled : get ≠ .notCalled)
    (hget : get.isWaiting = false) :
    Arrived followers k (s.setGet j f get) := by
  refine { h with called := fun g hg => ?_, waiting := fun i g hwaiting => ?_ }
  · rw [setGet_gets]
    split
    · exact hcalled
    · exact h.called g hg
  · rw [setGet_gets] at hwaiting
    split at hwaiting
    · subst hwaiting
      cases hget
    · exact h.waiting i g hwaiting

/-- Collecting succeeds when all calls have returned. -/
theorem mapM_isSome (h : ∀ a ∈ l, ∃ b, g a = some b) :
    ∃ rs, l.mapM g = some rs := by
  induction l with
  | nil => exact ⟨[], rfl⟩
  | cons a l ih =>
    obtain ⟨b, hb⟩ := h a (mem_cons_self ..)
    obtain ⟨bs, hbs⟩ := ih fun a' ha' => h a' (mem_cons_of_mem a ha')
    exact ⟨b :: bs, by rw [mapM_cons, hb, hbs]; rfl⟩

/-- Something can happen while the leader collects. -/
theorem Arrived.enabled (h : Arrived followers k s) :
    ∃ a t, step stage followers s a = some t := by
  have hcurrent : s.current = k := by simp [State.current, h.ops]
  obtain ⟨op, hop⟩ : ∃ op, s.ops[s.current]? = some op :=
    ⟨_, getElem?_eq_getElem (by rw [hcurrent, h.ops]; omega)⟩
  obtain ⟨own, hown⟩ : ∃ own, s.ownResult s.current = some own := hcurrent.symm ▸ h.own
  by_cases hwaiting : ∃ f < followers, s.gets k f = .waiting
  · obtain ⟨f, _, hget⟩ := hwaiting
    cases hfirst : (s.sent f)[s.taken f]? with
    | none => exact ⟨.timeout k f, _, by simp only [step, hget, hfirst]; rfl⟩
    | some result => exact ⟨.take k f, _, by simp only [step, hget, hfirst]; rfl⟩
  · by_cases hempty : ∃ f < followers, s.gets k f = .empty
    · obtain ⟨f, _, hget⟩ := hempty
      rw [← hcurrent] at hget
      exact ⟨.fail f, _, by simp only [step, h.phase, hop, hown, hget]; rfl⟩
    · have hall : ∀ f ∈ List.range followers, ∃ result,
          (s.gets s.current f).result? = some result := by
        intro f hf
        have hlt := mem_range.mp hf
        rw [hcurrent]
        cases hget : s.gets k f with
        | notCalled => exact absurd hget (h.called f hlt)
        | waiting => exact absurd ⟨f, hlt, hget⟩ hwaiting
        | got result => exact ⟨result, rfl⟩
        | empty => exact absurd ⟨f, hlt, hget⟩ hempty
      obtain ⟨results, hresults⟩ := mapM_isSome hall
      exact ⟨.finish, _, by simp only [step, h.phase, hop, hown, hresults]; rfl⟩

/-- Every step answers the operation or ends a call. -/
theorem Arrived.decreases (h : Arrived followers k s) (hstep : step stage followers s a = some t) :
    (t.outcome k).isSome = true ∨
      (Arrived followers k t ∧
        (waitingCalls followers k t).card < (waitingCalls followers k s).card) := by
  have hcurrent : s.current = k := by simp [State.current, h.ops]
  cases a with
  | begin op =>
    obtain ⟨hidle, _⟩ := ite_none_right_eq_some.mp hstep
    simp [h.phase] at hidle
  | ranOperation result =>
    simp only [step] at hstep
    split at hstep
    · obtain ⟨⟨hrunning, _⟩, _⟩ := ite_none_right_eq_some.mp hstep
      simp [h.phase] at hrunning
    · cases hstep
  | send f result =>
    simp only [step] at hstep
    split at hstep
    next op hop =>
      obtain ⟨⟨hf, _⟩, _⟩ := ite_none_right_eq_some.mp hstep
      have hlt := (List.getElem?_eq_some_iff.mp hop).1
      have hsent := h.sent f hf
      rw [h.ops] at hlt
      omega
    · cases hstep
  | take j f =>
    simp only [step] at hstep
    split at hstep
    next result hwaiting _ =>
      obtain ⟨hj, hf⟩ := h.waiting j f hwaiting
      have hset : Arrived followers k (s.setGet j f (.got result)) := h.setGet (by simp) rfl
      rw [← some.inj hstep]
      exact Or.inr ⟨{ hset with }, waitingCalls_setGet hwaiting hj hf rfl⟩
    · cases hstep
  | timeout j f =>
    simp only [step] at hstep
    split at hstep
    next hwaiting _ =>
      obtain ⟨hj, hf⟩ := h.waiting j f hwaiting
      rw [← some.inj hstep]
      exact Or.inr ⟨h.setGet (by simp) rfl, waitingCalls_setGet hwaiting hj hf rfl⟩
    · cases hstep
  | finish =>
    simp only [step] at hstep
    split at hstep
    · rw [← some.inj hstep]
      exact Or.inl (by simp [State.answer, hcurrent])
    · cases hstep
  | fail f =>
    simp only [step] at hstep
    split at hstep
    · rw [← some.inj hstep]
      exact Or.inl (by simp [State.answer, hcurrent])
    · cases hstep

/-- A result for the given operation. -/
def resultOf (opId : String) (rank : ℕ) : AdminResult Unit :=
  ⟨opId, "thinker", "model_info", true, "ok", (), none, some rank, some "follower"⟩

end Omni.Tp
