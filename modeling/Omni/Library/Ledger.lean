import Mathlib.Data.Option.Basic
import Mathlib.Logic.Function.Basic
import Mathlib.Tactic.Common

/-!
# Settlement ledgers

Work is admitted under a key and identified by a ticket; while it is live the
key cannot be admitted again; it is settled once, with an outcome that stays on
record. The fields of `Ledger` carry these rules, so every ledger obeys them.
-/

namespace Omni

open Function

/-- A record of which ticket is live under each key, which key each ticket was
admitted under, and the outcome of every settled ticket. -/
structure Ledger (κ τ ο : Type*) where
  live : κ → Option τ
  key : τ → Option κ
  verdict : τ → Option ο
  /-- A live ticket was admitted under its key. -/
  key_of_live : ∀ {k t}, live k = some t → key t = some k
  /-- A live ticket has not been settled. -/
  verdict_of_live : ∀ {k t}, live k = some t → verdict t = none
  /-- Only admitted tickets are settled. -/
  verdict_of_unused : ∀ {t}, key t = none → verdict t = none
  /-- An admitted ticket is live until it is settled. -/
  live_of_key : ∀ {k t}, key t = some k → live k = some t ∨ verdict t ≠ none

namespace Ledger

variable {κ τ ο : Type*}

/-- The ledger without entries. -/
def empty : Ledger κ τ ο where
  live _ := none
  key _ := none
  verdict _ := none
  key_of_live h := by simp at h
  verdict_of_live h := by simp at h
  verdict_of_unused _ := rfl
  live_of_key h := by simp at h

/-- A ticket is accepted once it has been admitted, whether or not it is settled. -/
def Accepted (L : Ledger κ τ ο) (t : τ) : Prop := L.key t ≠ none

theorem key_of_verdict {L : Ledger κ τ ο} {t : τ} {o : ο} (hverdict : L.verdict t = some o) :
    L.key t ≠ none := by
  intro hkey
  simp [L.verdict_of_unused hkey] at hverdict

variable [DecidableEq κ] [DecidableEq τ]

/-- Admit an unused ticket under a free key; anything else is refused. -/
def enter (L : Ledger κ τ ο) (k : κ) (t : τ) : Ledger κ τ ο :=
  if h : L.key t = none ∧ L.live k = none then
    { live := update L.live k (some t)
      key := update L.key t (some k)
      verdict := L.verdict
      key_of_live := by
        intro k' t' hlive
        by_cases hk : k' = k
        · subst hk
          simp only [update_self, Option.some.injEq] at hlive
          simp [hlive]
        · rw [update_of_ne hk] at hlive
          have hkey := L.key_of_live hlive
          have hne : t' ≠ t := by
            rintro rfl
            simp [h.1] at hkey
          rw [update_of_ne hne, hkey]
      verdict_of_live := by
        intro k' t' hlive
        by_cases hk : k' = k
        · subst hk
          simp only [update_self, Option.some.injEq] at hlive
          exact hlive ▸ L.verdict_of_unused h.1
        · rw [update_of_ne hk] at hlive
          exact L.verdict_of_live hlive
      verdict_of_unused := by
        intro t' hkey
        by_cases ht : t' = t
        · simp [ht] at hkey
        · rw [update_of_ne ht] at hkey
          exact L.verdict_of_unused hkey
      live_of_key := by
        intro k' t' hkey
        by_cases ht : t' = t
        · subst ht
          simp only [update_self, Option.some.injEq] at hkey
          simp [hkey]
        · rw [update_of_ne ht] at hkey
          rcases L.live_of_key hkey with hlive | hverdict
          · left
            have hk : k' ≠ k := by
              rintro rfl
              simp [h.2] at hlive
            rw [update_of_ne hk, hlive]
          · exact Or.inr hverdict }
  else L

/-- Settle whatever is live under a key. -/
def settle (L : Ledger κ τ ο) (k : κ) (o : ο) : Ledger κ τ ο :=
  match hlive : L.live k with
  | none => L
  | some t =>
    { live := update L.live k none
      key := L.key
      verdict := update L.verdict t (some o)
      key_of_live := by
        intro k' t' h
        by_cases hk : k' = k
        · simp [hk] at h
        · rw [update_of_ne hk] at h
          exact L.key_of_live h
      verdict_of_live := by
        intro k' t' h
        by_cases hk : k' = k
        · simp [hk] at h
        · rw [update_of_ne hk] at h
          have hne : t' ≠ t := by
            rintro rfl
            have := (L.key_of_live h).symm.trans (L.key_of_live hlive)
            exact hk (Option.some.inj this)
          rw [update_of_ne hne]
          exact L.verdict_of_live h
      verdict_of_unused := by
        intro t' hkey
        have hne : t' ≠ t := by
          rintro rfl
          simp [L.key_of_live hlive] at hkey
        rw [update_of_ne hne]
        exact L.verdict_of_unused hkey
      live_of_key := by
        intro k' t' hkey
        by_cases ht : t' = t
        · simp [ht]
        · rw [update_of_ne ht]
          rcases L.live_of_key hkey with h | hverdict
          · left
            have hk : k' ≠ k := by
              rintro rfl
              exact ht (Option.some.inj (h.symm.trans hlive))
            rw [update_of_ne hk, h]
          · exact Or.inr hverdict }

/-- The ticket is live under its own key. -/
def isLive (L : Ledger κ τ ο) (t : τ) : Bool :=
  ((L.key t).bind L.live) == some t

omit [DecidableEq κ] in
theorem isLive_iff (L : Ledger κ τ ο) (t : τ) :
    L.isLive t = true ↔ ∃ k, L.live k = some t := by
  simp only [isLive, beq_iff_eq, Option.bind_eq_some_iff]
  constructor
  · rintro ⟨k, _, hlive⟩
    exact ⟨k, hlive⟩
  · rintro ⟨k, hlive⟩
    exact ⟨k, L.key_of_live hlive, hlive⟩

/-- Settle everything that is live with one outcome. -/
def settleAll (L : Ledger κ τ ο) (o : ο) : Ledger κ τ ο where
  live _ := none
  key := L.key
  verdict t := if L.isLive t then some o else L.verdict t
  key_of_live h := by simp at h
  verdict_of_live h := by simp at h
  verdict_of_unused {t} hkey := by
    have hnot : L.isLive t = false := by simp [isLive, hkey]
    simp [hnot, L.verdict_of_unused hkey]
  live_of_key {k t} hkey := by
    right
    rcases L.live_of_key hkey with hlive | hverdict
    · simp [isLive, hkey, hlive]
    · by_cases h : L.isLive t = true <;> simp [h, hverdict]

section Enter

variable {L : Ledger κ τ ο} {k : κ} {t : τ}

theorem enter_live (hkey : L.key t = none) (hlive : L.live k = none) :
    (L.enter k t).live = update L.live k (some t) := by
  simp [enter, hkey, hlive]

theorem enter_key (hkey : L.key t = none) (hlive : L.live k = none) :
    (L.enter k t).key = update L.key t (some k) := by
  simp [enter, hkey, hlive]

@[simp] theorem enter_verdict : (L.enter k t).verdict = L.verdict := by
  unfold enter
  split <;> rfl

end Enter

section Settle

variable {L : Ledger κ τ ο} {k : κ} {t : τ} {o o' : ο}

theorem settle_of_dead (hlive : L.live k = none) : L.settle k o = L := by
  unfold settle
  split
  · rfl
  next h => simp [hlive] at h

theorem settle_live : (L.settle k o).live = update L.live k none := by
  unfold settle
  split
  next h => rw [← h, update_eq_self]
  · rfl

@[simp] theorem settle_key : (L.settle k o).key = L.key := by
  unfold settle
  split <;> rfl

theorem settle_verdict (hlive : L.live k = some t) :
    (L.settle k o).verdict = update L.verdict t (some o) := by
  unfold settle
  split
  next h => simp [hlive] at h
  next t' h =>
    rw [hlive] at h
    cases h
    rfl

theorem settle_final (hverdict : L.verdict t = some o') :
    (L.settle k o).verdict t = some o' := by
  cases hlive : L.live k with
  | none => rw [settle_of_dead hlive, hverdict]
  | some u =>
    have hne : t ≠ u := by
      rintro rfl
      simp [L.verdict_of_live hlive] at hverdict
    rw [settle_verdict hlive, update_of_ne hne, hverdict]

omit [DecidableEq κ] in
theorem settleAll_final (hverdict : L.verdict t = some o') :
    (L.settleAll o).verdict t = some o' := by
  have hnot : L.isLive t ≠ true := by
    rw [ne_eq, isLive_iff]
    rintro ⟨k, hlive⟩
    simp [L.verdict_of_live hlive] at hverdict
  simp [settleAll, hnot, hverdict]

end Settle

end Ledger

end Omni
