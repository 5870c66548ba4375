import Mathlib.Data.List.Perm.Basic
import Omni.Library.Transition
import Omni.Tts.MossVocoder

/-!
# The slots of the codec session

Every stream slot is free, leased, borrowed by `decode_offline` or quarantined. A free slot has been
reset, and the state of a leased one is what the steps of its owner have made of a reset one.
-/

namespace Omni.Tts

open Transition Function MossVocoder List Option

variable {R C σ : Type} {session : CodecSession σ} {slot stepT : ℕ} {caller : OfflineCaller R}
  {r requestId : R} {state state' new : LocalStreamState C} {free : List ℕ}
  {participants : List (R × LocalStreamState C)} {codes : List C}

/-- The slots that `decode_offline` has borrowed. -/
def MossPoint.borrowed : MossPoint R C → List ℕ
  | .offline o _ => o.borrowed
  | _ => []

/-- A point outside `decode_offline` at which `decode_delta` has ended for no request. -/
def MossPoint.Plain : MossPoint R C → Prop
  | .closing _ | .offline _ _ => False
  | _ => True

/-- `decode_delta` has ended for a request. -/
inductive MossPoint.Ends (requestId : R) : MossPoint R C → Prop
  | closing : Ends requestId (.closing requestId)
  | fallback (o : OfflineDecode C) : Ends requestId (.offline o (.fallback requestId))

variable {point : MossPoint R C}

theorem MossPoint.plain_of_or {a b : MossPoint R C} (h : point = a ∨ point = b) (ha : a.Plain)
    (hb : b.Plain) : point.Plain := by
  rcases h with rfl | rfl
  · exact ha
  · exact hb

theorem MossPoint.Plain.borrowed (h : point.Plain) :
    point.borrowed = [] := by
  cases point with
  | offline => exact h.elim
  | _ => rfl

theorem MossPoint.Plain.not_ends (h : point.Plain) (r : R) :
    ¬point.Ends r := by
  rintro (_ | _) <;> exact h

theorem MossPoint.Plain.not_offline (h : point.Plain) (o : OfflineDecode C)
    (caller : OfflineCaller R) : point ≠ .offline o caller := by
  rintro rfl
  exact h

/-- `decode_offline` calls the codec for slots that are reserved or borrowed. -/
structure OfflineDecode.Within (streamSlots : ℕ) (o : OfflineDecode C) : Prop where
  available : ∀ slot ∈ o.available, streamSlots ≤ slot ∨ slot ∈ o.borrowed
  wave : ∀ wave, o.stage = .steps wave → ∀ item ∈ wave, item.slot ∈ o.available

/-- What holds of the streams, and of `decode_offline`. A stream without a slot has passed nothing
to the codec until `decode_delta` has ended for it. -/
structure MossVocoder.Tidy (cfg : MossConfig) (s : MossVocoder R C σ) : Prop where
  unfed : ∀ r state, s.streams r = some state → state.slot = none → state.fed = [] ∨ s.point.Ends r
  listed : ∀ r state, s.streams r = some state → r ∈ s.order
  within : ∀ o caller, s.point = .offline o caller → o.Within cfg.streamSlots
  starved : ∀ o r state, s.point = .offline o (.decodeDelta r) → s.streams r = some state →
    state.slot = none

/-- What holds of the slots and of the streams that lease them. -/
structure MossVocoder.Kept (cfg : MossConfig) (codec : SlotCodec C σ) (s : MossVocoder R C σ) :
    Prop where
  parts : (s.session.freeStreamSlots ++ s.session.streamSlotsInUse ++
    (s.point.borrowed ++ s.session.quarantined)).Perm (List.range cfg.streamSlots)
  clean : ∀ slot ∈ s.session.freeStreamSlots, s.session.states slot = codec.fresh
  leased : ∀ r state slot, s.streams r = some state → state.slot = some slot →
    slot ∈ s.session.streamSlotsInUse
  single : ∀ r r' state state' slot, s.streams r = some state → s.streams r' = some state' →
    state.slot = some slot → state'.slot = some slot → r = r'
  advanced : ∀ r state slot, s.streams r = some state → state.slot = some slot →
    state.failed = false → s.session.states slot = state.fed.foldl codec.advance codec.fresh
  tidy : s.Tidy cfg

variable {cfg : MossConfig} {codec : SlotCodec C σ} {s t : MossVocoder R C σ}

theorem CodecSession.release_returns (h : slot ∈ session.streamSlotsInUse) :
    session.release codec slot .returns =
      ({ session.setStates [slot] fun _ => codec.fresh with
        streamSlotsInUse := session.streamSlotsInUse.erase slot
        freeStreamSlots := session.freeStreamSlots ++ [slot] }, true) :=
  if_pos h

/-- The release of a leased slot whose reset fails. -/
theorem CodecSession.release_raises (h : slot ∈ session.streamSlotsInUse) (states : ℕ → σ) :
    session.release codec slot (.raises states) = (session.setStates [slot] states, false) :=
  if_pos h

theorem kept_init : (init cfg codec : MossVocoder R C σ).Kept cfg codec where
  parts := by
    show (List.range cfg.streamSlots ++ [] ++ ([] ++ [])).Perm _
    rw [append_nil, append_nil, append_nil]
  clean _ _ := rfl
  leased _ _ _ hstate := by cases hstate
  single _ _ _ _ _ hstate := by cases hstate
  advanced _ _ _ hstate := by cases hstate
  tidy := {
    unfed := nofun
    listed := nofun
    within := nofun
    starved := fun _ _ _ hpoint => by cases hpoint }

theorem MossVocoder.Kept.apart (h : s.Kept cfg codec) (hfree : slot ∈ s.session.freeStreamSlots) :
    slot ∉ s.session.streamSlotsInUse := by
  have hnodup := h.parts.nodup_iff.mpr nodup_range
  intro hinUse
  exact (nodup_append.mp (nodup_append.mp hnodup).1).2.2 _ hfree _ hinUse rfl

variable {o : OfflineDecode C}

theorem MossVocoder.Kept.not_available (h : s.Kept cfg codec) (hpoint : s.point = .offline o caller)
    (hslot : slot ∈ s.session.freeStreamSlots ∨ slot ∈ s.session.streamSlotsInUse) :
    slot ∉ o.available := by
  have hmem : slot ∈ s.session.freeStreamSlots ++ s.session.streamSlotsInUse :=
    mem_append.mpr hslot
  intro havailable
  rcases (h.tidy.within o caller hpoint).available slot havailable with hge | hborrowed
  · have hlt := mem_range.mp (h.parts.mem_iff.mp (mem_append_left _ hmem))
    omega
  · have hnodup := h.parts.nodup_iff.mpr nodup_range
    have hborrowed' : slot ∈ s.point.borrowed := by
      rw [hpoint]
      exact hborrowed
    exact (nodup_append.mp hnodup).2.2 _ hmem _ (mem_append_left _ hborrowed') rfl

/-- A stream with a slot that is as before, but for what is not about the slot. -/
def StreamKept (s : MossVocoder R C σ) (r : R) (state' : LocalStreamState C) : Prop :=
  ∀ slot, state'.slot = some slot → ∃ state, s.streams r = some state ∧
    state.slot = some slot ∧ state'.fed = state.fed ∧ (state'.failed = false → state.failed = false)

/-- Streams that keep their slots share none. -/
theorem MossVocoder.Kept.single_of (h : s.Kept cfg codec)
    (hstreams : ∀ r state' slot, t.streams r = some state' → state'.slot = some slot →
      ∃ state, s.streams r = some state ∧ state.slot = some slot)
    (r r' : R) (state state' : LocalStreamState C) (slot : ℕ) (hr : t.streams r = some state)
    (hr' : t.streams r' = some state') (hslot : state.slot = some slot)
    (hslot' : state'.slot = some slot) : r = r' := by
  obtain ⟨old, hold, holdSlot⟩ := hstreams r state slot hr hslot
  obtain ⟨old', hold', holdSlot'⟩ := hstreams r' state' slot hr' hslot'
  exact h.single r r' old old' slot hold hold' holdSlot holdSlot'

theorem StreamKept.held (h : StreamKept s r state') (hslot : state'.slot = some slot) :
    ∃ state, s.streams r = some state ∧ state.slot = some slot := by
  obtain ⟨state, hstate, hheld, -⟩ := h slot hslot
  exact ⟨state, hstate, hheld⟩

/-- Nothing happens to the slots that are free or leased. -/
theorem MossVocoder.Kept.frame (h : s.Kept cfg codec)
    (hfree : t.session.freeStreamSlots = s.session.freeStreamSlots)
    (hinUse : t.session.streamSlotsInUse = s.session.streamSlotsInUse)
    (hrest : t.point.borrowed ++ t.session.quarantined = s.point.borrowed ++ s.session.quarantined)
    (hstates : ∀ slot, slot ∈ s.session.freeStreamSlots ∨ slot ∈ s.session.streamSlotsInUse →
      t.session.states slot = s.session.states slot)
    (hstreams : ∀ r state', t.streams r = some state' → StreamKept s r state')
    (htidy : t.Tidy cfg) :
    t.Kept cfg codec where
  parts := by
    rw [hfree, hinUse, hrest]
    exact h.parts
  clean slot hslot := by
    rw [hfree] at hslot
    rw [hstates slot (.inl hslot)]
    exact h.clean slot hslot
  leased r state' slot hstate' hslot := by
    obtain ⟨state, hstate, hslot', -⟩ := hstreams r state' hstate' slot hslot
    rw [hinUse]
    exact h.leased r state slot hstate hslot'
  single := h.single_of fun r state' _ hstate' hslot => (hstreams r state' hstate').held hslot
  advanced r state' slot hstate' hslot hfailed := by
    obtain ⟨state, hstate, hslot', hfed, hmono⟩ := hstreams r state' hstate' slot hslot
    rw [hstates slot (.inr (h.leased r state slot hstate hslot')), hfed]
    exact h.advanced r state slot hstate hslot' (hmono hfailed)
  tidy := htidy

theorem MossVocoder.Kept.acquire (h : s.Kept cfg codec) (requestId : R)
    (hlast : s.session.freeStreamSlots = free ++ [slot]) (hfree : t.session.freeStreamSlots = free)
    (hinUse : t.session.streamSlotsInUse = s.session.streamSlotsInUse ++ [slot])
    (hrest : t.point.borrowed ++ t.session.quarantined = s.point.borrowed ++ s.session.quarantined)
    (hstates : t.session.states = s.session.states)
    (hstreams : ∀ r state', t.streams r = some state' → StreamKept s r state' ∨
      r = requestId ∧ state'.slot = some slot ∧ state'.fed = []) (htidy : t.Tidy cfg) :
    t.Kept cfg codec := by
  have hslot : slot ∈ s.session.freeStreamSlots := by
    rw [hlast]
    exact mem_append_right _ (mem_singleton.mpr rfl)
  have hnot := h.apart hslot
  refine ⟨?_, fun k hk => ?_, fun r state' k hstate' hk => ?_,
    fun r₁ r₂ state₁ state₂ k h₁ h₂ hk₁ hk₂ => ?_,
    fun r state' k hstate' hk hfailed => ?_, htidy⟩
  · have hparts := h.parts
    rw [hlast] at hparts
    rw [hfree, hinUse, hrest]
    refine (List.Perm.append_right _ ?_).trans hparts
    rw [append_assoc]
    exact List.Perm.append_left _ perm_append_comm
  · rw [hfree] at hk
    rw [hstates]
    exact h.clean k (hlast ▸ mem_append_left _ hk)
  · rw [hinUse, mem_append]
    rcases hstreams r state' hstate' with hkept | ⟨-, hnew, -⟩
    · obtain ⟨state, hstate, hk', -⟩ := hkept k hk
      exact .inl (h.leased r state k hstate hk')
    · exact .inr (mem_singleton.mpr (some.inj (hk.symm.trans hnew)))
  · rcases hstreams r₁ state₁ h₁ with hkept₁ | ⟨rfl, hnew₁, -⟩
    · obtain ⟨old₁, hold₁, hk₁', -⟩ := hkept₁ k hk₁
      rcases hstreams r₂ state₂ h₂ with hkept₂ | ⟨rfl, hnew₂, -⟩
      · obtain ⟨old₂, hold₂, hk₂', -⟩ := hkept₂ k hk₂
        exact h.single r₁ r₂ old₁ old₂ k hold₁ hold₂ hk₁' hk₂'
      · obtain rfl := some.inj (hk₂.symm.trans hnew₂)
        exact absurd (h.leased r₁ old₁ k hold₁ hk₁') hnot
    · obtain rfl := some.inj (hk₁.symm.trans hnew₁)
      rcases hstreams r₂ state₂ h₂ with hkept₂ | ⟨rfl, -, -⟩
      · obtain ⟨old₂, hold₂, hk₂', -⟩ := hkept₂ k hk₂
        exact absurd (h.leased r₂ old₂ k hold₂ hk₂') hnot
      · rfl
  · rw [hstates]
    rcases hstreams r state' hstate' with hkept | ⟨-, hnew, hfed⟩
    · obtain ⟨state, hstate, hk', hfed, hmono⟩ := hkept k hk
      rw [hfed]
      exact h.advanced r state k hstate hk' (hmono hfailed)
    · obtain rfl := some.inj (hk.symm.trans hnew)
      rw [hfed]
      exact h.clean k hslot

/-- The slot of a stream is given back, or the reset has failed. The stream has lost the slot, or
the failure is noted. -/
theorem MossVocoder.Kept.release (h : s.Kept cfg codec) (hstate : s.streams requestId = some state)
    (hslot : state.slot = some slot) (choice : CodecChoice σ)
    (hsession : t.session = (s.session.release codec slot choice).1)
    (hborrowed : t.point.borrowed = s.point.borrowed)
    (hstreams : ∀ r state', t.streams r = some state' → r ≠ requestId ∧ StreamKept s r state' ∨
      r = requestId ∧ (state'.slot = none ∨
        (s.session.release codec slot choice).2 = false ∧ state'.slot = some slot ∧
          state'.failed = true)) (htidy : t.Tidy cfg) :
    t.Kept cfg codec := by
  have hmem := h.leased requestId state slot hstate hslot
  have hne {r : R} {old : LocalStreamState C} {k : ℕ} (hr : r ≠ requestId)
      (hold : s.streams r = some old) (hk : old.slot = some k) : k ≠ slot := by
    rintro rfl
    exact hr (h.single r requestId old state k hold hstate hk hslot)
  have hnodup := h.parts.nodup_iff.mpr nodup_range
  have hinUse : s.session.streamSlotsInUse.Nodup :=
    (nodup_append.mp (nodup_append.mp hnodup).1).2.1
  have hold {r : R} {state' : LocalStreamState C} {k : ℕ} (hstate' : t.streams r = some state')
      (hk : state'.slot = some k) (hreturned : (s.session.release codec slot choice).2 = true ∨
        state'.failed = false) :
      r ≠ requestId ∧ k ≠ slot ∧ ∃ old, s.streams r = some old ∧ old.slot = some k ∧
        state'.fed = old.fed ∧ (state'.failed = false → old.failed = false) := by
    rcases hstreams r state' hstate' with ⟨hr, hkept⟩ | ⟨-, hnone | ⟨hraised, -, hfailed⟩⟩
    · obtain ⟨old, hold, hk', hrest⟩ := hkept k hk
      exact ⟨hr, hne hr hold hk', old, hold, hk', hrest⟩
    · rw [hnone] at hk
      cases hk
    · rcases hreturned with hreturned | hreturned
      · rw [hraised] at hreturned
        cases hreturned
      · rw [hfailed] at hreturned
        cases hreturned
  have hoff (k : ℕ) (hk : k ≠ slot) : t.session.states k = s.session.states k := by
    rw [hsession]
    cases choice with
    | returns =>
      rw [CodecSession.release_returns hmem]
      exact if_neg (mt mem_singleton.mp hk)
    | raises states =>
      rw [CodecSession.release_raises hmem]
      exact if_neg (mt mem_singleton.mp hk)
  cases choice with
  | returns =>
    rw [CodecSession.release_returns hmem] at hsession hold
    refine ⟨?_, fun k hk => ?_, fun r state' k hstate' hk => ?_,
      h.single_of fun r state' k hstate' hk => ?_,
      fun r state' k hstate' hk hfailed => ?_, htidy⟩
    · rw [hsession, hborrowed]
      refine (List.Perm.append_right _ ?_).trans h.parts
      show (s.session.freeStreamSlots ++ [slot] ++ s.session.streamSlotsInUse.erase slot).Perm _
      rw [append_assoc, singleton_append]
      exact List.Perm.append_left _ (perm_cons_erase hmem).symm
    · by_cases hslot : k = slot
      · rw [hsession]
        exact if_pos (mem_singleton.mpr hslot)
      · rw [hsession] at hk
        rw [hoff k hslot]
        exact h.clean k ((mem_append.mp hk).resolve_right (mt mem_singleton.mp hslot))
    · obtain ⟨-, hslot, old, hstate, hk', -⟩ := hold hstate' hk (.inl rfl)
      rw [hsession]
      exact hinUse.mem_erase_iff.mpr ⟨hslot, h.leased r old k hstate hk'⟩
    · obtain ⟨-, -, old, hstate, hk', -⟩ := hold hstate' hk (.inl rfl)
      exact ⟨old, hstate, hk'⟩
    · obtain ⟨-, hslot, old, hstate, hk', hfed, hmono⟩ := hold hstate' hk (.inl rfl)
      rw [hoff k hslot, hfed]
      exact h.advanced r old k hstate hk' (hmono hfailed)
  | raises states =>
    rw [CodecSession.release_raises hmem] at hsession hstreams
    have holder {r : R} {state' : LocalStreamState C} {k : ℕ} (hstate' : t.streams r = some state')
        (hk : state'.slot = some k) : ∃ old, s.streams r = some old ∧ old.slot = some k := by
      rcases hstreams r state' hstate' with ⟨-, hkept⟩ | ⟨rfl, hnone | ⟨-, hslot', -⟩⟩
      · obtain ⟨old, hold, hk', -⟩ := hkept k hk
        exact ⟨old, hold, hk'⟩
      · rw [hnone] at hk
        cases hk
      · exact ⟨state, hstate, hslot.trans (hslot'.symm.trans hk)⟩
    refine ⟨?_, fun k hk => ?_, fun r state' k hstate' hk => ?_,
      h.single_of fun r state' k hstate' hk => holder hstate' hk,
      fun r state' k hstate' hk hfailed => ?_, htidy⟩
    · rw [hsession, hborrowed]
      exact h.parts
    · rw [hsession] at hk
      have hslot : k ≠ slot := by
        rintro rfl
        exact h.apart hk hmem
      rw [hoff k hslot]
      exact h.clean k hk
    · obtain ⟨old, hold, hk'⟩ := holder hstate' hk
      rw [hsession]
      exact h.leased r old k hold hk'
    · obtain ⟨-, hslot, old, hstate, hk', hfed, hmono⟩ := hold hstate' hk (.inr hfailed)
      rw [hoff k hslot, hfed]
      exact h.advanced r old k hstate hk' (hmono hfailed)

/-- A step of the codec for slots that streams lease: each of them gets the codes that the dict has
for its slot, unless the step raises. -/
theorem MossVocoder.Kept.feed (h : s.Kept cfg codec) (slotCodes : ℕ → Option (List C))
    (choice : CodecChoice σ)
    (hdict : ∀ slot codes, slotCodes slot = some codes → ∃ r state, s.streams r = some state ∧
      state.slot = some slot)
    (hsession : t.session = (s.session.step codec slotCodes choice).1)
    (hborrowed : t.point.borrowed = s.point.borrowed)
    (hstreams : ∀ r state' slot, t.streams r = some state' → state'.slot = some slot →
      ∃ state, s.streams r = some state ∧ state.slot = some slot ∧ (state'.failed = false →
        state.failed = false ∧ state'.fed = state.fed ++ (slotCodes slot).toList ∧
          ((s.session.step codec slotCodes choice).2 = true ∨ slotCodes slot = none)))
    (htidy : t.Tidy cfg) :
    t.Kept cfg codec := by
  have hsame : t.session.freeStreamSlots = s.session.freeStreamSlots ∧
      t.session.streamSlotsInUse = s.session.streamSlotsInUse ∧
      t.session.quarantined = s.session.quarantined := by
    rw [hsession]
    cases choice <;> exact ⟨rfl, rfl, rfl⟩
  obtain ⟨hfree, hinUse, hquarantined⟩ := hsame
  have hoff (k : ℕ) (hk : slotCodes k = none) : t.session.states k = s.session.states k := by
    rw [hsession]
    cases choice <;> simp [CodecSession.step, hk]
  refine ⟨?_, fun k hk => ?_, fun r state' k hstate' hk => ?_,
    h.single_of fun r state' slot hstate' hk => ?_,
    fun r state' k hstate' hk hfailed => ?_, htidy⟩
  · rw [hfree, hinUse, hborrowed, hquarantined]
    exact h.parts
  · rw [hfree] at hk
    have hnone : slotCodes k = none := by
      refine eq_none_iff_forall_ne_some.mpr fun codes hcodes => ?_
      obtain ⟨r, state, hstate, hslot⟩ := hdict k codes hcodes
      exact h.apart hk (h.leased r state k hstate hslot)
    rw [hoff k hnone]
    exact h.clean k hk
  · obtain ⟨state, hstate, hslot, -⟩ := hstreams r state' k hstate' hk
    rw [hinUse]
    exact h.leased r state k hstate hslot
  · obtain ⟨state, hstate, hslot, -⟩ := hstreams r state' slot hstate' hk
    exact ⟨state, hstate, hslot⟩
  · obtain ⟨state, hstate, hslot, hfeed⟩ := hstreams r state' k hstate' hk
    obtain ⟨hfailed', hfed, hreturned⟩ := hfeed hfailed
    have hbefore := h.advanced r state k hstate hslot hfailed'
    cases hcodes : slotCodes k with
    | none =>
      rw [hoff k hcodes, hfed, hcodes, hbefore, toList_none, append_nil]
    | some codes =>
      have hreturns := hreturned.resolve_right (by rw [hcodes]; exact some_ne_none codes)
      cases choice with
      | raises states => cases hreturns
      | returns =>
        rw [hfed, hcodes, toList_some, foldl_append, ← hbefore, hsession]
        simp [CodecSession.step, hcodes]

theorem MossVocoder.Kept.borrow (h : s.Kept cfg codec) {kept : ℕ}
    (hpoint : s.point.borrowed = [])
    (hsession : t.session =
      { s.session with freeStreamSlots := s.session.freeStreamSlots.take kept })
    (hborrowed : t.point.borrowed = s.session.freeStreamSlots.drop kept)
    (hstreams : ∀ r state', t.streams r = some state' → StreamKept s r state')
    (htidy : t.Tidy cfg) :
    t.Kept cfg codec := by
  refine ⟨?_, fun k hk => ?_, fun r state' k hstate' hk => ?_,
    h.single_of fun r state' _ hstate' hk => (hstreams r state' hstate').held hk,
    fun r state' k hstate' hk hfailed => ?_, htidy⟩
  · have hparts := h.parts
    rw [hpoint, nil_append] at hparts
    rw [hsession, hborrowed]
    refine List.Perm.trans ?_ hparts
    show ((s.session.freeStreamSlots.take kept ++ s.session.streamSlotsInUse) ++
      (s.session.freeStreamSlots.drop kept ++ s.session.quarantined)).Perm _
    rw [← append_assoc]
    refine List.Perm.append_right _ ?_
    nth_rewrite 3 [← take_append_drop kept s.session.freeStreamSlots]
    rw [append_assoc, append_assoc]
    exact List.Perm.append_left _ perm_append_comm
  · rw [hsession] at hk ⊢
    exact h.clean k (mem_of_mem_take hk)
  · obtain ⟨state, hstate, hslot, -⟩ := hstreams r state' hstate' k hk
    rw [hsession]
    exact h.leased r state k hstate hslot
  · obtain ⟨state, hstate, hslot, hfed, hmono⟩ := hstreams r state' hstate' k hk
    rw [hsession, hfed]
    exact h.advanced r state k hstate hslot (hmono hfailed)

/-- The borrowed slots are reset at the end of `decode_offline`, and given back if the reset has
not failed. -/
theorem MossVocoder.Kept.giveBack (h : s.Kept cfg codec) (states : ℕ → σ) {quarantined : List ℕ}
    (hwhere : free = s.point.borrowed ∧ quarantined = [] ∧ states = (fun _ => codec.fresh) ∨
      free = [] ∧ quarantined = s.point.borrowed) (hsession : t.session =
      { s.session.setStates s.point.borrowed states with
        freeStreamSlots := s.session.freeStreamSlots ++ free
        quarantined := s.session.quarantined ++ quarantined })
    (hborrowed : t.point.borrowed = [])
    (hstreams : ∀ r state', t.streams r = some state' → StreamKept s r state')
    (htidy : t.Tidy cfg) :
    t.Kept cfg codec := by
  have hnodup := h.parts.nodup_iff.mpr nodup_range
  have hoff (k : ℕ) (hk : k ∈ s.session.freeStreamSlots ++ s.session.streamSlotsInUse) :
      t.session.states k = s.session.states k := by
    rw [hsession]
    refine if_neg fun hborrowed => ?_
    exact (nodup_append.mp hnodup).2.2 k hk k (mem_append_left _ hborrowed) rfl
  refine ⟨?_, fun k hk => ?_, fun r state' k hstate' hk => ?_,
    h.single_of fun r state' _ hstate' hk => (hstreams r state' hstate').held hk,
    fun r state' k hstate' hk hfailed => ?_, htidy⟩
  · rw [hborrowed, hsession]
    refine List.Perm.trans ?_ h.parts
    show ((s.session.freeStreamSlots ++ free ++ s.session.streamSlotsInUse) ++
      ([] ++ (s.session.quarantined ++ quarantined))).Perm _
    refine perm_iff_count.mpr fun k => ?_
    have hcount : free.count k + quarantined.count k = s.point.borrowed.count k := by
      rcases hwhere with ⟨rfl, rfl, -⟩ | ⟨rfl, rfl⟩ <;> simp
    simp only [count_append, nil_append]
    omega
  · rw [hsession] at hk
    rcases mem_append.mp hk with hkept | hback
    · rw [hoff k (mem_append_left _ hkept)]
      exact h.clean k hkept
    · rcases hwhere with ⟨rfl, -, rfl⟩ | ⟨rfl, -⟩
      · rw [hsession]
        exact if_pos hback
      · cases hback
  · obtain ⟨state, hstate, hslot, -⟩ := hstreams r state' hstate' k hk
    rw [hsession]
    exact h.leased r state k hstate hslot
  · obtain ⟨state, hstate, hslot, hfed, hmono⟩ := hstreams r state' hstate' k hk
    have hinUse := h.leased r state k hstate hslot
    rw [hoff k (mem_append_right _ hinUse), hfed]
    exact h.advanced r state k hstate hslot (hmono hfailed)

theorem MossVocoder.mem_items :
    (r, state) ∈ s.items ↔ r ∈ s.order ∧ s.streams r = some state := by
  simp only [items, mem_filterMap, map_eq_some_iff, Prod.mk.injEq]
  constructor
  · rintro ⟨r', hr', state', hstate', rfl, rfl⟩
    exact ⟨hr', hstate'⟩
  · rintro ⟨hr, hstate⟩
    exact ⟨r, hr, state, hstate, rfl, rfl⟩

theorem StreamKept.refl (h : s.streams r = some state) :
    StreamKept s r state :=
  fun _ hslot => ⟨state, h, hslot, rfl, id⟩

/-- A section goes on to its next point. -/
theorem MossVocoder.Kept.moveTo (h : s.Kept cfg codec)
    (hborrowed : point.borrowed = s.point.borrowed)
    (hends : ∀ r state, s.streams r = some state → s.point.Ends r → point.Ends r)
    (hwithin : ∀ o caller, point = .offline o caller → o.Within cfg.streamSlots)
    (hstarved : ∀ o r state, point = .offline o (.decodeDelta r) → s.streams r = some state →
      state.slot = none) :
    { s with point := point }.Kept cfg codec := by
  refine h.frame rfl rfl ?_ (fun _ _ => rfl) (fun _ _ hstate => .refl hstate)
    ⟨fun r state hstate hslot => ?_, h.tidy.listed, hwithin, hstarved⟩
  · show point.borrowed ++ _ = _
    rw [hborrowed]
  · exact (h.tidy.unfed r state hstate hslot).imp_right (hends r state hstate)

theorem MossVocoder.slotCodes_some (h : slotCodes participants stepT slot = some codes) :
    ∃ item ∈ participants, item.2.slot = some slot := by
  obtain ⟨item, hfind, -⟩ := map_eq_some_iff.mp h
  have hslot := find?_some hfind
  simp only [decide_eq_true_eq] at hslot
  exact ⟨item, mem_reverse.mp (mem_of_find?_eq_some hfind), hslot⟩

/-- The state of a stream after a turn of the pump. -/
def LocalStreamState.pumped (cfg : MossConfig) (stepT : ℕ) (returned : Bool)
    (state : LocalStreamState C) : LocalStreamState C :=
  if returned then { state.feed stepT with threshold := cfg.streamChunkFrames }
  else { state with failed := true }

theorem LocalStreamState.pumped_slot (cfg : MossConfig) (stepT : ℕ) (returned : Bool)
    (state : LocalStreamState C) : (state.pumped cfg stepT returned).slot = state.slot := by
  cases returned <;> rfl

theorem MossVocoder.Kept.beginOffline (h : s.Kept cfg codec) (codes : List (List C))
    (caller : OfflineCaller R) (hborrowed : s.point.borrowed = [])
    (hends : ∀ r, s.point.Ends r → caller = .fallback r)
    (hstarved : ∀ r state, caller = .decodeDelta r → s.streams r = some state → state.slot = none) :
    (s.beginOffline cfg codes caller).Kept cfg codec := by
  refine h.borrow hborrowed rfl rfl (fun _ _ hstate => .refl hstate)
    ⟨fun r state hstate hnone => ?_, h.tidy.listed, fun o caller' hpoint => ?_,
      fun o r state hpoint hstate => ?_⟩
  · refine (h.tidy.unfed r state hstate hnone).imp_right fun hr => ?_
    obtain rfl := hends r hr
    exact .fallback _
  · obtain ⟨rfl, rfl⟩ := MossPoint.offline.inj hpoint
    refine ⟨fun slot hslot => ?_, nofun⟩
    rcases mem_append.mp hslot with hreserved | hlast
    · exact .inl (mem_range'_1.mp hreserved).1
    · exact .inr hlast
  · obtain ⟨-, hcaller⟩ := MossPoint.offline.inj hpoint
    exact hstarved r state hcaller hstate

/-- The state of a stream after its slot has been released at its end. -/
def LocalStreamState.released (returned : Bool) (state : LocalStreamState C) :
    LocalStreamState C :=
  if returned then { state with slot := none } else { state with failed := true }

/-- The state of a stream after a step at its end. -/
def LocalStreamState.flushed (stepT : ℕ) (returned : Bool) (state : LocalStreamState C) :
    LocalStreamState C :=
  if returned then state.feed stepT
  else { state with pending := state.pending.drop stepT, failed := true }

theorem LocalStreamState.flushed_slot {returned : Bool} :
    (state.flushed stepT returned).slot = state.slot := by
  cases returned <;> rfl

theorem MossVocoder.Kept.offlineMove (h : s.Kept cfg codec) (hpoint : s.point = .offline o caller)
    (o' : OfflineDecode C) {slots : List ℕ} (hslots : ∀ slot ∈ slots, slot ∈ o.available)
    (hsession : ∃ states, session = { s.session with states := states } ∧
      ∀ slot, slot ∉ slots → states slot = s.session.states slot)
    (havailable : o'.available = o.available) (hborrowed : o'.borrowed = o.borrowed)
    (hwave : ∀ wave, o'.stage = .steps wave → ∀ item ∈ wave, item.slot ∈ o.available) :
    Kept cfg codec { s with session := session, point := .offline o' caller } := by
  obtain ⟨states, rfl, hstates⟩ := hsession
  refine h.frame rfl rfl ?_ (fun slot hslot => ?_) (fun _ _ hstate => .refl hstate)
    ⟨fun r state hstate hnone => ?_, h.tidy.listed, fun o'' caller' hoffline => ?_,
      fun o'' r state hoffline => ?_⟩
  · rw [hpoint]
    exact congrArg (· ++ s.session.quarantined) hborrowed
  · exact hstates slot fun hmem => h.not_available hpoint hslot (hslots slot hmem)
  · refine (h.tidy.unfed r state hstate hnone).imp_right fun hends => ?_
    rw [hpoint] at hends
    cases hends
    exact .fallback o'
  · obtain ⟨rfl, rfl⟩ := MossPoint.offline.inj hoffline
    refine ⟨fun slot hslot => ?_, fun wave hwave' item hitem => ?_⟩
    · rw [hborrowed]
      exact (h.tidy.within o caller hpoint).available slot (havailable ▸ hslot)
    · rw [havailable]
      exact hwave wave hwave' item hitem
  · obtain ⟨rfl, rfl⟩ := MossPoint.offline.inj hoffline
    exact h.tidy.starved o r state hpoint

/-- A section goes on to its next point. -/
theorem MossVocoder.Kept.goOn (h : s.Kept cfg codec) (hplain : s.point.Plain)
    (hplain' : point.Plain) :
    Kept cfg codec { s with point := point } :=
  h.moveTo (hplain'.borrowed.trans hplain.borrowed.symm)
    (fun r _ _ hr => absurd hr (hplain.not_ends r))
    (fun o caller hcontra => absurd hcontra (hplain'.not_offline o caller))
    fun o _ _ hcontra => absurd hcontra (hplain'.not_offline o _)

/-- A new session is made when there are no streams. -/
theorem MossVocoder.Kept.renew (h : s.Kept cfg codec) (hpoint : s.point = .idle)
    (horder : s.order = []) :
    Kept cfg codec { s with session := .init codec cfg.streamSlots } := by
  have hnone {r : R} {state : LocalStreamState C} (hstate : s.streams r = some state) : False := by
    have hlisted := h.tidy.listed r state hstate
    rw [horder] at hlisted
    cases hlisted
  refine ⟨?_, fun _ _ => rfl, fun r state slot hstate => (hnone hstate).elim,
    fun r r' state state' slot hstate => (hnone hstate).elim,
    fun r state slot hstate => (hnone hstate).elim,
    h.tidy.unfed, h.tidy.listed, h.tidy.within, h.tidy.starved⟩
  show (List.range cfg.streamSlots ++ [] ++ (s.point.borrowed ++ [])).Perm _
  rw [hpoint, append_nil]
  show (List.range cfg.streamSlots ++ ([] ++ [])).Perm _
  rw [append_nil, append_nil]

variable [DecidableEq R]

theorem MossVocoder.setState_cases (h : (s.setState requestId new).streams r = some state') :
    r = requestId ∧ state' = new ∨ r ≠ requestId ∧ s.streams r = some state' := by
  have hupdate : update s.streams requestId (some new) r = some state' := h
  rw [update_apply] at hupdate
  split at hupdate
  next hr =>
    exact .inl ⟨hr, (some.inj hupdate).symm⟩
  next hr =>
    exact .inr ⟨hr, hupdate⟩

theorem MossVocoder.Kept.setState (h : s.Kept cfg codec) (new : LocalStreamState C)
    (hstate : s.streams requestId = some state) (hslot : new.slot = state.slot)
    (hfed : new.fed = state.fed) (hfailed : new.failed = false → state.failed = false) :
    (s.setState requestId new).Kept cfg codec := by
  have hcases {r : R} {state' : LocalStreamState C}
      (hstate' : (s.setState requestId new).streams r = some state') :
      ∃ old, s.streams r = some old ∧ state'.slot = old.slot ∧ state'.fed = old.fed ∧
        (state'.failed = false → old.failed = false) := by
    rcases setState_cases hstate' with ⟨rfl, rfl⟩ | ⟨-, hsame⟩
    · exact ⟨state, hstate, hslot, hfed, hfailed⟩
    · exact ⟨state', hsame, rfl, rfl, id⟩
  refine h.frame rfl rfl rfl (fun _ _ => rfl) (fun r state' hstate' slot hk => ?_)
    ⟨fun r state' hstate' hnone => ?_, fun r state' hstate' => ?_, h.tidy.within,
      fun o r state' hpoint hstate' => ?_⟩
  · obtain ⟨old, hold, hslot', hrest⟩ := hcases hstate'
    exact ⟨old, hold, hslot' ▸ hk, hrest⟩
  · obtain ⟨old, hold, hslot', hfed', -⟩ := hcases hstate'
    rw [hfed']
    exact h.tidy.unfed r old hold (hslot' ▸ hnone)
  · obtain ⟨old, hold, -⟩ := hcases hstate'
    exact h.tidy.listed r old hold
  · obtain ⟨old, hold, hslot', -⟩ := hcases hstate'
    rw [hslot']
    exact h.tidy.starved o r old hpoint hold

theorem MossVocoder.getOrCreate_streams (s : MossVocoder R C σ) (requestId : R) :
    (s.getOrCreate requestId).1.streams requestId = some (s.getOrCreate requestId).2 := by
  unfold getOrCreate
  cases hstate : s.streams requestId with
  | some state => exact hstate
  | none => exact update_self requestId _ s.streams

theorem MossVocoder.getOrCreate_point (s : MossVocoder R C σ) (requestId : R) :
    (s.getOrCreate requestId).1.point = s.point := by
  unfold getOrCreate
  cases s.streams requestId <;> rfl

/-- A new stream has no slot. -/
theorem MossVocoder.Kept.getOrCreate (h : s.Kept cfg codec) (requestId : R) :
    (s.getOrCreate requestId).1.Kept cfg codec := by
  unfold MossVocoder.getOrCreate
  cases hstate : s.streams requestId with
  | some state => exact h
  | none =>
    have hcases {r : R} {state' : LocalStreamState C}
        (hstate' : (s.setState requestId newState).streams r = some state') :
        r = requestId ∧ state' = newState ∨ s.streams r = some state' :=
      (setState_cases hstate').imp_right And.right
    refine h.frame rfl rfl rfl (fun _ _ => rfl) (fun r state' hstate' => ?_)
      ⟨fun r state' hstate' hnone => ?_, fun r state' hstate' => ?_, h.tidy.within,
        fun o r state' hpoint hstate' => ?_⟩
    · rcases hcases hstate' with ⟨rfl, rfl⟩ | hold
      · exact nofun
      · exact .refl hold
    · rcases hcases hstate' with ⟨rfl, rfl⟩ | hold
      · exact .inl rfl
      · exact h.tidy.unfed r state' hold hnone
    · rcases hcases hstate' with ⟨rfl, rfl⟩ | hold
      · exact mem_append_right _ (mem_singleton.mpr rfl)
      · exact mem_append_left _ (h.tidy.listed r state' hold)
    · rcases hcases hstate' with ⟨rfl, rfl⟩ | hold
      · rfl
      · exact h.tidy.starved o r state' hpoint hold

theorem MossVocoder.Kept.ensureSlot (h : s.Kept cfg codec)
    (hstate : s.streams requestId = some state) (hslot : new.slot = state.slot)
    (hfed : new.fed = state.fed) (hfailed : new.failed = false → state.failed = false)
    (hends : ∀ r, ¬s.point.Ends r) (hoffline : ∀ o caller, s.point ≠ .offline o caller) :
    (s.ensureSlot requestId new).Kept cfg codec := by
  unfold MossVocoder.ensureSlot
  cases hnew : new.slot with
  | some slot => exact h.setState new hstate hslot hfed hfailed
  | none =>
    simp only [CodecSession.acquire]
    cases hlast : s.session.freeStreamSlots.getLast? with
    | none =>
      have hsame : { new with slot := none } = new := by rw [← hnew]
      rw [hsame]
      exact h.setState new hstate hslot hfed hfailed
    | some slot =>
      have hfree := (dropLast_append_getLast? slot hlast).symm
      have hnone : state.slot = none := hslot.symm.trans hnew
      have hunfed := (h.tidy.unfed requestId state hstate hnone).resolve_right (hends requestId)
      refine h.acquire requestId hfree rfl rfl rfl rfl (fun r state' hstate' => ?_)
        ⟨fun r state' hstate' hslot' => ?_, fun r state' hstate' => ?_, h.tidy.within,
          fun o r state' hpoint => absurd hpoint (hoffline o _)⟩
      · rcases setState_cases hstate' with ⟨rfl, rfl⟩ | ⟨-, hold⟩
        · exact .inr ⟨rfl, rfl, hfed.trans hunfed⟩
        · exact .inl (.refl hold)
      · rcases setState_cases hstate' with ⟨rfl, rfl⟩ | ⟨-, hold⟩
        · cases hslot'
        · exact h.tidy.unfed r state' hold hslot'
      · rcases setState_cases hstate' with ⟨rfl, rfl⟩ | ⟨-, hold⟩
        · exact h.tidy.listed r state hstate
        · exact h.tidy.listed r state' hold

theorem MossVocoder.Kept.payload (h : s.Kept cfg codec) (requestId : R) (initial : Option ℕ) :
    (s.payload cfg requestId initial).Kept cfg codec :=
  (h.getOrCreate requestId).setState _ (s.getOrCreate_streams requestId) rfl rfl id

theorem MossVocoder.Kept.ingest (h : s.Kept cfg codec) (requestId : R) (frame : C)
    (initial : Option ℕ) (hends : ∀ r, ¬s.point.Ends r)
    (hoffline : ∀ o caller, s.point ≠ .offline o caller) :
    (s.ingest cfg requestId frame initial).Kept cfg codec := by
  have hpoint := s.getOrCreate_point requestId
  refine (h.getOrCreate requestId).ensureSlot (s.getOrCreate_streams requestId) rfl rfl id ?_ ?_
  · rw [hpoint]
    exact hends
  · rw [hpoint]
    exact hoffline

/-- The stream of a request is dropped. -/
def MossVocoder.dropped (s : MossVocoder R C σ) (requestId : R) : MossVocoder R C σ :=
  { s with
    emitted := s.emitted.erase requestId
    order := s.order.erase requestId
    streams := update s.streams requestId none }

theorem MossVocoder.ingest_point (cfg : MossConfig) (s : MossVocoder R C σ) (requestId : R)
    (frame : C) (initial : Option ℕ) : (s.ingest cfg requestId frame initial).point = s.point := by
  refine Eq.trans ?_ (s.getOrCreate_point requestId)
  simp only [ingest, ensureSlot]
  split <;> rfl

theorem MossVocoder.clearStreamState_cases (codec : SlotCodec C σ) (s : MossVocoder R C σ)
    (requestId : R) (choice : CodecChoice σ) :
    (s.streams requestId = none ∧ s.clearStreamState codec requestId choice =
      ({ s with emitted := s.emitted.erase requestId }, true)) ∨
    ∃ state, s.streams requestId = some state ∧
      (state.slot = none ∧ s.clearStreamState codec requestId choice = (s.dropped requestId, true) ∨
      ∃ slot, state.slot = some slot ∧ s.clearStreamState codec requestId choice =
        ({ s.dropped requestId with session := (s.session.release codec slot choice).1 },
          (s.session.release codec slot choice).2)) := by
  cases hstate : s.streams requestId with
  | none => exact .inl ⟨rfl, by rw [clearStreamState, hstate]⟩
  | some state =>
    refine .inr ⟨state, rfl, ?_⟩
    cases hslot : state.slot with
    | none => exact .inl ⟨rfl, by simp only [clearStreamState, hstate, hslot]; rfl⟩
    | some slot =>
      exact .inr ⟨slot, rfl, by simp only [clearStreamState, hstate, hslot]; rfl⟩

theorem MossVocoder.clearStreamState_eq (codec : SlotCodec C σ) (s : MossVocoder R C σ)
    (requestId : R) (choice : CodecChoice σ) :
    (s.clearStreamState codec requestId choice).1.point = s.point ∧
      (s.clearStreamState codec requestId choice).1.streams = update s.streams requestId none := by
  rcases s.clearStreamState_cases codec requestId choice with
    ⟨hnone, heq⟩ | ⟨state, -, ⟨-, heq⟩ | ⟨slot, -, heq⟩⟩
  · rw [heq]
    exact ⟨rfl, (hnone ▸ update_eq_self requestId s.streams).symm⟩
  · rw [heq]
    exact ⟨rfl, rfl⟩
  · rw [heq]
    exact ⟨rfl, rfl⟩

theorem MossVocoder.dropped_streams (h : (s.dropped requestId).streams r = some state) :
    r ≠ requestId ∧ s.streams r = some state := by
  have hupdate : update s.streams requestId none r = some state := h
  rw [update_apply] at hupdate
  split at hupdate
  · cases hupdate
  next hr =>
    exact ⟨hr, hupdate⟩

theorem MossVocoder.Tidy.dropped (h : s.Tidy cfg) (requestId : R) :
    (s.dropped requestId).Tidy cfg where
  unfed r state hstate := h.unfed r state (dropped_streams hstate).2
  listed r state hstate := by
    obtain ⟨hr, hold⟩ := dropped_streams hstate
    exact (mem_erase_of_ne hr).mpr (h.listed r state hold)
  within := h.within
  starved o r state hpoint hstate :=
    h.starved o r state hpoint (dropped_streams hstate).2

theorem MossVocoder.Kept.clearStreamState (h : s.Kept cfg codec) (requestId : R)
    (choice : CodecChoice σ) : (s.clearStreamState codec requestId choice).1.Kept cfg codec := by
  have hdropped := h.tidy.dropped requestId
  have hstreams {r : R} {state' : LocalStreamState C}
      (hstate' : (s.dropped requestId).streams r = some state') :=
    dropped_streams hstate'
  rcases s.clearStreamState_cases codec requestId choice with
    ⟨-, heq⟩ | ⟨state, hstate, ⟨-, heq⟩ | ⟨slot, hslot, heq⟩⟩
  · rw [heq]
    exact h.frame rfl rfl rfl (fun _ _ => rfl) (fun _ _ hstate' => .refl hstate')
      ⟨h.tidy.unfed, h.tidy.listed, h.tidy.within, h.tidy.starved⟩
  · rw [heq]
    exact h.frame rfl rfl rfl (fun _ _ => rfl) (fun _ _ hstate' => .refl (hstreams hstate').2)
      hdropped
  · rw [heq]
    exact h.release hstate hslot choice rfl rfl
      (fun _ _ hstate' => .inl ⟨(hstreams hstate').1, .refl (hstreams hstate').2⟩)
      { hdropped with }

theorem MossVocoder.Kept.slotCodes_eq (h : s.Kept cfg codec)
    (hlive : ∀ item ∈ participants, s.streams item.1 = some item.2) (stepT : ℕ)
    (hstate : s.streams r = some state) (hslot : state.slot = some slot) :
    slotCodes participants stepT slot =
      if r ∈ participants.map Prod.fst then some (state.pending.take stepT) else none := by
  have hfound (item : R × LocalStreamState C) (hitem : item ∈ participants)
      (hitemSlot : item.2.slot = some slot) : item = (r, state) := by
    have hlive' := hlive item hitem
    obtain rfl := h.single item.1 r item.2 state slot hlive' hstate hitemSlot hslot
    exact Prod.ext rfl (some.inj (hlive'.symm.trans hstate))
  unfold slotCodes
  cases hfind : participants.reverse.find? fun item => item.2.slot = some slot with
  | none =>
    rw [if_neg fun hmem => ?_, map_none]
    obtain ⟨item, hitem, rfl⟩ := mem_map.mp hmem
    have hnot := find?_eq_none.mp hfind item (mem_reverse.mpr hitem)
    have hitemState := some.inj ((hlive item hitem).symm.trans hstate)
    rw [hitemState] at hnot
    exact hnot (decide_eq_true hslot)
  | some item =>
    have hitem := mem_reverse.mp (mem_of_find?_eq_some hfind)
    have hitemSlot := find?_some hfind
    simp only [decide_eq_true_eq] at hitemSlot
    obtain rfl := hfound item hitem hitemSlot
    rw [if_pos (mem_map_of_mem hitem), map_some]

theorem MossVocoder.mem_selectStepParticipants {item : R × LocalStreamState C}
    (h : item ∈ s.selectStepParticipants cfg) :
    item ∈ s.items ∧ item.2.slot ≠ none ∧ 0 < item.2.threshold := by
  unfold selectStepParticipants at h
  split at h
  · cases h
  · have hslotted := mem_filter.mp (mem_filter.mp h).1
    have hholds := of_decide_eq_true hslotted.2
    exact ⟨hslotted.1, isSome_iff_ne_none.mp hholds.1, hholds.2⟩

/-- What a turn of the pump does. -/
theorem MossVocoder.pump_cases (cfg : MossConfig) (codec : SlotCodec C σ) (s : MossVocoder R C σ)
    (choice : CodecChoice σ) (marked : Finset R) :
    (s.selectStepParticipants cfg = [] ∧ s.pump cfg codec choice marked =
      { s with point := .idle }) ∨
    s.selectStepParticipants cfg ≠ [] ∧
      ∀ participants, participants = s.selectStepParticipants cfg →
      ∀ stepped, stepped = s.session.step codec (slotCodes participants (s.stepT cfg participants))
        choice →
      (s.pump cfg codec choice marked).session = stepped.1 ∧
      (s.pump cfg codec choice marked).order = s.order ∧
      (∀ r, (s.pump cfg codec choice marked).streams r = (s.streams r).map fun state =>
        if r ∈ participants.map Prod.fst then
          state.pumped cfg (s.stepT cfg participants) stepped.2
        else state) ∧
      (s.pump cfg codec choice marked).point =
        if stepped.2 then .pumping else .stepFailed (participants.map Prod.fst) := by
  unfold pump
  cases hparticipants : s.selectStepParticipants cfg with
  | nil => exact .inl ⟨rfl, rfl⟩
  | cons first rest =>
    refine .inr ⟨cons_ne_nil first rest, ?_⟩
    rintro participants rfl stepped rfl
    cases choice <;> exact ⟨rfl, rfl, fun _ => rfl, rfl⟩

theorem MossVocoder.Kept.pump (h : s.Kept cfg codec) (choice : CodecChoice σ) (marked : Finset R)
    (hborrowed : s.point.borrowed = []) (hends : ∀ r, ¬s.point.Ends r) :
    (s.pump cfg codec choice marked).Kept cfg codec := by
  rcases s.pump_cases cfg codec choice marked with ⟨-, heq⟩ | ⟨-, hpump⟩
  · rw [heq]
    exact h.moveTo hborrowed.symm (fun r _ _ hr => absurd hr (hends r)) nofun nofun
  · obtain ⟨hsession, horder, hstreams, hpoint⟩ := hpump _ rfl _ rfl
    have hlive (item : R × LocalStreamState C) (hitem : item ∈ s.selectStepParticipants cfg) :
        s.streams item.1 = some item.2 :=
      (mem_items.mp (mem_selectStepParticipants hitem).1).2
    have hslotted {r : R} {state : LocalStreamState C} (hstate : s.streams r = some state)
        (hr : r ∈ (s.selectStepParticipants cfg).map Prod.fst) : state.slot ≠ none := by
      obtain ⟨item, hitem, rfl⟩ := mem_map.mp hr
      obtain rfl := some.inj (hstate.symm.trans (hlive item hitem))
      exact (mem_selectStepParticipants hitem).2.1
    have hnotOffline (o : OfflineDecode C) (caller : OfflineCaller R) :
        (s.pump cfg codec choice marked).point ≠ .offline o caller := by
      rw [hpoint]
      split <;> exact nofun
    have hpointBorrowed : (s.pump cfg codec choice marked).point.borrowed = s.point.borrowed := by
      rw [hpoint, hborrowed]
      split <;> rfl
    refine h.feed _ choice (fun slot codes hcodes => ?_) hsession hpointBorrowed
      (fun r state' slot hstate' hslot' => ?_)
      ⟨fun r state' hstate' hnone => ?_, fun r state' hstate' => ?_,
        fun o caller hoffline => absurd hoffline (hnotOffline o caller),
        fun o r state' hoffline => absurd hoffline (hnotOffline o _)⟩
    · obtain ⟨item, hitem, hslot⟩ := slotCodes_some hcodes
      exact ⟨item.1, item.2, hlive item hitem, hslot⟩
    · rw [hstreams] at hstate'
      obtain ⟨state, hstate, rfl⟩ := map_eq_some_iff.mp hstate'
      by_cases hr : r ∈ (s.selectStepParticipants cfg).map Prod.fst
      · rw [if_pos hr] at hslot' ⊢
        cases choice with
        | returns =>
          refine ⟨state, hstate, hslot', fun hfailed => ⟨hfailed, ?_, .inl rfl⟩⟩
          rw [h.slotCodes_eq hlive _ hstate hslot', if_pos hr, toList_some]
          rfl
        | raises states => exact ⟨state, hstate, hslot', nofun⟩
      · rw [if_neg hr] at hslot' ⊢
        have hnone := h.slotCodes_eq hlive (s.stepT cfg (s.selectStepParticipants cfg)) hstate
          hslot'
        rw [if_neg hr] at hnone
        refine ⟨state, hstate, hslot', fun hfailed => ⟨hfailed, ?_, .inr hnone⟩⟩
        rw [hnone, toList_none, append_nil]
    · rw [hstreams] at hstate'
      obtain ⟨state, hstate, rfl⟩ := map_eq_some_iff.mp hstate'
      by_cases hr : r ∈ (s.selectStepParticipants cfg).map Prod.fst
      · rw [if_pos hr] at hnone
        rw [LocalStreamState.pumped_slot] at hnone
        exact absurd hnone (hslotted hstate hr)
      · rw [if_neg hr] at hnone ⊢
        exact .inl ((h.tidy.unfed r state hstate hnone).resolve_right (hends r))
    · rw [hstreams] at hstate'
      obtain ⟨state, hstate, -⟩ := map_eq_some_iff.mp hstate'
      rw [horder]
      exact h.tidy.listed r state hstate

/-- What `decode_delta` does up to its next look at the session. -/
theorem MossVocoder.flush_cases (cfg : MossConfig) (codec : SlotCodec C σ) (s : MossVocoder R C σ)
    (requestId : R) (state : LocalStreamState C) (choice : CodecChoice σ) :
    (state.slot = none ∧ state.pending = [] ∧
      s.flush cfg codec requestId state choice = { s with point := .closing requestId }) ∨
    (state.slot = none ∧ state.pending ≠ [] ∧ s.flush cfg codec requestId state choice =
      (s.setState requestId { state with pending := [] }).beginOffline cfg [state.pending]
        (.decodeDelta requestId)) ∨
    ∃ slot, state.slot = some slot ∧
      ((state.pending = [] ∧ ∀ released, released = s.session.release codec slot choice →
        s.flush cfg codec requestId state choice =
          { s.setState requestId (state.released released.2) with
            session := released.1, point := .closing requestId }) ∨
      state.pending ≠ [] ∧ ∀ stepT, stepT = min state.pending.length cfg.maxStepFrames →
        ∀ stepped, stepped = s.session.step codec
          (fun k => if k = slot then some (state.pending.take stepT) else none) choice →
        s.flush cfg codec requestId state choice =
          { s.setState requestId (state.flushed stepT stepped.2) with
            session := stepped.1
            point := if stepped.2 then s.point else .closing requestId }) := by
  unfold flush
  rcases state with ⟨_ | slot, pending, threshold, arrived, fed, failed⟩
  · by_cases hpending : pending = []
    · exact .inl ⟨rfl, hpending, if_pos hpending⟩
    · exact .inr (.inl ⟨rfl, hpending, if_neg hpending⟩)
  · refine .inr (.inr ⟨slot, rfl, ?_⟩)
    by_cases hpending : pending = []
    · refine .inl ⟨hpending, ?_⟩
      rintro released rfl
      simp only [if_pos hpending]
      rcases s.session.release codec slot choice with ⟨session, _ | _⟩ <;> rfl
    · refine .inr ⟨hpending, ?_⟩
      rintro stepT rfl stepped rfl
      simp only [if_neg hpending]
      cases choice <;> rfl

/-- At its end a stream gives its slot back, and until then it passes its frames to the codec. -/
theorem MossVocoder.Kept.flush (h : s.Kept cfg codec) (hpoint : s.point = .flushing requestId)
    (hstate : s.streams requestId = some state) (choice : CodecChoice σ) :
    (s.flush cfg codec requestId state choice).Kept cfg codec := by
  have hborrowed : s.point.borrowed = [] := by
    rw [hpoint]
    rfl
  have hends (r : R) : ¬s.point.Ends r := by
    rw [hpoint]
    exact nofun
  have htidy {new : LocalStreamState C} {session : CodecSession σ} {point : MossPoint R C}
      (hnew : new.slot = none → point.Ends requestId)
      (hnot : ∀ o caller, point ≠ .offline o caller) :
      Tidy cfg { s.setState requestId new with session := session, point := point } := by
    refine ⟨fun r state' hstate' hnone => ?_, fun r state' hstate' => ?_,
      fun o caller hoffline => absurd hoffline (hnot o caller),
      fun o r state' hoffline => absurd hoffline (hnot o _)⟩
    · rcases setState_cases hstate' with ⟨rfl, rfl⟩ | ⟨-, hold⟩
      · exact .inr (hnew hnone)
      · exact .inl ((h.tidy.unfed r state' hold hnone).resolve_right (hends r))
    · rcases setState_cases hstate' with ⟨rfl, -⟩ | ⟨-, hold⟩
      · exact h.tidy.listed r state hstate
      · exact h.tidy.listed r state' hold
  rcases s.flush_cases cfg codec requestId state choice with
    ⟨-, -, heq⟩ | ⟨hnone, -, heq⟩ | ⟨slot, hslot, ⟨-, heq⟩ | ⟨-, heq⟩⟩
  · rw [heq]
    exact h.moveTo hborrowed.symm (fun r _ _ hr => absurd hr (hends r)) nofun nofun
  · rw [heq]
    have hset := h.setState { state with pending := [] } hstate rfl rfl id
    refine hset.beginOffline _ _ hborrowed (fun r hr => absurd hr (hends r))
      fun r state' hcaller hstate' => ?_
    obtain rfl := OfflineCaller.decodeDelta.inj hcaller
    rcases setState_cases hstate' with ⟨-, rfl⟩ | ⟨hr, -⟩
    · exact hnone
    · exact absurd rfl hr
  · rw [heq _ rfl]
    refine h.release hstate hslot choice rfl hborrowed.symm (fun r state' hstate' => ?_)
      (htidy (fun _ => .closing) nofun)
    rcases setState_cases hstate' with ⟨rfl, rfl⟩ | ⟨hr, hold⟩
    · refine .inr ⟨rfl, ?_⟩
      cases hreleased : (s.session.release codec slot choice).2 with
      | true => exact .inl rfl
      | false => exact .inr ⟨rfl, hslot, rfl⟩
    · exact .inl ⟨hr, .refl hold⟩
  · rw [heq _ rfl _ rfl]
    refine h.feed (fun k => if k = slot then
        some (state.pending.take (min state.pending.length cfg.maxStepFrames)) else none)
      choice (fun k codes hcodes => ?_) rfl ?_
      (fun r state' k hstate' hk => ?_) (htidy (fun hnone => ?_) fun o caller hcontra => ?_)
    · obtain ⟨rfl, -⟩ := ite_none_right_eq_some.mp hcodes
      exact ⟨requestId, state, hstate, hslot⟩
    · rw [hborrowed]
      cases choice
      · exact hborrowed
      · rfl
    · rcases setState_cases hstate' with ⟨rfl, rfl⟩ | ⟨hr, hold⟩
      · rw [LocalStreamState.flushed_slot, hslot] at hk
        cases hk
        refine ⟨state, hstate, hslot, fun hfailed => ?_⟩
        cases choice with
        | returns =>
          refine ⟨hfailed, ?_, .inl rfl⟩
          rw [if_pos rfl, toList_some]
          rfl
        | raises states => cases hfailed
      · have hne : k ≠ slot := by
          rintro rfl
          exact hr (h.single r requestId state' state k hold hstate hk hslot)
        refine ⟨state', hold, hk, fun hfailed => ⟨hfailed, ?_, .inr (if_neg hne)⟩⟩
        rw [if_neg hne, toList_none, append_nil]
    · rw [LocalStreamState.flushed_slot, hslot] at hnone
      cases hnone
    · rw [hpoint] at hcontra
      cases choice <;> cases hcontra

/-- What the end of `decode_offline` leaves. -/
theorem MossVocoder.Kept.endOffline (h : s.Kept cfg codec) (hpoint : s.point = .offline o caller)
    (session : CodecSession σ) (results : List (List (List C))) (succeeded : Bool) :
    let t := endOffline { s with session := session } results succeeded caller
    t.session = session ∧ t.point.borrowed = [] ∧ t.Tidy cfg ∧
      ∀ r state', t.streams r = some state' → StreamKept s r state' := by
  have hends {r : R} (hr : s.point.Ends r) : caller = .fallback r := by
    rw [hpoint] at hr
    cases hr
    rfl
  cases caller with
  | vocodeBatch =>
    refine ⟨rfl, rfl, ⟨fun r state hstate hnone => ?_, h.tidy.listed,
      nofun, nofun⟩,
      fun r state' hstate' => .refl hstate'⟩
    exact (h.tidy.unfed r state hstate hnone).imp_right fun hr => by cases hends hr
  | fallback requestId =>
    refine ⟨rfl, rfl, ⟨fun r state hstate hnone => ?_, h.tidy.listed,
      nofun, nofun⟩,
      fun r state' hstate' => .refl hstate'⟩
    refine (h.tidy.unfed r state hstate hnone).imp_right fun hr => ?_
    obtain rfl := OfflineCaller.fallback.inj (hends hr)
    exact .closing
  | decodeDelta requestId =>
    have hcases {r : R} {state' : LocalStreamState C}
        (hstate' : (endOffline { s with session := session } results succeeded
          (.decodeDelta requestId)).streams r = some state') :
        (r = requestId ∧ state'.slot = none ∧ ∃ state, s.streams r = some state) ∨
          s.streams r = some state' := by
      have hupdate : update s.streams requestId ((s.streams requestId).map fun state =>
          if succeeded then { state with fed := state.fed ++ results.flatten }
          else { state with failed := true }) r = some state' := hstate'
      rw [update_apply] at hupdate
      split at hupdate
      next hr =>
        obtain ⟨state, hstate, rfl⟩ := map_eq_some_iff.mp hupdate
        have hnone := h.tidy.starved o requestId state hpoint hstate
        refine .inl ⟨hr, ?_, state, hr ▸ hstate⟩
        split <;> exact hnone
      · exact .inr hupdate
    refine ⟨rfl, rfl, ⟨fun r state' hstate' hnone => ?_, fun r state' hstate' => ?_,
      nofun, nofun⟩,
      fun r state' hstate' => ?_⟩
    · rcases hcases hstate' with ⟨rfl, -⟩ | hold
      · exact .inr .closing
      · exact (h.tidy.unfed r state' hold hnone).imp_right fun hr => by cases hends hr
    · rcases hcases hstate' with ⟨-, -, state, hstate⟩ | hold
      · exact h.tidy.listed r state hstate
      · exact h.tidy.listed r state' hold
    · rcases hcases hstate' with ⟨-, hnone, -⟩ | hold
      · intro slot hslot
        rw [hnone] at hslot
        cases hslot
      · exact .refl hold

theorem offlinePlan_some {wave : List (OfflineItem C)}
    (h : offlinePlan wave stepT slot = some codes) :
    slot ∈ wave.map OfflineItem.slot := by
  obtain ⟨item, hfind, -⟩ := map_eq_some_iff.mp h
  have hslot := find?_some hfind
  simp only [decide_eq_true_eq] at hslot
  rw [← hslot.1]
  exact mem_map_of_mem (mem_reverse.mp (mem_of_find?_eq_some hfind))

theorem OfflineItem.advance_slot (item : OfflineItem C) (stepT : ℕ) :
    (item.advance stepT).slot = item.slot := by
  unfold OfflineItem.advance
  split <;> rfl

theorem MossVocoder.Kept.offlineStep (h : s.Kept cfg codec) (hpoint : s.point = .offline o caller)
    (choice : CodecChoice σ) :
    (s.offlineStep cfg codec o caller choice).Kept cfg codec := by
  have hwithin := h.tidy.within o caller hpoint
  have hstay (o' : OfflineDecode C) (havailable : o'.available = o.available)
      (hborrowed : o'.borrowed = o.borrowed) (hstage : ∀ wave, o'.stage ≠ .steps wave) :
      Kept cfg codec { s with point := .offline o' caller } :=
    h.offlineMove hpoint o' (fun slot (hslot : slot ∈ []) => absurd hslot not_mem_nil)
      ⟨s.session.states, rfl, fun _ _ => rfl⟩ havailable hborrowed
      fun wave hwave => absurd hwave (hstage wave)
  unfold MossVocoder.offlineStep
  cases hstage : o.stage with
  | reset =>
    by_cases htodo : o.todo = []
    · simp only [if_pos htodo]
      exact hstay _ rfl rfl nofun
    · simp only [if_neg htodo]
      have hslots (slot : ℕ) (hslot : slot ∈ o.available.take (o.todo.take o.waveSize).length) :
          slot ∈ o.available :=
        mem_of_mem_take hslot
      cases choice with
      | returns =>
        refine h.offlineMove hpoint _ hslots ⟨_, rfl, fun slot hslot => if_neg hslot⟩ rfl rfl
          fun wave hwave item hitem => ?_
        obtain rfl := OfflineStage.steps.inj hwave
        obtain ⟨i, hi, rfl⟩ := mem_iff_getElem.mp hitem
        rw [getElem_zipWith]
        exact hslots _ (getElem_mem _)
      | raises states =>
        exact h.offlineMove hpoint _ hslots ⟨_, rfl, fun slot hslot => if_neg hslot⟩ rfl rfl nofun
  | steps wave =>
    have hslots (slot : ℕ) (hslot : slot ∈ wave.map OfflineItem.slot) : slot ∈ o.available := by
      obtain ⟨item, hitem, rfl⟩ := mem_map.mp hslot
      exact hwithin.wave wave hstage item hitem
    simp only
    split
    · split
      · exact hstay _ rfl rfl nofun
      · exact hstay _ rfl rfl nofun
    · have hnone (slot : ℕ) (hslot : slot ∉ wave.map OfflineItem.slot) :
          offlinePlan wave (offlineStepT cfg wave) slot = none :=
        eq_none_iff_forall_ne_some.mpr fun codes hcodes => hslot (offlinePlan_some hcodes)
      cases choice with
      | returns =>
        refine h.offlineMove hpoint _ hslots ⟨_, rfl, fun slot hslot => ?_⟩ rfl rfl
          fun wave' hwave' item hitem => ?_
        · rw [hnone slot hslot]
          rfl
        · obtain rfl := OfflineStage.steps.inj hwave'
          obtain ⟨old, hold, rfl⟩ := mem_map.mp hitem
          rw [OfflineItem.advance_slot]
          exact hwithin.wave wave hstage old hold
      | raises states =>
        refine h.offlineMove hpoint _ hslots ⟨_, rfl, fun slot hslot => ?_⟩ rfl rfl nofun
        rw [hnone slot hslot]
        rfl
  | finish succeeded =>
    simp only
    split
    · obtain ⟨hsession, hborrowed, htidy, hstreams⟩ :=
        h.endOffline hpoint s.session o.results succeeded
      refine h.frame (congrArg _ hsession) (congrArg _ hsession) ?_ (fun slot _ => ?_) hstreams
        htidy
      next hnone =>
        rw [hpoint]
        exact congrArg₂ (· ++ ·) (hborrowed.trans hnone.symm) (congrArg _ hsession)
      · exact congrFun (congrArg CodecSession.states hsession) slot
    · have hpointBorrowed : s.point.borrowed = o.borrowed := by
        rw [hpoint]
        rfl
      cases choice with
      | returns =>
        obtain ⟨hsession, hborrowed, htidy, hstreams⟩ :=
          h.endOffline hpoint { s.session.setStates o.borrowed fun _ => codec.fresh with
            freeStreamSlots := s.session.freeStreamSlots ++ o.borrowed } o.results succeeded
        refine h.giveBack _ (.inl ⟨rfl, rfl, rfl⟩) ?_ hborrowed hstreams htidy
        rw [hpointBorrowed]
        refine hsession.trans ?_
        rw [append_nil]
        rfl
      | raises states =>
        obtain ⟨hsession, hborrowed, htidy, hstreams⟩ :=
          h.endOffline hpoint { s.session.setStates o.borrowed states with
            quarantined := s.session.quarantined ++ o.borrowed } o.results false
        refine h.giveBack states (.inr ⟨rfl, rfl⟩) ?_ hborrowed hstreams htidy
        rw [hpointBorrowed]
        refine hsession.trans ?_
        rw [append_nil]
        rfl

/-- Every step keeps the invariant. -/
theorem MossVocoder.Kept.step (h : s.Kept cfg codec) {a : MossVocoderAction R C σ}
    (hstep : s.step cfg codec a = some t) : t.Kept cfg codec := by
  cases stepped hstep with
  | payload requestId initial => exact h.payload requestId initial
  | ingest requestId frame initial hpoint =>
    have hplain := MossPoint.plain_of_or hpoint trivial trivial
    refine (h.ingest requestId frame initial hplain.not_ends hplain.not_offline).goOn ?_ trivial
    rw [s.ingest_point]
    exact hplain
  | ingestFails requestId choice hpoint =>
    refine (h.clearStreamState requestId choice).goOn ?_ (by split <;> trivial)
    rw [(s.clearStreamState_eq codec requestId choice).1]
    exact MossPoint.plain_of_or hpoint trivial trivial
  | pump choice marked hpoint =>
    have hplain := MossPoint.plain_of_or hpoint trivial trivial
    exact h.pump choice marked hplain.borrowed hplain.not_ends
  | failed choice hpoint => exact h.goOn (hpoint ▸ trivial) trivial
  | failNext choice requestId rest hpoint =>
    refine (h.clearStreamState requestId choice).goOn ?_ (by split <;> trivial)
    rw [(s.clearStreamState_eq codec requestId choice).1, hpoint]
    trivial
  | done requestId hpoint =>
    refine (h.getOrCreate requestId).goOn ?_ trivial
    rw [s.getOrCreate_point, hpoint]
    trivial
  | flush choice requestId state hpoint hstate => exact h.flush hpoint hstate choice
  | vocodeBatch codes _ hpoint =>
    have hplain : s.point.Plain := hpoint ▸ trivial
    exact h.beginOffline codes .vocodeBatch hplain.borrowed
      (fun r hr => absurd hr (hplain.not_ends r)) nofun
  | fallback codes requestId _ hpoint =>
    refine h.beginOffline codes (.fallback requestId) ?_ (fun r hr => ?_) nofun
    · rw [hpoint]
      rfl
    · rw [hpoint] at hr
      cases hr
      rfl
  | offline choice o caller hpoint => exact h.offlineStep hpoint choice
  | close choice requestId hpoint =>
    obtain ⟨hsame, hstreams⟩ := s.clearStreamState_eq codec requestId choice
    refine (h.clearStreamState requestId choice).moveTo ?_ (fun r state hstate hr => ?_) nofun nofun
    · rw [hsame, hpoint]
      rfl
    · rw [hsame, hpoint] at hr
      cases hr
      rw [hstreams, update_self] at hstate
      cases hstate
  | abort requestId choice => exact h.clearStreamState requestId choice
  | renew hpoint horder => exact h.renew hpoint horder

end Omni.Tts
