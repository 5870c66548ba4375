import Mathlib.Data.List.Basic
import Mathlib.Tactic.Common
import Omni.Media.Connector

/-!
# The policy for remote media

Every request of a download goes to a host that the allowlist admits, there are at most six, and
a body that is returned is within its limit. That no connection is opened to an unsafe address
holds exactly when the resolver does not answer the connection with an unsafe address that it had
kept from the check.
-/

namespace Omni.Media

open Text

variable {c : Connector} {w : World} {url : String} {maxBytes : Option ℕ}

/-- A host is the domain of an entry, or one of its subdomains if the entry begins with a dot. -/
def Matches (host entry : String) : Prop :=
  host = entry ∨ ∃ domain, entry = "." ++ domain ∧
    (host = domain ∨ ∃ sub, host = sub ++ "." ++ domain)

/-- The host of a URL, in lower case and without dots at its end. -/
def World.host (w : World) (url : String) : Option String :=
  match w.hostname url with
  | .ok (some hostname) => some (w.lower (rstrip (· == '.') hostname))
  | _ => none

/-- The allowlist admits the host of a URL. -/
def Connector.Admits (c : Connector) (w : World) (url : String) : Prop :=
  ∃ host, w.host url = some host ∧
    (c.allowedMediaDomains = [] ∧ c.allowRemoteMediaWithoutDomains ∨
      ∃ entry ∈ c.allowedMediaDomains, Matches host (w.lower (rstrip (· == '.') entry)))

/-- What the policy promises of a download. -/
structure Kept (c : Connector) (w : World) (maxBytes : Option ℕ)
    (download : List Request × Except String (Bytes × Option String)) : Prop where
  requests : download.1.length ≤ maxHttpRedirects + 1
  hosts : ∀ r ∈ download.1, c.Admits w r.url
  addresses : c.rejectUnsafeRemoteAddresses → ∀ r ∈ download.1, ∀ a ∈ r.connections,
    unsafeRemoteAddressCategory a = none
  size : ∀ body mediaType limit, download.2 = .ok (body, mediaType) → maxBytes = some limit →
    body.length ≤ limit

/-- The URL of a round, as the redirects of the servers give it. -/
def World.chain (w : World) (url : String) : ℕ → Option String
  | 0 => some url
  | i + 1 =>
    match w.chain url i, (w.hop i).exchange with
    | some current, .ok response =>
      if response.isRedirect then (nextRedirectUrl w current response).toOption else none
    | _, _ => none

/-- The URL of a round passes the policy check, and `httpx` does not refuse it. -/
def Connector.Passes (c : Connector) (w : World) (i : ℕ) (url : String) : Prop :=
  c.assertUrlAllowed w (w.hop i) url = .ok () ∧ w.refuses url = none

/-- The addresses that are checked for a URL. -/
def World.checked (w : World) (i : ℕ) (url : String) : List Address :=
  match w.host url with
  | some host =>
    match resolveRemoteAddresses w (w.hop i) host with
    | .ok addresses => addresses
    | .error _ => []
  | none => []

/-- In each of the six rounds to which the redirects lead, if unsafe addresses are rejected, a
connection is opened only to addresses that were checked, or that are not unsafe. -/
def Steady (c : Connector) (w : World) (url : String) : Prop :=
  c.rejectUnsafeRemoteAddresses → ∀ i ≤ maxHttpRedirects, ∀ current, w.chain url i = some current →
    (∀ j ≤ i, ∀ earlier, w.chain url j = some earlier → c.Passes w j earlier) →
    ∀ a ∈ (w.hop i).connections, a ∈ w.checked i current ∨ unsafeRemoteAddressCategory a = none

theorem isAllowedRemoteDomain_iff {host entry : String}
    (h : isAllowedRemoteDomain w host entry = true) :
    Matches host (w.lower (rstrip (· == '.') entry)) := by
  unfold isAllowedRemoteDomain at h
  dsimp only at h
  split at h
  next hdot =>
    obtain ⟨domain, hdomain⟩ := startsWith_iff.mp hdot
    have hdrop : String.ofList ((w.lower (rstrip (· == '.') entry)).toList.drop 1) = domain := by
      rw [hdomain, String.toList_append]
      exact String.ofList_toList
    refine Or.inr ⟨domain, hdomain, ?_⟩
    rw [hdrop] at h
    rcases Bool.or_eq_true_iff.mp h with heq | hends
    · exact Or.inl (beq_iff_eq.mp heq)
    · obtain ⟨sub, hsub⟩ := endsWith_iff.mp hends
      refine Or.inr ⟨sub, ?_⟩
      rw [hsub, hdomain, String.append_assoc]
  next => exact Or.inl (beq_iff_eq.mp h)

theorem category_of_checkAddresses :
    ∀ {addresses : List Address}, checkAddresses addresses = .ok () →
      ∀ a ∈ addresses, unsafeRemoteAddressCategory a = none
  | [], _, a, ha => nomatch ha
  | b :: addresses, h, a, ha => by
    rw [checkAddresses] at h
    split at h
    · cases h
    next hb =>
      rcases List.mem_cons.mp ha with rfl | hrest
      · exact hb
      · exact category_of_checkAddresses h a hrest

/-- A URL that passes the check has an admitted host, and its checked addresses are not
unsafe. -/
theorem admits_of_allowed {i : ℕ} {current : String}
    (h : c.assertUrlAllowed w (w.hop i) current = .ok ()) :
    c.Admits w current ∧ (c.rejectUnsafeRemoteAddresses → ∀ a ∈ w.checked i current,
      unsafeRemoteAddressCategory a = none) := by
  unfold Connector.assertUrlAllowed at h
  split at h
  · cases h
  · cases h
  next hostname hhost =>
    have hhost' : w.host current = some (w.lower (rstrip (· == '.') hostname)) := by
      rw [World.host, hhost]
    dsimp only at h
    split at h
    · cases h
    split at h
    · cases h
    next hconfigured =>
      split at h
      · cases h
      next hdomain =>
        refine ⟨⟨_, hhost', ?_⟩, fun hreject => ?_⟩
        · by_cases hempty : c.allowedMediaDomains = []
          · exact Or.inl ⟨hempty, by simpa [hempty] using hconfigured⟩
          · have hany : (c.allowedMediaDomains.any fun domain =>
                isAllowedRemoteDomain w (w.lower (rstrip (· == '.') hostname)) domain) = true := by
              cases hall : c.allowedMediaDomains.any fun domain =>
                  isAllowedRemoteDomain w (w.lower (rstrip (· == '.') hostname)) domain with
              | true => rfl
              | false => exact absurd ⟨hempty, by rw [hall]; rfl⟩ hdomain
            obtain ⟨entry, hentry, hallowed⟩ := List.any_eq_true.mp hany
            exact Or.inr ⟨entry, hentry, isAllowedRemoteDomain_iff hallowed⟩
        · rw [if_pos hreject] at h
          intro a ha
          simp only [World.checked, hhost'] at ha
          cases hresolved : resolveRemoteAddresses w (w.hop i)
              (w.lower (rstrip (· == '.') hostname)) with
          | error e => simp [hresolved] at ha
          | ok addresses =>
            simp only [hresolved] at h ha
            exact category_of_checkAddresses h a ha

theorem length_le_of_readChunks {bodyError : Option HttpError} {limit : ℕ} {result : Bytes} :
    ∀ {chunks : List Bytes} {body : Bytes}, body.length ≤ limit →
      readChunks url (some limit) bodyError body chunks = .ok result → result.length ≤ limit
  | [], body, hbody, h => by
    unfold readChunks at h
    split at h
    · cases h
    · cases h
      exact hbody
  | chunk :: chunks, body, hbody, h => by
    rw [readChunks] at h
    split at h
    · exact length_le_of_readChunks hbody h
    · split at h
      · cases h
      next hsize =>
        refine length_le_of_readChunks ?_ h
        have hle : ((body ++ chunk).length : ℤ) ≤ limit := by simpa [exceeds] using hsize
        exact Int.ofNat_le.mp hle

/-- So is the body of a response. -/
theorem length_le_of_readLimited {r : Response} {limit : ℕ} {result : Bytes}
    (h : readLimitedResponseBytes url (some limit) r = .ok result) : result.length ≤ limit := by
  unfold readLimitedResponseBytes at h
  split at h
  · cases h
  · exact length_le_of_readChunks (Nat.zero_le _) h

/-- What one round of the download does. -/
theorem loadLoop_succ (c : Connector) (w : World) (url : String) (maxBytes : Option ℕ) (n i : ℕ)
    (current : String) :
    ((c.loadLoop w url maxBytes (n + 1) i current).1 = [] ∧
      ¬c.Passes w i current ∧
      ∃ e, (c.loadLoop w url maxBytes (n + 1) i current).2 = .error e) ∨
    c.Passes w i current ∧
      ((∃ response next, (w.hop i).exchange = .ok response ∧ response.isRedirect ∧
          nextRedirectUrl w current response = .ok next ∧
          c.loadLoop w url maxBytes (n + 1) i current =
            (⟨current, (w.hop i).connections⟩ :: (c.loadLoop w url maxBytes n (i + 1) next).1,
              (c.loadLoop w url maxBytes n (i + 1) next).2)) ∨
        (∀ response next, (w.hop i).exchange = .ok response → response.isRedirect →
          nextRedirectUrl w current response ≠ .ok next) ∧
        (c.loadLoop w url maxBytes (n + 1) i current).1 = [⟨current, (w.hop i).connections⟩] ∧
        ∀ body mediaType limit, (c.loadLoop w url maxBytes (n + 1) i current).2 =
          .ok (body, mediaType) → maxBytes = some limit → body.length ≤ limit) := by
  rw [Connector.loadLoop]
  cases hallowed : c.assertUrlAllowed w (w.hop i) current with
  | error e => exact Or.inl ⟨rfl, fun h => by simp [Connector.Passes, hallowed] at h, e, rfl⟩
  | ok _ =>
    cases hrefuses : w.refuses current with
    | some e => exact Or.inl ⟨rfl, fun h => by simp [Connector.Passes, hrefuses] at h, _, rfl⟩
    | none =>
      refine Or.inr ⟨⟨hallowed, hrefuses⟩, ?_⟩
      cases hexchange : (w.hop i).exchange with
      | error e =>
        exact Or.inr ⟨fun response next h => by simp at h, rfl, fun _ _ _ h => by simp at h⟩
      | ok response =>
        dsimp only
        cases hredirect : response.isRedirect with
        | true =>
          rw [if_pos rfl]
          cases hnext : nextRedirectUrl w current response with
          | error e =>
            refine Or.inr ⟨fun r next hr _ h => ?_, rfl, fun _ _ _ h => by simp at h⟩
            cases hr
            rw [hnext] at h
            cases h
          | ok next => exact Or.inl ⟨response, next, rfl, hredirect, hnext, rfl⟩
        | false =>
          rw [if_neg Bool.false_ne_true]
          refine Or.inr ⟨fun r next hr hred => ?_, ?_, fun body mediaType limit h hlimit => ?_⟩
          · cases hr
            rw [hredirect] at hred
            cases hred
          · split <;> rfl
          · split at h
            · cases h
            · rw [hlimit] at h
              cases hread : readLimitedResponseBytes current (some limit) response with
              | error e => simp [hread, Except.map] at h
              | ok result =>
                simp only [hread, Except.map, Except.ok.injEq, Prod.mk.injEq] at h
                rw [← h.1]
                exact length_le_of_readLimited hread

/-- A download sends at most as many requests as it has rounds, each to an admitted host, and
returns a body within the limit. -/
theorem loadLoop_kept (c : Connector) (w : World) (url : String) (maxBytes : Option ℕ) :
    ∀ (n i : ℕ) (current : String),
    (c.loadLoop w url maxBytes n i current).1.length ≤ n ∧
      (∀ r ∈ (c.loadLoop w url maxBytes n i current).1, c.Admits w r.url) ∧
      ∀ body mediaType limit, (c.loadLoop w url maxBytes n i current).2 = .ok (body, mediaType) →
        maxBytes = some limit → body.length ≤ limit
  | 0, i, current => by
    unfold Connector.loadLoop
    exact ⟨Nat.le_refl _, fun r hr => absurd hr List.not_mem_nil, fun _ _ _ h => nomatch h⟩
  | n + 1, i, current => by
    rcases loadLoop_succ c w url maxBytes n i current with
      ⟨hnone, -, e, herror⟩ | ⟨hpasses, ⟨response, next, -, -, -, heq⟩ | ⟨-, hone, hsize⟩⟩
    · rw [hnone, herror]
      exact ⟨Nat.zero_le _, fun r hr => absurd hr List.not_mem_nil, fun _ _ _ h => nomatch h⟩
    · obtain ⟨hlength, hhosts, hsize⟩ := loadLoop_kept c w url maxBytes n (i + 1) next
      rw [heq]
      refine ⟨Nat.succ_le_succ hlength, fun r hr => ?_, hsize⟩
      rcases List.mem_cons.mp hr with rfl | hrest
      · exact (admits_of_allowed hpasses.1).1
      · exact hhosts r hrest
    · rw [hone]
      refine ⟨Nat.succ_le_succ (Nat.zero_le _), fun r hr => ?_, hsize⟩
      rw [List.mem_singleton.mp hr]
      exact (admits_of_allowed hpasses.1).1

theorem chain_succ {i : ℕ} {next : String} :
    w.chain url (i + 1) = some next ↔ ∃ current response, w.chain url i = some current ∧
      (w.hop i).exchange = .ok response ∧ response.isRedirect = true ∧
      nextRedirectUrl w current response = .ok next := by
  rw [World.chain]
  constructor
  · intro h
    split at h
    next current response hcurrent hresponse =>
      split at h
      next hredirect =>
        refine ⟨current, response, hcurrent, hresponse, hredirect, ?_⟩
        cases hnext : nextRedirectUrl w current response with
        | error e => simp [hnext, Except.toOption] at h
        | ok url' =>
          simp only [hnext, Except.toOption, Option.some.injEq] at h
          rw [h]
      next => cases h
    next => cases h
  · rintro ⟨current, response, hcurrent, hresponse, hredirect, hnext⟩
    simp [hcurrent, hresponse, hredirect, hnext, Except.toOption]

theorem loadLoop_addresses (hsteady : Steady c w url) (hreject : c.rejectUnsafeRemoteAddresses) :
    ∀ (n i : ℕ) (current : String), i + n ≤ maxHttpRedirects + 1 →
      w.chain url i = some current →
      (∀ j < i, ∀ earlier, w.chain url j = some earlier → c.Passes w j earlier) →
      ∀ r ∈ (c.loadLoop w url maxBytes n i current).1, ∀ a ∈ r.connections,
        unsafeRemoteAddressCategory a = none
  | 0, i, current, _, _, _ => by
    unfold Connector.loadLoop
    exact fun r hr => absurd hr List.not_mem_nil
  | n + 1, i, current, hrounds, hchain, hearlier => by
    have hthis (hpasses : c.Passes w i current) :
        (∀ j ≤ i, ∀ earlier, w.chain url j = some earlier → c.Passes w j earlier) ∧
          ∀ a ∈ (w.hop i).connections, unsafeRemoteAddressCategory a = none := by
      have hpassed : ∀ j ≤ i, ∀ earlier, w.chain url j = some earlier → c.Passes w j earlier := by
        intro j hj earlier hu
        rcases Nat.lt_or_eq_of_le hj with hlt | rfl
        · exact hearlier j hlt earlier hu
        · rw [hchain, Option.some.injEq] at hu
          exact hu ▸ hpasses
      refine ⟨hpassed, fun a ha => ?_⟩
      have hi : i ≤ maxHttpRedirects := by omega
      rcases hsteady hreject i hi current hchain hpassed a ha with hchecked | hsafe
      · exact (admits_of_allowed hpasses.1).2 hreject a hchecked
      · exact hsafe
    rcases loadLoop_succ c w url maxBytes n i current with
      ⟨hnone, -, -⟩ | ⟨hpasses, ⟨response, next, hexchange, hredirect, hnext, heq⟩ | ⟨-, hone, -⟩⟩
    · rw [hnone]
      exact fun r hr => absurd hr List.not_mem_nil
    · obtain ⟨hpassed, hsafe⟩ := hthis hpasses
      have hlater := loadLoop_addresses hsteady hreject n (i + 1) next (by omega)
        (chain_succ.mpr ⟨current, response, hchain, hexchange, hredirect, hnext⟩)
        (fun j hj => hpassed j (Nat.lt_succ_iff.mp hj))
      intro r hr
      rw [heq] at hr
      rcases List.mem_cons.mp hr with rfl | hrest
      · exact hsafe
      · exact hlater r hrest
    · intro r hr
      rw [hone] at hr
      rw [List.mem_singleton.mp hr]
      exact (hthis hpasses).2

/-- A round that the redirects lead to, and that passes like all before it, sends its request. -/
theorem mem_loadLoop (maxBytes : Option ℕ) : ∀ (m n i : ℕ) (current last : String), m < n →
    w.chain url i = some current → w.chain url (i + m) = some last →
    (∀ j ≤ i + m, ∀ earlier, w.chain url j = some earlier → c.Passes w j earlier) →
    ⟨last, (w.hop (i + m)).connections⟩ ∈ (c.loadLoop w url maxBytes n i current).1
  | m, 0, i, current, last, hm, _, _, _ => absurd hm (Nat.not_lt_zero m)
  | m, n + 1, i, current, last, hm, hchain, hlast, hpassed => by
    have hpasses := hpassed i (Nat.le_add_right i m) current hchain
    rcases loadLoop_succ c w url maxBytes n i current with
      ⟨-, hnot, -⟩ | ⟨-, ⟨response, next, hexchange, hredirect, hnext, heq⟩ | ⟨hstop, hone, -⟩⟩
    · exact absurd hpasses hnot
    · rw [heq]
      cases m with
      | zero =>
        rw [Nat.add_zero, hchain, Option.some.injEq] at hlast
        rw [Nat.add_zero, ← hlast]
        exact List.mem_cons_self ..
      | succ m =>
        have hshift : i + (m + 1) = i + 1 + m := by omega
        rw [hshift] at hlast hpassed ⊢
        refine List.mem_cons_of_mem _ (mem_loadLoop maxBytes m n (i + 1) next last (by omega) ?_
          hlast hpassed)
        exact chain_succ.mpr ⟨current, response, hchain, hexchange, hredirect, hnext⟩
    · cases m with
      | zero =>
        rw [Nat.add_zero, hchain, Option.some.injEq] at hlast
        rw [hone, Nat.add_zero, ← hlast]
        exact List.mem_singleton_self _
      | succ m =>
        -- the chain would have to go on
        exfalso
        have hgoes : ∀ k, w.chain url (i + 1 + k) ≠ none → w.chain url (i + 1) ≠ none := by
          intro k
          induction k with
          | zero => exact id
          | succ k ih =>
            intro h
            obtain ⟨later, hlater⟩ := Option.ne_none_iff_exists'.mp h
            obtain ⟨before, -, hbefore, -⟩ := chain_succ.mp hlater
            have hbefore' : w.chain url (i + 1 + k) = some before := hbefore
            exact ih (by rw [hbefore']; exact Option.some_ne_none _)
        have hshift : i + (m + 1) = i + 1 + m := by omega
        rw [hshift] at hlast
        obtain ⟨next, hnext⟩ := Option.ne_none_iff_exists'.mp (hgoes m (by simp [hlast]))
        obtain ⟨u, response, hu, hexchange, hredirect, hurl⟩ := chain_succ.mp hnext
        rw [hchain] at hu
        cases hu
        exact hstop response next hexchange hredirect hurl

/-- **Remote media policy.** A download sends at most six requests, each to an admitted host, and
returns a body within the limit; it opens no connection to an unsafe address exactly when the
resolver does not keep an unsafe address from the check and answer the connection with it. -/
theorem kept_iff_steady :
    Kept c w maxBytes (c.loadHttpBytes w url maxBytes) ↔ Steady c w url := by
  constructor
  · intro hkept hreject i hi current hchain hpassed a ha
    have hmem := mem_loadLoop maxBytes i (maxHttpRedirects + 1) 0 url current
      (Nat.lt_succ_of_le hi) rfl (by rw [Nat.zero_add]; exact hchain)
      (by rw [Nat.zero_add]; exact hpassed)
    rw [Nat.zero_add] at hmem
    exact Or.inr (hkept.addresses hreject _ hmem a ha)
  · intro hsteady
    obtain ⟨hlength, hhosts, hsize⟩ := loadLoop_kept c w url maxBytes (maxHttpRedirects + 1) 0 url
    refine ⟨hlength, hhosts, fun hreject => ?_, hsize⟩
    exact loadLoop_addresses hsteady hreject _ 0 url (Nat.le_refl _) rfl
      fun j hj => absurd hj (Nat.not_lt_zero j)

/-- A connector that admits every host and rejects unsafe addresses. -/
def rejecting : Connector := ⟨[], true, true⟩

/-- A public address. -/
def publicAddress : Address := ⟨"93.184.216.34", false, false, false, false, false, false⟩

/-- The loopback address. -/
def loopbackAddress : Address := ⟨"127.0.0.1", true, true, false, false, false, false⟩

/-- A resolver that answers the check with a public address and the connection with loopback. -/
def rebinding : World where
  lower := id
  hostname _ := .ok (some "media.example")
  refuses _ := none
  join _ location := .ok location
  ipAddress _ := none
  hop _ :=
    { resolved := some [publicAddress], connections := [loopbackAddress]
      exchange := .ok ⟨200, none, none, none, [[1, 2, 3]], none⟩ }

/-- The check passes on the public address, and the request goes to the loopback address. -/
theorem rebinding_not_kept :
    ¬Kept rejecting rebinding none
      (rejecting.loadHttpBytes rebinding "http://media.example/a.wav" none) := by
  intro hkept
  have hmem : (⟨"http://media.example/a.wav", [loopbackAddress]⟩ : Request) ∈
      (rejecting.loadHttpBytes rebinding "http://media.example/a.wav" none).1 := by
    decide +kernel
  have hsafe := hkept.addresses rfl _ hmem loopbackAddress (List.mem_singleton_self _)
  exact absurd hsafe (by decide)

end Omni.Media
