import Omni.Asr.SingleFlight

/-!
# Each call gets its own embedding

The parts into which the rows of a batch are split are the embeddings of its items, as long as
the rows of each item fit. An item keeps its feature until it has been attached, so what has not
been attached can be encoded alone.
-/

namespace Omni.Asr

open Transition Function List

variable {A K R : Type} {v : Service A K R} {s t : State K R} {counts batch touched : List ℕ}
  {c entry : ℕ} {embedding : List R} {k : K} {shutdown fails : Bool} {attempt : Attempt}
  {point : CallPoint R} {outcome : Store} {a : Action K}

/-- Rows are split into the lists that they have been concatenated of. -/
theorem splitLengths_flatMap {α β : Type} (f : α → List β) :
    ∀ l : List α, (l.map fun a => (f a).length).splitLengths (l.flatMap f) = l.map f
  | [] => rfl
  | a :: l => by
    rw [map_cons, flatMap_cons, splitLengths_cons, take_left, drop_left,
      splitLengths_flatMap f l, map_cons]

theorem mapM_of_forall {α β : Type} {f : α → Option β} {g : α → β} :
    ∀ {l : List α}, (∀ a ∈ l, f a = some (g a)) → l.mapM f = some (l.map g)
  | [], _ => mapM_nil
  | a :: l, h => by
    rw [mapM_cons, h a (mem_cons_self ..), mapM_of_forall fun b hb => h b (mem_cons_of_mem a hb)]
    rfl

/-- The embedding that belongs to a call. -/
def Service.own (v : Service A K R) (c : ℕ) : List R := v.embed (v.item c).audio

/-- The rows of a call fit. -/
def Service.rowsFit (v : Service A K R) (c : ℕ) : Prop :=
  (v.item c).numAudioTokens = some (v.own c).length

theorem parts_eq (hfit : ∀ c ∈ batch, v.rowsFit c) (hcounts : v.tokenCounts batch = some counts) :
    batch.zip (counts.splitLengths (batch.flatMap fun c => v.embed (v.item c).audio)) =
      batch.map fun c => (c, v.own c) := by
  have hmap : v.tokenCounts batch = some (batch.map fun c => (v.own c).length) :=
    mapM_of_forall hfit
  rw [hcounts, Option.some.injEq] at hmap
  have hsplit := splitLengths_flatMap v.own batch
  rw [hmap, show (batch.flatMap fun c => v.embed (v.item c).audio) = batch.flatMap v.own from rfl,
    hsplit, map_prod_left_eq_zip]

theorem rowsFit_of_single {l : List R} (hcounts : v.tokenCounts [c] = some counts)
    (hrows : l = [c].flatMap fun c => v.embed (v.item c).audio) (hsum : l.length = counts.sum) :
    v.rowsFit c := by
  rw [Service.tokenCounts, mapM_cons, mapM_nil] at hcounts
  obtain ⟨n, hn, hrest⟩ := Option.bind_eq_some_iff.mp hcounts
  cases hrest
  rw [Service.rowsFit, hn]
  rw [hrows] at hsum
  simpa [Service.own] using hsum.symm

theorem attachAll_other {c : ℕ} :
    ∀ {parts : List (ℕ × List R)} (s : State K R), c ∉ parts.map Prod.fst →
      (s.attachAll parts).attached c = s.attached c ∧ (s.attachAll parts).feature c = s.feature c
  | [], s, _ => ⟨rfl, rfl⟩
  | part :: parts, s, hc => by
    rw [map_cons, mem_cons, not_or] at hc
    obtain ⟨hattached, hfeature⟩ := attachAll_other (s.attach part.1 part.2) hc.2
    exact ⟨hattached.trans (update_of_ne hc.1 _ _), hfeature.trans (update_of_ne hc.1 _ _)⟩

/-- Each item gets its part. -/
theorem attachAll_self {c : ℕ} {embedding : List R} :
    ∀ {parts : List (ℕ × List R)} (s : State K R), (parts.map Prod.fst).Nodup →
      (c, embedding) ∈ parts → (s.attachAll parts).attached c = some embedding
  | part :: parts, s, hnodup, hmem => by
    rw [map_cons, nodup_cons] at hnodup
    rcases mem_cons.mp hmem with heq | hrest
    · subst heq
      exact (attachAll_other _ hnodup.1).1.trans (update_self ..)
    · exact attachAll_self (s.attach part.1 part.2) hnodup.2 hrest

/-- A call holds its own embedding. -/
def Service.Good (v : Service A K R) (s : State K R) (c : ℕ) (embedding : List R) : Prop :=
  s.attached c = some embedding ∧ embedding = v.own c ∧
    (v.item c).numAudioTokens = some embedding.length

/-- The calls of the worker whose items have not been attached. -/
def WorkerPoint.untouched : WorkerPoint R → List ℕ
  | .draining batch => batch
  | .encoding batch .whole _ => batch
  | .encoding batch (.alone rest) _ => batch ++ rest
  | .storing _ _ (.alone rest) _ => rest
  | .retrying todo _ => todo
  | _ => []

/-- The calls whose items will still be encoded. -/
def State.untouched (s : State K R) : List ℕ := s.worker.untouched ++ s.queue.reduceOption

/-- The parts that the worker has in hand. -/
def WorkerPoint.parts : WorkerPoint R → List (ℕ × List R)
  | .storing _ parts _ _ => parts
  | .delivering todo _ => todo
  | _ => []

/-- The parts that have still to be put into the cache. -/
def WorkerPoint.todo : WorkerPoint R → List (ℕ × List R)
  | .storing todo _ _ _ => todo
  | _ => []

/-- The calls hold their own embeddings, or still have their features. -/
structure Right (v : Service A K R) (s : State K R) : Prop where
  spare : ∀ c, ((s.call c).isFree ∨ c ∈ s.untouched) → s.feature c = true
  futures : ∀ c embedding, s.futures c = some (some embedding) → v.Good s c embedding
  cached : ∀ k entry embedding c, s.cache k = some (entry, embedding) →
    (v.item c).key = some k → embedding = v.own c
  parts : ∀ part ∈ s.worker.parts, v.Good s part.1 part.2
  todo : ∀ part ∈ s.worker.todo, part ∈ s.worker.parts
  attaching : ∀ c embedding, s.call c = .attaching embedding →
    embedding = v.own c ∧ (v.item c).numAudioTokens = some embedding.length
  releasing : ∀ c embedding, s.call c = .releasing (some embedding) → v.Good s c embedding
  returned : ∀ c, s.call c = .returned → ∃ embedding, v.Good s c embedding

theorem right_init : Right v (State.init K R) where
  spare c _ := rfl
  futures c embedding h := by simp [State.init] at h
  cached k entry embedding c h := by simp [State.init] at h
  parts part h := by simp [State.init, WorkerPoint.parts] at h
  todo part h := by simp [State.init, WorkerPoint.todo] at h
  attaching c embedding h := by simp [State.init] at h
  releasing c embedding h := by simp [State.init] at h
  returned c h := by simp [State.init] at h

/-- What the worker has not attached is pending, and so are the parts in its hand. -/
theorem untouched_subset (s : State K R) : ∀ c ∈ s.untouched, c ∈ s.pending := by
  intro c hc
  rcases mem_append.mp hc with hworker | hqueue
  · refine mem_append_left _ ?_
    cases hw : s.worker with
    | encoding batch attempt shutdown =>
      rw [hw] at hworker
      cases attempt <;> exact hworker
    | storing todo parts attempt shutdown =>
      rw [hw] at hworker
      cases attempt with
      | whole => cases hworker
      | alone rest => exact mem_append_right _ hworker
    | draining batch =>
      rw [hw] at hworker
      exact hworker
    | retrying todo shutdown =>
      rw [hw] at hworker
      exact hworker
    | waiting =>
      rw [hw] at hworker
      cases hworker
    | delivering todo shutdown =>
      rw [hw] at hworker
      cases hworker
    | stopped =>
      rw [hw] at hworker
      cases hworker
  · exact mem_append_right _ hqueue

theorem parts_subset (s : State K R) : ∀ part ∈ s.worker.parts, part.1 ∈ s.pending := by
  intro part hpart
  refine mem_append_left _ ?_
  cases hw : s.worker with
  | storing todo parts attempt shutdown =>
    rw [hw] at hpart
    cases attempt with
    | whole => exact mem_map_of_mem hpart
    | alone rest => exact mem_append_left _ (mem_map_of_mem hpart)
  | delivering todo shutdown =>
    rw [hw] at hpart
    exact mem_map_of_mem hpart
  | waiting => rw [hw] at hpart; cases hpart
  | draining batch => rw [hw] at hpart; cases hpart
  | encoding batch attempt shutdown => rw [hw] at hpart; cases hpart
  | retrying todo shutdown => rw [hw] at hpart; cases hpart
  | stopped => rw [hw] at hpart; cases hpart

/-- A call goes on to a point for which it has what it needs. -/
theorem Right.goto (h : Right v s) (hfree : point.isFree → s.feature c = true)
    (hattaching : ∀ embedding, point = .attaching embedding →
      embedding = v.own c ∧ (v.item c).numAudioTokens = some embedding.length)
    (hreleasing : ∀ embedding, point = .releasing (some embedding) → v.Good s c embedding)
    (hreturned : point = .returned → ∃ embedding, v.Good s c embedding) :
    Right v (s.goto c point) := by
  have hother {d : ℕ} (hd : d ≠ c) : (s.goto c point).call d = s.call d :=
    update_of_ne hd _ _
  have hself : (s.goto c point).call c = point := update_self ..
  exact
    { h with
      spare := fun d hd => by
        rcases hd with hd | hd
        · by_cases hne : d = c
          · subst hne
            exact hfree (hself ▸ hd)
          · exact h.spare d (Or.inl (hother hne ▸ hd))
        · exact h.spare d (Or.inr hd)
      attaching := fun d embedding hd => by
        by_cases hne : d = c
        · subst hne
          exact hattaching embedding (hself ▸ hd)
        · exact h.attaching d embedding (hother hne ▸ hd)
      releasing := fun d embedding hd => by
        by_cases hne : d = c
        · subst hne
          exact hreleasing embedding (hself ▸ hd)
        · exact h.releasing d embedding (hother hne ▸ hd)
      returned := fun d hd => by
        by_cases hne : d = c
        · subst hne
          exact hreturned (hself ▸ hd)
        · exact h.returned d (hother hne ▸ hd) }

/-- It may always raise. -/
theorem Right.raise (h : Right v s) : Right v (s.goto c .raised) :=
  h.goto (fun hnot => nomatch hnot) (fun _ hnot => nomatch hnot) (fun _ hnot => nomatch hnot)
    fun hnot => nomatch hnot

/-- It may always wait. -/
theorem Right.wait (h : Right v s) (c leader : ℕ) : Right v (s.goto c (.waiting leader)) :=
  h.goto (fun hnot => nomatch hnot) (fun _ hnot => nomatch hnot) (fun _ hnot => nomatch hnot)
    fun hnot => nomatch hnot

theorem Right.goto_returned (h : Right v s) (hgood : v.Good s c embedding) :
    Right v (s.goto c .returned) :=
  h.goto (fun hnot => nomatch hnot) (fun _ hnot => nomatch hnot) (fun _ hnot => nomatch hnot)
    fun _ => ⟨embedding, hgood⟩

/-- A call without a future goes on without one. -/
theorem Right.go (h : Right v s) (hcall : (s.call c).isFree) (hpoint : point.isEarly) :
    Right v (s.goto c point) := by
  refine h.goto (fun _ => h.spare c (Or.inl hcall)) (fun embedding heq => ?_)
    (fun embedding heq => ?_) fun heq => ?_
  all_goals
    subst heq
    cases hpoint

theorem Right.attaching_cached (h : Right v s) (hcache : s.cache k = some (entry, embedding))
    (hkey : (v.item c).key = some k) (hvalid : v.isValid c embedding) :
    Right v (s.goto c (.attaching embedding)) := by
  refine h.goto (fun hnot => nomatch hnot) (fun embedding' heq => ?_) (fun _ hnot => nomatch hnot)
    fun hnot => nomatch hnot
  cases heq
  exact ⟨h.cached k entry embedding c hcache hkey, of_decide_eq_true hvalid⟩

theorem Right.of_cache (h : Right v s) {cache : K → Option (ℕ × List R)} {entries : ℕ}
    (hcache : ∀ k entry embedding c, cache k = some (entry, embedding) →
      (v.item c).key = some k → embedding = v.own c) :
    Right v { s with cache := cache, entries := entries } :=
  { h with
    cached := hcache }

/-- A call that has no part in the worker's doings attaches its own embedding, and returns. -/
theorem Right.attach (h : Right v s) (hout : c ∉ s.pending) (hunset : s.futures c = none)
    (hown : embedding = v.own c) (hrows : (v.item c).numAudioTokens = some embedding.length) :
    Right v ((s.attach c embedding).goto c .returned) := by
  have hself : v.Good (s.attach c embedding) c embedding :=
    ⟨update_self .., hown, hrows⟩
  have hother {d : ℕ} {embedding' : List R} (hd : d ≠ c) (hgood : v.Good s d embedding') :
      v.Good (s.attach c embedding) d embedding' :=
    ⟨(update_of_ne hd _ _).trans hgood.1, hgood.2⟩
  have hpoint {d : ℕ} (hd : d ≠ c) :
      ((s.attach c embedding).goto c .returned).call d = s.call d := update_of_ne hd _ _
  have hmine : ((s.attach c embedding).goto c .returned).call c = .returned :=
    update_self ..
  exact
    { spare := fun d hd => by
        have hne : d ≠ c := by
          rintro rfl
          rcases hd with hfree | hmem
          · rw [hmine] at hfree
            cases hfree
          · exact hout (untouched_subset s d hmem)
        rw [hpoint hne] at hd
        exact (update_of_ne hne _ _).trans (h.spare d hd)
      futures := fun d embedding' hd => by
        have hne : d ≠ c := by
          rintro rfl
          rw [show ((s.attach d embedding).goto d .returned).futures d = none from hunset] at hd
          cases hd
        exact hother hne (h.futures d embedding' hd)
      cached := h.cached
      parts := fun part hpart => by
        have hne : part.1 ≠ c := fun heq => hout (heq ▸ parts_subset s part hpart)
        exact hother hne (h.parts part hpart)
      todo := h.todo
      attaching := fun d embedding' hd => by
        by_cases hne : d = c
        · subst hne
          rw [hmine] at hd
          cases hd
        · exact h.attaching d embedding' (hpoint hne ▸ hd)
      releasing := fun d embedding' hd => by
        by_cases hne : d = c
        · subst hne
          rw [hmine] at hd
          cases hd
        · exact hother hne (h.releasing d embedding' (hpoint hne ▸ hd))
      returned := fun d hd => by
        by_cases hne : d = c
        · subst hne
          exact ⟨embedding, hself⟩
        · obtain ⟨embedding', hgood⟩ := h.returned d (hpoint hne ▸ hd)
          exact ⟨embedding', hother hne hgood⟩ }

/-- A call that does not lead has no future of its own. -/
theorem Orderly.unset (h : Orderly v s) (hwaiting : s.call c ≠ .waiting c)
    (hreleasing : ∀ result, s.call c ≠ .releasing result) (hended : (s.call c).hasEnded = false) :
    s.futures c = none := by
  by_contra hset
  rcases h.settled c (Option.isSome_iff_ne_none.mpr hset) with hnot | ⟨result, hnot⟩ | hnot
  · exact hwaiting hnot
  · exact hreleasing result hnot
  · rw [hended] at hnot
    cases hnot

theorem Right.enqueue (h : Right v s) (hcall : (s.call c).isFree) {inflight : K → Option ℕ} :
    Right v { s.goto c (.waiting c) with queue := s.queue ++ [some c], inflight := inflight } := by
  have hwait := h.wait c c
  refine
    { hwait with
      spare := fun d hd => ?_ }
  rcases hd with hfree | hmem
  · exact hwait.spare d (Or.inl hfree)
  · have hmem' : d ∈ s.worker.untouched ++ (s.queue ++ [some c]).reduceOption := hmem
    rw [reduceOption_append, ← append_assoc] at hmem'
    rcases mem_append.mp hmem' with hold | hnew
    · exact h.spare d (Or.inr hold)
    · have heq : d = c := by simpa using hnew
      exact heq ▸ h.spare c (Or.inl hcall)

theorem Right.start (h : Right v s) (hcall : s.call c = .idle) :
    Right v (v.start s c) := by
  have hfree : (s.call c).isFree := by rw [hcall]; rfl
  unfold Service.start
  split
  · exact h.raise
  · unfold State.enqueue
    split
    · exact h.raise
    · exact h.enqueue hfree
  · exact h.go hfree rfl

theorem Right.lookup [DecidableEq K] (h : Right v s) (hcall : s.call c = .looking)
    (hkey : (v.item c).key = some k) : Right v (v.lookup s c k) := by
  have hfree : (s.call c).isFree := by rw [hcall]; rfl
  unfold Service.lookup
  split
  · exact h.go hfree rfl
  next entry embedding hcache =>
    split
    next hvalid => exact h.attaching_cached hcache hkey hvalid
    next => exact h.go hfree rfl

theorem Right.removeIfSame [DecidableEq K] (h : Right v s) :
    Right v (s.removeIfSame k entry) := by
  unfold State.removeIfSame
  split
  · split
    · refine h.of_cache fun k' entry' embedding' c hcache hkey => ?_
      by_cases hk : k' = k
      · subst hk
        rw [update_self] at hcache
        cases hcache
      · rw [update_of_ne hk] at hcache
        exact h.cached k' entry' embedding' c hcache hkey
    · exact h
  · exact h

theorem Right.join [DecidableEq K] (h : Right v s) (hcall : s.call c = .joining)
    (hkey : (v.item c).key = some k) :
    Right v (v.join s c k fails) := by
  have hfree : (s.call c).isFree := by rw [hcall]; rfl
  unfold Service.join
  split
  next leader _ => exact h.wait c leader
  · split
    · exact h.raise
    · split
      next entry embedding hcache =>
        obtain ⟨hentry, hvalid⟩ := Option.filter_eq_some_iff.mp hcache
        exact h.attaching_cached hentry hkey hvalid
      next =>
        split
        · exact h.raise
        next hopen =>
          have heq : ({ s.enqueue c with inflight := update s.inflight k (some c) } :
              State K R) = { s.goto c (.waiting c) with
                queue := s.queue ++ [some c]
                inflight := update s.inflight k (some c) } := by
            rw [State.enqueue, if_neg hopen]
          rw [heq]
          exact h.enqueue hfree

/-- A follower gets the embedding of its leader, which has the same audio. -/
theorem Right.wake (h : Right v s) (ho : Orderly v s) (hkeys : v.KeysIdentify) {leader : ℕ}
    {result : Option (List R)} (hcall : s.call c = .waiting leader)
    (hset : s.futures leader = some result) : Right v (v.wake s c leader result fails) := by
  unfold Service.wake
  split
  next heq =>
    subst heq
    split
    · refine h.goto (fun hnot => nomatch hnot) (fun _ hnot => nomatch hnot)
        (fun embedding heq => ?_) fun hnot => nomatch hnot
      cases heq
      exact h.futures leader embedding hset
    · cases result with
      | none => exact h.raise
      | some embedding =>
        exact h.goto_returned (h.futures leader embedding hset)
  next hne =>
    cases result with
    | none => exact h.raise
    | some embedding =>
      dsimp only
      split
      next hvalid =>
        obtain ⟨k, hkey, hkey'⟩ := ho.same c leader hcall hne
        have hwaiting : s.call c ≠ .waiting c := by
          rw [hcall]
          rintro ⟨⟩
          exact hne rfl
        have hunset : s.futures c = none := by
          refine ho.unset hwaiting (fun result' => ?_) (by rw [hcall]; rfl)
          rw [hcall]
          rintro ⟨⟩
        have hown : embedding = v.own c := by
          rw [(h.futures leader embedding hset).2.1, Service.own, Service.own,
            hkeys leader c k hkey' hkey]
        exact h.attach (ho.not_pending_of_call hwaiting) hunset hown
          (of_decide_eq_true (Bool.and_eq_true_iff.mp hvalid).1)
      next => exact h.raise

theorem Right.of_worker (h : Right v s) (ho : Orderly v s) (hpending : ∀ c ∈ touched, c ∈ s.pending)
    (hcall : t.call = s.call)
    (hsame : ∀ c, c ∉ touched → t.attached c = s.attached c ∧ t.feature c = s.feature c)
    (huntouched : ∀ c ∈ t.untouched, c ∈ s.untouched ∧ c ∉ touched)
    (hfutures : ∀ c embedding, t.futures c = some (some embedding) →
      s.futures c = some (some embedding) ∨ v.Good t c embedding)
    (hcached : ∀ k entry embedding c, t.cache k = some (entry, embedding) →
      (v.item c).key = some k → embedding = v.own c)
    (hparts : ∀ part ∈ t.worker.parts, v.Good t part.1 part.2)
    (htodo : ∀ part ∈ t.worker.todo, part ∈ t.worker.parts) : Right v t := by
  have hgood {c : ℕ} {embedding : List R} (hout : c ∉ s.pending) (hg : v.Good s c embedding) :
      v.Good t c embedding :=
    ⟨(hsame c fun hc => hout (hpending c hc)).1.trans hg.1, hg.2⟩
  exact
    { spare := fun c hc => by
        rcases hc with hfree | hmem
        · have hfree : (s.call c).isFree := hcall ▸ hfree
          have hout := (ho.of_free hfree).1
          rw [(hsame c fun hc => hout (hpending c hc)).2]
          exact h.spare c (Or.inl hfree)
        · obtain ⟨hold, hnot⟩ := huntouched c hmem
          rw [(hsame c hnot).2]
          exact h.spare c (Or.inr hold)
      futures := fun c embedding hc => by
        rcases hfutures c embedding hc with hold | hnew
        · exact hgood (ho.not_pending (by rw [hold]; rfl)) (h.futures c embedding hold)
        · exact hnew
      cached := hcached
      parts := hparts
      todo := htodo
      attaching := fun c embedding hc => h.attaching c embedding (hcall ▸ hc)
      releasing := fun c embedding hc => by
        have hc : s.call c = .releasing (some embedding) := hcall ▸ hc
        exact hgood (ho.not_pending (ho.released c _ hc)) (h.releasing c embedding hc)
      returned := fun c hc => by
        have hc : s.call c = .returned := hcall ▸ hc
        obtain ⟨embedding, hg⟩ := h.returned c hc
        refine ⟨embedding, hgood (ho.not_pending_of_call ?_) hg⟩
        rw [hc]
        rintro ⟨⟩ }

/-- The worker goes on without touching an item, setting a future or changing the cache. -/
theorem Right.work (h : Right v s) (ho : Orderly v s) {queue : List (Option ℕ)}
    {point : WorkerPoint R}
    (huntouched : ∀ c ∈ point.untouched ++ queue.reduceOption, c ∈ s.untouched)
    (hparts : ∀ part ∈ point.parts, part ∈ s.worker.parts)
    (htodo : ∀ part ∈ point.todo, part ∈ point.parts) :
    Right v { s with queue := queue, worker := point } :=
  h.of_worker ho (fun _ hc => absurd hc not_mem_nil) rfl (fun _ _ => ⟨rfl, rfl⟩)
    (fun c hc => ⟨huntouched c hc, not_mem_nil⟩) (fun _ _ hc => Or.inl hc) h.cached
    (fun part hpart => h.parts part (hparts part hpart)) htodo

/-- The calls of a batch that has failed, as far as they are tried again. -/
def Attempt.left (batch : List ℕ) : Attempt → List ℕ
  | .whole => if batch.length = 1 then [] else batch
  | .alone rest => rest

/-- What a failure changes. -/
theorem fail_eq (s : State K R) (batch : List ℕ) (shutdown : Bool) (attempt : Attempt) :
    ∃ futures worker,
      s.fail batch shutdown attempt = { s with futures := futures, worker := worker } ∧
      (∀ c embedding, futures c = some (some embedding) → s.futures c = some (some embedding)) ∧
      worker.untouched = attempt.left batch ∧ worker.parts = [] ∧ worker.todo = [] := by
  cases attempt with
  | whole =>
    simp only [State.fail]
    split
    next c =>
      refine ⟨_, _, rfl, fun d embedding hd => ?_, ?_, ?_, ?_⟩
      · change update s.futures c (some none) d = _ at hd
        by_cases hne : d = c
        · subst hne
          rw [update_self] at hd
          cases hd
        · rwa [update_of_ne hne] at hd
      · cases shutdown <;> rfl
      · cases shutdown <;> rfl
      · cases shutdown <;> rfl
    next hbatch =>
      refine ⟨_, _, rfl, fun _ _ hd => hd, ?_, rfl, rfl⟩
      rw [Attempt.left, if_neg fun hone => ?_]
      · rfl
      · obtain ⟨c, rfl⟩ := length_eq_one_iff.mp hone
        exact hbatch c rfl
  | alone rest =>
    simp only [State.fail, foldl_setFuture]
    refine ⟨_, _, rfl, fun d embedding hd => ?_, rfl, rfl, rfl⟩
    change (if d ∈ batch then some none else s.futures d) = _ at hd
    split at hd
    · cases hd
    · exact hd

theorem Right.fail (h : Right v s) (ho : Orderly v s) (hpending : ∀ c ∈ touched, c ∈ s.pending)
    (hcall : t.call = s.call) (hqueue : t.queue = s.queue) (hfutures : t.futures = s.futures)
    (hsame : ∀ c, c ∉ touched → t.attached c = s.attached c ∧ t.feature c = s.feature c)
    (hleft : ∀ c ∈ attempt.left batch ++ s.queue.reduceOption, c ∈ s.untouched ∧ c ∉ touched)
    (hcached : ∀ k entry embedding c, t.cache k = some (entry, embedding) →
      (v.item c).key = some k → embedding = v.own c) :
    Right v (t.fail batch shutdown attempt) := by
  obtain ⟨futures, worker, heq, hset, huntouched, hparts, htodo⟩ :=
    fail_eq t batch shutdown attempt
  rw [heq]
  refine h.of_worker ho hpending hcall hsame (fun c hc => ?_)
    (fun c embedding hc => Or.inl (hfutures ▸ hset c embedding hc)) hcached (fun part hpart => ?_)
    fun part hpart => ?_
  · refine hleft c ?_
    rw [← huntouched, ← hqueue]
    exact hc
  · have hnone : part ∈ worker.parts := hpart
    rw [hparts] at hnone
    cases hnone
  · have hnone : part ∈ worker.todo := hpart
    rw [htodo] at hnone
    cases hnone

/-- What is left of a batch after a failure is not in the batch, if the batch was a single item. -/
theorem Orderly.left_not_mem (ho : Orderly v s)
    (hcalls : s.worker.calls = WorkerPoint.calls (.encoding batch attempt false : WorkerPoint R))
    (hsingle : attempt = .whole → batch.length < 2) :
    ∀ c ∈ attempt.left batch ++ s.queue.reduceOption, c ∉ batch := by
  have hnodup := ho.nodup
  rw [State.pending, hcalls] at hnodup
  intro c hc hmem
  cases attempt with
  | whole =>
    have hone : batch.length = 1 := by
      have hshort := hsingle rfl
      have hpos := length_pos_of_mem hmem
      omega
    rw [Attempt.left, if_pos hone, nil_append] at hc
    exact disjoint_of_nodup_append hnodup hmem hc
  | alone rest =>
    have hnodup : (batch ++ (rest ++ s.queue.reduceOption)).Nodup := by
      rw [← append_assoc]
      exact hnodup
    exact disjoint_of_nodup_append hnodup hmem hc

/-- A batch has been encoded: each item holds its own embedding. -/
theorem Right.encoded (h : Right v s) (ho : Orderly v s)
    (hworker : s.worker = .encoding batch attempt shutdown) :
    Right v ((s.attachAll (batch.map fun c => (c, v.own c))).work
      (.storing (batch.map fun c => (c, v.own c)) (batch.map fun c => (c, v.own c)) attempt
        shutdown)) ∨ ∃ c ∈ batch, ¬v.rowsFit c := by
  by_cases hfit : ∀ c ∈ batch, v.rowsFit c
  swap
  · push Not at hfit
    exact Or.inr hfit
  refine Or.inl ?_
  have hcalls : s.worker.calls =
      WorkerPoint.calls (.encoding batch attempt false : WorkerPoint R) := by
    rw [hworker]
    cases attempt <;> rfl
  have hbatch : ∀ c ∈ batch, c ∈ s.pending := by
    intro c hc
    refine mem_append_left _ ?_
    rw [hcalls]
    cases attempt with
    | whole => exact hc
    | alone rest => exact mem_append_left _ hc
  have hfst : (batch.map fun c => (c, v.own c)).map Prod.fst = batch := by
    rw [map_map]
    exact map_id batch
  have hnodup : batch.Nodup := by
    have hall := ho.nodup
    rw [State.pending, hcalls] at hall
    have hworkers := (nodup_append.mp hall).1
    cases attempt with
    | whole => exact hworkers
    | alone rest => exact (nodup_append.mp hworkers).1
  obtain ⟨attached, feature, heq⟩ := attachAll_eq (batch.map fun c => (c, v.own c)) s
  have hgood : ∀ part ∈ batch.map fun c => (c, v.own c),
      v.Good (s.attachAll (batch.map fun c => (c, v.own c))) part.1 part.2 := by
    intro part hpart
    obtain ⟨c, hc, rfl⟩ := mem_map.mp hpart
    exact ⟨attachAll_self s (hfst.symm ▸ hnodup) hpart, rfl, hfit c hc⟩
  refine h.of_worker ho hbatch ?_ (fun c hc => ?_) (fun c hc => ?_) (fun c embedding hc => ?_)
    (fun k entry embedding c hc => ?_) hgood fun part hpart => hpart
  · rw [heq]
    rfl
  · exact attachAll_other s (hfst.symm ▸ hc)
  · have hqueue : (s.attachAll (batch.map fun c => (c, v.own c))).queue = s.queue := by rw [heq]
    rw [State.untouched, State.work, hqueue] at hc
    have hrest : c ∈ attempt.left [] ++ s.queue.reduceOption := by
      cases attempt <;> exact hc
    have hnot : c ∉ batch := by
      intro hmem
      have hall := ho.nodup
      rw [State.pending, hcalls] at hall
      cases attempt with
      | whole => exact disjoint_of_nodup_append hall hmem hc
      | alone rest =>
        have hall : (batch ++ (rest ++ s.queue.reduceOption)).Nodup := by
          rw [← append_assoc]
          exact hall
        exact disjoint_of_nodup_append hall hmem hrest
    refine ⟨?_, hnot⟩
    rw [State.untouched, hworker]
    cases attempt with
    | whole => exact mem_append_right _ hc
    | alone rest =>
      rcases mem_append.mp hrest with hin | hin
      · exact mem_append_left _ (mem_append_right _ hin)
      · exact mem_append_right _ hin
  · rw [heq] at hc
    exact Or.inl hc
  · rw [heq] at hc
    exact h.cached k entry embedding c hc

variable {parts : List (ℕ × List R)}

theorem Right.succeed (h : Right v s) (ho : Orderly v s)
    (hworker : s.worker = .storing [] parts attempt shutdown) :
    Right v (s.succeed parts shutdown attempt) := by
  have hparts : ∀ part ∈ parts, v.Good s part.1 part.2 := by
    have hall := h.parts
    rw [hworker] at hall
    exact hall
  cases attempt with
  | whole =>
    refine h.work ho (fun c hc => ?_) (fun part hpart => ?_) fun part hpart => nomatch hpart
    · exact mem_append_right _ hc
    · rw [hworker]
      exact hpart
  | alone rest =>
    obtain ⟨futures, heq, hset, hkept⟩ := foldl_setParts parts s
    simp only [State.succeed]
    rw [heq]
    refine h.of_worker ho (fun _ hc => absurd hc not_mem_nil) rfl (fun _ _ => ⟨rfl, rfl⟩)
      (fun c hc => ⟨?_, not_mem_nil⟩) (fun c embedding hc => ?_) h.cached
      (fun part hpart => nomatch hpart) fun part hpart => nomatch hpart
    · rw [State.untouched, hworker]
      exact hc
    · by_cases hmem : c ∈ parts.map Prod.fst
      · obtain ⟨embedding', hpart, hvalue⟩ := hset c hmem
        have hc : futures c = some (some embedding) := hc
        rw [hvalue] at hc
        cases hc
        exact Or.inr (hparts (c, embedding) hpart)
      · have hc : futures c = some (some embedding) := hc
        rw [hkept c hmem] at hc
        exact Or.inl hc

/-- The worker has done with its batch. -/
theorem Right.next (h : Right v s) (ho : Orderly v s) :
    Right v (s.next shutdown) := by
  refine h.work ho (fun c hc => mem_append_right _ ?_) (fun part hpart => ?_) fun part hpart => ?_
  · cases shutdown <;> exact hc
  · cases shutdown <;> cases hpart
  · cases shutdown <;> cases hpart

theorem left_subset (hworker : s.worker = .encoding batch attempt shutdown) :
    ∀ c ∈ attempt.left batch ++ s.queue.reduceOption, c ∈ s.untouched := by
  intro c hc
  rw [State.untouched, hworker]
  rcases mem_append.mp hc with hleft | hqueue
  · refine mem_append_left _ ?_
    cases attempt with
    | whole =>
      rw [Attempt.left] at hleft
      split at hleft
      · cases hleft
      · exact hleft
    | alone rest => exact mem_append_right _ hleft
  · exact mem_append_right _ hqueue

/-- A batch fails before an item has been attached. -/
theorem Right.fail_early (h : Right v s) (ho : Orderly v s)
    (hworker : s.worker = .encoding batch attempt shutdown) :
    Right v (s.fail batch shutdown attempt) :=
  h.fail ho (fun _ hc => absurd hc not_mem_nil) rfl rfl rfl (fun _ _ => ⟨rfl, rfl⟩)
    (fun c hc => ⟨left_subset hworker c hc, not_mem_nil⟩) h.cached

/-- A single item fails, perhaps after it has been attached. -/
theorem Right.fail_late (h : Right v s) (ho : Orderly v s)
    (hworker : s.worker = .encoding batch attempt shutdown)
    (hsingle : attempt = .whole → batch.length < 2) (hparts : ∀ part ∈ parts, part.1 ∈ batch) :
    Right v ((s.attachAll parts).fail batch shutdown attempt) := by
  have hcalls : s.worker.calls =
      WorkerPoint.calls (.encoding batch attempt false : WorkerPoint R) := by
    rw [hworker]
    cases attempt <;> rfl
  obtain ⟨attached, feature, heq⟩ := attachAll_eq parts s
  refine h.fail ho (fun c (hc : c ∈ batch) =>
    mem_append_left _ ?_) ?_ ?_ ?_
    (fun c hc => attachAll_other s fun hmem => ?_)
    (fun c hc => ⟨left_subset hworker c hc, ho.left_not_mem hcalls hsingle c hc⟩)
    fun k entry embedding c hc => ?_
  · rw [hcalls]
    cases attempt with
    | whole => exact hc
    | alone rest => exact mem_append_left _ hc
  · rw [heq]
  · rw [heq]
  · rw [heq]
  · obtain ⟨part, hpart, hfst⟩ := mem_map.mp hmem
    exact hc (hfst ▸ hparts part hpart)
  · rw [heq] at hc
    exact h.cached k entry embedding c hc

/-- After a batch has failed, its items are encoded one at a time. -/
def WorkerPoint.Single : WorkerPoint R → Prop
  | .encoding batch (.alone _) _ => batch.length = 1
  | _ => True

theorem single_next (s : State K R) (shutdown : Bool) : (s.next shutdown).worker.Single := by
  cases shutdown <;> trivial

theorem single_fail (s : State K R) (batch : List ℕ) (shutdown : Bool) (attempt : Attempt) :
    (s.fail batch shutdown attempt).worker.Single := by
  cases attempt with
  | whole =>
    unfold State.fail
    dsimp only
    split
    · exact single_next _ shutdown
    · trivial
  | alone rest => trivial

variable {todo : List (ℕ × List R)}

theorem single_store [DecidableEq K] :
    (v.store s todo parts attempt shutdown outcome).worker.Single := by
  unfold Service.store
  split
  · cases attempt <;> trivial
  · split
    · trivial
    · trivial
    · exact single_fail _ _ _ _

theorem single_step [DecidableEq K] (h : s.worker.Single) (hstep : step v s a = some t) :
    t.worker.Single := by
  by_cases hcaller : a.ofWorker = false
  · rw [(beside_step hcaller hstep).worker]
    exact h
  · cases moves_of_step hstep with
    | take => trivial
    | takeLast => trivial
    | more => trivial
    | moreLast => trivial
    | go => trivial
    | encode => trivial
    | encodeFails => exact single_fail _ _ _ _
    | store => exact single_store
    | delivered => exact single_next s _
    | deliver => trivial
    | retried => exact single_next s _
    | retry => rfl
    | _ => exact absurd rfl hcaller

theorem rowsFit_of_tidy {raisesAfter : Option ℕ} (hsingle : s.worker.Single)
    (hworker : s.worker = .encoding batch attempt shutdown)
    (hok : Action.Tidy v s (.encode (.encodes raisesAfter) : Action K))
    (hcounts : v.tokenCounts batch = some counts)
    (hsum : (batch.flatMap fun c => v.embed (v.item c).audio).length = counts.sum) :
    (attempt = .whole → 2 ≤ batch.length → raisesAfter = none ∨ raisesAfter = some 0) ∧
      ∀ c ∈ batch, v.rowsFit c := by
  have hshort : batch.length = 1 → ∀ c ∈ batch, v.rowsFit c := by
    intro hone
    obtain ⟨c, rfl⟩ := length_eq_one_iff.mp hone
    intro d hd
    rw [mem_singleton.mp hd]
    exact rowsFit_of_single hcounts rfl hsum
  cases attempt with
  | alone rest =>
    rw [hworker] at hsingle
    exact ⟨(fun hnot => nomatch hnot), hshort hsingle⟩
  | whole =>
    by_cases hlong : 2 ≤ batch.length
    · have hfits : v.fits batch = true := by
        rw [Service.fits, hcounts]
        exact decide_eq_true hsum
      simp only [Action.Tidy, hworker] at hok
      obtain ⟨hrows, hraises⟩ := hok hlong hfits
      exact ⟨fun _ _ => hraises, hrows⟩
    · refine ⟨fun _ hnot => absurd hnot hlong, fun c hc => hshort ?_ c hc⟩
      have hpos := length_pos_of_mem hc
      omega

theorem Right.encode [DecidableEq K] (h : Right v s) (ho : Orderly v s) (hsingle : s.worker.Single)
    {outcome : Encode} (hok : Action.Tidy v s (.encode outcome : Action K))
    (hstep : step v s (.encode outcome) = some t) : Right v t := by
  simp only [Asr.step] at hstep
  split at hstep
  swap
  · cases hstep
  next batch attempt shutdown hworker =>
    cases outcome with
    | raises =>
      cases hstep
      exact h.fail_early ho hworker
    | misshapen =>
      cases hstep
      exact h.fail_early ho hworker
    | encodes raisesAfter =>
      simp only [Service.encodeBatch] at hstep
      cases hrows : v.getAudioFeature s batch with
      | none =>
        simp only [hrows] at hstep
        cases hstep
        exact h.fail_early ho hworker
      | some rows =>
        have hrows' : rows = batch.flatMap fun c => v.embed (v.item c).audio := by
          rw [Service.getAudioFeature] at hrows
          split at hrows
          · exact (Option.some.inj hrows).symm
          · cases hrows
        cases hcounts : v.tokenCounts batch with
        | none =>
          simp only [hrows, hcounts] at hstep
          cases hstep
          exact h.fail_early ho hworker
        | some counts =>
          by_cases hsum : rows.length = counts.sum
          swap
          · simp only [hrows, hcounts, if_neg hsum] at hstep
            cases hstep
            exact h.fail_early ho hworker
          simp only [hrows, hcounts, if_pos hsum] at hstep
          subst hrows'
          obtain ⟨hraises, hfit⟩ := rowsFit_of_tidy hsingle hworker hok hcounts hsum
          have hparts := parts_eq hfit hcounts
          rw [hparts] at hstep
          cases raisesAfter with
          | none =>
            cases hstep
            rcases h.encoded ho hworker with hright | ⟨c, hc, hnot⟩
            · exact hright
            · exact absurd (hfit c hc) hnot
          | some n =>
            cases hstep
            by_cases hlong : attempt = .whole ∧ 2 ≤ batch.length
            · rcases hraises hlong.1 hlong.2 with hnone | hzero
              · cases hnone
              · cases hzero
                exact h.fail_early ho hworker
            · refine h.fail_late ho hworker (fun hwhole => ?_) fun part hpart => ?_
              · exact Nat.lt_of_not_le fun hlength => hlong ⟨hwhole, hlength⟩
              · obtain ⟨c, hc, rfl⟩ := mem_map.mp (mem_of_mem_take hpart)
                exact hc

variable {rest : List (ℕ × List R)}

theorem Right.put [DecidableEq K] (h : Right v s) (ho : Orderly v s) (hkeys : v.KeysIdentify)
    (hkey : (v.item c).key = some k)
    (hworker : s.worker = .storing ((c, embedding) :: rest) parts attempt shutdown) :
    Right v ((s.put k embedding).work (.storing rest parts attempt shutdown)) := by
  have hparts := h.parts
  have htodo := h.todo
  rw [hworker] at hparts htodo
  have hgood : v.Good s c embedding := hparts _ (htodo _ (mem_cons_self ..))
  refine h.of_worker ho (fun _ hc => absurd hc not_mem_nil) rfl (fun _ _ => ⟨rfl, rfl⟩)
    (fun d hd => ⟨?_, not_mem_nil⟩) (fun _ _ hd => Or.inl hd)
    (fun k' entry embedding' d hcache hkey' => ?_) hparts
    fun part hpart => htodo part (mem_cons_of_mem _ hpart)
  · rw [State.untouched, hworker]
    cases attempt <;> exact hd
  · have hcache : update s.cache k (some (s.entries, embedding)) k' =
        some (entry, embedding') := hcache
    by_cases hk : k' = k
    · subst hk
      rw [update_self] at hcache
      cases hcache
      rw [hgood.2.1, Service.own, Service.own, hkeys c d k' hkey hkey']
    · rw [update_of_ne hk] at hcache
      exact h.cached k' entry embedding' d hcache hkey'

/-- The cache raises while a single item is stored. -/
theorem Right.fail_store [DecidableEq K] (h : Right v s) (ho : Orderly v s) {drops : Bool}
    (hworker : s.worker = .storing todo parts attempt shutdown)
    (hone : attempt = .whole → parts.length = 1) :
    Right v ({ s with
      cache := if drops then update s.cache k none else s.cache }.fail
        (parts.map Prod.fst) shutdown attempt) := by
  refine h.fail ho (fun _ hc => absurd hc not_mem_nil) rfl rfl rfl (fun _ _ => ⟨rfl, rfl⟩)
    (fun c hc => ⟨?_, not_mem_nil⟩) fun k' entry embedding c hcache hkey => ?_
  · rw [State.untouched, hworker]
    cases attempt with
    | whole =>
      rw [Attempt.left, length_map, if_pos (hone rfl)] at hc
      exact hc
    | alone rest => exact hc
  · dsimp only at hcache
    split at hcache
    · by_cases hk : k' = k
      · subst hk
        rw [update_self] at hcache
        cases hcache
      · rw [update_of_ne hk] at hcache
        exact h.cached k' entry embedding c hcache hkey
    · exact h.cached k' entry embedding c hcache hkey

theorem Right.store [DecidableEq K] (h : Right v s) (ho : Orderly v s) (hkeys : v.KeysIdentify)
    (hok : Action.Tidy v s (.store outcome : Action K))
    (hworker : s.worker = .storing todo parts attempt shutdown) :
    Right v (v.store s todo parts attempt shutdown outcome) := by
  have htodo := h.todo
  rw [hworker] at htodo
  unfold Service.store
  split
  · exact h.succeed ho hworker
  next c embedding rest =>
    split
    · refine h.work ho (fun d hd => ?_) (fun part hpart => ?_) fun part hpart => ?_
      · rw [State.untouched, hworker]
        cases attempt <;> exact hd
      · rw [hworker]
        exact hpart
      · exact htodo part (mem_cons_of_mem _ hpart)
    next k hkey => exact h.put ho hkeys hkey hworker
    next k drops hkey =>
      refine h.fail_store ho hworker fun hwhole => ?_
      subst hwhole
      simp only [Action.Tidy, hworker] at hok
      have hpos := length_pos_of_mem (htodo _ (mem_cons_self ..))
      have hshort : ¬2 ≤ parts.length := by
        intro hlong
        have hnone := hok hlong
        rw [hkey] at hnone
        cases hnone
      change 0 < parts.length at hpos
      omega

theorem Right.deliver (h : Right v s) (ho : Orderly v s)
    (hworker : s.worker = .delivering ((c, embedding) :: rest) shutdown) :
    Right v ((s.setFuture c (some embedding)).work (.delivering rest shutdown)) := by
  have hparts := h.parts
  rw [hworker] at hparts
  refine h.of_worker ho (fun _ hc => absurd hc not_mem_nil) rfl (fun _ _ => ⟨rfl, rfl⟩)
    (fun d hd => ⟨?_, not_mem_nil⟩) (fun d embedding' hd => ?_) h.cached
    (fun part hpart => hparts part (mem_cons_of_mem _ hpart))
    fun part hpart => absurd hpart not_mem_nil
  · rw [State.untouched, hworker]
    exact hd
  · have hd : update s.futures c (some (some embedding)) d = some (some embedding') := hd
    by_cases hne : d = c
    · subst hne
      rw [update_self] at hd
      cases hd
      exact Or.inr (hparts (d, embedding) (mem_cons_self ..))
    · rw [update_of_ne hne] at hd
      exact Or.inl hd

theorem Right.take (h : Right v s) (ho : Orderly v s) {head : Option ℕ} {rest : List (Option ℕ)}
    {point : WorkerPoint R} (hqueue : s.queue = head :: rest)
    (huntouched : point.untouched = s.worker.untouched ++ head.toList) (hparts : point.parts = [])
    (htodo : point.todo = []) : Right v { s with queue := rest, worker := point } := by
  refine h.work ho (fun c hc => ?_) (fun part hpart => ?_) fun part hpart => ?_
  · rw [huntouched, append_assoc] at hc
    rw [State.untouched, hqueue]
    cases head with
    | none => exact hc
    | some d => exact hc
  · rw [hparts] at hpart
    cases hpart
  · rw [htodo] at hpart
    cases hpart

/-- A step that leaves a batch undisturbed keeps the calls right. -/
theorem Right.step [DecidableEq K] (h : Right v s) (ho : Orderly v s) (hsingle : s.worker.Single)
    (hkeys : v.KeysIdentify) (hok : a.Tidy v s) (hstep : step v s a = some t) : Right v t := by
  cases moves_of_step hstep with
  | start hcall => exact h.start hcall
  | lookup hcall hkey =>
    split
    · exact h.raise
    · exact h.lookup hcall hkey
  | discard hcall =>
    split
    · exact h.raise
    · refine h.removeIfSame.go ?_ rfl
      rw [removeIfSame_call, hcall]
      rfl
  | join hcall hkey => exact h.join hcall hkey
  | @attach c _ embedding hcall =>
    split
    · exact h.raise
    · have hwaiting : s.call c ≠ .waiting c := by
        rw [hcall]
        rintro ⟨⟩
      have hunset : s.futures c = none := by
        refine ho.unset hwaiting (fun result => ?_) (by rw [hcall]; rfl)
        rw [hcall]
        rintro ⟨⟩
      obtain ⟨hown, hrows⟩ := h.attaching c embedding hcall
      exact h.attach (ho.not_pending_of_call hwaiting) hunset hown hrows
  | wake hcall hset => exact h.wake ho hkeys hcall hset
  | @release c result _ hcall =>
    have hended : Right v (s.goto c (if result.isSome then .returned else .raised)) := by
      cases result with
      | none => exact h.raise
      | some embedding => exact h.goto_returned (h.releasing c embedding hcall)
    exact { hended with }
  | closed => exact h
  | close =>
    refine { h with
      spare := fun c hc => h.spare c (hc.imp_right fun hmem => ?_) }
    have hmem : c ∈ s.worker.untouched ++ (s.queue ++ [none]).reduceOption := hmem
    rw [reduceOption_append] at hmem
    simpa [State.untouched] using hmem
  | @evict k =>
    refine h.of_cache fun k' entry embedding c hcache hkey => ?_
    by_cases hk : k' = k
    · subst hk
      rw [update_self] at hcache
      cases hcache
    · rw [update_of_ne hk] at hcache
      exact h.cached k' entry embedding c hcache hkey
  | take hworker hqueue => exact h.take ho hqueue (by rw [hworker]; rfl) rfl rfl
  | takeLast hworker hqueue => exact h.take ho hqueue (by rw [hworker]; rfl) rfl rfl
  | more hworker hqueue => exact h.take ho hqueue (by rw [hworker]; rfl) rfl rfl
  | moreLast hworker hqueue =>
    exact h.take ho hqueue (by rw [hworker]; simp [WorkerPoint.untouched]) rfl rfl
  | go hworker =>
    refine h.work ho (fun c hc => ?_) (fun part hpart => absurd hpart not_mem_nil)
      fun part hpart => absurd hpart not_mem_nil
    rw [State.untouched, hworker]
    exact hc
  | encode => exact h.encode ho hsingle hok hstep
  | encodeFails => exact h.encode ho hsingle hok hstep
  | store hworker => exact h.store ho hkeys hok hworker
  | delivered => exact h.next ho
  | deliver hworker => exact h.deliver ho hworker
  | retried => exact h.next ho
  | retry hworker =>
    refine h.work ho (fun d hd => ?_) (fun part hpart => absurd hpart not_mem_nil)
      fun part hpart => absurd hpart not_mem_nil
    rw [State.untouched, hworker]
    exact hd

end Omni.Asr
