import Mathlib.Algebra.GroupWithZero.Nat
import Mathlib.Data.List.SplitLengths
import Mathlib.Logic.Function.Basic
import Omni.Library.Transition

/-!
# The audio encoder service

`FunASRPreLMEncoderService`: callers of `encode_item` on any number of threads, and the worker
that encodes their items in batches. A future is known by the call that has created it. What
`_lock` guards is one step, and so is what `_lifecycle_lock` guards.
-/

namespace Omni.Asr

open Function

variable {A K R : Type}

/-- An audio item. -/
structure Item (A K : Type) where
  audio : A
  numAudioTokens : Option ℕ
  /-- `_cache_key`. -/
  key : Option K

/-- The items of the calls, and the encoder. -/
structure Service (A K R : Type) where
  item : ℕ → Item A K
  /-- The rows of `get_audio_feature` for one audio. -/
  embed : A → List R
  maxBatchSize : ℕ

/-- Where a call of `encode_item` stands. -/
inductive CallPoint (R : Type)
  | idle
  /-- Before `self._cache.get(key)`. -/
  | looking
  /-- Before `self._cache.remove_if_same`, with the entry that was found. -/
  | discarding (entry : ℕ)
  /-- Before the block under `_lock`. -/
  | joining
  /-- Before `self._attach` of a cached embedding. -/
  | attaching (embedding : List R)
  /-- At `future.result()`, for the future of a call. -/
  | waiting (leader : ℕ)
  /-- A leader before `del self._inflight[key]`, with what its future held. -/
  | releasing (result : Option (List R))
  | returned
  | raised
  deriving DecidableEq

/-- Which call of `_encode_batch` the worker is in. -/
inductive Attempt
  /-- The one for the whole batch. -/
  | whole
  /-- The one for a single item, after the batch has failed. -/
  | alone (rest : List ℕ)
  deriving DecidableEq

/-- Where the worker stands. `shutdown` is set once `_SHUTDOWN` has been taken. -/
inductive WorkerPoint (R : Type)
  | waiting
  | draining (batch : List ℕ)
  | encoding (batch : List ℕ) (attempt : Attempt) (shutdown : Bool)
  /-- All items of the batch hold their parts, some are still to be put into the cache. -/
  | storing (todo parts : List (ℕ × List R)) (attempt : Attempt) (shutdown : Bool)
  | delivering (todo : List (ℕ × List R)) (shutdown : Bool)
  | retrying (todo : List ℕ) (shutdown : Bool)
  | stopped
  deriving DecidableEq

/-- The service and its callers. -/
structure State (K R : Type) where
  /-- `item.feature is not None`. -/
  feature : ℕ → Bool
  /-- `item.precomputed_embeddings`. -/
  attached : ℕ → Option (List R)
  /-- What the futures hold, `none` in it being an exception. -/
  futures : ℕ → Option (Option (List R))
  inflight : K → Option ℕ
  /-- The cache, with the identities of its entries. -/
  cache : K → Option (ℕ × List R)
  entries : ℕ
  /-- The queue, with `none` for `_SHUTDOWN`. -/
  queue : List (Option ℕ)
  closed : Bool
  call : ℕ → CallPoint R
  worker : WorkerPoint R

/-- A service that nobody has called. -/
def State.init (K R : Type) : State K R where
  feature := fun _ => true
  attached := fun _ => none
  futures := fun _ => none
  inflight := fun _ => none
  cache := fun _ => none
  entries := 0
  queue := []
  closed := false
  call := fun _ => .idle
  worker := .waiting

variable [DecidableEq K]

/-- `_is_valid`, as far as the number of rows goes. -/
def Service.isValid (v : Service A K R) (c : ℕ) (embedding : List R) : Bool :=
  (v.item c).numAudioTokens = some embedding.length

/-- `_attach`. -/
def State.attach (s : State K R) (c : ℕ) (embedding : List R) : State K R :=
  { s with
    attached := update s.attached c (some embedding)
    feature := update s.feature c false }

/-- The call goes on to a point. -/
def State.goto (s : State K R) (c : ℕ) (point : CallPoint R) : State K R :=
  { s with call := update s.call c point }

/-- `_enqueue`, and the wait for the future; an exception if the service is closed. -/
def State.enqueue (s : State K R) (c : ℕ) : State K R :=
  if s.closed then s.goto c .raised
  else { s.goto c (.waiting c) with queue := s.queue ++ [some c] }

/-- `encode_item`, up to the first lookup. -/
def Service.start (v : Service A K R) (s : State K R) (c : ℕ) : State K R :=
  match (v.item c).numAudioTokens, (v.item c).key with
  | none, _ => s.goto c .raised
  | some _, none => s.enqueue c
  | some _, some _ => s.goto c .looking

/-- The first lookup. -/
def Service.lookup (v : Service A K R) (s : State K R) (c : ℕ) (k : K) : State K R :=
  match s.cache k with
  | none => s.goto c .joining
  | some (entry, embedding) =>
    if v.isValid c embedding then s.goto c (.attaching embedding)
    else s.goto c (.discarding entry)

/-- `remove_if_same`. -/
def State.removeIfSame (s : State K R) (k : K) (entry : ℕ) : State K R :=
  match s.cache k with
  | some (entry', _) =>
    if entry' = entry then { s with cache := update s.cache k none } else s
  | none => s

/-- The block under `_lock`. -/
def Service.join (v : Service A K R) (s : State K R) (c : ℕ) (k : K) (fails : Bool) : State K R :=
  match s.inflight k with
  | some leader => s.goto c (.waiting leader)
  | none =>
    if fails then s.goto c .raised
    else
      match (s.cache k).filter fun entry => v.isValid c entry.2 with
      | some (_, embedding) => s.goto c (.attaching embedding)
      | none =>
        if s.closed then s.goto c .raised
        else { s.enqueue c with inflight := update s.inflight k (some c) }

/-- What follows `future.result()`. -/
def Service.wake (v : Service A K R) (s : State K R) (c leader : ℕ) (result : Option (List R))
    (fails : Bool) : State K R :=
  if leader = c then
    match (v.item c).key with
    | some _ => s.goto c (.releasing result)
    | none => s.goto c (if result.isSome then .returned else .raised)
  else
    match result with
    | none => s.goto c .raised
    | some embedding =>
      if v.isValid c embedding && !fails then (s.attach c embedding).goto c .returned
      else s.goto c .raised

/-- `get_audio_feature` for a batch. It raises for an item whose feature has been cleared. -/
def Service.getAudioFeature (v : Service A K R) (s : State K R) (batch : List ℕ) :
    Option (List R) :=
  if batch.all s.feature then some (batch.flatMap fun c => v.embed (v.item c).audio) else none

/-- The token counts of a batch. -/
def Service.tokenCounts (v : Service A K R) (batch : List ℕ) : Option (List ℕ) :=
  batch.mapM fun c => (v.item c).numAudioTokens

/-- How `_encode_batch` goes, up to the cache. -/
inductive Encode
  /-- `get_audio_feature` raises. -/
  | raises
  /-- It returns an embedding of a wrong shape. -/
  | misshapen
  /-- It returns the embeddings of the items. Something may raise after the first few items have
  been attached. -/
  | encodes (raisesAfter : Option ℕ)
  deriving DecidableEq

/-- Attach the parts to their items. -/
def State.attachAll (s : State K R) (parts : List (ℕ × List R)) : State K R :=
  parts.foldl (fun s part => s.attach part.1 part.2) s

/-- `_encode_batch`, up to the cache. -/
def Service.encodeBatch (v : Service A K R) (s : State K R) (batch : List ℕ) :
    Encode → State K R × Option (List (ℕ × List R))
  | .raises => (s, none)
  | .misshapen => (s, none)
  | .encodes raisesAfter =>
    match v.getAudioFeature s batch, v.tokenCounts batch with
    | some rows, some counts =>
      if rows.length = counts.sum then
        let parts := batch.zip (counts.splitLengths rows)
        match raisesAfter with
        | some n => (s.attachAll (parts.take n), none)
        | none => (s.attachAll parts, some parts)
      else (s, none)
    | _, _ => (s, none)

/-- `set_result` or `set_exception`. -/
def State.setFuture (s : State K R) (c : ℕ) (result : Option (List R)) : State K R :=
  { s with futures := update s.futures c (some result) }

/-- The worker goes on to a point. -/
def State.work (s : State K R) (point : WorkerPoint R) : State K R := { s with worker := point }

/-- The worker has done with a batch. -/
def State.next (s : State K R) (shutdown : Bool) : State K R :=
  s.work (if shutdown then .stopped else .waiting)

/-- `_encode_batch` has raised. -/
def State.fail (s : State K R) (batch : List ℕ) (shutdown : Bool) : Attempt → State K R
  | .whole =>
    match batch with
    | [c] => (s.setFuture c none).next shutdown
    | _ => s.work (.retrying batch shutdown)
  | .alone rest => (batch.foldl (fun s c => s.setFuture c none) s).work (.retrying rest shutdown)

/-- `_encode_batch` has returned. -/
def State.succeed (s : State K R) (parts : List (ℕ × List R)) (shutdown : Bool) :
    Attempt → State K R
  | .whole => s.work (.delivering parts shutdown)
  | .alone rest =>
    (parts.foldl (fun s part => s.setFuture part.1 (some part.2)) s).work (.retrying rest shutdown)

/-- How `self._cache.put` goes. If it raises, it may have dropped the old entry. -/
inductive Store
  | stores
  | raises (drops : Bool)
  deriving DecidableEq

/-- `self._cache.put`. -/
def State.put (s : State K R) (k : K) (embedding : List R) : State K R :=
  { s with
    cache := update s.cache k (some (s.entries, embedding))
    entries := s.entries + 1 }

/-- The loop that puts the parts of a batch into the cache. -/
def Service.store (v : Service A K R) (s : State K R) (todo parts : List (ℕ × List R))
    (attempt : Attempt) (shutdown : Bool) (outcome : Store) : State K R :=
  match todo with
  | [] => s.succeed parts shutdown attempt
  | (c, embedding) :: rest =>
    match (v.item c).key, outcome with
    | none, _ => s.work (.storing rest parts attempt shutdown)
    | some k, .stores => (s.put k embedding).work (.storing rest parts attempt shutdown)
    | some k, .raises drops =>
      { s with cache := if drops then update s.cache k none else s.cache }.fail
        (parts.map Prod.fst) shutdown attempt

/-- The steps of the callers and of the worker. `fails` says that the cache or `_attach` raises. -/
inductive Action (K : Type)
  | start (c : ℕ)
  | lookup (c : ℕ) (fails : Bool)
  | discard (c : ℕ) (fails : Bool)
  | join (c : ℕ) (fails : Bool)
  | attach (c : ℕ) (fails : Bool)
  | wake (c : ℕ) (fails : Bool)
  | release (c : ℕ)
  | close
  /-- The cache drops an entry, for its limits. -/
  | evict (k : K)
  /-- The first `get` of `_drain_batch`. -/
  | take
  /-- A further one. -/
  | more
  /-- `_drain_batch` returns, for its deadline or its limit. -/
  | go
  | encode (outcome : Encode)
  | store (outcome : Store)
  | deliver
  | retry
  deriving DecidableEq

/-- A step of the worker. -/
def Action.ofWorker : Action K → Bool
  | .take | .more | .go | .encode _ | .store _ | .deliver | .retry => true
  | _ => false

/-- A step of a call. -/
def Action.ofCall (c : ℕ) : Action K → Bool
  | .start c' | .lookup c' _ | .discard c' _ | .join c' _ | .attach c' _ | .wake c' _
  | .release c' => c' = c
  | _ => false

/-- One step. -/
def step (v : Service A K R) (s : State K R) : Action K → Option (State K R)
  | .start c =>
    match s.call c with
    | .idle => some (v.start s c)
    | _ => none
  | .lookup c fails =>
    match s.call c, (v.item c).key with
    | .looking, some k => some (if fails then s.goto c .raised else v.lookup s c k)
    | _, _ => none
  | .discard c fails =>
    match s.call c, (v.item c).key with
    | .discarding entry, some k =>
      some (if fails then s.goto c .raised else (s.removeIfSame k entry).goto c .joining)
    | _, _ => none
  | .join c fails =>
    match s.call c, (v.item c).key with
    | .joining, some k => some (v.join s c k fails)
    | _, _ => none
  | .attach c fails =>
    match s.call c with
    | .attaching embedding =>
      some (if fails then s.goto c .raised else (s.attach c embedding).goto c .returned)
    | _ => none
  | .wake c fails =>
    match s.call c with
    | .waiting leader =>
      match s.futures leader with
      | some result => some (v.wake s c leader result fails)
      | none => none
    | _ => none
  | .release c =>
    match s.call c, (v.item c).key with
    | .releasing result, some k =>
      let point : CallPoint R := if result.isSome then .returned else .raised
      some { s.goto c point with
        inflight :=
          if s.inflight k = some c then update s.inflight k none else s.inflight }
    | _, _ => none
  | .close =>
    if s.closed then some s
    else some { s with closed := true, queue := s.queue ++ [none] }
  | .evict k => some { s with cache := update s.cache k none }
  | .take =>
    match s.worker, s.queue with
    | .waiting, some c :: rest => some { s with queue := rest, worker := .draining [c] }
    | .waiting, none :: rest => some { s with queue := rest, worker := .stopped }
    | _, _ => none
  | .more =>
    match s.worker, s.queue with
    | .draining batch, first :: rest =>
      if batch.length < v.maxBatchSize then
        match first with
        | some c => some { s with queue := rest, worker := .draining (batch ++ [c]) }
        | none => some { s with queue := rest, worker := .encoding batch .whole true }
      else none
    | _, _ => none
  | .go =>
    match s.worker with
    | .draining batch => some (s.work (.encoding batch .whole false))
    | _ => none
  | .encode outcome =>
    match s.worker with
    | .encoding batch attempt shutdown =>
      match v.encodeBatch s batch outcome with
      | (s, some parts) => some (s.work (.storing parts parts attempt shutdown))
      | (s, none) => some (s.fail batch shutdown attempt)
    | _ => none
  | .store outcome =>
    match s.worker with
    | .storing todo parts attempt shutdown =>
      some (v.store s todo parts attempt shutdown outcome)
    | _ => none
  | .deliver =>
    match s.worker with
    | .delivering [] shutdown => some (s.next shutdown)
    | .delivering ((c, embedding) :: rest) shutdown =>
      some ((s.setFuture c (some embedding)).work (.delivering rest shutdown))
    | _ => none
  | .retry =>
    match s.worker with
    | .retrying [] shutdown => some (s.next shutdown)
    | .retrying (c :: rest) shutdown => some (s.work (.encoding [c] (.alone rest) shutdown))
    | _ => none

/-- What a step does where it can be taken. -/
inductive Moves (v : Service A K R) (s : State K R) : Action K → State K R → Prop
  | start {c} (hcall : s.call c = .idle) : Moves v s (.start c) (v.start s c)
  | lookup {c fails k} (hcall : s.call c = .looking) (hkey : (v.item c).key = some k) :
      Moves v s (.lookup c fails) (if fails then s.goto c .raised else v.lookup s c k)
  | discard {c fails entry k} (hcall : s.call c = .discarding entry)
      (hkey : (v.item c).key = some k) : Moves v s (.discard c fails)
        (if fails then s.goto c .raised else (s.removeIfSame k entry).goto c .joining)
  | join {c fails k} (hcall : s.call c = .joining) (hkey : (v.item c).key = some k) :
      Moves v s (.join c fails) (v.join s c k fails)
  | attach {c fails embedding} (hcall : s.call c = .attaching embedding) :
      Moves v s (.attach c fails)
        (if fails then s.goto c .raised else (s.attach c embedding).goto c .returned)
  | wake {c fails leader result} (hcall : s.call c = .waiting leader)
      (hset : s.futures leader = some result) :
      Moves v s (.wake c fails) (v.wake s c leader result fails)
  | release {c result k} (hcall : s.call c = .releasing result)
      (hkey : (v.item c).key = some k) : Moves v s (.release c)
        { s.goto c (if result.isSome then .returned else .raised) with
          inflight :=
            if s.inflight k = some c then update s.inflight k none else s.inflight }
  | closed (hclosed : s.closed = true) : Moves v s .close s
  | close (hopen : ¬s.closed = true) :
      Moves v s .close { s with closed := true, queue := s.queue ++ [none] }
  | evict {k} : Moves v s (.evict k) { s with cache := update s.cache k none }
  | take {c rest} (hworker : s.worker = .waiting) (hqueue : s.queue = some c :: rest) :
      Moves v s .take { s with queue := rest, worker := .draining [c] }
  | takeLast {rest} (hworker : s.worker = .waiting) (hqueue : s.queue = none :: rest) :
      Moves v s .take { s with queue := rest, worker := .stopped }
  | more {batch c rest} (hworker : s.worker = .draining batch)
      (hqueue : s.queue = some c :: rest) (hroom : batch.length < v.maxBatchSize) :
      Moves v s .more { s with queue := rest, worker := .draining (batch ++ [c]) }
  | moreLast {batch rest} (hworker : s.worker = .draining batch) (hqueue : s.queue = none :: rest)
      (hroom : batch.length < v.maxBatchSize) :
      Moves v s .more { s with queue := rest, worker := .encoding batch .whole true }
  | go {batch} (hworker : s.worker = .draining batch) :
      Moves v s .go (s.work (.encoding batch .whole false))
  | encode {outcome batch attempt shutdown s' parts}
      (hworker : s.worker = .encoding batch attempt shutdown)
      (hencode : v.encodeBatch s batch outcome = (s', some parts)) :
      Moves v s (.encode outcome) (s'.work (.storing parts parts attempt shutdown))
  | encodeFails {outcome batch attempt shutdown s'}
      (hworker : s.worker = .encoding batch attempt shutdown)
      (hencode : v.encodeBatch s batch outcome = (s', none)) :
      Moves v s (.encode outcome) (s'.fail batch shutdown attempt)
  | store {outcome todo parts attempt shutdown}
      (hworker : s.worker = .storing todo parts attempt shutdown) :
      Moves v s (.store outcome) (v.store s todo parts attempt shutdown outcome)
  | delivered {shutdown} (hworker : s.worker = .delivering [] shutdown) :
      Moves v s .deliver (s.next shutdown)
  | deliver {c embedding rest shutdown}
      (hworker : s.worker = .delivering ((c, embedding) :: rest) shutdown) :
      Moves v s .deliver ((s.setFuture c (some embedding)).work (.delivering rest shutdown))
  | retried {shutdown} (hworker : s.worker = .retrying [] shutdown) :
      Moves v s .retry (s.next shutdown)
  | retry {c rest shutdown} (hworker : s.worker = .retrying (c :: rest) shutdown) :
      Moves v s .retry (s.work (.encoding [c] (.alone rest) shutdown))

theorem moves_of_step {v : Service A K R} {s t : State K R} {a : Action K}
    (hstep : step v s a = some t) : Moves v s a t := by
  cases a <;> simp only [step] at hstep <;> repeat' first | cases hstep | split at hstep
  all_goals constructor <;> assumption

section

-- the equations of what a step does, for the proofs about it
attribute [local simp] step Service.start Service.lookup State.removeIfSame Service.join
  Service.wake State.fail State.succeed Service.store

end

end Omni.Asr
