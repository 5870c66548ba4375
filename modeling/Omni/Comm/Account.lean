import Omni.Comm.Steps
import Omni.Library.Pool

/-!
# The account of credits

An account is kept next to the engine: a pool of credits and, for each put operation,
who is responsible for giving its credit back. The engine agrees with the account
in every state that it reaches.
-/

namespace Omni.Comm

open Omni.Transition

variable {D L : Type}

/-- Who has to see to it that a put operation is completed. -/
inductive Owner
  | send (i : ℕ)
  | transfer (e : ℕ)
  /-- Nobody: the send that made the operation has raised before registering it. -/
  | nobody
  deriving DecidableEq

/-- The credits, the owners of the put operations made so far, and how often the
credit of each has been released. -/
structure Account (c : ℕ) where
  pool : Pool c ℕ
  owner : ℕ → Option Owner
  releases : ℕ → ℕ

/-- No operation has been made. -/
def Account.empty (c : ℕ) : Account c := ⟨.full c, fun _ => none, fun _ => 0⟩

/-- What a step means for the account. -/
inductive Event
  | acquired (i o : ℕ)
  /-- Send `i` has made its last operation `o` and registers all as transfer `e`. -/
  | registered (i o e : ℕ)
  /-- Send `i` raises before it has registered its operations. -/
  | dropped (i : ℕ)
  | released (o : ℕ)

variable {c : ℕ}

/-- Send `i` takes a credit for operation `o`. -/
def Account.acquire (A : Account c) (i o : ℕ) : Account c :=
  { A with pool := A.pool.acquire o, owner := Function.update A.owner o (some (.send i)) }

/-- All operations of one owner pass to another. -/
def Account.pass (A : Account c) (a b : Owner) : Account c :=
  { A with owner := fun o => if A.owner o = some a then some b else A.owner o }

/-- The credit of operation `o` is released. -/
def Account.release (A : Account c) (o : ℕ) : Account c :=
  { A with
    pool := A.pool.release o
    releases := Function.update A.releases o (A.releases o + 1) }

@[simp] theorem release_owner (A : Account c) (o : ℕ) : (A.release o).owner = A.owner := rfl

/-- Record events in their order. -/
def Account.record (A : Account c) (events : List Event) : Account c :=
  events.foldl (fun A event => match event with
    | .acquired i o => A.acquire i o
    | .registered i o e => (A.acquire i o).pass (.send i) (.transfer e)
    | .dropped i => A.pass (.send i) .nobody
    | .released o => A.release o) A

/-- The events of a piece of a send around one put. -/
def observePut (s : State D L) (i remaining : ℕ) : PutOutcome → List Event
  | .raisesBefore _ => [.dropped i]
  | .raisesInside _ => [.dropped i]
  | .raisesAfter _ => [.acquired i s.opCount, .dropped i]
  | .succeeds =>
    if 1 < remaining then [.acquired i s.opCount]
    else match s.pending (s.sends i).job.objectId with
      | some _ => [.acquired i s.opCount, .dropped i]
      | none => [.registered i s.opCount s.transferCount]

/-- The events of a step. -/
def observe (s : State D L) : Action → Option (List Event)
  | .put i outcome =>
    match (s.sends i).phase with
    | .putting _ remaining => some (observePut s i remaining outcome)
    | _ => none
  | .watch e =>
    match (s.transfers e).task with
    | .completing (o :: _) _ => if (s.ops o).completed then none else some [.released o]
    | _ => none
  | _ => none

/-- The engine with its account. -/
def watched (stageName : String) :
    State D L × Account c → Action → Option (State D L × Account c) :=
  Transition.watch (step stageName) observe Account.record

/-- The watcher has not seen the acknowledgement yet. -/
def Watcher.early : Watcher → Bool
  | .unarmed | .waiting => true
  | _ => false

/-- What the task of a transfer says about its operations. -/
def TaskAgrees (s : State D L) (e : ℕ) : Prop :=
  match (s.transfers e).task with
  | .unarmed => ∀ o ∈ (s.transfers e).ops, s.ops o = .new
  | .waiting => ∀ o ∈ (s.transfers e).ops, s.ops o = .new
  | .completing rest failure => ∀ o ∈ (s.transfers e).ops,
      (s.ops o).receiverDone ≠ .waiting ∧ ((s.ops o).completed = true ∨ o ∈ rest) ∧
        (failure = none → (s.ops o).receiverDone = .done)
  | .ended _ => ∀ o ∈ (s.transfers e).ops, (s.ops o).completed = true

/-- The operations that a watcher has still to complete are its own. -/
def RestAgrees (s : State D L) (e : ℕ) : Prop :=
  ∀ rest failure, (s.transfers e).task = .completing rest failure →
    ∀ o ∈ rest, o ∈ (s.transfers e).ops

/-- What the phase of a send says about the account. -/
def SendAgrees (s : State D L) (A : Account c) (i : ℕ) : Prop :=
  match (s.sends i).phase with
  | .putting held remaining => 0 < remaining ∧ held.Nodup ∧
      ∀ o, o ∈ held ↔ A.owner o = some (.send i)
  | _ => ∀ o, A.owner o ≠ some (.send i)

/-- The engine agrees with its account. -/
structure Accounts (s : State D L) (A : Account c) : Prop where
  credits : s.credits = A.pool.free
  out : ∀ o, o ∈ A.pool.out ↔ o < s.opCount ∧ (s.ops o).completed = false
  back : ∀ o, o ∈ A.pool.back ↔ o < s.opCount ∧ (s.ops o).completed = true
  releases : ∀ o, A.releases o = if o ∈ A.pool.back then 1 else 0
  owned : ∀ o, A.owner o ≠ none ↔ o < s.opCount
  sends : ∀ i, SendAgrees s A i
  transfers : ∀ e o, o ∈ (s.transfers e).ops ↔ A.owner o = some (.transfer e)
  sending : ∀ {o i}, A.owner o = some (.send i) → s.ops o = .new
  nobody : ∀ {o}, A.owner o = some .nobody → (s.ops o).completed = false
  tasks : ∀ e, TaskAgrees s e
  rests : ∀ e, RestAgrees s e
  acked : ∀ e, (s.transfers e).task.early = false → (s.transfers e).ack.done = true
  unused : ∀ e, s.transferCount ≤ e → (s.transfers e).ops = [] ∧ (s.transfers e).task = .unarmed
  pending : ∀ {objectId e}, s.pending objectId = some e →
    e < s.transferCount ∧ (s.transfers e).objectId = objectId ∧
      ∀ failure, (s.transfers e).task ≠ .ended failure
  unended : ∀ {e}, e < s.transferCount → (∀ failure, (s.transfers e).task ≠ .ended failure) →
    s.pending (s.transfers e).objectId = some e

theorem accounts_init (c : ℕ) (jobs : ℕ → SendJob D L) :
    Accounts (State.init c jobs) (Account.empty c) where
  credits := rfl
  out o := by simp [Account.empty, Pool.full, State.init]
  back o := by simp [Account.empty, Pool.full, State.init]
  releases o := by simp [Account.empty, Pool.full]
  owned o := by simp [Account.empty, State.init]
  sends i o := by simp [Account.empty]
  transfers e o := by simp [Account.empty, State.init]
  sending h := by simp [Account.empty] at h
  nobody h := by simp [Account.empty] at h
  tasks e o h := by simp [State.init] at h
  rests e rest failure h := by simp [State.init] at h
  acked e h := by simp [State.init, Watcher.early] at h
  unused e _ := ⟨rfl, rfl⟩
  pending h := by simp [State.init] at h
  unended h := by simp [State.init] at h

end Omni.Comm
