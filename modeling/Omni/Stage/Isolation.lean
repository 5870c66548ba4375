import Omni.Library.DepthFirst
import Omni.Library.Transition

/-!
# Payloads handed over without a copy

A projected payload goes to a stage of the same process as it is, if its data shares no mutable
container with the data of the original one. Then no stage notices what the other one writes.
-/

namespace Omni.Stage

open DepthFirst Relation Function

variable {ι : Type}

/-- A Python object and the objects in it. The keys of a dict are not looked at. -/
inductive PyObject (ι : Type)
  | dict (values : List ι)
  | list (items : List ι)
  | set (items : List ι)
  | tuple (items : List ι)
  | frozenset (items : List ι)
  | bytearray
  /-- Anything else, such as a tensor or a string. -/
  | leaf

/-- `isinstance(obj, (dict, list, set, bytearray))`. -/
def PyObject.isMutable : PyObject ι → Bool
  | .dict _ | .list _ | .set _ | .bytearray => true
  | .tuple _ | .frozenset _ | .leaf => false

/-- `_iter_container_children`. -/
def PyObject.children : PyObject ι → List ι
  | .dict items | .list items | .set items | .tuple items | .frozenset items => items
  | .bytearray | .leaf => []

/-- The objects by their `id`. -/
abbrev Heap (ι : Type) := ι → PyObject ι

namespace Heap

/-- What is in an object. -/
def children (heap : Heap ι) (obj : ι) : List ι := (heap obj).children

variable [DecidableEq ι]

/-- `_collect_mutable_container_ids`, which raises a `RecursionError` below `depth` levels. -/
def collectMutableContainerIds (heap : Heap ι) (depth : ℕ) (obj : ι) : Option (Finset ι) :=
  (walk heap.children (fun obj ids => if (heap obj).isMutable then insert obj ids else ids)
    (fun _ => false) depth obj (∅, ∅)).map Prod.fst

/-- `_contains_mutable_container_id`. -/
def containsMutableContainerId (heap : Heap ι) (depth : ℕ) (obj : ι) (originalIds : Finset ι) :
    Option Bool :=
  (walk heap.children (fun obj found => found || (heap obj).isMutable && decide (obj ∈ originalIds))
    id depth obj (false, ∅)).map Prod.fst

/-- `_shares_mutable_container`. -/
def sharesMutableContainer (heap : Heap ι) (depth : ℕ) (original projected : ι) : Option Bool := do
  let originalIds ← heap.collectMutableContainerIds depth original
  if originalIds = ∅ then some false
  else heap.containsMutableContainerId depth projected originalIds

end Heap

/-- What a projector is given or returns. -/
inductive Projected (ι : Type)
  | stagePayload (self data : ι)
  | other (self : ι) (typeName : String)

/-- Its `id`. -/
def Projected.self : Projected ι → ι
  | .stagePayload self _ | .other self _ => self

/-- `_is_isolated_projected_payload`. -/
def Heap.isIsolatedProjectedPayload [DecidableEq ι] (heap : Heap ι) (depth : ℕ)
    (original projected : Projected ι) (projectorPresent : Bool) : Except String Bool :=
  if projectorPresent = false ∨ projected.self = original.self then .ok false
  else match original, projected with
    | .other _ typeName, _ => .error ("projected local-object dispatch requires the original " ++
        s!"payload to be StagePayload, got {typeName}")
    | .stagePayload _ _, .other _ typeName => .error ("projected local-object dispatch requires " ++
        s!"projectors to return StagePayload, got {typeName}")
    | .stagePayload _ data, .stagePayload _ projectedData =>
      if projectedData = data then .ok false
      else match heap.sharesMutableContainer depth data projectedData with
        | some shares => .ok !shares
        | none => .error "maximum recursion depth exceeded"

section Shares

variable [DecidableEq ι] {heap : Heap ι} {depth : ℕ} {original projected x : ι} {live : Finset ι}

/-- Mutable containers are collected, and whatever else is passed over. -/
theorem mem_foldl_insert (path : List ι) (ids : Finset ι) :
    x ∈ path.foldl (fun ids obj => if (heap obj).isMutable then insert obj ids else ids) ids ↔
      x ∈ ids ∨ x ∈ path ∧ (heap x).isMutable = true := by
  induction path generalizing ids with
  | nil => simp
  | cons y path ih =>
    rw [List.foldl_cons, ih]
    split_ifs with hy
    · simp only [Finset.mem_insert, List.mem_cons]
      grind
    · simp only [List.mem_cons]
      grind

omit [DecidableEq ι] in
/-- A flag is set by the first object that sets it. -/
theorem foldl_or (path : List ι) (found : Bool) (p : ι → Bool) :
    path.foldl (fun found obj => found || p obj) found = (found || path.any p) := by
  induction path generalizing found with
  | nil => simp
  | cons y path ih => rw [List.foldl_cons, ih, List.any_cons, Bool.or_assoc]

/-- The check ends and says whether some mutable container is reached from both. -/
theorem sharesMutableContainer_iff (hclosed : ∀ x ∈ live, ∀ y ∈ heap.children x, y ∈ live)
    (hdepth : live.card < depth) (horiginal : original ∈ live) (hprojected : projected ∈ live) :
    ∃ shares, heap.sharesMutableContainer depth original projected = some shares ∧
      (shares = true ↔ ∃ x, Reaches heap.children original x ∧ Reaches heap.children projected x ∧
        (heap x).isMutable = true) := by
  obtain ⟨path, ⟨ids, seen⟩, hcollect, hwalked⟩ := exists_walk
    (fun obj ids => if (heap obj).isMutable then insert obj ids else ids) (fun _ => false)
    (r := ((∅ : Finset ι), ∅)) hclosed horiginal (by simpa using hdepth)
  have hids : ∀ x, x ∈ ids ↔ Reaches heap.children original x ∧ (heap x).isMutable = true := by
    intro x
    have hvalue : ids = _ := hwalked.value
    rw [← hwalked.mem_iff rfl, hvalue, mem_foldl_insert]
    simp
  obtain ⟨path', ⟨found, seen'⟩, hcontains, hwalked'⟩ := exists_walk
    (fun obj found => found || (heap obj).isMutable && decide (obj ∈ ids)) id (r := (false, ∅))
    hclosed hprojected (by simpa using hdepth)
  have hfound : found = path'.any fun obj => (heap obj).isMutable && decide (obj ∈ ids) := by
    have hvalue : found = _ := hwalked'.value
    rw [hvalue, foldl_or, Bool.false_or]
  simp only [Heap.sharesMutableContainer, Heap.collectMutableContainerIds, hcollect,
    Option.map_some, Option.bind_eq_bind, Option.bind_some]
  split_ifs with hempty
  · refine ⟨false, rfl, iff_of_false Bool.false_ne_true ?_⟩
    rintro ⟨x, horiginal, -, hmutable⟩
    simpa [hempty] using (hids x).mpr ⟨horiginal, hmutable⟩
  · refine ⟨found, by simp [Heap.containsMutableContainerId, hcontains], fun h => ?_, ?_⟩
    · simp only [hfound, List.any_eq_true, Bool.and_eq_true, decide_eq_true_eq, hids] at h
      obtain ⟨x, hx, hmutable, horiginal, -⟩ := h
      obtain ⟨_, hstart, hreach⟩ := hwalked'.reached x hx
      exact ⟨x, horiginal, List.mem_singleton.mp hstart ▸ hreach, hmutable⟩
    · rintro ⟨x, horiginal, hprojected, hmutable⟩
      by_contra hnot
      have hx := (hwalked'.mem_iff (Bool.eq_false_iff.mpr hnot)).mpr hprojected
      refine hnot (hfound ▸ List.any_eq_true.mpr ⟨x, hx, ?_⟩)
      simp [hmutable, hids, horiginal]

end Shares

/-- The check ends for payloads of a finite heap, and lets a projected payload through exactly if it
and its data are new and no mutable container is reached from the data of both. -/
theorem isolated_iff [DecidableEq ι] {heap : Heap ι} {depth : ℕ} {live : Finset ι} {data data' : ι}
    (p p' : ι) (hclosed : ∀ x ∈ live, ∀ y ∈ heap.children x, y ∈ live) (hdata : data ∈ live)
    (hdata' : data' ∈ live) (hdepth : live.card < depth) :
    ∃ isolated, heap.isIsolatedProjectedPayload depth (.stagePayload p data)
        (.stagePayload p' data') true = .ok isolated ∧
      (isolated = true ↔ p' ≠ p ∧ data' ≠ data ∧ ∀ x, Reaches heap.children data x →
        Reaches heap.children data' x → (heap x).isMutable = false) := by
  obtain ⟨shares, hshares, hiff⟩ := sharesMutableContainer_iff hclosed hdepth hdata hdata'
  by_cases hself : p' = p
  · exact ⟨false, by simp [Heap.isIsolatedProjectedPayload, Projected.self, hself], by simp [hself]⟩
  by_cases hsame : data' = data
  · exact ⟨false, by simp [Heap.isIsolatedProjectedPayload, hsame], by simp [hsame]⟩
  refine ⟨!shares, ?_, ?_⟩
  · simp [Heap.isIsolatedProjectedPayload, Projected.self, hself, hsame, hshares]
  · rw [Bool.not_eq_true', ← Bool.not_eq_true, hiff]
    simp [hself, hsame]

/-- Two dicts with the same tensor. -/
def twoDicts : Heap ℕ
  | 0 | 1 => .dict [2]
  | _ => .leaf

theorem twoDicts_closed :
    ∀ x ∈ ({0, 1, 2} : Finset ℕ), ∀ y ∈ twoDicts.children x, y ∈ ({0, 1, 2} : Finset ℕ) := by
  decide

theorem isolated_iff_dicts : ∃ isolated, twoDicts.isIsolatedProjectedPayload 4 (.stagePayload 7 0)
    (.stagePayload 8 1) true = .ok isolated ∧ (isolated = true ↔ 8 ≠ 7 ∧ 1 ≠ 0 ∧
      ∀ x, Reaches twoDicts.children 0 x → Reaches twoDicts.children 1 x →
        (twoDicts x).isMutable = false) :=
  isolated_iff 7 8 twoDicts_closed (by decide) (by decide) (by decide)

/-- The stages that the two payloads belong to. -/
inductive Holder
  | sender
  | receiver
  deriving DecidableEq

/-- Two stages of one process, with the objects that their coroutines hold. -/
structure Shared (ι : Type) where
  heap : Heap ι
  held : Holder → List ι

namespace Shared

/-- Each stage holds the data of its payload. -/
def start (heap : Heap ι) (data data' : ι) : Shared ι where
  heap := heap
  held | .sender => [data] | .receiver => [data']

/-- The object can be got at by a stage. -/
def Reaches (s : Shared ι) (holder : Holder) (x : ι) : Prop :=
  ∃ y ∈ s.held holder, DepthFirst.Reaches s.heap.children y x

/-- What a stage can do: it builds an object or changes one, or lets go of one. -/
inductive Move (ι : Type)
  | put (holder : Holder) (x : ι) (obj : PyObject ι)
  | drop (holder : Holder) (x : ι)

/-- The stage that makes a move. -/
def Move.holder : Move ι → Holder
  | .put holder _ _ | .drop holder _ => holder

/-- A stage changes mutable containers that it can get at, and builds objects where none is that can
be got at. What it puts into them it can get at. -/
def Allowed (s : Shared ι) : Move ι → Prop
  | .put holder x obj =>
    (s.Reaches holder x ∧ (s.heap x).isMutable = true ∨ ∀ other, ¬s.Reaches other x) ∧
      ∀ y ∈ obj.children, s.Reaches holder y
  | .drop _ _ => True

/-- The stages can both get at immutable objects only. -/
def Apart (s : Shared ι) : Prop :=
  ∀ x, s.Reaches .sender x → s.Reaches .receiver x → (s.heap x).isMutable = false

/-- A stage can get at the same objects as before, and these are as they were. -/
structure SameView (s t : Shared ι) (holder : Holder) : Prop where
  reaches : ∀ x, t.Reaches holder x ↔ s.Reaches holder x
  heap : ∀ x, s.Reaches holder x → t.heap x = s.heap x

variable {s t u : Shared ι} {holder other : Holder} {x y : ι} {move : Move ι}

theorem Apart.of_ne (h : s.Apart) (hne : other ≠ holder) (hx : s.Reaches holder x)
    (hother : s.Reaches other x) : (s.heap x).isMutable = false := by
  cases holder <;> cases other
  · exact absurd rfl hne
  · exact h x hx hother
  · exact h x hother hx
  · exact absurd rfl hne

theorem SameView.trans (h : SameView s t holder) (h' : SameView t u holder) :
    SameView s u holder :=
  ⟨fun x => (h'.reaches x).trans (h.reaches x),
    fun x hx => (h'.heap x ((h.reaches x).mpr hx)).trans (h.heap x hx)⟩

/-- What can be got at is as it was, if no object that can be got at has changed. -/
theorem sameView_of_heap (hheld : t.held holder = s.held holder)
    (hheap : ∀ x, s.Reaches holder x → t.heap x = s.heap x) : SameView s t holder := by
  refine ⟨fun x => ⟨?_, ?_⟩, hheap⟩
  · rintro ⟨y, hy, hreach⟩
    refine ⟨y, hheld ▸ hy, ?_⟩
    induction hreach with
    | refl => exact .refl
    | tail _ hz ih =>
      refine ih.tail ?_
      rwa [Heap.children, hheap _ ⟨y, hheld ▸ hy, ih⟩] at hz
  · rintro ⟨y, hy, hreach⟩
    refine ⟨y, hheld ▸ hy, ?_⟩
    induction hreach with
    | refl => exact .refl
    | tail hprev hz ih =>
      refine ih.tail ?_
      rwa [Heap.children, hheap _ ⟨y, hy, hprev⟩]

variable [DecidableEq ι]

/-- The state after a move. -/
def step (s : Shared ι) : Move ι → Option (Shared ι)
  | .put holder x obj =>
    some ⟨update s.heap x obj, update s.held holder (x :: s.held holder)⟩
  | .drop holder x => some ⟨s.heap, update s.held holder ((s.held holder).erase x)⟩

/-- The stage that makes a move can get at no more than before, but for the object it has put. -/
theorem reaches_of_put {obj : PyObject ι} (hitems : ∀ y ∈ obj.children, s.Reaches holder y)
    (hstep : s.step (.put holder x obj) = some t) (hy : t.Reaches holder y) :
    y = x ∨ s.Reaches holder y := by
  cases hstep
  obtain ⟨z, hz, hreach⟩ := hy
  induction hreach with
  | refl =>
    have hz' : z ∈ x :: s.held holder := by simpa using hz
    exact (List.mem_cons.mp hz').imp_right fun hz => ⟨z, hz, .refl⟩
  | @tail v w _ hw ih =>
    by_cases hv : v = x
    · subst hv
      simp only [Heap.children, update_self] at hw
      exact .inr (hitems w hw)
    · simp only [Heap.children, update_of_ne hv] at hw
      obtain ⟨z', hz', hreach⟩ := ih.resolve_left hv
      exact .inr ⟨z', hz', hreach.tail hw⟩

theorem Apart.step (h : s.Apart) (hallowed : s.Allowed move) (hstep : s.step move = some t) :
    t.Apart ∧ ∀ other ≠ move.holder, SameView s t other := by
  cases move with
  | drop holder x =>
    cases hstep
    have hless : ∀ other y, Reaches ⟨s.heap, update s.held holder ((s.held holder).erase x)⟩
        other y → s.Reaches other y := by
      rintro other y ⟨z, hz, hreach⟩
      refine ⟨z, ?_, hreach⟩
      by_cases heq : other = holder
      · subst heq
        exact List.mem_of_mem_erase (by simpa using hz)
      · simpa [heq] using hz
    exact ⟨fun y hsender hreceiver => h y (hless _ y hsender) (hless _ y hreceiver),
      fun other hne => sameView_of_heap (update_of_ne hne _ _) fun _ _ => rfl⟩
  | put holder x obj =>
    have hfree : ∀ other ≠ holder, ¬s.Reaches other x := by
      intro other hne hother
      rcases hallowed.1 with ⟨hx, hmutable⟩ | hnone
      · simp [h.of_ne hne hx hother] at hmutable
      · exact hnone other hother
    have hview : ∀ other ≠ holder, SameView s t other := by
      intro other hne
      cases hstep
      refine sameView_of_heap (update_of_ne hne _ _) fun y hy => update_of_ne ?_ _ _
      rintro rfl
      exact hfree other hne hy
    refine ⟨?_, hview⟩
    -- one of the two holders has moved, and the other one cannot get at what was put
    have hkey : ∀ other ≠ holder, ∀ y, t.Reaches holder y → t.Reaches other y →
        (t.heap y).isMutable = false := by
      intro other hne y hy hother
      have hother' := ((hview other hne).reaches y).mp hother
      rw [(hview other hne).heap y hother']
      rcases reaches_of_put hallowed.2 hstep hy with rfl | hy'
      · exact absurd hother' (hfree other hne)
      · exact h.of_ne hne hy' hother'
    intro y hsender hreceiver
    cases holder
    · exact hkey .receiver nofun y hsender hreceiver
    · exact hkey .sender nofun y hreceiver hsender

end Shared

/-- **No stage notices the other's writes.** If the check lets a projected payload be handed over as
it is, then after every run in which both stages change what they can get at from the data of their
payloads, whatever one of them does leaves all that the other one can get at as it was. -/
theorem handed_over_apart [DecidableEq ι] {heap : Heap ι} {depth : ℕ} {live : Finset ι}
    {p p' data data' : ι}
    {s t : Shared ι} {as bs : List (Shared.Move ι)} {holder : Holder}
    (hclosed : ∀ x ∈ live, ∀ y ∈ heap.children x, y ∈ live) (hdata : data ∈ live)
    (hdata' : data' ∈ live) (hdepth : live.card < depth)
    (hisolated : heap.isIsolatedProjectedPayload depth (.stagePayload p data)
      (.stagePayload p' data') true = .ok true)
    (hrun : Transition.Run Shared.step Shared.Allowed (.start heap data data') as s)
    (hrest : Transition.Run Shared.step (fun s move => s.Allowed move ∧ holder ≠ move.holder)
      s bs t) : Shared.SameView s t holder := by
  obtain ⟨shares, hshares, hiff⟩ := sharesMutableContainer_iff hclosed hdepth hdata hdata'
  have hnot : shares = false := by
    simp only [Heap.isIsolatedProjectedPayload, hshares] at hisolated
    split_ifs at hisolated <;> simp_all
  have hapart : s.Apart := by
    refine hrun.invariant (I := Shared.Apart) (fun _ _ _ h hok hstep => (h.step hok hstep).1) ?_
    rintro x ⟨y, hy, hsender⟩ ⟨z, hz, hreceiver⟩
    obtain rfl : y = data := List.mem_singleton.mp hy
    obtain rfl : z = data' := List.mem_singleton.mp hz
    by_contra hmutable
    have htrue := hiff.mpr ⟨x, hsender, hreceiver, Bool.not_eq_false _ |>.mp hmutable⟩
    simp [hnot] at htrue
  have hinv : t.Apart ∧ Shared.SameView s t holder := by
    refine hrest.invariant (I := fun t => t.Apart ∧ Shared.SameView s t holder)
      (fun u move v h hok hstep => ?_) ⟨hapart, fun _ => .rfl, fun _ _ => rfl⟩
    obtain ⟨hapart', hview⟩ := h.1.step hok.1 hstep
    exact ⟨hapart', h.2.trans (hview holder hok.2)⟩
  exact hinv.2

/-- The sender writes its dict, and then the receiver clears its own. -/
theorem handed_over_apart_dicts : ∃ s t : Shared ℕ, s.heap 0 = .dict [2, 2] ∧
    t.heap 1 = .dict [] ∧ Shared.SameView s t .sender := by
  have hisolated : twoDicts.isIsolatedProjectedPayload 4 (.stagePayload 7 0) (.stagePayload 8 1)
      true = .ok true := rfl
  have hwrite : Shared.Allowed (.start twoDicts 0 1) (.put .sender 0 (.dict [2, 2])) := by
    refine ⟨.inl ⟨⟨0, .head _, .refl⟩, rfl⟩, fun y hy => ?_⟩
    obtain rfl : y = 2 := by simpa [PyObject.children] using hy
    exact ⟨0, .head _, .single (.head _)⟩
  let s := ((Shared.start twoDicts 0 1).step (.put .sender 0 (.dict [2, 2]))).get rfl
  have hclear : Shared.Allowed s (.put .receiver 1 (.dict [])) :=
    ⟨.inl ⟨⟨1, .head _, .refl⟩, rfl⟩, nofun⟩
  exact ⟨s, _, rfl, rfl, handed_over_apart twoDicts_closed (by decide) (by decide) (by decide)
    hisolated (.single hwrite rfl) (.single ⟨hclear, nofun⟩ rfl)⟩

end Omni.Stage
