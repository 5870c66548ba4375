import Omni.Comm.Positions
import Mathlib.Algebra.BigOperators.Group.List.Basic
import Mathlib.Data.List.Forall2
import Mathlib.Tactic.Linarith

/-!
# Payloads come back

What `read_payload` makes of what `write_payload` has written: the same tree, if tensors at
the same path are alike, can be viewed as bytes, and do not all lack elements.
-/

namespace Omni.Comm

open List

variable {L R D : Type} {payload : StagePayload R Storage L} {entry : TensorMeta}
  {ref : DataRef R L}

/-- `tensor.contiguous()` can be viewed as bytes. -/
def Tensor.Viewable (tensor : Tensor Storage) : Prop :=
  tensor.data.elementSize = 1 ∨ tensor.shape ≠ [] ∧ tensor.data.lastStride = 1

/-- A tensor of a dtype in `_TORCH_DTYPES`, with the bytes of its elements. -/
structure Tensor.WellFormed (tensor : Tensor Storage) : Prop where
  dtype : torchDtypes.lookup tensor.dtype = some tensor.data.elementSize
  bytes : tensor.data.bytes.length = tensor.shape.prod * tensor.data.elementSize

/-- The shape, the dtype and the bytes of a tensor. -/
def Tensor.content (tensor : Tensor Storage) : Tensor (List UInt8) :=
  ⟨tensor.shape, tensor.dtype, "", tensor.data.bytes⟩

/-- The tensor that `read_payload` makes of the bytes of a tensor. -/
def Tensor.fetched (tensor : Tensor Storage) : Tensor Storage :=
  ⟨tensor.shape, tensor.dtype, "cpu", ⟨tensor.data.bytes, tensor.data.elementSize, 1⟩⟩

variable {tensor : Tensor Storage}

theorem byteView_of_viewable (h : tensor.Viewable) :
    byteView tensor = .ok tensor.data.bytes := by
  unfold byteView
  rcases h with hsize | ⟨hshape, hstride⟩
  · rw [if_pos hsize]
  · rw [if_neg hshape, if_neg (not_not_intro hstride), ite_self]

theorem viewable_of_byteView {bytes : List UInt8} (h : byteView tensor = .ok bytes) :
    tensor.Viewable := by
  unfold byteView at h
  split at h
  next hsize => exact .inl hsize
  · split at h
    · cases h
    next hshape =>
      split at h
      · cases h
      next hstride => exact .inr ⟨hshape, not_not.mp hstride⟩

theorem elementSize_pos (h : tensor.WellFormed) :
    0 < tensor.data.elementSize := by
  have hall : ∀ entry ∈ torchDtypes, 0 < entry.2 := by decide
  obtain ⟨before, after, htable, -⟩ := lookup_eq_some_iff.mp h.dtype
  exact hall (tensor.dtype, tensor.data.elementSize) (htable ▸ by simp)

/-- An entry describes where the bytes of a tensor are in the buffer. -/
structure Describes (buffer : List UInt8) (entry : TensorMeta)
    (kept : String × Tensor Storage) : Prop where
  path : entry.path = kept.1
  shape : entry.shape = kept.2.shape
  dtype : entry.dtype = kept.2.dtype
  within : entry.offset + entry.size ≤ buffer.length
  slice : (buffer.drop entry.offset).take entry.size = kept.2.data.bytes
  aligned : dtypeAlignment kept.2.data.elementSize ∣ entry.offset

/-- More bytes behind the buffer change nothing. -/
theorem Describes.append {buffer : List UInt8} {kept : String × Tensor Storage}
    (h : Describes buffer entry kept) (more : List UInt8) :
    Describes (buffer ++ more) entry kept := { h with
  within := by
    have hwithin := h.within
    rw [length_append]
    omega
  slice := by
    have hwithin := h.within
    rw [drop_append_of_le_length (by omega), take_append_of_le_length
      (by rw [length_drop]; omega), h.slice] }

/-- What the loop of `_pack_tensors` has done for the tensors so far. -/
structure Packing.Holds (packing : Packing) (kept : List (String × Tensor Storage)) : Prop where
  offset : packing.offset = packing.chunks.flatten.length
  entries : List.Forall₂ (Describes packing.chunks.flatten) packing.entries kept
  chunks : packing.chunks = [] ↔ kept = []
  empty : packing.chunks.flatten = [] ↔ ∀ entry ∈ kept, entry.2.data.bytes = []

theorem Packing.holds_nil : Packing.Holds ⟨[], [], 0⟩ [] where
  offset := rfl
  entries := .nil
  chunks := by simp
  empty := by simp

/-- The padding leads to the next aligned offset. -/
theorem dvd_add_padOffset (offset elementSize : ℕ) : dtypeAlignment elementSize ∣
    offset + padOffset offset (dtypeAlignment elementSize) := by
  have hpos : 0 < (dtypeAlignment elementSize : ℤ) := by
    unfold dtypeAlignment
    omega
  have hmod := Int.emod_nonneg (-(offset : ℤ)) hpos.ne'
  rw [← Int.natCast_dvd_natCast, Nat.cast_add, padOffset, Int.toNat_of_nonneg hmod]
  have hdiv := Int.emod_add_mul_ediv (-(offset : ℤ)) (dtypeAlignment elementSize)
  exact ⟨-(-(offset : ℤ) / dtypeAlignment elementSize), by linarith⟩

theorem padOffset_zero (alignment : ℕ) : padOffset 0 alignment = 0 := by
  simp [padOffset]

/-- The chunks after one more tensor, as bytes. -/
theorem flatten_add (chunks : List (List UInt8)) (padding : ℕ) (flat : List UInt8) :
    ((if padding = 0 then chunks else chunks ++ [List.replicate padding 0]) ++ [flat]).flatten =
      chunks.flatten ++ (List.replicate padding 0 ++ flat) := by
  by_cases hpadding : padding = 0
  · simp [hpadding]
  · simp [hpadding]

variable {packing : Packing} {kept : List (String × Tensor Storage)}

theorem Packing.Holds.add (h : packing.Holds kept) (path : String) (hview : tensor.Viewable) :
    ∃ packing', packing.add path tensor = .ok packing' ∧
      packing'.Holds (kept ++ [(path, tensor)]) := by
  set padding := padOffset packing.offset (dtypeAlignment tensor.data.elementSize) with hpadding
  have hlength : (packing.chunks.flatten ++ (List.replicate padding 0 ++
      tensor.data.bytes)).length = packing.offset + padding + tensor.data.bytes.length := by
    rw [length_append, length_append, length_replicate, ← h.offset]
    omega
  refine ⟨_, by rw [Packing.add, byteView_of_viewable hview]; rfl, ?_, ?_, ?_, ?_⟩
  · rw [flatten_add, ← hpadding, hlength]
  · rw [flatten_add, ← hpadding]
    refine rel_append ?_ (.cons ⟨rfl, rfl, rfl, ?_, ?_, ?_⟩ .nil)
    · exact h.entries.imp fun entry kept hentry => hentry.append _
    · rw [hlength]
    · have hfront : (packing.chunks.flatten ++ List.replicate padding 0).length =
          packing.offset + padding := by
        rw [length_append, length_replicate, ← h.offset]
      rw [← append_assoc, ← hfront, drop_left, take_length]
    · exact hpadding ▸ dvd_add_padOffset packing.offset tensor.data.elementSize
  · simp
  · rw [flatten_add, ← hpadding, append_eq_nil_iff, h.empty, forall_mem_append]
    refine and_congr_right fun hkept => ?_
    have hoffset : packing.offset = 0 := by rw [h.offset, h.empty.mpr hkept, length_nil]
    rw [hpadding, hoffset, padOffset_zero]
    simp

theorem packLoop_of_viewable (h : packing.Holds kept) (tensors : List (String × Tensor Storage))
    (hview : ∀ entry ∈ tensors, entry.2.Viewable) :
    ∃ packing', packLoop packing tensors = .ok packing' ∧ packing'.Holds (kept ++ tensors) := by
  induction tensors generalizing packing kept with
  | nil => exact ⟨packing, rfl, by simpa using h⟩
  | cons entry tensors ih =>
    obtain ⟨hentry, hrest⟩ := forall_mem_cons.mp hview
    obtain ⟨next, hadd, hnext⟩ := h.add entry.1 hentry
    obtain ⟨packing', hloop, hholds⟩ := ih hnext hrest
    refine ⟨packing', ?_, by simpa using hholds⟩
    simp only [packLoop, hadd]
    exact hloop

theorem viewable_of_packLoop {packing' : Packing} {tensors : List (String × Tensor Storage)}
    (h : packLoop packing tensors = .ok packing') :
    ∀ entry ∈ tensors, entry.2.Viewable := by
  induction tensors generalizing packing with
  | nil => simp
  | cons entry tensors ih =>
    rw [packLoop] at h
    cases hview : byteView entry.2 with
    | error error =>
      rw [Packing.add, hview] at h
      cases h
    | ok bytes =>
      rw [Packing.add, hview] at h
      exact forall_mem_cons.mpr ⟨viewable_of_byteView hview, ih h⟩

/-- Reading an entry gives the bytes back. -/
theorem readEntry_of_describes {buffer : List UInt8} {kept : String × Tensor Storage}
    (h : Describes buffer entry kept) (hwf : kept.2.WellFormed) :
    readEntry buffer entry = .ok kept.2.fetched := by
  have hpos := elementSize_pos hwf
  have haligned : kept.2.data.elementSize ∣ entry.offset := by
    have haligned := h.aligned
    rwa [dtypeAlignment, max_eq_left (by omega)] at haligned
  have hdtype : torchDtype entry.dtype = .ok kept.2.data.elementSize := by
    rw [torchDtype, h.dtype, hwf.dtype]
  simp only [readEntry, hdtype, h.slice, h.shape, bind, Except.bind]
  rw [if_neg, if_neg]
  · rw [h.dtype]
    rfl
  · exact not_not_intro hwf.bytes
  · rintro ⟨-, hmod | hmod⟩
    · exact hmod (hwf.bytes ▸ Nat.mul_mod_left _ _)
    · exact hmod (Nat.mod_eq_zero_of_dvd haligned)

theorem readEntries_of_describes {buffer : List UInt8} {entries : List TensorMeta}
    (h : List.Forall₂ (Describes buffer) entries kept) (hwf : ∀ entry ∈ kept, entry.2.WellFormed)
    (tensors : List (String × Tensor Storage)) :
    readEntries buffer tensors entries =
      .ok (updateTensors tensors (kept.map fun entry => (entry.1, entry.2.fetched))) := by
  induction h generalizing tensors with
  | nil => rfl
  | cons hentry _ ih =>
    obtain ⟨hhead, hrest⟩ := forall_mem_cons.mp hwf
    simp only [readEntries, readEntry_of_describes hentry hhead, bind, Except.bind, hentry.path]
    exact ih hrest _

theorem lookup_update (tensors childTensors : List (String × Tensor D)) (path : String) :
    (updateTensors tensors childTensors).lookup path =
      (lastAt childTensors path).or (tensors.lookup path) := by
  unfold updateTensors
  induction childTensors generalizing tensors with
  | nil => simp [lastAt]
  | cons entry childTensors ih =>
    rw [foldl_cons, ih, lookup_assign, lastAt_cons, Option.or_assoc]
    congr 1
    by_cases hpath : path = entry.1
    · simp [hpath]
    · simp [hpath]

theorem lastAt_map {D' : Type} (f : Tensor D → Tensor D') (tensors : List (String × Tensor D))
    (path : String) : lastAt (tensors.map fun entry => (entry.1, f entry.2)) path =
      (lastAt tensors path).map f := by
  induction tensors with
  | nil => rfl
  | cons entry tensors ih =>
    rw [map_cons, lastAt_cons, lastAt_cons, ih]
    by_cases hpath : path = entry.1
    · simp [hpath]
    · simp [hpath]

variable {tensors : List (String × Tensor D)}

theorem mem_of_lastAt {path : String} {tensor : Tensor D} (h : lastAt tensors path = some tensor) :
    (path, tensor) ∈ tensors := by
  obtain ⟨before, after, hsplit, -⟩ := lookup_eq_some_iff.mp h
  exact mem_reverse.mp (hsplit ▸ by simp)

theorem lastAt_of_mem {entry : String × Tensor D} (h : entry ∈ tensors) :
    ∃ tensor, lastAt tensors entry.1 = some tensor := by
  cases hlast : lastAt tensors entry.1 with
  | some tensor => exact ⟨tensor, rfl⟩
  | none =>
    have hne := lookup_eq_none_iff.mp hlast entry (mem_reverse.mpr h)
    simp at hne

/-- What a tree carries: its structure and the shape, dtype and bytes of each tensor. -/
def Tree.contents (tree : Tree Storage L) : Tree (List UInt8) L :=
  replaceTensors (fun _ tensor => tensor.content) tree ""

/-- `read_payload` returns what `write_payload` was given. -/
def ComesBack (requestId : String) (payload : StagePayload R Storage L)
    (fromStage toStage : Option String) : Prop :=
  ∃ ref result, writePayload requestId payload fromStage toStage = .ok ref ∧
    readPayload ref = .ok result ∧ result.requestId = payload.requestId ∧
    result.request = payload.request ∧ result.data.contents = payload.data.contents

/-- The trees that `write_payload` can send. -/
structure Tree.Sendable (tree : Tree Storage L) : Prop where
  agree : ∀ first ∈ positions tree "", ∀ second ∈ positions tree "",
    first.1 = second.1 → first.2.content = second.2.content
  viewable : ∀ path tensor, lastAt (positions tree "") path = some tensor → tensor.Viewable
  bytes : positions tree "" = [] ∨ ∃ entry ∈ positions tree "", entry.2.data.bytes ≠ []

theorem mem_extract_iff (tree : Tree Storage L) (path : String) (tensor : Tensor Storage) :
    (path, tensor) ∈ (extractTensors tree "").2 ↔ lastAt
    (positions tree "") path = some tensor := by
  rw [mem_iff_lastAt (nodup_extract tree ""), lastAt_extract]

theorem extract_subset {tree : Tree Storage L} {entry : String × Tensor Storage}
    (h : entry ∈ (extractTensors tree "").2) : entry ∈ positions tree "" :=
  mem_of_lastAt ((mem_extract_iff tree entry.1 entry.2).mp h)

/-- The bytes that `_pack_tensors` hands to the relay. -/
def Packing.buffer (packing : Packing) : List UInt8 :=
  if packing.chunks = [] then [0] else packing.chunks.flatten

theorem Packing.Holds.buffer_eq_nil_iff (h : packing.Holds kept) :
    packing.buffer = [] ↔ kept ≠ [] ∧ ∀ entry ∈ kept, entry.2.data.bytes = [] := by
  unfold Packing.buffer
  split
  next hchunks =>
    have hkept := h.chunks.mp hchunks
    simp [hkept]
  next hchunks =>
    have hkept : kept ≠ [] := fun hkept => hchunks (h.chunks.mpr hkept)
    rw [h.empty, and_iff_right hkept]

theorem Packing.Holds.describes (h : packing.Holds kept) :
    List.Forall₂ (Describes packing.buffer) packing.entries kept := by
  have hentries := h.entries
  unfold Packing.buffer
  split
  next hchunks =>
    rw [h.chunks.mp hchunks] at hentries ⊢
    rw [List.forall₂_nil_right_iff.mp hentries]
    exact .nil
  · exact hentries

theorem writePayload_of_packLoop
    (h : packLoop ⟨[], [], 0⟩ (extractTensors payload.data "").2 = .ok packing) (requestId : String)
    (fromStage toStage : Option String) :
    writePayload requestId payload fromStage toStage =
      (shmCreateFromTensor packing.buffer).map fun block =>
        let source := fromStage.getD ""
        let target := toStage.getD ""
        { objectId := s!"{requestId}:payload:{source}:{target}"
          kind := .stagePayload
          block := block
          length := block.length
          header := some ⟨payload.requestId, payload.request, (extractTensors payload.data "").1⟩
          tensors := packing.entries } := by
  simp only [writePayload, packTensors, h, bind, Except.bind]
  rw [Packing.buffer]
  cases shmCreateFromTensor (if packing.chunks = [] then [0] else packing.chunks.flatten) <;> rfl

/-- What is known of a written payload. -/
structure Written (payload : StagePayload R Storage L) (ref : DataRef R L) : Prop where
  kind : ref.kind = .stagePayload
  length : ref.length = ref.block.length
  header : ref.header =
    some ⟨payload.requestId, payload.request, (extractTensors payload.data "").1⟩
  tensors : List.Forall₂ (Describes ref.block) ref.tensors (extractTensors payload.data "").2

/-- A payload is written when its tensors can be viewed and have bytes. -/
theorem writePayload_iff (requestId : String) (payload : StagePayload R Storage L)
    (fromStage toStage : Option String) :
    (∃ ref, writePayload requestId payload fromStage toStage = .ok ref) ↔
      (∀ entry ∈ (extractTensors payload.data "").2, entry.2.Viewable) ∧
      ((extractTensors payload.data "").2 = [] ∨
        ∃ entry ∈ (extractTensors payload.data "").2, entry.2.data.bytes ≠ []) := by
  constructor
  · rintro ⟨ref, hwrite⟩
    cases hloop : packLoop ⟨[], [], 0⟩ (extractTensors payload.data "").2 with
    | error error =>
      simp only [writePayload, packTensors, hloop, bind, Except.bind] at hwrite
      cases hwrite
    | ok packing =>
      have hview := viewable_of_packLoop hloop
      obtain ⟨packing', hloop', hholds⟩ := packLoop_of_viewable Packing.holds_nil _ hview
      obtain rfl : packing = packing' := Except.ok.inj (hloop.symm.trans hloop')
      refine ⟨hview, ?_⟩
      by_contra hnone
      obtain ⟨hkept, hempty⟩ := not_or.mp hnone
      have hbuffer : packing.buffer = [] := hholds.buffer_eq_nil_iff.mpr
        ⟨hkept, fun entry hentry => not_not.mp fun hne => hempty ⟨entry, hentry, hne⟩⟩
      rw [writePayload_of_packLoop hloop, hbuffer] at hwrite
      cases hwrite
  · rintro ⟨hview, hbytes⟩
    obtain ⟨packing, hloop, hholds⟩ := packLoop_of_viewable Packing.holds_nil _ hview
    have hbuffer : packing.buffer.length ≠ 0 := by
      rw [Ne, length_eq_zero_iff, hholds.buffer_eq_nil_iff]
      rintro ⟨hkept, hempty⟩
      rcases hbytes with hnil | ⟨entry, hentry, hne⟩
      · exact hkept hnil
      · exact hne (hempty entry hentry)
    rw [writePayload_of_packLoop hloop, shmCreateFromTensor, if_neg hbuffer]
    exact ⟨_, rfl⟩

theorem written_of_writePayload {requestId : String} {fromStage toStage : Option String}
    (h : writePayload requestId payload fromStage toStage = .ok ref) :
    Written payload ref := by
  have hview := ((writePayload_iff requestId payload fromStage toStage).mp ⟨ref, h⟩).1
  obtain ⟨packing, hloop, hholds⟩ := packLoop_of_viewable Packing.holds_nil _ hview
  rw [writePayload_of_packLoop hloop, shmCreateFromTensor] at h
  split at h
  · cases h
  · cases h
    exact ⟨rfl, rfl, rfl, hholds.describes⟩

/-- The tensor that comes back at the positions with a path. -/
def Tree.returned (tree : Tree Storage L) (path : String) : Tensor Storage :=
  ((lastAt (positions tree "") path).map Tensor.fetched).getD ⟨[], "", "", ⟨[], 1, 1⟩⟩

theorem readPayload_of_written (h : Written payload ref) (hreserved : NoReserved payload.data)
    (hwf : ∀ entry ∈ positions payload.data "", entry.2.WellFormed) :
    readPayload ref = .ok ⟨payload.requestId, payload.request,
      replaceTensors (fun path _ => payload.data.returned path) payload.data ""⟩ := by
  have hbuffer : readTransferBuffer ref = .ok ref.block := by
    rw [readTransferBuffer, h.length, if_neg (lt_irrefl _), Nat.sub_self, replicate_zero,
      append_nil]
  have hentries := readEntries_of_describes h.tensors
    (fun entry hentry => hwf entry (extract_subset hentry)) []
  have hfound : ∀ entry ∈ positions payload.data "",
      (updateTensors [] ((extractTensors payload.data "").2.map
        fun entry => (entry.1, entry.2.fetched))).lookup entry.1 =
          some (payload.data.returned entry.1) := by
    intro entry hentry
    obtain ⟨tensor, hlast⟩ := lastAt_of_mem hentry
    rw [lookup_update, lastAt_map, lastAt_extract, hlast, Tree.returned, hlast]
    rfl
  have hrestore := restore_extract payload.data "" hreserved hfound
  simp only [readPayload, h.kind, h.header, hbuffer, hentries, hrestore, bind, Except.bind]
  rfl

/-- What comes back is alike when tensors at the same path are. -/
theorem contents_returned_iff (tree : Tree Storage L) :
    (replaceTensors (fun path _ => tree.returned path) tree "").contents = tree.contents ↔
      ∀ first ∈ positions tree "", ∀ second ∈ positions tree "",
        first.1 = second.1 → first.2.content = second.2.content := by
  have hreturned {entry : String × Tensor Storage} {tensor : Tensor Storage}
      (hlast : lastAt (positions tree "") entry.1 = some tensor) :
      (tree.returned entry.1).content = tensor.content := by
    rw [Tree.returned, hlast]
    rfl
  rw [Tree.contents, Tree.contents, replace_replace, replace_eq_iff]
  constructor
  · intro hsame first hfirst second hsecond hpath
    rw [← hsame first hfirst, ← hsame second hsecond, hpath]
  · intro hagree entry hentry
    obtain ⟨tensor, hlast⟩ := lastAt_of_mem hentry
    rw [hreturned hlast]
    exact hagree (entry.1, tensor) (mem_of_lastAt hlast) entry hentry rfl

/-- A payload comes back unchanged exactly when tensors at the same path are alike, the last
one at each path can be viewed as bytes, and some tensor has bytes if there is any. -/
theorem comes_back_iff_sendable (requestId : String) (payload : StagePayload R Storage L)
    (fromStage toStage : Option String) (hreserved : NoReserved payload.data)
    (hwf : ∀ entry ∈ positions payload.data "", entry.2.WellFormed) :
    ComesBack requestId payload fromStage toStage ↔ payload.data.Sendable := by
  constructor
  · rintro ⟨ref, result, hwrite, hread, -, -, hcontents⟩
    rw [readPayload_of_written (written_of_writePayload hwrite) hreserved hwf] at hread
    cases hread
    obtain ⟨hview, hbytes⟩ :=
      (writePayload_iff requestId payload fromStage toStage).mp ⟨ref, hwrite⟩
    refine ⟨(contents_returned_iff payload.data).mp hcontents, ?_, ?_⟩
    · exact fun path tensor hlast =>
        hview (path, tensor) ((mem_extract_iff payload.data path tensor).mpr hlast)
    · rcases hbytes with hnil | ⟨entry, hentry, hne⟩
      · refine .inl (eq_nil_iff_forall_not_mem.mpr fun entry hentry => ?_)
        obtain ⟨tensor, hlast⟩ := lastAt_of_mem hentry
        have hmem := (mem_extract_iff payload.data entry.1 tensor).mpr hlast
        exact not_mem_nil (hnil ▸ hmem)
      · exact .inr ⟨entry, extract_subset hentry, hne⟩
  · intro hsend
    obtain ⟨ref, hwrite⟩ := (writePayload_iff requestId payload fromStage toStage).mpr ⟨
      fun entry hentry => hsend.viewable entry.1 entry.2
        ((mem_extract_iff payload.data entry.1 entry.2).mp hentry), by
      rcases hsend.bytes with hnil | ⟨entry, hentry, hne⟩
      · refine .inl (eq_nil_iff_forall_not_mem.mpr fun entry hentry => ?_)
        exact not_mem_nil (hnil ▸ extract_subset hentry)
      · obtain ⟨tensor, hlast⟩ := lastAt_of_mem hentry
        have hsame := hsend.agree entry hentry (entry.1, tensor) (mem_of_lastAt hlast) rfl
        refine .inr ⟨(entry.1, tensor), (mem_extract_iff payload.data entry.1 tensor).mpr hlast, ?_⟩
        rwa [show tensor.data.bytes = entry.2.data.bytes from
          (congrArg Tensor.data hsame).symm]⟩
    exact ⟨ref, _, hwrite,
      readPayload_of_written (written_of_writePayload hwrite) hreserved hwf, rfl, rfl,
      (contents_returned_iff payload.data).mpr hsend.agree⟩

/-- A tensor with one byte. -/
def oneByte (byte : UInt8) : Tensor Storage := ⟨[1], "torch.uint8", "cpu", ⟨[byte], 1, 1⟩⟩

/-- A payload with an object for its data. -/
def dictPayload (entries : List (String × Tree Storage Unit)) : StagePayload Unit Storage Unit :=
  ⟨"r", (), .dict entries⟩

theorem comes_back_iff_sendable_nested :
    NoReserved (dictPayload [("a", .dict [("b", .tensor (oneByte 1))])]).data ∧
      (ComesBack "r" (dictPayload [("a", .dict [("b", .tensor (oneByte 1))])]) none none ↔
        (dictPayload [("a", .dict [("b", .tensor (oneByte 1))])]).data.Sendable) := by
  have hreserved : NoReserved (dictPayload [("a", .dict [("b", .tensor (oneByte 1))])]).data :=
    ⟨by decide, ⟨by decide, trivial, trivial⟩, trivial⟩
  refine ⟨hreserved, comes_back_iff_sendable "r" _ none none hreserved fun entry hentry => ?_⟩
  obtain rfl : entry = ("a.b", oneByte 1) := mem_singleton.mp hentry
  exact ⟨by decide, by decide⟩

/-- The paths of two tensors are the same string, and the second takes the place of the
first. -/
theorem same_path_mixes_tensors :
    ¬ComesBack "r" (dictPayload [("a.b", .tensor (oneByte 1)),
      ("a", .dict [("b", .tensor (oneByte 2))])]) none none := by
  rintro ⟨ref, result, hwrite, hread, -, -, hcontents⟩
  have hbytes : ((writePayload "r" (dictPayload [("a.b", .tensor (oneByte 1)),
      ("a", .dict [("b", .tensor (oneByte 2))])]) none none).bind readPayload).map
      (fun result => (positions result.data.contents "").map fun entry => entry.2.data) =
        .ok [[2], [2]] := by
    decide +kernel
  rw [hwrite, Except.bind, hread, Except.map, hcontents] at hbytes
  revert hbytes
  decide +kernel

end Omni.Comm
