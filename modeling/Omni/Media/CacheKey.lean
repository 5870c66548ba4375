import Mathlib.Data.Set.Function
import Omni.Library.Framing
import Omni.Library.Text

/-!
# Cache keys of media

`hash_file_sampled`, `hash_media_item` and `compute_media_cache_key` of
`preprocessing/cache_key.py`. A local file is hashed by samples, an item in memory by its bytes, and
the parts of several items are joined to one text that is hashed again.
-/

namespace Omni.Media

open Omni.Text Omni.Framing List

/-- `xxhash.xxh3_64(...).hexdigest()`, the 16 digits of 64 bits. -/
structure Xxh3 where
  hexdigest : Bytes → String
  length : ∀ payload, (hexdigest payload).toList.length = 16

/-- An item handed to `compute_media_cache_key`. A path comes with the content of the file under it,
if there is one. -/
inductive MediaItem
  | path (s : String) (file : Option Bytes)
  | image (mode : String) (size : ℕ × ℕ) (content : Bytes)
  | ndarray (dtype : String) (shape : List ℕ) (content : Bytes)
  | tensor (dtype : String) (shape : List ℕ) (content : Bytes)
  | raw (content : Bytes)
  | unsupported
  deriving DecidableEq

/-- `_is_url_like`, where `urlparse` strips control characters and spaces from the left, and takes
tabs and line ends out. -/
def isUrlLike (s : String) : Bool :=
  let url := (s.toList.dropWhile fun c => c.toNat ≤ 32).filter fun c =>
    c ≠ '\t' && c ≠ '\r' && c ≠ '\n'
  let scheme := String.ofList ((url.takeWhile fun c => c ≠ ':').map Char.toLower)
  url.contains ':' && ["http", "https", "data", "file"].contains scheme

/-- The text of a tuple of integers but for its start, after a first element. -/
def tupleTail : List ℕ → String
  | [] => ")"
  | n :: rest => ", " ++ (toString n ++ tupleTail rest)

/-- `str` of a tuple of integers. -/
def tupleText : List ℕ → String
  | [] => "()"
  | [n] => "(" ++ (toString n ++ ",)")
  | n :: rest => "(" ++ (toString n ++ tupleTail rest)

/-- `hash_bytes`. -/
def hashBytes (xxh : Xxh3) (payload : Bytes) : String := xxh.hexdigest payload

/-- The payload that `hash_file_sampled` hashes. -/
def sampledPayload (file : Bytes) (headSize tailSize : ℕ) : Bytes :=
  let fileSize := file.length
  let head := file.take headSize
  let tail := if headSize + tailSize < fileSize then file.drop (fileSize - tailSize) else []
  head ++ tail ++ utf8 ("|size:" ++ toString fileSize)

/-- `hash_file_sampled`. -/
def hashFileSampled (xxh : Xxh3) (file : Bytes) (headSize tailSize : ℕ) : String :=
  xxh.hexdigest (sampledPayload file headSize tailSize)

/-- The default of `head_size` and of `tail_size`. -/
def sampleSize : ℕ := 8192

/-- `hash_media_item`. -/
def hashMediaItem (xxh : Xxh3) : MediaItem → Option String
  | .path s file =>
    if isUrlLike s then some ("url:" ++ hashBytes xxh (utf8 s))
    else
      match file with
      | some content => some ("file:" ++ hashFileSampled xxh content sampleSize sampleSize)
      | none => some ("url:" ++ hashBytes xxh (utf8 s))
  | .image mode size content =>
    some ("pil:" ++ (mode ++ ("|" ++ (tupleText [size.1, size.2] ++ (":" ++
      hashBytes xxh content)))))
  | .ndarray dtype shape content =>
    some ("np:" ++ (dtype ++ ("|" ++ (tupleText shape ++ (":" ++ hashBytes xxh content)))))
  | .tensor dtype shape content =>
    some ("pt:" ++ (dtype ++ ("|" ++ (tupleText shape ++ (":" ++ hashBytes xxh content)))))
  | .raw content => some ("bytes:" ++ hashBytes xxh content)
  | .unsupported => none

/-- `_hash_joined`. -/
def hashJoined (xxh : Xxh3) (parts : List String) : String :=
  xxh.hexdigest (utf8 (String.intercalate "|" parts))

/-- `compute_media_cache_key` of a list of items. -/
def computeMediaCacheKey (xxh : Xxh3) (items : List MediaItem) (start : String) : Option String :=
  if items = [] then none
  else (items.mapM (hashMediaItem xxh)).map fun parts => start ++ (":" ++ hashJoined xxh parts)

/-- The kinds of parts that are a hash only. -/
inductive PlainKind
  | url | file | bytes
  deriving DecidableEq

/-- The kinds of parts with a mode or a dtype and with a shape. -/
inductive ArrayKind
  | pil | np | pt
  deriving DecidableEq

/-- The kind, the metadata and the hashed bytes of an item. -/
inductive Coverage
  | plain (kind : PlainKind) (payload : Bytes)
  | array (kind : ArrayKind) (name : String) (shape : List ℕ) (payload : Bytes)
  deriving DecidableEq

/-- The kind as a part has it. -/
def PlainKind.text : PlainKind → String
  | url => "url" | file => "file" | bytes => "bytes"

/-- The kind as a part has it. -/
def ArrayKind.text : ArrayKind → String
  | pil => "pil" | np => "np" | pt => "pt"

/-- What the part of an item is made from. -/
def coverage : MediaItem → Option Coverage
  | .path s file =>
    if isUrlLike s then some (.plain .url (utf8 s))
    else
      match file with
      | some content => some (.plain .file (sampledPayload content sampleSize sampleSize))
      | none => some (.plain .url (utf8 s))
  | .image mode size content => some (.array .pil mode [size.1, size.2] content)
  | .ndarray dtype shape content => some (.array .np dtype shape content)
  | .tensor dtype shape content => some (.array .pt dtype shape content)
  | .raw content => some (.plain .bytes content)
  | .unsupported => none

namespace Coverage

/-- The hashed bytes. -/
def payload : Coverage → Bytes
  | plain _ payload => payload
  | array _ _ _ payload => payload

/-- The mode or the dtype. -/
def name : Coverage → Option String
  | plain _ _ => none
  | array _ name _ _ => some name

/-- The part with the hash of the bytes. -/
def text (xxh : Xxh3) : Coverage → String
  | plain kind payload => kind.text ++ (":" ++ xxh.hexdigest payload)
  | array kind name shape payload =>
    kind.text ++ (":" ++ (name ++ ("|" ++ (tupleText shape ++ (":" ++ xxh.hexdigest payload)))))

end Coverage

theorem hashMediaItem_eq (xxh : Xxh3) (item : MediaItem) :
    hashMediaItem xxh item = (coverage item).map (Coverage.text xxh) := by
  cases item with
  | path s file =>
    unfold hashMediaItem coverage
    by_cases hurl : isUrlLike s = true
    · simp only [hurl, if_true]
      rfl
    · simp only [hurl]
      cases file <;> rfl
  | image mode size content => simp [hashMediaItem, coverage, Coverage.text, hashBytes]; rfl
  | ndarray dtype shape content => rfl
  | tensor dtype shape content => rfl
  | raw content => rfl
  | unsupported => rfl

variable (n : ℕ)

theorem toList_toString : (toString n).toList = Nat.toDigits 10 n := Nat.toList_repr

/-- No character that is not a digit is in a number. -/
theorem notMem_toDigits {c : Char} (hc : c.isDigit = false) (n : ℕ) : c ∉ Nat.toDigits 10 n := by
  intro hmem
  rw [Nat.isDigit_of_mem_toDigits (by decide) (by decide) hmem] at hc
  cases hc

variable (shape : List ℕ)

/-- The text after the first element starts with no digit. -/
theorem head?_tupleTail :
    ∀ c ∈ (tupleTail shape).toList.head?, c.isDigit = false := by
  intro c hc
  cases shape with
  | nil =>
    obtain rfl : ')' = c := by simpa [tupleTail] using hc
    decide
  | cons n rest =>
    obtain rfl : ',' = c := by simpa [tupleTail] using hc
    decide

/-- The rest of a shape can be read back. -/
theorem tupleTail_injective : Function.Injective tupleTail := by
  intro shape
  induction shape with
  | nil =>
    intro shape' h
    cases shape' with
    | nil => rfl
    | cons m rest' => simp [tupleTail, ← String.toList_inj] at h
  | cons n rest ih =>
    intro shape' h
    cases shape' with
    | nil => simp [tupleTail, ← String.toList_inj] at h
    | cons m rest' =>
      have htext := congrArg String.toList h
      simp only [tupleTail, String.toList_append, toList_toString] at htext
      obtain ⟨rfl, hrest⟩ := toDigits_append_inj (head?_tupleTail rest) (head?_tupleTail rest')
        (append_cancel_left htext)
      rw [ih (String.toList_inj.1 hrest)]

/-- The text of a shape after its first element. -/
def afterFirst : List ℕ → String
  | [] => ",)"
  | n :: rest => tupleTail (n :: rest)

theorem tupleText_cons (rest : List ℕ) :
    (tupleText (n :: rest)).toList = '(' :: (Nat.toDigits 10 n ++ (afterFirst rest).toList) := by
  cases rest <;> simp [tupleText, afterFirst]

theorem head?_afterFirst :
    ∀ c ∈ (afterFirst shape).toList.head?, c.isDigit = false := by
  cases shape with
  | nil =>
    intro c hc
    obtain rfl : ',' = c := by simpa [afterFirst] using hc
    decide
  | cons n rest => exact head?_tupleTail (n :: rest)

theorem afterFirst_injective : Function.Injective afterFirst := by
  intro shape shape' h
  cases shape with
  | nil =>
    cases shape' with
    | nil => rfl
    | cons m rest' =>
      have htext := congrArg String.toList h
      simp only [afterFirst, tupleTail, String.toList_append] at htext
      exact absurd (List.cons.inj (List.cons.inj htext).2).1 (by decide)
  | cons n rest =>
    cases shape' with
    | nil =>
      have htext := congrArg String.toList h
      simp only [afterFirst, tupleTail, String.toList_append] at htext
      exact absurd (List.cons.inj (List.cons.inj htext).2).1 (by decide)
    | cons m rest' => exact tupleTail_injective h

/-- A shape can be read back from its text. -/
theorem tupleText_injective : Function.Injective tupleText := by
  intro shape shape' h
  have htext := congrArg String.toList h
  have hempty : (tupleText []).toList = ['(', ')'] := rfl
  have hfirst (n : ℕ) (rest : List Char) : Nat.toDigits 10 n ++ rest ≠ [')'] := by
    intro heq
    cases hdigits : Nat.toDigits 10 n with
    | nil => exact Nat.toDigits_ne_nil hdigits
    | cons c digits =>
      have hdigit : c.isDigit = true :=
        Nat.isDigit_of_mem_toDigits (b := 10) (n := n) (by decide) (by decide) (by simp [hdigits])
      rw [hdigits, cons_append] at heq
      rw [(List.cons.inj heq).1] at hdigit
      exact absurd hdigit (by decide)
  cases shape with
  | nil =>
    cases shape' with
    | nil => rfl
    | cons m rest' =>
      rw [hempty, tupleText_cons] at htext
      exact absurd (List.cons.inj htext).2.symm (hfirst m _)
  | cons n rest =>
    cases shape' with
    | nil =>
      rw [hempty, tupleText_cons] at htext
      exact absurd (List.cons.inj htext).2 (hfirst n _)
    | cons m rest' =>
      rw [tupleText_cons, tupleText_cons] at htext
      obtain ⟨rfl, hrest⟩ := toDigits_append_inj (head?_afterFirst rest) (head?_afterFirst rest')
        (List.cons.inj htext).2
      rw [afterFirst_injective (String.toList_inj.1 hrest)]

theorem notMem_tupleTail : ':' ∉ (tupleTail shape).toList := by
  induction shape with
  | nil => decide
  | cons n rest ih =>
    simp only [tupleTail, String.toList_append, toList_toString, mem_append]
    rintro (hmem | hmem | hmem)
    · exact absurd hmem (by decide)
    · exact notMem_toDigits (by decide) n hmem
    · exact ih hmem

theorem notMem_tupleText : ':' ∉ (tupleText shape).toList := by
  cases shape with
  | nil => decide
  | cons n rest =>
    rw [tupleText_cons, mem_cons, mem_append]
    rintro (hmem | hmem | hmem)
    · exact absurd hmem (by decide)
    · exact notMem_toDigits (by decide) n hmem
    · cases rest with
      | nil => exact absurd hmem (by decide)
      | cons m rest => exact notMem_tupleTail (m :: rest) hmem

/-- The names of modes and of dtypes are such that none with a bar after it starts another. -/
def Separable (names : List String) : Prop :=
  ∀ a ∈ names, ∀ b ∈ names, ¬ (a.toList ++ ['|']) <+: b.toList

instance (names : List String) : Decidable (Separable names) :=
  inferInstanceAs (Decidable (∀ a ∈ names, ∀ b ∈ names, ¬ (a.toList ++ ['|']) <+: b.toList))

variable {xxh : Xxh3} {payload' file file' : Bytes} {key start' s s' : String}

/-- Hashes before the next part can be taken off. -/
theorem hexdigest_append_inj {payload : Bytes} {x y : List Char}
    (h : (xxh.hexdigest payload).toList ++ x = (xxh.hexdigest payload').toList ++ y) :
    xxh.hexdigest payload = xxh.hexdigest payload' ∧ x = y := by
  obtain ⟨hdigest, hrest⟩ := append_inj h (by rw [xxh.length, xxh.length])
  exact ⟨String.toList_inj.1 hdigest, hrest⟩

/-- Parts can be taken apart, whatever follows them. -/
theorem selfDelimiting_text {parts : Set Coverage} {names : List String}
    (hinj : ∀ c ∈ parts, ∀ d ∈ parts,
      xxh.hexdigest c.payload = xxh.hexdigest d.payload → c.payload = d.payload)
    (hparts : ∀ c ∈ parts, ∀ name ∈ c.name, name ∈ names) (hnames : Separable names) :
    SelfDelimiting '|' (fun c => (Coverage.text xxh c).toList) parts := by
  intro c hc d hd x y _ _ h
  have hpayload := hinj c hc d hd
  cases c with
  | plain kind payload =>
    cases d with
    | plain kind' payload' =>
      simp only [Coverage.text, String.toList_append, append_assoc] at h
      obtain ⟨hkind, hrest⟩ := append_cons_inj (c := ':') (by cases kind <;> decide)
        (by cases kind' <;> decide) h
      obtain ⟨hdigest, hxy⟩ := hexdigest_append_inj hrest
      obtain rfl : kind = kind' := by
        cases kind <;> cases kind' <;> first | rfl | exact absurd hkind (by decide)
      exact ⟨congrArg (Coverage.plain kind) (hpayload hdigest), hxy⟩
    | array kind' name' shape' payload' =>
      simp only [Coverage.text, String.toList_append, append_assoc] at h
      obtain ⟨hkind, -⟩ := append_cons_inj (c := ':') (by cases kind <;> decide)
        (by cases kind' <;> decide) h
      cases kind <;> cases kind' <;> exact absurd hkind (by decide)
  | array kind name shape payload =>
    cases d with
    | plain kind' payload' =>
      simp only [Coverage.text, String.toList_append, append_assoc] at h
      obtain ⟨hkind, -⟩ := append_cons_inj (c := ':') (by cases kind <;> decide)
        (by cases kind' <;> decide) h
      cases kind <;> cases kind' <;> exact absurd hkind (by decide)
    | array kind' name' shape' payload' =>
      simp only [Coverage.text, String.toList_append, append_assoc] at h
      obtain ⟨hkind, hrest⟩ := append_cons_inj (c := ':') (by cases kind <;> decide)
        (by cases kind' <;> decide) h
      obtain rfl : kind = kind' := by
        cases kind <;> cases kind' <;> first | rfl | exact absurd hkind (by decide)
      obtain ⟨hname, hrest⟩ := append_cons_inj_of_not_prefix (c := '|')
        (hnames name (hparts _ hc _ rfl) name' (hparts _ hd _ rfl))
        (hnames name' (hparts _ hd _ rfl) name (hparts _ hc _ rfl)) hrest
      obtain ⟨hshape, hrest⟩ := append_cons_inj (c := ':') (notMem_tupleText shape)
        (notMem_tupleText shape') hrest
      obtain ⟨hdigest, hxy⟩ := hexdigest_append_inj hrest
      obtain rfl := String.toList_inj.1 hname
      obtain rfl := tupleText_injective (String.toList_inj.1 hshape)
      exact ⟨congrArg (Coverage.array kind name shape) (hpayload hdigest), hxy⟩

/-- The byte strings that are hashed for a key. -/
def occurring (xxh : Xxh3) (items : List MediaItem) : List Bytes :=
  utf8 (String.intercalate "|" ((items.filterMap coverage).map (Coverage.text xxh))) ::
    (items.filterMap coverage).map Coverage.payload

/-- The hash is injective on the byte strings that are hashed for the keys of two lists. -/
def InjectiveOn (xxh : Xxh3) (items items' : List MediaItem) : Prop :=
  ∀ a ∈ occurring xxh items ++ occurring xxh items',
    ∀ b ∈ occurring xxh items ++ occurring xxh items', xxh.hexdigest a = xxh.hexdigest b → a = b

instance (xxh : Xxh3) (items items' : List MediaItem) : Decidable (InjectiveOn xxh items items') :=
  inferInstanceAs (Decidable (∀ a ∈ occurring xxh items ++ occurring xxh items', ∀ b ∈ _, _ → _))

/-- The modes and dtypes of items. -/
def names (items : List MediaItem) : List String :=
  (items.filterMap coverage).filterMap Coverage.name

theorem toList_joined (xxh : Xxh3) (covered : List Coverage) :
    (String.intercalate "|" (covered.map (Coverage.text xxh))).toList =
      join '|' (fun c => (Coverage.text xxh c).toList) covered := by
  rw [String.toList_intercalate, map_map]
  rfl

/-- What `mapM` gives when it goes through. -/
theorem mapM_map_eq_some {α β γ : Type} {f : α → Option β} {g : β → γ} {l : List α}
    {parts : List γ} (h : (l.mapM fun a => (f a).map g) = some parts) :
    l.map f = (l.filterMap f).map some ∧ parts = (l.filterMap f).map g := by
  induction l generalizing parts with
  | nil =>
    obtain rfl : [] = parts := by simpa using h
    exact ⟨rfl, rfl⟩
  | cons a l ih =>
    rw [mapM_cons] at h
    cases hfa : f a with
    | none =>
      rw [hfa] at h
      cases h
    | some b =>
      rw [hfa] at h
      cases hrest : l.mapM fun a => (f a).map g with
      | none =>
        rw [hrest] at h
        cases h
      | some rest =>
        rw [hrest] at h
        obtain ⟨hmap, hparts⟩ := ih hrest
        obtain rfl := Option.some.inj h
        rw [filterMap_cons_some hfa, map_cons, map_cons, map_cons, hfa, hmap, hparts]
        exact ⟨rfl, rfl⟩

variable {start : String}

variable {items : List MediaItem}

theorem computeMediaCacheKey_eq_some (h : computeMediaCacheKey xxh items start = some key) :
    items ≠ [] ∧ items.map coverage = (items.filterMap coverage).map some ∧
      key = start ++ (":" ++ xxh.hexdigest
        (utf8 (String.intercalate "|" ((items.filterMap coverage).map (Coverage.text xxh))))) := by
  unfold computeMediaCacheKey at h
  split at h
  · cases h
  next hne =>
    obtain ⟨parts, hparts, hkey⟩ := Option.map_eq_some_iff.1 h
    rw [funext (hashMediaItem_eq xxh)] at hparts
    obtain ⟨hmap, hjoined⟩ := mapM_map_eq_some hparts
    exact ⟨hne, hmap, by rw [← hkey, hjoined, hashJoined]⟩

/-- Keys end with the hash of the joined parts. -/
theorem hexdigest_of_key {payload : Bytes}
    (h : start ++ (":" ++ xxh.hexdigest payload) = start' ++ (":" ++ xxh.hexdigest payload')) :
    xxh.hexdigest payload = xxh.hexdigest payload' := by
  have htext := congrArg String.toList h
  simp only [String.toList_append, ← append_assoc] at htext
  exact String.toList_inj.1 (append_inj' htext (by rw [xxh.length, xxh.length])).2

/-- Equal keys are keys of as many items with pairwise the same kind, metadata and hashed bytes. -/
theorem coverage_of_key {items' : List MediaItem} (hinj : InjectiveOn xxh items items')
    (hnames : Separable (names items ++ names items'))
    (h : computeMediaCacheKey xxh items start = some key)
    (h' : computeMediaCacheKey xxh items' start' = some key) :
    items.map coverage = items'.map coverage := by
  obtain ⟨hne, hmap, hkey⟩ := computeMediaCacheKey_eq_some h
  obtain ⟨hne', hmap', hkey'⟩ := computeMediaCacheKey_eq_some h'
  have hjoined := hinj _ (mem_append_left _ (mem_cons_self ..)) _
    (mem_append_right _ (mem_cons_self ..)) (hexdigest_of_key (hkey ▸ hkey'))
  have htext := congrArg String.toList (utf8_injective hjoined)
  rw [toList_joined, toList_joined] at htext
  have hparts : SelfDelimiting '|' (fun c => (Coverage.text xxh c).toList)
      {c | c ∈ items.filterMap coverage ∨ c ∈ items'.filterMap coverage} := by
    have hpayload (c : Coverage) (hc : c ∈ items.filterMap coverage ∨
        c ∈ items'.filterMap coverage) :
        c.payload ∈ occurring xxh items ++ occurring xxh items' :=
      hc.elim
        (fun hc => mem_append_left _ (mem_cons_of_mem _ (mem_map_of_mem hc)))
        (fun hc => mem_append_right _ (mem_cons_of_mem _ (mem_map_of_mem hc)))
    refine selfDelimiting_text
      (fun c hc d hd => hinj _ (hpayload c hc) _ (hpayload d hd)) (fun c hc name hname => ?_) hnames
    exact hc.elim
      (fun hc => mem_append_left _ (mem_filterMap.2 ⟨c, hc, hname⟩))
      (fun hc => mem_append_right _ (mem_filterMap.2 ⟨c, hc, hname⟩))
  have hcovered {l : List MediaItem} (hl : l ≠ [])
      (hmap : l.map coverage = (l.filterMap coverage).map some) : l.filterMap coverage ≠ [] := by
    intro hnil
    rw [hnil, map_nil, map_eq_nil_iff] at hmap
    exact hl hmap
  have heq : items.filterMap coverage = items'.filterMap coverage := by
    cases hl : items.filterMap coverage with
    | nil => exact absurd hl (hcovered hne hmap)
    | cons c l =>
      cases hm : items'.filterMap coverage with
      | nil => exact absurd hm (hcovered hne' hmap')
      | cons d m =>
        rw [hl, hm] at htext hparts
        exact hparts.join_inj (fun k hk => .inl hk) (fun k hk => .inr hk) htext
  rw [hmap, hmap', heq]

/-- No colon is in the bytes of a number. -/
theorem notMem_utf8_toString : (58 : UInt8) ∉ utf8 (toString n) := by
  have hdigit : ∀ c ∈ (toString n).toList, c.isDigit = true := by
    intro c hc
    rw [toList_toString] at hc
    exact Nat.isDigit_of_mem_toDigits (by decide) (by decide) hc
  have hrange : ∀ c ∈ (toString n).toList, 48 ≤ c.val.toNat ∧ c.val.toNat ≤ 57 := by
    intro c hc
    have h := hdigit c hc
    simp only [Char.isDigit, Bool.and_eq_true, decide_eq_true_eq] at h
    exact ⟨h.1, h.2⟩
  rw [utf8_of_ascii fun c hc => UInt32.le_iff_toNat_le.2 ((hrange c hc).2.trans (by decide))]
  intro hmem
  obtain ⟨c, hc, hcolon⟩ := mem_map.1 hmem
  obtain ⟨-, hhigh⟩ := hrange c hc
  have hvalue := congrArg UInt8.toNat hcolon
  rw [UInt32.toNat_toUInt8, Nat.mod_eq_of_lt (by omega)] at hvalue
  have : (58 : UInt8).toNat = 58 := rfl
  omega

/-- The size and what stands before it can be read back from a payload. -/
theorem payload_append_inj {body body' : Bytes} {n m : ℕ}
    (h : body ++ utf8 ("|size:" ++ toString n) = body' ++ utf8 ("|size:" ++ toString m)) :
    n = m ∧ body = body' := by
  have hmark : utf8 "|size:" = [124, 115, 105, 122, 101, 58] := by decide +kernel
  have hreverse := congrArg List.reverse h
  simp only [utf8_append, hmark, reverse_append, reverse_cons, reverse_nil,
    nil_append, append_assoc] at hreverse
  obtain ⟨hdigits, -⟩ := append_cons_inj (c := (58 : UInt8))
    (by rw [mem_reverse]; exact notMem_utf8_toString n)
    (by rw [mem_reverse]; exact notMem_utf8_toString m) hreverse
  have htext := congrArg String.toList (utf8_injective (reverse_injective hdigits))
  rw [toList_toString, toList_toString] at htext
  obtain rfl := toDigits_injective htext
  exact ⟨rfl, append_cancel_right h⟩

/-- Two payloads are the same if and only if the sizes, the heads and, in files that are longer than
both samples, the tails are. -/
theorem sampledPayload_eq_iff (file file' : Bytes) (headSize tailSize : ℕ) :
    sampledPayload file headSize tailSize = sampledPayload file' headSize tailSize ↔
      file.length = file'.length ∧ file.take headSize = file'.take headSize ∧
        (headSize + tailSize < file.length →
          file.drop (file.length - tailSize) = file'.drop (file'.length - tailSize)) := by
  unfold sampledPayload
  constructor
  · intro h
    obtain ⟨hsize, hbody⟩ := payload_append_inj h
    rw [← hsize] at hbody ⊢
    obtain ⟨hhead, htail⟩ := append_inj hbody (by rw [length_take, length_take, hsize])
    refine ⟨rfl, hhead, fun hlong => ?_⟩
    rwa [if_pos hlong, if_pos hlong] at htail
  · rintro ⟨hsize, hhead, htail⟩
    rw [← hsize] at htail
    rw [← hsize, hhead]
    by_cases hlong : headSize + tailSize < file.length
    · simp only [hlong, if_true, htail hlong]
    · simp only [hlong, if_false]

/-- The last bytes of a file. -/
def lastBytes (size : ℕ) (file : Bytes) : Bytes := file.drop (file.length - size)

/-- Two files whose keys differ when they differ in size, in the first or in the last bytes, or when
they are short and differ at all. -/
def KeyCovers (xxh : Xxh3) (start s s' : String) (file file' : Bytes) : Prop :=
  file.length ≠ file'.length ∨ file.take sampleSize ≠ file'.take sampleSize ∨
      lastBytes sampleSize file ≠ lastBytes sampleSize file' ∨
      (file.length ≤ sampleSize + sampleSize ∧ file ≠ file') →
    computeMediaCacheKey xxh [.path s (some file)] start ≠
      computeMediaCacheKey xxh [.path s' (some file')] start

/-- The keys of two local files are the same if and only if their payloads are. -/
theorem key_eq_iff (start : String) (hs : isUrlLike s = false) (hs' : isUrlLike s' = false)
    (hinj : InjectiveOn xxh [.path s (some file)] [.path s' (some file')]) :
    computeMediaCacheKey xxh [.path s (some file)] start =
        computeMediaCacheKey xxh [.path s' (some file')] start ↔
      sampledPayload file sampleSize sampleSize = sampledPayload file' sampleSize sampleSize := by
  have hcoverage {s : String} (hs : isUrlLike s = false) (file : Bytes) :
      coverage (.path s (some file)) =
        some (.plain .file (sampledPayload file sampleSize sampleSize)) := by
    simp [coverage, hs]
  have hkey {s : String} (hs : isUrlLike s = false) (file : Bytes) :
      computeMediaCacheKey xxh [.path s (some file)] start =
        some (start ++ (":" ++ hashJoined xxh
          ["file:" ++ hashFileSampled xxh file sampleSize sampleSize])) := by
    simp [computeMediaCacheKey, hashMediaItem, hs]
  constructor
  · intro h
    have hnames : names [.path s (some file)] ++ names [.path s' (some file')] = [] := by
      simp [names, hcoverage hs, hcoverage hs', Coverage.name]
    have hcover := coverage_of_key hinj
      (by rw [hnames]; exact nofun) (hkey hs file)
      (h ▸ hkey hs file)
    rw [map_singleton, map_singleton, hcoverage hs, hcoverage hs'] at hcover
    exact congrArg Coverage.payload (Option.some.inj (List.cons.inj hcover).1)
  · intro h
    rw [hkey hs, hkey hs', hashFileSampled, hashFileSampled, h]

/-- Files are covered unless they are longer than the head but no longer than both samples. -/
theorem keyCovers_iff (hs : isUrlLike s = false) (hs' : isUrlLike s' = false)
    (hinj : InjectiveOn xxh [.path s (some file)] [.path s' (some file')]) :
    KeyCovers xxh start s s' file file' ↔
      (file.length = file'.length → sampleSize < file.length →
        file.length ≤ sampleSize + sampleSize →
        file.take sampleSize = file'.take sampleSize → file = file') := by
  simp only [KeyCovers, ne_eq, key_eq_iff start hs hs' hinj, sampledPayload_eq_iff]
  have hshort (hsize : file.length = file'.length) (hshort : file.length ≤ sampleSize)
      (hhead : file.take sampleSize = file'.take sampleSize) : file = file' := by
    rwa [take_of_length_le hshort, take_of_length_le (hsize ▸ hshort)] at hhead
  constructor
  · intro h hsize hlong hle hhead
    by_contra hne
    exact h (.inr (.inr (.inr ⟨hle, hne⟩))) ⟨hsize, hhead, fun hlonger => absurd hle (by omega)⟩
  · rintro h hdiffer ⟨hsize, hhead, htail⟩
    by_cases hlonger : sampleSize + sampleSize < file.length
    · rcases hdiffer with hdiffer | hdiffer | hdiffer | ⟨hle, -⟩
      · exact hdiffer hsize
      · exact hdiffer hhead
      · exact hdiffer (htail hlonger)
      · omega
    · have heq : file = file' := by
        by_cases hle : file.length ≤ sampleSize
        · exact hshort hsize hle hhead
        · exact h hsize (by omega) (by omega) hhead
      subst heq
      simp at hdiffer

/-- Two files are covered by their keys if and only if they are not two different ones of one size,
longer than the head and no longer than both samples, with the same head. Equal keys of lists come
from as many items with pairwise the same kind, metadata and hashed bytes. -/
theorem cacheKey_covers_iff (xxh : Xxh3) :
    (∀ start s s' file file', isUrlLike s = false → isUrlLike s' = false →
      InjectiveOn xxh [.path s (some file)] [.path s' (some file')] →
      (KeyCovers xxh start s s' file file' ↔
        (file.length = file'.length → sampleSize < file.length →
          file.length ≤ sampleSize + sampleSize →
          file.take sampleSize = file'.take sampleSize → file = file'))) ∧
    (∀ items items' start start' key, InjectiveOn xxh items items' →
      Separable (names items ++ names items') →
      computeMediaCacheKey xxh items start = some key →
      computeMediaCacheKey xxh items' start' = some key →
      items.map coverage = items'.map coverage) :=
  ⟨fun _ _ _ _ _ hs hs' hinj => keyCovers_iff hs hs' hinj,
    fun _ _ _ _ _ hinj hnames h h' => coverage_of_key hinj hnames h h'⟩

/-- The digits of a polynomial in the bytes. -/
def polynomialXxh : Xxh3 where
  hexdigest payload :=
    let value := payload.foldl (fun acc b => (acc * 257 + b.toNat + 1) % 2 ^ 64) 0
    String.ofList ((List.range 16).map fun i => Nat.digitChar (value / 16 ^ i % 16))
  length payload := by simp

/-- Two short files, and an image and an array against themselves. -/
theorem cacheKey_covers_short :
    KeyCovers polynomialXxh "image" "a.png" "b.png" [1] [2] ∧
      [MediaItem.image "RGB" (2, 1) [0], .ndarray "|S5" [3] [7]].map coverage =
        [MediaItem.image "RGB" (2, 1) [0], .ndarray "|S5" [3] [7]].map coverage := by
  refine ⟨((cacheKey_covers_iff polynomialXxh).1 "image" "a.png" "b.png" [1] [2]
      (by decide +kernel) (by decide +kernel) (by decide +kernel)).2
      (fun _ hlong => absurd hlong (by decide)),
    (cacheKey_covers_iff polynomialXxh).2 [.image "RGB" (2, 1) [0], .ndarray "|S5" [3] [7]]
      [.image "RGB" (2, 1) [0], .ndarray "|S5" [3] [7]] "image" "image" _
      (by decide +kernel) (by decide +kernel) rfl rfl⟩

/-- Two files of one byte more than the head, with different last bytes, have the same key. -/
theorem tail_not_covered : ¬ ∃ xxh : Xxh3,
    KeyCovers xxh "image" "a.png" "b.png" (List.replicate sampleSize 0 ++ [1])
      (List.replicate sampleSize 0 ++ [2]) := by
  rintro ⟨xxh, h⟩
  have hpayload : sampledPayload (List.replicate sampleSize 0 ++ [1]) sampleSize sampleSize =
      sampledPayload (List.replicate sampleSize 0 ++ [2]) sampleSize sampleSize := by
    refine (sampledPayload_eq_iff ..).2 ⟨by simp, by simp, fun hlong => ?_⟩
    rw [length_append, length_replicate, length_singleton] at hlong
    exact absurd hlong (by decide)
  refine h (.inr (.inr (.inr ⟨by simp; decide, by simp⟩))) ?_
  have ha : isUrlLike "a.png" = false := by decide +kernel
  have hb : isUrlLike "b.png" = false := by decide +kernel
  simp [computeMediaCacheKey, hashMediaItem, ha, hb, hashFileSampled, hpayload]

end Omni.Media
