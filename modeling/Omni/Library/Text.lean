import Mathlib.Data.String.Basic

/-!
# Text and bytes

String functions of Python that Lean does not have in the same form. Nothing here refers to a
particular system.
-/

namespace Omni.Text

/-- Bytes. -/
abbrev Bytes := List UInt8

/-- `str.encode("utf-8")`. -/
def utf8 (s : String) : Bytes := s.toUTF8.data.toList

/-- Different texts have different bytes. -/
theorem utf8_injective : Function.Injective utf8 := by
  intro a b h
  exact String.toByteArray_inj.mp (ByteArray.ext (Array.toList_inj.mp h))

/-- The bytes of a text are the bytes of its characters one after the other. -/
theorem utf8_eq_flatMap (s : String) : utf8 s = s.toList.flatMap String.utf8EncodeChar := by
  have h : s.toList.utf8Encode = s.toByteArray := String.utf8Encode_toList
  change s.toByteArray.data.toList = _
  rw [← h, List.utf8Encode, List.data_toByteArray]

/-- The bytes of joined texts. -/
theorem utf8_append (s t : String) : utf8 (s ++ t) = utf8 s ++ utf8 t := by
  simp only [utf8_eq_flatMap, String.toList_append, List.flatMap_append]

/-- An ASCII text has one byte for each character. -/
theorem utf8_of_ascii {s : String} (hs : ∀ c ∈ s.toList, c.val ≤ 127) :
    utf8 s = s.toList.map fun c => c.val.toUInt8 := by
  rw [utf8_eq_flatMap, List.map_eq_flatMap]
  refine List.flatMap_congr fun c hc => ?_
  exact String.utf8EncodeChar_eq_singleton (Char.utf8Size_eq_one_iff.2 (hs c hc))

/-- `str.isspace` of a character. -/
def isSpace (c : Char) : Bool :=
  let n := c.toNat
  (9 ≤ n && n ≤ 13) || (28 ≤ n && n ≤ 32) || n == 0x85 || n == 0xA0 || n == 0x1680 ||
    (0x2000 ≤ n && n ≤ 0x200A) || n == 0x2028 || n == 0x2029 || n == 0x202F || n == 0x205F ||
    n == 0x3000

/-- `str.rstrip` of characters with a property. -/
def rstrip (p : Char → Bool) (s : String) : String :=
  String.ofList (s.toList.reverse.dropWhile p).reverse

/-- `str.strip`. -/
def strip (s : String) : String :=
  rstrip isSpace (String.ofList (s.toList.dropWhile isSpace))

/-- `s.startswith(prefix)`. -/
def startsWith (s start : String) : Bool := start.toList.isPrefixOf s.toList

/-- `s.endswith(suffix)`. -/
def endsWith (s suffix : String) : Bool := suffix.toList.isSuffixOf s.toList

theorem endsWith_iff {s suffix : String} :
    endsWith s suffix = true ↔ ∃ start, s = start ++ suffix := by
  rw [endsWith, List.isSuffixOf_iff_suffix]
  constructor
  · rintro ⟨start, hstart⟩
    refine ⟨String.ofList start, String.toList_inj.mp ?_⟩
    rw [String.toList_append, String.toList_ofList, hstart]
  · rintro ⟨start, rfl⟩
    exact ⟨start.toList, (String.toList_append ..).symm⟩

/-- A string starts with a prefix when something stands after the prefix. -/
theorem startsWith_iff {s start : String} :
    startsWith s start = true ↔ ∃ rest, s = start ++ rest := by
  rw [startsWith, List.isPrefixOf_iff_prefix]
  constructor
  · rintro ⟨rest, hrest⟩
    refine ⟨String.ofList rest, String.toList_inj.mp ?_⟩
    rw [String.toList_append, String.toList_ofList, hrest]
  · rintro ⟨rest, rfl⟩
    exact ⟨rest.toList, (String.toList_append ..).symm⟩

end Omni.Text
