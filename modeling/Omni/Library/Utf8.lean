import Omni.Library.Text

/-!
# Decoding UTF-8 with replacement

Bytes that are no UTF-8 are decoded to U+FFFD: one for every maximal part of a character, and one
for every other byte. The decoder goes through the bytes one after the other. Nothing here refers to
a particular system.
-/

namespace Omni.Utf8

open Text

/-- U+FFFD. -/
def replacement : Char := '\uFFFD'

/-- A character that is not complete: the bytes that are missing, the bits so far, and the bounds of
the next byte. -/
structure Partial where
  missing : ℕ
  bits : ℕ
  low : ℕ
  high : ℕ
  deriving DecidableEq

/-- What the first byte of a character is followed by. -/
def lead (b : ℕ) : Option Partial :=
  if 0xC2 ≤ b ∧ b ≤ 0xDF then some ⟨1, b - 0xC0, 0x80, 0xBF⟩
  else if b = 0xE0 then some ⟨2, 0, 0xA0, 0xBF⟩
  else if b = 0xED then some ⟨2, 0xD, 0x80, 0x9F⟩
  else if 0xE1 ≤ b ∧ b ≤ 0xEF then some ⟨2, b - 0xE0, 0x80, 0xBF⟩
  else if b = 0xF0 then some ⟨3, 0, 0x90, 0xBF⟩
  else if 0xF1 ≤ b ∧ b ≤ 0xF3 then some ⟨3, b - 0xF0, 0x80, 0xBF⟩
  else if b = 0xF4 then some ⟨3, 4, 0x80, 0x8F⟩
  else none

/-- A byte between characters. -/
def begin (b : ℕ) : Option Partial × List Char :=
  if b < 0x80 then (none, [Char.ofNat b])
  else
    match lead b with
    | some p => (some p, [])
    | none => (none, [replacement])

/-- A byte. One that does not continue the character begins the next one. -/
def feed : Option Partial → ℕ → Option Partial × List Char
  | none, b => begin b
  | some p, b =>
    if p.low ≤ b ∧ b ≤ p.high then
      let bits := p.bits * 64 + (b - 0x80)
      if p.missing = 1 then (none, [Char.ofNat bits])
      else (some ⟨p.missing - 1, bits, 0x80, 0xBF⟩, [])
    else ((begin b).1, replacement :: (begin b).2)

/-- The bytes after a part of a character. -/
def decodeFrom : Option Partial → Bytes → Option Partial × List Char
  | s, [] => (s, [])
  | s, b :: bytes =>
    ((decodeFrom (feed s b.toNat).1 bytes).1,
      (feed s b.toNat).2 ++ (decodeFrom (feed s b.toNat).1 bytes).2)

/-- What is decoded of a character that is not complete at the end. -/
def finish : Option Partial → List Char
  | none => []
  | some _ => [replacement]

/-- `bytes.decode("utf-8", errors="replace")`. -/
def lossy (bytes : Bytes) : List Char :=
  (decodeFrom none bytes).2 ++ finish (decodeFrom none bytes).1

/-- The bytes end between characters. -/
def Complete (bytes : Bytes) : Prop := (decodeFrom none bytes).1 = none

theorem decodeFrom_append (s : Option Partial) (x y : Bytes) :
    decodeFrom s (x ++ y) =
      ((decodeFrom (decodeFrom s x).1 y).1,
        (decodeFrom s x).2 ++ (decodeFrom (decodeFrom s x).1 y).2) := by
  induction x generalizing s with
  | nil => rfl
  | cons b x ih => rw [List.cons_append, decodeFrom, ih, decodeFrom, List.append_assoc]

theorem complete_nil : Complete [] := rfl

/-- After complete bytes, decoding begins anew. -/
theorem Complete.lossy_append {x : Bytes} (hx : Complete x) (y : Bytes) :
    lossy (x ++ y) = lossy x ++ lossy y := by
  have hx' : (decodeFrom none x).1 = none := hx
  rw [lossy, lossy, lossy, decodeFrom_append, hx', finish, List.append_nil, List.append_assoc]

theorem Complete.append {x y : Bytes} (hx : Complete x) (hy : Complete y) : Complete (x ++ y) := by
  have hx' : (decodeFrom none x).1 = none := hx
  rw [Complete, decodeFrom_append, hx']
  exact hy

/-- Bytes whose text does not end with U+FFFD are complete. -/
theorem complete_of_getLast {x : Bytes} (h : (lossy x).getLast? ≠ some replacement) :
    Complete x := by
  rw [Complete]
  cases hend : (decodeFrom none x).1 with
  | none => rfl
  | some p =>
    refine absurd ?_ h
    rw [lossy, hend, finish, List.getLast?_append]
    rfl

/-- A character that three bytes encode, its first two bytes, and a byte that is none. -/
example : lossy [0xE2, 0x82, 0xAC] = ['€'] ∧ lossy [0xE2, 0x82] = [replacement] ∧
    lossy [0xE2, 0x41, 0xFF] = [replacement, 'A', replacement] := by decide +kernel

end Omni.Utf8
