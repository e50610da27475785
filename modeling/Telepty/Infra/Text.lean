import Mathlib.Algebra.Ring.Int.Defs
import Mathlib.Algebra.Ring.Nat
import Mathlib.Data.List.Basic

/-!
# Text and its UTF-8 bytes

A JavaScript string is a sequence of characters; `Text` is that sequence, so that names are built
and taken apart by list operations. `Buffer.from(s, 'utf8')` is `encodeText` and
`buf.toString('utf8')` is `decodeText`, the decoder of the WHATWG encoding standard: a malformed
sequence gives U+FFFD and decoding goes on, it never fails.

Lone surrogates have no `Char`; a text that holds one is outside the model.
-/

namespace Telepty.Infra

abbrev Bytes := List UInt8

abbrev Text := List Char

instance : LawfulBEq Text := List.instLawfulBEq

instance : Coe String Text := ⟨String.toList⟩

/-! ## Encoding -/

/-- The bytes of one character. -/
def encodeChar (c : Char) : Bytes :=
  let n := c.toNat
  if n < 0x80 then [UInt8.ofNat n]
  else if n < 0x800 then [UInt8.ofNat (0xC0 + n / 64), UInt8.ofNat (0x80 + n % 64)]
  else if n < 0x10000 then
    [UInt8.ofNat (0xE0 + n / 4096), UInt8.ofNat (0x80 + n / 64 % 64), UInt8.ofNat (0x80 + n % 64)]
  else
    [UInt8.ofNat (0xF0 + n / 262144), UInt8.ofNat (0x80 + n / 4096 % 64),
      UInt8.ofNat (0x80 + n / 64 % 64), UInt8.ofNat (0x80 + n % 64)]

def encodeText (t : Text) : Bytes := t.flatMap encodeChar

/-! ## Decoding -/

/-- The state of the decoder inside a sequence: the code point so far, how many continuation bytes
are still needed, and the range of the next one. -/
structure Utf8Decoder where
  codePoint : Nat
  needed : Nat
  lower : Nat
  upper : Nat

def Utf8Decoder.initial : Utf8Decoder := ⟨0, 0, 0x80, 0xBF⟩

def replacementChar : Char := Char.ofNat 0xFFFD

/-- A byte at the beginning of a sequence. -/
def decodeLead (b : Nat) : Utf8Decoder × Text :=
  if b < 0x80 then (.initial, [Char.ofNat b])
  else if 0xC2 ≤ b ∧ b ≤ 0xDF then (⟨b - 0xC0, 1, 0x80, 0xBF⟩, [])
  else if 0xE0 ≤ b ∧ b ≤ 0xEF then
    (⟨b - 0xE0, 2, if b = 0xE0 then 0xA0 else 0x80, if b = 0xED then 0x9F else 0xBF⟩, [])
  else if 0xF0 ≤ b ∧ b ≤ 0xF4 then
    (⟨b - 0xF0, 3, if b = 0xF0 then 0x90 else 0x80, if b = 0xF4 then 0x8F else 0xBF⟩, [])
  else (.initial, [replacementChar])

def decodeByte (d : Utf8Decoder) (b : Nat) : Utf8Decoder × Text :=
  if d.needed = 0 then decodeLead b
  else if d.lower ≤ b ∧ b ≤ d.upper then
    if d.needed = 1 then (.initial, [Char.ofNat (d.codePoint * 64 + (b - 0x80))])
    else (⟨d.codePoint * 64 + (b - 0x80), d.needed - 1, 0x80, 0xBF⟩, [])
  else ((decodeLead b).1, replacementChar :: (decodeLead b).2)

def decodeFrom (d : Utf8Decoder) : Bytes → Text
  | [] => if d.needed = 0 then [] else [replacementChar]
  | b :: rest => (decodeByte d b.toNat).2 ++ decodeFrom (decodeByte d b.toNat).1 rest

def decodeText (b : Bytes) : Text := decodeFrom .initial b

/-! ## Round trip -/

theorem toNat_ofNat_of_lt {n : Nat} (h : n < 256) : (UInt8.ofNat n).toNat = n := by
  simp [Nat.mod_eq_of_lt h]

theorem char_toNat_range (c : Char) :
    c.toNat < 0xD800 ∨ 0xDFFF < c.toNat ∧ c.toNat < 0x110000 := c.valid

theorem decodeFrom_cons {d d' : Utf8Decoder} {n : Nat} {out : Text} (hn : n < 256)
    (h : decodeByte d n = (d', out)) (rest : Bytes) :
    decodeFrom d (UInt8.ofNat n :: rest) = out ++ decodeFrom d' rest := by
  rw [decodeFrom, toNat_ofNat_of_lt hn, h]

theorem decodeByte_initial (b : Nat) : decodeByte .initial b = decodeLead b := rfl

theorem decodeLead_of_two {b : Nat} (h1 : 0xC2 ≤ b) (h2 : b ≤ 0xDF) :
    decodeLead b = (⟨b - 0xC0, 1, 0x80, 0xBF⟩, []) := by
  rw [decodeLead, if_neg (by omega), if_pos ⟨h1, h2⟩]

theorem decodeLead_of_three {b : Nat} (h1 : 0xE0 ≤ b) (h2 : b ≤ 0xEF) :
    decodeLead b = (⟨b - 0xE0, 2, if b = 0xE0 then 0xA0 else 0x80,
      if b = 0xED then 0x9F else 0xBF⟩, []) := by
  rw [decodeLead, if_neg (by omega), if_neg (by omega), if_pos ⟨h1, h2⟩]

theorem decodeLead_of_four {b : Nat} (h1 : 0xF0 ≤ b) (h2 : b ≤ 0xF4) :
    decodeLead b = (⟨b - 0xF0, 3, if b = 0xF0 then 0x90 else 0x80,
      if b = 0xF4 then 0x8F else 0xBF⟩, []) := by
  rw [decodeLead, if_neg (by omega), if_neg (by omega), if_neg (by omega), if_pos ⟨h1, h2⟩]

theorem decodeByte_last {d : Utf8Decoder} {b : Nat} (hn : d.needed = 1) (h1 : d.lower ≤ b)
    (h2 : b ≤ d.upper) :
    decodeByte d b = (.initial, [Char.ofNat (d.codePoint * 64 + (b - 0x80))]) := by
  rw [decodeByte, if_neg (by omega), if_pos ⟨h1, h2⟩, if_pos hn]

theorem decodeByte_more {d : Utf8Decoder} {b : Nat} (hn : 1 < d.needed) (h1 : d.lower ≤ b)
    (h2 : b ≤ d.upper) :
    decodeByte d b = (⟨d.codePoint * 64 + (b - 0x80), d.needed - 1, 0x80, 0xBF⟩, []) := by
  rw [decodeByte, if_neg (by omega), if_pos ⟨h1, h2⟩, if_neg (by omega)]

/-- One encoded character is read back and leaves the decoder where it began. -/
theorem decodeFrom_encodeChar (c : Char) (rest : Bytes) :
    decodeFrom .initial (encodeChar c ++ rest) = c :: decodeFrom .initial rest := by
  have hv := char_toNat_range c
  have hc : ∀ n, n = c.toNat → [Char.ofNat n] = [c] := by
    rintro n rfl
    rw [Char.ofNat_toNat]
  unfold encodeChar
  simp only
  split
  · next h =>
    rw [List.cons_append, decodeFrom_cons (by omega) (by rw [decodeByte_initial, decodeLead,
      if_pos h]), hc _ rfl]
    rfl
  split
  · next h1 h2 =>
    simp only [List.cons_append]
    rw [decodeFrom_cons (by omega) (by rw [decodeByte_initial, decodeLead_of_two (by omega)
        (by omega)]),
      decodeFrom_cons (by omega) (decodeByte_last rfl (by simp only; omega) (by simp only; omega)),
      hc _ (by simp only; omega)]
    rfl
  split
  · next h1 h2 h3 =>
    simp only [List.cons_append]
    rw [decodeFrom_cons (by omega) (by rw [decodeByte_initial, decodeLead_of_three (by omega)
        (by omega)]),
      decodeFrom_cons (by omega) (decodeByte_more (by simp only; omega)
        (by simp only; split <;> omega) (by simp only; split <;> omega)),
      decodeFrom_cons (by omega) (decodeByte_last rfl (by simp only; omega) (by simp only; omega)),
      hc _ (by simp only; omega)]
    rfl
  · next h1 h2 h3 =>
    simp only [List.cons_append]
    rw [decodeFrom_cons (by omega) (by rw [decodeByte_initial, decodeLead_of_four (by omega)
        (by omega)]),
      decodeFrom_cons (by omega) (decodeByte_more (by simp only; omega)
        (by simp only; split <;> omega) (by simp only; split <;> omega)),
      decodeFrom_cons (by omega) (decodeByte_more (by simp only; omega)
        (by simp only; omega) (by simp only; omega)),
      decodeFrom_cons (by omega) (decodeByte_last rfl (by simp only; omega) (by simp only; omega)),
      hc _ (by simp only; omega)]
    rfl

/-- **Encoding and decoding a text gives it back.** -/
@[simp] theorem decodeText_encodeText (t : Text) : decodeText (encodeText t) = t := by
  induction t with
  | nil => rfl
  | cons c t ih =>
    rw [encodeText, List.flatMap_cons, decodeText, decodeFrom_encodeChar]
    exact congrArg (c :: ·) ih

theorem encodeText_injective : Function.Injective encodeText := fun a b h => by
  rw [← decodeText_encodeText a, h, decodeText_encodeText]

@[simp] theorem encodeText_nil : encodeText [] = [] := rfl

@[simp] theorem encodeText_append (a b : Text) :
    encodeText (a ++ b) = encodeText a ++ encodeText b := List.flatMap_append

theorem not_lt_of_eq_ofNat {b : UInt8} {n : Nat} (hb : b = UInt8.ofNat n) (h1 : 0x80 ≤ n)
    (h2 : n < 256) : ¬ b.toNat < 0x80 := by
  rw [hb, toNat_ofNat_of_lt h2]
  omega

/-- A byte below 0x80 in an encoded character is the character itself. -/
theorem eq_of_mem_encodeChar {c : Char} {b : UInt8} (hb : b ∈ encodeChar c) (hlt : b.toNat < 0x80) :
    c.toNat = b.toNat := by
  have hv := char_toNat_range c
  unfold encodeChar at hb
  simp only at hb
  split at hb
  · rw [List.mem_singleton] at hb
    rw [hb, toNat_ofNat_of_lt (by omega)]
  split at hb
  · simp only [List.mem_cons, List.not_mem_nil, or_false] at hb
    rcases hb with hb | hb <;>
      exact absurd hlt (not_lt_of_eq_ofNat hb (by omega) (by omega))
  split at hb
  · simp only [List.mem_cons, List.not_mem_nil, or_false] at hb
    rcases hb with hb | hb | hb <;>
      exact absurd hlt (not_lt_of_eq_ofNat hb (by omega) (by omega))
  · simp only [List.mem_cons, List.not_mem_nil, or_false] at hb
    rcases hb with hb | hb | hb | hb <;>
      exact absurd hlt (not_lt_of_eq_ofNat hb (by omega) (by omega))

theorem mem_of_mem_encodeText {t : Text} {b : UInt8} (hb : b ∈ encodeText t)
    (hlt : b.toNat < 0x80) : Char.ofNat b.toNat ∈ t := by
  obtain ⟨c, hc, hb⟩ := List.mem_flatMap.mp hb
  rw [← eq_of_mem_encodeChar hb hlt, Char.ofNat_toNat]
  exact hc

/-! ## Decimal numbers -/

def natText (n : Nat) : Text := Nat.toDigits 10 n

/-- `/^\d+$/` and the number it names. -/
def parseNat (t : Text) : Option Nat :=
  if t ≠ [] ∧ t.all Char.isDigit then some (Nat.ofDigitChars 10 t 0) else none

theorem isDigit_of_mem_natText {n : Nat} {c : Char} (h : c ∈ natText n) : c.isDigit :=
  Nat.isDigit_of_mem_toDigits (by decide) (by decide) h

theorem natText_ne_nil (n : Nat) : natText n ≠ [] := Nat.toDigits_ne_nil

@[simp] theorem parseNat_natText (n : Nat) : parseNat (natText n) = some n := by
  rw [parseNat, if_pos ⟨natText_ne_nil n, List.all_eq_true.mpr fun c hc =>
    isDigit_of_mem_natText hc⟩]
  exact congrArg some (Nat.ofDigitChars_ten_toDigits)

theorem natText_injective : Function.Injective natText := fun a b h =>
  Option.some.inj (by rw [← parseNat_natText a, h, parseNat_natText])

end Telepty.Infra
