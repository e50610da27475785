import Telepty.Infra.Text

/-!
# UTF-16 texts

A JavaScript string is a sequence of 16-bit code units. Where positions in it matter, or where a
half of a surrogate pair may stand alone, a text is modelled as that sequence.
-/

namespace Telepty.Infra

abbrev CodeUnit := UInt16

abbrev Units := List CodeUnit

instance : LawfulBEq Units := List.instLawfulBEq

-- a test of the one code unit, not of all that there are
instance (p : CodeUnit → Prop) [DecidablePred p] (u : Option CodeUnit) :
    Decidable (∃ c ∈ u, p c) := Option.decidableExistsMem u

def unitsOfChar (c : Char) : Units :=
  if c.toNat < 0x10000 then [UInt16.ofNat c.toNat]
  else
    [UInt16.ofNat (0xD800 + (c.toNat - 0x10000) / 0x400),
      UInt16.ofNat (0xDC00 + (c.toNat - 0x10000) % 0x400)]

/-- The code units of a text. -/
def codeUnits (t : Text) : Units := t.flatMap unitsOfChar

/-- A character of the Basic Multilingual Plane. -/
def unit (c : Char) : CodeUnit := UInt16.ofNat c.toNat

namespace CodeUnit

/-- `/\s/`, which is also what `trim` removes. -/
def isSpace (u : CodeUnit) : Bool :=
  (0x09 ≤ u && u ≤ 0x0D) || u = 0x20 || u = 0xA0 || u = 0x1680 || (0x2000 ≤ u && u ≤ 0x200A) ||
    u = 0x2028 || u = 0x2029 || u = 0x202F || u = 0x205F || u = 0x3000 || u = 0xFEFF

/-- `/\d/` -/
def isDigit (u : CodeUnit) : Bool := 0x30 ≤ u && u ≤ 0x39

/-- What `^` and `$` with the flag `m` stop at. -/
def isLineTerminator (u : CodeUnit) : Bool := u = 0x0A || u = 0x0D || u = 0x2028 || u = 0x2029

/-- An ASCII letter in lower case. -/
def lower (u : CodeUnit) : CodeUnit := if 0x41 ≤ u && u ≤ 0x5A then u + 0x20 else u

end CodeUnit

/-- `text.trim()` -/
def trimUnits (t : Units) : Units :=
  ((t.dropWhile CodeUnit.isSpace).reverse.dropWhile CodeUnit.isSpace).reverse

/-! ## Well-formed texts -/

namespace CodeUnit

def isHighSurrogate (u : CodeUnit) : Bool := 0xD800 ≤ u && u ≤ 0xDBFF

def isLowSurrogate (u : CodeUnit) : Bool := 0xDC00 ≤ u && u ≤ 0xDFFF

end CodeUnit

/-- The character of a surrogate pair. -/
def pairChar (high low : CodeUnit) : Char :=
  Char.ofNat (0x10000 + (high.toNat - 0xD800) * 0x400 + (low.toNat - 0xDC00))

/-- The characters of a text, with U+FFFD for every surrogate that stands alone. -/
def scalars : Units → Text
  | [] => []
  | u :: t =>
    if u.isHighSurrogate then
      match t with
      | [] => [replacementChar]
      | v :: t' =>
        if v.isLowSurrogate then pairChar u v :: scalars t' else replacementChar :: scalars (v :: t')
    else if u.isLowSurrogate then replacementChar :: scalars t
    else Char.ofNat u.toNat :: scalars t

/-- `text.toWellFormed()` -/
def toWellFormed (t : Units) : Units := codeUnits (scalars t)

theorem CodeUnit.toNat_ofNat {n : Nat} (h : n < 0x10000) : (UInt16.ofNat n).toNat = n := by
  simp [Nat.mod_eq_of_lt h]

theorem CodeUnit.isHighSurrogate_iff (u : CodeUnit) :
    u.isHighSurrogate ↔ 0xD800 ≤ u.toNat ∧ u.toNat ≤ 0xDBFF := by
  simp [isHighSurrogate, UInt16.le_iff_toNat_le]

theorem CodeUnit.isLowSurrogate_iff (u : CodeUnit) :
    u.isLowSurrogate ↔ 0xDC00 ≤ u.toNat ∧ u.toNat ≤ 0xDFFF := by
  simp [isLowSurrogate, UInt16.le_iff_toNat_le]

theorem scalars_cons_of_bmp {u : CodeUnit} (t : Units) (hu : u.toNat < 0xD800 ∨ 0xDFFF < u.toNat) :
    scalars (u :: t) = Char.ofNat u.toNat :: scalars t := by
  rw [scalars.eq_def]
  simp only
  rw [if_neg, if_neg]
  · rw [CodeUnit.isLowSurrogate_iff]
    omega
  · rw [CodeUnit.isHighSurrogate_iff]
    omega

theorem scalars_pair {u v : CodeUnit} (t : Units) (hu : u.isHighSurrogate) (hv : v.isLowSurrogate) :
    scalars (u :: v :: t) = pairChar u v :: scalars t := by
  rw [scalars.eq_def]
  simp only [hu, hv, if_true]

theorem scalars_unitsOfChar (c : Char) (rest : Units) :
    scalars (unitsOfChar c ++ rest) = c :: scalars rest := by
  have hv := char_toNat_range c
  rw [unitsOfChar]
  split
  · next h =>
    have hn := CodeUnit.toNat_ofNat h
    rw [List.singleton_append, scalars_cons_of_bmp _ (by omega), hn, Char.ofNat_toNat]
  · next h =>
    have hhigh : (0xD800 + (c.toNat - 0x10000) / 0x400) < 0x10000 := by omega
    have hlow : (0xDC00 + (c.toNat - 0x10000) % 0x400) < 0x10000 := by omega
    rw [List.cons_append, List.singleton_append, scalars_pair, pairChar,
      CodeUnit.toNat_ofNat hhigh, CodeUnit.toNat_ofNat hlow]
    · have hc : 0x10000 + (0xD800 + (c.toNat - 0x10000) / 0x400 - 0xD800) * 0x400 +
          (0xDC00 + (c.toNat - 0x10000) % 0x400 - 0xDC00) = c.toNat := by omega
      rw [hc, Char.ofNat_toNat]
    · rw [CodeUnit.isHighSurrogate_iff, CodeUnit.toNat_ofNat hhigh]
      omega
    · rw [CodeUnit.isLowSurrogate_iff, CodeUnit.toNat_ofNat hlow]
      omega

@[simp] theorem scalars_codeUnits (t : Text) : scalars (codeUnits t) = t := by
  induction t with
  | nil => rfl
  | cons c t ih => rw [codeUnits, List.flatMap_cons, scalars_unitsOfChar, ← codeUnits, ih]

@[simp] theorem scalars_toWellFormed (t : Units) : scalars (toWellFormed t) = scalars t :=
  scalars_codeUnits _

@[simp] theorem toWellFormed_codeUnits (t : Text) : toWellFormed (codeUnits t) = codeUnits t := by
  rw [toWellFormed, scalars_codeUnits]

/-- `Buffer.byteLength(t)` -/
def utf8Length (t : Units) : Nat := (encodeText (scalars t)).length

end Telepty.Infra
