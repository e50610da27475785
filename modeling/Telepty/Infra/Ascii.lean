import Telepty.Infra.Text

/-!
# ASCII in UTF-8

An ASCII byte stands for its character wherever it is, also where it breaks a sequence off, and no
sequence stands for an ASCII character. So a decoded text has just the ASCII characters of its bytes.
-/

namespace Telepty.Infra

/-- What a decoder holds within a sequence stands for no ASCII character. -/
structure Utf8Decoder.Above (d : Utf8Decoder) : Prop where
  lower : d.needed ≠ 0 → 0x80 ≤ d.lower
  one : d.needed = 1 → 128 ≤ d.codePoint * 64 + (d.lower - 0x80)
  more : 1 < d.needed → 2 ≤ d.codePoint * 64 + (d.lower - 0x80)

theorem Utf8Decoder.above_initial : Utf8Decoder.initial.Above :=
  ⟨fun h => absurd rfl h, nofun, nofun⟩

section

variable {c : Char}

/-- A character of a code point is that code point's, or no character at all. -/
theorem eq_of_ofNat_eq {n : Nat} (h0 : 0 < c.toNat) (h : c = Char.ofNat n) : c.toNat = n := by
  subst h
  by_cases hn : n.isValidChar
  · rw [Char.ofNat, dif_pos hn]
    rfl
  · rw [Char.ofNat, dif_neg hn] at h0
    exact absurd h0 (by decide)

theorem ne_replacementChar (h : c.toNat < 128) : c ≠ replacementChar := by
  rintro rfl
  exact absurd h (by decide)

theorem above_decodeLead (h0 : 0 < c.toNat) (h : c.toNat < 128) (b : Nat) :
    (decodeLead b).1.Above ∧ (c ∈ (decodeLead b).2 ↔ b = c.toNat) := by
  unfold decodeLead
  split
  · refine ⟨Utf8Decoder.above_initial, ?_⟩
    rw [List.mem_singleton]
    exact ⟨fun hc => (eq_of_ofNat_eq h0 hc).symm, fun hb => by rw [hb, Char.ofNat_toNat]⟩
  split
  · exact ⟨⟨fun _ => Nat.le_refl _, fun _ => by dsimp only; omega,
      fun hn => by dsimp only at hn; omega⟩, by simp; omega⟩
  split
  · refine ⟨⟨fun _ => ?_, fun hn => by dsimp only at hn; omega, fun _ => ?_⟩, by simp; omega⟩ <;>
      dsimp only <;> split <;> omega
  split
  · refine ⟨⟨fun _ => ?_, fun hn => by dsimp only at hn; omega, fun _ => ?_⟩, by simp; omega⟩ <;>
      dsimp only <;> split <;> omega
  · refine ⟨Utf8Decoder.above_initial, ?_⟩
    rw [List.mem_singleton]
    exact ⟨fun hc => absurd hc (ne_replacementChar h), fun hb => by omega⟩

/-- One byte gives the character just if it stands for it. -/
theorem above_decodeByte {d : Utf8Decoder} (hd : d.Above) (h0 : 0 < c.toNat) (h : c.toNat < 128)
    (b : Nat) : (decodeByte d b).1.Above ∧ (c ∈ (decodeByte d b).2 ↔ b = c.toNat) := by
  have hlead := above_decodeLead h0 h b
  unfold decodeByte
  split
  · exact hlead
  next hn =>
  have hlow := hd.lower hn
  split
  · next hb =>
    split
    · next hone =>
      have := hd.one hone
      refine ⟨Utf8Decoder.above_initial, ?_⟩
      rw [List.mem_singleton]
      refine ⟨fun hc => ?_, fun hb => by omega⟩
      have := eq_of_ofNat_eq h0 hc
      omega
    · next hone =>
      have := hd.more (by omega)
      exact ⟨⟨fun _ => Nat.le_refl _, fun _ => by dsimp only; omega, fun _ => by dsimp only; omega⟩,
        by simp; omega⟩
  · refine ⟨hlead.1, ?_⟩
    rw [List.mem_cons, hlead.2]
    exact ⟨fun hc => hc.resolve_left (ne_replacementChar h), .inr⟩

theorem mem_decodeFrom {d : Utf8Decoder} (hd : d.Above) (h0 : 0 < c.toNat) (h : c.toNat < 128)
    (b : Bytes) : c ∈ decodeFrom d b ↔ UInt8.ofNat c.toNat ∈ b := by
  induction b generalizing d with
  | nil =>
    rw [decodeFrom]
    split
    · simp
    · simp [ne_replacementChar h]
  | cons x b ih =>
    obtain ⟨habove, hx⟩ := above_decodeByte hd h0 h x.toNat
    have hbyte : x.toNat = c.toNat ↔ UInt8.ofNat c.toNat = x := by
      constructor
      · intro hc
        rw [← hc, UInt8.ofNat_toNat]
      · rintro rfl
        exact toNat_ofNat_of_lt (by omega)
    rw [decodeFrom, List.mem_append, hx, ih habove, hbyte, List.mem_cons]

/-- **A text has the ASCII characters of its bytes.** -/
theorem mem_decodeText (h0 : 0 < c.toNat) (h : c.toNat < 128) (b : Bytes) :
    c ∈ decodeText b ↔ UInt8.ofNat c.toNat ∈ b :=
  mem_decodeFrom Utf8Decoder.above_initial h0 h b

theorem decodeFrom_ascii {d : Utf8Decoder} (hd : d.Above) (h0 : 0 < c.toNat) (h : c.toNat < 128)
    (x y : Bytes) :
    decodeFrom d (x ++ UInt8.ofNat c.toNat :: y) = decodeFrom d x ++ c :: decodeText y := by
  have hlead : decodeLead c.toNat = (.initial, [c]) := by
    rw [decodeLead, if_pos h, Char.ofNat_toNat]
  induction x generalizing d with
  | nil =>
    rw [List.nil_append, decodeFrom, decodeFrom, toNat_ofNat_of_lt (by omega), decodeByte]
    by_cases hn : d.needed = 0
    · rw [if_pos hn, if_pos hn, hlead]
      rfl
    · have hlow := hd.lower hn
      rw [if_neg hn, if_neg hn, if_neg (by omega), hlead]
      rfl
  | cons b x ih =>
    rw [List.cons_append, decodeFrom, decodeFrom, ih (above_decodeByte hd h0 h b.toNat).1,
      List.append_assoc]

/-- **The lines of a text are the texts of the lines.** -/
theorem splitOn_decodeText (h0 : 0 < c.toNat) (h : c.toNat < 128) (b : Bytes) :
    (decodeText b).splitOn c = (b.splitOn (UInt8.ofNat c.toNat)).map decodeText := by
  induction hn : b.length using Nat.strong_induction_on generalizing b with
  | _ n ih =>
    by_cases hmem : UInt8.ofNat c.toNat ∈ b
    · obtain ⟨x, y, rfl, hx⟩ := List.eq_append_cons_of_mem hmem
      have hy : y.length < n := by
        rw [← hn, List.length_append, List.length_cons]
        omega
      have hc : c ∉ decodeText x := fun hmem => hx ((mem_decodeText h0 h x).mp hmem)
      rw [List.splitOn_append_cons_self_of_not_mem hx, decodeText,
        decodeFrom_ascii Utf8Decoder.above_initial h0 h, ← decodeText,
        List.splitOn_append_cons_self_of_not_mem hc, ih _ hy y rfl, List.map_cons]
    · have hc : c ∉ decodeText b := fun hc => hmem ((mem_decodeText h0 h b).mp hc)
      rw [List.splitOn_eq_singleton hc, List.splitOn_eq_singleton hmem, List.map_singleton]

end

end Telepty.Infra
