import Telepty.Infra.JsonToken

/-!
# Naturals in JSON texts

The decimal text of a natural is a JSON number, and read back it is that natural.
-/

namespace Telepty.Infra.Rfc8259

def printNat (n : Nat) : Units := codeUnits (natText n)

def readNat (t : Units) : Nat := (parseNat (scalars t)).getD 0

@[simp] theorem readNat_printNat (n : Nat) : readNat (printNat n) = n := by
  rw [readNat, printNat, scalars_codeUnits, parseNat_natText, Option.getD_some]

theorem unitsOfChar_digit {c : Char} (h : c.isDigit) :
    unitsOfChar c = [unit c] ∧ isDigit (unit c) ∧ (unit c = unit '0' → c = '0') := by
  have hc : 48 ≤ c.toNat ∧ c.toNat ≤ 57 := by
    rw [Char.isDigit, Bool.and_eq_true, decide_eq_true_eq, decide_eq_true_eq] at h
    exact ⟨h.1, h.2⟩
  have hnat : (unit c).toNat = c.toNat := CodeUnit.toNat_ofNat (by omega)
  refine ⟨?_, ?_, fun h0 => ?_⟩
  · rw [unitsOfChar, if_pos (by omega)]
    rfl
  · have h30 : (0x30 : CodeUnit).toNat = 48 := rfl
    have h39 : (0x39 : CodeUnit).toNat = 57 := rfl
    rw [isDigit, CodeUnit.isDigit, Bool.and_eq_true, decide_eq_true_eq, decide_eq_true_eq,
      UInt16.le_iff_toNat_le, UInt16.le_iff_toNat_le]
    omega
  · have h0' : (unit '0').toNat = ('0' : Char).toNat := rfl
    rw [← Char.ofNat_toNat c, ← hnat, h0, h0', Char.ofNat_toNat]

theorem isDigit_codeUnits {t : Text} (h : ∀ c ∈ t, c.isDigit) : ∀ u ∈ codeUnits t, isDigit u := by
  intro u hu
  obtain ⟨c, hc, hu⟩ := List.mem_flatMap.mp hu
  obtain ⟨heq, hd, -⟩ := unitsOfChar_digit (h c hc)
  rw [heq, List.mem_singleton] at hu
  rwa [hu]

/-- A number other than 0 does not begin with 0. -/
theorem natText_head {n : Nat} (hn : n ≠ 0) : ∃ c ds, natText n = c :: ds ∧ c ≠ '0' := by
  induction n using Nat.strongRecOn with
  | ind n ih =>
    by_cases hlt : n < 10
    · refine ⟨n.digitChar, [], Nat.toDigits_of_lt_base hlt, ?_⟩
      have hall : ∀ m : Fin 10, m.val ≠ 0 → m.val.digitChar ≠ '0' := by decide
      exact hall ⟨n, hlt⟩ hn
    · obtain ⟨c, ds, heq, hc⟩ := ih (n / 10) (by omega) (by omega)
      refine ⟨c, ds ++ [(n % 10).digitChar], ?_, hc⟩
      rw [natText, Nat.toDigits_of_base_le (by decide) (by omega), ← natText, heq, List.cons_append]

/-- **The text of a natural is a number.** -/
theorem isNumber_printNat (n : Nat) : IsNumber (printNat n) := by
  have hint : IsInt (printNat n) := by
    by_cases hn : n = 0
    · rw [hn]
      exact .zero
    · obtain ⟨c, ds, heq, hc⟩ := natText_head hn
      have hdigits : ∀ x ∈ c :: ds, x.isDigit := fun x hx =>
        isDigit_of_mem_natText (n := n) (heq ▸ hx)
      obtain ⟨hunits, hd, h0⟩ := unitsOfChar_digit (hdigits c List.mem_cons_self)
      rw [printNat, heq, codeUnits, List.flatMap_cons, hunits, List.singleton_append]
      exact .digits hd (fun h => hc (h0 h))
        (isDigit_codeUnits fun x hx => hdigits x (List.mem_cons_of_mem _ hx))
  have h := IsNumber.mk (.inl rfl) hint .absent .absent
  rwa [List.nil_append, List.nil_append, List.append_nil] at h

end Telepty.Infra.Rfc8259
