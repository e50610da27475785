import Telepty.Infra.JsonPrint

/-!
# A value on a line

What `JSON.stringify` writes has no control character, so a file of values can have one value on each
line, and its length is bounded by that of the texts and numbers in it.
-/

namespace Telepty.Infra

/-! ## Lengths in UTF-8 -/

theorem length_encodeChar_pos (c : Char) : 1 ≤ (encodeChar c).length := by
  rw [encodeChar]
  split_ifs <;> exact Nat.le_add_left 1 _

theorem length_encodeChar_bmp {c : Char} (h : c.toNat < 0x10000) : (encodeChar c).length ≤ 3 := by
  rw [encodeChar]
  split_ifs <;> simp

theorem length_encodeText_cons (c : Char) (t : Text) :
    (encodeText (c :: t)).length = (encodeChar c).length + (encodeText t).length := by
  rw [encodeText, List.flatMap_cons, List.length_append, ← encodeText]

theorem toNat_ofNat_lt (u : CodeUnit) : (Char.ofNat u.toNat).toNat < 0x10000 := by
  by_cases h : u.toNat.isValidChar
  · rw [Rfc8259.toNat_charOfNat h]
    exact u.toNat_lt
  · rw [Char.ofNat, dif_neg h]
    decide

theorem toNat_pairChar {u v : CodeUnit} (hu : u.isHighSurrogate) (hv : v.isLowSurrogate) :
    0x10000 ≤ (pairChar u v).toNat := by
  rw [CodeUnit.isHighSurrogate_iff] at hu
  rw [CodeUnit.isLowSurrogate_iff] at hv
  rw [pairChar, Rfc8259.toNat_charOfNat (by simp [Nat.isValidChar]; omega)]
  omega

theorem length_encodeChar_pair {u v : CodeUnit} (hu : u.isHighSurrogate) (hv : v.isLowSurrogate) :
    (encodeChar (pairChar u v)).length = 4 := by
  have h := toNat_pairChar hu hv
  rw [encodeChar, if_neg (by omega), if_neg (by omega), if_neg (by omega)]
  rfl

/-- A unit takes one byte at least and three at most. -/
theorem utf8Length_bounds (t : Units) : t.length ≤ utf8Length t ∧ utf8Length t ≤ 3 * t.length := by
  have hreplaced : (encodeChar replacementChar).length = 3 := by decide
  unfold utf8Length
  fun_induction scalars t with
  | case1 => exact ⟨Nat.le_refl _, Nat.le_refl _⟩
  | case2 u hu =>
    rw [length_encodeText_cons, hreplaced]
    exact ⟨Nat.le_add_left 1 2, Nat.le_refl 3⟩
  | case3 u hu v t hv ih =>
    rw [length_encodeText_cons, length_encodeChar_pair hu hv, List.length_cons, List.length_cons]
    omega
  | case4 u hu v t hv ih =>
    rw [length_encodeText_cons, hreplaced, List.length_cons]
    omega
  | case5 u t hu hl ih =>
    rw [length_encodeText_cons, hreplaced, List.length_cons]
    omega
  | case6 u t hu hl ih =>
    have hpos := length_encodeChar_pos (Char.ofNat u.toNat)
    have hle := length_encodeChar_bmp (toNat_ofNat_lt u)
    rw [length_encodeText_cons, List.length_cons]
    omega

namespace Rfc8259

/-- No control character of ASCII. -/
def Printable (t : Units) : Prop := ∀ u ∈ t, 0x20 ≤ u.toNat

theorem Printable.append {t t' : Units} (h : Printable t) (h' : Printable t') :
    Printable (t ++ t') := fun u hu => (List.mem_append.mp hu).elim (h u) (h' u)

theorem Printable.cons {u : CodeUnit} {t : Units} (hu : 0x20 ≤ u.toNat) (h : Printable t) :
    Printable (u :: t) := List.forall_mem_cons.mpr ⟨hu, h⟩

theorem printable_nil : Printable [] := fun _ h => absurd h List.not_mem_nil

theorem printable_digits {ds : Units} (h : ∀ c ∈ ds, isDigit c) : Printable ds := fun c hc => by
  have hd := h c hc
  simp only [isDigit, CodeUnit.isDigit, Bool.and_eq_true, decide_eq_true_eq,
    UInt16.le_iff_toNat_le] at hd
  have h30 : (0x30 : CodeUnit).toNat = 0x30 := rfl
  omega

theorem IsNumber.printable {lit : Units} (h : IsNumber lit) : Printable lit := by
  obtain ⟨hs, hi, hf, he⟩ := h
  refine Printable.append ?_ (Printable.append ?_ (Printable.append ?_ ?_))
  · rcases hs with rfl | rfl
    · exact printable_nil
    · exact .cons (by decide) printable_nil
  · cases hi with
    | zero => exact .cons (by decide) printable_nil
    | digits hd _ hds => exact printable_digits (List.forall_mem_cons.mpr ⟨hd, hds⟩)
  · cases hf with
    | absent => exact printable_nil
    | present _ hds => exact .cons (by decide) (printable_digits hds)
  · cases he with
    | absent => exact printable_nil
    | present he hs _ hds =>
      refine .cons ?_ (Printable.append ?_ (printable_digits hds))
      · rcases he with rfl | rfl <;> decide
      · cases hs with
        | absent => exact printable_nil
        | plus => exact .cons (by decide) printable_nil
        | minus => exact .cons (by decide) printable_nil

theorem printable_unicodeEscape (u : CodeUnit) : Printable (unicodeEscape u) := by
  have hhex : ∀ m : Fin 16, 0x20 ≤ (hexUnit m.val).toNat := by decide
  have hlt := u.toNat_lt
  refine .cons (by decide) (.cons (by decide) (.cons (hhex ⟨_, ?_⟩) (.cons (hhex ⟨_, ?_⟩)
    (.cons (hhex ⟨_, ?_⟩) (.cons (hhex ⟨_, ?_⟩) printable_nil))))) <;> omega

theorem printable_escapeUnit (u : CodeUnit) : Printable (escapeUnit u) := by
  rw [escapeUnit]
  split_ifs with hq h1 h2 h3 h4 h5 hlow
  · refine .cons (by decide) (.cons ?_ printable_nil)
    rcases hq with rfl | rfl <;> decide
  · exact .cons (by decide) (.cons (by decide) printable_nil)
  · exact .cons (by decide) (.cons (by decide) printable_nil)
  · exact .cons (by decide) (.cons (by decide) printable_nil)
  · exact .cons (by decide) (.cons (by decide) printable_nil)
  · exact .cons (by decide) (.cons (by decide) printable_nil)
  · exact printable_unicodeEscape u
  · exact .cons (Nat.not_lt.mp fun h => hlow (UInt16.lt_iff_toNat_lt.mpr h)) printable_nil

theorem length_escapeUnit_le (u : CodeUnit) : (escapeUnit u).length ≤ 6 := by
  rw [escapeUnit]
  split_ifs <;> simp [unicodeEscape]

theorem printable_escape (s : Units) : Printable (escape s) := by
  fun_induction escape s with
  | case1 => exact printable_nil
  | case2 u hu => exact printable_unicodeEscape u
  | case3 u hu v t hv ih =>
    rw [CodeUnit.isHighSurrogate_iff] at hu
    rw [CodeUnit.isLowSurrogate_iff] at hv
    exact .cons (by omega) (.cons (by omega) ih)
  | case4 u hu v t hv ih => exact (printable_unicodeEscape u).append ih
  | case5 u t hu hl ih => exact (printable_unicodeEscape u).append ih
  | case6 u t hu hl ih => exact (printable_escapeUnit u).append ih

theorem length_escape_le (s : Units) : (escape s).length ≤ 6 * s.length := by
  have hlength (u : CodeUnit) : (unicodeEscape u).length = 6 := rfl
  fun_induction escape s with
  | case1 => exact Nat.le_refl _
  | case2 u hu => exact Nat.le_refl _
  | case3 u hu v t hv ih =>
    simp only [List.length_cons]
    omega
  | case4 u hu v t hv ih =>
    simp only [List.length_append, List.length_cons, hlength] at ih ⊢
    omega
  | case5 u t hu hl ih =>
    simp only [List.length_append, List.length_cons, hlength]
    omega
  | case6 u t hu hl ih =>
    have hone := length_escapeUnit_le u
    simp only [List.length_append, List.length_cons]
    omega

theorem printable_quote (s : Units) : Printable (quote s) :=
  .cons (by decide) ((printable_escape s).append (.cons (by decide) printable_nil))

theorem length_quote_le (s : Units) : (quote s).length ≤ 6 * s.length + 2 := by
  have h := length_escape_le s
  simp only [quote, List.length_cons, List.length_append, List.length_nil]
  omega

theorem printable_join {ts : List Units} (h : ∀ t ∈ ts, Printable t) : Printable (join ts) := by
  induction ts with
  | nil => exact printable_nil
  | cons t ts ih =>
    rw [List.forall_mem_cons] at h
    cases ts with
    | nil => exact h.1
    | cons t' ts => exact h.1.append (.cons (by decide) (ih h.2))

/-- Texts of a length in a list, each with a comma. -/
theorem length_join_le {ts : List Units} {n : Nat} (h : ∀ t ∈ ts, t.length ≤ n) :
    (join ts).length ≤ ts.length * (n + 1) := by
  induction ts with
  | nil => exact Nat.zero_le _
  | cons t ts ih =>
    rw [List.forall_mem_cons] at h
    have hrest := ih h.2
    rw [List.length_cons, Nat.succ_mul]
    cases ts with
    | nil =>
      have h1 := h.1
      rw [join]
      omega
    | cons t' ts =>
      have h1 := h.1
      rw [join.eq_3 _ _ (List.cons_ne_nil _ _), List.length_append, List.length_cons]
      omega

variable {N : Type} {print : N → Units}

/-- An object whose members are texts and numbers is on one line. -/
theorem printable_obj {ms : List (Units × Value N)}
    (h : ∀ m ∈ ms, Printable (stringify print m.2)) : Printable (stringify print (.obj ms)) := by
  rw [stringify, stringifyMembers_eq]
  refine .cons (by decide) (Printable.append (printable_join fun t ht => ?_)
    (.cons (by decide) printable_nil))
  obtain ⟨m, hm, rfl⟩ := List.mem_map.mp ht
  exact (printable_quote m.1).append (.cons (by decide) (h m hm))

theorem length_obj_le {ms : List (Units × Value N)} {n k : Nat} (hn : ∀ m ∈ ms, m.1.length ≤ n)
    (hk : ∀ m ∈ ms, (stringify print m.2).length ≤ k) :
    (stringify print (.obj ms)).length ≤ ms.length * (6 * n + k + 4) + 2 := by
  have hjoin : (join (ms.map fun m => quote m.1 ++ unit ':' :: stringify print m.2)).length
      ≤ ms.length * (6 * n + k + 4) := by
    refine (length_join_le (n := 6 * n + k + 3) fun t ht => ?_).trans_eq (by rw [List.length_map])
    obtain ⟨m, hm, rfl⟩ := List.mem_map.mp ht
    have hname := length_quote_le m.1
    have h1 := hn m hm
    have h2 := hk m hm
    rw [List.length_append, List.length_cons]
    omega
  rw [stringify, stringifyMembers_eq, List.length_cons, List.length_append]
  exact Nat.succ_le_succ (Nat.add_le_add_right hjoin 1)

end Rfc8259

end Telepty.Infra
