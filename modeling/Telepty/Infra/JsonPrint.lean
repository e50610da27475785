import Telepty.Infra.Rfc8259

/-!
# JSON values as text

`JSON.stringify(value)`: what it writes the grammar derives, for the value it was given
(`isValue_stringify`). A surrogate that stands alone is written as an escape, so the text is well
formed (`toWellFormed_stringify`). How a number is written is a parameter.
-/

namespace Telepty.Infra.Rfc8259

/-! ## Strings -/

def hexUnit (n : Nat) : CodeUnit := UInt16.ofNat (if n < 10 then 0x30 + n else 0x57 + n)

/-- `\uXXXX` -/
def unicodeEscape (u : CodeUnit) : Units :=
  [reverseSolidus, unit 'u', hexUnit (u.toNat / 4096), hexUnit (u.toNat / 256 % 16),
    hexUnit (u.toNat / 16 % 16), hexUnit (u.toNat % 16)]

/-- A unit that is no surrogate. -/
def escapeUnit (u : CodeUnit) : Units :=
  if u = quotationMark ∨ u = reverseSolidus then [reverseSolidus, u]
  else if u = 0x08 then [reverseSolidus, unit 'b']
  else if u = 0x0C then [reverseSolidus, unit 'f']
  else if u = 0x0A then [reverseSolidus, unit 'n']
  else if u = 0x0D then [reverseSolidus, unit 'r']
  else if u = 0x09 then [reverseSolidus, unit 't']
  else if u < 0x20 then unicodeEscape u
  else [u]

def escape : Units → Units
  | [] => []
  | u :: t =>
    if u.isHighSurrogate then
      match t with
      | [] => unicodeEscape u
      | v :: t' =>
        if v.isLowSurrogate then u :: v :: escape t' else unicodeEscape u ++ escape (v :: t')
    else if u.isLowSurrogate then unicodeEscape u ++ escape t
    else escapeUnit u ++ escape t

/-- `JSON.stringify(s)` -/
def quote (s : Units) : Units := quotationMark :: (escape s ++ [quotationMark])

theorem hexValue_hexUnit {n : Nat} (h : n < 16) : hexValue (hexUnit n) = some n := by
  have hall : ∀ m : Fin 16, hexValue (hexUnit m.val) = some m.val := by decide
  exact hall ⟨n, h⟩

theorem isChars_unicodeEscape (u : CodeUnit) {t s r : Units} (h : IsChars t s r) :
    IsChars (unicodeEscape u ++ t) (u :: s) r := by
  have hu := u.toNat_lt
  refine .hex ?_ h
  rw [hex4, hexValue_hexUnit (by omega), hexValue_hexUnit (by omega), hexValue_hexUnit (by omega),
    hexValue_hexUnit (by omega)]
  have hval : 4096 * (u.toNat / 4096) + 256 * (u.toNat / 256 % 16) + 16 * (u.toNat / 16 % 16) +
      u.toNat % 16 = u.toNat := by omega
  simp only [Option.bind_some, Option.map_some, hval, UInt16.ofNat_toNat]

theorem isChars_escapeUnit (u : CodeUnit) {t s r : Units} (h : IsChars t s r) :
    IsChars (escapeUnit u ++ t) (u :: s) r := by
  rw [escapeUnit]
  split
  · next hu =>
    refine .short ?_ h
    rw [shortEscape, if_pos]
    rcases hu with hu | hu
    · exact .inl hu
    · exact .inr (.inl hu)
  · next hu =>
    rw [not_or] at hu
    repeat' split
    · next h8 =>
      rw [h8]
      exact .short (by decide) h
    · next hc =>
      rw [hc]
      exact .short (by decide) h
    · next ha =>
      rw [ha]
      exact .short (by decide) h
    · next hd =>
      rw [hd]
      exact .short (by decide) h
    · next h9 =>
      rw [h9]
      exact .short (by decide) h
    · exact isChars_unicodeEscape u h
    · next hlt => exact .plain ⟨hu.1, hu.2, hlt⟩ h

theorem unescaped_surrogate {u : CodeUnit} (h : 0xD800 ≤ u.toNat) : Unescaped u := by
  refine ⟨?_, ?_, ?_⟩
  · rintro rfl
    exact absurd h (by decide)
  · rintro rfl
    exact absurd h (by decide)
  · rw [UInt16.lt_iff_toNat_lt]
    have h20 : (0x20 : CodeUnit).toNat = 0x20 := rfl
    omega

/-- **A quoted string is read back.** -/
theorem isChars_escape (s : Units) (r : Units) :
    IsChars (escape s ++ quotationMark :: r) s r := by
  fun_induction escape s with
  | case1 => exact .close
  | case2 u hu => exact isChars_unicodeEscape u .close
  | case3 u hu v t hv ih =>
    have h1 := (CodeUnit.isHighSurrogate_iff u).mp hu
    have h2 := (CodeUnit.isLowSurrogate_iff v).mp hv
    exact .plain (unescaped_surrogate (by omega)) (.plain (unescaped_surrogate (by omega)) ih)
  | case4 u hu v t hv ih =>
    rw [List.append_assoc]
    exact isChars_unicodeEscape u ih
  | case5 u t hu hl ih =>
    rw [List.append_assoc]
    exact isChars_unicodeEscape u ih
  | case6 u t hu hl ih =>
    rw [List.append_assoc]
    exact isChars_escapeUnit u ih

/-! ## Values -/

/-- `texts.join(',')` -/
def join : List Units → Units
  | [] => []
  | [t] => t
  | t :: ts => t ++ unit ',' :: join ts

variable {N : Type} (print : N → Units)

mutual

/-- `JSON.stringify(value)` -/
def stringify : Value N → Units
  | .null => codeUnits "null"
  | .bool b => codeUnits (if b then "true" else "false")
  | .num n => print n
  | .str s => quote s
  | .arr vs => unit '[' :: (join (stringifyItems vs) ++ [unit ']'])
  | .obj ms => unit '{' :: (join (stringifyMembers ms) ++ [unit '}'])

def stringifyItems : List (Value N) → List Units
  | [] => []
  | v :: vs => stringify v :: stringifyItems vs

def stringifyMembers : List (Units × Value N) → List Units
  | [] => []
  | (k, v) :: ms => (quote k ++ unit ':' :: stringify v) :: stringifyMembers ms

end

theorem stringifyItems_eq (vs : List (Value N)) :
    stringifyItems print vs = vs.map (stringify print) := by
  induction vs with
  | nil => rfl
  | cons v vs ih => rw [stringifyItems, ih, List.map_cons]

theorem stringifyMembers_eq (ms : List (Units × Value N)) :
    stringifyMembers print ms = ms.map fun m => quote m.1 ++ unit ':' :: stringify print m.2 := by
  induction ms with
  | nil => rfl
  | cons m ms ih => rw [stringifyMembers, ih, List.map_cons]

section Derived

variable {E : Type} {P : Units → E → Units → Prop}

/-- Elements that are written are read back. -/
theorem elements_join (close : CodeUnit) {es : List E} (hne : es ≠ []) (write : E → Units)
    (h : ∀ e ∈ es, ∀ r, P (write e ++ r) e r) (r : Units) :
    Elements close P (join (es.map write) ++ close :: r) es r := by
  induction es with
  | nil => exact absurd rfl hne
  | cons e es ih =>
    cases es with
    | nil =>
      exact .last (Ws.refl _) (h e List.mem_cons_self _) (Ws.refl _)
    | cons e' es =>
      rw [List.forall_mem_cons] at h
      have hjoin : join ((e :: e' :: es).map write) ++ close :: r =
          write e ++ (unit ',' :: (join ((e' :: es).map write) ++ close :: r)) := by
        simp [join]
      rw [hjoin]
      exact .more (Ws.refl _) (h.1 _) (Ws.refl _) (ih (List.cons_ne_nil _ _) h.2)

end Derived

variable {print} {read : Units → N} {p : N → Bool}

theorem quote_append (s r : Units) :
    quote s ++ r = quotationMark :: (escape s ++ quotationMark :: r) := by
  simp [quote]

theorem isValue_noItems (r : Units) : IsValue read (stringify print (.arr []) ++ r) (.arr []) r :=
  .noItems (Ws.refl _)

theorem isValue_noMembers (r : Units) :
    IsValue read (stringify print (.obj []) ++ r) (.obj []) r :=
  .noMembers (Ws.refl _)

/-- **What is written the grammar derives.** -/
theorem isValue_stringify (hprint : ∀ n, p n → IsNumber (print n) ∧ read (print n) = n)
    (v : Value N) (hv : v.Numbers p) (r : Units) :
    IsValue read (stringify print v ++ r) v r := by
  obtain ⟨hnum, hchildren⟩ := (Value.numbers_iff p v).mp hv
  induction v using Value.induct generalizing r with
  | leaf v hc =>
    cases v with
    | null => exact .word (by simp [words, stringify])
    | bool b => cases b <;> exact .word (by simp [words, stringify])
    | num n =>
      obtain ⟨hlit, hread⟩ := hprint n (hnum n rfl)
      have h := @IsValue.num N read (print n) r hlit
      rw [hread] at h
      exact h
    | str s =>
      rw [stringify, quote_append]
      exact .str (isChars_escape s r)
    | arr vs =>
      rw [Value.children] at hc
      rw [hc]
      exact isValue_noItems r
    | obj ms =>
      rw [Value.children, List.map_eq_nil_iff] at hc
      rw [hc]
      exact isValue_noMembers r
  | arr vs ih =>
    by_cases hne : vs = []
    · rw [hne]
      exact isValue_noItems r
    · have hall : ∀ v ∈ vs, ∀ r, IsValue read (stringify print v ++ r) v r := fun v hmem r =>
        have h := (Value.numbers_iff p v).mp (hchildren v hmem)
        ih v hmem (hchildren v hmem) r h.1 h.2
      have h := elements_join (unit ']') hne (stringify print) hall r
      rw [stringify, stringifyItems_eq, List.cons_append, List.append_assoc]
      exact .arr h
  | obj ms ih =>
    by_cases hne : ms = []
    · rw [hne]
      exact isValue_noMembers r
    · have hall : ∀ m ∈ ms, ∀ r,
          IsMember (IsValue read) ((quote m.1 ++ unit ':' :: stringify print m.2) ++ r) m r := by
        intro m hmem r
        have hm := hchildren m.2 (List.mem_map_of_mem hmem)
        have h := (Value.numbers_iff p m.2).mp hm
        rw [List.append_assoc, quote_append]
        exact .mk (isChars_escape _ _) (Ws.refl _) (Ws.refl _) (ih m hmem hm r h.1 h.2)
      have h := elements_join (unit '}') hne
        (fun m => quote m.1 ++ unit ':' :: stringify print m.2) hall r
      rw [stringify, stringifyMembers_eq, List.cons_append, List.append_assoc]
      exact .obj h

/-! ## Well-formedness -/

/-- The text of characters. -/
def WellFormed (t : Units) : Prop := ∃ s, codeUnits s = t

theorem WellFormed.eq {t : Units} (h : WellFormed t) : toWellFormed t = t := by
  obtain ⟨s, rfl⟩ := h
  exact toWellFormed_codeUnits s

theorem wellFormed_codeUnits (s : Text) : WellFormed (codeUnits s) := ⟨s, rfl⟩

theorem WellFormed.append {t u : Units} (ht : WellFormed t) (hu : WellFormed u) :
    WellFormed (t ++ u) := by
  obtain ⟨a, rfl⟩ := ht
  obtain ⟨b, rfl⟩ := hu
  exact ⟨a ++ b, List.flatMap_append⟩

theorem toNat_charOfNat {n : Nat} (h : n.isValidChar) : (Char.ofNat n).toNat = n := by
  rw [Char.ofNat, dif_pos h]
  rfl

theorem wellFormed_unit {u : CodeUnit} (hu : u.toNat < 0xD800 ∨ 0xDFFF < u.toNat) :
    WellFormed [u] := by
  have hlt := u.toNat_lt
  have hn : (Char.ofNat u.toNat).toNat = u.toNat := toNat_charOfNat (by
    rcases hu with hu | hu
    · exact .inl hu
    · exact .inr ⟨hu, by omega⟩)
  refine ⟨[Char.ofNat u.toNat], ?_⟩
  rw [codeUnits, List.flatMap_singleton, unitsOfChar, hn, if_pos hlt, UInt16.ofNat_toNat]

theorem wellFormed_pair {u v : CodeUnit} (hu : u.isHighSurrogate) (hv : v.isLowSurrogate) :
    WellFormed [u, v] := by
  rw [CodeUnit.isHighSurrogate_iff] at hu
  rw [CodeUnit.isLowSurrogate_iff] at hv
  have hn : (pairChar u v).toNat =
      0x10000 + (u.toNat - 0xD800) * 0x400 + (v.toNat - 0xDC00) :=
    toNat_charOfNat (.inr ⟨by omega, by omega⟩)
  have hhigh : 0xD800 + ((pairChar u v).toNat - 0x10000) / 0x400 = u.toNat := by omega
  have hlow : 0xDC00 + ((pairChar u v).toNat - 0x10000) % 0x400 = v.toNat := by omega
  refine ⟨[pairChar u v], ?_⟩
  rw [codeUnits, List.flatMap_singleton, unitsOfChar, if_neg (by omega), hhigh, hlow,
    UInt16.ofNat_toNat, UInt16.ofNat_toNat]

/-- ASCII -/
theorem wellFormed_ascii {t : Units} (h : ∀ u ∈ t, u.toNat < 0x80) : WellFormed t := by
  induction t with
  | nil => exact ⟨[], rfl⟩
  | cons u t ih =>
    rw [List.forall_mem_cons] at h
    exact (wellFormed_unit (.inl (by omega))).append (ih h.2)

theorem IsNumber.wellFormed {lit : Units} (h : IsNumber lit) : WellFormed lit := by
  have hdigit {c : CodeUnit} (hc : isDigit c) : c.toNat < 0x80 := by
    simp only [isDigit, CodeUnit.isDigit, Bool.and_eq_true, decide_eq_true_eq,
      UInt16.le_iff_toNat_le] at hc
    have h39 : (0x39 : CodeUnit).toNat = 0x39 := rfl
    omega
  have hdigits {ds : Units} (hds : ∀ c ∈ ds, isDigit c) : WellFormed ds :=
    wellFormed_ascii fun c hc => hdigit (hds c hc)
  have hone {c : CodeUnit} (hc : c.toNat < 0x80) : WellFormed [c] :=
    wellFormed_unit (.inl (by omega))
  obtain ⟨hs, hi, hf, he⟩ := h
  refine WellFormed.append ?_ (WellFormed.append ?_ (WellFormed.append ?_ ?_))
  · rcases hs with rfl | rfl
    · exact ⟨[], rfl⟩
    · exact hone (by decide)
  · cases hi with
    | zero => exact hone (by decide)
    | digits hd _ hds => exact (hone (hdigit hd)).append (hdigits hds)
  · cases hf with
    | absent => exact ⟨[], rfl⟩
    | present _ hds =>
      exact (hone (by decide : (unit '.').toNat < 0x80)).append (hdigits hds)
  · cases he with
    | absent => exact ⟨[], rfl⟩
    | present he hs _ hds =>
      refine WellFormed.append (t := [_]) (hone ?_) (WellFormed.append ?_ (hdigits hds))
      · rcases he with rfl | rfl <;> decide
      · cases hs with
        | absent => exact ⟨[], rfl⟩
        | plus => exact hone (by decide)
        | minus => exact hone (by decide)

theorem hexUnit_lt {n : Nat} (h : n < 16) : (hexUnit n).toNat < 0x80 := by
  have hall : ∀ m : Fin 16, (hexUnit m.val).toNat < 0x80 := by decide
  exact hall ⟨n, h⟩

theorem wellFormed_unicodeEscape (u : CodeUnit) : WellFormed (unicodeEscape u) := by
  have hu := u.toNat_lt
  refine wellFormed_ascii fun x hx => ?_
  simp only [unicodeEscape, List.mem_cons, List.not_mem_nil, or_false] at hx
  rcases hx with rfl | rfl | rfl | rfl | rfl | rfl
  · decide
  · decide
  all_goals exact hexUnit_lt (by omega)

theorem wellFormed_escapeUnit {u : CodeUnit} (hu : u.toNat < 0xD800 ∨ 0xDFFF < u.toNat) :
    WellFormed (escapeUnit u) := by
  have hescape {e : CodeUnit} (he : e.toNat < 0x80) : WellFormed [reverseSolidus, e] := by
    refine wellFormed_ascii fun x hx => ?_
    rcases List.mem_cons.mp hx with rfl | hx
    · decide
    · rw [List.mem_singleton.mp hx]
      exact he
  rw [escapeUnit]
  repeat' split
  · next h =>
    refine hescape ?_
    rcases h with rfl | rfl <;> decide
  · exact hescape (by decide)
  · exact hescape (by decide)
  · exact hescape (by decide)
  · exact hescape (by decide)
  · exact hescape (by decide)
  · exact wellFormed_unicodeEscape u
  · exact wellFormed_unit hu

theorem wellFormed_escape (s : Units) : WellFormed (escape s) := by
  fun_induction escape s with
  | case1 => exact ⟨[], rfl⟩
  | case2 u hu => exact wellFormed_unicodeEscape u
  | case3 u hu v t hv ih => exact (wellFormed_pair hu hv).append ih
  | case4 u hu v t hv ih => exact (wellFormed_unicodeEscape u).append ih
  | case5 u t hu hl ih => exact (wellFormed_unicodeEscape u).append ih
  | case6 u t hu hl ih =>
    rw [CodeUnit.isHighSurrogate_iff] at hu
    rw [CodeUnit.isLowSurrogate_iff] at hl
    exact (wellFormed_escapeUnit (by omega)).append ih

theorem wellFormed_quote (s : Units) : WellFormed (quote s) := by
  have hq : WellFormed [quotationMark] := wellFormed_unit (.inl (by decide))
  exact hq.append ((wellFormed_escape s).append hq)

theorem wellFormed_join {ts : List Units} (h : ∀ t ∈ ts, WellFormed t) : WellFormed (join ts) := by
  induction ts with
  | nil => exact ⟨[], rfl⟩
  | cons t ts ih =>
    rw [List.forall_mem_cons] at h
    cases ts with
    | nil => exact h.1
    | cons t' ts =>
      have hc : WellFormed [unit ','] := wellFormed_unit (.inl (by decide))
      exact h.1.append (hc.append (ih h.2))

/-- **The text of a value is well formed.** -/
theorem wellFormed_stringify (hprint : ∀ n, p n → WellFormed (print n)) (v : Value N)
    (hv : v.Numbers p) : WellFormed (stringify print v) := by
  obtain ⟨hnum, hchildren⟩ := (Value.numbers_iff p v).mp hv
  have hone {c : CodeUnit} (hc : c.toNat < 0xD800) : WellFormed [c] := wellFormed_unit (.inl hc)
  induction v using Value.induct with
  | leaf v hc =>
    cases v with
    | null => exact wellFormed_codeUnits _
    | bool b => exact wellFormed_codeUnits _
    | num n => exact hprint n (hnum n rfl)
    | str s => exact wellFormed_quote s
    | arr vs =>
      rw [Value.children] at hc
      rw [hc]
      exact (hone (by decide : (unit '[').toNat < _)).append (hone (by decide))
    | obj ms =>
      rw [Value.children, List.map_eq_nil_iff] at hc
      rw [hc]
      exact (hone (by decide : (unit '{').toNat < _)).append (hone (by decide))
  | arr vs ih =>
    have hall : ∀ t ∈ vs.map (stringify print), WellFormed t := by
      intro t ht
      obtain ⟨v, hmem, rfl⟩ := List.mem_map.mp ht
      have h := (Value.numbers_iff p v).mp (hchildren v hmem)
      exact ih v hmem (hchildren v hmem) h.1 h.2
    rw [stringify, stringifyItems_eq]
    exact (hone (by decide : (unit '[').toNat < _)).append
      ((wellFormed_join hall).append (hone (by decide)))
  | obj ms ih =>
    have hall : ∀ t ∈ ms.map fun m => quote m.1 ++ unit ':' :: stringify print m.2,
        WellFormed t := by
      intro t ht
      obtain ⟨m, hmem, rfl⟩ := List.mem_map.mp ht
      have hm := hchildren m.2 (List.mem_map_of_mem hmem)
      have h := (Value.numbers_iff p m.2).mp hm
      exact (wellFormed_quote m.1).append
        ((hone (by decide : (unit ':').toNat < _)).append (ih m hmem hm h.1 h.2))
    rw [stringify, stringifyMembers_eq]
    exact (hone (by decide : (unit '{').toNat < _)).append
      ((wellFormed_join hall).append (hone (by decide)))

end Telepty.Infra.Rfc8259
