import Telepty.Infra.Json

/-!
# Reading back a rendered JSON value

`parse_stringify`: every value is read back from its text. The induction is on the value; in front
of each part stands a text that the parser must stop at, so each lemma is stated with an arbitrary
rest, and for numbers with a rest that does not begin with a digit. A rendered text has no
character below U+0020, so it can stand on a line and before a tab.
-/

namespace Telepty.Infra

namespace Json

/-! ## Strings -/

theorem hexValue_hexDigit : ∀ n < 16, hexValue (hexDigit n) = some n := by decide

theorem ofNat_eq_of_toNat {c : Char} {n : Nat} (h : c.toNat = n) : Char.ofNat n = c := by
  rw [← h, Char.ofNat_toNat]

theorem unescape_control {c : Char} (h : c.toNat < 0x20) (t : Text) :
    unescape ('u' :: '0' :: '0' :: hexDigit (c.toNat / 16) :: hexDigit (c.toNat % 16) :: t)
      = some (c, t) := by
  have h0 : hexValue '0' = some 0 := by decide
  have h1 := hexValue_hexDigit (c.toNat / 16) (by omega)
  have h2 := hexValue_hexDigit (c.toNat % 16) (by omega)
  have hn : 16 * (c.toNat / 16) + c.toNat % 16 = c.toNat := by omega
  simp only [unescape, hex4, h0, h1, h2, Option.bind_eq_bind, Option.bind_some, Nat.mul_zero,
    Nat.zero_add, hn, Option.pure_def]
  rw [if_pos (by omega), Char.ofNat_toNat]

/-- Scanning one escaped character spends one unit of fuel and yields the character. -/
theorem scanString_escapeChar (c : Char) (fuel : Nat) (t : Text) :
    scanString (fuel + 1) (escapeChar c ++ t)
      = (scanString fuel t).map fun (s, t) => (c :: s, t) := by
  have hesc : ∀ (e : Text), unescape (e ++ t) = some (c, t) →
      scanString (fuel + 1) ('\\' :: e ++ t)
        = (scanString fuel t).map fun (s, t) => (c :: s, t) := by
    intro e he
    rw [List.cons_append, scanString, if_neg (by decide), if_pos rfl, he]
  unfold escapeChar
  split
  · next h => exact hesc ['"'] (by rw [h]; rfl)
  split
  · next h => exact hesc ['\\'] (by rw [h]; rfl)
  split
  · next h => exact hesc ['b'] (by simp only [List.cons_append, List.nil_append, unescape,
      ofNat_eq_of_toNat h])
  split
  · next h => exact hesc ['f'] (by simp only [List.cons_append, List.nil_append, unescape,
      ofNat_eq_of_toNat h])
  split
  · next h => exact hesc ['n'] (by simp only [List.cons_append, List.nil_append, unescape,
      ofNat_eq_of_toNat h])
  split
  · next h => exact hesc ['r'] (by simp only [List.cons_append, List.nil_append, unescape,
      ofNat_eq_of_toNat h])
  split
  · next h => exact hesc ['t'] (by simp only [List.cons_append, List.nil_append, unescape,
      ofNat_eq_of_toNat h])
  split
  · next h => exact hesc _ (unescape_control h t)
  · next h1 h2 _ _ _ _ _ h3 =>
    rw [List.cons_append, List.nil_append, scanString, if_neg h1, if_neg h2, if_neg h3]

theorem scanString_quoted (s t : Text) {fuel : Nat} (h : s.length < fuel) :
    scanString fuel (s.flatMap escapeChar ++ '"' :: t) = some (s, t) := by
  induction s generalizing fuel with
  | nil =>
    obtain ⟨f, rfl⟩ := Nat.exists_eq_succ_of_ne_zero (Nat.ne_of_gt h)
    rw [List.flatMap_nil, List.nil_append, scanString, if_pos rfl]
  | cons c s ih =>
    rw [List.length_cons] at h
    obtain ⟨f, rfl⟩ := Nat.exists_eq_succ_of_ne_zero (show fuel ≠ 0 by omega)
    rw [List.flatMap_cons, List.append_assoc, scanString_escapeChar, ih (by omega)]
    rfl

theorem length_le_flatMap_escapeChar (s : Text) : s.length ≤ (s.flatMap escapeChar).length := by
  induction s with
  | nil => simp
  | cons c s ih =>
    have hc : 1 ≤ (escapeChar c).length := by
      unfold escapeChar
      repeat' split
      all_goals simp
    rw [List.flatMap_cons, List.length_append, List.length_cons]
    omega

theorem length_quote (s : Text) : s.length + 2 ≤ (quote s).length := by
  have := length_le_flatMap_escapeChar s
  simp only [quote, List.length_append, List.length_cons, List.length_nil]
  omega

theorem quote_append (s t : Text) : quote s ++ t = '"' :: (s.flatMap escapeChar ++ '"' :: t) := by
  simp [quote]

/-! ## Numbers -/

/-- The text does not go on with a digit. -/
def NoDigit (t : Text) : Prop := ∀ c rest, t = c :: rest → c.isDigit = false

theorem noDigit_nil : NoDigit [] := fun _ _ h => by cases h

theorem noDigit_cons {c : Char} (t : Text) (h : c.isDigit = false) : NoDigit (c :: t) := by
  rintro c' rest ⟨⟩
  exact h

theorem spanDigits_append {ds t : Text} (hd : ∀ c ∈ ds, c.isDigit) (ht : NoDigit t) :
    spanDigits (ds ++ t) = (ds, t) := by
  induction ds with
  | nil =>
    cases t with
    | nil => rfl
    | cons c rest => rw [List.nil_append, spanDigits, ht c rest rfl]; rfl
  | cons c ds ih =>
    rw [List.cons_append, spanDigits, if_pos (hd c List.mem_cons_self),
      ih fun x hx => hd x (List.mem_cons_of_mem _ hx)]

theorem scanNat_natText (n : Nat) {t : Text} (ht : NoDigit t) :
    scanNat (natText n ++ t) = some (n, t) := by
  rw [scanNat, spanDigits_append (fun _ => isDigit_of_mem_natText) ht, parseNat_natText]
  simp

theorem numText_cons (n : Int) :
    ∃ c ds, numText n = c :: ds ∧ (c = '-' ∨ c.isDigit = true) := by
  unfold numText
  split
  · exact ⟨'-', _, rfl, .inl rfl⟩
  · cases hn : natText n.natAbs with
    | nil => exact absurd hn (natText_ne_nil _)
    | cons c ds => exact ⟨c, ds, rfl, .inr (isDigit_of_mem_natText (n := n.natAbs) (by simp [hn]))⟩

theorem scanNumber_numText (n : Int) {t : Text} (ht : NoDigit t) :
    scanNumber (numText n ++ t) = some (n, t) := by
  unfold numText
  split
  · next h =>
    rw [List.cons_append, scanNumber, scanNat_natText _ ht]
    simp only [Option.map_some, Option.some.injEq, Prod.mk.injEq, and_true]
    omega
  · next h =>
    unfold scanNumber
    split
    · next t' heq =>
      cases hn : natText n.natAbs with
      | nil => exact absurd hn (natText_ne_nil _)
      | cons c ds =>
        rw [hn] at heq
        have hd : c.isDigit := isDigit_of_mem_natText (n := n.natAbs) (by simp [hn])
        rw [List.cons_append, List.cons.injEq] at heq
        rw [heq.1] at hd
        exact absurd hd (by decide)
    · rw [scanNat_natText _ ht]
      simp only [Option.map_some, Option.some.injEq, Prod.mk.injEq, and_true]
      omega

/-! ## Values -/

theorem skipWs_cons {c : Char} (h : isWs c = false) (t : Text) : skipWs (c :: t) = c :: t := by
  rw [skipWs, h]
  rfl

/-- Where a value begins with none of the other leading characters it is a number. -/
theorem parseValue_number {c : Char} (hc : c = '-' ∨ c.isDigit = true) (fuel : Nat) (t : Text) :
    parseValue (fuel + 1) (c :: t) = (scanNumber (c :: t)).map fun (n, t) => (.num n, t) := by
  have hws : isWs c = false := by
    rcases hc with rfl | hd
    · decide
    · cases hw : isWs c with
      | false => rfl
      | true =>
        simp only [isWs, Bool.decide_or, Bool.or_eq_true, decide_eq_true_eq] at hw
        rcases hw with rfl | rfl | rfl | rfl <;> exact absurd hd (by decide)
  have hne : ∀ d : Char, d ≠ '-' → d.isDigit = false → c ≠ d := by
    rintro d h1 h2 rfl
    rcases hc with rfl | hd
    · exact h1 rfl
    · rw [h2] at hd; cases hd
  rw [parseValue, skipWs_cons hws]
  split
  · next heq => exact absurd (List.cons.inj heq).1 (hne _ (by decide) (by decide))
  · next heq => exact absurd (List.cons.inj heq).1 (hne _ (by decide) (by decide))
  · next heq => exact absurd (List.cons.inj heq).1 (hne _ (by decide) (by decide))
  · next heq => exact absurd (List.cons.inj heq).1 (hne _ (by decide) (by decide))
  · next heq => exact absurd (List.cons.inj heq).1 (hne _ (by decide) (by decide))
  · next heq => exact absurd (List.cons.inj heq).1 (hne _ (by decide) (by decide))
  · rfl

/-- A rendered value begins with a character that is neither white space nor a closing bracket. -/
theorem stringify_cons (v : Json) :
    ∃ c t, v.stringify = c :: t ∧ isWs c = false ∧ c ≠ ']' ∧ c ≠ '}' := by
  match v with
  | .null => exact ⟨'n', _, rfl, by decide, by decide, by decide⟩
  | .bool true => exact ⟨'t', _, rfl, by decide, by decide, by decide⟩
  | .bool false => exact ⟨'f', _, rfl, by decide, by decide, by decide⟩
  | .str s => exact ⟨'"', _, rfl, by decide, by decide, by decide⟩
  | .arr [] => exact ⟨'[', _, rfl, by decide, by decide, by decide⟩
  | .arr (x :: xs) => exact ⟨'[', _, rfl, by decide, by decide, by decide⟩
  | .obj [] => exact ⟨'{', _, rfl, by decide, by decide, by decide⟩
  | .obj ((k, v) :: ms) => exact ⟨'{', _, rfl, by decide, by decide, by decide⟩
  | .num n =>
    obtain ⟨c, ds, h, hc⟩ := numText_cons n
    refine ⟨c, ds, h, ?_⟩
    rcases hc with rfl | hd
    · exact ⟨by decide, by decide, by decide⟩
    · have hne : ∀ d : Char, d.isDigit = false → c ≠ d := by
        rintro d h2 rfl
        rw [h2] at hd
        cases hd
      refine ⟨?_, hne _ (by decide), hne _ (by decide)⟩
      simp [isWs, hne ' ' (by decide), hne '\n' (by decide), hne '\r' (by decide),
        hne '\t' (by decide)]

theorem scanKey_quote (k t : Text) {fuel : Nat} (h : k.length < fuel) :
    scanKey fuel (quote k ++ ':' :: t) = some (k, t) := by
  rw [quote_append, scanKey, skipWs_cons (by decide)]
  simp only [scanString_quoted k (':' :: t) h]
  rw [skipWs_cons (by decide)]
  rfl

theorem noDigit_items (xs : List Json) (t : Text) : NoDigit (stringifyItems xs ++ t) := by
  cases xs <;> exact noDigit_cons _ (by decide)

theorem noDigit_members (ms : List (Text × Json)) (t : Text) :
    NoDigit (stringifyMembers ms ++ t) := by
  cases ms <;> exact noDigit_cons _ (by decide)

mutual

theorem parseValue_stringify (v : Json) (t : Text) (fuel : Nat) (ht : NoDigit t)
    (h : v.stringify.length ≤ fuel) : parseValue fuel (v.stringify ++ t) = some (v, t) := by
  obtain ⟨f, rfl⟩ : ∃ f, fuel = f + 1 := by
    obtain ⟨c, r, hc, -⟩ := stringify_cons v
    rw [hc, List.length_cons] at h
    exact ⟨fuel - 1, by omega⟩
  match v with
  | .null => rw [stringify, parseValue]; rfl
  | .bool true => rw [stringify, parseValue]; rfl
  | .bool false => rw [stringify, parseValue]; rfl
  | .num n =>
    obtain ⟨c, ds, hc, hd⟩ := numText_cons n
    have hs := scanNumber_numText n ht
    rw [stringify]
    rw [hc, List.cons_append] at hs ⊢
    rw [parseValue_number hd, hs]
    rfl
  | .str s =>
    rw [stringify] at h ⊢
    have := length_quote s
    rw [quote_append, parseValue, skipWs_cons (by decide)]
    simp only [scanString_quoted s t (show s.length < f by omega), Option.map_some]
  | .arr [] => rw [stringify, parseValue]; rfl
  | .arr (x :: xs) =>
    rw [stringify] at h ⊢
    simp only [List.cons_append, List.length_cons, List.length_append] at h
    obtain ⟨c, r, hc, hws, hb, -⟩ := stringify_cons x
    have hx := parseValue_stringify x (stringifyItems xs ++ t) f (noDigit_items xs t) (by omega)
    have hxs := parseItems_stringify xs t f (by
      rw [hc, List.length_cons] at h
      omega)
    simp only [List.cons_append, List.append_assoc]
    rw [parseValue, skipWs_cons (by decide)]
    simp only
    rw [hc, List.cons_append] at hx ⊢
    rw [skipWs_cons hws]
    split
    · next heq => exact absurd (List.cons.inj heq).1 hb
    · next heq =>
      rw [hx]
      simp only [hxs, Option.map_some]
  | .obj [] => rw [stringify, parseValue]; rfl
  | .obj ((k, v) :: ms) =>
    rw [stringify] at h ⊢
    have hq := length_quote k
    simp only [List.cons_append, List.length_cons, List.length_append] at h
    have hk := scanKey_quote k (v.stringify ++ (stringifyMembers ms ++ t)) (show k.length < f by
      omega)
    have hv := parseValue_stringify v (stringifyMembers ms ++ t) f (noDigit_members ms t) (by omega)
    have hms := parseMembers_stringify ms t f (by omega)
    simp only [List.cons_append, List.append_assoc]
    rw [parseValue, skipWs_cons (by decide)]
    simp only
    rw [quote_append] at hk ⊢
    rw [skipWs_cons (by decide)]
    split
    · next heq => exact absurd (List.cons.inj heq).1 (by decide)
    · next heq =>
      rw [hk]
      simp only [hv, hms, Option.map_some]

theorem parseItems_stringify (xs : List Json) (t : Text) (fuel : Nat)
    (h : (stringifyItems xs).length ≤ fuel) :
    parseItems fuel (stringifyItems xs ++ t) = some (xs, t) := by
  match xs with
  | [] =>
    rw [stringifyItems] at h ⊢
    obtain ⟨f, rfl⟩ := Nat.exists_eq_succ_of_ne_zero (Nat.ne_of_gt h)
    rw [parseItems]
    rfl
  | x :: xs =>
    rw [stringifyItems] at h ⊢
    simp only [List.cons_append, List.length_cons, List.length_append] at h
    obtain ⟨f, rfl⟩ := Nat.exists_eq_succ_of_ne_zero (show fuel ≠ 0 by omega)
    have hx := parseValue_stringify x (stringifyItems xs ++ t) f (noDigit_items xs t) (by omega)
    have hxs := parseItems_stringify xs t f (by omega)
    simp only [List.cons_append, List.append_assoc]
    rw [parseItems, skipWs_cons (by decide)]
    simp only [hx, hxs, Option.map_some]

theorem parseMembers_stringify (ms : List (Text × Json)) (t : Text) (fuel : Nat)
    (h : (stringifyMembers ms).length ≤ fuel) :
    parseMembers fuel (stringifyMembers ms ++ t) = some (ms, t) := by
  match ms with
  | [] =>
    rw [stringifyMembers] at h ⊢
    obtain ⟨f, rfl⟩ := Nat.exists_eq_succ_of_ne_zero (Nat.ne_of_gt h)
    rw [parseMembers]
    rfl
  | (k, v) :: ms =>
    rw [stringifyMembers] at h ⊢
    have hq := length_quote k
    simp only [List.cons_append, List.length_cons, List.length_append] at h
    obtain ⟨f, rfl⟩ := Nat.exists_eq_succ_of_ne_zero (show fuel ≠ 0 by omega)
    have hk := scanKey_quote k (v.stringify ++ (stringifyMembers ms ++ t)) (show k.length < f by
      omega)
    have hv := parseValue_stringify v (stringifyMembers ms ++ t) f (noDigit_members ms t) (by omega)
    have hms := parseMembers_stringify ms t f (by omega)
    simp only [List.cons_append, List.append_assoc]
    rw [parseMembers, skipWs_cons (by decide)]
    simp only [hk, hv, hms, Option.map_some]

end

/-- **A value is read back from its text.** -/
@[simp] theorem parse_stringify (v : Json) : parse v.stringify = some v := by
  have h := parseValue_stringify v [] (v.stringify.length + 1) noDigit_nil (by omega)
  rw [List.append_nil] at h
  rw [parse, h]
  rfl

/-- A value is read back from its line. -/
@[simp] theorem parse_stringify_newline (v : Json) : parse (v.stringify ++ ['\n']) = some v := by
  have hn : NoDigit ['\n'] := noDigit_cons [] (by decide)
  have h := parseValue_stringify v ['\n'] ((v.stringify ++ ['\n']).length + 1) hn (by
    rw [List.length_append]
    omega)
  rw [parse, h]
  rfl

theorem stringify_injective : Function.Injective stringify := fun a b h =>
  Option.some.inj (by rw [← parse_stringify a, h, parse_stringify])

/-! ## The characters of a text -/

theorem le_of_mem_hexDigit : ∀ n < 16, 0x20 ≤ (hexDigit n).toNat := by decide

theorem le_of_mem_escapeChar {c d : Char} (h : d ∈ escapeChar c) : 0x20 ≤ d.toNat := by
  unfold escapeChar at h
  have hlit : ∀ l : Text, (l.all fun x => 0x20 ≤ x.toNat) = true → d ∈ l → 0x20 ≤ d.toNat :=
    fun l hl hd => of_decide_eq_true (List.all_eq_true.mp hl d hd)
  split at h
  · exact hlit _ (by decide) h
  split at h
  · exact hlit _ (by decide) h
  split at h
  · exact hlit _ (by decide) h
  split at h
  · exact hlit _ (by decide) h
  split at h
  · exact hlit _ (by decide) h
  split at h
  · exact hlit _ (by decide) h
  split at h
  · exact hlit _ (by decide) h
  split at h
  · next hc =>
    simp only [List.mem_cons, List.not_mem_nil, or_false] at h
    rcases h with rfl | rfl | rfl | rfl | rfl | rfl
    · decide
    · decide
    · decide
    · decide
    · exact le_of_mem_hexDigit _ (by omega)
    · exact le_of_mem_hexDigit _ (by omega)
  · next hc =>
    rw [List.mem_singleton] at h
    subst h
    omega

theorem le_of_mem_quote {s : Text} {d : Char} (h : d ∈ quote s) : 0x20 ≤ d.toNat := by
  rw [quote, List.cons_append, List.mem_cons, List.mem_append, List.mem_singleton] at h
  rcases h with rfl | h | rfl
  · decide
  · obtain ⟨c, -, h⟩ := List.mem_flatMap.mp h
    exact le_of_mem_escapeChar h
  · decide

theorem le_of_mem_numText {n : Int} {d : Char} (h : d ∈ numText n) : 0x20 ≤ d.toNat := by
  have hdig : d ∈ natText n.natAbs → 0x20 ≤ d.toNat := by
    intro hd
    have := isDigit_of_mem_natText hd
    simp only [Char.isDigit, Bool.and_eq_true, decide_eq_true_eq, ge_iff_le] at this
    exact Nat.le_trans (by decide) (UInt32.le_iff_toNat_le.mp this.1)
  unfold numText at h
  split at h
  · rw [List.mem_cons] at h
    rcases h with rfl | h
    · decide
    · exact hdig h
  · exact hdig h

mutual

/-- **A rendered value has no control character.** -/
theorem le_of_mem_stringify (v : Json) {d : Char} (h : d ∈ v.stringify) : 0x20 ≤ d.toNat := by
  have hlit : ∀ l : Text, (l.all fun x => 0x20 ≤ x.toNat) = true → d ∈ l → 0x20 ≤ d.toNat :=
    fun l hl hd => of_decide_eq_true (List.all_eq_true.mp hl d hd)
  match v with
  | .null => exact hlit _ (by decide) h
  | .bool true => exact hlit _ (by decide) h
  | .bool false => exact hlit _ (by decide) h
  | .num n => exact le_of_mem_numText h
  | .str s => exact le_of_mem_quote h
  | .arr [] => exact hlit _ (by decide) h
  | .arr (x :: xs) =>
    rw [stringify, List.cons_append, List.mem_cons, List.mem_append] at h
    rcases h with rfl | h | h
    · decide
    · exact le_of_mem_stringify x h
    · exact le_of_mem_items xs h
  | .obj [] => exact hlit _ (by decide) h
  | .obj ((k, v) :: ms) =>
    rw [stringify] at h
    simp only [List.cons_append, List.mem_cons, List.mem_append] at h
    rcases h with rfl | (h | rfl | h) | h
    · decide
    · exact le_of_mem_quote h
    · decide
    · exact le_of_mem_stringify v h
    · exact le_of_mem_members ms h

theorem le_of_mem_items (xs : List Json) {d : Char} (h : d ∈ stringifyItems xs) :
    0x20 ≤ d.toNat := by
  match xs with
  | [] =>
    rw [stringifyItems, List.mem_singleton] at h
    rw [h]
    decide
  | x :: xs =>
    rw [stringifyItems, List.cons_append, List.mem_cons, List.mem_append] at h
    rcases h with rfl | h | h
    · decide
    · exact le_of_mem_stringify x h
    · exact le_of_mem_items xs h

theorem le_of_mem_members (ms : List (Text × Json)) {d : Char} (h : d ∈ stringifyMembers ms) :
    0x20 ≤ d.toNat := by
  match ms with
  | [] =>
    rw [stringifyMembers, List.mem_singleton] at h
    rw [h]
    decide
  | (k, v) :: ms =>
    rw [stringifyMembers] at h
    simp only [List.cons_append, List.mem_cons, List.mem_append] at h
    rcases h with rfl | (h | rfl | h) | h
    · decide
    · exact le_of_mem_quote h
    · decide
    · exact le_of_mem_stringify v h
    · exact le_of_mem_members ms h

end

end Json

end Telepty.Infra
