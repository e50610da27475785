import Telepty.Infra.JsonRoundtrip
import Telepty.Infra.Jsonl

/-!
# Torn JSON texts

What a parser has read of a text it reads in the same way where the text goes on, unless it ended
with a number, whose digits may go on. An object ends with its brace: no text that is shorter than
the one of an object, and begins like it, is the text of an object.
-/

namespace Telepty.Infra

namespace Json

variable {t r x : Text} {fuel fuel' : Nat}

/-! ## Tokens -/

theorem skipWs_append (h : skipWs t ≠ []) : skipWs (t ++ x) = skipWs t ++ x := by
  induction t with
  | nil => exact absurd rfl h
  | cons c t ih =>
    rw [skipWs] at h ⊢
    rw [List.cons_append, skipWs]
    split
    · next hc =>
      rw [if_pos hc] at h
      exact ih h
    · rfl

theorem skipWs_append_of_eq {c : Char} (h : skipWs t = c :: r) : skipWs (t ++ x) = c :: (r ++ x) := by
  rw [skipWs_append (by rw [h]; exact List.cons_ne_nil c r), h, List.cons_append]

theorem unescape_append {c : Char} (h : unescape t = some (c, r)) :
    unescape (t ++ x) = some (c, r ++ x) := by
  unfold unescape at h
  split at h
  all_goals first
    | (obtain ⟨rfl, rfl⟩ := Prod.mk.inj (Option.some.inj h); rfl)
    | skip
  · next a b c' d t =>
    simp only [List.cons_append, unescape]
    split at h
    · cases h
    · next n hn =>
      split at h
      · next hlow =>
        obtain ⟨rfl, rfl⟩ := Prod.mk.inj (Option.some.inj h)
        rw [if_pos hlow]
      · next hlow =>
        rw [if_neg hlow]
        split at h
        · next hhigh =>
          rw [if_pos hhigh]
          split at h
          · next a' b' c'' d' t' =>
            simp only [List.cons_append]
            split at h
            · cases h
            · next m hm =>
              split at h
              · next hpair =>
                obtain ⟨rfl, rfl⟩ := Prod.mk.inj (Option.some.inj h)
                rw [if_pos hpair]
              · cases h
          · cases h
        · cases h
  · cases h

theorem scanString_append {s : Text} (hf : fuel ≤ fuel') (h : scanString fuel t = some (s, r)) :
    scanString fuel' (t ++ x) = some (s, r ++ x) := by
  induction fuel generalizing t s fuel' with
  | zero => cases h
  | succ fuel ih =>
    obtain ⟨fuel', rfl⟩ : ∃ n, fuel' = n + 1 := ⟨fuel' - 1, by omega⟩
    cases t with
    | nil => cases h
    | cons c t =>
      rw [scanString] at h
      rw [List.cons_append, scanString]
      split at h
      · next hc =>
        obtain ⟨rfl, rfl⟩ := Prod.mk.inj (Option.some.inj h)
        rw [if_pos hc]
      · next hc =>
        rw [if_neg hc]
        split at h
        · next hb =>
          rw [if_pos hb]
          split at h
          · cases h
          · next c' t' hu =>
            rw [unescape_append hu]
            obtain ⟨⟨s', r'⟩, hs, he⟩ := Option.map_eq_some_iff.mp h
            obtain ⟨rfl, rfl⟩ := Prod.mk.inj he
            dsimp only
            rw [ih (Nat.le_of_succ_le_succ hf) hs]
            rfl
        · next hb =>
          rw [if_neg hb]
          split at h
          · cases h
          · next hctl =>
            rw [if_neg hctl]
            obtain ⟨⟨s', r'⟩, hs, he⟩ := Option.map_eq_some_iff.mp h
            obtain ⟨rfl, rfl⟩ := Prod.mk.inj he
            rw [ih (Nat.le_of_succ_le_succ hf) hs]
            rfl

theorem scanKey_append {k : Text} (hf : fuel ≤ fuel') (h : scanKey fuel t = some (k, r)) :
    scanKey fuel' (t ++ x) = some (k, r ++ x) := by
  rw [scanKey] at h ⊢
  split at h
  · next rest ht =>
    rw [skipWs_append_of_eq ht]
    split at h
    · cases h
    · next s rest' hs =>
      simp only [scanString_append hf hs]
      split at h
      · next rest'' hcolon =>
        obtain ⟨rfl, rfl⟩ := Prod.mk.inj (Option.some.inj h)
        simp only [skipWs_append_of_eq hcolon]
      · cases h
  · cases h

theorem skipWs_ne_nil_of_scanKey {k : Text} (h : scanKey fuel t = some (k, r)) : skipWs t ≠ [] := by
  rw [scanKey] at h
  split at h
  · next rest ht =>
    rw [ht]
    exact List.cons_ne_nil _ rest
  · cases h

/-! ## Numbers -/

theorem spanDigits_append_of_ne (h : (spanDigits t).2 ≠ []) :
    spanDigits (t ++ x) = ((spanDigits t).1, (spanDigits t).2 ++ x) := by
  induction t with
  | nil => exact absurd rfl h
  | cons c t ih =>
    rw [spanDigits] at h ⊢
    rw [List.cons_append, spanDigits]
    split
    · next hc =>
      rw [if_pos hc] at h
      rw [ih h]
    · rfl

theorem scanNat_append {n : Nat} (h : scanNat t = some (n, r)) (hr : r ≠ []) :
    scanNat (t ++ x) = some (n, r ++ x) := by
  rw [scanNat] at h
  split at h
  · next m hm =>
    split at h
    · next htext =>
      obtain ⟨rfl, rfl⟩ := Prod.mk.inj (Option.some.inj h)
      rw [scanNat, spanDigits_append_of_ne hr]
      dsimp only
      rw [hm]
      dsimp only
      rw [if_pos htext]
    · cases h
  · cases h

theorem scanNumber_append {n : Int} (h : scanNumber t = some (n, r)) (hr : r ≠ []) :
    scanNumber (t ++ x) = some (n, r ++ x) := by
  unfold scanNumber at h
  split at h
  · next t' =>
    obtain ⟨⟨m, r'⟩, hm, he⟩ := Option.map_eq_some_iff.mp h
    obtain ⟨rfl, rfl⟩ := Prod.mk.inj he
    rw [List.cons_append, scanNumber, scanNat_append hm hr]
    rfl
  · next hneg =>
    obtain ⟨⟨m, r'⟩, hm, he⟩ := Option.map_eq_some_iff.mp h
    obtain ⟨rfl, rfl⟩ := Prod.mk.inj he
    have hmore := scanNat_append (x := x) hm hr
    unfold scanNumber
    split
    · next t' ht' =>
      cases t with
      | nil =>
        rw [scanNat] at hm
        cases hm
      | cons c t =>
        rw [List.cons_append, List.cons.injEq] at ht'
        exact absurd (congrArg (· :: t) ht'.1) (hneg t)
    · rw [hmore]
      rfl

/-- A number begins with its sign or a digit. -/
theorem scanNumber_start {n : Int} (h : scanNumber t = some (n, r)) :
    ∃ c rest, t = c :: rest ∧ (c = '-' ∨ c.isDigit = true) := by
  unfold scanNumber at h
  split at h
  · next rest => exact ⟨'-', rest, rfl, .inl rfl⟩
  · obtain ⟨⟨m, r'⟩, hm, -⟩ := Option.map_eq_some_iff.mp h
    rw [scanNat] at hm
    cases t with
    | nil => cases hm
    | cons c rest =>
      refine ⟨c, rest, rfl, .inr ?_⟩
      by_contra hc
      rw [spanDigits, if_neg hc] at hm
      cases hm

theorem isWs_of_start {c : Char} (h : c = '-' ∨ c.isDigit = true) : isWs c = false := by
  rcases h with rfl | hd
  · decide
  · rw [isWs, decide_eq_false_iff_not]
    rintro (rfl | rfl | rfl | rfl) <;> exact absurd hd (by decide)

/-! ## Values -/

/-- Whether the text of a value says itself where it ends. -/
def closed : Json → Bool
  | .num _ => false
  | _ => true

/-- What is parsed is not blank. -/
theorem skipWs_ne_nil_of_parseValue {v : Json} (h : parseValue fuel t = some (v, r)) :
    skipWs t ≠ [] := by
  intro hnil
  cases fuel with
  | zero =>
    rw [parseValue] at h
    cases h
  | succ fuel =>
    rw [parseValue, hnil] at h
    cases h

theorem skipWs_ne_nil_of_skipWs (h : skipWs (skipWs t) ≠ []) : skipWs t ≠ [] := by
  intro hnil
  rw [hnil] at h
  exact h rfl

theorem parseItems_nil {xs : List Json} (h : parseItems fuel [] = some (xs, r)) : False := by
  cases fuel <;> (rw [parseItems] at h; cases h)

theorem parseMembers_nil {ms : List (Text × Json)} (h : parseMembers fuel [] = some (ms, r)) :
    False := by
  cases fuel <;> (rw [parseMembers] at h; cases h)

/-- What does not begin with a character does not when it goes on. -/
theorem ne_of_append {c : Char} (hne : ∀ rest, t = c :: rest → False) (ht : skipWs t ≠ [])
    (rest : Text) : t ++ x ≠ c :: rest := by
  cases t with
  | nil => exact absurd rfl ht
  | cons d t =>
    intro h
    rw [List.cons_append, List.cons.injEq] at h
    exact hne t (by rw [h.1])

mutual

theorem parseValue_append {t r x : Text} {fuel fuel' : Nat} {v : Json} (hf : fuel ≤ fuel')
    (h : parseValue fuel t = some (v, r)) (hr : r ≠ [] ∨ v.closed = true) : parseValue fuel' (t ++ x) = some (v, r ++ x) := by
  cases fuel with
  | zero =>
    rw [parseValue] at h
    cases h
  | succ fuel =>
    obtain ⟨fuel', rfl⟩ : ∃ n, fuel' = n + 1 := ⟨fuel' - 1, by omega⟩
    have hle := Nat.le_of_succ_le_succ hf
    rw [parseValue] at h ⊢
    split at h
    · next t' ht =>
      obtain ⟨rfl, rfl⟩ := Prod.mk.inj (Option.some.inj h)
      rw [skipWs_append_of_eq ht]
      rfl
    · next t' ht =>
      obtain ⟨rfl, rfl⟩ := Prod.mk.inj (Option.some.inj h)
      rw [skipWs_append_of_eq ht]
      rfl
    · next t' ht =>
      obtain ⟨rfl, rfl⟩ := Prod.mk.inj (Option.some.inj h)
      rw [skipWs_append_of_eq ht]
      rfl
    · next rest ht =>
      obtain ⟨⟨s, r'⟩, hs, he⟩ := Option.map_eq_some_iff.mp h
      obtain ⟨rfl, rfl⟩ := Prod.mk.inj he
      rw [skipWs_append_of_eq ht]
      simp only [scanString_append hle hs, Option.map_some]
    · next rest ht =>
      rw [skipWs_append_of_eq ht]
      split at h
      · next rest' hend =>
        obtain ⟨rfl, rfl⟩ := Prod.mk.inj (Option.some.inj h)
        simp only [skipWs_append_of_eq hend]
      · next hne =>
        split at h
        · cases h
        · next v' rest' hv =>
          obtain ⟨⟨xs, r'⟩, hxs, he⟩ := Option.map_eq_some_iff.mp h
          obtain ⟨rfl, rfl⟩ := Prod.mk.inj he
          have hmore : rest' ≠ [] := by
            rintro rfl
            exact parseItems_nil hxs
          have hskip : skipWs (rest ++ x) = skipWs rest ++ x :=
            skipWs_append (skipWs_ne_nil_of_skipWs (skipWs_ne_nil_of_parseValue hv))
          simp only [hskip]
          split
          · next rest'' heq =>
            exact absurd heq (ne_of_append hne (skipWs_ne_nil_of_parseValue hv) rest'')
          · have hv' := parseValue_append (x := x) hle hv (.inl hmore)
            have hxs' := parseItems_append (x := x) hle hxs
            simp only [hv', hxs', Option.map_some]
    · next rest ht =>
      rw [skipWs_append_of_eq ht]
      split at h
      · next rest' hend =>
        obtain ⟨rfl, rfl⟩ := Prod.mk.inj (Option.some.inj h)
        simp only [skipWs_append_of_eq hend]
      · next hne =>
        split at h
        · cases h
        · next k rest' hk =>
          split at h
          · cases h
          · next v' rest'' hv =>
            obtain ⟨⟨ms, r'⟩, hms, he⟩ := Option.map_eq_some_iff.mp h
            obtain ⟨rfl, rfl⟩ := Prod.mk.inj he
            have hmore : rest'' ≠ [] := by
              rintro rfl
              exact parseMembers_nil hms
            have hskip : skipWs (rest ++ x) = skipWs rest ++ x :=
              skipWs_append (skipWs_ne_nil_of_skipWs (skipWs_ne_nil_of_scanKey hk))
            simp only [hskip]
            split
            · next rest''' heq =>
              exact absurd heq (ne_of_append hne (skipWs_ne_nil_of_scanKey hk) rest''')
            · have hv' := parseValue_append (x := x) hle hv (.inl hmore)
              have hms' := parseMembers_append (x := x) hle hms
              simp only [scanKey_append hle hk, hv', hms', Option.map_some]
    · obtain ⟨⟨n, r'⟩, hn, he⟩ := Option.map_eq_some_iff.mp h
      obtain ⟨rfl, rfl⟩ := Prod.mk.inj he
      have hmore : r' ≠ [] := hr.resolve_right Bool.false_ne_true
      obtain ⟨c, rest, hc, hstart⟩ := scanNumber_start hn
      have hnum := parseValue_number hstart fuel' (rest ++ x)
      rw [parseValue, skipWs_cons (isWs_of_start hstart)] at hnum
      rw [skipWs_append_of_eq hc, hnum, ← List.cons_append, ← hc, scanNumber_append hn hmore]
      rfl

theorem parseItems_append {t r x : Text} {fuel fuel' : Nat} {xs : List Json} (hf : fuel ≤ fuel')
    (h : parseItems fuel t = some (xs, r)) : parseItems fuel' (t ++ x) = some (xs, r ++ x) := by
  cases fuel with
  | zero =>
    rw [parseItems] at h
    cases h
  | succ fuel =>
    obtain ⟨fuel', rfl⟩ : ∃ n, fuel' = n + 1 := ⟨fuel' - 1, by omega⟩
    have hle := Nat.le_of_succ_le_succ hf
    rw [parseItems] at h ⊢
    split at h
    · next rest ht =>
      obtain ⟨rfl, rfl⟩ := Prod.mk.inj (Option.some.inj h)
      simp only [skipWs_append_of_eq ht]
    · next rest ht =>
      split at h
      · cases h
      · next v rest' hv =>
        obtain ⟨⟨xs, r'⟩, hxs, he⟩ := Option.map_eq_some_iff.mp h
        obtain ⟨rfl, rfl⟩ := Prod.mk.inj he
        have hmore : rest' ≠ [] := by
          rintro rfl
          exact parseItems_nil hxs
        have hv' := parseValue_append (x := x) hle hv (.inl hmore)
        have hxs' := parseItems_append (x := x) hle hxs
        simp only [skipWs_append_of_eq ht, hv', hxs', Option.map_some]
    · cases h

theorem parseMembers_append {t r x : Text} {fuel fuel' : Nat} {ms : List (Text × Json)}
    (hf : fuel ≤ fuel') (h : parseMembers fuel t = some (ms, r)) : parseMembers fuel' (t ++ x) = some (ms, r ++ x) := by
  cases fuel with
  | zero =>
    rw [parseMembers] at h
    cases h
  | succ fuel =>
    obtain ⟨fuel', rfl⟩ : ∃ n, fuel' = n + 1 := ⟨fuel' - 1, by omega⟩
    have hle := Nat.le_of_succ_le_succ hf
    rw [parseMembers] at h ⊢
    split at h
    · next rest ht =>
      obtain ⟨rfl, rfl⟩ := Prod.mk.inj (Option.some.inj h)
      simp only [skipWs_append_of_eq ht]
    · next rest ht =>
      split at h
      · cases h
      · next k rest' hk =>
        split at h
        · cases h
        · next v rest'' hv =>
          obtain ⟨⟨ms, r'⟩, hms, he⟩ := Option.map_eq_some_iff.mp h
          obtain ⟨rfl, rfl⟩ := Prod.mk.inj he
          have hmore : rest'' ≠ [] := by
            rintro rfl
            exact parseMembers_nil hms
          have hv' := parseValue_append (x := x) hle hv (.inl hmore)
          have hms' := parseMembers_append (x := x) hle hms
          simp only [skipWs_append_of_eq ht, scanKey_append hle hk, hv', hms', Option.map_some]
    · cases h

end

/-! ## Objects -/

/-- **What begins like the text of an object, and parses as an object or a list, is that text.** -/
theorem eq_of_prefix {ms : List (Text × Json)} {v : Json} (hp : t <+: stringify (.obj ms))
    (h : parse t = some v) (hv : v.closed = true) : t = stringify (.obj ms) := by
  obtain ⟨x, hx⟩ := hp
  rw [parse] at h
  split at h
  · next v' r hparse =>
    split at h
    · next hblank =>
      obtain rfl := Option.some.inj h
      have hlen : t.length + 1 ≤ (stringify (.obj ms)).length + 1 := by
        rw [← hx, List.length_append]
        omega
      have hmore := parseValue_append (x := x) hlen hparse (.inr hv)
      have hall := parseValue_stringify (.obj ms) [] ((stringify (.obj ms)).length + 1) noDigit_nil
        (by omega)
      rw [hx] at hmore
      rw [List.append_nil, hmore] at hall
      obtain ⟨-, hr⟩ := Prod.mk.inj (Option.some.inj hall)
      rw [← hx, (List.append_eq_nil_iff.mp hr).2, List.append_nil]
    · cases h
  · cases h

end Json

/-! ## Bytes -/

/-- Texts whose bytes begin alike begin alike. -/
theorem prefix_of_encodeText {s t : Text} (h : encodeText t <+: encodeText s) : t <+: s := by
  obtain ⟨b, hb⟩ := h
  refine ⟨decodeText b, ?_⟩
  rw [← decodeText_append, hb, decodeText_encodeText]

end Telepty.Infra
