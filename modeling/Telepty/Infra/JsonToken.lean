import Mathlib.Data.List.TakeWhile
import Telepty.Infra.Utf16

/-!
# The tokens of RFC 8259

Whitespace, numbers and strings of a JSON text as the grammar of RFC 8259 has them, and the scanner
of each. A text is a sequence of UTF-16 units. A token is a relation between the text at its
beginning and the text behind it; the scanner finds it.
-/

namespace Telepty.Infra.Rfc8259

/-- What is left of a text behind the unit `c`. -/
def after (c : CodeUnit) : Units → Option Units
  | [] => none
  | u :: t => if u = c then some t else none

theorem after_eq_some {c : CodeUnit} {t r : Units} : after c t = some r ↔ t = c :: r := by
  cases t with
  | nil => simp [after]
  | cons u t =>
    rw [after]
    split
    · next h => simp [h]
    · next h => simp [h]

@[simp] theorem after_self (c : CodeUnit) (t : Units) : after c (c :: t) = some t :=
  after_eq_some.mpr rfl

theorem after_cons_of_ne {c u : CodeUnit} (t : Units) (h : u ≠ c) : after c (u :: t) = none := by
  rw [after, if_neg h]

/-- What is left of a text behind a word. -/
def afterWord (word t : Units) : Option Units :=
  if word <+: t then some (t.drop word.length) else none

theorem afterWord_eq_some {word t r : Units} : afterWord word t = some r ↔ t = word ++ r := by
  rw [afterWord]
  split
  · next h =>
    obtain ⟨s, rfl⟩ := h
    rw [List.drop_left, Option.some.injEq, List.append_cancel_left_eq]
  · next h =>
    constructor
    · rintro ⟨⟩
    · intro he
      exact absurd ⟨r, he.symm⟩ h

/-! ## Whitespace -/

/-- `/[\t\r\n ]/` -/
def isWs (c : CodeUnit) : Bool := c = 0x09 || c = 0x0D || c = 0x0A || c = 0x20

/-- `ws` -/
def Ws (t r : Units) : Prop := ∃ w, t = w ++ r ∧ ∀ c ∈ w, isWs c

def skipWs (t : Units) : Units := t.dropWhile isWs

/-- No whitespace is next. -/
def NoWs (t : Units) : Prop := ∀ c ∈ t.head?, isWs c = false

variable {t r r' : Units} {c : CodeUnit}

theorem Ws.refl (t : Units) : Ws t t := ⟨[], rfl, fun _ h => absurd h List.not_mem_nil⟩

theorem ws_skipWs (t : Units) : Ws t (skipWs t) :=
  ⟨t.takeWhile isWs, (List.takeWhile_append_dropWhile).symm, fun _ h => List.mem_takeWhile_imp h⟩

theorem noWs_skipWs (t : Units) : NoWs (skipWs t) := by
  intro c hc
  have hne : skipWs t ≠ [] := by
    rintro h
    rw [h] at hc
    cases hc
  have h := List.head_dropWhile_not isWs hne
  rw [List.head?_eq_some_head hne, Option.mem_some_iff] at hc
  rw [← hc]
  exact h

/-- Whitespace that ends before something else is skipped whole. -/
theorem Ws.skipWs_eq (h : Ws t r) (hr : NoWs r) : skipWs t = r := by
  obtain ⟨w, rfl, hw⟩ := h
  rw [skipWs, List.dropWhile_append_of_pos hw]
  cases r with
  | nil => rfl
  | cons c r => rw [List.dropWhile_cons_of_neg (by simp [hr c rfl])]

theorem noWs_nil : NoWs [] := fun _ h => by cases h

theorem noWs_cons (hc : isWs c = false) : NoWs (c :: t) := by
  intro d hd
  rw [List.head?_cons, Option.mem_some_iff] at hd
  rw [← hd]
  exact hc

/-! ## Numbers -/

def isDigit (c : CodeUnit) : Bool := c.isDigit

inductive IsInt : Units → Prop where
  | zero : IsInt [unit '0']
  | digits {d ds} (hd : isDigit d) (h0 : d ≠ unit '0') (hds : ∀ c ∈ ds, isDigit c) : IsInt (d :: ds)

inductive IsFrac : Units → Prop where
  | absent : IsFrac []
  | present {ds} (hne : ds ≠ []) (hds : ∀ c ∈ ds, isDigit c) : IsFrac (unit '.' :: ds)

inductive IsSign : Units → Prop where
  | absent : IsSign []
  | plus : IsSign [unit '+']
  | minus : IsSign [unit '-']

inductive IsExp : Units → Prop where
  | absent : IsExp []
  | present {e s ds} (he : e = unit 'e' ∨ e = unit 'E') (hs : IsSign s) (hne : ds ≠ [])
      (hds : ∀ c ∈ ds, isDigit c) : IsExp (e :: (s ++ ds))

/-- `number = [ minus ] int [ frac ] [ exp ]` -/
inductive IsNumber : Units → Prop where
  | mk {s i f e} (hs : s = [] ∨ s = [unit '-']) (hi : IsInt i) (hf : IsFrac f) (he : IsExp e) :
      IsNumber (s ++ (i ++ (f ++ e)))

/-- A number ends here: the unit that is next is none that could go on with it. -/
def NumberEnd (t : Units) : Prop :=
  ∀ c ∈ t.head?, isDigit c = false ∧ c ≠ unit '.' ∧ c ≠ unit 'e' ∧ c ≠ unit 'E'

theorem numberEnd_cons (hc : isDigit c = false ∧ c ≠ unit '.' ∧ c ≠ unit 'e' ∧ c ≠ unit 'E') :
    NumberEnd (c :: t) := by
  intro d hd
  rw [List.head?_cons, Option.mem_some_iff] at hd
  rw [← hd]
  exact hc

theorem numberEnd_nil : NumberEnd [] := fun _ h => by cases h

theorem NumberEnd.of_ws (hr : NumberEnd r) (h : Ws t r) : NumberEnd t := by
  obtain ⟨w, rfl, hw⟩ := h
  cases w with
  | nil => exact hr
  | cons c w =>
    have hc := hw c List.mem_cons_self
    simp only [isWs, Bool.or_eq_true, decide_eq_true_eq] at hc
    refine numberEnd_cons ?_
    rcases hc with ((rfl | rfl) | rfl) | rfl <;> decide

/-- `(?:0|[1-9]\d*)` -/
def scanInt : Units → Option (Units × Units)
  | [] => none
  | d :: t =>
    if d = unit '0' then some ([d], t)
    else if isDigit d then some (d :: t.takeWhile isDigit, t.dropWhile isDigit)
    else none

/-- `(?:\.\d+)?` -/
def scanFrac (t : Units) : Units × Units :=
  match after (unit '.') t with
  | none => ([], t)
  | some u =>
    if u.takeWhile isDigit = [] then ([], t)
    else (unit '.' :: u.takeWhile isDigit, u.dropWhile isDigit)

/-- `[+-]?` -/
def scanSign : Units → Units × Units
  | [] => ([], [])
  | s :: t => if s = unit '+' ∨ s = unit '-' then ([s], t) else ([], s :: t)

/-- `(?:[eE][+-]?\d+)?` -/
def scanExp : Units → Units × Units
  | [] => ([], [])
  | e :: t =>
    if e = unit 'e' ∨ e = unit 'E' then
      if (scanSign t).2.takeWhile isDigit = [] then ([], e :: t)
      else (e :: ((scanSign t).1 ++ (scanSign t).2.takeWhile isDigit),
        (scanSign t).2.dropWhile isDigit)
    else ([], e :: t)

/-- `text.match(/^-?(?:0|[1-9]\d*)(?:\.\d+)?(?:[eE][+-]?\d+)?/)`, with what is left behind it. -/
def scanNumber (t : Units) : Option (Units × Units) :=
  let minus := after (unit '-') t
  match scanInt (minus.getD t) with
  | none => none
  | some (int, t) =>
    some ((if minus.isSome then [unit '-'] else []) ++ (int ++ ((scanFrac t).1 ++
      (scanExp (scanFrac t).2).1)), (scanExp (scanFrac t).2).2)

theorem scanInt_sound {i : Units} (h : scanInt t = some (i, r)) : t = i ++ r ∧ IsInt i := by
  cases t with
  | nil => cases h
  | cons d t =>
    rw [scanInt] at h
    split at h
    · next hd =>
      cases h
      rw [hd]
      exact ⟨rfl, .zero⟩
    · next h0 =>
      split at h
      · next hd =>
        cases h
        refine ⟨?_, .digits hd h0 fun c hc => List.mem_takeWhile_imp hc⟩
        rw [List.cons_append, List.takeWhile_append_dropWhile]
      · cases h

theorem scanFrac_sound (t : Units) : t = (scanFrac t).1 ++ (scanFrac t).2 ∧ IsFrac (scanFrac t).1 := by
  rw [scanFrac]
  split
  · exact ⟨rfl, .absent⟩
  · next u hu =>
    split
    · exact ⟨rfl, .absent⟩
    · next hne =>
      refine ⟨?_, .present hne fun c hc => List.mem_takeWhile_imp hc⟩
      rw [after_eq_some.mp hu, List.cons_append, List.takeWhile_append_dropWhile]

theorem scanSign_sound (t : Units) : t = (scanSign t).1 ++ (scanSign t).2 ∧ IsSign (scanSign t).1 := by
  cases t with
  | nil => exact ⟨rfl, .absent⟩
  | cons s t =>
    rw [scanSign]
    split
    · next h =>
      rcases h with rfl | rfl
      · exact ⟨rfl, .plus⟩
      · exact ⟨rfl, .minus⟩
    · exact ⟨rfl, .absent⟩

theorem scanExp_sound (t : Units) : t = (scanExp t).1 ++ (scanExp t).2 ∧ IsExp (scanExp t).1 := by
  cases t with
  | nil => exact ⟨rfl, .absent⟩
  | cons e t =>
    rw [scanExp]
    split
    · next he =>
      obtain ⟨ht, hs⟩ := scanSign_sound t
      split
      · exact ⟨rfl, .absent⟩
      · next hne =>
        refine ⟨?_, .present he hs hne fun c hc => List.mem_takeWhile_imp hc⟩
        rw [List.cons_append, List.append_assoc, List.takeWhile_append_dropWhile, ← ht]
    · exact ⟨rfl, .absent⟩

theorem scanNumber_sound {lit : Units} (h : scanNumber t = some (lit, r)) :
    t = lit ++ r ∧ IsNumber lit := by
  rw [scanNumber] at h
  split at h
  · cases h
  · next int u hint =>
    cases h
    obtain ⟨ht, hi⟩ := scanInt_sound hint
    obtain ⟨hu, hf⟩ := scanFrac_sound u
    obtain ⟨hv, he⟩ := scanExp_sound (scanFrac u).2
    have hminus : t = (if (after (unit '-') t).isSome then [unit '-'] else []) ++
        (after (unit '-') t).getD t := by
      cases hm : after (unit '-') t with
      | none => rfl
      | some s => exact after_eq_some.mp hm
    refine ⟨?_, .mk ?_ hi hf he⟩
    · simp only [List.append_assoc]
      rw [← hv, ← hu, ← ht]
      exact hminus
    · split
      · exact .inr rfl
      · exact .inl rfl

/-! A literal in front of something that does not go on with it is found whole. -/

theorem takeWhile_digits {ds : Units} (hds : ∀ c ∈ ds, isDigit c)
    (hr : ∀ c ∈ r.head?, isDigit c = false) :
    (ds ++ r).takeWhile isDigit = ds ∧ (ds ++ r).dropWhile isDigit = r := by
  rw [List.takeWhile_append_of_pos hds, List.dropWhile_append_of_pos hds]
  cases r with
  | nil => simp
  | cons c r =>
    have hc : ¬ isDigit c = true := by simp [hr c rfl]
    rw [List.takeWhile_cons_of_neg hc, List.dropWhile_cons_of_neg hc, List.append_nil]
    exact ⟨rfl, rfl⟩

theorem NumberEnd.noDigit (h : NumberEnd r) : ∀ c ∈ r.head?, isDigit c = false :=
  fun c hc => (h c hc).1

theorem IsExp.scanExp_append {e : Units} (he : IsExp e) (hr : NumberEnd r) :
    scanExp (e ++ r) = (e, r) := by
  cases he with
  | absent =>
    cases r with
    | nil => rfl
    | cons c r =>
      obtain ⟨-, -, h1, h2⟩ := hr c rfl
      rw [List.nil_append, scanExp, if_neg (by simp [h1, h2])]
  | @present e s ds he hs hne hds =>
    have hsign : scanSign (s ++ (ds ++ r)) = (s, ds ++ r) := by
      cases hs with
      | absent =>
        obtain ⟨d, ds', rfl⟩ := List.exists_cons_of_ne_nil hne
        have hd := hds d List.mem_cons_self
        rw [List.nil_append, List.cons_append, scanSign, if_neg]
        rintro (rfl | rfl)
        · exact absurd hd (by decide)
        · exact absurd hd (by decide)
      | plus => rfl
      | minus => rfl
    obtain ⟨h1, h2⟩ := takeWhile_digits hds hr.noDigit
    rw [List.cons_append, List.append_assoc, scanExp, if_pos he, hsign]
    simp only [h1, h2, if_neg hne]

/-- The exponent or what follows the number begins with no digit and no dot. -/
theorem IsExp.head {e : Units} (he : IsExp e) (hr : NumberEnd r) :
    ∀ c ∈ (e ++ r).head?, isDigit c = false ∧ c ≠ unit '.' := by
  intro c hc
  cases he with
  | absent => exact ⟨(hr c hc).1, (hr c hc).2.1⟩
  | present he =>
    rw [List.cons_append, List.head?_cons, Option.mem_some_iff] at hc
    rw [← hc]
    rcases he with rfl | rfl <;> decide

theorem IsFrac.scanFrac_append {f e : Units} (hf : IsFrac f) (he : IsExp e) (hr : NumberEnd r) :
    scanFrac (f ++ (e ++ r)) = (f, e ++ r) := by
  cases hf with
  | absent =>
    have hhead := he.head hr
    rw [List.nil_append, scanFrac]
    cases her : e ++ r with
    | nil => rfl
    | cons c t =>
      rw [her] at hhead
      rw [after_cons_of_ne t (hhead c rfl).2]
  | present hne hds =>
    obtain ⟨h1, h2⟩ := takeWhile_digits (r := e ++ r) hds fun c hc => (he.head hr c hc).1
    rw [List.cons_append, scanFrac, after_self]
    simp only [h1, h2, if_neg hne]

theorem IsFrac.head {f e : Units} (hf : IsFrac f) (he : IsExp e) (hr : NumberEnd r) :
    ∀ c ∈ (f ++ (e ++ r)).head?, isDigit c = false := by
  intro c hc
  cases hf with
  | absent => exact (he.head hr c hc).1
  | present =>
    rw [List.cons_append, List.head?_cons, Option.mem_some_iff] at hc
    rw [← hc]
    decide

theorem IsInt.scanInt_append {i : Units} (hi : IsInt i) (hr : ∀ c ∈ r.head?, isDigit c = false) :
    scanInt (i ++ r) = some (i, r) := by
  cases hi with
  | zero => rfl
  | digits hd h0 hds =>
    obtain ⟨h1, h2⟩ := takeWhile_digits hds hr
    rw [List.cons_append, scanInt, if_neg h0, if_pos hd, h1, h2]

theorem IsInt.head {i : Units} (hi : IsInt i) : ∃ d ds, i = d :: ds ∧ isDigit d := by
  cases hi with
  | zero => exact ⟨_, _, rfl, by decide⟩
  | digits hd => exact ⟨_, _, rfl, hd⟩

/-- The first unit of a number is a minus or a digit. -/
theorem IsNumber.head {lit : Units} (h : IsNumber lit) :
    ∃ c t, lit = c :: t ∧ (c = unit '-' ∨ isDigit c) := by
  obtain ⟨hs, hi, hf, he⟩ := h
  rcases hs with rfl | rfl
  · obtain ⟨d, ds, rfl, hd⟩ := hi.head
    exact ⟨d, _, rfl, .inr hd⟩
  · exact ⟨_, _, rfl, .inl rfl⟩

theorem ne_of_number_start {d : CodeUnit} (hc : c = unit '-' ∨ isDigit c)
    (hd : d ≠ unit '-' ∧ isDigit d = false) : c ≠ d := by
  rintro rfl
  rcases hc with hc | hc
  · exact hd.1 hc
  · rw [hd.2] at hc
    cases hc

theorem isWs_number_start (hc : c = unit '-' ∨ isDigit c) : isWs c = false := by
  rw [← Bool.not_eq_true]
  intro h
  simp only [isWs, Bool.or_eq_true, decide_eq_true_eq] at h
  rcases h with ((h | h) | h) | h
  all_goals exact ne_of_number_start hc (by decide) h

theorem IsNumber.scanNumber_append {lit : Units} (h : IsNumber lit) (hr : NumberEnd r) :
    scanNumber (lit ++ r) = some (lit, r) := by
  obtain ⟨hs, hi, hf, he⟩ := h
  next s i f e =>
  have hint : scanInt (i ++ (f ++ (e ++ r))) = some (i, f ++ (e ++ r)) :=
    hi.scanInt_append (hf.head he hr)
  rw [scanNumber]
  simp only [List.append_assoc]
  rcases hs with rfl | rfl
  · have hnone : after (unit '-') (i ++ (f ++ (e ++ r))) = none := by
      obtain ⟨d, ds, rfl, hd⟩ := hi.head
      refine after_cons_of_ne _ ?_
      rintro rfl
      exact absurd hd (by decide)
    rw [List.nil_append, hnone, Option.getD_none, hint]
    simp only [hf.scanFrac_append he hr, he.scanExp_append hr, Option.isSome_none,
      Bool.false_eq_true, if_false, List.nil_append]
  · rw [List.singleton_append, after_self, Option.getD_some, hint]
    simp only [hf.scanFrac_append he hr, he.scanExp_append hr, Option.isSome_some, if_true,
      List.singleton_append]

/-! ## Strings -/

def quotationMark : CodeUnit := unit '"'

def reverseSolidus : CodeUnit := unit '\\'

/-- The unit that a two-character escape stands for. -/
def shortEscape (e : CodeUnit) : Option CodeUnit :=
  if e = quotationMark ∨ e = reverseSolidus ∨ e = unit '/' then some e
  else if e = unit 'b' then some 0x08
  else if e = unit 'f' then some 0x0C
  else if e = unit 'n' then some 0x0A
  else if e = unit 'r' then some 0x0D
  else if e = unit 't' then some 0x09
  else none

def hexValue (c : CodeUnit) : Option Nat :=
  if isDigit c then some (c.toNat - 0x30)
  else if unit 'a' ≤ c ∧ c ≤ unit 'f' then some (c.toNat - 0x57)
  else if unit 'A' ≤ c ∧ c ≤ unit 'F' then some (c.toNat - 0x37)
  else none

/-- `4HEXDIG` -/
def hex4 (a b c d : CodeUnit) : Option CodeUnit :=
  (hexValue a).bind fun a => (hexValue b).bind fun b => (hexValue c).bind fun c =>
    (hexValue d).map fun d => UInt16.ofNat (4096 * a + 256 * b + 16 * c + d)

/-- A unit that stands for itself. -/
def Unescaped (c : CodeUnit) : Prop := c ≠ quotationMark ∧ c ≠ reverseSolidus ∧ ¬c < 0x20

theorem unescaped_of_hexValue {c : CodeUnit} {n : Nat} (h : hexValue c = some n) : Unescaped c := by
  refine ⟨?_, ?_, ?_⟩
  · rintro rfl
    have hnone : hexValue quotationMark = none := by decide
    rw [hnone] at h
    cases h
  · rintro rfl
    have hnone : hexValue reverseSolidus = none := by decide
    rw [hnone] at h
    cases h
  · intro hlt
    rw [hexValue, isDigit, CodeUnit.isDigit] at h
    simp only [unit, Bool.and_eq_true, decide_eq_true_eq, UInt16.le_iff_toNat_le,
      UInt16.lt_iff_toNat_lt] at h hlt
    split at h
    · next hd =>
      have := hd.1
      simp at this hlt
      omega
    split at h
    · next hd =>
      have := hd.1
      simp at this hlt
      omega
    split at h
    · next hd =>
      have := hd.1
      simp at this hlt
      omega
    · cases h

theorem unescaped_of_hex4 {a b c d u : CodeUnit} (h : hex4 a b c d = some u) :
    Unescaped a ∧ Unescaped b ∧ Unescaped c ∧ Unescaped d := by
  obtain ⟨na, ha, h⟩ := Option.bind_eq_some_iff.mp h
  obtain ⟨nb, hb, h⟩ := Option.bind_eq_some_iff.mp h
  obtain ⟨nc, hc, h⟩ := Option.bind_eq_some_iff.mp h
  obtain ⟨nd, hd, -⟩ := Option.map_eq_some_iff.mp h
  exact ⟨unescaped_of_hexValue ha, unescaped_of_hexValue hb, unescaped_of_hexValue hc,
    unescaped_of_hexValue hd⟩

/-- `*char quotation-mark`: the text behind the opening mark, its unescaped units, and the text
behind the closing mark. -/
inductive IsChars : Units → Units → Units → Prop where
  | close {r : Units} : IsChars (quotationMark :: r) [] r
  | plain {c : CodeUnit} {t s r : Units} (hc : Unescaped c) (h : IsChars t s r) :
      IsChars (c :: t) (c :: s) r
  | short {e u : CodeUnit} {t s r : Units} (he : shortEscape e = some u) (h : IsChars t s r) :
      IsChars (reverseSolidus :: e :: t) (u :: s) r
  | hex {a b c d u : CodeUnit} {t s r : Units} (hu : hex4 a b c d = some u) (h : IsChars t s r) :
      IsChars (reverseSolidus :: unit 'u' :: a :: b :: c :: d :: t) (u :: s) r

def scanHex : Units → Option (CodeUnit × Units)
  | a :: b :: c :: d :: t => (hex4 a b c d).map fun u => (u, t)
  | _ => none

/-- What an escape stands for, and what is left behind it. -/
def scanEscape : Units → Option (CodeUnit × Units)
  | [] => none
  | e :: t => if e = unit 'u' then scanHex t else (shortEscape e).map fun u => (u, t)

/-- The units up to the closing mark, with fuel for each. -/
def scanChars : Nat → Units → Option (Units × Units)
  | 0, _ => none
  | _ + 1, [] => none
  | fuel + 1, c :: t =>
    if c = quotationMark then some ([], t)
    else if c = reverseSolidus then
      match scanEscape t with
      | none => none
      | some (u, t) => (scanChars fuel t).map fun x => (u :: x.1, x.2)
    else if c < 0x20 then none
    else (scanChars fuel t).map fun x => (c :: x.1, x.2)

def scanString (t : Units) : Option (Units × Units) := scanChars t.length t

theorem scanEscape_eq_some {u : CodeUnit} (h : scanEscape t = some (u, r)) :
    (∃ e, t = e :: r ∧ shortEscape e = some u) ∨
      ∃ a b c d, t = unit 'u' :: a :: b :: c :: d :: r ∧ hex4 a b c d = some u := by
  cases t with
  | nil => cases h
  | cons e t =>
    rw [scanEscape] at h
    split at h
    · next he =>
      unfold scanHex at h
      split at h
      · next a b c d t =>
        obtain ⟨v, hv, hvu⟩ := Option.map_eq_some_iff.mp h
        cases hvu
        exact .inr ⟨a, b, c, d, by rw [he], hv⟩
      · cases h
    · obtain ⟨v, hv, hvu⟩ := Option.map_eq_some_iff.mp h
      cases hvu
      exact .inl ⟨e, rfl, hv⟩

theorem scanChars_sound {s : Units} (fuel : Nat) (h : scanChars fuel t = some (s, r)) :
    IsChars t s r := by
  induction fuel generalizing t s with
  | zero => cases h
  | succ fuel ih =>
    cases t with
    | nil => cases h
    | cons c t =>
      rw [scanChars] at h
      split at h
      · next hc =>
        cases h
        rw [hc]
        exact .close
      split at h
      · next hc =>
        rw [hc]
        split at h
        · cases h
        · next u t' he =>
          obtain ⟨x, hx, hxs⟩ := Option.map_eq_some_iff.mp h
          cases hxs
          rcases scanEscape_eq_some he with ⟨e, rfl, hu⟩ | ⟨a, b, c, d, rfl, hu⟩
          · exact .short hu (ih hx)
          · exact .hex hu (ih hx)
      split at h
      · cases h
      · next hq hs hlt =>
        obtain ⟨x, hx, hxs⟩ := Option.map_eq_some_iff.mp h
        cases hxs
        exact .plain ⟨hq, hs, hlt⟩ (ih hx)

theorem shortEscape_unit_u : shortEscape (unit 'u') = none := by decide

theorem IsChars.scanChars {s : Units} (h : IsChars t s r) {fuel : Nat} (hf : t.length ≤ fuel) :
    scanChars fuel t = some (s, r) := by
  induction h generalizing fuel with
  | close =>
    obtain ⟨fuel, rfl⟩ := Nat.exists_eq_succ_of_ne_zero (Nat.ne_of_gt (Nat.lt_of_lt_of_le
      (Nat.succ_pos _) hf))
    rw [Rfc8259.scanChars, if_pos rfl]
  | plain hc _ ih =>
    obtain ⟨fuel, rfl⟩ := Nat.exists_eq_succ_of_ne_zero (Nat.ne_of_gt (Nat.lt_of_lt_of_le
      (Nat.succ_pos _) hf))
    rw [List.length_cons] at hf
    rw [Rfc8259.scanChars, if_neg hc.1, if_neg hc.2.1, if_neg hc.2.2, ih (by omega)]
    rfl
  | @short e u t s r he _ ih =>
    obtain ⟨fuel, rfl⟩ := Nat.exists_eq_succ_of_ne_zero (Nat.ne_of_gt (Nat.lt_of_lt_of_le
      (Nat.succ_pos _) hf))
    rw [List.length_cons, List.length_cons] at hf
    have hu : e ≠ unit 'u' := by
      rintro rfl
      rw [shortEscape_unit_u] at he
      cases he
    rw [Rfc8259.scanChars, if_neg (by decide), if_pos rfl, scanEscape, if_neg hu, he]
    simp only [Option.map_some, ih (by omega : _ ≤ fuel)]
  | hex hu _ ih =>
    obtain ⟨fuel, rfl⟩ := Nat.exists_eq_succ_of_ne_zero (Nat.ne_of_gt (Nat.lt_of_lt_of_le
      (Nat.succ_pos _) hf))
    simp only [List.length_cons] at hf
    rw [Rfc8259.scanChars, if_neg (by decide), if_pos rfl, scanEscape, if_pos rfl]
    simp only [scanHex, hu, Option.map_some, ih (by omega : _ ≤ fuel)]

/-- **The scanner of strings reads what the grammar derives.** -/
theorem scanString_eq_some {s : Units} : scanString t = some (s, r) ↔ IsChars t s r :=
  ⟨scanChars_sound _, fun h => h.scanChars (Nat.le_refl _)⟩

theorem IsChars.suffix {s : Units} (h : IsChars t s r) : r <:+ t := by
  induction h with
  | close => exact List.suffix_cons _ _
  | plain _ _ ih => exact ih.trans (List.suffix_cons _ _)
  | short _ _ ih => exact ih.trans ⟨[_, _], rfl⟩
  | hex _ _ ih => exact ih.trans ⟨[_, _, _, _, _, _], rfl⟩

/-- A scanned string leaves less of the text. -/
theorem IsChars.length_lt {s : Units} (h : IsChars t s r) : r.length < t.length := by
  induction h with
  | close => exact Nat.lt_succ_self _
  | plain _ _ ih => exact Nat.lt_succ_of_lt ih
  | short _ _ ih =>
    simp only [List.length_cons]
    omega
  | hex _ _ ih =>
    simp only [List.length_cons]
    omega

end Telepty.Infra.Rfc8259
