import Mathlib.Data.List.Basic
import Mathlib.Data.Set.Insert

/-!
# Backtracking regular expressions

Regular expressions as ECMAScript runs them: alternatives and repetitions are tried in order of
preference, and the first way through is the match. A match is looked for from a cursor, which knows
what is before it, so that an assertion can ask for the neighbours.

The alphabet is arbitrary. A loop whose round consumes nothing is given up, as there.
-/

namespace Telepty.Infra

/-- A place in a text: what is before it, backwards, and what is after it. -/
structure Cursor (α : Type) where
  before : List α
  rest : List α
  deriving DecidableEq

namespace Cursor

variable {α : Type}

def start (t : List α) : Cursor α := ⟨[], t⟩

def index (c : Cursor α) : Nat := c.before.length

/-- The cursor `n` symbols further on. -/
def advance (c : Cursor α) (n : Nat) : Cursor α :=
  ⟨(c.rest.take n).reverse ++ c.before, c.rest.drop n⟩

@[simp] theorem advance_zero (c : Cursor α) : c.advance 0 = c := rfl

@[simp] theorem advance_rest (c : Cursor α) (n : Nat) : (c.advance n).rest = c.rest.drop n := rfl

theorem advance_cons (before : List α) (a : α) (rest : List α) (n : Nat) :
    (⟨before, a :: rest⟩ : Cursor α).advance (n + 1)
      = (⟨a :: before, rest⟩ : Cursor α).advance n := by
  simp [advance]

theorem advance_append (before t rest : List α) :
    (⟨before, t ++ rest⟩ : Cursor α).advance t.length = ⟨t.reverse ++ before, rest⟩ := by
  simp [advance]

end Cursor

inductive Regex (α : Type) where
  /-- The empty text. -/
  | nothing
  /-- One symbol of a class. -/
  | sym (p : α → Bool)
  | seq (a b : Regex α)
  | alt (a b : Regex α)
  /-- As often as possible. -/
  | star (a : Regex α)
  /-- The empty text between two neighbours, `none` at the ends. -/
  | between (p : Option α → Option α → Bool)

namespace Regex

variable {α : Type}

/-- Rounds of `f` that each consume something, the longest chains first. -/
def rounds (f : Cursor α → List (Cursor α)) : Nat → Cursor α → List (Cursor α)
  | 0, c => [c]
  | n + 1, c =>
    ((f c).filter fun d => d.rest.length < c.rest.length).flatMap (rounds f n) ++ [c]

/-- The places where a match that starts at the cursor can end, the preferred one first. -/
def ends : Regex α → Cursor α → List (Cursor α)
  | nothing, c => [c]
  | sym p, c =>
    match c.rest with
    | [] => []
    | a :: rest => if p a then [⟨a :: c.before, rest⟩] else []
  | seq a b, c => (ends a c).flatMap (ends b)
  | alt a b, c => ends a c ++ ends b c
  | star a, c => rounds (ends a) c.rest.length c
  | between p, c => if p c.before.head? c.rest.head? then [c] else []

/-- The match at the cursor. -/
def matchAt (r : Regex α) (c : Cursor α) : Option (Cursor α) := (r.ends c).head?

/-- `re.exec(text)` from the cursor on: where the first match starts and where it ends. -/
def exec (r : Regex α) (before : List α) : List α → Option (Cursor α × Cursor α)
  | [] => (r.matchAt ⟨before, []⟩).map fun d => (⟨before, []⟩, d)
  | a :: rest =>
    match r.matchAt ⟨before, a :: rest⟩ with
    | some d => some (⟨before, a :: rest⟩, d)
    | none => exec r (a :: before) rest

/-- `re.test(text)` -/
def test (r : Regex α) (t : List α) : Bool := (r.exec [] t).isSome

def replaceFrom (r : Regex α) (replacement : List α) : Nat → Cursor α → List α
  | 0, _ => []
  | n + 1, c =>
    match r.matchAt c, c.rest with
    | some d, a :: rest =>
      if d.rest.length < c.rest.length then replacement ++ replaceFrom r replacement n d
      else replacement ++ a :: replaceFrom r replacement n ⟨a :: c.before, rest⟩
    | some _, [] => replacement
    | none, a :: rest => a :: replaceFrom r replacement n ⟨a :: c.before, rest⟩
    | none, [] => []

/-- `text.replace(re, replacement)` for an expression with the flag `g`. -/
def replace (r : Regex α) (replacement t : List α) : List α :=
  replaceFrom r replacement (t.length + 1) (.start t)

/-! ## Shorthands -/

/-- The text itself. -/
def literal [DecidableEq α] : List α → Regex α
  | [] => nothing
  | [a] => sym fun b => b = a
  | a :: t => seq (sym fun b => b = a) (literal t)

/-- `(a)+` -/
def plus (a : Regex α) : Regex α := seq a (star a)

/-- `(a)?` -/
def optional (a : Regex α) : Regex α := alt a nothing

/-- `(a){n}` -/
def times (a : Regex α) : Nat → Regex α
  | 0 => nothing
  | n + 1 => seq a (times a n)

/-- `(a){n,}` -/
def atLeast (a : Regex α) (n : Nat) : Regex α := seq (times a n) (star a)

/-- One after the other. -/
def chain : List (Regex α) → Regex α
  | [] => nothing
  | [a] => a
  | a :: l => seq a (chain l)

/-- The first of the alternatives that matches. -/
def choice : List (Regex α) → Regex α
  | [] => sym fun _ => false
  | [a] => a
  | a :: l => alt a (choice l)

/-! ## Matching -/

variable {r a b : Regex α} {c d : Cursor α} {p : α → Bool}

theorem ends_sym_cons {x : α} {before rest : List α} :
    (sym p).ends ⟨before, x :: rest⟩ = if p x then [⟨x :: before, rest⟩] else [] := rfl

theorem matchAt_sym_cons {x : α} {before rest : List α} :
    (sym p).matchAt ⟨before, x :: rest⟩ = if p x then some ⟨x :: before, rest⟩ else none := by
  rw [matchAt, ends_sym_cons]
  split
  · rfl
  · rfl

theorem matchAt_sym_nil {before : List α} : (sym p).matchAt ⟨before, []⟩ = none := rfl

theorem matchAt_alt : (alt a b).matchAt c = (a.matchAt c).or (b.matchAt c) := by
  rw [matchAt, ends, List.head?_append]
  rfl

theorem matchAt_seq : (seq a b).matchAt c = (a.ends c).findSome? b.matchAt := by
  rw [matchAt, ends, List.head?_flatMap]
  rfl

theorem isSome_matchAt : (r.matchAt c).isSome = true ↔ ∃ d, d ∈ r.ends c := by
  rw [matchAt]
  cases r.ends c with
  | nil => simp
  | cons e l => simp only [List.head?_cons, Option.isSome_some, true_iff]; exact ⟨e, by simp⟩

theorem isSome_exec (r : Regex α) (before t : List α) : (r.exec before t).isSome = true ↔
    ∃ s rest, t = s ++ rest ∧ (r.matchAt ⟨s.reverse ++ before, rest⟩).isSome = true := by
  induction t generalizing before with
  | nil => simp [exec]
  | cons x t ih =>
    rw [exec]
    constructor
    · intro h
      cases hm : r.matchAt ⟨before, x :: t⟩ with
      | some d => exact ⟨[], x :: t, rfl, by simp [hm]⟩
      | none =>
        rw [hm] at h
        obtain ⟨s, rest, rfl, hs⟩ := (ih _).mp h
        exact ⟨x :: s, rest, rfl, by simpa using hs⟩
    · rintro ⟨s, rest, ht, hs⟩
      cases hm : r.matchAt ⟨before, x :: t⟩ with
      | some d => rfl
      | none =>
        cases s with
        | nil =>
          obtain rfl : x :: t = rest := ht
          rw [List.reverse_nil, List.nil_append, hm] at hs
          cases hs
        | cons y s =>
          obtain ⟨rfl, rfl⟩ := List.cons.inj ht
          exact (ih _).mpr ⟨s, rest, rfl, by simpa using hs⟩

/-- A text passes the test just when there is a match at some place of it. -/
theorem test_iff {t : List α} : r.test t = true ↔
    ∃ s rest, t = s ++ rest ∧ ∃ d, d ∈ r.ends ⟨s.reverse, rest⟩ := by
  rw [test, isSome_exec]
  simp only [List.append_nil, isSome_matchAt]

/-- A symbol and then something: only the one way. -/
theorem matchAt_seq_sym {x : α} {before rest : List α} :
    (seq (sym p) b).matchAt ⟨before, x :: rest⟩
      = if p x then b.matchAt ⟨x :: before, rest⟩ else none := by
  rw [matchAt_seq, ends_sym_cons]
  split
  · exact List.findSome?_singleton
  · rfl

/-- How many symbols of the class follow. -/
def run (p : α → Bool) (t : List α) : Nat := (t.takeWhile p).length

theorem rounds_sym (n : Nat) (c : Cursor α) (h : c.rest.length ≤ n) :
    rounds (ends (sym p)) n c = ((List.range (run p c.rest + 1)).reverse.map c.advance) := by
  induction n generalizing c with
  | zero =>
    have hr : c.rest = [] := List.eq_nil_of_length_eq_zero (Nat.le_zero.mp h)
    simp [rounds, hr, run]
  | succ n ih =>
    obtain ⟨before, rest⟩ := c
    cases rest with
    | nil => simp [rounds, ends, run]
    | cons x rest =>
      rw [rounds, ends_sym_cons]
      by_cases hx : p x = true
      · have hrun : run p (x :: rest) = run p rest + 1 := by
          simp [run, List.takeWhile_cons_of_pos hx]
        simp only [if_pos hx, hrun]
        rw [List.filter_cons_of_pos (by simp), List.filter_nil, List.flatMap_singleton,
          ih ⟨x :: before, rest⟩ (by simpa using h), List.range_succ_eq_map (n := run p rest + 1),
          List.reverse_cons, List.map_append, List.map_singleton, Cursor.advance_zero,
          ← List.map_reverse, List.map_map]
        congr 1
        exact List.map_congr_left fun n _ => (Cursor.advance_cons before x rest n).symm
      · have hrun : run p (x :: rest) = 0 := by simp [run, List.takeWhile_cons_of_neg hx]
        simp [if_neg hx, hrun]

/-- A greedy class: as many symbols as there are, then one less, down to none. -/
theorem ends_star_sym :
    ends (star (sym p)) c = (List.range (run p c.rest + 1)).reverse.map c.advance := by
  rw [ends]
  exact rounds_sym _ c (Nat.le_refl _)

theorem run_append {t u : List α} (ht : ∀ x ∈ t, p x = true) (hu : ∀ x ∈ u.head?, p x = false) :
    run p (t ++ u) = t.length := by
  rw [run, List.takeWhile_append_of_pos ht, List.length_append]
  cases u with
  | nil => rfl
  | cons x u =>
    rw [List.takeWhile_cons_of_neg (by simpa using hu x rfl), List.length_nil, Nat.add_zero]

theorem drop_run (p : α → Bool) (t : List α) : t.drop (run p t) = t.dropWhile p := by
  induction t with
  | nil => rfl
  | cons x t ih =>
    by_cases hx : p x = true
    · rw [run, List.takeWhile_cons_of_pos hx, List.dropWhile_cons_of_pos hx, List.length_cons,
        List.drop_succ_cons]
      exact ih
    · rw [run, List.takeWhile_cons_of_neg hx, List.dropWhile_cons_of_neg hx]
      rfl

theorem findSome?_range_reverse {β : Type} {f : Nat → Option β} {v : β} (k : Nat) :
    ∀ n, k < n → f k = some v → (∀ j, k < j → j < n → f j = none) →
      (List.range n).reverse.findSome? f = some v
  | 0, hk, _, _ => by omega
  | n + 1, hk, hv, hno => by
    rw [List.range_succ, List.reverse_append, List.reverse_singleton, List.singleton_append,
      List.findSome?_cons]
    rcases Nat.lt_or_ge k n with hlt | hge
    · rw [hno n hlt (Nat.lt_succ_self n)]
      exact findSome?_range_reverse k n hlt hv fun j hj hn => hno j hj (Nat.lt_succ_of_lt hn)
    · obtain rfl : k = n := by omega
      rw [hv]

/-- A greedy class ends at the last place, within its run, where what follows matches. -/
theorem matchAt_star_last (k : Nat) (hk : k ≤ run p c.rest)
    (h : b.matchAt (c.advance k) = some d)
    (hno : ∀ j, k < j → j ≤ run p c.rest → b.matchAt (c.advance j) = none) :
    (seq (star (sym p)) b).matchAt c = some d := by
  rw [matchAt_seq, ends_star_sym, List.findSome?_map]
  exact findSome?_range_reverse k _ (Nat.lt_succ_of_le hk) h fun j hj hn =>
    hno j hj (Nat.le_of_lt_succ hn)

/-- A greedy class and then something that matches where the run of the class ends. -/
theorem matchAt_star_seq {t rest before : List α} (ht : ∀ x ∈ t, p x = true)
    (hrest : ∀ x ∈ rest.head?, p x = false)
    (h : b.matchAt ⟨t.reverse ++ before, rest⟩ = some d) :
    (seq (star (sym p)) b).matchAt ⟨before, t ++ rest⟩ = some d := by
  have hrun : run p (t ++ rest) = t.length := run_append ht hrest
  refine matchAt_star_last t.length (Nat.le_of_eq hrun.symm) ?_ fun j hj hle => ?_
  · rw [Cursor.advance_append]
    exact h
  · dsimp only at hle
    omega

/-! ## Languages

An expression without assertions and loops matches the texts of a language, wherever they stand.
-/

/-- The matches of `r` are the texts of `l`. -/
def Reads (r : Regex α) (l : Set (List α)) : Prop :=
  ∀ c d, d ∈ r.ends c ↔ ∃ t ∈ l, ∃ rest, c.rest = t ++ rest ∧ d = ⟨t.reverse ++ c.before, rest⟩

variable {l m : Set (List α)}

theorem Reads.nothing : Reads (nothing : Regex α) {[]} := by
  rintro ⟨before, rest⟩ d
  simp [ends]

theorem Reads.sym : Reads (sym p) {t | ∃ x, p x = true ∧ t = [x]} := by
  rintro ⟨before, rest⟩ d
  cases rest with
  | nil => simp [ends]
  | cons y rest =>
    rw [ends_sym_cons]
    constructor
    · intro hd
      by_cases hy : p y = true
      · rw [if_pos hy, List.mem_singleton] at hd
        exact ⟨[y], ⟨y, hy, rfl⟩, rest, rfl, hd⟩
      · rw [if_neg hy] at hd
        cases hd
    · rintro ⟨_, ⟨x, hx, rfl⟩, rest', hc, rfl⟩
      obtain ⟨rfl, rfl⟩ := List.cons.inj hc
      rw [if_pos hx]
      exact List.mem_singleton.mpr rfl

theorem Reads.seq (ha : Reads a l) (hb : Reads b m) :
    Reads (seq a b) {t | ∃ u ∈ l, ∃ v ∈ m, t = u ++ v} := by
  intro c d
  rw [ends, List.mem_flatMap]
  constructor
  · rintro ⟨e, he, hd⟩
    obtain ⟨u, hu, rest, hc, rfl⟩ := (ha c e).mp he
    obtain ⟨v, hv, rest', hr, rfl⟩ := (hb _ d).mp hd
    refine ⟨u ++ v, ⟨u, hu, v, hv, rfl⟩, rest', ?_, ?_⟩
    · rw [hc, show rest = _ from hr, List.append_assoc]
    · simp
  · rintro ⟨_, ⟨u, hu, v, hv, rfl⟩, rest, hc, rfl⟩
    refine ⟨⟨u.reverse ++ c.before, v ++ rest⟩, (ha _ _).mpr ⟨u, hu, _, ?_, rfl⟩,
      (hb _ _).mpr ⟨v, hv, rest, rfl, ?_⟩⟩
    · rw [hc, List.append_assoc]
    · simp

theorem Reads.alt (ha : Reads a l) (hb : Reads b m) : Reads (alt a b) (l ∪ m) := by
  intro c d
  rw [ends, List.mem_append, ha c d, hb c d]
  constructor
  · rintro (⟨t, ht, h⟩ | ⟨t, ht, h⟩)
    · exact ⟨t, Or.inl ht, h⟩
    · exact ⟨t, Or.inr ht, h⟩
  · rintro ⟨t, ht | ht, h⟩
    · exact Or.inl ⟨t, ht, h⟩
    · exact Or.inr ⟨t, ht, h⟩

theorem Reads.literal [DecidableEq α] (t : List α) : Reads (literal t) {t} := by
  have hone (x : α) : {t : List α | ∃ y, decide (y = x) = true ∧ t = [y]} = {[x]} := by
    ext t
    simp
  induction t with
  | nil => exact Reads.nothing
  | cons x t ih =>
    have hx : Reads (Regex.sym fun y => decide (y = x)) {[x]} := hone x ▸ Reads.sym
    cases t with
    | nil => exact hx
    | cons y t =>
      have h := hx.seq ih
      show Reads (Regex.seq _ (Regex.literal (y :: t))) _
      simpa using h

/-- A text passes the test just when a text of the language stands in it. -/
theorem Reads.test_iff (h : Reads r l) {t : List α} : r.test t = true ↔ ∃ u ∈ l, u <:+: t := by
  rw [Regex.test_iff]
  constructor
  · rintro ⟨s, rest, rfl, d, hd⟩
    obtain ⟨u, hu, rest', hr, -⟩ := (h _ d).mp hd
    exact ⟨u, hu, s, rest', by rw [show rest = _ from hr, List.append_assoc]⟩
  · rintro ⟨u, hu, s, rest, rfl⟩
    exact ⟨s, u ++ rest, List.append_assoc .., _, (h _ _).mpr ⟨u, hu, rest, rfl, rfl⟩⟩


/-! ## Replacing -/

variable {replacement : List α}

/-- More fuel than symbols changes nothing. -/
theorem replaceFrom_fuel {n m : Nat} (c : Cursor α) (hn : c.rest.length < n)
    (hm : c.rest.length < m) :
    replaceFrom r replacement n c = replaceFrom r replacement m c := by
  induction n generalizing m c with
  | zero => omega
  | succ n ih =>
    obtain ⟨m, rfl⟩ : ∃ k, m = k + 1 := ⟨m - 1, by omega⟩
    obtain ⟨before, rest⟩ := c
    cases rest with
    | nil =>
      rw [replaceFrom, replaceFrom]
      cases r.matchAt ⟨before, []⟩ <;> rfl
    | cons x rest =>
      rw [replaceFrom, replaceFrom]
      have hskip : replaceFrom r replacement n ⟨x :: before, rest⟩
          = replaceFrom r replacement m ⟨x :: before, rest⟩ :=
        ih _ (by simp at hn ⊢; omega) (by simp at hm ⊢; omega)
      cases r.matchAt ⟨before, x :: rest⟩ with
      | none => simp only [hskip]
      | some d =>
        dsimp only
        split
        · next hlt =>
          rw [ih (m := m) d (by simp only [List.length_cons] at *; omega)
            (by simp only [List.length_cons] at *; omega)]
        · rw [hskip]

/-- `replace` from a cursor inside the text. -/
def replaceRest (r : Regex α) (replacement : List α) (c : Cursor α) : List α :=
  replaceFrom r replacement (c.rest.length + 1) c

theorem replace_eq (t : List α) :
    r.replace replacement t = r.replaceRest replacement (.start t) := rfl

theorem replaceRest_nil {before : List α} (h : r.matchAt ⟨before, []⟩ = none) :
    r.replaceRest replacement ⟨before, []⟩ = [] := by
  rw [replaceRest, replaceFrom]
  simp only [h]

/-- Where nothing matches, the symbol is copied. -/
theorem replaceRest_skip {before rest : List α} {x : α}
    (h : r.matchAt ⟨before, x :: rest⟩ = none) :
    r.replaceRest replacement ⟨before, x :: rest⟩
      = x :: r.replaceRest replacement ⟨x :: before, rest⟩ := by
  rw [replaceRest, replaceFrom]
  simp only [h]
  rfl

/-- A match that consumes something is replaced, and the search goes on behind it. -/
theorem replaceRest_match (h : r.matchAt c = some d) (hlt : d.rest.length < c.rest.length) :
    r.replaceRest replacement c = replacement ++ r.replaceRest replacement d := by
  obtain ⟨before, rest⟩ := c
  cases rest with
  | nil => simp at hlt
  | cons x rest =>
    rw [replaceRest, replaceFrom]
    simp only [h, if_pos hlt]
    rw [replaceRest, replaceFrom_fuel d (by simpa using hlt) (Nat.lt_succ_self _)]

/-- A stretch where nothing matches is copied. -/
theorem replaceRest_copy {t before rest : List α}
    (h : ∀ x ∈ t, ∀ before rest, r.matchAt ⟨before, x :: rest⟩ = none) :
    r.replaceRest replacement ⟨before, t ++ rest⟩
      = t ++ r.replaceRest replacement ⟨t.reverse ++ before, rest⟩ := by
  induction t generalizing before with
  | nil => rfl
  | cons x t ih =>
    rw [List.cons_append, replaceRest_skip (h x List.mem_cons_self _ _),
      ih fun y hy => h y (List.mem_cons_of_mem _ hy), List.reverse_cons, List.append_assoc,
      List.cons_append, List.singleton_append]

end Regex

end Telepty.Infra
