import Mathlib.Data.List.Basic
import Mathlib.Tactic.Common

/-!
# Texts handed over in pieces

Texts are accepted one after another, wait in a queue, and are handed over in pieces that join and
cut them. `Handed` says that nothing is lost or parted: the pieces and the queue make up what was
accepted, and a piece that ends inside a text does not end between two elements that belong together.
-/

namespace Telepty.Infra

variable {α : Type} {joint : α → α → Bool}

/-! ## Ends of pieces -/

/-- Two elements that belong together are parted at `n`. -/
def Parts (joint : α → α → Bool) (t : List α) (n : Nat) : Prop :=
  ∃ a x y b, t = a ++ x :: y :: b ∧ n = a.length + 1 ∧ joint x y

/-- The first texts of a list end at `n`. -/
def Seam (texts : List (List α)) (n : Nat) : Prop :=
  ∃ pre post, texts = pre ++ post ∧ n = pre.flatten.length

/-- A piece may end at `n`: between two of the texts, or where nothing is parted. -/
def Clean (joint : α → α → Bool) (texts : List (List α)) (n : Nat) : Prop :=
  Seam texts n ∨ ¬Parts joint texts.flatten n

variable {texts q q' accepted pieces : List (List α)} {t u p piece : List α} {n k : Nat}

theorem seam_zero (texts : List (List α)) : Seam texts 0 := ⟨[], texts, rfl, rfl⟩

theorem seam_length (texts : List (List α)) : Seam texts texts.flatten.length :=
  ⟨texts, [], (List.append_nil _).symm, rfl⟩

theorem Seam.append (h : Seam texts n) (more : List (List α)) : Seam (texts ++ more) n := by
  obtain ⟨pre, post, rfl, hn⟩ := h
  exact ⟨pre, post ++ more, List.append_assoc _ _ _, hn⟩

theorem Seam.cons (h : Seam texts n) (p : List α) : Seam (p :: texts) (p.length + n) := by
  obtain ⟨pre, post, rfl, rfl⟩ := h
  exact ⟨p :: pre, post, rfl, by rw [List.flatten_cons, List.length_append]⟩

theorem clean_zero (texts : List (List α)) : Clean joint texts 0 := .inl (seam_zero texts)

theorem parts_append_left (hn : n ≠ 0) :
    Parts joint (t ++ u) (t.length + n) ↔ Parts joint u n := by
  constructor
  · rintro ⟨a, x, y, b, heq, hlen, hxy⟩
    have ht : t = a.take t.length := by
      have h := congrArg (List.take t.length) heq
      rwa [List.take_left, List.take_append_of_le_length (by omega)] at h
    have hu : u = a.drop t.length ++ x :: y :: b := by
      have h := congrArg (List.drop t.length) heq
      rwa [List.drop_left, List.drop_append_of_le_length (by omega)] at h
    refine ⟨a.drop t.length, x, y, b, hu, ?_, hxy⟩
    rw [List.length_drop]
    omega
  · rintro ⟨a, x, y, b, rfl, rfl, hxy⟩
    refine ⟨t ++ a, x, y, b, by rw [List.append_assoc], ?_, hxy⟩
    rw [List.length_append, Nat.add_assoc]

theorem Parts.of_append (h : Parts joint (t ++ u) n) (hn : n < t.length) : Parts joint t n := by
  obtain ⟨a, x, y, b, heq, rfl, hxy⟩ := h
  have hpre : a ++ [x, y] <+: t := by
    refine List.prefix_of_prefix_length_le ⟨b, ?_⟩ (List.prefix_append t u) ?_
    · rw [heq, List.append_assoc]
      rfl
    · rw [List.length_append]
      exact hn
  obtain ⟨c, rfl⟩ := hpre
  exact ⟨a, x, y, c, by rw [List.append_assoc]; rfl, rfl, hxy⟩

/-- A text is parted where its last element so far and the next one belong together. -/
theorem not_parts_cut (h : ∀ x ∈ t.getLast?, ∀ y ∈ u.head?, joint x y = false) :
    ¬Parts joint (t ++ u) t.length := by
  rintro ⟨a, x, y, b, heq, hlen, hxy⟩
  have ht : t = a ++ [x] := by
    have h1 := congrArg (List.take t.length) heq
    rwa [List.take_left, hlen, List.append_cons, List.take_left' (by simp)] at h1
  rw [ht, List.append_assoc] at heq
  have hu : u = y :: b := (List.cons.inj (List.append_cancel_left heq)).2
  have hx : x ∈ t.getLast? := by rw [ht, List.getLast?_concat, Option.mem_some_iff]
  have hy : y ∈ u.head? := by rw [hu, List.head?_cons, Option.mem_some_iff]
  rw [h x hx y hy] at hxy
  cases hxy

/-- More texts do not spoil an end. -/
theorem Clean.append (h : Clean joint texts n) (hn : n ≤ texts.flatten.length)
    (more : List (List α)) : Clean joint (texts ++ more) n := by
  rcases h with h | h
  · exact .inl (h.append more)
  · rcases Nat.lt_or_eq_of_le hn with hlt | rfl
    · refine .inr fun hparts => h ?_
      rw [List.flatten_append] at hparts
      exact hparts.of_append hlt
    · exact .inl ((seam_length texts).append more)

/-! ## Cutting a piece off a queue -/

/-- A piece is cut off the front of a queue. -/
structure Cut (joint : α → α → Bool) (q : List (List α)) (piece : List α) (q' : List (List α)) :
    Prop where
  text : q.flatten = piece ++ q'.flatten
  clean : Clean joint q piece.length
  seams : ∀ n, n ≠ 0 → Seam q' n → Seam q (piece.length + n)

theorem Cut.nothing (q : List (List α)) : Cut joint q [] q where
  text := rfl
  clean := clean_zero q
  seams n _ h := by rwa [List.length_nil, Nat.zero_add]

/-- A text is taken whole, with a piece of what follows. -/
theorem Cut.cons (h : Cut joint q piece q') (p : List α) : Cut joint (p :: q) (p ++ piece) q' where
  text := by rw [List.flatten_cons, h.text, List.append_assoc]
  clean := by
    rw [List.length_append]
    by_cases hn : piece.length = 0
    · rw [hn]
      exact .inl ((seam_zero q).cons p)
    · rcases h.clean with hs | hs
      · exact .inl (hs.cons p)
      · refine .inr fun hparts => hs ?_
        rw [List.flatten_cons] at hparts
        exact (parts_append_left hn).mp hparts
  seams n hn hs := by
    rw [List.length_append, Nat.add_assoc]
    exact (h.seams n hn hs).cons p

/-- A text is cut where nothing is parted. -/
theorem Cut.inside (hu : u ≠ [])
    (h : ∀ x ∈ t.getLast?, ∀ y ∈ u.head?, joint x y = false) (q : List (List α)) :
    Cut joint ((t ++ u) :: q) t (u :: q) where
  text := by rw [List.flatten_cons, List.flatten_cons, List.append_assoc]
  clean := by
    refine .inr ?_
    rw [List.flatten_cons, List.append_assoc]
    refine not_parts_cut fun x hx y hy => h x hx y ?_
    rwa [List.head?_append_of_ne_nil _ hu] at hy
  seams n hn hs := by
    obtain ⟨pre, post, heq, rfl⟩ := hs
    cases pre with
    | nil => exact absurd rfl hn
    | cons p pre =>
      rw [List.cons_append, List.cons.injEq] at heq
      obtain ⟨rfl, rfl⟩ := heq
      refine ⟨(t ++ u) :: pre, post, rfl, ?_⟩
      rw [List.flatten_cons, List.flatten_cons, List.length_append, List.length_append,
        List.length_append, Nat.add_assoc]

/-! ## Handing over -/

/-- The pieces that were handed over and the queue make up the accepted texts, and every piece ends
where it may. -/
structure Handed (joint : α → α → Bool) (accepted pieces q : List (List α)) : Prop where
  text : accepted.flatten = pieces.flatten ++ q.flatten
  clean : ∀ k, Clean joint accepted (pieces.take k).flatten.length
  seams : ∀ n, n ≠ 0 → Seam q n → Seam accepted (pieces.flatten.length + n)

theorem Handed.nil : Handed joint [] [] [] where
  text := rfl
  clean k := by
    rw [List.take_nil]
    exact clean_zero _
  seams n _ h := by rwa [List.flatten_nil, List.length_nil, Nat.zero_add]

theorem Handed.length_le (h : Handed joint accepted pieces q) (k : Nat) :
    (pieces.take k).flatten.length ≤ accepted.flatten.length := by
  have hpieces : pieces.flatten = (pieces.take k).flatten ++ (pieces.drop k).flatten := by
    rw [← List.flatten_append, List.take_append_drop]
  rw [h.text, hpieces, List.append_assoc, List.length_append]
  exact Nat.le_add_right _ _

/-- A text is accepted and queued. -/
theorem Handed.accept (h : Handed joint accepted pieces q) (p : List α) :
    Handed joint (accepted ++ [p]) pieces (q ++ [p]) where
  text := by rw [List.flatten_append, List.flatten_append, h.text, List.append_assoc]
  clean k := (h.clean k).append (h.length_le k) [p]
  seams n hn hs := by
    obtain ⟨pre, post, heq, rfl⟩ := hs
    rcases List.eq_nil_or_concat post with rfl | ⟨post, p', rfl⟩
    · rw [List.append_nil] at heq
      have hlen : pieces.flatten.length + pre.flatten.length = (accepted ++ [p]).flatten.length := by
        rw [← heq, List.flatten_append, List.flatten_append, h.text]
        simp only [List.length_append, Nat.add_assoc]
      rw [hlen]
      exact seam_length _
    · rw [List.concat_eq_append, ← List.append_assoc] at heq
      have hq : q = pre ++ post := (List.append_inj' heq rfl).1
      exact (h.seams _ hn ⟨pre, post, hq, rfl⟩).append [p]

/-- A piece is handed over. -/
theorem Handed.hand (h : Handed joint accepted pieces q) (hc : Cut joint q piece q') :
    Handed joint accepted (pieces ++ [piece]) q' := by
  have hlen : (pieces ++ [piece]).flatten.length = pieces.flatten.length + piece.length := by
    rw [List.flatten_append, List.length_append, List.flatten_singleton]
  have hlast : Clean joint accepted (pieces.flatten.length + piece.length) := by
    by_cases hn : piece.length = 0
    · have hall := h.clean pieces.length
      rwa [List.take_length, ← Nat.add_zero pieces.flatten.length, ← hn] at hall
    · rcases hc.clean with hs | hs
      · exact .inl (h.seams _ hn hs)
      · refine .inr fun hparts => hs ?_
        rw [h.text] at hparts
        exact (parts_append_left hn).mp hparts
  constructor
  · rw [h.text, hc.text, List.flatten_append, List.flatten_singleton, List.append_assoc]
  · intro k
    rcases Nat.lt_or_ge pieces.length k with hk | hk
    · have hall : (pieces ++ [piece]).length ≤ k := by
        rw [List.length_append]
        exact hk
      rw [List.take_of_length_le hall, hlen]
      exact hlast
    · rw [List.take_append_of_le_length hk]
      exact h.clean k
  · intro n hn hs
    rw [hlen, Nat.add_assoc]
    exact h.seams _ (by omega) (hc.seams n hn hs)

end Telepty.Infra
