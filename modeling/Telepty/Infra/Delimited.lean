import Mathlib.Data.List.Basic

/-!
# Delimited streams

A stream is cut at each occurrence of a delimiter, as a reader does that calls `indexOf` again and
again. The pieces between the delimiters and the rest behind the last one do not depend on how the
stream arrived: what was read is continued from the rest alone (`pieces_append`).

A delimiter may overlap with the end of a piece, so a piece is what the cut gives back
(`Delimiter.Ends`), and not what does not contain the delimiter.
-/

namespace Telepty.Infra

/-- A delimiter is not empty. -/
structure Delimiter (α : Type) where
  marks : List α
  ne : marks ≠ []

theorem Delimiter.length_pos {α : Type} (d : Delimiter α) : 0 < d.marks.length :=
  List.length_pos_of_ne_nil d.ne

variable {α : Type} [DecidableEq α]

/-- What is before the first occurrence of the delimiter, and what is behind it. -/
def cutFirst (d : Delimiter α) : List α → Option (List α × List α)
  | [] => none
  | x :: xs =>
    if d.marks.isPrefixOf (x :: xs) then some ([], (x :: xs).drop d.marks.length)
    else (cutFirst d xs).map fun p => (x :: p.1, p.2)

variable {d : Delimiter α} {xs ys piece rest : List α}

theorem eq_append_of_cutFirst (h : cutFirst d xs = some (piece, rest)) :
    xs = piece ++ d.marks ++ rest := by
  induction xs generalizing piece with
  | nil => cases h
  | cons x xs ih =>
    rw [cutFirst] at h
    split at h
    · next hp =>
      cases h
      exact (List.prefix_iff_eq_append.mp (List.isPrefixOf_iff_prefix.mp hp)).symm
    · obtain ⟨⟨p, r⟩, hp, heq⟩ := Option.map_eq_some_iff.mp h
      cases heq
      rw [List.cons_append, List.cons_append, ← ih hp]

theorem length_lt_of_cutFirst (h : cutFirst d xs = some (piece, rest)) : rest.length < xs.length := by
  have := d.length_pos
  rw [eq_append_of_cutFirst h, List.length_append, List.length_append]
  omega

/-- What comes behind a cut does not move it. -/
theorem cutFirst_append (h : cutFirst d xs = some (piece, rest)) (ys : List α) :
    cutFirst d (xs ++ ys) = some (piece, rest ++ ys) := by
  induction xs generalizing piece with
  | nil => cases h
  | cons x xs ih =>
    rw [cutFirst] at h
    rw [List.cons_append, cutFirst]
    split at h
    · next hp =>
      have hpre := List.isPrefixOf_iff_prefix.mp hp
      have hlong : d.marks.isPrefixOf (x :: (xs ++ ys)) :=
        List.isPrefixOf_iff_prefix.mpr (hpre.trans (List.prefix_append (x :: xs) ys))
      cases h
      rw [if_pos hlong, ← List.cons_append, List.drop_append_of_le_length hpre.length_le]
    · next hp =>
      obtain ⟨⟨p, r⟩, hcut, heq⟩ := Option.map_eq_some_iff.mp h
      have hlong : d.marks.length ≤ (x :: xs).length := by
        rw [eq_append_of_cutFirst hcut]
        simp only [List.length_cons, List.length_append]
        omega
      cases heq
      rw [if_neg, ih hcut]
      · rfl
      · intro hpre
        rw [List.isPrefixOf_iff_prefix] at hp hpre
        rw [← List.cons_append] at hpre
        exact hp (List.prefix_of_prefix_length_le hpre (List.prefix_append _ ys) hlong)

/-- The pieces of a stream, and the rest behind the last delimiter. -/
def pieces (d : Delimiter α) (xs : List α) : List (List α) × List α :=
  match _h : cutFirst d xs with
  | none => ([], xs)
  | some (piece, rest) => (piece :: (pieces d rest).1, (pieces d rest).2)
termination_by xs.length
decreasing_by all_goals exact length_lt_of_cutFirst ‹_›

theorem pieces_of_none (h : cutFirst d xs = none) : pieces d xs = ([], xs) := by
  rw [pieces]
  split
  · rfl
  · next hs =>
    rw [h] at hs
    cases hs

theorem pieces_of_some (h : cutFirst d xs = some (piece, rest)) :
    pieces d xs = (piece :: (pieces d rest).1, (pieces d rest).2) := by
  rw [pieces]
  split
  · next hn =>
    rw [h] at hn
    cases hn
  · next hs =>
    rw [h] at hs
    cases hs
    rfl

/-- **Reading on**: the rest is all that is needed of what was read. -/
theorem pieces_append (d : Delimiter α) (xs ys : List α) :
    pieces d (xs ++ ys) =
      ((pieces d xs).1 ++ (pieces d ((pieces d xs).2 ++ ys)).1,
        (pieces d ((pieces d xs).2 ++ ys)).2) := by
  induction xs using pieces.induct d with
  | case1 xs h => rw [pieces_of_none h, List.nil_append]
  | case2 xs piece rest h ih =>
    rw [pieces_of_some (cutFirst_append h ys), pieces_of_some h, ih, List.cons_append]

/-- A rest has no pieces. -/
theorem pieces_rest (d : Delimiter α) (xs : List α) :
    pieces d (pieces d xs).2 = ([], (pieces d xs).2) := by
  induction xs using pieces.induct d with
  | case1 xs h => rw [pieces_of_none h, pieces_of_none h]
  | case2 xs piece rest h ih => rw [pieces_of_some h, ih]

theorem length_rest_le (d : Delimiter α) (xs : List α) : (pieces d xs).2.length ≤ xs.length := by
  induction xs using pieces.induct d with
  | case1 xs h => exact Nat.le_of_eq (by rw [pieces_of_none h])
  | case2 xs piece rest h ih =>
    rw [pieces_of_some h]
    exact Nat.le_trans ih (Nat.le_of_lt (length_lt_of_cutFirst h))

/-- The delimiter ends the piece, and does not begin within it. -/
def Delimiter.Ends (d : Delimiter α) (piece : List α) : Prop :=
  cutFirst d (piece ++ d.marks) = some (piece, [])

/-- A piece without the first mark of the delimiter. -/
theorem Delimiter.ends_of_not_mem {m : α} (hm : m ∈ d.marks.head?) (h : m ∉ piece) :
    d.Ends piece := by
  obtain ⟨_ | ⟨m', marks⟩, hne⟩ := d
  · exact absurd rfl hne
  obtain rfl : m' = m := Option.some.inj hm
  unfold Delimiter.Ends
  induction piece with
  | nil =>
    rw [List.nil_append, cutFirst, if_pos (List.isPrefixOf_iff_prefix.mpr (List.prefix_refl _)),
      List.drop_length]
  | cons x piece ih =>
    have hx : m' ≠ x := fun hx => h (hx ▸ List.mem_cons_self)
    have hno : ¬(m' :: marks).isPrefixOf (x :: (piece ++ m' :: marks)) := by
      rw [List.isPrefixOf_iff_prefix, List.cons_prefix_cons]
      exact fun hp => hx hp.1
    rw [List.cons_append, cutFirst, if_neg hno, ih fun hm => h (List.mem_cons_of_mem _ hm)]
    rfl

/-- The pieces, each with the delimiter behind it. -/
def Delimiter.join (d : Delimiter α) (ps : List (List α)) : List α := ps.flatMap (· ++ d.marks)

/-- **The pieces are read back.** -/
theorem pieces_join (ps : List (List α)) (h : ∀ p ∈ ps, d.Ends p) :
    pieces d (d.join ps) = (ps, []) := by
  induction ps with
  | nil => exact pieces_of_none rfl
  | cons p ps ih =>
    have hcut := cutFirst_append (h p List.mem_cons_self) (d.join ps)
    rw [List.nil_append] at hcut
    rw [Delimiter.join, List.flatMap_cons, ← Delimiter.join, pieces_of_some hcut,
      ih fun q hq => h q (List.mem_cons_of_mem _ hq)]

end Telepty.Infra
