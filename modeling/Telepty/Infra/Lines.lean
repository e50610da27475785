import Telepty.Infra.Text

/-!
# Newline-terminated lines of bytes

A buffer is a list of terminated lines and an unterminated rest, in one way only. A prefix of a
list of lines is a shorter list of lines and a piece of the next one.
-/

namespace Telepty.Infra

def newline : UInt8 := 0x0A

/-- The terminated lines of a buffer, without their newlines, and what follows the last newline. -/
def splitLines : Bytes → List Bytes × Bytes
  | [] => ([], [])
  | b :: bs =>
    if b = newline then ([] :: (splitLines bs).1, (splitLines bs).2)
    else
      match (splitLines bs).1 with
      | [] => ([], b :: (splitLines bs).2)
      | l :: ls => ((b :: l) :: ls, (splitLines bs).2)

def joinLines (ls : List Bytes) : Bytes := ls.flatMap (· ++ [newline])

/-- A piece of a line. -/
def Unbroken (l : Bytes) : Prop := newline ∉ l

instance (l : Bytes) : Decidable (Unbroken l) := inferInstanceAs (Decidable (_ ∉ _))

@[simp] theorem joinLines_nil : joinLines [] = [] := rfl

@[simp] theorem joinLines_cons (l : Bytes) (ls : List Bytes) :
    joinLines (l :: ls) = l ++ newline :: joinLines ls := by
  rw [joinLines, List.flatMap_cons, List.append_assoc]
  rfl

@[simp] theorem joinLines_append (ls ms : List Bytes) :
    joinLines (ls ++ ms) = joinLines ls ++ joinLines ms := List.flatMap_append

theorem splitLines_unbroken {l : Bytes} (h : Unbroken l) : splitLines l = ([], l) := by
  induction l with
  | nil => rfl
  | cons b l ih =>
    have hb : b ≠ newline := fun hb => h (hb ▸ List.mem_cons_self)
    rw [splitLines, if_neg hb, ih fun hm => h (List.mem_cons_of_mem _ hm)]

theorem splitLines_line {l : Bytes} (h : Unbroken l) (rest : Bytes) :
    splitLines (l ++ newline :: rest) = (l :: (splitLines rest).1, (splitLines rest).2) := by
  induction l with
  | nil => rw [List.nil_append, splitLines, if_pos rfl]
  | cons b l ih =>
    have hb : b ≠ newline := fun hb => h (hb ▸ List.mem_cons_self)
    rw [List.cons_append, splitLines, if_neg hb, ih fun hm => h (List.mem_cons_of_mem _ hm)]

/-- **Lines are split as they were joined.** -/
theorem splitLines_joinLines {ls : List Bytes} {rest : Bytes} (h : ∀ l ∈ ls, Unbroken l)
    (hr : Unbroken rest) : splitLines (joinLines ls ++ rest) = (ls, rest) := by
  induction ls with
  | nil => exact splitLines_unbroken hr
  | cons l ls ih =>
    rw [joinLines_cons, List.append_assoc, List.cons_append,
      splitLines_line (h l List.mem_cons_self), ih fun l' hl' => h l' (List.mem_cons_of_mem _ hl')]

/-- A prefix of joined lines is a list of whole lines and a piece of the next one. -/
theorem take_joinLines (ls : List Bytes) (k : Nat) (h : ∀ l ∈ ls, Unbroken l) :
    ∃ j rest, j ≤ ls.length ∧ (joinLines ls).take k = joinLines (ls.take j) ++ rest ∧
      Unbroken rest ∧ (j = ls.length → rest = []) := by
  induction ls generalizing k with
  | nil => exact ⟨0, [], Nat.le_refl _, by simp, by simp [Unbroken], fun _ => rfl⟩
  | cons l ls ih =>
    rw [joinLines_cons]
    by_cases hk : k ≤ l.length
    · refine ⟨0, l.take k, Nat.zero_le _, ?_, ?_, fun h0 => by simp at h0⟩
      · rw [List.take_append_of_le_length hk]
        rfl
      · exact fun hm => h l List.mem_cons_self (List.mem_of_mem_take hm)
    · obtain ⟨j, rest, hj, ht, hu, hl⟩ := ih (k - l.length - 1) fun l' hl' =>
        h l' (List.mem_cons_of_mem _ hl')
      refine ⟨j + 1, rest, Nat.succ_le_succ hj, ?_, hu, fun h1 => hl (Nat.succ.inj h1)⟩
      obtain ⟨m, hm⟩ : ∃ m, k - l.length = m + 1 := ⟨k - l.length - 1, by omega⟩
      rw [List.take_append, List.take_of_length_le (by omega), hm, List.take_succ_cons,
        show m = k - l.length - 1 by omega, ht, List.take_succ_cons, joinLines_cons,
        List.append_assoc, List.cons_append]

/-! ## What fits -/

section Within

variable {α : Type} (size : α → Nat)

/-- How long some pieces are together. -/
def totalSize (xs : List α) : Nat := (xs.map size).sum

/-- The pieces that lie whole within the first `n`. -/
def within : Nat → List α → List α
  | _, [] => []
  | n, x :: xs => if size x ≤ n then x :: within (n - size x) xs else []

@[simp] theorem totalSize_nil : totalSize size ([] : List α) = 0 := rfl

@[simp] theorem totalSize_cons (x : α) (xs : List α) :
    totalSize size (x :: xs) = size x + totalSize size xs := by
  rw [totalSize, List.map_cons, List.sum_cons, totalSize]

@[simp] theorem totalSize_append (xs ys : List α) :
    totalSize size (xs ++ ys) = totalSize size xs + totalSize size ys := by
  rw [totalSize, List.map_append, List.sum_append, totalSize, totalSize]

theorem totalSize_flatMap {β : Type} (f : β → List α) (xs : List β) :
    totalSize size (xs.flatMap f) = totalSize (fun x => totalSize size (f x)) xs := by
  induction xs with
  | nil => rfl
  | cons x xs ih => rw [List.flatMap_cons, totalSize_append, totalSize_cons, ih]

theorem within_of_le {n : Nat} {xs : List α} (h : totalSize size xs ≤ n) :
    within size n xs = xs := by
  induction xs generalizing n with
  | nil => rfl
  | cons x xs ih =>
    rw [totalSize_cons] at h
    rw [within, if_pos (by omega), ih (by omega)]

theorem within_append (n : Nat) (xs ys : List α) :
    within size n (xs ++ ys)
      = if totalSize size xs ≤ n then xs ++ within size (n - totalSize size xs) ys
        else within size n xs := by
  induction xs generalizing n with
  | nil => simp
  | cons x xs ih =>
    rw [List.cons_append, within, within, totalSize_cons]
    by_cases hx : size x ≤ n
    · rw [if_pos hx, if_pos hx, ih]
      by_cases hxs : totalSize size xs ≤ n - size x
      · rw [if_pos hxs, if_pos (by omega), Nat.sub_add_eq]
        rfl
      · rw [if_neg hxs, if_neg (by omega)]
    · rw [if_neg hx, if_neg hx, if_neg (by omega)]

/-- **The pieces within are those of a prefix, they fit, and the next one does not.** -/
theorem within_spec (n : Nat) (xs : List α) :
    ∃ rest, xs = within size n xs ++ rest ∧ totalSize size (within size n xs) ≤ n ∧
      ∀ x ∈ rest.head?, n < totalSize size (within size n xs) + size x := by
  induction xs generalizing n with
  | nil => exact ⟨[], rfl, Nat.zero_le _, by simp⟩
  | cons x xs ih =>
    rw [within]
    by_cases hx : size x ≤ n
    · obtain ⟨rest, h1, h2, h3⟩ := ih (n - size x)
      rw [if_pos hx, totalSize_cons]
      refine ⟨rest, by rw [List.cons_append, ← h1], by omega, fun y hy => ?_⟩
      have := h3 y hy
      omega
    · rw [if_neg hx]
      refine ⟨x :: xs, rfl, Nat.zero_le _, fun y hy => ?_⟩
      obtain rfl : x = y := by simpa using hy
      simpa using hx

theorem mem_of_mem_within {n : Nat} {xs : List α} {x : α} (h : x ∈ within size n xs) : x ∈ xs := by
  obtain ⟨rest, hrest, -⟩ := within_spec size n xs
  rw [hrest]
  exact List.mem_append_left _ h

end Within

end Telepty.Infra
