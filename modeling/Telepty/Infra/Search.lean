import Mathlib.Data.List.Sort
import Mathlib.Data.List.Lex
import Telepty.Infra.Text

/-!
# Searching a sorted sequence

`searchFirst` is the binary search for the first of several equal elements. It sees the sequence
only through the comparison of each element with the one that is looked for, so its correctness is
about a sequence that is below, then equal, then above.
-/

namespace Telepty.Infra

/-! ## Comparing bytes -/

def byteValues (b : Bytes) : List Nat := b.map UInt8.toNat

theorem byteValues_injective : Function.Injective byteValues :=
  List.map_injective_iff.mpr fun _ _ h => UInt8.toNat_inj.mp h

/-- `Buffer.compare(a, b)` -/
def compareBytes (a b : Bytes) : Ordering :=
  if byteValues a < byteValues b then .lt
  else if byteValues a = byteValues b then .eq
  else .gt

theorem compareBytes_eq_iff {a b : Bytes} : compareBytes a b = .eq ↔ a = b := by
  unfold compareBytes
  constructor
  · intro h
    split at h
    · cases h
    split at h
    · next he => exact byteValues_injective he
    · cases h
  · rintro rfl
    rw [if_neg (lt_irrefl _), if_pos rfl]

theorem compareBytes_lt_iff {a b : Bytes} :
    compareBytes a b = .lt ↔ byteValues a < byteValues b := by
  unfold compareBytes
  split
  · next h => exact iff_of_true rfl h
  · next h =>
    refine iff_of_false ?_ h
    split <;> simp

theorem compareBytes_gt_iff {a b : Bytes} :
    compareBytes a b = .gt ↔ byteValues b < byteValues a := by
  unfold compareBytes
  split
  · next h => exact iff_of_false (by simp) (lt_asymm h)
  · next h =>
    split
    · next he => exact iff_of_false (by simp) (he ▸ lt_irrefl _)
    · next he => exact iff_of_true rfl (lt_of_le_of_ne (le_of_not_gt h) (Ne.symm he))

/-! ## Binary search -/

def searchFirst (cmp : Nat → Ordering) : Nat → Nat → Nat → Option Nat → Option Nat
  | 0, _, _, found => found
  | fuel + 1, lo, hi, found =>
    if lo < hi then
      let mid := (lo + (hi - 1)) / 2
      match cmp mid with
      | .eq => searchFirst cmp fuel lo mid (some mid)
      | .lt => searchFirst cmp fuel (mid + 1) hi found
      | .gt => searchFirst cmp fuel lo mid found
    else found

/-- The sequence of length `n` is below on `[0, a)`, equal on `[a, b)` and above from `b` on. -/
structure ThreeParts (cmp : Nat → Ordering) (a b n : Nat) : Prop where
  le : a ≤ b
  below : ∀ i < a, cmp i = .lt
  equal : ∀ i, a ≤ i → i < b → cmp i = .eq
  above : ∀ i, b ≤ i → i < n → cmp i = .gt

variable {cmp : Nat → Ordering} {a b n : Nat}

/-- The invariant of the search: `[lo, hi]` holds the first equal position, and `found` is `hi` as
soon as `hi` itself is an equal position. -/
theorem searchFirst_of_inv (h : ThreeParts cmp a b n) :
    ∀ (fuel lo hi : Nat) (found : Option Nat), hi - lo ≤ fuel → lo ≤ a → a ≤ hi → hi ≤ n →
      found = (if hi < b then some hi else none) →
      searchFirst cmp fuel lo hi found = if a < b then some a else none
  | 0, lo, hi, found, hf, h1, h2, _, hfound => by
    have : hi = a := by omega
    rw [searchFirst, hfound, this]
  | fuel + 1, lo, hi, found, hf, h1, h2, h3, hfound => by
    rw [searchFirst]
    by_cases hlt : lo < hi
    · rw [if_pos hlt]
      simp only
      have hm1 : lo ≤ (lo + (hi - 1)) / 2 := by omega
      have hm2 : (lo + (hi - 1)) / 2 < hi := by omega
      generalize (lo + (hi - 1)) / 2 = mid at hm1 hm2
      rcases Nat.lt_or_ge mid a with hma | hma
      · rw [h.below mid hma]
        exact searchFirst_of_inv h fuel (mid + 1) hi found (by omega) hma h2 h3 hfound
      rcases Nat.lt_or_ge mid b with hmb | hmb
      · rw [h.equal mid hma hmb]
        exact searchFirst_of_inv h fuel lo mid _ (by omega) h1 hma (by omega) (by rw [if_pos hmb])
      · rw [h.above mid hmb (by omega)]
        refine searchFirst_of_inv h fuel lo mid found (by omega) h1 hma (by omega) ?_
        rw [hfound, if_neg (by omega), if_neg (by omega)]
    · rw [if_neg hlt, hfound]
      have : hi = a := by omega
      rw [this]

/-- **The search finds the first equal position, or nothing where there is none.** -/
theorem searchFirst_eq (h : ThreeParts cmp a b n) (hb : b ≤ n) :
    searchFirst cmp n 0 n none = if a < b then some a else none :=
  searchFirst_of_inv h n 0 n none (by omega) (Nat.zero_le _) (Nat.le_trans h.le hb) (Nat.le_refl _)
    (by rw [if_neg (by omega)])

/-- The search over a sequence whose elements are not all there to be read. -/
def searchFirstIn (look : Nat → Option Ordering) :
    Nat → Nat → Nat → Option Nat → Option (Option Nat)
  | 0, _, _, found => some found
  | fuel + 1, lo, hi, found =>
    if lo < hi then
      let mid := (lo + (hi - 1)) / 2
      (look mid).bind fun
        | .eq => searchFirstIn look fuel lo mid (some mid)
        | .lt => searchFirstIn look fuel (mid + 1) hi found
        | .gt => searchFirstIn look fuel lo mid found
    else some found

/-- **Every element the search looks at is one of the first `hi`.** -/
theorem searchFirstIn_eq {look : Nat → Option Ordering} {n : Nat}
    (h : ∀ i < n, look i = some (cmp i)) (fuel : Nat) {lo hi : Nat} (hn : hi ≤ n)
    (found : Option Nat) :
    searchFirstIn look fuel lo hi found = some (searchFirst cmp fuel lo hi found) := by
  induction fuel generalizing lo hi found with
  | zero => rfl
  | succ fuel ih =>
    rw [searchFirstIn, searchFirst]
    by_cases hlt : lo < hi
    · rw [if_pos hlt, if_pos hlt]
      simp only
      have hmid : (lo + (hi - 1)) / 2 < hi := by omega
      rw [h _ (Nat.lt_of_lt_of_le hmid hn), Option.bind_some]
      split
      · exact ih (by omega) _
      · exact ih hn _
      · exact ih (by omega) _
    · rw [if_neg hlt, if_neg hlt]

/-- A list sorted by key falls into the part below a key, the part with the key and the part
above. -/
theorem exists_three_parts {α : Type} (key : α → Bytes) {l : List α}
    (hs : l.Pairwise fun x y => compareBytes (key x) (key y) ≠ .gt) (k : Bytes) :
    ∃ A B C, l = A ++ B ++ C ∧ (∀ x ∈ A, compareBytes (key x) k = .lt) ∧ (∀ x ∈ B, key x = k) ∧
      ∀ x ∈ C, compareBytes (key x) k = .gt := by
  induction l with
  | nil => exact ⟨[], [], [], rfl, by simp, by simp, by simp⟩
  | cons x l ih =>
    obtain ⟨hx, hl⟩ := List.pairwise_cons.mp hs
    obtain ⟨A, B, C, rfl, hA, hB, hC⟩ := ih hl
    have hle : ∀ y ∈ A ++ B ++ C, byteValues (key x) ≤ byteValues (key y) := fun y hy =>
      le_of_not_gt fun hgt => hx y hy (compareBytes_gt_iff.mpr hgt)
    rcases hc : compareBytes (key x) k with _ | _ | _
    · exact ⟨x :: A, B, C, rfl, List.forall_mem_cons.mpr ⟨hc, hA⟩, hB, hC⟩
    · have hk := compareBytes_eq_iff.mp hc
      have hAnil : A = [] := List.eq_nil_iff_forall_not_mem.mpr fun y hy => by
        have h1 := compareBytes_lt_iff.mp (hA y hy)
        have h2 := hle y (by simp [hy])
        rw [hk] at h2
        exact absurd h1 (not_lt_of_ge h2)
      subst hAnil
      exact ⟨[], x :: B, C, rfl, by simp, List.forall_mem_cons.mpr ⟨hk, hB⟩, hC⟩
    · have hxk := compareBytes_gt_iff.mp hc
      have hAnil : A = [] := List.eq_nil_iff_forall_not_mem.mpr fun y hy => by
        have h1 := compareBytes_lt_iff.mp (hA y hy)
        exact absurd (lt_of_lt_of_le hxk (hle y (by simp [hy]))) (lt_asymm h1)
      have hBnil : B = [] := List.eq_nil_iff_forall_not_mem.mpr fun y hy => by
        have h2 := hle y (by simp [hy])
        rw [hB y hy] at h2
        exact absurd hxk (not_lt_of_ge h2)
      subst hAnil hBnil
      exact ⟨[], [], x :: C, rfl, by simp, by simp, List.forall_mem_cons.mpr ⟨hc, hC⟩⟩

end Telepty.Infra
