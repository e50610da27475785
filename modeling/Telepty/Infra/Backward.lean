import Mathlib.Data.List.Basic

/-!
# Reading from the end

A long list is read in blocks from its end, and the pieces between its separators are visited last
first, until the visitor has had enough. What stands in front of the first separator of a block is
carried into the block before it.

However long the blocks are, the visitor sees the pieces of the whole list (`scan_eq`).
-/

namespace Telepty.Infra

/-- What is done with one piece after another. -/
structure Visitor (α σ ε : Type) where
  visit : List α → σ → Except ε σ
  done : σ → Bool

namespace Visitor

variable {α σ ε : Type} (v : Visitor α σ ε)

/-- One piece after another, until the visitor is done. -/
def visitAll : List (List α) → σ → Except ε σ
  | [], s => .ok s
  | p :: ps, s =>
    if v.done s then .ok s else (v.visit p s).bind fun s => visitAll ps s

section Visits

variable {v} {s s' : σ} {e : ε} {ps qs : List (List α)}

theorem visitAll_of_done (ps : List (List α)) (h : v.done s = true) : v.visitAll ps s = .ok s := by
  cases ps with
  | nil => rfl
  | cons p ps => rw [visitAll, if_pos h]

theorem visitAll_cons (p : List α) (h : v.done s = false) :
    v.visitAll (p :: ps) s = (v.visit p s).bind (v.visitAll ps) := by
  rw [visitAll, h, if_neg Bool.false_ne_true]

theorem visitAll_append (h : v.visitAll ps s = .ok s') :
    v.visitAll (ps ++ qs) s = v.visitAll qs s' := by
  induction ps generalizing s with
  | nil =>
    cases h
    rfl
  | cons p ps ih =>
    cases hd : v.done s with
    | true =>
      rw [visitAll_of_done _ hd] at h
      cases h
      rw [visitAll_of_done _ hd, visitAll_of_done _ hd]
    | false =>
      rw [visitAll_cons p hd] at h
      rw [List.cons_append, visitAll_cons p hd]
      cases hv : v.visit p s with
      | error e =>
        rw [hv] at h
        cases h
      | ok s₁ =>
        rw [hv] at h
        exact ih h

theorem visitAll_append_error (h : v.visitAll ps s = .error e) :
    v.visitAll (ps ++ qs) s = .error e := by
  induction ps generalizing s with
  | nil => cases h
  | cons p ps ih =>
    cases hd : v.done s with
    | true =>
      rw [visitAll_of_done _ hd] at h
      cases h
    | false =>
      rw [visitAll_cons p hd] at h
      rw [List.cons_append, visitAll_cons p hd]
      cases hv : v.visit p s with
      | error e' =>
        rw [hv] at h
        exact h
      | ok s₁ =>
        rw [hv] at h
        exact ih h

end Visits

/-! ## The reader -/

variable [DecidableEq α] (sep : α)

/-- The pieces of a block behind its separators before `i`, where the last of them ends at `endAt`;
the place where the rest ends. -/
def block (xs : List α) : Nat → Nat → σ → Except ε (σ × Nat)
  | 0, endAt, s => .ok (s, endAt)
  | i + 1, endAt, s =>
    if xs[i]? = some sep then
      (v.visit ((xs.take endAt).drop (i + 1)) s).bind fun s =>
        if v.done s then .ok (s, i) else block xs i i s
    else block xs i endAt s

/-- The blocks before `position`, the longest `size` long, and at last the rest. `read` is given the
number of the block and its bounds, and `check` the rest of a block. -/
def scan (size : Nat) (read : Nat → Nat → Nat → Except ε (List α)) (check : List α → Except ε Unit) :
    Nat → Nat → Nat → List α → σ → Except ε σ
  | 0, _, _, carry, s => v.visit carry s
  | fuel + 1, k, position, carry, s =>
    if position = 0 then v.visit carry s
    else
      (read k (position - min size position) (min size position)).bind fun bytes =>
        (v.block sep (bytes ++ carry) (bytes ++ carry).length (bytes ++ carry).length s).bind fun x =>
          if v.done x.1 then .ok x.1
          else
            (check ((bytes ++ carry).take x.2)).bind fun _ =>
              scan size read check fuel (k + 1) (position - min size position)
                ((bytes ++ carry).take x.2) x.1

/-! ## Pieces -/

section Pieces

variable {sep} {xs ys p : List α}

theorem splitOn_eq_cons (sep : α) (xs : List α) : ∃ p ps, xs.splitOn sep = p :: ps :=
  List.exists_cons_of_ne_nil (List.splitOn_ne_nil sep xs)

/-- The first piece of a list has no separator, and what is put in front of the list goes into it. -/
theorem splitOn_append_head {ps : List (List α)} (h : ys.splitOn sep = p :: ps) :
    sep ∉ p ∧ ∀ xs : List α, (xs ++ ys).splitOn sep = (xs ++ p).splitOn sep ++ ps := by
  by_cases hmem : sep ∈ ys
  · obtain ⟨q, r, rfl, hq⟩ := List.eq_append_cons_of_mem hmem
    rw [List.splitOn_append_cons_self_of_not_mem hq] at h
    cases h
    refine ⟨hq, fun xs => ?_⟩
    rw [← List.append_assoc, List.splitOn_append_cons_self]
  · rw [List.splitOn_eq_singleton hmem] at h
    cases h
    exact ⟨hmem, fun xs => (List.append_nil _).symm⟩

/-- What has no separator goes into the last piece of the list in front of it. -/
theorem splitOn_append_last (hp : sep ∉ p) (xs : List α) :
    ∃ qs q, (xs ++ p).splitOn sep = qs ++ [q ++ p] := by
  by_cases hmem : sep ∈ xs
  · induction xs with
    | nil => exact absurd hmem List.not_mem_nil
    | cons x xs ih =>
      by_cases hxs : sep ∈ xs
      · obtain ⟨qs, q, hq⟩ := ih hxs
        rw [List.cons_append, List.splitOn_cons_eq_if_modifyHead, hq]
        by_cases hx : x = sep
        · exact ⟨[] :: qs, q, by rw [if_pos (beq_iff_eq.mpr hx)]; rfl⟩
        · rw [if_neg (by simpa using hx)]
          cases qs with
          | nil => exact ⟨[], x :: q, rfl⟩
          | cons r qs => exact ⟨(x :: r) :: qs, q, rfl⟩
      · have hx : x = sep := (List.mem_cons.mp hmem).elim Eq.symm fun h => absurd h hxs
        have hno : sep ∉ xs ++ p := fun h => (List.mem_append.mp h).elim hxs hp
        refine ⟨[[]], xs, ?_⟩
        rw [hx, List.cons_append, List.splitOn_cons_eq_if_modifyHead, if_pos (beq_self_eq_true sep),
          List.splitOn_eq_singleton hno]
        rfl
  · have hno : sep ∉ xs ++ p := fun h => (List.mem_append.mp h).elim hmem hp
    exact ⟨[], xs, List.splitOn_eq_singleton hno⟩

end Pieces

/-! ## One block -/

variable {v} {sep} {s : σ} {ps : List (List α)}

/-- What the loop over a block comes back with: the pieces behind its first separator were visited,
and the rest is the first of them. -/
inductive BlockRead (v : Visitor α σ ε) (xs p : List α) (ps : List (List α)) (s : σ) :
    Except ε (σ × Nat) → Prop where
  | failed {e : ε} (visits : v.visitAll ps.reverse s = .error e) : BlockRead v xs p ps s (.error e)
  | read {s' : σ} {endAt : Nat} (visits : v.visitAll ps.reverse s = .ok s')
      (rest : v.done s' = false → xs.take endAt = p) : BlockRead v xs p ps s (.ok (s', endAt))

theorem block_read {xs p : List α} {i endAt : Nat} (hi : i ≤ endAt) (hend : endAt ≤ xs.length)
    (hmid : sep ∉ (xs.take endAt).drop i) (hsplit : (xs.take endAt).splitOn sep = p :: ps)
    (hs : v.done s = false) : BlockRead v xs p ps s (v.block sep xs i endAt s) := by
  induction i generalizing endAt s ps with
  | zero =>
    rw [List.drop_zero] at hmid
    rw [List.splitOn_eq_singleton hmid] at hsplit
    cases hsplit
    exact .read rfl fun _ => rfl
  | succ i ih =>
    have hlt : i < (xs.take endAt).length := by
      rw [List.length_take]
      omega
    have hget : xs[i]? = some (xs.take endAt)[i] := by
      rw [List.getElem_take, List.getElem?_eq_getElem]
    have hdrop := List.drop_eq_getElem_cons hlt
    rw [block]
    by_cases hsep : xs[i]? = some sep
    · -- the piece behind this separator is the last one
      have hx : (xs.take endAt)[i] = sep := Option.some.inj (hget.symm.trans hsep)
      obtain ⟨q, qs, hq⟩ := splitOn_eq_cons sep (xs.take i)
      have hcut : xs.take endAt = xs.take i ++ sep :: (xs.take endAt).drop (i + 1) := by
        conv_lhs => rw [← List.take_append_drop i (xs.take endAt), hdrop, hx]
        rw [List.take_take, Nat.min_eq_left (Nat.le_of_succ_le hi)]
      have hlast : p = q ∧ ps = qs ++ [(xs.take endAt).drop (i + 1)] := by
        rw [hcut, List.splitOn_append_cons_self, hq, List.splitOn_eq_singleton hmid,
          List.cons_append] at hsplit
        cases hsplit
        exact ⟨rfl, rfl⟩
      obtain ⟨rfl, rfl⟩ := hlast
      have hrev : (qs ++ [(xs.take endAt).drop (i + 1)]).reverse =
          (xs.take endAt).drop (i + 1) :: qs.reverse := by
        rw [List.reverse_append, List.reverse_singleton, List.singleton_append]
      rw [if_pos hsep]
      cases hv : v.visit ((xs.take endAt).drop (i + 1)) s with
      | error e =>
        refine .failed ?_
        rw [hrev, visitAll_cons _ hs, hv, Except.bind]
      | ok s₁ =>
        have hall : v.visitAll (qs ++ [(xs.take endAt).drop (i + 1)]).reverse s =
            v.visitAll qs.reverse s₁ := by
          rw [hrev, visitAll_cons _ hs, hv, Except.bind]
        cases hd : v.done s₁ with
        | true =>
          simp only [Except.bind, hd, if_true]
          refine .read (hall.trans (visitAll_of_done _ hd)) fun h => ?_
          rw [hd] at h
          cases h
        | false =>
          simp only [Except.bind, hd, Bool.false_eq_true, if_false]
          have hblock := ih (Nat.le_refl i) (by omega) (by simp) hq hd
          cases hb : v.block sep xs i i s₁ with
          | error e =>
            rw [hb] at hblock
            cases hblock with
            | failed visits => exact .failed (hall.trans visits)
          | ok x =>
            rw [hb] at hblock
            cases hblock with
            | read visits rest => exact .read (hall.trans visits) rest
    · have hx : (xs.take endAt)[i] ≠ sep := fun h => hsep (h ▸ hget)
      rw [if_neg hsep]
      refine ih (Nat.le_of_succ_le hi) hend ?_ hsplit hs
      rw [hdrop]
      exact fun h => (List.mem_cons.mp h).elim (fun h => hx h.symm) hmid

/-! ## All blocks -/

section Scan

variable {size : Nat} {read : Nat → Nat → Nat → Except ε (List α)}
  {check : List α → Except ε Unit} {data : List α}

/-- The rest in front of the first block is the last piece. -/
theorem visit_rest {carry : List α} (hcarry : sep ∉ carry) (hs : v.done s = false) :
    v.visit carry s = v.visitAll ((data.take 0 ++ carry).splitOn sep).reverse s := by
  rw [List.take_zero, List.nil_append, List.splitOn_eq_singleton hcarry, List.reverse_singleton,
    visitAll_cons _ hs]
  cases v.visit carry s with
  | error e => rfl
  | ok s₁ => rfl

/-- **The blocks do not matter**: where every read finds the list, and a rest is refused only if
every piece that ends with it is, the pieces of the whole list are visited, the last one first. -/
theorem scan_eq_visitAll (data : List α) (hsize : 0 < size)
    (hread : ∀ k pos n, pos + n ≤ data.length → read k pos n = .ok ((data.drop pos).take n))
    (hcheck : ∀ c e, check c = .error e → ∀ p s, v.visit (p ++ c) s = .error e)
    {fuel k position : Nat} {carry : List α} (hfuel : position ≤ fuel)
    (hpos : position ≤ data.length) (hcarry : sep ∉ carry) (hs : v.done s = false) :
    v.scan sep size read check fuel k position carry s =
      v.visitAll ((data.take position ++ carry).splitOn sep).reverse s := by
  induction fuel generalizing k position carry s with
  | zero =>
    obtain rfl : position = 0 := Nat.le_zero.mp hfuel
    exact visit_rest hcarry hs
  | succ fuel ih =>
    rw [scan]
    by_cases hzero : position = 0
    · rw [if_pos hzero, hzero]
      exact visit_rest hcarry hs
    · have hdown : position - min size position + min size position = position := by omega
      rw [if_neg hzero, hread k _ _ (by omega), Except.bind]
      generalize hbytes : (data.drop (position - min size position)).take (min size position) = bytes
      have htake : data.take position = data.take (position - min size position) ++ bytes := by
        rw [← hbytes, ← List.take_add, hdown]
      obtain ⟨p, ps, hsplit⟩ := splitOn_eq_cons sep (bytes ++ carry)
      obtain ⟨hp, hhead⟩ := splitOn_append_head hsplit
      have hall : ((data.take position ++ carry).splitOn sep).reverse =
          ps.reverse ++ ((data.take (position - min size position) ++ p).splitOn sep).reverse := by
        rw [htake, List.append_assoc, hhead, List.reverse_append]
      have hblock : BlockRead v (bytes ++ carry) p ps s
          (v.block sep (bytes ++ carry) (bytes ++ carry).length (bytes ++ carry).length s) :=
        block_read (Nat.le_refl _) (Nat.le_refl _) (by simp) (by rw [List.take_length, hsplit]) hs
      rw [hall]
      cases hb : v.block sep (bytes ++ carry) (bytes ++ carry).length (bytes ++ carry).length s with
      | error e =>
        rw [hb] at hblock
        cases hblock with
        | failed visits => exact (visitAll_append_error visits).symm
      | ok x =>
        obtain ⟨s₁, endAt⟩ := x
        rw [hb] at hblock
        cases hblock with
        | read visits rest =>
          rw [visitAll_append visits, Except.bind]
          cases hd : v.done s₁ with
          | true =>
            rw [if_pos rfl, visitAll_of_done _ hd]
          | false =>
            rw [if_neg Bool.false_ne_true, rest hd]
            cases hc : check p with
            | error e =>
              -- the piece that the rest ends is too long as well
              obtain ⟨qs, q, hq⟩ := splitOn_append_last hp (data.take (position - min size position))
              rw [hq, List.reverse_append, List.reverse_singleton, List.singleton_append,
                visitAll_cons _ hd, hcheck p e hc, Except.bind, Except.bind]
            | ok u =>
              have hless : position - min size position ≤ fuel := by omega
              exact ih hless (by omega) hp hd

end Scan

end Visitor

end Telepty.Infra
