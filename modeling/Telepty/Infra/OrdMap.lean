import Mathlib.Data.List.Basic
import Mathlib.Data.List.Induction
import Mathlib.Data.List.Nodup

/-!
# Insertion-ordered maps

The `Map` of JavaScript: keys are distinct, iteration follows the order of first insertion,
`set` on a present key replaces the value in place, `delete` followed by `set` moves the key to
the end. The distinctness of the keys is carried by the structure.
-/

namespace Telepty.Infra

variable {α β γ : Type} [DecidableEq α]

/-- The value of the first pair whose key is `k`. -/
def assoc (k : α) : List (α × β) → Option β
  | [] => none
  | (a, b) :: rest => if a = k then some b else assoc k rest

/-- Replaces the value of the pair whose key is `k`, or appends a new pair. -/
def assocSet (k : α) (v : β) : List (α × β) → List (α × β)
  | [] => [(k, v)]
  | (a, b) :: rest => if a = k then (a, v) :: rest else (a, b) :: assocSet k v rest

theorem assoc_isSome_iff {k : α} {l : List (α × β)} :
    (assoc k l).isSome ↔ k ∈ l.map Prod.fst := by
  induction l with
  | nil => simp [assoc]
  | cons p rest ih =>
    obtain ⟨a, b⟩ := p
    rw [assoc]
    by_cases h : a = k
    · simp [h]
    · simp [h, ih, Ne.symm h]

theorem assoc_eq_none_iff {k : α} {l : List (α × β)} :
    assoc k l = none ↔ k ∉ l.map Prod.fst := by
  rw [← assoc_isSome_iff]
  simp

theorem mem_of_assoc {k : α} {v : β} {l : List (α × β)} (h : assoc k l = some v) : (k, v) ∈ l := by
  induction l with
  | nil => simp [assoc] at h
  | cons p rest ih =>
    obtain ⟨a, b⟩ := p
    rw [assoc] at h
    split at h
    · next hk => cases h; subst hk; exact List.mem_cons_self
    · exact List.mem_cons_of_mem _ (ih h)

theorem assoc_of_mem {k : α} {v : β} {l : List (α × β)} (hn : (l.map Prod.fst).Nodup)
    (h : (k, v) ∈ l) : assoc k l = some v := by
  induction l with
  | nil => simp at h
  | cons p rest ih =>
    obtain ⟨a, b⟩ := p
    rw [List.map_cons, List.nodup_cons] at hn
    rw [assoc]
    rcases List.mem_cons.mp h with h | h
    · cases h; simp
    · have hne : a ≠ k := by
        rintro rfl
        exact hn.1 (List.mem_map.mpr ⟨(a, v), h, rfl⟩)
      rw [if_neg hne]
      exact ih hn.2 h

theorem assoc_assocSet_self (k : α) (v : β) (l : List (α × β)) :
    assoc k (assocSet k v l) = some v := by
  induction l with
  | nil => simp [assocSet, assoc]
  | cons p rest ih =>
    obtain ⟨a, b⟩ := p
    rw [assocSet]
    by_cases h : a = k
    · simp [h, assoc]
    · simp [h, assoc, ih]

theorem assoc_assocSet_of_ne {k j : α} (v : β) (l : List (α × β)) (h : j ≠ k) :
    assoc j (assocSet k v l) = assoc j l := by
  induction l with
  | nil => simp [assocSet, assoc, Ne.symm h]
  | cons p rest ih =>
    obtain ⟨a, b⟩ := p
    rw [assocSet]
    by_cases hk : a = k
    · subst hk
      simp [assoc, Ne.symm h]
    · simp only [if_neg hk, assoc, ih]

theorem keys_assocSet (k : α) (v : β) (l : List (α × β)) :
    (assocSet k v l).map Prod.fst
      = if k ∈ l.map Prod.fst then l.map Prod.fst else l.map Prod.fst ++ [k] := by
  induction l with
  | nil => simp [assocSet]
  | cons p rest ih =>
    obtain ⟨a, b⟩ := p
    rw [assocSet]
    by_cases h : a = k
    · simp [h]
    · rw [if_neg h, List.map_cons, ih]
      by_cases hm : k ∈ rest.map Prod.fst
      · simp [hm]
      · simp [hm, Ne.symm h]

theorem assocSet_of_not_mem {k : α} (v : β) {l : List (α × β)} (h : k ∉ l.map Prod.fst) :
    assocSet k v l = l ++ [(k, v)] := by
  induction l with
  | nil => rfl
  | cons p rest ih =>
    obtain ⟨a, b⟩ := p
    rw [List.map_cons, List.mem_cons, not_or] at h
    rw [assocSet, if_neg (Ne.symm h.1), ih h.2, List.cons_append]

theorem nodup_assocSet {k : α} {v : β} {l : List (α × β)} (h : (l.map Prod.fst).Nodup) :
    ((assocSet k v l).map Prod.fst).Nodup := by
  rw [keys_assocSet]
  split
  · exact h
  · next hk => exact List.nodup_append.mpr ⟨h, List.nodup_singleton k, by
      intro a ha b hb hab
      rw [List.mem_singleton] at hb
      exact hk (hb ▸ hab ▸ ha)⟩

/-- Leaving pairs out by their keys, after a pair is set. -/
theorem filter_assocSet (p : α → Bool) (k : α) (v : β) (l : List (α × β)) :
    (assocSet k v l).filter (fun e => p e.1)
      = if p k then assocSet k v (l.filter fun e => p e.1) else l.filter fun e => p e.1 := by
  induction l with
  | nil =>
    by_cases h : p k = true
    · simp [assocSet, h]
    · simp [assocSet, h]
  | cons e l ih =>
    obtain ⟨a, b⟩ := e
    rw [assocSet]
    by_cases ha : a = k
    · subst ha
      by_cases h : p a = true
      · simp [h, assocSet]
      · simp [h]
    · rw [if_neg ha]
      by_cases h : p a = true
      · rw [List.filter_cons_of_pos (by simpa using h), List.filter_cons_of_pos (by simpa using h),
          ih]
        split
        · rw [assocSet, if_neg ha]
        · rfl
      · rw [List.filter_cons_of_neg (by simpa using h), List.filter_cons_of_neg (by simpa using h),
          ih]

/-- Setting a pair that is there changes nothing. -/
theorem assocSet_of_assoc {k : α} {v : β} {l : List (α × β)} (h : assoc k l = some v) :
    assocSet k v l = l := by
  induction l with
  | nil => cases h
  | cons e l ih =>
    obtain ⟨a, b⟩ := e
    rw [assoc] at h
    rw [assocSet]
    split at h
    · next ha =>
      rw [if_pos ha, Option.some.inj h]
    · next ha => rw [if_neg ha, ih h]

/-- A `Map`: its entries in iteration order, with distinct keys. -/
structure OrdMap (α β : Type) where
  entries : List (α × β)
  nodup : (entries.map Prod.fst).Nodup

namespace OrdMap

def empty : OrdMap α β := ⟨[], List.nodup_nil⟩

def get? (m : OrdMap α β) (k : α) : Option β := assoc k m.entries

def has (m : OrdMap α β) (k : α) : Bool := (m.get? k).isSome

def set (m : OrdMap α β) (k : α) (v : β) : OrdMap α β :=
  ⟨assocSet k v m.entries, nodup_assocSet m.nodup⟩

/-- The entries whose pair satisfies `p`, in the same order. -/
def filter (m : OrdMap α β) (p : α × β → Bool) : OrdMap α β :=
  ⟨m.entries.filter p, m.nodup.sublist (List.filter_sublist.map Prod.fst)⟩

def delete (m : OrdMap α β) (k : α) : OrdMap α β := m.filter fun e => e.1 ≠ k

/-- Every value replaced by `f` of it, keys and order unchanged. -/
def mapVal (m : OrdMap α β) (f : β → γ) : OrdMap α γ :=
  ⟨m.entries.map fun e => (e.1, f e.2), by
    rw [List.map_map]
    exact m.nodup⟩

def keys (m : OrdMap α β) : List α := m.entries.map Prod.fst

def values (m : OrdMap α β) : List β := m.entries.map Prod.snd

def size (m : OrdMap α β) : Nat := m.entries.length

variable (m : OrdMap α β) {k j : α} {v : β}

@[simp] theorem get?_empty : (empty : OrdMap α β).get? k = none := rfl

@[simp] theorem get?_set_self : (m.set k v).get? k = some v := assoc_assocSet_self _ _ _

theorem get?_set_of_ne (h : j ≠ k) : (m.set k v).get? j = m.get? j :=
  assoc_assocSet_of_ne _ _ h

theorem get?_set (j : α) : (m.set k v).get? j = if j = k then some v else m.get? j := by
  by_cases h : j = k
  · subst h; simp
  · rw [if_neg h, get?_set_of_ne m h]

theorem has_iff : m.has k = true ↔ ∃ v, m.get? k = some v := by
  rw [has, Option.isSome_iff_exists]

theorem has_eq_false_iff : m.has k = false ↔ m.get? k = none := by
  simp [has]

theorem mem_entries_iff : (k, v) ∈ m.entries ↔ m.get? k = some v :=
  ⟨assoc_of_mem m.nodup, mem_of_assoc⟩

theorem mem_keys_iff : k ∈ m.keys ↔ ∃ v, m.get? k = some v := by
  rw [keys, ← assoc_isSome_iff, Option.isSome_iff_exists]
  rfl

theorem mem_values_iff : v ∈ m.values ↔ ∃ k, m.get? k = some v := by
  rw [values, List.mem_map]
  constructor
  · rintro ⟨⟨k, v'⟩, hm, rfl⟩
    exact ⟨k, m.mem_entries_iff.mp hm⟩
  · rintro ⟨k, hk⟩
    exact ⟨(k, v), m.mem_entries_iff.mpr hk, rfl⟩

theorem get?_filter {p : α × β → Bool} :
    (m.filter p).get? k = (m.get? k).filter fun v => p (k, v) := by
  cases h : m.get? k with
  | none =>
    rw [Option.filter_none, get?, assoc_eq_none_iff]
    intro hm
    obtain ⟨⟨k', v⟩, he, rfl⟩ := List.mem_map.mp hm
    have hm' : (k', v) ∈ m.entries := List.mem_of_mem_filter he
    rw [m.mem_entries_iff, h] at hm'
    exact absurd hm' (by simp)
  | some v =>
    have hm : (k, v) ∈ m.entries := m.mem_entries_iff.mpr h
    cases hp : p (k, v) with
    | true =>
      rw [Option.filter_some_pos (by simpa using hp), ← mem_entries_iff]
      exact List.mem_filter.mpr ⟨hm, hp⟩
    | false =>
      rw [Option.filter_some_neg (by simp [hp]), get?, assoc_eq_none_iff]
      intro hk
      obtain ⟨⟨k', v'⟩, he, rfl⟩ := List.mem_map.mp hk
      obtain ⟨he1, he2⟩ := List.mem_filter.mp he
      rw [m.mem_entries_iff, h] at he1
      cases he1
      simp [hp] at he2

theorem get?_delete (j : α) : (m.delete k).get? j = if j = k then none else m.get? j := by
  rw [delete, get?_filter]
  by_cases h : j = k
  · subst h
    cases m.get? j <;> simp
  · rw [if_neg h]
    cases m.get? j <;> simp [h]

theorem get?_mapVal (f : β → γ) : (m.mapVal f).get? k = (m.get? k).map f := by
  cases h : m.get? k with
  | none =>
    rw [Option.map_none, get?, assoc_eq_none_iff]
    intro hm
    simp only [mapVal, List.map_map] at hm
    exact assoc_eq_none_iff.mp h hm
  | some v =>
    rw [Option.map_some, ← mem_entries_iff]
    exact List.mem_map.mpr ⟨(k, v), m.mem_entries_iff.mpr h, rfl⟩

/-- Setting each pair of a list in turn. -/
def setAll (m : OrdMap α β) (l : List (α × β)) : OrdMap α β :=
  l.foldl (fun m e => m.set e.1 e.2) m

/-- What `setAll` holds at a key: the last pair of the list with that key, else what was there. -/
theorem get?_setAll (l : List (α × β)) (m : OrdMap α β) :
    (m.setAll l).get? k = (assoc k l.reverse).or (m.get? k) := by
  have happ : ∀ (a : List (α × β)) (p : α × β),
      assoc k (a ++ [p]) = (assoc k a).or (if p.1 = k then some p.2 else none) := by
    intro a p
    induction a with
    | nil => simp [assoc]
    | cons q a ih =>
      obtain ⟨x, y⟩ := q
      simp only [List.cons_append, assoc, ih]
      split <;> simp
  induction l generalizing m with
  | nil => simp [setAll, assoc]
  | cons p rest ih =>
    rw [show m.setAll (p :: rest) = (m.set p.1 p.2).setAll rest from rfl, ih,
      List.reverse_cons, happ, get?_set]
    rcases Decidable.em (k = p.1) with h | h
    · simp [h]
    · simp [h, Ne.symm h]

/-- Setting every entry of another map. -/
theorem get?_setAll_entries (m n : OrdMap α β) (k : α) :
    (m.setAll n.entries).get? k = (n.get? k).or (m.get? k) := by
  have hrev : assoc k n.entries.reverse = n.get? k := by
    have hn : (n.entries.reverse.map Prod.fst).Nodup := by
      rw [List.map_reverse, List.nodup_reverse]
      exact n.nodup
    cases h : n.get? k with
    | none =>
      rw [assoc_eq_none_iff, List.map_reverse, List.mem_reverse]
      exact assoc_eq_none_iff.mp h
    | some v => exact assoc_of_mem hn (List.mem_reverse.mpr (n.mem_entries_iff.mpr h))
  rw [get?_setAll, hrev]

/-- A new key comes last. -/
theorem entries_set_of_none (h : m.get? k = none) : (m.set k v).entries = m.entries ++ [(k, v)] :=
  assocSet_of_not_mem v (assoc_eq_none_iff.mp h)

theorem delete_of_none (h : m.get? k = none) : (m.delete k).entries = m.entries := by
  rw [delete, filter]
  refine List.filter_eq_self.mpr fun e he => ?_
  have hn : k ∉ m.entries.map Prod.fst := assoc_eq_none_iff.mp h
  have hne : e.1 ≠ k := by
    rintro rfl
    exact hn (List.mem_map_of_mem he)
  simpa using hne

/-- Deleting the first key leaves the rest. -/
theorem entries_delete_head {l : List (α × β)} (h : m.entries = (k, v) :: l) :
    (m.delete k).entries = l := by
  have hn := m.nodup
  rw [h, List.map_cons, List.nodup_cons] at hn
  rw [delete, filter]
  simp only [h]
  rw [List.filter_cons_of_neg (by simp)]
  refine List.filter_eq_self.mpr fun e he => ?_
  have hne : e.1 ≠ k := by
    rintro rfl
    exact hn.1 (List.mem_map.mpr ⟨e, he, rfl⟩)
  simpa using hne

/-- The entries are the one of a key and those that are left without it. -/
theorem perm_delete (h : m.get? k = some v) :
    m.entries.Perm ((k, v) :: (m.delete k).entries) := by
  have hmem : (k, v) ∈ m.entries := m.mem_entries_iff.mpr h
  obtain ⟨l, r, he⟩ := List.append_of_mem hmem
  have hn := m.nodup
  rw [he, List.map_append, List.map_cons, List.nodup_append, List.nodup_cons] at hn
  obtain ⟨-, ⟨hr, -⟩, hd⟩ := hn
  have hk : ∀ e ∈ l ++ r, decide (e.1 ≠ k) = true := by
    intro e hm
    have hne : e.1 ≠ k := by
      rintro rfl
      rcases List.mem_append.mp hm with hm | hm
      · exact hd e.1 (List.mem_map_of_mem hm) e.1 List.mem_cons_self rfl
      · exact hr (List.mem_map.mpr ⟨e, hm, rfl⟩)
    simpa using hne
  have hdel : (m.delete k).entries = l ++ r := by
    rw [delete, filter]
    simp only [he]
    rw [List.filter_append, List.filter_cons_of_neg (by simp), ← List.filter_append]
    exact List.filter_eq_self.mpr hk
  rw [hdel, he]
  exact List.perm_middle

omit [DecidableEq α] in
@[ext] theorem ext {m n : OrdMap α β} (h : m.entries = n.entries) : m = n := by
  cases m
  cases n
  cases h
  rfl

/-- Setting a key to what it holds changes nothing. -/
theorem set_of_get? {m : OrdMap α β} (h : m.get? k = some v) : m.set k v = m :=
  ext (assocSet_of_assoc h)

/-! ## Collecting a list by key -/

/-- The map of a list's keys, each with what `upd` makes of its elements, one after the other. -/
def collect (key : γ → α) (upd : Option β → γ → β) (l : List γ) : OrdMap α β :=
  l.foldl (fun m x => m.set (key x) (upd (m.get? (key x)) x)) empty

variable {key : γ → α} {upd : Option β → γ → β}

theorem collect_concat (l : List γ) (x : γ) :
    collect key upd (l ++ [x])
      = (collect key upd l).set (key x) (upd ((collect key upd l).get? (key x)) x) := by
  rw [collect, List.foldl_append]
  rfl

/-- **Leaving elements out by their keys** leaves out the entries of those keys. -/
theorem collect_filter (p : α → Bool) (l : List γ) :
    collect key upd (l.filter fun x => p (key x)) = (collect key upd l).filter fun e => p e.1 := by
  induction l using List.reverseRecOn with
  | nil => rfl
  | append_singleton l x ih =>
    rw [List.filter_append, collect_concat]
    refine ext ?_
    show _ = (assocSet _ _ _).filter _
    rw [filter_assocSet]
    by_cases h : p (key x) = true
    · have hget : ((collect key upd l).filter fun e => p e.1).get? (key x)
          = (collect key upd l).get? (key x) := by
        rw [get?_filter]
        cases (collect key upd l).get? (key x) with
        | none => rfl
        | some v => rw [Option.filter_some, if_pos h]
      rw [List.filter_cons_of_pos (by simpa using h), List.filter_nil, collect_concat, ih, hget,
        if_pos h]
      rfl
    · rw [List.filter_cons_of_neg (by simpa using h), List.filter_nil, List.append_nil, ih,
        if_neg h]
      rfl

end OrdMap

end Telepty.Infra
