import Mathlib.Data.List.Perm.Subperm
import Mathlib.Data.List.Sort
import Telepty.Infra.JsonPrint

/-!
# The order of members

Two values are the same up to the order of members (`Value.Same`) when their arrays are, item by
item, and their objects have the same names with the same values. A value with its members sorted,
at every level, stands for all that are the same (`sorted_eq_iff`). The order of names is a
parameter.
-/

namespace Telepty.Infra.Rfc8259

variable {N : Type}

namespace Value

mutual

/-- Equal up to the order of members. -/
def Same : Value N → Value N → Prop
  | .arr vs, .arr ws => SameItems vs ws
  | .obj ms, .obj ns => ms.length = ns.length ∧ SameMembers ms ns
  | v, w => v = w

def SameItems : List (Value N) → List (Value N) → Prop
  | [], [] => True
  | v :: vs, w :: ws => Same v w ∧ SameItems vs ws
  | _, _ => False

/-- Every member of the first is one of the second. -/
def SameMembers : List (Units × Value N) → List (Units × Value N) → Prop
  | [], _ => True
  | (k, v) :: ms, ns => (∃ w, (k, w) ∈ ns ∧ Same v w) ∧ SameMembers ms ns

end

section Sorting

variable (le : Units → Units → Bool)

def sortMembers {V : Type} (ms : List (Units × V)) : List (Units × V) :=
  ms.insertionSort fun a b => le a.1 b.1

mutual

/-- The value with its members sorted, at every level. -/
def sorted : Value N → Value N
  | .arr vs => .arr (sortedItems vs)
  | .obj ms => .obj (sortMembers le (sortedMembers ms))
  | v => v

def sortedItems : List (Value N) → List (Value N)
  | [] => []
  | v :: vs => sorted v :: sortedItems vs

def sortedMembers : List (Units × Value N) → List (Units × Value N)
  | [] => []
  | (k, v) :: ms => (k, sorted v) :: sortedMembers ms

end

end Sorting

/-! Induction and depth by the children, whatever the value is. -/

theorem children_induct {P : Value N → Prop} (h : ∀ v, (∀ c ∈ v.children, P c) → P v)
    (v : Value N) : P v := by
  induction v using induct with
  | leaf v hc =>
    refine h v fun c hmem => ?_
    rw [hc] at hmem
    cases hmem
  | arr vs ih => exact h _ ih
  | obj ms ih =>
    refine h _ fun c hmem => ?_
    obtain ⟨m, hm, rfl⟩ := List.mem_map.mp hmem
    exact ih m hm

theorem depth_lt_iff (v : Value N) (n : Nat) :
    v.depth < n + 1 ↔ ∀ c ∈ v.children, c.depth < n := by
  cases v with
  | arr vs => exact itemDepth_lt_iff vs n
  | obj ms => rw [depth, memberDepth_lt_iff, children, List.forall_mem_map]
  | _ => simp [depth, children]

theorem sameItems_iff (vs ws : List (Value N)) : SameItems vs ws ↔ List.Forall₂ Same vs ws := by
  induction vs generalizing ws with
  | nil => cases ws <;> simp [SameItems]
  | cons v vs ih =>
    cases ws with
    | nil => simp [SameItems]
    | cons w ws => rw [SameItems, ih, List.forall₂_cons]

theorem sameMembers_iff (ms ns : List (Units × Value N)) :
    SameMembers ms ns ↔ ∀ m ∈ ms, ∃ w, (m.1, w) ∈ ns ∧ Same m.2 w := by
  induction ms with
  | nil => simp [SameMembers]
  | cons m ms ih => rw [SameMembers, ih, List.forall_mem_cons]

variable {le : Units → Units → Bool}

theorem sortedItems_eq (vs : List (Value N)) : sortedItems le vs = vs.map (sorted le) := by
  induction vs with
  | nil => rfl
  | cons v vs ih => rw [sortedItems, ih, List.map_cons]

theorem sortedMembers_eq (ms : List (Units × Value N)) :
    sortedMembers le ms = ms.map fun m => (m.1, m.2.sorted le) := by
  induction ms with
  | nil => rfl
  | cons m ms ih => rw [sortedMembers, ih, List.map_cons]

theorem perm_sortMembers {V : Type} (ms : List (Units × V)) : (sortMembers le ms).Perm ms :=
  List.perm_insertionSort _ ms

/-- A function of the members that keeps their names may come before or after the sort. -/
theorem map_sortMembers {V W : Type} (f : Units × V → Units × W) (hf : ∀ m, (f m).1 = m.1)
    (ms : List (Units × V)) : (sortMembers le ms).map f = sortMembers le (ms.map f) :=
  List.map_insertionSort _ _ f ms fun a _ b _ => by rw [hf, hf]

/-! ## What sorting keeps -/

theorem children_sorted (v : Value N) :
    (v.sorted le).children.Perm (v.children.map (sorted le)) := by
  cases v with
  | arr vs =>
    rw [sorted, children, sortedItems_eq]
    exact .rfl
  | obj ms =>
    rw [sorted, children, sortedMembers_eq, children, List.map_map]
    refine ((perm_sortMembers _).map _).trans ?_
    rw [List.map_map]
    exact .rfl
  | _ => exact .rfl

theorem names_sorted (v : Value N) : (v.sorted le).names.Perm v.names := by
  cases v with
  | obj ms =>
    rw [sorted, names, sortedMembers_eq, names]
    refine ((perm_sortMembers _).map _).trans ?_
    rw [List.map_map]
    exact .rfl
  | _ => exact .rfl

theorem nodes_sorted (v : Value N) : (v.sorted le).nodes = v.nodes := by
  induction v using children_induct with
  | h v ih =>
    rw [nodes_eq, ((children_sorted v).map nodes).sum_nat, List.map_map, nodes_eq v]
    congr 2
    exact List.map_congr_left ih

theorem depth_sorted_lt_iff (v : Value N) (n : Nat) : (v.sorted le).depth < n ↔ v.depth < n := by
  induction v using children_induct generalizing n with
  | h v ih =>
    cases n with
    | zero => simp
    | succ n =>
      rw [depth_lt_iff, depth_lt_iff]
      simp only [(children_sorted v).mem_iff, List.forall_mem_map]
      exact forall₂_congr fun c hc => ih c hc n

theorem distinct_sorted_iff (v : Value N) : (v.sorted le).Distinct ↔ v.Distinct := by
  induction v using children_induct with
  | h v ih =>
    rw [distinct_iff, distinct_iff v, (names_sorted v).nodup_iff]
    simp only [(children_sorted v).mem_iff, List.forall_mem_map]
    exact and_congr_right fun _ => forall₂_congr ih

theorem numbers_sorted_iff (p : N → Bool) (v : Value N) :
    (v.sorted le).Numbers p ↔ v.Numbers p := by
  have hnum (n : N) : v.sorted le = .num n ↔ v = .num n := by
    cases v <;> simp [sorted]
  induction v using children_induct with
  | h v ih =>
    rw [numbers_iff, numbers_iff p v]
    simp only [(children_sorted v).mem_iff, List.forall_mem_map, hnum]
    refine and_congr_right fun _ => forall₂_congr fun c hc => ih c hc fun n => ?_
    cases c <;> simp [sorted]

/-! ## Values that are the same -/

theorem same_sorted (v : Value N) : Same v (v.sorted le) := by
  induction v using children_induct with
  | h v ih =>
    cases v with
    | arr vs =>
      rw [sorted, Same, sameItems_iff, sortedItems_eq, List.forall₂_map_right_iff,
        List.forall₂_same]
      exact ih
    | obj ms =>
      rw [sorted, Same, sameMembers_iff, sortedMembers_eq, (perm_sortMembers _).length_eq,
        List.length_map]
      refine ⟨rfl, fun m hm => ⟨m.2.sorted le, ?_, ih m.2 (List.mem_map_of_mem hm)⟩⟩
      exact (perm_sortMembers _).mem_iff.mpr (List.mem_map_of_mem hm)
    | _ => simp [sorted, Same]

theorem forall₂_of_map_eq {A B : Type} {R : A → A → Prop} {f : A → B} {vs ws : List A}
    (h : vs.map f = ws.map f) (hR : ∀ v ∈ vs, ∀ w, f v = f w → R v w) : List.Forall₂ R vs ws := by
  induction vs generalizing ws with
  | nil => rw [List.map_eq_nil_iff.mp h.symm]; exact .nil
  | cons v vs ih =>
    cases ws with
    | nil => cases h
    | cons w ws =>
      rw [List.map_cons, List.map_cons, List.cons.injEq] at h
      exact .cons (hR v List.mem_cons_self w h.1)
        (ih h.2 fun v hv => hR v (List.mem_cons_of_mem _ hv))

theorem same_of_sorted_eq {v w : Value N} (h : v.sorted le = w.sorted le) : Same v w := by
  induction v using children_induct generalizing w with
  | h v ih =>
    cases v with
    | arr vs =>
      cases w with
      | arr ws =>
        simp only [sorted, arr.injEq, sortedItems_eq] at h
        rw [Same, sameItems_iff]
        exact forall₂_of_map_eq h fun v hv w hvw => ih v hv hvw
      | _ => simp [sorted] at h
    | obj ms =>
      cases w with
      | obj ns =>
        simp only [sorted, obj.injEq, sortedMembers_eq] at h
        have hperm : (ms.map fun m => (m.1, m.2.sorted le)).Perm
            (ns.map fun m => (m.1, m.2.sorted le)) :=
          (perm_sortMembers _).symm.trans (h.symm ▸ perm_sortMembers _)
        rw [Same, sameMembers_iff]
        refine ⟨by simpa using hperm.length_eq, fun m hm => ?_⟩
        obtain ⟨n, hn, he⟩ := List.mem_map.mp (hperm.mem_iff.mp (List.mem_map_of_mem hm))
        obtain ⟨hname, hvalue⟩ := Prod.mk.inj he
        rw [← hname]
        exact ⟨n.2, hn, ih m.2 (List.mem_map_of_mem hm) hvalue.symm⟩
      | _ => simp [sorted] at h
    | _ => cases w <;> simp_all [sorted, Same]

/-- `sort` puts texts in a total order. -/
structure Orders (le : Units → Units → Bool) : Prop where
  total : ∀ a b, le a b ∨ le b a
  trans : ∀ a b c, le a b → le b c → le a c
  antisymm : ∀ a b, le a b → le b a → a = b

/-- Members with different names have one order. -/
theorem sortMembers_eq_of_perm {V : Type} (hle : Orders le) {ms ns : List (Units × V)}
    (h : ms.Perm ns) (hnames : (ms.map Prod.fst).Nodup) : sortMembers le ms = sortMembers le ns := by
  have : Std.Total fun a b : Units × V => le a.1 b.1 = true := ⟨fun a b => hle.total a.1 b.1⟩
  have : IsTrans (Units × V) fun a b => le a.1 b.1 = true :=
    ⟨fun a b c => hle.trans a.1 b.1 c.1⟩
  refine List.Perm.eq_of_pairwise (fun a b ha hb hab hba => ?_)
    (List.pairwise_insertionSort _ ms) (List.pairwise_insertionSort _ ns)
    ((perm_sortMembers ms).trans (h.trans (perm_sortMembers ns).symm))
  have ha' : a ∈ ms := (perm_sortMembers ms).mem_iff.mp ha
  have hb' : b ∈ ms := h.mem_iff.mpr ((perm_sortMembers ns).mem_iff.mp hb)
  exact List.inj_on_of_nodup_map hnames ha' hb' (hle.antisymm _ _ hab hba)

theorem map_eq_of_forall₂ {A B : Type} {R : A → A → Prop} {f : A → B} {vs ws : List A}
    (h : List.Forall₂ R vs ws) (hR : ∀ v ∈ vs, ∀ w, R v w → f v = f w) : vs.map f = ws.map f := by
  induction h with
  | nil => rfl
  | cons hvw _ ih =>
    rw [List.map_cons, List.map_cons, hR _ List.mem_cons_self _ hvw,
      ih fun v hv => hR v (List.mem_cons_of_mem _ hv)]

theorem sorted_eq_of_same (hle : Orders le) {v w : Value N} (hv : v.Distinct) (h : Same v w) :
    v.sorted le = w.sorted le := by
  induction v using children_induct generalizing w with
  | h v ih =>
    obtain ⟨hnames, hchildren⟩ := (distinct_iff v).mp hv
    cases v with
    | arr vs =>
      cases w with
      | arr ws =>
        rw [Same, sameItems_iff] at h
        rw [sorted, sorted, sortedItems_eq, sortedItems_eq,
          map_eq_of_forall₂ h fun v hv w hvw => ih v hv (hchildren v hv) hvw]
      | _ => simp [Same] at h
    | obj ms =>
      cases w with
      | obj ns =>
        obtain ⟨hlen, h⟩ := h
        rw [sameMembers_iff] at h
        have hkeys : ((ms.map fun m => (m.1, m.2.sorted le)).map Prod.fst).Nodup := by
          rw [List.map_map]
          exact hnames
        have hsub : (ms.map fun m => (m.1, m.2.sorted le)) ⊆
            ns.map fun m => (m.1, m.2.sorted le) := by
          intro x hx
          obtain ⟨m, hm, rfl⟩ := List.mem_map.mp hx
          obtain ⟨w, hw, hsame⟩ := h m hm
          have hmem : m.2 ∈ (obj ms).children := List.mem_map_of_mem hm
          rw [ih m.2 hmem (hchildren m.2 hmem) hsame]
          exact List.mem_map_of_mem (f := fun m => (m.1, m.2.sorted le)) hw
        have hperm := (List.subperm_of_subset (List.Nodup.of_map _ hkeys) hsub).perm_of_length_le
          (by simp [hlen])
        rw [sorted, sorted, sortedMembers_eq, sortedMembers_eq,
          sortMembers_eq_of_perm hle hperm hkeys]
      | _ => simp [Same] at h
    | _ =>
      cases w <;> simp_all [Same]

/-- **Values are the same up to the order of members exactly when they are equal sorted.** -/
theorem sorted_eq_iff (hle : Orders le) {v w : Value N} (hv : v.Distinct) :
    v.sorted le = w.sorted le ↔ Same v w :=
  ⟨same_of_sorted_eq, sorted_eq_of_same hle hv⟩

end Value

end Telepty.Infra.Rfc8259
