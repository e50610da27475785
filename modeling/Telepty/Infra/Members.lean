import Telepty.Infra.Json
import Telepty.Infra.OrdMap

/-!
# Objects with members that may be absent

`{ a: x, ...(p ? { b: y } : {}) }`: the object is written from the list of the names that it may
have, each with the value that it has there, if it has one. Where the names differ, a member reads
back as it was written.
-/

namespace Telepty.Infra.Json

/-- The object of the members that are there. -/
def ofMembers (members : List (Text × Option Json)) : Json :=
  .obj (members.filterMap fun e => e.2.map fun v => (e.1, v))

theorem lookup_filterMap (k : Text) {members : List (Text × Option Json)}
    (hn : (members.map Prod.fst).Nodup) :
    lookup k (members.filterMap fun e => e.2.map fun v => (e.1, v)) = (assoc k members).join := by
  induction members with
  | nil => rfl
  | cons e members ih =>
    obtain ⟨a, value⟩ := e
    rw [List.map_cons, List.nodup_cons] at hn
    have hrest := ih hn.2
    by_cases hk : a = k
    · subst hk
      have hnone : assoc a members = none := assoc_eq_none_iff.mpr hn.1
      rw [hnone] at hrest
      cases value with
      | none => simpa [assoc] using hrest
      | some v =>
        rw [List.filterMap_cons_some (by rfl), lookup, hrest]
        simp [assoc]
    · have hassoc : assoc k ((a, value) :: members) = assoc k members := by
        simp [assoc, hk]
      rw [hassoc, ← hrest]
      cases value with
      | none => rfl
      | some v =>
        rw [List.filterMap_cons_some (by rfl), lookup]
        cases lookup k (members.filterMap fun e => e.2.map fun v => (e.1, v)) <;> simp [hk]

/-- **A member reads back** as it was written. -/
theorem field_ofMembers {k : Text} {value : Option Json} {members : List (Text × Option Json)}
    (hn : (members.map Prod.fst).Nodup) (hm : (k, value) ∈ members) :
    (ofMembers members).field k = value := by
  show lookup k _ = value
  rw [lookup_filterMap k hn, assoc_of_mem hn hm]
  rfl

end Telepty.Infra.Json
