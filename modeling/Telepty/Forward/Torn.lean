import Telepty.Forward.Custody
import Telepty.Infra.JsonPrefix

/-!
# Torn records

A first record is written into its own file, so a process that dies in the middle leaves a part of
it there. No part of a record reads as a record: it is either all there, or refused.
-/

namespace Telepty.Forward

open Infra Infra.Prog Mailbox Principal

variable {σ μ : Type} {home : Path} {k : Text} {r r' : Json} {b : Bytes} {fs : FS}

theorem isObject_spread {record : Json} {members : List (Text × Json)}
    (h : record.isObject = true) : (spread record members).isObject = true := by
  induction members generalizing record with
  | nil => exact h
  | cons p members ih =>
    rw [spread, List.foldl_cons]
    refine ih ?_
    cases record with
    | obj ms => rfl
    | _ => cases h

/-- **A part of a record is refused.** -/
theorem eq_of_recordIn_cut (hb : b <+: bytesOf r) (hr : r.isObject = true)
    (h : recordIn k b = some r') : b = bytesOf r ∧ r' = r := by
  have hfull : b = bytesOf r := by
    rw [recordIn] at h
    split at h
    · next hbytes =>
      rw [← hbytes.2.2, bytesOf] at hb ⊢
      obtain ⟨hparse, hread⟩ := Option.filter_eq_some_iff.mp h
      rw [parseUnambiguousJSON] at hparse
      split at hparse
      · simp only [Bool.and_eq_true] at hread
        have hclosed : r'.closed = true := by
          cases r' with
          | obj ms => rfl
          | _ => cases hread.1.1.1.1
        obtain ⟨ms, rfl⟩ : ∃ ms, r = .obj ms := by
          cases r with
          | obj ms => exact ⟨ms, rfl⟩
          | _ => cases hr
        rw [Json.eq_of_prefix (prefix_of_encodeText hb) (Option.filter_eq_some_iff.mp hparse).1 hclosed]
      · cases hparse
    · cases h
  exact ⟨hfull, eq_of_recordIn (hfull ▸ h)⟩

/-- What can be read of a file that holds a part of a record is the record. -/
theorem eq_of_observe_cut (hslot : slot home fs k = some (.file b)) (hb : b <+: bytesOf r)
    (hr : r.isObject = true) (h : observe home fs k = .ok (some r')) : r' = r := by
  rw [slot] at hslot
  rw [observe, FS.lstat, hslot] at h
  dsimp only at h
  split at h
  · next record hrec =>
    obtain rfl := Option.some.inj (Except.ok.inj h)
    exact (eq_of_recordIn_cut hb hr hrec).2
  · cases h

end Telepty.Forward
