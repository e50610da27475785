import Telepty.Forward.Receipts

/-!
# What a reservation keeps

Once a record is reserved, its slot stays in use, and every record that can be read there is that
one, but for its result. A slot that does not hold a pending record any more never does again.
Nothing is asked of the environment: operations may fail and the process may die in any of them.
-/

namespace Telepty.Forward

open Infra Infra.Prog Mailbox Principal

variable {σ μ α : Type} {home : Path} {env : Env} {fs fs' : FS} {r r' : Json} {k : Text}

/-! ## Results -/

/-- The fields that the end of a reservation sets. -/
def resultFields : List Text :=
  ["state", "remote_status", "code", "remote_inject_id", "remote_queued", "remote_receipt",
    "result_fingerprint"]

/-- The records differ in their results at most. -/
def Agrees (r r' : Json) : Prop := ∀ k, k ∉ resultFields → r'.field k = r.field k

theorem Agrees.refl (r : Json) : Agrees r r := fun _ _ => rfl

theorem Agrees.trans {r'' : Json} (h : Agrees r r') (h' : Agrees r' r'') : Agrees r r'' :=
  fun k hk => (h' k hk).trans (h k hk)

theorem agrees_spread {members : List (Text × Json)}
    (h : ∀ k ∈ members.map Prod.fst, k ∈ resultFields) : Agrees r (spread r members) :=
  fun k hk => field_spread fun hmem => hk (h k hmem)

theorem Agrees.keyOf_eq (h : Agrees r r') : keyOf r' = keyOf r := by
  rw [keyOf, keyOf, Json.textField, Json.textField, h "receipt_id" (by decide)]

/-! ## What is read -/

theorem eq_of_recordIn (h : recordIn k (bytesOf r) = some r') : r' = r := by
  rw [recordIn] at h
  split at h
  · obtain ⟨hparse, -⟩ := Option.filter_eq_some_iff.mp h
    rw [parseUnambiguousJSON, bytesOf, decodeText_encodeText, Json.parse_stringify] at hparse
    split at hparse
    · exact (Option.some.inj (Option.filter_eq_some_iff.mp hparse).1).symm
    · cases hparse
  · cases h

/-- The bytes of a record read as that record. -/
theorem eq_of_observe (hslot : slot home fs k = some (.file (bytesOf r)))
    (h : observe home fs k = .ok (some r')) : r' = r := by
  rw [slot] at hslot
  rw [observe, FS.lstat, hslot] at h
  dsimp only at h
  split at h
  · next record hrec =>
    obtain rfl := Option.some.inj (Except.ok.inj h)
    exact eq_of_recordIn hrec
  · cases h

/-- The bytes of a record that `read` lets through read as that record. -/
theorem recordIn_bytesOf (hsmall : (bytesOf r).length ≤ maxRecordBytes)
    (hun : unambiguous r = true) (hobj : r.isObject = true)
    (hkey : textOf (r.field "receipt_id") = some k)
    (hfp : ((r.field "fingerprint").map coerced).any digestText = true)
    (hstate : textWhere recordStates.contains (r.field "state") = true)
    (hnum : isNumber (r.field "created_at") = true) : recordIn k (bytesOf r) = some r := by
  have hne : 1 ≤ (bytesOf r).length := by
    rw [Nat.one_le_iff_ne_zero, Ne, List.length_eq_zero_iff]
    intro hnil
    have hparse := Json.parse_stringify r
    rw [show r.stringify = [] from encodeText_injective hnil] at hparse
    cases hparse
  have hbytes : byteLength r.stringify ≤ maxJsonBytes := Nat.le_trans hsmall (by decide)
  have hdecode : decodeText (bytesOf r) = r.stringify := decodeText_encodeText _
  rw [recordIn, if_pos ⟨hne, hsmall, by rw [hdecode, bytesOf]⟩, parseUnambiguousJSON, hdecode,
    if_pos hbytes, Json.parse_stringify]
  have hread : (r.isObject && decide (textOf (r.field "receipt_id") = some k) &&
      ((r.field "fingerprint").map coerced).any digestText &&
      textWhere recordStates.contains (r.field "state") && isNumber (r.field "created_at"))
      = true := by
    rw [hobj, hkey, hfp, hstate, hnum, decide_eq_true rfl]
    rfl
  rw [Option.filter_some, if_pos hun, Option.filter_some, if_pos hread]

theorem observe_of_full (hslot : slot home fs k = some (.file (bytesOf r)))
    (hrec : recordIn k (bytesOf r) = some r) : observe home fs k = .ok (some r) := by
  rw [slot] at hslot
  rw [observe, FS.lstat, hslot]
  dsimp only
  rw [hrec]

theorem ne_none_of_observe (h : observe home fs k = .ok (some r)) : slot home fs k ≠ none := by
  intro hnone
  rw [slot] at hnone
  rw [observe, FS.lstat, hnone] at h
  cases h

theorem slot_of_observe_none (h : observe home fs k = .ok none) : slot home fs k = none := by
  rw [observe, FS.lstat] at h
  split at h
  · next hslot => exact hslot
  · cases h
  · split at h <;> cases h

theorem keyOf_of_recordIn {bytes : Bytes} (h : recordIn k bytes = some r) : keyOf r = k := by
  rw [recordIn] at h
  split at h
  · obtain ⟨-, hp⟩ := Option.filter_eq_some_iff.mp h
    simp only [Bool.and_eq_true, decide_eq_true_eq] at hp
    rw [keyOf, Json.textField, ← textOf, hp.1.1.1.2]
    rfl
  · cases h

theorem keyOf_of_observe (h : observe home fs k = .ok (some r)) : keyOf r = k := by
  rw [observe] at h
  split at h
  · cases h
  · cases h
  · split at h
    · next record hrec =>
      obtain rfl := Option.some.inj (Except.ok.inj h)
      exact keyOf_of_recordIn hrec
    · cases h

/-! ## Custody -/

/-- The slot of a record is in use, and what can be read there is the record, but for its
result. -/
structure Kept (home : Path) (r : Json) (fs : FS) : Prop where
  valid : digestText (keyOf r) = true
  occupied : slot home fs (keyOf r) ≠ none
  read : ∀ r', observe home fs (keyOf r) = .ok (some r') → Agrees r r'

theorem Kept.congr (h : Kept home r fs) (hs : slot home fs' (keyOf r) = slot home fs (keyOf r)) :
    Kept home r fs' :=
  ⟨h.valid, hs ▸ h.occupied, fun r' hr' => h.read r' (observe_congr hs ▸ hr')⟩

theorem kept_of_full (hk : digestText (keyOf r) = true) (hag : Agrees r r')
    (hslot : slot home fs (keyOf r) = some (.file (bytesOf r'))) : Kept home r fs :=
  ⟨hk, by rw [hslot]; nofun, fun r'' h => eq_of_observe hslot h ▸ hag⟩

/-- Each of these records is kept, and no two have one key. -/
structure Custody (home : Path) (rs : List Json) (fs : FS) : Prop where
  nodup : (rs.map keyOf).Nodup
  kept : ∀ r ∈ rs, Kept home r fs

namespace Custody

variable {rs : List Json} {m m' : Machine σ μ}

theorem nil (fs : FS) : Custody home [] fs := ⟨List.nodup_nil, fun _ h => absurd h List.not_mem_nil⟩

theorem sublist {rs' : List Json} (h : Custody home rs fs) (hs : rs'.Sublist rs) :
    Custody home rs' fs :=
  ⟨h.nodup.sublist (hs.map _), fun r hr => h.kept r (hs.subset hr)⟩

theorem same (h : Custody home rs fs) (hs : Same home fs fs') : Custody home rs fs' :=
  ⟨h.nodup, fun r hr => (h.kept r hr).congr (hs _ (h.kept r hr).valid)⟩

theorem eq_of_keyOf_eq (h : Custody home rs fs) (hr : r ∈ rs) (hr' : r' ∈ rs)
    (heq : keyOf r = keyOf r') : r = r' :=
  List.inj_on_of_nodup_map h.nodup hr hr' heq

/-- A slot that was filled was not the one of a record in custody. -/
theorem filled {b : Bytes} (h : Custody home rs m.disk) (hf : Filled home k b m m') :
    Custody home rs m'.disk := by
  refine ⟨h.nodup, fun r hr => (h.kept r hr).congr (hf.other _ (h.kept r hr).valid fun heq => ?_)⟩
  exact (h.kept r hr).occupied (heq ▸ hf.empty)

/-- **A fresh reservation** is taken into custody. -/
theorem fresh {record : Json} {fingerprint : Text} {metadata : List (Text × Json)}
    (h : Custody home rs m.disk) (hf : Fresh home env k fingerprint metadata record m m')
    (hkey : keyOf record = k) : Custody home (rs ++ [record]) m'.disk := by
  have hold := h.filled hf.filled
  subst hkey
  refine ⟨?_, fun r hr => ?_⟩
  · rw [List.map_append, List.nodup_append]
    refine ⟨h.nodup, List.nodup_singleton _, ?_⟩
    rintro a ha b hb rfl
    obtain rfl := List.mem_singleton.mp hb
    obtain ⟨r, hr, heq⟩ := List.mem_map.mp ha
    exact (h.kept r hr).occupied (heq ▸ hf.filled.empty)
  · rcases List.mem_append.mp hr with hr | hr
    · exact hold.kept r hr
    · obtain rfl := List.mem_singleton.mp hr
      exact kept_of_full hf.filled.valid (.refl _) hf.filled.full

/-- **A record that is replaced** by one that agrees with it stays in custody. -/
theorem replacedOrNot {record : Json} (h : Custody home rs m.disk)
    (hag : ∀ r ∈ rs, keyOf r = keyOf record → Agrees r record)
    (hr : ReplacedOrNot home record m m') : Custody home rs m'.disk := by
  rcases hr with hr | ⟨hk, -, hr⟩
  · exact h.same hr.1
  · refine ⟨h.nodup, fun r hmem => ?_⟩
    by_cases heq : keyOf r = keyOf record
    · exact kept_of_full (heq ▸ hk) (hag r hmem heq) (heq ▸ hr.full)
    · exact (h.kept r hmem).congr (hr.other _ (h.kept r hmem).valid heq)

/-- A record that agrees with what was read agrees with the one in custody. -/
theorem agrees_of_observe (h : Custody home rs fs) (hobs : observe home fs k = .ok (some r))
    (hag : Agrees r r') : ∀ q ∈ rs, keyOf q = keyOf r' → Agrees q r' := by
  intro q hq heq
  rw [hag.keyOf_eq, keyOf_of_observe hobs] at heq
  exact ((h.kept q hq).read r (heq ▸ hobs)).trans hag

/-- What agrees with a record in custody agrees with every one of its key. -/
theorem agrees_of_mem (h : Custody home rs fs)
    (hr : r ∈ rs) (hag : Agrees r r') : ∀ q ∈ rs, keyOf q = keyOf r' → Agrees q r' := by
  intro q hq heq
  rw [hag.keyOf_eq] at heq
  rwa [h.eq_of_keyOf_eq hq hr heq]

end Custody

/-! ## Ending a reservation -/

/-- Slots change in two ways: an empty one is filled, and one in use gets a record of its key that
is not pending. -/
def Moves (home : Path) (fs fs' : FS) : Prop :=
  ∀ k, digestText k = true → slot home fs' k = slot home fs k ∨ slot home fs k = none ∨
    ∃ r, slot home fs' k = some (.file (bytesOf r)) ∧ keyOf r = k ∧
      recordState r ≠ ("pending" : Text)

theorem Moves.refl (fs : FS) : Moves home fs fs := fun _ _ => .inl rfl

theorem Moves.trans {a b c : FS} (h : Moves home a b) (h' : Moves home b c) : Moves home a c := by
  intro k hk
  rcases h' k hk with hs | hnone | hr
  · rcases h k hk with hs' | hnone' | ⟨r, hr, hp⟩
    · exact .inl (hs.trans hs')
    · exact .inr (.inl hnone')
    · exact .inr (.inr ⟨r, hs.trans hr, hp⟩)
  · rcases h k hk with hs' | hnone' | ⟨r, hr, -⟩
    · exact .inr (.inl (hs' ▸ hnone))
    · exact .inr (.inl hnone')
    · rw [hnone] at hr
      cases hr
  · exact .inr (.inr hr)

/-- The slot holds a record that can be read and is pending. -/
def Pending (home : Path) (fs : FS) (k : Text) : Prop :=
  ∃ r, observe home fs k = .ok (some r) ∧ recordState r = ("pending" : Text)

/-- **A record that is not pending does not get pending.** -/
theorem Moves.not_pending (h : Moves home fs fs') (hk : digestText k = true)
    (hocc : slot home fs k ≠ none) (hp : ¬ Pending home fs k) : ¬ Pending home fs' k := by
  rintro ⟨r, hobs, hstate⟩
  rcases h k hk with hs | hnone | ⟨r', hslot, -, hne⟩
  · exact hp ⟨r, observe_congr hs ▸ hobs, hstate⟩
  · exact hocc hnone
  · exact hne (eq_of_observe hslot hobs ▸ hstate)

theorem Moves.occupied (h : Moves home fs fs') (hk : digestText k = true)
    (hocc : slot home fs k ≠ none) : slot home fs' k ≠ none := by
  rcases h k hk with hs | hnone | ⟨r', hslot, -⟩
  · exact hs ▸ hocc
  · exact absurd hnone hocc
  · rw [hslot]
    nofun

/-- The file of the key holds the whole text of a record of that key. -/
def Durable (home : Path) (fs : FS) (k : Text) : Prop :=
  ∃ bytes r, slot home fs k = some (.file bytes) ∧ Json.parse (decodeText bytes) = some r ∧
    keyOf r = k

theorem durable_of_full (hslot : slot home fs (keyOf r) = some (.file (bytesOf r))) :
    Durable home fs (keyOf r) :=
  ⟨_, r, hslot, by rw [bytesOf, decodeText_encodeText, Json.parse_stringify], rfl⟩

theorem durable_of_observe (h : observe home fs k = .ok (some r)) : Durable home fs k := by
  have hkey := keyOf_of_observe h
  rw [observe, FS.lstat] at h
  split at h
  · cases h
  · cases h
  · next bytes hslot =>
    split at h
    · next record hrec =>
      obtain rfl := Option.some.inj (Except.ok.inj h)
      refine ⟨bytes, record, hslot, ?_, hkey⟩
      rw [recordIn] at hrec
      split at hrec
      · obtain ⟨hparse, -⟩ := Option.filter_eq_some_iff.mp hrec
        rw [parseUnambiguousJSON] at hparse
        split at hparse
        · exact (Option.filter_eq_some_iff.mp hparse).1
        · cases hparse
      · cases hrec
    · cases h

/-- What is durable stays durable. -/
theorem Moves.durable (h : Moves home fs fs') (hk : digestText k = true) (hd : Durable home fs k) :
    Durable home fs' k := by
  obtain ⟨bytes, r, hslot, hparse, hkey⟩ := hd
  rcases h k hk with hs | hnone | ⟨r', hslot', rfl, -⟩
  · exact ⟨bytes, r, hs.trans hslot, hparse, hkey⟩
  · rw [hnone] at hslot
    cases hslot
  · exact durable_of_full hslot'

theorem Same.moves (h : Same home fs fs') : Moves home fs fs' := fun k hk => .inl (h k hk)

theorem Filled.moves {b : Bytes} {m m' : Machine σ μ} (h : Filled home k b m m') :
    Moves home m.disk m'.disk := by
  intro j hj
  by_cases hjk : j = k
  · subst hjk
    exact .inr (.inl h.empty)
  · exact .inl (h.other j hj hjk)

theorem ReplacedOrNot.moves {record : Json} {m m' : Machine σ μ}
    (hstate : recordState record ≠ ("pending" : Text)) (h : ReplacedOrNot home record m m') :
    Moves home m.disk m'.disk := by
  rcases h with h | ⟨hk, -, h⟩
  · exact h.1.moves
  · intro j hj
    by_cases hjk : j = keyOf record
    · subst hjk
      exact .inr (.inr ⟨record, h.full, rfl, hstate⟩)
    · exact .inl (h.other j hj hjk)

/-! ## The record of a reservation -/

theorem field_pendingRecord {key fingerprint : Text} {createdAt : Nat}
    {metadata : List (Text × Json)} (h : k ∉ metadata.map Prod.fst) :
    (pendingRecord key fingerprint createdAt metadata).field k =
      (Json.obj [("receipt_id", .str key), ("fingerprint", .str fingerprint),
        ("created_at", .num createdAt), ("state", .str "pending")]).field k :=
  field_spread h

theorem keyOf_pendingRecord {key fingerprint : Text} {createdAt : Nat}
    {metadata : List (Text × Json)} (h : ("receipt_id" : Text) ∉ metadata.map Prod.fst) :
    keyOf (pendingRecord key fingerprint createdAt metadata) = key := by
  rw [keyOf, Json.textField, field_pendingRecord h]
  rfl

theorem recordState_spread (r : Json) (state : Text) {members : List (Text × Json)}
    (h : ("state" : Text) ∉ members.map Prod.fst) :
    recordState (spread r (("state", .str state) :: members)) = state := by
  rw [recordState, Json.textField, spread, List.foldl_cons, ← spread, field_spread h,
    Json.field_set_self]
  rfl

theorem hexDigit_digest : ∀ n < 16,
    ((Json.hexDigit n).isDigit || ('a' ≤ Json.hexDigit n && Json.hexDigit n ≤ 'f')) = true := by
  decide

/-- What `hash` answers is a digest. -/
theorem digestText_hash (t : Text) : digestText (hash t) = true := by
  rw [digestText, Bool.and_eq_true, decide_eq_true_iff]
  refine ⟨by rw [hash, Sha256.length_hex, Sha256.length_digest], List.all_eq_true.mpr fun c hc => ?_⟩
  obtain ⟨b, -, hb⟩ := List.mem_flatMap.mp hc
  simp only [List.mem_cons, List.not_mem_nil, or_false] at hb
  rcases hb with rfl | rfl
  · exact hexDigit_digest _ (Nat.mod_lt _ (by decide))
  · exact hexDigit_digest _ (Nat.mod_lt _ (by decide))

end Telepty.Forward
