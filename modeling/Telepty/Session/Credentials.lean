import Telepty.Infra.OrdMap
import Telepty.Infra.Sha256

/-!
# Session credentials

The index of the credentials that sessions hold: for every session epoch the session id, the digest
of the bearer and the generation. A bearer is `<epoch>.<secret>`, so it names the epoch it claims.

The digest is a parameter; a verifier is its hexadecimal text.
-/

namespace Telepty.Registry

open Infra

/-! ## Bearers -/

/-- `verifierFor(bearer)` -/
def verifierFor (digest : Text → List UInt8) (bearer : Text) : Text :=
  Sha256.hex ((digest bearer).map UInt8.toNat)

/-- `Buffer.from(text, 'hex')`: the pairs of digits up to the first that is none. -/
def unhex : Text → List Nat
  | a :: b :: t =>
    match Json.hexValue a, Json.hexValue b with
    | some x, some y => (16 * x + y) :: unhex t
    | _, _ => []
  | _ => []

/-- `verifierMatches(a, b)` -/
def verifierMatches (a b : Text) : Bool := a.length = b.length && a ≠ [] && unhex a = unhex b

/-- The epoch of `splitBearer(bearer)`: what stands before the first dot. -/
def splitBearer (bearer : Text) : Option Text :=
  let epoch := bearer.takeWhile (· ≠ '.')
  match bearer.dropWhile (· ≠ '.') with
  | '.' :: _ :: _ => if epoch = [] then none else some epoch
  | _ => none

/-- The bearer of an epoch. -/
def bearerOf (epoch secret : Text) : Text := epoch ++ '.' :: secret

theorem splitBearer_bearerOf {epoch secret : Text} (he : epoch ≠ []) (hd : '.' ∉ epoch)
    (hs : secret ≠ []) : splitBearer (bearerOf epoch secret) = some epoch := by
  have hall : ∀ c ∈ epoch, decide (c ≠ '.') = true := fun c hc =>
    decide_eq_true fun h => hd (h ▸ hc)
  obtain ⟨c, secret, rfl⟩ := List.exists_cons_of_ne_nil hs
  rw [splitBearer, bearerOf, List.takeWhile_append_of_pos hall, List.dropWhile_append_of_pos hall]
  simp [he]

theorem unhex_hex {bytes : List Nat} (h : ∀ b ∈ bytes, b < 256) : unhex (Sha256.hex bytes) = bytes := by
  induction bytes with
  | nil => rfl
  | cons b bytes ih =>
    have hb : b < 256 := h b List.mem_cons_self
    have hrest := ih fun x hx => h x (List.mem_cons_of_mem _ hx)
    show unhex (Json.hexDigit (b / 16 % 16) :: Json.hexDigit (b % 16) :: Sha256.hex bytes) = _
    rw [unhex, Json.hexValue_hexDigit _ (Nat.mod_lt _ (by decide)),
      Json.hexValue_hexDigit _ (Nat.mod_lt _ (by decide))]
    simp only [hrest, List.cons.injEq, and_true]
    omega

/-- Verifiers of two bearers match only if the bearers are one. -/
theorem verifierMatches_verifierFor {digest : Text → List UInt8}
    (hinj : Function.Injective digest) {a b : Text}
    (h : verifierMatches (verifierFor digest a) (verifierFor digest b) = true) : a = b := by
  have hlt : ∀ t, ∀ x ∈ (digest t).map UInt8.toNat, x < 256 := by
    intro t x hx
    obtain ⟨u, -, rfl⟩ := List.mem_map.mp hx
    exact u.toNat_lt
  simp only [verifierMatches, Bool.and_eq_true, decide_eq_true_eq] at h
  have hhex := h.2
  rw [verifierFor, verifierFor, unhex_hex (hlt a), unhex_hex (hlt b)] at hhex
  exact hinj (List.map_injective_iff.mpr (fun _ _ he => UInt8.toNat_inj.mp he) hhex)

/-! ## The index -/

structure Entry where
  sid : Text
  verifier : Text
  generation : Nat
  deriving DecidableEq

/-- `byEpoch` -/
abbrev CredentialStore := OrdMap Text Entry

/-- A principal: who a bearer speaks for. -/
structure Bearer where
  sid : Text
  epoch : Text
  generation : Nat
  deriving DecidableEq

namespace CredentialStore

variable (digest : Text → List UInt8)

/-- `issue(sid)`, with the random epoch and secret. -/
def issue (sid epoch secret : Text) (store : CredentialStore) : CredentialStore :=
  store.set epoch ⟨sid, verifierFor digest (bearerOf epoch secret), 1⟩

/-- `adopt(sid, meta)`, where absent and empty members are `none`. -/
def adopt (sid : Text) (epoch verifier : Option Text) (generation : Nat) (store : CredentialStore) :
    CredentialStore :=
  match epoch, verifier with
  | some e, some v => if sid = [] then store else store.set e ⟨sid, v, generation⟩
  | _, _ => store

/-- `verify(bearer)` -/
def verify (bearer : Option Text) (store : CredentialStore) : Option Bearer :=
  bearer.bind fun b => (splitBearer b).bind fun epoch => (store.get? epoch).bind fun e =>
    if verifierMatches e.verifier (verifierFor digest b) then some ⟨e.sid, epoch, e.generation⟩
    else none

/-- `matches(sid, bearer)` -/
def matchesSid (sid : Text) (bearer : Option Text) (store : CredentialStore) : Bool :=
  (store.verify digest bearer).any fun p => p.sid = sid

/-- `hasCredential(sid)` -/
def hasCredential (sid : Text) (store : CredentialStore) : Bool :=
  store.values.any fun e => e.sid = sid

/-- `revoke(sid)` -/
def revoke (sid : Text) (store : CredentialStore) : CredentialStore :=
  store.filter fun e => e.2.sid ≠ sid

/-- `rename(oldSid, newSid)` -/
def rename (oldSid newSid : Text) (store : CredentialStore) : CredentialStore :=
  store.mapVal fun e => if e.sid = oldSid then { e with sid := newSid } else e

variable {digest} {store : CredentialStore} {sid epoch : Text} {e : Entry}

theorem verify_some {bearer : Option Text} {p : Bearer} (h : store.verify digest bearer = some p) :
    ∃ b e, bearer = some b ∧ splitBearer b = some p.epoch ∧ store.get? p.epoch = some e ∧
      verifierMatches e.verifier (verifierFor digest b) = true ∧ p.sid = e.sid ∧
      p.generation = e.generation := by
  unfold verify at h
  rw [Option.bind_eq_some_iff] at h
  obtain ⟨b, rfl, h⟩ := h
  rw [Option.bind_eq_some_iff] at h
  obtain ⟨epoch, hb, h⟩ := h
  rw [Option.bind_eq_some_iff] at h
  obtain ⟨e, he, h⟩ := h
  split at h
  · next hm =>
    cases h
    exact ⟨b, e, rfl, hb, he, hm, rfl, rfl⟩
  · cases h

theorem hasCredential_iff : store.hasCredential sid = true ↔
    ∃ epoch e, store.get? epoch = some e ∧ e.sid = sid := by
  rw [hasCredential, List.any_eq_true]
  constructor
  · rintro ⟨e, he, hs⟩
    obtain ⟨epoch, hget⟩ := store.mem_values_iff.mp he
    exact ⟨epoch, e, hget, by simpa using hs⟩
  · rintro ⟨epoch, e, hget, hs⟩
    exact ⟨e, store.mem_values_iff.mpr ⟨epoch, hget⟩, by simpa using hs⟩

theorem get?_revoke : (store.revoke sid).get? epoch = some e ↔
    store.get? epoch = some e ∧ e.sid ≠ sid := by
  rw [revoke, OrdMap.get?_filter, Option.filter_eq_some_iff]
  simp

end CredentialStore

end Telepty.Registry
