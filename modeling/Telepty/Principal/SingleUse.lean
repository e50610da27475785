import Telepty.Principal.Proof

/-!
# What an assertion can be used for

The verifier forgets a nonce when its clock reading reaches the expiry of the assertion that used
it. From then on no reading before that expiry is let through, so that assertion itself is past for
good, whatever the clock does. The nonce is not: a second assertion, signed by the same key for a
later window, may carry it again.
-/

namespace Telepty.Principal

open Infra

variable {κ : Type} {v : Verifier κ} {m : Memory} {c : Call}

/-! ## One call -/

/-- The memory after a clock reading that is let through. -/
def Memory.at (m : Memory) (at_ : Int) : Memory := { m with latestClock := .sec at_ }

/-- The memory once the expired nonces are forgotten. -/
def Memory.prune (m : Memory) (at_ : Int) : Memory := { m with replay := pruned m.replay at_ }

/-- The reading of a call is let through as `at_`. -/
def Reads (m : Memory) (c : Call) (at_ : Int) : Prop :=
  c.now = some (.sec at_) ∧ Seconds.less (.sec at_) m.latestClock = false

/-- What one call can do to the memory, and with which verdict. -/
inductive Checked (v : Verifier κ) (m : Memory) (c : Call) : Verdict × Memory → Prop where
  | refused (code : Text) (status : Nat) : Checked v m c (.denied code status, m)
  | late (code : Text) (status : Nat) (at_ : Int) (hr : Reads m c at_) :
      Checked v m c (.denied code status, m.at at_)
  | full (code : Text) (status : Nat) (at_ : Int) (hr : Reads m c at_) :
      Checked v m c (.denied code status, (m.at at_).prune at_)
  | taken (header : Text) (a : Assertion) (acceptance : Acceptance) (at_ e : Int)
      (hh : c.header = some header) (ha : readAssertion header = some a) (hr : Reads m c at_)
      (he : expiresAt a.document = some e) (hlt : at_ < e)
      (hfresh : (pruned m.replay at_).get? (nonceKey a.document) = none) :
      Checked v m c (.accepted acceptance,
        if c.consume then
          { (m.at at_).prune at_ with
            replay := (pruned m.replay at_).set (nonceKey a.document) e }
        else (m.at at_).prune at_)

theorem Seconds.eq_sec_of_safe? {s : Seconds} {n : Int} (h : s.safe? = some n) : s = .sec n := by
  cases s with
  | sec k =>
    rw [Seconds.safe?] at h
    split at h
    · rw [Option.some.inj h]
    · cases h
  | notANumber => cases h
  | negativeInfinity => cases h
  | positiveInfinity => cases h

/-- A binding that holds has an expiry, and it is to come. -/
theorem expires_of_bindingHolds {a : Assertion} {b : Binding} {at_ : Int} {key : Key κ}
    (h : bindingHolds v a b at_ key = true) :
    ∃ e, expiresAt a.document = some e ∧ at_ < e := by
  simp only [bindingHolds, Bool.and_eq_true] at h
  have hlt : (expiresAt a.document).any (at_ < ·) = true := h.1.1.1.1.1.1.1.2
  cases he : expiresAt a.document with
  | none =>
    rw [he] at hlt
    cases hlt
  | some e =>
    rw [he] at hlt
    exact ⟨e, rfl, of_decide_eq_true hlt⟩

theorem checked_admit {header : Text} {a : Assertion} {b : Binding} {at_ e : Int} {key : Key κ}
    (hh : c.header = some header) (ha : readAssertion header = some a) (hr : Reads m c at_)
    (he : expiresAt a.document = some e) (hlt : at_ < e) :
    Checked v m c (grantAndConsume v (m.at at_) a b at_ key c.consume) := by
  rw [grantAndConsume]
  split
  · dsimp only
    split
    · exact .full _ _ at_ hr
    · next hhas =>
      split
      · exact .full _ _ at_ hr
      · rw [he]
        exact .taken header a _ at_ e hh ha hr he hlt
          ((OrdMap.has_eq_false_iff _).mp (Bool.eq_false_iff.mpr hhas))
  · exact .late _ _ at_ hr

/-- **Every call is one of the four.** -/
theorem checked (v : Verifier κ) (m : Memory) (c : Call) : Checked v m c (check v m c) := by
  rw [check]
  split
  · next header b hh hb =>
    split
    · split
      · exact .refused _ _
      · next a ha =>
        split
        · exact .refused _ _
        · next now hnow =>
          split
          · exact .refused _ _
          · next at_ hsafe =>
            have hsec := Seconds.eq_sec_of_safe? hsafe
            subst hsec
            split
            · exact .refused _ _
            · next hless =>
              have hr : Reads m c at_ := ⟨hnow, Bool.eq_false_iff.mpr hless⟩
              dsimp only
              split
              · exact .late _ _ at_ hr
              · split
                · next hbind =>
                  obtain ⟨e, he, hlt⟩ := expires_of_bindingHolds hbind
                  exact checked_admit hh ha hr he hlt
                · exact .late _ _ at_ hr
    · exact .refused _ _
  · exact .refused _ _

/-! ## What is behind the clock -/

/-- The verifier has read a clock at or past `e`. -/
def Past (m : Memory) (e : Int) : Prop := ∃ t, m.latestClock = .sec t ∧ e ≤ t

theorem Past.at_reads {e at_ : Int} (h : Past m e) (hr : Reads m c at_) : e ≤ at_ := by
  obtain ⟨t, ht, he⟩ := h
  have hless := hr.2
  rw [ht, Seconds.less, decide_eq_false_iff_not] at hless
  omega

/-- What is past stays past. -/
theorem Past.check {e : Int} (h : Past m e) : Past (check v m c).2 e := by
  have hc := checked v m c
  revert hc
  generalize Principal.check v m c = r
  rintro (_ | ⟨_, _, at_, hr⟩ | ⟨_, _, at_, hr⟩ | ⟨_, _, _, at_, _, _, _, hr⟩)
  · exact h
  · exact ⟨at_, rfl, h.at_reads hr⟩
  · exact ⟨at_, rfl, h.at_reads hr⟩
  · dsimp only
    split
    · exact ⟨at_, rfl, h.at_reads hr⟩
    · exact ⟨at_, rfl, h.at_reads hr⟩

theorem get?_pruned {k : Text} {e : Int} {replay : OrdMap Text Int} (at_ : Int)
    (h : replay.get? k = some e) :
    (pruned replay at_).get? k = some e ∨ ((pruned replay at_).get? k = none ∧ e ≤ at_) := by
  rw [pruned, OrdMap.get?_filter, h]
  by_cases hlt : at_ < e
  · exact .inl (Option.filter_some_pos (decide_eq_true hlt))
  · exact .inr ⟨Option.filter_some_neg (by simpa using hlt), by omega⟩

theorem get?_of_pruned {k : Text} {e at_ : Int} {replay : OrdMap Text Int}
    (h : (pruned replay at_).get? k = some e) : replay.get? k = some e := by
  rw [pruned, OrdMap.get?_filter, Option.filter_eq_some_iff] at h
  exact h.1

/-- An entry is kept until its expiry is past. -/
theorem kept_or_past {k : Text} {e : Int} (h : m.replay.get? k = some e) :
    (check v m c).2.replay.get? k = some e ∨ Past (check v m c).2 e := by
  have hc := checked v m c
  revert hc
  generalize Principal.check v m c = r
  rintro (_ | ⟨_, _, at_, hr⟩ | ⟨_, _, at_, hr⟩ | ⟨_, a, _, at_, e', _, _, hr, _, _, hfresh⟩)
  · exact .inl h
  · exact .inl h
  · rcases get?_pruned at_ h with hk | ⟨_, hle⟩
    · exact .inl hk
    · exact .inr ⟨at_, rfl, hle⟩
  · rcases get?_pruned at_ h with hk | ⟨_, hle⟩
    · have hne : k ≠ nonceKey a.document := by
        rintro rfl
        rw [hfresh] at hk
        cases hk
      dsimp only
      split
      · exact .inl ((OrdMap.get?_set_of_ne _ hne).trans hk)
      · exact .inl hk
    · dsimp only
      split
      · exact .inr ⟨at_, rfl, hle⟩
      · exact .inr ⟨at_, rfl, hle⟩

/-! ## Runs -/

/-- The memory after a list of calls. -/
def after (v : Verifier κ) (m : Memory) (calls : List Call) : Memory :=
  calls.foldl (fun m c => (check v m c).2) m

theorem after_append (v : Verifier κ) (m : Memory) (a b : List Call) :
    after v m (a ++ b) = after v (after v m a) b := List.foldl_append

theorem after_concat_cons (v : Verifier κ) (m : Memory) (pre mid : List Call) (c : Call) :
    after v m (pre ++ c :: mid) = after v (check v (after v m pre) c).2 mid := after_append ..

/-- The use of a nonce under `k`, by an assertion that expires at `e`, is not forgotten early. -/
def Spent (m : Memory) (k : Text) (e : Int) : Prop := m.replay.get? k = some e ∨ Past m e

theorem Spent.check {k : Text} {e : Int} (h : Spent m k e) : Spent (check v m c).2 k e :=
  h.elim kept_or_past fun h => .inr h.check

theorem Spent.after {k : Text} {e : Int} (h : Spent m k e) (calls : List Call) :
    Spent (after v m calls) k e := by
  induction calls generalizing m with
  | nil => exact h
  | cons c calls ih => exact ih h.check

theorem Past.after {e : Int} (h : Past m e) (calls : List Call) : Past (after v m calls) e := by
  induction calls generalizing m with
  | nil => exact h
  | cons c calls ih => exact ih h.check

/-- The call is accepted, and the document of its assertion is `d`. -/
def Accepts (v : Verifier κ) (m : Memory) (c : Call) (d : Json) : Prop :=
  (∃ acceptance, (check v m c).1 = .accepted acceptance) ∧
    (c.header.bind readAssertion).map Assertion.document = some d

/-- What holds of a call that is accepted. -/
theorem Accepts.inv {d : Json} (h : Accepts v m c d) :
    ∃ at_ e, Reads m c at_ ∧ expiresAt d = some e ∧ at_ < e ∧
      (pruned m.replay at_).get? (nonceKey d) = none ∧
      (c.consume = true → (check v m c).2.replay.get? (nonceKey d) = some e) := by
  obtain ⟨⟨acceptance, hacc⟩, hd⟩ := h
  have hc := checked v m c
  revert hc hacc
  generalize check v m c = r
  rintro hacc (_ | _ | _ | ⟨header, a, _, at_, e, hh, ha, hr, he, hlt, hfresh⟩)
  · cases hacc
  · cases hacc
  · cases hacc
  · rw [hh, Option.bind_some, ha, Option.map_some] at hd
    obtain rfl := Option.some.inj hd
    refine ⟨at_, e, hr, he, hlt, hfresh, fun hconsume => ?_⟩
    dsimp only
    rw [if_pos hconsume]
    exact OrdMap.get?_set_self _

/-- An assertion that is accepted while a nonce is spent comes after the one that spent it. -/
theorem Spent.le_of_accepts {k : Text} {e : Int} {d : Json} (h : Spent m k e)
    (ha : Accepts v m c d) (hk : nonceKey d = k) :
    ∃ at_ e', c.now = some (.sec at_) ∧ expiresAt d = some e' ∧ e ≤ at_ ∧ at_ < e' := by
  obtain ⟨at_, e', hr, he, hlt, hfresh, _⟩ := ha.inv
  refine ⟨at_, e', hr.1, he, ?_, hlt⟩
  rcases h with h | h
  · rcases get?_pruned at_ h with hp | ⟨_, hle⟩
    · rw [hk, hp] at hfresh
      cases hfresh
    · exact hle
  · exact h.at_reads hr

/-- What the nonce of a document reads as. -/
def nonceOf (d : Json) : Text := coercedOrEmpty (d.field "nonce")

/-- **What a verifier promises about nonces.** -/
structure SingleUse (v : Verifier κ) (m₀ : Memory) : Prop where
  /-- A key's nonce is accepted again only after the assertion that used it has expired. -/
  nonce : ∀ (pre mid : List Call) (c₁ c₂ : Call) (d₁ d₂ : Json),
    Accepts v (after v m₀ pre) c₁ d₁ → c₁.consume = true →
    Accepts v (after v m₀ (pre ++ c₁ :: mid)) c₂ d₂ →
    d₁.textField "key_id" = d₂.textField "key_id" → nonceOf d₁ = nonceOf d₂ →
    ∃ at_ e, c₂.now = some (.sec at_) ∧ expiresAt d₁ = some e ∧ e ≤ at_
  /-- An assertion that was accepted is never accepted again. -/
  assertion : ∀ (pre mid : List Call) (c₁ c₂ : Call) (d : Json),
    Accepts v (after v m₀ pre) c₁ d → c₁.consume = true →
    ¬Accepts v (after v m₀ (pre ++ c₁ :: mid)) c₂ d
  /-- A call that is denied remembers nothing new. -/
  rejected : ∀ (pre : List Call) (c : Call) (code : Text) (status : Nat) (k : Text) (e : Int),
    (check v (after v m₀ pre) c).1 = .denied code status →
    (check v (after v m₀ pre) c).2.replay.get? k = some e →
    (after v m₀ pre).replay.get? k = some e
  /-- What a call forgets, no later call accepts: an assertion under that nonce expires later. -/
  forgotten : ∀ (pre mid : List Call) (c c₂ : Call) (k : Text) (e : Int) (d : Json),
    (after v m₀ pre).replay.get? k = some e →
    (check v (after v m₀ pre) c).2.replay.get? k ≠ some e →
    Accepts v (after v m₀ (pre ++ c :: mid)) c₂ d → nonceKey d = k →
    ∃ e', expiresAt d = some e' ∧ e < e'

theorem replay_of_denied {code : Text} {status : Nat} {k : Text} {e : Int}
    (h : (check v m c).1 = .denied code status)
    (hk : (check v m c).2.replay.get? k = some e) : m.replay.get? k = some e := by
  have hc := checked v m c
  revert hc h hk
  generalize check v m c = r
  rintro h hk (_ | _ | _ | _)
  · exact hk
  · exact hk
  · exact get?_of_pruned hk
  · cases h

theorem spent_of_accepts {d : Json} {e : Int} (h : Accepts v m c d) (hc : c.consume = true)
    (he : expiresAt d = some e) : Spent (check v m c).2 (nonceKey d) e := by
  obtain ⟨at_, e', _, he', _, _, hset⟩ := h.inv
  rw [he, Option.some_inj] at he'
  subst he'
  exact .inl (hset hc)

/-- **Whatever the calls and the clock, assertions are single use.** -/
theorem single_use (v : Verifier κ) (m₀ : Memory) : SingleUse v m₀ where
  nonce pre mid c₁ c₂ d₁ d₂ h₁ hconsume h₂ hkey hnonce := by
    obtain ⟨_, e, _, he, _⟩ := h₁.inv
    have hspent := (spent_of_accepts h₁ hconsume he).after (v := v) mid
    rw [after_concat_cons] at h₂
    have hk : nonceKey d₂ = nonceKey d₁ := by
      rw [nonceKey, nonceKey, hkey]
      exact congrArg (_ ++ ':' :: ·) hnonce.symm
    obtain ⟨at_, _, hnow, _, hle, _⟩ := hspent.le_of_accepts h₂ hk
    exact ⟨at_, e, hnow, he, hle⟩
  assertion pre mid c₁ c₂ d h₁ hconsume h₂ := by
    obtain ⟨_, e, _, he, _⟩ := h₁.inv
    have hspent := (spent_of_accepts h₁ hconsume he).after (v := v) mid
    rw [after_concat_cons] at h₂
    obtain ⟨at_, e', _, he', hle, hlt⟩ := hspent.le_of_accepts h₂ rfl
    rw [he, Option.some_inj] at he'
    omega
  rejected pre c code status k e h hk := replay_of_denied h hk
  forgotten pre mid c c₂ k e d hk hgone h₂ hd := by
    have hpast : Past (check v (after v m₀ pre) c).2 e :=
      (kept_or_past hk).resolve_left hgone
    rw [after_concat_cons] at h₂
    obtain ⟨at_, e', _, he', hle, hlt⟩ := Spent.le_of_accepts (.inr (hpast.after mid)) h₂ hd
    exact ⟨e', he', by omega⟩

/-! ## One nonce in two windows -/

/-- A nonce of a key is accepted at most once. -/
def NonceOnce (v : Verifier κ) (m₀ : Memory) : Prop :=
  ∀ (pre mid : List Call) (c₁ c₂ : Call) (d₁ d₂ : Json),
    Accepts v (after v m₀ pre) c₁ d₁ → c₁.consume = true →
    Accepts v (after v m₀ (pre ++ c₁ :: mid)) c₂ d₂ → c₂.consume = true →
    d₁.textField "key_id" = d₂.textField "key_id" → nonceOf d₁ ≠ nonceOf d₂

/-- The digest of a request without a body. -/
def emptyBodyDigest : Text := Sha256.hex (Sha256.digest [])

def aliceChallenge : Text := "challenge-0000000001"

/-- The document for the minute from `issued` on. -/
def aliceDocument (issued : Int) : Json :=
  .obj [("action", .str "daemon.inspect"), ("audience", .str "node-a"),
    ("body_sha256", .str emptyBodyDigest), ("challenge", .str aliceChallenge),
    ("expires_at", .num (issued + 60)), ("issued_at", .num issued), ("key_id", .str "key-a"),
    ("method", .str "GET"), ("nonce", .str "nonce-fixture-0001"), ("principal_id", .str "alice"),
    ("target", .str "/api/meta"), ("transport", .str "http"), ("v", .num 1)]

/-- The last `k` bytes of a number. -/
def bytesOf : Nat → Nat → Bytes
  | 0, _ => []
  | k + 1, n => bytesOf k (n / 256) ++ [UInt8.ofNat n]

def aliceKey : Bytes :=
  bytesOf 32 0x03a107bff3ce10be1d70dd18e74bc09967e4d6309ba50d5f1ddc8664125531b8

/-- The key's signature of the document issued at 0. -/
def firstSignature : Bytes :=
  bytesOf 32 0x5ced9869ba1d11e8bda39c05d7b9ef2af0fc0ad94c476d1d12272198ea027087 ++
    bytesOf 32 0x862ec99a689b8529fead0cb19304bd411b3328f2908a3873666bc2bc3e57aa0e

/-- The key's signature of the document issued at 60. -/
def secondSignature : Bytes :=
  bytesOf 32 0x58ad49353bd98f007437a798d0ee0b8b677ffa4e0b5df67393d6ffb9d4a72847 ++
    bytesOf 32 0x51909fac814f93658d4997697b18adee2c416ee89b95015b1b7c2dade69e880c

def signedText (issued : Int) : Bytes := encodeText (domain ++ canonicalText (aliceDocument issued))

/-- The verifier of the one key, with Ed25519 on the two messages that the key has signed. -/
def aliceVerifier : Verifier Bytes where
  trust := {
    audience := "node-a"
    keys := OrdMap.empty.set "key-a"
      ⟨"alice", "principal", aliceKey, [⟨"daemon.inspect", ["node-a"]⟩]⟩
    actions := ["daemon.inspect"] }
  challenge := aliceChallenge
  replayCapacity := 4096
  verifySignature key message signature :=
    key = aliceKey && ((message = signedText 0 && signature = firstSignature) ||
      (message = signedText 60 && signature = secondSignature))

/-- `verify` of the document for the minute from `issued` on, at the second `at_`. -/
def aliceCall (issued : Int) (signature : Bytes) (at_ : Int) : Call where
  header := some (schemeText ++ '.' ::
    base64url (encodeText (canonicalText (aliceDocument issued))) ++ '.' :: base64url signature)
  binding := some ⟨"GET", "/api/meta", emptyBodyDigest, "daemon.inspect", "node-a", none, none⟩
  now := some (.sec at_)
  consume := true

def Verdict.isAccepted : Verdict → Bool
  | .accepted _ => true
  | .denied _ _ => false

/-- The document a call presents. -/
def presented (c : Call) : Json :=
  ((c.header.bind readAssertion).map Assertion.document).getD .null

theorem accepts_presented (h : (check v m c).1.isAccepted = true) :
    Accepts v m c (presented c) := by
  have hc := checked v m c
  rw [Accepts]
  revert hc h
  generalize check v m c = r
  rintro h (_ | _ | _ | ⟨header, a, acceptance, _, _, hh, ha, _⟩)
  · cases h
  · cases h
  · cases h
  · refine ⟨⟨acceptance, rfl⟩, ?_⟩
    rw [presented, hh, Option.bind_some, ha]
    rfl

/-- Both calls are accepted, one after the other, with one key and one nonce. -/
def acceptsBoth (v : Verifier κ) (m : Memory) (c₁ c₂ : Call) : Prop :=
  (check v m c₁).1.isAccepted = true ∧ (check v (check v m c₁).2 c₂).1.isAccepted = true ∧
    (presented c₁).textField "key_id" = (presented c₂).textField "key_id" ∧
    nonceOf (presented c₁) = nonceOf (presented c₂)

instance (v : Verifier κ) (m : Memory) (c₁ c₂ : Call) : Decidable (acceptsBoth v m c₁ c₂) :=
  inferInstanceAs (Decidable (_ ∧ _ ∧ _ ∧ _))

/-- The nonce of an expired assertion is accepted in a second one. -/
theorem nonce_in_two_windows :
    ¬∀ (v : Verifier Bytes) (now : Option Seconds) (m₀ : Memory),
      createPrincipalVerifier v now = some m₀ → NonceOnce v m₀ := by
  intro h
  have hnew : createPrincipalVerifier aliceVerifier (some (.sec 0)) = some ⟨.sec 0, .empty⟩ := by
    rw [createPrincipalVerifier, if_pos (by decide)]
    rfl
  have hboth : acceptsBoth aliceVerifier ⟨.sec 0, .empty⟩ (aliceCall 0 firstSignature 10)
      (aliceCall 60 secondSignature 60) := by decide +kernel
  obtain ⟨h₁, h₂, hkey, hnonce⟩ := hboth
  exact h aliceVerifier (some (.sec 0)) _ hnew [] [] _ _ _ _ (accepts_presented h₁) rfl
    (accepts_presented h₂) rfl hkey hnonce

end Telepty.Principal
