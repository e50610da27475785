import Telepty.Infra.JsonRoundtrip
import Telepty.Infra.OrdMap

/-!
# External approval

A protected session takes a write only under a signature that is made outside of the daemon. The
verifier issues a document that names the session, its epoch, its owner generation and the digest of
what is to be written, and takes it back once, signed by the key of the session's policy.

What `crypto` does with keys and signatures is a parameter. The clock may read anything, and
differently at every reading.
-/

namespace Telepty.Approval

open Infra

/-! ## Documents -/

/-- What the verifier reads of a session. -/
structure Session where
  id : Option Text
  sessionEpoch : Option Text
  interactionOwnerGeneration : Option Text
  /-- `externalApprovalPolicy.public_key_spki` -/
  externalApprovalPolicy : Option Text

/-- `session.interactionOwnerGeneration || null` -/
def Session.ownerGeneration (s : Session) : Option Text :=
  s.interactionOwnerGeneration.filter (· ≠ [])

structure Document where
  sid : Text
  epoch : Text
  ownerGeneration : Option Text
  operation : Text
  noEnter : Bool
  payloadSha256 : Text
  nonce : Text
  expiresAt : Int
  daemonChallenge : Text
  deriving DecidableEq

/-- `{ version: 1, ...binding(session), operation, … }` -/
def Document.toJson (d : Document) : Json :=
  .obj [("version", .num 1), ("sid", .str d.sid), ("epoch", .str d.epoch),
    ("owner_generation", d.ownerGeneration.elim .null Json.str), ("operation", .str d.operation),
    ("no_enter", .bool d.noEnter), ("payload_sha256", .str d.payloadSha256), ("nonce", .str d.nonce),
    ("expires_at", .num d.expiresAt), ("daemon_challenge", .str d.daemonChallenge)]

def asBool : Json → Option Bool
  | .bool b => some b
  | _ => none

/-- What is asked for: the operation, whether Enter follows, and the digest of what is written. -/
def asked (request : Json) : Option Text × Option Bool × Option Text :=
  ((request.field "operation").bind Json.asText, (request.field "no_enter").bind asBool,
    (request.field "payload_sha256").bind Json.asText)

/-- `/^[a-f0-9]{64}$/` -/
def isSha256 (t : Text) : Bool :=
  t.length = 64 && t.all fun c => c.isDigit || ('a' ≤ c && c ≤ 'f')

/-- `/^[A-Za-z0-9_-]{86}$/` -/
def isSignature (t : Text) : Bool :=
  t.length = 86 && t.all fun c => c.isAlphanum || c = '_' || c = '-'

/-- `same(item, binding(session))` -/
def Document.same (d : Document) (s : Session) : Bool :=
  s.id = some d.sid && s.sessionEpoch = some d.epoch && d.ownerGeneration = s.ownerGeneration

/-- The document is of the session, and of what is asked for. -/
def Document.binds (d : Document) (s : Session) (request : Json) : Bool :=
  d.same s && asked request = (some d.operation, some d.noEnter, some d.payloadSha256)

/-! ## Signatures -/

/-- What the verifier uses of `crypto`. -/
structure Primitive (κ : Type) where
  /-- `crypto.createPublicKey(pem)`, where it does not throw -/
  createPublicKey : Text → Option κ
  /-- `key.asymmetricKeyType === 'ed25519'` -/
  isEd25519 : κ → Bool
  /-- `crypto.verify(null, data, key, signature)`, where it does not throw; the signature is in
  base64url -/
  verify : Bytes → κ → Text → Option Bool

/-- The signature is one of the document under the key of the policy. -/
def Primitive.signed {κ : Type} (p : Primitive κ) (pem : Text) (d : Document) (signature : Text) : Bool :=
  (p.createPublicKey pem).any fun key =>
    p.isEd25519 key && p.verify (encodeText d.toJson.stringify) key signature = some true

/-! ## The verifier -/

structure Verifier where
  daemonChallenge : Text
  maxPending : Nat
  /-- by nonce -/
  pending : OrdMap Text Document

inductive Answer where
  | refused (code : Text)
  | issued (d : Document)
  | verified

/-- `createExternalApprovalVerifier({ maxPending })` -/
def Verifier.created (daemonChallenge : Text) (maxPending : Nat) : Verifier :=
  ⟨daemonChallenge, maxPending, .empty⟩

namespace Verifier

/-- `if (item.expires_at <= now()) pending.delete(nonce)` for every item; `clock` is what the clock
reads at the item of a nonce. -/
def purge (clock : Text → Int) (v : Verifier) : Verifier :=
  { v with pending := v.pending.filter fun e => clock e.1 < e.2.expiresAt }

/-- `challenge(session, request)`; `now` is the reading for the expiry, `nonce` what is drawn. -/
def challenge (clock : Text → Int) (now : Int) (nonce : Text) (session : Option Session)
    (request : Json) (v : Verifier) : Verifier × Answer :=
  match session.filter fun s => s.externalApprovalPolicy.isSome with
  | none => (v, .refused "APPROVAL_POLICY_REQUIRED")
  | some s =>
    match s.id.filter (· ≠ []), s.sessionEpoch.filter (· ≠ []) with
    | some sid, some epoch =>
      match asked request with
      | (some operation, some noEnter, some payloadSha256) =>
        if operation ≠ ("inject" : Text) || !isSha256 payloadSha256 then
          (v, .refused "INVALID_APPROVAL_REQUEST")
        else
          let v := v.purge clock
          if v.maxPending ≤ v.pending.size then (v, .refused "APPROVAL_CAPACITY")
          else
            let d : Document :=
              { sid, epoch, ownerGeneration := s.ownerGeneration, operation, noEnter, payloadSha256
                nonce, expiresAt := now + 60000, daemonChallenge := v.daemonChallenge }
            ({ v with pending := v.pending.set nonce d }, .issued d)
      | _ => (v, .refused "INVALID_APPROVAL_REQUEST")
    | _, _ => (v, .refused "APPROVAL_POLICY_REQUIRED")

def consume (d : Document) (v : Verifier) : Verifier := { v with pending := v.pending.delete d.nonce }

/-- `verifyAndConsume(session, request, approval, signature)` -/
def verifyAndConsume {κ : Type} (p : Primitive κ) (now : Int) (session : Option Session)
    (request approval signature : Json) (v : Verifier) : Verifier × Answer :=
  match ((approval.field "nonce").bind Json.asText).bind v.pending.get? with
  | none => (v, .refused "APPROVAL_DENIED")
  | some item =>
    if item.expiresAt ≤ now then (v.consume item, .refused "APPROVAL_EXPIRED")
    else
      match session, signature.asText with
      | some s, some signature =>
        match s.externalApprovalPolicy with
        | some pem =>
          if item.binds s request && approval.stringify = item.toJson.stringify &&
              isSignature signature && p.signed pem item signature then (v.consume item, .verified)
          else (v, .refused "APPROVAL_DENIED")
        | none => (v, .refused "APPROVAL_DENIED")
      | _, _ => (v, .refused "APPROVAL_DENIED")

end Verifier

/-! ## Runs -/

inductive Call where
  | challenge (clock : Text → Int) (now : Int) (nonce : Text) (session : Option Session) (request : Json)
  | verify (now : Int) (session : Option Session) (request approval signature : Json)

namespace Verifier

section

variable {κ : Type} (p : Primitive κ)

def step (v : Verifier) : Call → Verifier × Answer
  | .challenge clock now nonce session request => v.challenge clock now nonce session request
  | .verify now session request approval signature =>
    v.verifyAndConsume p now session request approval signature

def run (v : Verifier) (calls : List Call) : Verifier := calls.foldl (fun v c => (v.step p c).1) v

/-- The calls with their answers. -/
def history (v : Verifier) : List Call → List (Call × Answer)
  | [] => []
  | c :: calls => (c, (v.step p c).2) :: history (v.step p c).1 calls

variable {p} {v : Verifier}

theorem run_concat (calls : List Call) (c : Call) :
    v.run p (calls ++ [c]) = ((v.run p calls).step p c).1 := by
  rw [run, List.foldl_append]
  rfl

theorem history_concat (calls : List Call) (c : Call) :
    v.history p (calls ++ [c]) = v.history p calls ++ [(c, ((v.run p calls).step p c).2)] := by
  induction calls generalizing v with
  | nil => rfl
  | cons c' calls ih =>
    rw [List.cons_append, history, ih]
    rfl

end

end Verifier

/-! ## One call -/

/-- The document expires at a reading of the call. -/
def Call.Expires (n : Text) (d : Document) : Call → Prop
  | .challenge clock _ _ _ _ => d.expiresAt ≤ clock n
  | .verify now _ _ _ _ => d.expiresAt ≤ now

/-- The call asks for the document. -/
def Call.Requests (d : Document) : Call → Prop
  | .challenge _ _ _ session request => ∃ s, session = some s ∧ d.binds s request = true
  | .verify .. => False

/-- The call presents the document, unexpired, for its session and for what it is of, signed under the
policy of the session. -/
def Call.Presents {κ : Type} (p : Primitive κ) (d : Document) : Call → Prop
  | .challenge .. => False
  | .verify now session request approval signature =>
    approval = d.toJson ∧ now < d.expiresAt ∧ ∃ s pem sig, session = some s ∧
      d.binds s request = true ∧ s.externalApprovalPolicy = some pem ∧ signature = .str sig ∧
      p.signed pem d sig = true

namespace Verifier

variable {κ : Type} {p : Primitive κ} {v : Verifier}

/-- What one call can do to the verifier, and with which answer. -/
inductive Stepped (p : Primitive κ) (v : Verifier) (c : Call) : Verifier × Answer → Prop where
  | refused (code : Text) : Stepped p v c (v, .refused code)
  | full (clock : Text → Int) (code : Text) (hc : ∀ n d, d.expiresAt ≤ clock n → c.Expires n d) :
      Stepped p v c (v.purge clock, .refused code)
  | issued (clock : Text → Int) (d : Document) (hc : ∀ n d, d.expiresAt ≤ clock n → c.Expires n d)
      (hd : c.Requests d) (hroom : (v.purge clock).pending.size < v.maxPending) :
      Stepped p v c ({ v.purge clock with pending := (v.purge clock).pending.set d.nonce d }, .issued d)
  | expired (n : Text) (d : Document) (code : Text) (hd : v.pending.get? n = some d)
      (he : c.Expires d.nonce d) : Stepped p v c (v.consume d, .refused code)
  | verified (n : Text) (d : Document) (hd : v.pending.get? n = some d) (hp : c.Presents p d) :
      Stepped p v c (v.consume d, .verified)

theorem stepped_challenge (clock : Text → Int) (now : Int) (nonce : Text) (session : Option Session)
    (request : Json) : Stepped p v (.challenge clock now nonce session request)
      (v.challenge clock now nonce session request) := by
  unfold challenge
  split
  · exact .refused _
  next s hs =>
    obtain ⟨hsession, -⟩ := Option.filter_eq_some_iff.mp hs
    split
    · next sid epoch hid hepoch =>
      split
      · next operation noEnter payloadSha256 hasked =>
        split
        · exact .refused _
        · dsimp only
          split
          · exact .full clock _ fun _ _ h => h
          · next hroom =>
            generalize hd : Document.mk sid epoch s.ownerGeneration operation noEnter payloadSha256 nonce
              (now + 60000) (v.purge clock).daemonChallenge = d
            obtain rfl : d.nonce = nonce := by rw [← hd]
            refine .issued clock d (fun _ _ h => h) ⟨s, hsession, ?_⟩ (Nat.not_le.mp hroom)
            rw [← hd]
            simp [Document.binds, Document.same, hasked, (Option.filter_eq_some_iff.mp hid).1,
              (Option.filter_eq_some_iff.mp hepoch).1]
      · exact .refused _
    · exact .refused _

theorem stepped_verifyAndConsume (now : Int) (session : Option Session)
    (request approval signature : Json) : Stepped p v (.verify now session request approval signature)
      (v.verifyAndConsume p now session request approval signature) := by
  unfold verifyAndConsume
  split
  · exact .refused _
  next item hitem =>
    obtain ⟨n, -, hn⟩ := Option.bind_eq_some_iff.mp hitem
    split
    · next he => exact .expired n item _ hn he
    next hlive =>
      split
      · next s sig hsig =>
        split
        · next pem hpem =>
          split
          · next hall =>
            simp only [Bool.and_eq_true, decide_eq_true_eq] at hall
            obtain ⟨⟨⟨hbinds, htext⟩, -⟩, hsigned⟩ := hall
            refine .verified n item hn ⟨Json.stringify_injective htext, Int.not_le.mp hlive, s, pem, sig,
              rfl, hbinds, hpem, ?_, hsigned⟩
            cases signature with
            | str t => rw [Option.some.inj hsig]
            | null | bool _ | num _ | arr _ | obj _ => cases hsig
          · exact .refused _
        · exact .refused _
      · exact .refused _

/-- **Every call is one of the five.** -/
theorem stepped (p : Primitive κ) (v : Verifier) (c : Call) : Stepped p v c (v.step p c) := by
  cases c with
  | challenge clock now nonce session request =>
    exact stepped_challenge clock now nonce session request
  | verify now session request approval signature =>
    exact stepped_verifyAndConsume now session request approval signature

end Verifier

theorem toJson_injective {d d' : Document} (h : d.toJson = d'.toJson) : d = d' := by
  simp only [Document.toJson, Json.obj.injEq, List.cons.injEq, Prod.mk.injEq, Json.str.injEq,
    Json.bool.injEq, Json.num.injEq, true_and, and_true] at h
  obtain ⟨hsid, hepoch, howner, hoperation, henter, hpayload, hnonce, hexpires, hchallenge⟩ := h
  have howner : d.ownerGeneration = d'.ownerGeneration := by
    cases hd : d.ownerGeneration with
    | none =>
      rw [hd] at howner
      cases hd' : d'.ownerGeneration with
      | none => rfl
      | some t =>
        rw [hd'] at howner
        cases howner
    | some t =>
      rw [hd] at howner
      cases hd' : d'.ownerGeneration with
      | none =>
        rw [hd'] at howner
        cases howner
      | some t' =>
        rw [hd'] at howner
        cases howner
        rfl
  cases d
  cases d'
  simp_all only

/-! ## What is pending -/

/-- The document was issued by the call. -/
def issues (d : Document) : Call × Answer → Bool
  | (_, .issued d') => d' = d
  | _ => false

/-- The call presented the document and was let through. -/
def spends (d : Document) : Call × Answer → Bool
  | (.verify _ _ _ approval _, .verified) => approval.stringify = d.toJson.stringify
  | _ => false

/-- The document was issued for what the call asks. -/
def Issued (history : List (Call × Answer)) (d : Document) : Prop :=
  ∃ c, (c, .issued d) ∈ history ∧ c.Requests d

/-- How often the document is pending. -/
def Verifier.holds (v : Verifier) (d : Document) : Nat :=
  if v.pending.get? d.nonce = some d then 1 else 0

/-- Every pending document was issued, and is left over from its issues: as often as it was issued, and
not let through. -/
structure Verifier.Sound (history : List (Call × Answer)) (v : Verifier) : Prop where
  named : ∀ n d, v.pending.get? n = some d → d.nonce = n
  issued : ∀ n d, v.pending.get? n = some d → Issued history d
  left : ∀ d, history.countP (spends d) + v.holds d ≤ history.countP (issues d)
  bounded : v.pending.size ≤ v.maxPending

theorem Issued.concat {history : List (Call × Answer)} {d : Document} (h : Issued history d)
    (e : Call × Answer) : Issued (history ++ [e]) d := by
  obtain ⟨c, hc, hd⟩ := h
  exact ⟨c, List.mem_append_left _ hc, hd⟩

namespace Verifier

variable {κ : Type} {p : Primitive κ} {v v' : Verifier} {h : List (Call × Answer)} {c : Call}

theorem get?_purge {clock : Text → Int} {n : Text} {d : Document}
    (hd : (v.purge clock).pending.get? n = some d) : v.pending.get? n = some d := by
  rw [purge, OrdMap.get?_filter, Option.filter_eq_some_iff] at hd
  exact hd.1

theorem get?_consume {n : Text} {d d' : Document} (hd : (v.consume d').pending.get? n = some d) :
    v.pending.get? n = some d ∧ n ≠ d'.nonce := by
  rw [consume, OrdMap.get?_delete] at hd
  split at hd
  · cases hd
  · next hne => exact ⟨hd, hne⟩

theorem holds_le_one (v : Verifier) (d : Document) : v.holds d ≤ 1 := by
  unfold holds
  split
  · exact Nat.le_refl 1
  · exact Nat.zero_le 1

theorem holds_le {d : Document}
    (h : v'.pending.get? d.nonce = some d → v.pending.get? d.nonce = some d) : v'.holds d ≤ v.holds d := by
  unfold holds
  split
  · next hd => exact Nat.le_of_eq (if_pos (h hd)).symm
  · exact Nat.zero_le _

theorem size_set_le (m : OrdMap Text Document) (n : Text) (d : Document) :
    (m.set n d).size ≤ m.size + 1 := by
  have hkeys := congrArg List.length (keys_assocSet n d m.entries)
  rw [List.length_map] at hkeys
  show (assocSet n d m.entries).length ≤ m.entries.length + 1
  rw [hkeys]
  split
  · rw [List.length_map]
    exact Nat.le_succ _
  · rw [List.length_append, List.length_map]
    exact Nat.le_refl _

theorem size_filter_le {f : Text × Document → Bool} : (v.pending.filter f).size ≤ v.pending.size :=
  List.length_filter_le ..

/-- A refusal that takes documents away at most. -/
theorem Sound.thin (hs : v.Sound h) {code : Text}
    (hget : ∀ n d, v'.pending.get? n = some d → v.pending.get? n = some d)
    (hsize : v'.pending.size ≤ v.pending.size) (hmax : v'.maxPending = v.maxPending) :
    v'.Sound (h ++ [(c, .refused code)]) where
  named n d hd := hs.named n d (hget n d hd)
  issued n d hd := (hs.issued n d (hget n d hd)).concat _
  left d := by
    have hleft := hs.left d
    have hholds : v'.holds d ≤ v.holds d := holds_le (hget _ d)
    have hspends : spends d (c, .refused code) = false := by cases c <;> rfl
    rw [List.countP_append, List.countP_append, List.countP_singleton, List.countP_singleton, hspends,
      show issues d (c, .refused code) = false from rfl]
    simp only [Bool.false_eq_true, if_false]
    omega
  bounded := hmax ▸ Nat.le_trans hsize hs.bounded

theorem Sound.issue (hs : v.Sound h) (clock : Text → Int) {d : Document} (hd : c.Requests d)
    (hroom : (v.purge clock).pending.size < v.maxPending) :
    Sound (h ++ [(c, .issued d)])
      { v.purge clock with pending := (v.purge clock).pending.set d.nonce d } where
  named n d' hd' := by
    rw [OrdMap.get?_set] at hd'
    split at hd'
    · next hn =>
      cases hd'
      exact hn.symm
    · exact hs.named n d' (get?_purge hd')
  issued n d' hd' := by
    rw [OrdMap.get?_set] at hd'
    split at hd'
    · cases hd'
      exact ⟨c, List.mem_append_right _ List.mem_cons_self, hd⟩
    · exact (hs.issued n d' (get?_purge hd')).concat _
  left d' := by
    have hleft := hs.left d'
    have hspends : spends d' (c, .issued d) = false := by cases c <;> rfl
    rw [List.countP_append, List.countP_append, List.countP_singleton, List.countP_singleton, hspends]
    simp only [Bool.false_eq_true, if_false, issues, decide_eq_true_eq]
    generalize hv' : ({ v.purge clock with pending := (v.purge clock).pending.set d.nonce d } :
      Verifier) = v'
    by_cases hdd : d = d'
    · have hone := v'.holds_le_one d'
      rw [if_pos hdd]
      omega
    · have hholds : v'.holds d' ≤ v.holds d' := by
        refine holds_le fun hget => ?_
        rw [← hv', OrdMap.get?_set] at hget
        split at hget
        · exact absurd (Option.some.inj hget) hdd
        · exact get?_purge hget
      rw [if_neg hdd]
      omega
  bounded := Nat.le_trans (size_set_le _ _ _) hroom

theorem Sound.spend (hs : v.Sound h) {n : Text} {d : Document} (hd : v.pending.get? n = some d)
    (hp : c.Presents p d) : (v.consume d).Sound (h ++ [(c, .verified)]) where
  named n d hd := hs.named n d (get?_consume hd).1
  issued n d hd := (hs.issued n d (get?_consume hd).1).concat _
  left d' := by
    have hleft := hs.left d'
    have hspends : spends d' (c, .verified) = true ↔ d = d' := by
      cases c with
      | challenge => exact hp.elim
      | verify now session request approval signature =>
        rw [hp.1]
        show decide (d.toJson.stringify = d'.toJson.stringify) = true ↔ d = d'
        rw [decide_eq_true_eq]
        exact ⟨fun h => toJson_injective (Json.stringify_injective h), fun h => by rw [h]⟩
    rw [List.countP_append, List.countP_append, List.countP_singleton, List.countP_singleton,
      show issues d' (c, .verified) = false from rfl]
    simp only [Bool.false_eq_true, if_false]
    by_cases hdd : d = d'
    · -- what is let through was pending, and is not any more
      subst hdd
      have hpending : v.holds d = 1 := by
        rw [holds, hs.named n d hd]
        exact if_pos hd
      have hgone : (v.consume d).holds d = 0 := if_neg fun hstill => (get?_consume hstill).2 rfl
      rw [if_pos (hspends.mpr rfl), hgone]
      omega
    · have hholds : (v.consume d).holds d' ≤ v.holds d' := holds_le fun hget => (get?_consume hget).1
      rw [if_neg fun hyes => hdd (hspends.mp hyes)]
      omega
  bounded := Nat.le_trans size_filter_le hs.bounded

/-- **One call keeps the books.** -/
theorem Sound.step (hs : v.Sound h) (c : Call) :
    (v.step p c).1.Sound (h ++ [(c, (v.step p c).2)]) := by
  have hc := stepped p v c
  revert hc
  generalize v.step p c = r
  rintro (_ | ⟨clock, _, _⟩ | ⟨clock, d, _, hd, hroom⟩ | ⟨n, d, _, hd, _⟩ | ⟨n, d, hd, hp⟩)
  · exact hs.thin (fun _ _ hd => hd) (Nat.le_refl _) rfl
  · exact hs.thin (fun _ _ hd => get?_purge hd) size_filter_le rfl
  · exact hs.issue clock hd hroom
  · exact hs.thin (fun _ _ hd => (get?_consume hd).1) size_filter_le rfl
  · exact hs.spend hd hp

theorem sound_run (p : Primitive κ) (daemonChallenge : Text) (maxPending : Nat) (calls : List Call) :
    ((created daemonChallenge maxPending).run p calls).Sound
      ((created daemonChallenge maxPending).history p calls) := by
  induction calls using List.reverseRecOn with
  | nil => exact ⟨nofun, nofun, fun d => Nat.zero_le _, Nat.zero_le _⟩
  | append_singleton calls c ih =>
    rw [run_concat, history_concat]
    exact ih.step c

/-! ## What an approval authorises -/

/-- The call is refused, and what it takes away has expired; nothing is added. -/
def Spares (v v' : Verifier) (c : Call) : Prop :=
  ∀ n d, (v'.pending.get? n = some d → v.pending.get? n = some d) ∧
    (v.pending.get? n = some d → v'.pending.get? n = some d ∨ c.Expires n d)

/-- The verifier after some calls. A call is let through only for a document that was issued for what it
asks, unexpired and signed; no document is let through more often than it was issued; a refusal takes away
only what has expired; and there are never more documents than there is room for. -/
structure Safe (p : Primitive κ) (maxPending : Nat) (history : List (Call × Answer)) (v : Verifier) :
    Prop where
  authorised : ∀ c, (v.step p c).2 = .verified → ∃ d, c.Presents p d ∧ Issued history d
  once : ∀ d, history.countP (spends d) ≤ history.countP (issues d)
  spared : ∀ c code, (v.step p c).2 = .refused code → v.Spares (v.step p c).1 c
  bounded : v.pending.size ≤ maxPending

theorem Sound.spares (hs : v.Sound h) {code : Text} (hcode : (v.step p c).2 = .refused code) :
    v.Spares (v.step p c).1 c := by
  have hc := stepped p v c
  revert hc hcode
  generalize v.step p c = r
  rintro hcode (_ | ⟨clock, _, hclock⟩ | _ | ⟨n₀, d₀, _, hd₀, hexpires⟩ | _) n d
  · exact ⟨id, .inl⟩
  · refine ⟨get?_purge, fun hd => ?_⟩
    rw [purge, OrdMap.get?_filter, hd]
    by_cases hlive : clock n < d.expiresAt
    · exact .inl (Option.filter_some_pos (decide_eq_true hlive))
    · exact .inr (hclock n d (Int.not_lt.mp hlive))
  · cases hcode
  · refine ⟨fun hd => (get?_consume hd).1, fun hd => ?_⟩
    rw [consume, OrdMap.get?_delete]
    split
    · next hn =>
      rw [hs.named n₀ d₀ hd₀] at hn hexpires
      rw [hn, hd₀] at hd
      cases hd
      rw [hn]
      exact .inr hexpires
    · exact .inl hd
  · cases hcode

theorem run_maxPending (p : Primitive κ) (v : Verifier) (calls : List Call) :
    (v.run p calls).maxPending = v.maxPending := by
  induction calls generalizing v with
  | nil => rfl
  | cons c calls ih =>
    refine (ih _).trans ?_
    show (v.step p c).1.maxPending = v.maxPending
    have hc := stepped p v c
    revert hc
    generalize v.step p c = r
    rintro (_ | _ | _ | _ | _) <;> rfl

/-- **However challenges and writes come, and whatever the clock reads, an approval authorises the write
that it was issued for, once.** -/
theorem approval_safe (p : Primitive κ) (daemonChallenge : Text) (maxPending : Nat)
    (calls : List Call) :
    Safe p maxPending ((created daemonChallenge maxPending).history p calls)
      ((created daemonChallenge maxPending).run p calls) := by
  have hs := sound_run p daemonChallenge maxPending calls
  have hmax := run_maxPending p (created daemonChallenge maxPending) calls
  revert hs hmax
  generalize (created daemonChallenge maxPending).run p calls = v
  generalize (created daemonChallenge maxPending).history p calls = h
  intro hs hmax
  refine ⟨fun c hverified => ?_, fun d => Nat.le_trans (Nat.le_add_right _ _) (hs.left d),
    fun c code hcode => hs.spares hcode, ?_⟩
  · have hc := stepped p v c
    revert hc hverified
    generalize v.step p c = r
    rintro hverified (_ | _ | _ | _ | ⟨n, d, hd, hp⟩)
    · cases hverified
    · cases hverified
    · cases hverified
    · cases hverified
    · exact ⟨d, hp, hs.issued n d hd⟩
  · have hmax : v.maxPending = maxPending := hmax
    rw [← hmax]
    exact hs.bounded

end Verifier

end Telepty.Approval
