import Telepty.Infra.Inverted
import Telepty.Session.Lifecycle
import Telepty.Session.Restore

/-!
# The credential index and the records

Record, index and file are updated by every route that moves a session, each with its own way back
when the write of the session store fails. Whatever they do, and however the writes end, the index is
the inverted index of the records that are live, and what the store would restore is among them.

A record is live until its destruction is durable. The random epochs are new and the digest is
injective.
-/

namespace Telepty.Registry

open Infra

/-! ## Directory and index -/

/-- The session has not been destroyed durably. -/
def SessionRecord.live (r : SessionRecord) : Bool := !r.isClosing || r.closeDurabilityPending

/-- The epoch, the verifier and the generation of a record. -/
def SessionRecord.credential (r : SessionRecord) : Option (Text × Text × Nat) :=
  credentialOf r.sessionEpoch r.credentialVerifier r.credentialGeneration

def SessionRecord.heldCredential (r : SessionRecord) : Option (Text × Text × Nat) :=
  if r.live then r.credential else none

/-- The credentials of the live records, by name. -/
def directory (sessions : OrdMap Text SessionRecord) (id : Text) : Option (Text × Text × Nat) :=
  (sessions.get? id).bind SessionRecord.heldCredential

/-- The entries of the index, by epoch. -/
def indexed (index : CredentialStore) (epoch : Text) : Option (Text × Text × Nat) :=
  (index.get? epoch).map fun e => (e.sid, e.verifier, e.generation)

section

variable {sessions : OrdMap Text SessionRecord} {index : CredentialStore} {id : Text}
  {r : SessionRecord}

theorem directory_set : directory (sessions.set id r)
    = Function.update (directory sessions) id r.heldCredential := by
  funext k
  by_cases hk : k = id
  · subst hk
    rw [Function.update_self, directory, OrdMap.get?_set, if_pos rfl]
    rfl
  · rw [Function.update_of_ne hk, directory, OrdMap.get?_set, if_neg hk]
    rfl

theorem directory_delete : directory (sessions.delete id)
    = Function.update (directory sessions) id none := by
  funext k
  by_cases hk : k = id
  · subst hk
    rw [Function.update_self, directory, OrdMap.get?_delete, if_pos rfl]
    rfl
  · rw [Function.update_of_ne hk, directory, OrdMap.get?_delete, if_neg hk]
    rfl

theorem directory_of_get? (h : sessions.get? id = some r) :
    directory sessions id = r.heldCredential := by
  rw [directory, h]
  rfl

theorem indexed_set {epoch : Text} {e : Entry} : indexed (index.set epoch e)
    = Function.update (indexed index) epoch (some (e.sid, e.verifier, e.generation)) := by
  funext k
  by_cases hk : k = epoch
  · subst hk
    rw [Function.update_self, indexed, OrdMap.get?_set, if_pos rfl]
    rfl
  · rw [Function.update_of_ne hk, indexed, OrdMap.get?_set, if_neg hk]
    rfl

theorem indexed_revoke {sid epoch k : Text} {d : Text × Nat} :
    indexed (index.revoke sid) epoch = some (k, d) ↔
      indexed index epoch = some (k, d) ∧ k ≠ sid := by
  rw [indexed, indexed, Option.map_eq_some_iff, Option.map_eq_some_iff]
  constructor
  · rintro ⟨e, he, heq⟩
    obtain ⟨hget, hne⟩ := CredentialStore.get?_revoke.mp he
    cases heq
    exact ⟨⟨e, hget, rfl⟩, hne⟩
  · rintro ⟨⟨e, hget, heq⟩, hne⟩
    cases heq
    exact ⟨e, CredentialStore.get?_revoke.mpr ⟨hget, hne⟩, rfl⟩

theorem indexed_rename {old new epoch : Text} : indexed (index.rename old new) epoch
    = (indexed index epoch).map fun v => (if v.1 = old then new else v.1, v.2) := by
  rw [indexed, indexed, CredentialStore.rename, OrdMap.get?_mapVal, Option.map_map, Option.map_map]
  refine congrFun (congrArg Option.map (funext fun e => ?_)) _
  by_cases h : e.sid = old
  · simp [h]
  · simp [h]

end

/-! ## Runs -/

inductive Event where
  /-- registrations and re-registrations -/
  | register (call : Call)
  | rename (call : RenameCall)
  | takeover (call : TakeoverCall)
  | close (id : Text) (acknowledged : Bool) (saved : Saved)
  /-- the end of a teardown -/
  | remove (id : Text)
  /-- the removal of a session that was disconnected for too long -/
  | collect (id : Text) (saved : Saved)
  | restart (now : Nat)

def Event.apply (host : Host) (reg : Context) : Event → Context
  | .register call => (Registry.register host reg call).1
  | .rename call => (renameSession host reg call).1
  | .takeover call => (Registry.takeover host reg call).1
  | .close id acknowledged saved =>
    match reg.sessions.get? id with
    | some r => (beginDurableSessionClose host acknowledged saved id r reg).1
    | none => reg
  | .remove id => removeClosed id reg
  | .collect id saved => collectStale host saved id reg
  | .restart now => Registry.restart host now reg

/-- The epoch that the event draws, with its bearer. -/
def Event.draws : Event → List (Text × Text)
  | .register call => [(call.epoch, bearerOf call.epoch call.secret)]
  | .takeover call => [(call.epoch, bearerOf call.epoch call.secret)]
  | _ => []

/-- The daemon, with the epochs that were drawn so far and those of the instances that are gone. -/
structure Daemon where
  reg : Context
  drawn : List (Text × Text)
  gone : List Text

def Daemon.started : Daemon := ⟨.started, [], []⟩

/-- A live record holds the epoch. -/
def heldEpoch (sessions : OrdMap Text SessionRecord) (epoch : Text) : Bool :=
  sessions.values.any fun r => r.heldCredential.any fun c => c.1 = epoch

/-- An instance is gone once no live record holds its epoch: it was destroyed, superseded, rolled back
or not restored. -/
def Daemon.step (host : Host) (d : Daemon) (e : Event) : Daemon :=
  let reg := e.apply host d.reg
  let drawn := d.drawn ++ e.draws
  { reg := reg, drawn := drawn
    gone := d.gone ++ (drawn.map Prod.fst).filter fun epoch => !heldEpoch reg.sessions epoch }

def Daemon.run (host : Host) (d : Daemon) (events : List Event) : Daemon :=
  events.foldl (Daemon.step host) d

/-- What the event draws is new and has the form of a credential. -/
def Fresh (d : Daemon) (e : Event) : Prop :=
  ∀ x ∈ e.draws, x.1 ∉ d.drawn.map Prod.fst ∧ x.1 ≠ [] ∧ '.' ∉ x.1 ∧
    ∃ secret, secret ≠ [] ∧ x.2 = bearerOf x.1 secret

/-- Every event of the run draws what is new. -/
def RunFresh (host : Host) : Daemon → List Event → Prop
  | _, [] => True
  | d, e :: events => Fresh d e ∧ RunFresh host (d.step host e) events

theorem heldEpoch_iff {sessions : OrdMap Text SessionRecord} {epoch : Text} :
    heldEpoch sessions epoch = true ↔ Held (directory sessions) epoch := by
  rw [heldEpoch, List.any_eq_true]
  constructor
  · rintro ⟨r, hr, hheld⟩
    obtain ⟨id, hget⟩ := sessions.mem_values_iff.mp hr
    obtain ⟨⟨e, d⟩, hc, he⟩ := (Option.any_eq_true _ _).mp hheld
    have hepoch : e = epoch := of_decide_eq_true he
    exact ⟨id, d, by rw [directory_of_get? hget, hc, hepoch]⟩
  · rintro ⟨id, d, hd⟩
    obtain ⟨r, hget, hc⟩ := Option.bind_eq_some_iff.mp hd
    exact ⟨r, sessions.mem_values_iff.mpr ⟨id, hget⟩,
      (Option.any_eq_true _ _).mpr ⟨_, hc, decide_eq_true rfl⟩⟩

/-! ## What the store would restore -/

/-- The store would restore credentials of live records only. -/
def Stored (host : Host) (sessions : OrdMap Text SessionRecord) (file : Json) : Prop :=
  ∃ written : OrdMap Text SessionRecord, file = serializePersistedSessions host.isDate written ∧
    ∀ id r c, written.get? id = some r → r.isClosing = false → r.restorable = true →
      isSafeRegisteredSessionId id = true → r.credential = some c → directory sessions id = some c

section

variable {host : Host} {sessions sessions' : OrdMap Text SessionRecord} {file : Json}

theorem Stored.mono (h : Stored host sessions file)
    (hsub : ∀ id c, directory sessions id = some c → directory sessions' id = some c) :
    Stored host sessions' file := by
  obtain ⟨written, hfile, hwritten⟩ := h
  exact ⟨written, hfile, fun id r c hget hopen hres hsafe hc =>
    hsub id c (hwritten id r c hget hopen hres hsafe hc)⟩

theorem heldCredential_of_open {r : SessionRecord} (h : r.isClosing = false) :
    r.heldCredential = r.credential := by
  rw [SessionRecord.heldCredential, SessionRecord.live, h]
  rfl

/-- What was written is what is there, but for records that were closing. -/
theorem Stored.of_written (hsame : ∀ id r, sessions.get? id = some r → r.isClosing = false →
      directory sessions' id = directory sessions id) :
    Stored host sessions' (serializePersistedSessions host.isDate sessions) := by
  refine ⟨sessions, rfl, fun id r c hget hopen _ _ hc => ?_⟩
  rw [hsame id r hget hopen, directory_of_get? hget, heldCredential_of_open hopen, hc]

theorem Stored.persist {reg : Context} {saved : Saved}
    (hold : saved.committed = false → Stored host sessions' reg.file)
    (hnew : saved.committed = true →
      Stored host sessions' (serializePersistedSessions host.isDate reg.sessions)) :
    Stored host sessions' (reg.persist host saved).file := by
  unfold Context.persist
  cases hs : saved.committed with
  | true => exact hnew hs
  | false => exact hold hs

end

/-! ## The invariant of the context -/

/-- The index matches the records, and the store the live ones. -/
structure Matches (host : Host) (reg : Context) : Prop where
  inverts : Inverts (directory reg.sessions) (indexed reg.index)
  names : ∀ id r, reg.sessions.get? id = some r → r.id = id ∧ id ≠ []
  stored : Stored host reg.sessions reg.file

/-- What an event makes of a context: it still matches, and what is held was held before or was
drawn. -/
structure Follows (host : Host) (reg reg' : Context) (draws : List (Text × Text)) : Prop extends
    Matches host reg' where
  origin : ∀ id c, directory reg'.sessions id = some c →
    (∃ id₀, directory reg.sessions id₀ = some c) ∨
      ∃ b, (c.1, b) ∈ draws ∧ c.2.1 = verifierFor host.digest b

/-- Who a record is, as far as its credential goes. -/
def SessionRecord.identity (r : SessionRecord) :
    Text × Option Text × Option Text × Option Nat × Bool × Bool :=
  (r.id, r.sessionEpoch, r.credentialVerifier, r.credentialGeneration, r.isClosing,
    r.closeDurabilityPending)

theorem heldCredential_of_identity {r r' : SessionRecord} (h : r'.identity = r.identity) :
    r'.heldCredential = r.heldCredential := by
  simp only [SessionRecord.identity, Prod.mk.injEq] at h
  obtain ⟨-, he, hv, hg, hc, hp⟩ := h
  simp only [SessionRecord.heldCredential, SessionRecord.live, SessionRecord.credential, he, hv, hg,
    hc, hp]
  rfl

/-- The sessions are the same but for the record of one name, which is the same instance. -/
def SameBut (id : Text) (r : SessionRecord) (sessions sessions' : OrdMap Text SessionRecord) : Prop :=
  ∃ r', r'.identity = r.identity ∧
    ∀ k, sessions'.get? k = if k = id then some r' else sessions.get? k

/-- The context after work on one record. -/
structure Reworked (host : Host) (id : Text) (r : SessionRecord) (reg reg' : Context) : Prop where
  sessions : SameBut id r reg.sessions reg'.sessions
  index : reg'.index = reg.index
  file : reg'.file = reg.file ∨ ∃ written, reg'.file = serializePersistedSessions host.isDate written ∧
    SameBut id r reg.sessions written

section

variable {host : Host} {reg reg' : Context} {id : Text} {r r' : SessionRecord}

theorem directory_sameBut {sessions sessions' : OrdMap Text SessionRecord}
    (hget : sessions.get? id = some r) (h : SameBut id r sessions sessions') :
    directory sessions' = directory sessions := by
  obtain ⟨r', hid, hsame⟩ := h
  funext k
  by_cases hk : k = id
  · subst hk
    rw [directory_of_get? hget, directory, hsame, if_pos rfl]
    exact heldCredential_of_identity hid
  · rw [directory, hsame, if_neg hk]
    rfl

theorem Reworked.refl (hget : reg.sessions.get? id = some r) : Reworked host id r reg reg := by
  refine ⟨⟨r, rfl, fun k => ?_⟩, rfl, .inl rfl⟩
  by_cases hk : k = id
  · rw [hk, if_pos rfl, hget]
  · rw [if_neg hk]

theorem Reworked.put (h : Reworked host id r reg reg') (hid : r'.identity = r.identity) :
    Reworked host id r reg (reg'.put id r') := by
  obtain ⟨⟨r₀, -, hsame⟩, hindex, hfile⟩ := h
  refine ⟨⟨r', hid, fun k => ?_⟩, hindex, hfile⟩
  rw [Context.put, OrdMap.get?_set]
  by_cases hk : k = id
  · rw [if_pos hk, if_pos hk]
  · rw [if_neg hk, if_neg hk, hsame, if_neg hk]

theorem Reworked.persist (h : Reworked host id r reg reg') (saved : Saved) :
    Reworked host id r reg (reg'.persist host saved) := by
  unfold Context.persist
  split
  · exact ⟨h.sessions, h.index, .inr ⟨reg'.sessions, rfl, h.sessions⟩⟩
  · exact h

/-- Work on one record of the same instance leaves everything that matches as it was. -/
theorem Reworked.follows (h : Reworked host id r reg reg') (hm : Matches host reg)
    (hget : reg.sessions.get? id = some r) (draws : List (Text × Text)) :
    Follows host reg reg' draws := by
  have hdir := directory_sameBut hget h.sessions
  refine ⟨⟨?_, ?_, ?_⟩, ?_⟩
  · rw [hdir, h.index]
    exact hm.inverts
  · obtain ⟨r', hid, hsame⟩ := h.sessions
    intro k r₁ hk
    rw [hsame] at hk
    split at hk
    · next he =>
      cases hk
      have hname : r'.id = r.id := congrArg Prod.fst hid
      rw [he, hname]
      exact hm.names id r hget
    · exact hm.names k r₁ hk
  · rcases h.file with hfile | ⟨written, hfile, hwritten⟩
    · rw [hfile]
      exact hm.stored.mono fun k c hk => by rw [hdir, hk]
    · rw [hfile]
      refine Stored.of_written fun k _ _ _ => ?_
      rw [hdir, directory_sameBut hget hwritten]
  · intro k c hk
    rw [hdir] at hk
    exact .inl ⟨k, hk⟩

end

/-! ## Re-registration -/

section

variable {r : SessionRecord}

theorem identity_withPolicy (p : Session.Record (List UInt8)) :
    (r.withPolicy p).identity = r.identity := rfl

theorem identity_initializeBootstrapState (iso : Text) :
    (initializeBootstrapState iso r).identity = r.identity := by
  unfold initializeBootstrapState
  split <;> rfl

theorem identity_applyIdleTtlMetadata (ttl : Option (Text × Option Nat)) :
    (applyIdleTtlMetadata ttl r).identity = r.identity := by
  cases ttl <;> rfl

theorem identity_redirect (body : Json) (ssh : Option SshMetadata) :
    (redirect body ssh r).identity = r.identity := by
  unfold redirect
  dsimp only
  split <;> rfl

/-- A stage that some requests pass through. -/
theorem identity_ite {p : Prop} [Decidable p] {f : SessionRecord → SessionRecord}
    (hf : ∀ r₁, (f r₁).identity = r₁.identity) : (if p then f r else r).identity = r.identity := by
  split
  · exact hf r
  · rfl

theorem identity_reregistered (host : Host) (call : Call) (c : Checked) (mayRedirect : Bool)
    (grant : Option PolicyGrant) :
    (reregistered host call c mayRedirect grant r).identity = r.identity := by
  have hnone : (reregistered host call c mayRedirect none r).identity = r.identity := by
    refine (identity_initializeBootstrapState _).trans ?_
    refine (identity_applyIdleTtlMetadata c.idleTtl).trans ?_
    refine (identity_ite (p := mayRedirect = true)
      (f := applyProcessMetadata host.number call.body) fun _ => rfl).trans ?_
    refine (identity_ite (p := isTextIn ["aterm"] (call.body.field "delivery_type") = true)
      (f := fun r₁ => markSessionConnected (host.isoText call.now) { r₁ with ready := true })
      fun _ => rfl).trans ?_
    refine (identity_ite (p := mayRedirect = true) (f := redirect call.body c.sshRemote)
      fun _ => identity_redirect _ _).trans ?_
    rfl
  rw [← hnone]
  unfold reregistered
  dsimp only
  split
  · next source reissue policy =>
    cases reissue <;> rfl
  · rfl

theorem identity_settledRecord {saved : Saved} {reissue : Bool} {after : SessionRecord}
    (h : after.identity = r.identity) : (settledRecord saved reissue r after).identity = r.identity := by
  unfold settledRecord
  cases saved with
  | ok => exact h
  | failed committed => cases committed <;> cases reissue <;> first | exact h | rfl

end

section

variable {host : Host} {reg : Context} {call : Call} {c : Checked} {id : Text} {r : SessionRecord}

theorem Reworked.renewMailboxLease {r₀ : SessionRecord} {reg' : Context} (seconds : Nat)
    (h : Reworked host id r reg reg') (hid : r₀.identity = r.identity) :
    Reworked host id r reg (renewMailboxLease host call seconds id r₀ reg').1 := by
  have hrenewed : ({ r₀ with
      leaseExpiresAt := some (call.now + seconds * 1000)
      lastActivityAt := some (host.isoText call.now)
      lastConnectedAt := some (host.isoText call.now)
      lastDisconnectedAt := none } : SessionRecord).identity = r.identity := hid
  have hput := (h.put hrenewed).persist call.saved
  unfold Registry.renewMailboxLease
  dsimp only
  split
  · exact hput
  · dsimp only
    split
    · exact hput
    · exact h

/-- **A re-registration** is work on one record. -/
theorem reworked_reregister (hget : reg.sessions.get? id = some r) :
    Reworked host id r reg (reregister host reg call c id r).1 := by
  have hrefl : Reworked host id r reg reg := .refl hget
  unfold reregister
  split
  · exact hrefl
  · dsimp only
    generalize hr₀ : (if c.inputPolicy.isSome = true then
      r.withPolicy (Session.currentGrant r.policyRecord).2 else r) = r₀
    have hid : r₀.identity = r.identity := by
      rw [← hr₀]
      split <;> rfl
    have hput : Reworked host id r reg (reg.put id r₀) := hrefl.put hid
    split
    · exact hput
    · split
      · unfold reregisterMailbox
        split
        · exact hput
        · split
          · exact hput
          · split
            · exact hput
            · exact hput.renewMailboxLease _ hid
      · have hafter := fun may grant => (identity_reregistered (r := r₀) host call c may grant).trans hid
        refine ((hput.put (hafter _ _)).persist call.saved).put ?_
        exact (identity_settledRecord ((hafter _ _).trans hid.symm)).trans hid

end

/-! ## Registration of a new instance -/

/-- The digest is one of SHA-256: it is not empty, and two texts do not share it. -/
structure Host.Digests (host : Host) : Prop where
  injective : Function.Injective host.digest
  nonempty : ∀ t, host.digest t ≠ []

theorem Matches.follows_refl {host : Host} {reg : Context} (hm : Matches host reg)
    (draws : List (Text × Text)) : Follows host reg reg draws :=
  ⟨hm, fun id _ hc => .inl ⟨id, hc⟩⟩

theorem verifierFor_ne_nil {host : Host} (hd : host.Digests) (bearer : Text) :
    verifierFor host.digest bearer ≠ [] := by
  obtain ⟨b, bytes, hb⟩ := List.exists_cons_of_ne_nil (hd.nonempty bearer)
  rw [verifierFor, hb]
  exact List.cons_ne_nil _ _

theorem credentialOf_drawn {host : Host} (hd : host.Digests) {epoch bearer : Text} {n : Nat}
    (he : epoch ≠ []) (hn : n ≠ 0) :
    credentialOf (some epoch) (some (verifierFor host.digest bearer)) (some n)
      = some (epoch, verifierFor host.digest bearer, n) := by
  obtain ⟨n, rfl⟩ := Nat.exists_eq_succ_of_ne_zero hn
  rw [credentialOf, orText_of_ne he, orText_of_ne (verifierFor_ne_nil hd bearer)]
  rfl

section

variable {host : Host} {reg : Context} {call : Call} {c : Checked} {id : Text}

variable (host call c id) in
theorem identity_newRecord (grant : Option PolicyGrant) :
    (newRecord host call c grant id).identity =
      (id, some call.epoch, some (verifierFor host.digest (bearerOf call.epoch call.secret)), some 1,
        false, false) := by
  have hfresh : (freshRecord host call c id).identity =
      (id, some call.epoch, some (verifierFor host.digest (bearerOf call.epoch call.secret)), some 1,
        false, false) := rfl
  rw [← hfresh]
  unfold newRecord
  dsimp only
  refine (identity_initializeBootstrapState _).trans ?_
  split
  · refine (identity_withPolicy _).trans ?_
    split <;> rfl
  · split <;> rfl

theorem heldCredential_newRecord (hd : host.Digests) (he : call.epoch ≠ [])
    (grant : Option PolicyGrant) : (newRecord host call c grant id).heldCredential =
      some (call.epoch, verifierFor host.digest (bearerOf call.epoch call.secret), 1) := by
  have hid := identity_newRecord host call c id grant
  simp only [SessionRecord.identity, Prod.mk.injEq] at hid
  obtain ⟨-, hepoch, hverifier, hgeneration, hclosing, -⟩ := hid
  rw [heldCredential_of_open hclosing, SessionRecord.credential, hepoch, hverifier, hgeneration,
    credentialOf_drawn hd he Nat.one_ne_zero]

/-- A name without a record has no entry in the index. -/
theorem Matches.not_indexed (hm : Matches host reg) (hnone : reg.sessions.get? id = none)
    {epoch : Text} {d : Text × Nat} : indexed reg.index epoch ≠ some (id, d) := by
  intro h
  have hdir := (hm.inverts epoch id d).mp h
  rw [directory, hnone] at hdir
  cases hdir

/-- **The registration of a new instance** gives it a credential, or leaves nothing of it. -/
theorem follows_registerNew (hd : host.Digests) (hm : Matches host reg)
    (hnone : reg.sessions.get? id = none) (hid : id ≠ []) (he : call.epoch ≠ [])
    (hfree : ¬Held (directory reg.sessions) call.epoch) :
    Follows host reg (registerNew host reg call c id).1
      [(call.epoch, bearerOf call.epoch call.secret)] := by
  unfold registerNew
  dsimp only
  split
  · exact hm.follows_refl _
  · generalize hr : newRecord host call c (registerGrant host reg call c id) id = r
    have hheld : r.heldCredential =
        some (call.epoch, verifierFor host.digest (bearerOf call.epoch call.secret), 1) := by
      rw [← hr]
      exact heldCredential_newRecord hd he _
    have hname : r.id = id := by
      rw [← hr]
      exact congrArg Prod.fst (identity_newRecord ..)
    have hkey : directory reg.sessions id = none := by
      rw [directory, hnone]
      rfl
    have hissue : indexed (reg.index.issue host.digest id call.epoch call.secret)
        = Function.update (indexed reg.index) call.epoch
          (some (id, verifierFor host.digest (bearerOf call.epoch call.secret), 1)) := indexed_set
    have hinverts := hm.inverts.insert
      (d := (verifierFor host.digest (bearerOf call.epoch call.secret), 1)) hkey hfree
    have hstored : ∀ reg' : Context, reg'.sessions = reg.sessions.set id r →
        reg'.index = reg.index.issue host.digest id call.epoch call.secret →
        reg'.file = serializePersistedSessions host.isDate (reg.sessions.set id r) →
        Follows host reg reg' [(call.epoch, bearerOf call.epoch call.secret)] := by
      intro reg' hsessions hindex hfile
      refine ⟨⟨?_, ?_, ?_⟩, ?_⟩
      · rw [hsessions, hindex, directory_set, hheld, hissue]
        exact hinverts
      · intro k r₁ hk
        rw [hsessions, OrdMap.get?_set] at hk
        split at hk
        · next hkid =>
          cases hk
          rw [hkid]
          exact ⟨hname, hid⟩
        · exact hm.names k r₁ hk
      · rw [hsessions, hfile]
        exact Stored.of_written fun _ _ _ _ => rfl
      · intro k cred hk
        rw [hsessions, directory_set, hheld] at hk
        by_cases hkid : k = id
        · rw [hkid, Function.update_self] at hk
          cases hk
          exact .inr ⟨_, List.mem_singleton_self _, rfl⟩
        · rw [Function.update_of_ne hkid] at hk
          exact .inl ⟨k, hk⟩
    split
    · next hok =>
      refine hstored _ ?_ ?_ ?_ <;> rw [Context.persist, hok] <;> rfl
    · split
      · next hcommitted =>
        refine hstored _ ?_ ?_ ?_ <;> rw [Context.persist, if_pos hcommitted] <;> rfl
      · next hlost =>
        rw [Context.persist, if_neg hlost]
        have hback : directory ((reg.sessions.set id r).delete id) = directory reg.sessions := by
          rw [directory_delete, directory_set, Function.update_idem, ← hkey, Function.update_eq_self]
        refine ⟨⟨?_, ?_, ?_⟩, fun k cred hk => .inl ⟨k, ?_⟩⟩
        · show Inverts (directory ((reg.sessions.set id r).delete id)) _
          rw [hback]
          refine hm.inverts.congr (fun _ => rfl) fun epoch => Option.ext fun ⟨k, d⟩ => ?_
          show indexed (CredentialStore.revoke id
            (reg.index.issue host.digest id call.epoch call.secret)) epoch = some (k, d) ↔ _
          rw [indexed_revoke, hissue]
          by_cases hepoch : epoch = call.epoch
          · rw [hepoch, Function.update_self]
            refine ⟨fun h => absurd (congrArg Prod.fst (Option.some.inj h.1)).symm h.2, fun h => ?_⟩
            exact absurd ⟨k, d, (hm.inverts _ k d).mp h⟩ hfree
          · rw [Function.update_of_ne hepoch]
            refine ⟨And.left, fun h => ⟨h, ?_⟩⟩
            rintro rfl
            exact hm.not_indexed hnone h
        · intro k r₁ hk
          refine hm.names k r₁ ?_
          have hget : ((reg.sessions.set id r).delete id).get? k = some r₁ := hk
          rw [OrdMap.get?_delete] at hget
          split at hget
          · cases hget
          · next hkid =>
            rwa [OrdMap.get?_set, if_neg hkid] at hget
        · exact hm.stored.mono fun k cred hk => by
            show directory ((reg.sessions.set id r).delete id) k = _
            rw [hback, hk]
        · rw [← hback]
          exact hk

end

/-! ## Renaming -/

section

variable {host : Host} {reg : Context} {id : Text} {r : SessionRecord}

theorem validSessionId_ne_nil {t : Text} (h : validSessionId t = true) : t ≠ [] := by
  simp only [validSessionId, Bool.and_eq_true, decide_eq_true_eq] at h
  exact h.1.1

theorem readIdentity_ok {body : Json} {key t : Text} (h : readIdentity body key = .ok t) : t ≠ [] := by
  unfold readIdentity at h
  split at h
  · split at h
    · cases h
    · split at h
      · split at h
        · next hv =>
          cases h
          exact validSessionId_ne_nil hv
        · cases h
      · cases h
  · cases h

/-- **A rename** moves the credential with the record, or leaves everything as it was. -/
theorem follows_renameSession (hm : Matches host reg) (call : RenameCall) :
    Follows host reg (renameSession host reg call).1 [] := by
  unfold renameSession
  split
  · exact hm.follows_refl []
  · next id r hresolved =>
    have hget : reg.sessions.get? id = some r := by
      obtain ⟨k, -, hk⟩ := Option.bind_eq_some_iff.mp hresolved
      obtain ⟨r', hr', heq⟩ := Option.map_eq_some_iff.mp hk
      cases heq
      exact hr'
    split
    · exact hm.follows_refl []
    · split
      · exact hm.follows_refl []
      · next new hnew =>
        split
        · exact hm.follows_refl []
        · next hhas =>
          have hfree : reg.sessions.get? new = none :=
            reg.sessions.has_eq_false_iff.mp (Bool.not_eq_true _ ▸ hhas)
          have hne : new ≠ id := by
            rintro rfl
            rw [hget] at hfree
            cases hfree
          have hmoved : ∀ k, (reg.move id new r).sessions.get? k =
              if k = id then none else if k = new then some { r with id := new }
                else reg.sessions.get? k := by
            intro k
            rw [Context.move, OrdMap.get?_delete, OrdMap.get?_set]
          have hcommitted : ∀ saved : Saved, saved.committed = true →
              Follows host reg (((reg.move id new r).persist host saved).follow id new) [] := by
            intro saved hsaved
            have hdir : ∀ k, directory (reg.move id new r).sessions k =
                if k = new then directory reg.sessions id
                else if k = id then none else directory reg.sessions k := by
              intro k
              rw [directory, hmoved]
              by_cases hk : k = new
              · rw [if_neg (hk ▸ hne), if_pos hk, if_pos hk, directory_of_get? hget]
                rfl
              · rw [if_neg hk, if_neg hk]
                by_cases hkid : k = id
                · rw [if_pos hkid, if_pos hkid]
                  rfl
                · rw [if_neg hkid, if_neg hkid]
                  rfl
            have hnone : directory reg.sessions new = none := by
              rw [directory, hfree]
              rfl
            rw [Context.persist, if_pos hsaved]
            refine ⟨⟨hm.inverts.rename hnone hne hdir fun _ => indexed_rename, ?_,
              Stored.of_written fun _ _ _ _ => rfl⟩, ?_⟩
            · intro k r₁ hk
              have hk' : (reg.move id new r).sessions.get? k = some r₁ := hk
              rw [hmoved] at hk'
              split at hk'
              · cases hk'
              · split at hk'
                · next hkn =>
                  cases hk'
                  rw [hkn]
                  exact ⟨rfl, readIdentity_ok hnew⟩
                · exact hm.names k r₁ hk'
            · intro k c hk
              have hk' : directory (reg.move id new r).sessions k = some c := hk
              rw [hdir] at hk'
              split at hk'
              · exact .inl ⟨id, hk'⟩
              · split at hk'
                · cases hk'
                · exact .inl ⟨k, hk'⟩
          dsimp only
          split
          · next hok => exact hcommitted _ (by rw [hok]; rfl)
          · split
            · next hs => exact hcommitted _ hs
            · next hs =>
              rw [Context.persist, if_neg hs]
              refine (show Reworked host id r reg _ from ?_).follows hm hget []
              refine ⟨⟨{ r with id := id }, ?_, fun k => ?_⟩, rfl, .inl rfl⟩
              · have hname := (hm.names id r hget).1
                simp only [SessionRecord.identity, hname]
              · show (((reg.move id new r).sessions.delete new).set id { r with id := id }).get? k = _
                rw [OrdMap.get?_set, OrdMap.get?_delete, hmoved]
                by_cases hk : k = id
                · rw [if_pos hk, if_pos hk]
                · rw [if_neg hk, if_neg hk, if_neg hk]
                  by_cases hkn : k = new
                  · rw [if_pos hkn, hkn, hfree]
                  · rw [if_neg hkn, if_neg hkn]

end

/-! ## Takeover -/

section

variable {host : Host} {reg : Context} {id : Text} {r : SessionRecord}

/-- A check that has passed. -/
theorem ok_of_ite {ε α : Type} {p : Prop} [Decidable p] {e : ε} {x : Except ε α} {v : α}
    (h : (if p then .error e else x) = .ok v) : ¬p ∧ x = .ok v := by
  by_cases hp : p
  · rw [if_pos hp] at h
    cases h
  · rw [if_neg hp] at h
    exact ⟨hp, h⟩

/-- What the fences of a takeover have found of the record. -/
theorem takeoverChecks_ok {call : TakeoverCall} {principal : Principal.AuthPrincipal}
    {found : Nat × List Json} (h : takeoverChecks host call principal r = .ok found) :
    r.isClosing = false ∧ ∃ n, r.credentialGeneration = some n := by
  obtain ⟨-, h⟩ := ok_of_ite h
  obtain ⟨hopen, h⟩ := ok_of_ite h
  refine ⟨Bool.not_eq_true _ ▸ hopen, ?_⟩
  obtain ⟨-, h⟩ := ok_of_ite h
  obtain ⟨-, h⟩ := ok_of_ite h
  obtain ⟨-, h⟩ := ok_of_ite h
  obtain ⟨-, h⟩ := ok_of_ite h
  obtain ⟨-, h⟩ := ok_of_ite h
  obtain ⟨-, h⟩ := ok_of_ite h
  cases hlease : parseMailboxLease (call.body.field "lease_seconds") with
  | error error =>
    rw [hlease] at h
    cases h
  | ok lease =>
    rw [hlease] at h
    obtain ⟨hs, -⟩ := ok_of_ite h
    cases hg : r.credentialGeneration with
    | some n => exact ⟨n, rfl⟩
    | none => exact absurd (by rw [supersedable, hg, Option.any_none, Bool.and_false]; rfl) hs

/-- A record with a credential is adopted under its epoch. -/
theorem adopt_credential {index : CredentialStore} (hid : id ≠ []) {epoch verifier : Option Text}
    {generation : Option Nat} {e v : Text} {n : Nat}
    (h : credentialOf epoch verifier generation = some (e, v, n)) :
    index.adopt id (orText epoch none) (orText verifier none) (generationOrOne generation)
      = index.set e ⟨id, v, n⟩ := by
  unfold credentialOf at h
  split at h
  · next e' v' he hv =>
    cases h
    rw [he, hv, CredentialStore.adopt, if_neg hid]
  · cases h

/-- **A takeover** gives the session a credential that supersedes the one it had. -/
theorem follows_takeover (hd : host.Digests) (hm : Matches host reg) {call : TakeoverCall}
    (he : call.epoch ≠ []) (hfree : ¬Held (directory reg.sessions) call.epoch) :
    Follows host reg (takeover host reg call).1
      [(call.epoch, bearerOf call.epoch call.secret)] := by
  unfold takeover
  split
  · exact hm.follows_refl _
  split
  · exact hm.follows_refl _
  next r hget =>
    split
    · exact hm.follows_refl _
    next lease history hchecks =>
      obtain ⟨hopen, n, hgeneration⟩ := takeoverChecks_ok hchecks
      split
      · exact hm.follows_refl _
      split
      · exact hm.follows_refl _
      split
      · exact hm.follows_refl _
      dsimp only
      split
      · next hcommitted =>
        generalize htaken : takenOver host call lease history _ r = taken
        have hcred : taken.credential = some (call.epoch,
            verifierFor host.digest (bearerOf call.epoch call.secret), n + 1) := by
          rw [← htaken, SessionRecord.credential, takenOver, hgeneration]
          exact credentialOf_drawn hd he (Nat.succ_ne_zero n)
        have hheld : taken.heldCredential = some (call.epoch,
            verifierFor host.digest (bearerOf call.epoch call.secret), n + 1) := by
          rw [heldCredential_of_open (by rw [← htaken]; exact hopen), hcred]
        have hname : taken.id = call.id := by
          rw [← htaken]
          exact (hm.names _ _ hget).1
        have hid : call.id ≠ [] := (hm.names _ _ hget).2
        have hopen' : taken.isClosing = false := by
          rw [← htaken]
          exact hopen
        rw [Context.persist, if_pos hcommitted]
        -- the index entry of the predecessor goes, that of the successor comes
        have hdropped : Inverts (Function.update (directory reg.sessions) call.id none)
            (indexed (reg.index.revoke call.id)) :=
          hm.inverts.drop rfl fun _ _ _ => indexed_revoke
        have hfree' : ¬Held (Function.update (directory reg.sessions) call.id none) call.epoch := by
          rintro ⟨k, d, hk⟩
          by_cases hkid : k = call.id
          · rw [hkid, Function.update_self] at hk
            cases hk
          · rw [Function.update_of_ne hkid] at hk
            exact hfree ⟨k, d, hk⟩
        have hadopt : indexed ((reg.put call.id taken).reissue call.id call.nonce taken).index
            = Function.update (indexed (reg.index.revoke call.id)) call.epoch (some (call.id,
              verifierFor host.digest (bearerOf call.epoch call.secret), n + 1)) := by
          rw [Context.reissue, adopt_credential hid hcred]
          exact indexed_set
        have hdir : directory (reg.sessions.set call.id taken)
            = Function.update (Function.update (directory reg.sessions) call.id none) call.id
              (some (call.epoch, verifierFor host.digest (bearerOf call.epoch call.secret), n + 1)) := by
          rw [Function.update_idem, directory_set, hheld]
        refine ⟨⟨?_, ?_, ?_⟩, ?_⟩
        · show Inverts (directory (reg.sessions.set call.id taken)) (indexed
            ((reg.put call.id taken).reissue call.id call.nonce taken).index)
          rw [hdir, hadopt]
          exact hdropped.insert (Function.update_self _ _ _) hfree'
        · intro k r₁ hk
          have hk' : (reg.sessions.set call.id taken).get? k = some r₁ := hk
          rw [OrdMap.get?_set] at hk'
          split at hk'
          · next hkid =>
            cases hk'
            rw [hkid]
            exact ⟨hname, hid⟩
          · exact hm.names k r₁ hk'
        · exact Stored.of_written fun _ _ _ _ => rfl
        · intro k c hk
          have hk' : directory (reg.sessions.set call.id taken) k = some c := hk
          rw [directory_set, hheld] at hk'
          by_cases hkid : k = call.id
          · rw [hkid, Function.update_self] at hk'
            cases hk'
            exact .inr ⟨_, List.mem_singleton_self _, rfl⟩
          · rw [Function.update_of_ne hkid] at hk'
            exact .inl ⟨k, hk'⟩
      · exact hm.follows_refl _

end

/-! ## Destroying -/

section

variable {host : Host} {reg : Context} {id : Text} {r : SessionRecord}

variable (id) in
/-- A session of no credential any more, and whose entry is gone. -/
theorem Matches.follows_revoke (hm : Matches host reg) {reg' : Context}
    (hdir : directory reg'.sessions = Function.update (directory reg.sessions) id none)
    (hindex : reg'.index = reg.index.revoke id)
    (hnames : ∀ k r, reg'.sessions.get? k = some r → r.id = k ∧ k ≠ [])
    (hstored : Stored host reg'.sessions reg'.file) : Follows host reg reg' [] := by
  refine ⟨⟨?_, hnames, hstored⟩, fun k c hk => ?_⟩
  · rw [hdir, hindex]
    exact hm.inverts.drop rfl fun _ _ _ => indexed_revoke
  · rw [hdir] at hk
    by_cases hkid : k = id
    · rw [hkid, Function.update_self] at hk
      cases hk
    · rw [Function.update_of_ne hkid] at hk
      exact .inl ⟨k, hk⟩

/-- A record that is open is not the one that was just marked as closing. -/
theorem ne_of_closing {k : Text} {r₁ : SessionRecord}
    (hk : (reg.put id { r with isClosing := true }).sessions.get? k = some r₁)
    (hclosing : r₁.isClosing = false) : k ≠ id := by
  rintro rfl
  rw [Context.put, OrdMap.get?_set, if_pos rfl] at hk
  cases hk
  cases hclosing

/-- **A close** takes the credential of the session away once it is durable. -/
theorem follows_close (hm : Matches host reg) (hget : reg.sessions.get? id = some r)
    (acknowledged : Bool) (saved : Saved) :
    Follows host reg (beginDurableSessionClose host acknowledged saved id r reg).1 [] := by
  have hname := hm.names id r hget
  unfold beginDurableSessionClose
  split
  · exact hm.follows_refl []
  split
  · exact hm.follows_refl []
  next hopen =>
    dsimp only
    split
    · next hok =>
      rw [hok]
      refine hm.follows_revoke id ?_ rfl ?_ ?_
      · show directory ((reg.sessions.set id { r with isClosing := true }).set id
          { r with isClosing := true, closeDurabilityPending := false }) = _
        rw [directory_set, directory_set, Function.update_idem]
        rfl
      · intro k r₁ hk
        have hk' : ((reg.sessions.set id { r with isClosing := true }).set id
          { r with isClosing := true, closeDurabilityPending := false }).get? k = some r₁ := hk
        rw [OrdMap.get?_set, OrdMap.get?_set] at hk'
        split at hk'
        · next hkid =>
          cases hk'
          rw [hkid]
          exact hname
        · exact hm.names k r₁ hk'
      · refine Stored.of_written fun k r₁ hk hclosing => ?_
        have hkid := ne_of_closing hk hclosing
        show directory ((reg.sessions.set id { r with isClosing := true }).set id
          { r with isClosing := true, closeDurabilityPending := false }) k = _
        rw [directory_set, Function.update_of_ne hkid]
        rfl
    · split
      · exact hm.follows_refl []
      · have hlive : r.live = true := by
          simp only [SessionRecord.live]
          cases hc : r.isClosing <;> cases hp : r.closeDurabilityPending <;> simp_all
        have hheld : ({ r with isClosing := true, closeDurabilityPending := true } :
            SessionRecord).heldCredential = r.heldCredential := by
          rw [SessionRecord.heldCredential, SessionRecord.heldCredential, hlive]
          rfl
        have hdir : directory ((reg.sessions.set id { r with isClosing := true }).set id
            { r with isClosing := true, closeDurabilityPending := true }) = directory reg.sessions := by
          rw [directory_set, directory_set, Function.update_idem, hheld, ← directory_of_get? hget,
            Function.update_eq_self]
        have hsessions : ((((reg.put id { r with isClosing := true }).persist host saved).put id
            { r with isClosing := true, closeDurabilityPending := true }).sessions)
            = (reg.sessions.set id { r with isClosing := true }).set id
              { r with isClosing := true, closeDurabilityPending := true } := by
          unfold Context.persist
          split <;> rfl
        have hindex : ((((reg.put id { r with isClosing := true }).persist host saved).put id
            { r with isClosing := true, closeDurabilityPending := true }).index) = reg.index := by
          unfold Context.persist
          split <;> rfl
        refine ⟨⟨?_, ?_, ?_⟩, fun k c hk => .inl ⟨k, ?_⟩⟩
        · rw [hsessions, hindex, hdir]
          exact hm.inverts
        · intro k r₁ hk
          rw [hsessions, OrdMap.get?_set, OrdMap.get?_set] at hk
          split at hk
          · next hkid =>
            cases hk
            rw [hkid]
            exact hname
          · exact hm.names k r₁ hk
        · rw [hsessions]
          refine Stored.persist (fun _ => hm.stored.mono fun k c hk => by rw [hdir, hk]) fun _ => ?_
          refine Stored.of_written fun k r₁ hk hclosing => ?_
          rw [hdir, show (reg.put id { r with isClosing := true }).sessions
            = reg.sessions.set id { r with isClosing := true } from rfl, directory_set,
            Function.update_of_ne (ne_of_closing hk hclosing)]
        · rw [hsessions, hdir] at hk
          exact hk

/-- What is deleted keeps the names of the others. -/
theorem names_delete (hm : Matches host reg) (k : Text) (r₁ : SessionRecord)
    (hk : (reg.sessions.delete id).get? k = some r₁) : r₁.id = k ∧ k ≠ [] := by
  rw [OrdMap.get?_delete] at hk
  split at hk
  · cases hk
  · exact hm.names k r₁ hk

/-- The end of a teardown removes a record that held nothing any more. -/
theorem follows_removeClosed (hm : Matches host reg) (id : Text) :
    Follows host reg (removeClosed id reg) [] := by
  unfold removeClosed
  split
  · next r hget =>
    split
    · next hclosed =>
      have hnone : directory reg.sessions id = none := by
        rw [directory_of_get? hget, SessionRecord.heldCredential, SessionRecord.live]
        rw [Bool.and_eq_true, Bool.not_eq_true'] at hclosed
        rw [hclosed.1, hclosed.2]
        rfl
      have hdir : directory (reg.sessions.delete id) = directory reg.sessions := by
        rw [directory_delete, ← hnone, Function.update_eq_self]
      refine ⟨⟨?_, names_delete hm, ?_⟩, fun k c hk => .inl ⟨k, ?_⟩⟩
      · show Inverts (directory (reg.sessions.delete id)) _
        rw [hdir]
        exact hm.inverts
      · exact hm.stored.mono fun k c hk => by
          show directory (reg.sessions.delete id) k = _
          rw [hdir, hk]
      · rw [← hdir]
        exact hk
    · exact hm.follows_refl []
  · exact hm.follows_refl []

/-- **The removal of a stale session** is committed and takes its credential away, or is undone. -/
theorem follows_collectStale (hm : Matches host reg) (saved : Saved) (id : Text) :
    Follows host reg (collectStale host saved id reg) [] := by
  unfold collectStale
  split
  · next r hget =>
    split
    · dsimp only
      split
      · next hcommitted =>
        rw [Context.persist, if_pos hcommitted]
        exact hm.follows_revoke id directory_delete rfl (names_delete hm)
          (Stored.of_written fun _ _ _ _ => rfl)
      · next hlost =>
        rw [Context.persist, if_neg hlost]
        refine (show Reworked host id r reg _ from ?_).follows hm hget []
        refine ⟨⟨r, rfl, fun k => ?_⟩, rfl, .inl rfl⟩
        show ((reg.sessions.delete id).set id r).get? k = _
        rw [OrdMap.get?_set, OrdMap.get?_delete]
        by_cases hk : k = id
        · rw [if_pos hk, if_pos hk]
        · rw [if_neg hk, if_neg hk, if_neg hk]
    · exact hm.follows_refl []
  · exact hm.follows_refl []

end

/-! ## Restarting -/

section

variable {host : Host} {reg : Context} {id nowIso : Text} {r : SessionRecord}

/-- The credential of an entry is that of the record. -/
theorem credential_persistedEntry (isDate : Text → Bool) (id : Text) (r : SessionRecord) :
    textAt (persistedEntry isDate id r) "sessionEpoch" = r.credential.map (·.1) ∧
      textAt (persistedEntry isDate id r) "credentialVerifier" = r.credential.map (·.2.1) ∧
      natAt (persistedEntry isDate id r) "credentialGeneration" = r.credential.map (·.2.2) :=
  ⟨textAt_map (fun _ hc => (credentialOf_spec hc).1) (field_state isDate id r 13 rfl),
    textAt_map (fun _ hc => (credentialOf_spec hc).2.1) (field_state isDate id r 14 rfl),
    natAt_num (field_state isDate id r 15 rfl)⟩

theorem buildRestored_not_restorable {isDate : Text → Bool} {cwd : Text}
    (h : r.restorable = false) :
    buildRestoredWrappedSession isDate cwd nowIso id (persistedEntry isDate id r) = none := by
  have htype : isTextIn ["wrapped", "mailbox"] ((persistedEntry isDate id r).field "type") = false := by
    rw [field_identity isDate id r 4 rfl, isTextIn_pair]
    exact h
  unfold buildRestoredWrappedSession
  rw [if_pos htype]

theorem heldCredential_restored : (initializeBootstrapState nowIso
    (restoredRecord host.isDate host.cwd nowIso id r)).heldCredential = r.credential := by
  rw [heldCredential_of_identity (identity_initializeBootstrapState nowIso),
    heldCredential_of_open rfl]
  exact credentialOf_self rfl

/-- An entry that is restored: its record is there, and its credential adopted. -/
theorem restoreEntry_cases (host : Host) (nowIso : Text) (reg : Context) (id : Text)
    (r : SessionRecord) :
    let reg' := restoreEntry host nowIso reg (id, persistedEntry host.isDate id r)
    (isSafeRegisteredSessionId id = true ∧ r.restorable = true ∧ reg'.file = reg.file ∧
      reg'.sessions = reg.sessions.set id (initializeBootstrapState nowIso
        (restoredRecord host.isDate host.cwd nowIso id r)) ∧
      reg'.index = match r.credential with
        | some (e, v, n) => reg.index.set e ⟨id, v, n⟩
        | none => reg.index) ∨
    ((isSafeRegisteredSessionId id = true → r.restorable = false) ∧ reg' = reg) := by
  obtain ⟨hepoch, hverifier, hgeneration⟩ := credential_persistedEntry host.isDate id r
  dsimp only
  unfold restoreEntry
  dsimp only
  cases hsafe : isSafeRegisteredSessionId id with
  | false => exact .inr ⟨nofun, rfl⟩
  | true =>
    cases hres : r.restorable with
    | false =>
      rw [buildRestored_not_restorable hres]
      exact .inr ⟨fun _ => rfl, rfl⟩
    | true =>
      rw [buildRestored_persistedEntry hres, hepoch, hverifier, hgeneration]
      refine .inl ⟨rfl, rfl, rfl, rfl, ?_⟩
      have hid : id ≠ [] := by
        rintro rfl
        exact absurd hsafe (by decide)
      cases hc : r.credential with
      | none => rfl
      | some c =>
        obtain ⟨e, v, n⟩ := c
        obtain ⟨-, -, hn⟩ := credentialOf_spec hc
        obtain ⟨n, rfl⟩ := Nat.exists_eq_succ_of_ne_zero hn
        exact if_neg hid

/-- The start of the daemon, over the entries of records. -/
def restoreRows (host : Host) (nowIso : Text) (reg : Context) (rows : List (Text × SessionRecord)) :
    Context :=
  rows.foldl (fun reg row =>
    restoreEntry host nowIso reg (row.1, persistedEntry host.isDate row.1 row.2)) reg

/-- The context matches as far as it goes: what it holds, the predecessor `f` held under the same
name. -/
structure Partly (f : Text → Option (Text × Text × Nat)) (reg : Context) : Prop where
  inverts : Inverts (directory reg.sessions) (indexed reg.index)
  names : ∀ id r, reg.sessions.get? id = some r → r.id = id ∧ id ≠ []
  source : ∀ id c, directory reg.sessions id = some c → f id = some c

theorem partly_restoreEntry (host : Host) (nowIso : Text)
    {f g : Text → Option (Text × Text × Nat)} (hold : Inverts f g)
    (h : Partly f reg) (hnone : reg.sessions.get? id = none)
    (hsource : isSafeRegisteredSessionId id = true → r.restorable = true →
      ∀ c, r.credential = some c → f id = some c) :
    Partly f (restoreEntry host nowIso reg (id, persistedEntry host.isDate id r)) := by
  rcases restoreEntry_cases host nowIso reg id r with ⟨hsafe, hres, -, hsessions, hindex⟩ | ⟨-, heq⟩
  · have hkey : directory reg.sessions id = none := by
      rw [directory, hnone]
      rfl
    have hid : id ≠ [] := by
      rintro rfl
      exact absurd hsafe (by decide)
    refine ⟨?_, ?_, ?_⟩
    · rw [hsessions, hindex, directory_set, heldCredential_restored]
      cases hc : r.credential with
      | none =>
        have hsame : Function.update (directory reg.sessions) id none = directory reg.sessions := by
          rw [← hkey, Function.update_eq_self]
        rw [hsame]
        exact h.inverts
      | some c =>
        obtain ⟨e, v, n⟩ := c
        dsimp only
        rw [indexed_set]
        refine h.inverts.insert hkey ?_
        rintro ⟨k, d, hk⟩
        obtain ⟨rfl, -⟩ := hold.key_unique (h.source k _ hk) (hsource hsafe hres _ hc)
        rw [hkey] at hk
        cases hk
    · intro k r₁ hk
      rw [hsessions, OrdMap.get?_set] at hk
      split at hk
      · next hkid =>
        cases hk
        rw [hkid]
        refine ⟨?_, hid⟩
        exact congrArg Prod.fst (identity_initializeBootstrapState nowIso)
      · exact h.names k r₁ hk
    · intro k c hk
      rw [hsessions, directory_set, heldCredential_restored] at hk
      by_cases hkid : k = id
      · rw [hkid, Function.update_self] at hk
        rw [hkid]
        exact hsource hsafe hres c hk
      · rw [Function.update_of_ne hkid] at hk
        exact h.source k c hk
  · rw [heq]
    exact h

/-- An entry touches no other name, and restores the credential of its own. -/
theorem directory_restoreEntry (host : Host) (nowIso : Text) (reg : Context) (id : Text)
    (r : SessionRecord) :
    let reg' := restoreEntry host nowIso reg (id, persistedEntry host.isDate id r)
    reg'.file = reg.file ∧ (∀ k, k ≠ id → reg'.sessions.get? k = reg.sessions.get? k) ∧
      (isSafeRegisteredSessionId id = true → r.restorable = true →
        directory reg'.sessions id = r.credential) := by
  dsimp only
  rcases restoreEntry_cases host nowIso reg id r with ⟨-, -, hfile, hsessions, -⟩ | ⟨hno, heq⟩
  · refine ⟨hfile, fun k hk => ?_, fun _ _ => ?_⟩
    · rw [hsessions, OrdMap.get?_set, if_neg hk]
    · rw [hsessions, directory_set, Function.update_self, heldCredential_restored]
  · refine ⟨by rw [heq], fun k _ => by rw [heq], fun hsafe hres => ?_⟩
    rw [hno hsafe] at hres
    cases hres

variable (nowIso) in
/-- **The start of the daemon** restores the credentials of the store, and of no other record. -/
theorem partly_restoreRows {f g : Text → Option (Text × Text × Nat)} (hold : Inverts f g)
    {rows : List (Text × SessionRecord)} (hnodup : (rows.map Prod.fst).Nodup)
    (hsource : ∀ row ∈ rows, isSafeRegisteredSessionId row.1 = true → row.2.restorable = true →
      ∀ c, row.2.credential = some c → f row.1 = some c)
    (h : Partly f reg) (hnew : ∀ row ∈ rows, reg.sessions.get? row.1 = none) :
    Partly f (restoreRows host nowIso reg rows) ∧
      (restoreRows host nowIso reg rows).file = reg.file ∧
      (∀ k, k ∉ rows.map Prod.fst →
        (restoreRows host nowIso reg rows).sessions.get? k = reg.sessions.get? k) ∧
      ∀ row ∈ rows, isSafeRegisteredSessionId row.1 = true → row.2.restorable = true →
        directory (restoreRows host nowIso reg rows).sessions row.1 = row.2.credential := by
  induction rows generalizing reg with
  | nil => exact ⟨h, rfl, fun _ _ => rfl, fun _ hrow => absurd hrow List.not_mem_nil⟩
  | cons row rows ih =>
    obtain ⟨id, r⟩ := row
    rw [List.map_cons, List.nodup_cons] at hnodup
    have hnone : reg.sessions.get? id = none := hnew _ List.mem_cons_self
    have hstep := partly_restoreEntry host nowIso hold h hnone
      (hsource _ List.mem_cons_self)
    obtain ⟨hfile, hothers, hown⟩ := directory_restoreEntry host nowIso reg id r
    generalize hreg₁ : restoreEntry host nowIso reg (id, persistedEntry host.isDate id r) = reg₁
      at hstep hfile hothers hown
    have hne : ∀ row ∈ rows, row.1 ≠ id := by
      rintro row hrow rfl
      exact hnodup.1 (List.mem_map.mpr ⟨row, hrow, rfl⟩)
    obtain ⟨hpartly, hfile', hothers', hrows⟩ := ih hnodup.2
      (fun row hrow => hsource row (List.mem_cons_of_mem _ hrow)) hstep
      fun row hrow => by rw [hothers _ (hne row hrow), hnew row (List.mem_cons_of_mem _ hrow)]
    have hcons : restoreRows host nowIso reg ((id, r) :: rows) = restoreRows host nowIso reg₁ rows := by
      rw [← hreg₁]
      rfl
    rw [hcons]
    refine ⟨hpartly, hfile'.trans hfile, fun k hk => ?_, fun row hrow hsafe hres => ?_⟩
    · rw [List.map_cons, List.mem_cons, not_or] at hk
      rw [hothers' k hk.2, hothers k hk.1]
    · rcases List.mem_cons.mp hrow with rfl | hrow
      · rw [directory, hothers' _ hnodup.1]
        exact hown hsafe hres
      · exact hrows row hrow hsafe hres

/-- **A restart** restores credentials of live records only. -/
theorem follows_restart (hm : Matches host reg) (now : Nat) :
    Follows host reg (restart host now reg) [] := by
  obtain ⟨written, hfile, hwritten⟩ := hm.stored
  let rows := written.entries.filter fun e => !e.2.isClosing
  have hopen : ∀ row ∈ rows, written.get? row.1 = some row.2 ∧ row.2.isClosing = false := by
    intro row hrow
    obtain ⟨hmem, hc⟩ := List.mem_filter.mp hrow
    exact ⟨written.mem_entries_iff.mp hmem, by simpa using hc⟩
  have hrestart : restart host now reg
      = restoreRows host (host.isoText now) { Context.started with file := reg.file } rows := by
    unfold restart restoreRows
    rw [hfile, serializePersistedSessions]
    dsimp only
    rw [List.foldl_map]
  have hnodup : (rows.map Prod.fst).Nodup :=
    (List.filter_sublist.map Prod.fst).nodup written.nodup
  have hstart : Partly (directory reg.sessions) { Context.started with file := reg.file } :=
    ⟨Inverts.empty, (fun _ _ h => by cases h), (fun _ _ h => by cases h)⟩
  obtain ⟨hpartly, hfile', -, hrows⟩ := partly_restoreRows (host.isoText now) hm.inverts
    hnodup (fun row hrow hsafe hres c hc =>
      hwritten _ _ c (hopen row hrow).1 (hopen row hrow).2 hres hsafe hc) hstart fun _ _ => rfl
  rw [hrestart]
  refine ⟨⟨hpartly.inverts, hpartly.names, written, ?_, ?_⟩, fun id c hc => .inl ⟨id, hpartly.source id c hc⟩⟩
  · rw [hfile']
    exact hfile
  · intro id r c hget hclosing hres hsafe hc
    have hrow : (id, r) ∈ rows :=
      List.mem_filter.mpr ⟨written.mem_entries_iff.mpr hget, by rw [hclosing]; rfl⟩
    rw [hrows _ hrow hsafe hres, hc]

end

/-! ## Runs -/

section

variable {host : Host}

theorem matches_started (host : Host) : Matches host .started :=
  ⟨Inverts.empty, (fun _ _ h => by cases h), .empty, rfl, fun _ _ _ h => by cases h⟩

/-- **Every event** leaves a context that matches. -/
theorem follows_apply (hd : host.Digests) {reg : Context} (hm : Matches host reg) (e : Event)
    (hdrawn : ∀ x ∈ e.draws, x.1 ≠ [] ∧ ¬Held (directory reg.sessions) x.1) :
    Follows host reg (e.apply host reg) e.draws := by
  cases e with
  | register call =>
    obtain ⟨he, hfree⟩ := hdrawn _ (List.mem_singleton_self _)
    show Follows host reg (register host reg call).1 _
    unfold register
    split
    · exact hm.follows_refl _
    next id hid =>
      split
      · exact hm.follows_refl _
      split
      · next r hget => exact (reworked_reregister hget).follows hm hget _
      · next hnone => exact follows_registerNew hd hm hnone (readIdentity_ok hid) he hfree
  | rename call => exact follows_renameSession hm call
  | takeover call =>
    obtain ⟨he, hfree⟩ := hdrawn _ (List.mem_singleton_self _)
    exact follows_takeover hd hm he hfree
  | close id acknowledged saved =>
    show Follows host reg (match reg.sessions.get? id with
      | some r => (beginDurableSessionClose host acknowledged saved id r reg).1
      | none => reg) []
    split
    · next r hget => exact follows_close hm hget acknowledged saved
    · exact hm.follows_refl []
  | remove id => exact follows_removeClosed hm id
  | collect id saved => exact follows_collectStale hm saved id
  | restart now => exact follows_restart hm now

/-- What holds of the daemon at every moment of a run. -/
structure Daemon.Sound (host : Host) (d : Daemon) : Prop extends Matches host d.reg where
  issued : ∀ id e v n, directory d.reg.sessions id = some (e, v, n) →
    ∃ b, (e, b) ∈ d.drawn ∧ v = verifierFor host.digest b
  gone : ∀ e ∈ d.gone, e ∈ d.drawn.map Prod.fst ∧ ¬Held (directory d.reg.sessions) e
  bearers : ∀ x ∈ d.drawn, splitBearer x.2 = some x.1
  complete : ∀ e ∈ d.drawn.map Prod.fst, ¬Held (directory d.reg.sessions) e → e ∈ d.gone

theorem sound_step (hd : host.Digests) {d : Daemon} (h : d.Sound host) {e : Event}
    (hfresh : Fresh d e) : (d.step host e).Sound host := by
  have hfree : ∀ x ∈ e.draws, x.1 ≠ [] ∧ ¬Held (directory d.reg.sessions) x.1 := by
    intro x hx
    refine ⟨(hfresh x hx).2.1, ?_⟩
    rintro ⟨id, ⟨v, n⟩, hid⟩
    obtain ⟨b, hb, -⟩ := h.issued id _ v n hid
    exact (hfresh x hx).1 (List.mem_map.mpr ⟨_, hb, rfl⟩)
  have hf := follows_apply hd h.toMatches e hfree
  refine ⟨hf.toMatches, ?_, ?_, ?_, ?_⟩
  · intro id epoch v n hid
    rcases hf.origin id _ hid with ⟨id₀, hid₀⟩ | ⟨b, hb, hv⟩
    · obtain ⟨b, hb, hv⟩ := h.issued id₀ epoch v n hid₀
      exact ⟨b, List.mem_append_left _ hb, hv⟩
    · exact ⟨b, List.mem_append_right _ hb, hv⟩
  · intro epoch hepoch
    rcases List.mem_append.mp hepoch with hold | hnew
    · obtain ⟨hdrawn, hnot⟩ := h.gone epoch hold
      refine ⟨by rw [show (d.step host e).drawn = d.drawn ++ e.draws from rfl, List.map_append]
                 exact List.mem_append_left _ hdrawn, ?_⟩
      -- an epoch that is gone is neither held before nor drawn now
      rintro ⟨id, c, hc⟩
      rcases hf.origin id _ hc with ⟨id₀, hid₀⟩ | ⟨b, hb, -⟩
      · exact hnot ⟨id₀, c, hid₀⟩
      · exact (hfresh _ hb).1 hdrawn
    · obtain ⟨hdrawn, hnot⟩ := List.mem_filter.mp hnew
      refine ⟨hdrawn, fun hheld => ?_⟩
      rw [show heldEpoch (e.apply host d.reg).sessions epoch = true from
        heldEpoch_iff.mpr hheld] at hnot
      cases hnot
  · intro x hx
    rcases List.mem_append.mp hx with hold | hnew
    · exact h.bearers x hold
    · obtain ⟨-, hne, hdot, secret, hs, hb⟩ := hfresh x hnew
      rw [hb]
      exact splitBearer_bearerOf hne hdot hs
  · intro epoch hdrawn hnot
    refine List.mem_append_right _ (List.mem_filter.mpr ⟨hdrawn, ?_⟩)
    rw [Bool.not_eq_true', ← Bool.not_eq_true, heldEpoch_iff]
    exact hnot

theorem sound_run (hd : host.Digests) {d : Daemon} (h : d.Sound host) {events : List Event}
    (hfresh : RunFresh host d events) : (d.run host events).Sound host := by
  induction events generalizing d with
  | nil => exact h
  | cons e events ih => exact ih (sound_step hd h hfresh.1) hfresh.2

theorem sound_started (host : Host) : Daemon.started.Sound host :=
  ⟨matches_started host, (fun _ _ _ _ h => by cases h), nofun, nofun, nofun⟩

theorem run_append (d : Daemon) (pre post : List Event) :
    d.run host (pre ++ post) = (d.run host pre).run host post := List.foldl_append

/-- What is gone stays gone. -/
theorem gone_run {d : Daemon} {events : List Event} {e : Text} (h : e ∈ d.gone) :
    e ∈ (d.run host events).gone := by
  induction events generalizing d with
  | nil => exact h
  | cons event events ih => exact ih (List.mem_append_left _ h)

theorem drawn_run {d : Daemon} {events : List Event} {x : Text × Text} (h : x ∈ d.drawn) :
    x ∈ (d.run host events).drawn := by
  induction events generalizing d with
  | nil => exact h
  | cons event events ih => exact ih (List.mem_append_left _ h)

theorem runFresh_append {d : Daemon} {pre post : List Event} (h : RunFresh host d (pre ++ post)) :
    RunFresh host d pre := by
  induction pre generalizing d with
  | nil => trivial
  | cons e pre ih => exact ⟨h.1, ih h.2⟩

/-- A live record of a daemon has its entry, and no other entry bears its name. -/
theorem Matches.entry {reg : Context} (hm : Matches host reg) {id e v : Text} {n : Nat}
    {r : SessionRecord} (hget : reg.sessions.get? id = some r) (hlive : r.live = true)
    (hc : r.credential = some (e, v, n)) :
    reg.index.get? e = some ⟨id, v, n⟩ ∧
      ∀ e' x, reg.index.get? e' = some x → x.sid = id → e' = e := by
  have hheld : directory reg.sessions id = some (e, v, n) := by
    rw [directory_of_get? hget, SessionRecord.heldCredential, if_pos hlive, hc]
  have hentry := (hm.inverts e id (v, n)).mpr hheld
  constructor
  · obtain ⟨⟨sid, verifier, generation⟩, hx, heq⟩ := Option.map_eq_some_iff.mp hentry
    cases heq
    exact hx
  · intro e' x hx hsid
    have hx' : indexed reg.index e' = some (id, x.verifier, x.generation) := by
      rw [indexed, hx, ← hsid]
      rfl
    exact (hm.inverts.entry_unique hx' hentry).1

/-- A bearer that verifies is the one that was drawn for a live record, and speaks for it as it is
now. -/
theorem Daemon.Sound.verified (hd : host.Digests) {d : Daemon} (h : d.Sound host) {b : Text}
    {p : Bearer} (hp : d.reg.index.verify host.digest (some b) = some p) :
    (p.epoch, b) ∈ d.drawn ∧ ∃ r v, d.reg.sessions.get? p.sid = some r ∧ r.live = true ∧
      r.id = p.sid ∧ r.credential = some (p.epoch, v, p.generation) := by
  obtain ⟨b', x, hb', -, hx, hmatch, hsid, hgeneration⟩ := CredentialStore.verify_some hp
  cases hb'
  have hentry : indexed d.reg.index p.epoch = some (p.sid, x.verifier, p.generation) := by
    rw [indexed, hx, hsid, hgeneration]
    rfl
  have hheld := (h.inverts p.epoch p.sid (x.verifier, p.generation)).mp hentry
  obtain ⟨b₀, hb₀, hv⟩ := h.issued _ _ _ _ hheld
  rw [hv] at hmatch
  have hsame : b₀ = b := verifierMatches_verifierFor hd.injective hmatch
  rw [hsame] at hb₀
  obtain ⟨r, hget, hcred⟩ := Option.bind_eq_some_iff.mp hheld
  have hlive : r.live = true ∧ r.credential = some (p.epoch, x.verifier, p.generation) := by
    unfold SessionRecord.heldCredential at hcred
    split at hcred
    · next hl => exact ⟨hl, hcred⟩
    · cases hcred
  exact ⟨hb₀, r, x.verifier, hget, hlive.1, (h.names _ _ hget).1, hlive.2⟩

/-- A bearer whose instance is gone does not verify. -/
theorem Daemon.Sound.refused {d : Daemon} (h : d.Sound host) {e b : Text} (he : e ∈ d.gone)
    (hb : (e, b) ∈ d.drawn) : d.reg.index.verify host.digest (some b) = none := by
  cases hp : d.reg.index.verify host.digest (some b) with
  | none => rfl
  | some p =>
    obtain ⟨b', x, hb', hsplit, hx, -, -, -⟩ := CredentialStore.verify_some hp
    cases hb'
    rw [h.bearers _ hb] at hsplit
    have hepoch : e = p.epoch := Option.some.inj hsplit
    have hnone := h.inverts.eq_none_iff.mpr (h.gone e he).2
    rw [indexed, hepoch, hx] at hnone
    cases hnone

/-- **The credential index matches the session records.** After every run of registrations,
re-registrations, renames, takeovers, destructions and restarts, however their writes end: a live
record has exactly one entry, its own; a bearer that verifies was drawn for a live record and speaks
for it; and once no live record holds the epoch of a bearer, it never verifies again. -/
theorem index_matches (hd : host.Digests) {events : List Event}
    (hfresh : RunFresh host .started events) :
    let d := Daemon.started.run host events
    (∀ id r e v n, d.reg.sessions.get? id = some r → r.live = true →
      r.credential = some (e, v, n) →
      d.reg.index.get? e = some ⟨id, v, n⟩ ∧
        ∀ e' x, d.reg.index.get? e' = some x → x.sid = id → e' = e) ∧
    (∀ b p, d.reg.index.verify host.digest (some b) = some p →
      (p.epoch, b) ∈ d.drawn ∧ ∃ r v, d.reg.sessions.get? p.sid = some r ∧ r.live = true ∧
        r.id = p.sid ∧ r.credential = some (p.epoch, v, p.generation)) ∧
    ∀ pre post, events = pre ++ post → ∀ e b, (e, b) ∈ (Daemon.started.run host pre).drawn →
      (∀ id r, (Daemon.started.run host pre).reg.sessions.get? id = some r → r.live = true →
        ∀ c, r.credential = some c → c.1 ≠ e) →
      d.reg.index.verify host.digest (some b) = none := by
  have hsound := sound_run hd (sound_started host) hfresh
  refine ⟨fun id r e v n hget hlive hc => hsound.toMatches.entry hget hlive hc,
    fun b p hp => hsound.verified hd hp, ?_⟩
  rintro pre post rfl e b hdrawn hnone
  have hpre := sound_run hd (sound_started host) (runFresh_append hfresh)
  have hgone : e ∈ (Daemon.started.run host pre).gone := by
    refine hpre.complete e (List.mem_map.mpr ⟨_, hdrawn, rfl⟩) ?_
    rintro ⟨id, c, hid⟩
    obtain ⟨r, hget, hcred⟩ := Option.bind_eq_some_iff.mp hid
    unfold SessionRecord.heldCredential at hcred
    split at hcred
    · next hlive => exact hnone id r hget hlive _ hcred rfl
    · cases hcred
  rw [run_append] at hsound ⊢
  exact hsound.refused (gone_run hgone) (drawn_run hdrawn)

end

/-! ## A session that is launched and closed -/

def launchCall : Call := plainCall [("session_id", .str "s"), ("command", .str "claude")]

def launchBearer : Text := bearerOf launchCall.epoch launchCall.secret

/-- SHA-256 at the bearer of the launch, and longer lists elsewhere. -/
def launchDigest (t : Text) : List UInt8 :=
  if t = launchBearer then (Sha256.digest (encodeText t)).map UInt8.ofNat
  else List.replicate 33 0 ++ encodeText t

def launchHost : Host := { plainHost with digest := launchDigest }

theorem digests_launchHost : launchHost.Digests := by
  have hshort : ∀ t : Text, ((Sha256.digest (encodeText t)).map UInt8.ofNat).length = 32 := fun t => by
    rw [List.length_map, Sha256.length_digest]
  have hlong : ∀ t : Text, (List.replicate 33 (0 : UInt8) ++ encodeText t).length ≠ 32 := fun t => by
    rw [List.length_append, List.length_replicate]
    omega
  refine ⟨fun s t h => ?_, fun t h => ?_⟩
  · change launchDigest s = launchDigest t at h
    unfold launchDigest at h
    split at h
    · next hs =>
      split at h
      · next ht => rw [hs, ht]
      · exact absurd ((congrArg List.length h).symm.trans (hshort s)) (hlong t)
    · split at h
      · exact absurd ((congrArg List.length h).trans (hshort t)) (hlong s)
      · exact encodeText_injective (List.append_cancel_left h)
  · change launchDigest t = [] at h
    have hlen := congrArg List.length h
    unfold launchDigest at hlen
    split at hlen
    · rw [hshort] at hlen
      cases hlen
    · rw [List.length_append, List.length_replicate, List.length_nil] at hlen
      omega

def launchRun : List Event := [.register launchCall, .close "s" false .ok]

theorem runFresh_launchRun : RunFresh launchHost .started launchRun := by
  refine ⟨fun x hx => ?_, (fun x hx => absurd hx List.not_mem_nil), trivial⟩
  rw [List.mem_singleton.mp hx]
  exact ⟨by decide, by decide, by decide, launchCall.secret, by decide, rfl⟩

/-- The bearer of the session does not verify once the session is closed. -/
theorem index_matches_launchRun :
    (Daemon.started.run launchHost launchRun).reg.index.verify launchHost.digest (some launchBearer)
      = none := by
  have hclosed : (Daemon.started.run launchHost launchRun).reg.sessions.values.all
      (fun r => !r.live) = true := by decide +kernel
  refine (index_matches digests_launchHost runFresh_launchRun).2.2 launchRun []
    (List.append_nil _).symm launchCall.epoch launchBearer List.mem_cons_self ?_
  intro id r hget hlive
  have hr := List.all_eq_true.mp hclosed r (OrdMap.mem_values_iff _ |>.mpr ⟨id, hget⟩)
  rw [hlive] at hr
  cases hr

end Telepty.Registry
