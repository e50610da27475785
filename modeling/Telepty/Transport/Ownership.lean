import Telepty.Infra.Tenure
import Telepty.Transport.Websocket

/-!
# Ownership moves through claims

The owner slots of the records are seats: a claim that is saved grants one, and bars who sat there
before. While no connection finds its record missing without claiming it, and no socket speaks that
would re-adopt a free slot, every owner holds a slot of its own claim, which the gate admitted.

The message handler gives a free slot away without a claim. A bridge that was displaced, but whose
connection still lives when its successor is gone, takes the slot back under the generation and the
token that were minted for the successor.
-/

namespace Telepty.Registry

open Infra

/-! ## The owner slot of a record -/

/-- What of a record says who owns it. -/
def SessionRecord.slot (r : SessionRecord) : Option Nat × Option Text × Option Text :=
  (r.ownerWs, r.ownerToken, r.interactionOwnerGeneration)

section

variable {r : SessionRecord}

theorem slot_initializeBootstrapState (iso : Text) :
    (initializeBootstrapState iso r).slot = r.slot := by
  unfold initializeBootstrapState
  split <;> rfl

theorem ownerWs_initializeBootstrapState (iso : Text) :
    (initializeBootstrapState iso r).ownerWs = r.ownerWs :=
  congrArg Prod.fst (slot_initializeBootstrapState (r := r) iso)

theorem slot_applyIdleTtlMetadata (ttl : Option (Text × Option Nat)) :
    (applyIdleTtlMetadata ttl r).slot = r.slot := by
  cases ttl <;> rfl

theorem slot_redirect (body : Json) (ssh : Option SshMetadata) :
    (redirect body ssh r).slot = r.slot := by
  unfold redirect
  dsimp only
  split <;> rfl

/-- A stage that some requests pass through. -/
theorem slot_ite {p : Prop} [Decidable p] {f : SessionRecord → SessionRecord}
    (hf : ∀ r₁, (f r₁).slot = r₁.slot) : (if p then f r else r).slot = r.slot := by
  split
  · exact hf r
  · rfl

theorem slot_reregistered (host : Host) (call : Call) (c : Checked) (mayRedirect : Bool)
    (grant : Option PolicyGrant) :
    (reregistered host call c mayRedirect grant r).slot = r.slot := by
  have hnone : (reregistered host call c mayRedirect none r).slot = r.slot := by
    refine (slot_initializeBootstrapState _).trans ?_
    refine (slot_applyIdleTtlMetadata c.idleTtl).trans ?_
    refine (slot_ite (p := mayRedirect = true)
      (f := applyProcessMetadata host.number call.body) fun _ => rfl).trans ?_
    refine (slot_ite (p := isTextIn ["aterm"] (call.body.field "delivery_type") = true)
      (f := fun r₁ => markSessionConnected (host.isoText call.now) { r₁ with ready := true })
      fun _ => rfl).trans ?_
    refine (slot_ite (p := mayRedirect = true) (f := redirect call.body c.sshRemote)
      fun _ => slot_redirect _ _).trans ?_
    rfl
  rw [← hnone]
  unfold reregistered
  dsimp only
  split
  · next source reissue policy =>
    cases reissue <;> rfl
  · rfl

theorem slot_settledRecord {saved : Saved} {reissue : Bool} {after : SessionRecord}
    (h : after.slot = r.slot) : (settledRecord saved reissue r after).slot = r.slot := by
  unfold settledRecord
  cases saved with
  | ok => exact h
  | failed committed => cases committed <;> cases reissue <;> first | exact h | rfl

theorem ownerWs_newRecord (host : Host) (call : Call) (c : Checked) (id : Text)
    (grant : Option PolicyGrant) : (newRecord host call c grant id).ownerWs = none := by
  unfold newRecord
  dsimp only
  refine (ownerWs_initializeBootstrapState _).trans ?_
  split
  · show (SessionRecord.ownerWs _) = none
    rw [SessionRecord.withPolicy]
    split <;> rfl
  · split <;> rfl

end

theorem ownerWs_buildRestored {isDate : Text → Bool} {cwd nowIso id : Text} {entry : Json}
    {r : SessionRecord} (h : buildRestoredWrappedSession isDate cwd nowIso id entry = some r) :
    r.ownerWs = none := by
  unfold buildRestoredWrappedSession at h
  split at h
  · cases h
  · split at h
    · cases h
    · cases h
      rfl

/-! ## What the routes do to the slots -/

/-- Every record that is owned had that slot before. -/
def SlotsKept (sessions sessions' : OrdMap Text SessionRecord) : Prop :=
  ∀ id r', sessions'.get? id = some r' →
    r'.ownerWs = none ∨ ∃ r, sessions.get? id = some r ∧ r'.slot = r.slot

namespace SlotsKept

variable {sessions sessions' : OrdMap Text SessionRecord} {id : Text} {r : SessionRecord}

theorem refl (sessions : OrdMap Text SessionRecord) : SlotsKept sessions sessions :=
  fun _ r' h => .inr ⟨r', h, rfl⟩

variable (id) in
theorem set (h : SlotsKept sessions sessions')
    (hr : r.ownerWs = none ∨ ∃ r₀, sessions.get? id = some r₀ ∧ r.slot = r₀.slot) :
    SlotsKept sessions (sessions'.set id r) := by
  intro k r' hk
  rw [OrdMap.get?_set] at hk
  split at hk
  · next hkid =>
    cases hk
    rw [hkid]
    exact hr
  · exact h k r' hk

theorem delete (h : SlotsKept sessions sessions') : SlotsKept sessions (sessions'.delete id) := by
  intro k r' hk
  rw [OrdMap.get?_delete] at hk
  split at hk
  · cases hk
  · exact h k r' hk

end SlotsKept

@[simp] theorem Context.sessions_persist (host : Host) (saved : Saved) (reg : Context) :
    (reg.persist host saved).sessions = reg.sessions := by
  unfold Context.persist
  split <;> rfl

section

variable {host : Host} {reg : Context} {id : Text} {r : SessionRecord}

theorem slotsKept_reregister {call : Call} {c : Checked} (hget : reg.sessions.get? id = some r) :
    SlotsKept reg.sessions (reregister host reg call c id r).1.sessions := by
  have hrefl := SlotsKept.refl reg.sessions
  unfold reregister
  split
  · exact hrefl
  · dsimp only
    generalize hr₀ : (if c.inputPolicy.isSome = true then
      r.withPolicy (Session.currentGrant r.policyRecord).2 else r) = r₀
    have hslot : r₀.slot = r.slot := by
      rw [← hr₀]
      split <;> rfl
    have hput : SlotsKept reg.sessions (reg.put id r₀).sessions := hrefl.set _ (.inr ⟨r, hget, hslot⟩)
    split
    · exact hput
    · split
      · unfold reregisterMailbox
        split
        · exact hput
        · split
          · exact hput
          · split
            · exact hput
            · unfold renewMailboxLease
              dsimp only
              have hrenewed := fun (r₁ : SessionRecord) (h₁ : r₁.slot = r₀.slot) =>
                hput.set id (r := r₁) (.inr ⟨r, hget, h₁.trans hslot⟩)
              split
              · rw [Context.sessions_persist]
                exact hrenewed _ rfl
              · dsimp only
                split
                · rw [Context.sessions_persist]
                  exact hrenewed _ rfl
                · exact hput
      · have hafter := fun may grant => slot_reregistered (r := r₀) host call c may grant
        refine SlotsKept.set _ ?_ (.inr ⟨r, hget, (slot_settledRecord (hafter _ _)).trans hslot⟩)
        rw [Context.sessions_persist]
        exact hput.set _ (.inr ⟨r, hget, (hafter _ _).trans hslot⟩)

theorem slotsKept_register (call : Call) :
    SlotsKept reg.sessions (register host reg call).1.sessions := by
  have hrefl := SlotsKept.refl reg.sessions
  unfold register
  split
  · exact hrefl
  split
  · exact hrefl
  split
  · next hget => exact slotsKept_reregister hget
  · unfold registerNew
    dsimp only
    split
    · exact hrefl
    · have hset := fun c grant id => hrefl.set id
        (.inl (ownerWs_newRecord host call c id grant))
      split
      · rw [Context.sessions_persist]
        exact hset _ _ _
      · split
        · rw [Context.sessions_persist]
          exact hset _ _ _
        · rw [Context.sessions_persist]
          exact (hset _ _ _).delete

/-- What a takeover supersedes has no owner socket. -/
theorem takeoverChecks_unattended {call : TakeoverCall} {principal : Principal.AuthPrincipal}
    {found : Nat × List Json} (h : takeoverChecks host call principal r = .ok found) :
    r.ownerWs = none := by
  obtain ⟨-, h⟩ := ok_of_ite h
  obtain ⟨-, h⟩ := ok_of_ite h
  obtain ⟨-, h⟩ := ok_of_ite h
  obtain ⟨hun, -⟩ := ok_of_ite h
  have hun : unattended r = true := by simpa using hun
  unfold unattended at hun
  simp only [Bool.and_eq_true] at hun
  simpa using hun.1.1.1

theorem slotsKept_takeover (call : TakeoverCall) :
    SlotsKept reg.sessions (takeover host reg call).1.sessions := by
  have hrefl := SlotsKept.refl reg.sessions
  unfold takeover
  split
  · exact hrefl
  split
  · exact hrefl
  next r hget =>
    split
    · exact hrefl
    next lease history hchecks =>
      split
      · exact hrefl
      split
      · exact hrefl
      split
      · exact hrefl
      dsimp only
      split
      · show SlotsKept reg.sessions ((reg.put call.id _).persist host call.saved).sessions
        rw [Context.sessions_persist]
        -- whoever is taken over has no owner socket
        have hfree : r.ownerWs = none := takeoverChecks_unattended hchecks
        exact hrefl.set _ (.inl hfree)
      · exact hrefl

theorem slotsKept_close (acknowledged : Bool) (saved : Saved) (hget : reg.sessions.get? id = some r) :
    SlotsKept reg.sessions (beginDurableSessionClose host acknowledged saved id r reg).1.sessions := by
  have hrefl := SlotsKept.refl reg.sessions
  have hset := fun (r₁ : SessionRecord) (h₁ : r₁.slot = r.slot) =>
    hrefl.set id (r := r₁) (.inr ⟨r, hget, h₁⟩)
  have hwritten : SlotsKept reg.sessions
      ((reg.put id { r with isClosing := true }).persist host saved).sessions := by
    rw [Context.sessions_persist]
    exact hset _ rfl
  unfold beginDurableSessionClose
  split
  · exact hrefl
  split
  · exact hrefl
  dsimp only
  split
  · exact hwritten.set _ (.inr ⟨r, hget, rfl⟩)
  · split
    · exact hrefl
    · exact hwritten.set _ (.inr ⟨r, hget, rfl⟩)

theorem slotsKept_removeClosed (id : Text) : SlotsKept reg.sessions (removeClosed id reg).sessions := by
  unfold removeClosed
  split
  · split
    · exact (SlotsKept.refl _).delete
    · exact .refl _
  · exact .refl _

variable (host reg) in
/-- A rename keeps the slots and the names, or carries a slot to a name that was free. -/
theorem slots_renameSession (call : RenameCall) :
    (SlotsKept reg.sessions (renameSession host reg call).1.sessions ∧
      ∀ k, reg.sessions.get? k = none → (renameSession host reg call).1.sessions.get? k = none) ∨
    ∃ old new r, call.resolved = some old ∧ readIdentity call.body "new_id" = .ok new ∧
      reg.sessions.get? old = some r ∧ reg.sessions.get? new = none ∧
      (renameSession host reg call).1.sessions = (reg.sessions.set new { r with id := new }).delete old := by
  have hrefl : SlotsKept reg.sessions reg.sessions ∧
      ∀ k, reg.sessions.get? k = none → reg.sessions.get? k = none := ⟨.refl _, fun _ h => h⟩
  unfold renameSession
  split
  · exact .inl hrefl
  next id r hfound =>
    obtain ⟨hresolved, hget⟩ : call.resolved = some id ∧ reg.sessions.get? id = some r := by
      rw [Option.bind_eq_some_iff] at hfound
      obtain ⟨k, hk, hfound⟩ := hfound
      rw [Option.map_eq_some_iff] at hfound
      obtain ⟨r₁, hr₁, he⟩ := hfound
      cases he
      exact ⟨hk, hr₁⟩
    split
    · exact .inl hrefl
    split
    · exact .inl hrefl
    next new hnew =>
      split
      · exact .inl hrefl
      next hfree =>
        have hnone := reg.sessions.has_eq_false_iff.mp (Bool.not_eq_true _ ▸ hfree)
        have hmoved : ((reg.move id new r).persist host call.saved).sessions
            = (reg.sessions.set new { r with id := new }).delete id := Context.sessions_persist ..
        have hcarried : ∀ reg' : Context, reg'.sessions = ((reg.move id new r).persist host
            call.saved).sessions → (SlotsKept reg.sessions reg'.sessions ∧
              ∀ k, reg.sessions.get? k = none → reg'.sessions.get? k = none) ∨
            ∃ old new r, call.resolved = some old ∧ readIdentity call.body "new_id" = .ok new ∧
              reg.sessions.get? old = some r ∧ reg.sessions.get? new = none ∧
              reg'.sessions = (reg.sessions.set new { r with id := new }).delete old :=
          fun reg' hreg' => .inr ⟨id, new, r, hresolved, hnew, hget, hnone, hreg'.trans hmoved⟩
        dsimp only
        split
        · exact hcarried _ rfl
        · split
          · exact hcarried _ rfl
          · left
            have hback : ∀ k, ((((reg.move id new r).persist host call.saved).sessions.delete
                new).set id { r with id := id }).get? k
                = if k = id then some { r with id := id } else if k = new then none
                  else reg.sessions.get? k := by
              intro k
              rw [hmoved, OrdMap.get?_set, OrdMap.get?_delete, OrdMap.get?_delete, OrdMap.get?_set]
              split
              · rfl
              · split
                · rfl
                · rfl
            refine ⟨fun k r' hk => ?_, fun k hk => (hback k).trans ?_⟩
            · have hk := (hback k).symm.trans hk
              split at hk
              · next hkid =>
                cases hk
                exact .inr ⟨r, hkid ▸ hget, rfl⟩
              · split at hk
                · cases hk
                · exact .inr ⟨r', hk, rfl⟩
            · split
              · next hkid =>
                rw [hkid, hget] at hk
                cases hk
              · split
                · rfl
                · exact hk

end

/-! ## The seats of a daemon -/

/-- Who owns a record, and under what. -/
def SessionRecord.seat (object : Text × Nat) (r : SessionRecord) : Option (Nat × Stamp) :=
  r.ownerWs.map fun ws => (ws, ⟨object, r.ownerToken, r.interactionOwnerGeneration⟩)

theorem seat_of_slot {object : Text × Nat} {r r' : SessionRecord} (h : r'.slot = r.slot) :
    r'.seat object = r.seat object := by
  simp only [SessionRecord.slot, Prod.mk.injEq] at h
  obtain ⟨hws, htoken, hgeneration⟩ := h
  rw [SessionRecord.seat, SessionRecord.seat, hws, htoken, hgeneration]

/-- What a fact of the daemon says about the seats. A claim that was not saved grants none. -/
def OwnerFact.seatFact : OwnerFact → Option (SeatFact Nat Stamp)
  | .claimed c => if c.saved = .ok then some (.granted c.socket c.stamp) else none
  | .lost ws => some (.barred ws)
  | .unproved ws => some (.barred ws)
  | .acted ws stamp => some (.acted ws stamp)

namespace Gateway

def seat (g : Gateway) (id : Text) : Option (Nat × Stamp) :=
  (g.reg.sessions.get? id).bind fun r => r.seat (g.objects id)

def facts (g : Gateway) : List (SeatFact Nat Stamp) := g.log.filterMap OwnerFact.seatFact

variable {g g' : Gateway} {id : Text} {r : SessionRecord}

theorem seat_of_get? (h : g.reg.sessions.get? id = some r) : g.seat id = r.seat (g.objects id) := by
  rw [seat, h, Option.bind_some]

theorem seat_eq_some {ws : Nat} {stamp : Stamp} (h : g.seat id = some (ws, stamp)) :
    ∃ r, g.reg.sessions.get? id = some r ∧ r.ownerWs = some ws ∧
      stamp = ⟨g.objects id, r.ownerToken, r.interactionOwnerGeneration⟩ := by
  rw [seat, Option.bind_eq_some_iff] at h
  obtain ⟨r, hr, h⟩ := h
  rw [SessionRecord.seat, Option.map_eq_some_iff] at h
  obtain ⟨ws', hws, he⟩ := h
  cases he
  exact ⟨r, hr, hws, rfl⟩

theorem seat_congr (hsessions : g'.reg.sessions = g.reg.sessions) (hobjects : g'.objects = g.objects) :
    g'.seat = g.seat := by
  funext k
  rw [seat, seat, hsessions, hobjects]

theorem seat_set (hsessions : g'.reg.sessions = g.reg.sessions.set id r)
    (hobjects : g'.objects = g.objects) :
    g'.seat = Function.update g.seat id (r.seat (g.objects id)) := by
  funext k
  rw [seat, hsessions, hobjects, OrdMap.get?_set]
  by_cases hk : k = id
  · rw [if_pos hk, hk, Function.update_self]
    rfl
  · rw [if_neg hk, Function.update_of_ne hk]
    rfl

theorem seat_put (g : Gateway) (id : Text) (r : SessionRecord) :
    (g.put id r).seat = Function.update g.seat id (r.seat (g.objects id)) := seat_set rfl rfl

theorem seat_delete (hsessions : g'.reg.sessions = g.reg.sessions.delete id)
    (hobjects : g'.objects = g.objects) : g'.seat = Function.update g.seat id none := by
  funext k
  rw [seat, hsessions, hobjects, OrdMap.get?_delete]
  by_cases hk : k = id
  · rw [if_pos hk, hk, Function.update_self]
    rfl
  · rw [if_neg hk, Function.update_of_ne hk]
    rfl

/-- Work on a record that leaves its slot alone. -/
theorem seat_set_same {r' : SessionRecord} (hget : g.reg.sessions.get? id = some r)
    (hslot : r'.slot = r.slot) (hsessions : g'.reg.sessions = g.reg.sessions.set id r')
    (hobjects : g'.objects = g.objects) : g'.seat = g.seat := by
  rw [seat_set hsessions hobjects, seat_of_slot hslot, ← seat_of_get? hget, Function.update_eq_self]

/-- A step whose records keep their slots. -/
theorem seat_of_slotsKept (h : SlotsKept g.reg.sessions g'.reg.sessions)
    (hobjects : ∀ k, g.reg.sessions.get? k ≠ none → g'.objects k = g.objects k) (k : Text) :
    g'.seat k = none ∨ g'.seat k = g.seat k := by
  cases hk : g'.reg.sessions.get? k with
  | none => exact .inl (by rw [seat, hk, Option.bind_none])
  | some r' =>
    rcases h k r' hk with hnone | ⟨r, hr, hslot⟩
    · left
      rw [seat_of_get? hk, SessionRecord.seat, hnone, Option.map_none]
    · right
      rw [seat_of_get? hk, seat_of_get? hr, seat_of_slot hslot,
        hobjects k (by rw [hr]; exact Option.some_ne_none _)]

@[simp] theorem facts_note (facts : List OwnerFact) :
    (g.note facts).facts = g.facts ++ facts.filterMap OwnerFact.seatFact :=
  List.filterMap_append

/-! ## The invariant -/

/-- The seats agree with the log; the sockets and the generations in it are among those of the daemon;
every claim passed the gate. -/
structure Sound (uuid : Nat → Text) (g : Gateway) : Prop where
  tenure : Tenure Stamp.ownerGeneration g.seat g.facts
  arrived : ∀ f ∈ g.facts, f.holder < g.connected
  stamped : ∀ ws stamp, .granted ws stamp ∈ g.facts →
    ∃ i < g.minted, stamp.ownerGeneration = some (uuid i)
  gated : ∀ c, .claimed c ∈ g.log → c.sessionHoldsCredential = true →
    c.provedSessionCredential = true

namespace Sound

variable {uuid : Nat → Text} {host : Host}

theorem inside (hs : Sound uuid g) {k : Text} {ws : Nat} {stamp : Stamp}
    (hk : g.seat k = some (ws, stamp)) : ws < g.connected :=
  hs.arrived _ (hs.tenure.granted k ws stamp hk)

/-- A step that neither claims nor logs: seats are forget at most. -/
theorem thin (hs : Sound uuid g) (hlog : g'.log = g.log) (hconnected : g.connected ≤ g'.connected)
    (hminted : g'.minted = g.minted) (hseat : ∀ k, g'.seat k = none ∨ g'.seat k = g.seat k) :
    Sound uuid g' := by
  have hfacts : g'.facts = g.facts := by rw [facts, hlog, facts]
  refine ⟨?_, ?_, ?_, ?_⟩
  · rw [hfacts]
    exact hs.tenure.thin hseat
  · rw [hfacts]
    exact fun f hf => lt_of_lt_of_le (hs.arrived f hf) hconnected
  · rw [hfacts, hminted]
    exact hs.stamped
  · rw [hlog]
    exact hs.gated

/-- A step that leaves the seats and the log as they are. -/
theorem congr (hs : Sound uuid g) (hseat : g'.seat = g.seat) (hlog : g'.log = g.log)
    (hconnected : g.connected ≤ g'.connected) (hminted : g'.minted = g.minted) : Sound uuid g' :=
  hs.thin hlog hconnected hminted fun _ => .inr (congrFun hseat _)

theorem shut (hs : Sound uuid g) (ws : Nat) : Sound uuid (g.shut ws) :=
  hs.congr (seat_congr rfl rfl) rfl le_rfl rfl

theorem slotsKept (hs : Sound uuid g) (hkept : SlotsKept g.reg.sessions g'.reg.sessions)
    (hobjects : ∀ k, g.reg.sessions.get? k ≠ none → g'.objects k = g.objects k)
    (hlog : g'.log = g.log) (hconnected : g'.connected = g.connected)
    (hminted : g'.minted = g.minted) : Sound uuid g' :=
  hs.thin hlog hconnected.ge hminted (seat_of_slotsKept hkept hobjects)

/-- A socket that has no seat is barred. -/
theorem bar (hs : Sound uuid g) {ws : Nat} (hws : ws < g.connected)
    (hout : ∀ k stamp, g.seat k ≠ some (ws, stamp)) {fact : OwnerFact}
    (hfact : fact = .lost ws ∨ fact = .unproved ws) : Sound uuid (g.note [fact]) := by
  have hfacts : (g.note [fact]).facts = g.facts ++ [.barred ws] := by
    rw [facts_note]
    rcases hfact with rfl | rfl <;> rfl
  have hseat : (g.note [fact]).seat = g.seat := seat_congr rfl rfl
  refine ⟨?_, ?_, ?_, ?_⟩
  · rw [hfacts, hseat]
    exact hs.tenure.bar hout
  · rw [hfacts]
    intro f hf
    rcases List.mem_append.mp hf with hf | hf
    · exact hs.arrived f hf
    · rw [List.mem_singleton.mp hf]
      exact hws
  · rw [hfacts]
    intro k stamp hk
    refine hs.stamped k stamp ?_
    rcases List.mem_append.mp hk with hk | hk
    · exact hk
    · cases List.mem_singleton.mp hk
  · intro c hc
    refine hs.gated c ?_
    rcases List.mem_append.mp hc with hc | hc
    · exact hc
    · have := List.mem_singleton.mp hc
      rcases hfact with rfl | rfl <;> cases this

variable (id) in
/-- The owner acts. -/
theorem act (hs : Sound uuid g) {ws : Nat} {stamp : Stamp} (hk : g.seat id = some (ws, stamp)) :
    Sound uuid (g.note [.acted ws stamp]) := by
  have hfacts : (g.note [.acted ws stamp]).facts = g.facts ++ [.acted ws stamp] := by
    rw [facts_note]
    rfl
  have hseat : (g.note [.acted ws stamp]).seat = g.seat := seat_congr rfl rfl
  refine ⟨?_, ?_, ?_, ?_⟩
  · rw [hfacts, hseat]
    exact hs.tenure.act hk
  · rw [hfacts]
    intro f hf
    rcases List.mem_append.mp hf with hf | hf
    · exact hs.arrived f hf
    · rw [List.mem_singleton.mp hf]
      exact hs.inside hk
  · rw [hfacts]
    intro k st hst
    refine hs.stamped k st ?_
    rcases List.mem_append.mp hst with hst | hst
    · exact hst
    · cases List.mem_singleton.mp hst
  · intro c hc
    refine hs.gated c ?_
    rcases List.mem_append.mp hc with hc | hc
    · exact hc
    · cases List.mem_singleton.mp hc

/-- A claim is logged: one that was saved is a grant. -/
theorem claimed (hu : Function.Injective uuid) (hs : Sound uuid g) {c : Claim}
    (hsocket : c.socket < g.connected)
    (hgeneration : c.ownerGeneration = uuid (g.minted + 1))
    (hgate : c.sessionHoldsCredential = true → c.provedSessionCredential = true) :
    Sound uuid { g.note [.claimed c] with minted := g.minted + 2 } := by
  have hgated : ∀ c', .claimed c' ∈ g.log ++ [.claimed c] → c'.sessionHoldsCredential = true →
      c'.provedSessionCredential = true := by
    intro c' hc'
    rcases List.mem_append.mp hc' with hc' | hc'
    · exact hs.gated c' hc'
    · cases List.mem_singleton.mp hc'
      exact hgate
  have hstamped : ∀ ws stamp, .granted ws stamp ∈ g.facts →
      ∃ i < g.minted + 2, stamp.ownerGeneration = some (uuid i) := by
    intro ws stamp hk
    obtain ⟨i, hi, he⟩ := hs.stamped ws stamp hk
    exact ⟨i, by omega, he⟩
  have hseat : ({ g.note [.claimed c] with minted := g.minted + 2 } : Gateway).seat = g.seat :=
    seat_congr rfl rfl
  have hfacts : ({ g.note [.claimed c] with minted := g.minted + 2 } : Gateway).facts
      = g.facts ++ [OwnerFact.claimed c].filterMap OwnerFact.seatFact := List.filterMap_append
  by_cases hsaved : c.saved = .ok
  · have hone : [OwnerFact.claimed c].filterMap OwnerFact.seatFact = [.granted c.socket c.stamp] := by
      simp [OwnerFact.seatFact, hsaved]
    rw [hone] at hfacts
    refine ⟨?_, ?_, ?_, hgated⟩
    · rw [hfacts, hseat]
      refine hs.tenure.grant fun k t hk he => ?_
      obtain ⟨i, hi, hi'⟩ := hs.stamped k t hk
      rw [hi', Claim.stamp, hgeneration, Option.some_inj] at he
      have := hu he
      omega
    · rw [hfacts]
      intro f hf
      rcases List.mem_append.mp hf with hf | hf
      · exact hs.arrived f hf
      · rw [List.mem_singleton.mp hf]
        exact hsocket
    · rw [hfacts]
      intro ws stamp hk
      rcases List.mem_append.mp hk with hk | hk
      · exact hstamped ws stamp hk
      · cases List.mem_singleton.mp hk
        exact ⟨g.minted + 1, by show g.minted + 1 < g.minted + 2; omega, by rw [Claim.stamp, hgeneration]⟩
  · have hnone : [OwnerFact.claimed c].filterMap OwnerFact.seatFact = [] :=
      List.filterMap_cons_none (if_neg hsaved)
    rw [hnone, List.append_nil] at hfacts
    refine ⟨?_, ?_, ?_, hgated⟩
    · rw [hfacts, hseat]
      exact hs.tenure
    · rw [hfacts]
      exact hs.arrived
    · rw [hfacts]
      exact hstamped

variable (id) in
/-- Who was granted a seat, and is not barred, sits down. -/
theorem sit (hs : Sound uuid g) {ws : Nat} {stamp : Stamp} (hg : .granted ws stamp ∈ g.facts)
    (hb : .barred ws ∉ g.facts) (hout : ∀ k t, k ≠ id → g.seat k ≠ some (ws, t))
    (hseat : g'.seat = Function.update g.seat id (some (ws, stamp))) (hlog : g'.log = g.log)
    (hconnected : g'.connected = g.connected) (hminted : g'.minted = g.minted) : Sound uuid g' := by
  have hfacts : g'.facts = g.facts := by rw [facts, hlog, facts]
  refine ⟨?_, ?_, ?_, ?_⟩
  · rw [hfacts, hseat]
    exact hs.tenure.sit id hg hb hout
  · rw [hfacts, hconnected]
    exact hs.arrived
  · rw [hfacts, hminted]
    exact hs.stamped
  · rw [hlog]
    exact hs.gated

end Sound

/-! ## A connection -/

theorem slot_claimedRecord (host : Host) (uuid : Nat → Text) (g : Gateway) (ws : Nat) (h : Handshake)
    (r : SessionRecord) : (claimedRecord host uuid g ws h r).slot =
      (some ws, some (uuid g.minted), some (uuid (g.minted + 1))) := by
  unfold claimedRecord
  refine (slot_initializeBootstrapState _).trans ?_
  exact (slot_ite (f := fun r₁ =>
    { r₁ with bootstrapReady := false, bootstrapReadyReason := none, ready := false })
    fun _ => rfl).trans rfl

section

variable {uuid : Nat → Text} {host : Host} {ws : Nat} {h : Handshake} {existing held proved : Bool}

theorem seat_forget (g : Gateway) (id : Text) :
    (g.forget id).seat = Function.update g.seat id none := seat_delete rfl rfl

theorem Sound.forget {g : Gateway} (hs : Sound uuid g) (id : Text) : Sound uuid (g.forget id) := by
  refine hs.thin rfl le_rfl rfl fun k => ?_
  rw [seat_forget]
  by_cases hk : k = id
  · rw [hk, Function.update_self]
    exact .inl rfl
  · rw [Function.update_of_ne hk]
    exact .inr rfl

/-- **A claim** that passed the gate. `g₀` is the daemon before the connection made a record. -/
theorem Sound.claim (hu : Function.Injective uuid) {g₀ : Gateway} (hs : Sound uuid g₀)
    (hlog : g.log = g₀.log) (hminted : g.minted = g₀.minted) (hconnected : g.connected = g₀.connected)
    (hothers : ∀ k, k ≠ h.sessionId → g.seat k = g₀.seat k) (hws : ws < g₀.connected)
    (hnew : ∀ f ∈ g₀.facts, f.holder < ws)
    (hprev : ∀ p, predecessor ws r = some p → ∃ stamp, g₀.seat h.sessionId = some (p, stamp))
    (hback : existing = true → g.seat = g₀.seat ∧ g.reg.sessions.get? h.sessionId = some r)
    (hgate : held = true → proved = true) :
    Sound uuid (g.claim host uuid ws h existing held proved r) := by
  have hout : ∀ k t, g₀.seat k ≠ some (ws, t) := fun k t hk =>
    absurd (hnew _ (hs.tenure.granted k ws t hk)) (lt_irrefl ws)
  have hvs : (g₀.forget h.sessionId).seat = Function.update g₀.seat h.sessionId none :=
    seat_forget ..
  have hvacant : ∀ x : Option (Nat × Stamp), Function.update g.seat h.sessionId x
      = Function.update (g₀.forget h.sessionId).seat h.sessionId x := by
    intro x
    rw [hvs, Function.update_idem]
    funext k
    by_cases hk : k = h.sessionId
    · rw [hk, Function.update_self, Function.update_self]
    · rw [Function.update_of_ne hk, Function.update_of_ne hk, hothers k hk]
  have houtv : ∀ k t, (g₀.forget h.sessionId).seat k ≠ some (ws, t) := by
    intro k t hk
    rw [hvs] at hk
    by_cases hkid : k = h.sessionId
    · rw [hkid, Function.update_self] at hk
      cases hk
    · rw [Function.update_of_ne hkid] at hk
      exact hout k t hk
  -- whoever sat at the record is barred
  have hleft : Sound uuid ((g₀.forget h.sessionId).note
      ((predecessor ws r).toList.map OwnerFact.lost)) := by
    cases hp : predecessor ws r with
    | none => exact (hs.forget h.sessionId).congr (seat_congr rfl rfl) (List.append_nil _) le_rfl rfl
    | some p =>
      obtain ⟨stamp, hseat⟩ := hprev p hp
      refine (hs.forget h.sessionId).bar (hs.inside hseat) (fun k t hk => ?_) (.inl rfl)
      rw [hvs] at hk
      by_cases hkid : k = h.sessionId
      · rw [hkid, Function.update_self] at hk
        cases hk
      · rw [Function.update_of_ne hkid] at hk
        exact hkid (hs.tenure.alone k _ p t stamp hk hseat)
  generalize hc : (⟨ws, g.objects h.sessionId, held, proved, uuid g.minted, uuid (g.minted + 1),
    h.saved⟩ : Claim) = c
  have hcs : c.socket = ws := by rw [← hc]
  have hcg : c.ownerGeneration = uuid (g₀.minted + 1) := by rw [← hc, hminted]
  have hcgate : c.sessionHoldsCredential = true → c.provedSessionCredential = true := by
    rw [← hc]
    exact hgate
  have hslot := slot_claimedRecord host uuid g ws h r
  have hseatc : (claimedRecord host uuid g ws h r).seat (g.objects h.sessionId)
      = some (ws, c.stamp) := by
    simp only [SessionRecord.slot, Prod.mk.injEq] at hslot
    rw [SessionRecord.seat, hslot.1, hslot.2.1, hslot.2.2, ← hc]
    rfl
  unfold Gateway.claim
  dsimp only
  rw [hc]
  generalize hg' : ({ g with
    reg := (g.reg.put h.sessionId (claimedRecord host uuid g ws h r)).persist host h.saved
    minted := g.minted + 2 } : Gateway) = g'
  have hseat' : g'.seat = Function.update g.seat h.sessionId (some (ws, c.stamp)) := by
    rw [← hg', ← hseatc]
    exact seat_set (Context.sessions_persist ..) rfl
  have hobjects' : g'.objects = g.objects := by rw [← hg']
  have hminted' : g'.minted = g₀.minted + 2 := by rw [← hg', ← hminted]
  have hconnected' : g'.connected = g₀.connected := by rw [← hg', ← hconnected]
  have hlog' : g'.log = g₀.log := by rw [← hg', ← hlog]
  split
  · next hok =>
    have hclaimed := hleft.claimed hu (c := c) (hcs ▸ hws) hcg hcgate
    have hcsaved : c.saved = .ok := by rw [← hc, hok]
    have hgranted : .granted ws c.stamp ∈ (((g₀.forget h.sessionId).note
        ((predecessor ws r).toList.map OwnerFact.lost)).note [.claimed c]).facts := by
      rw [facts_note]
      refine List.mem_append_right _ ?_
      simp [OwnerFact.seatFact, hcsaved, hcs]
    have hfree : .barred ws ∉ (((g₀.forget h.sessionId).note
        ((predecessor ws r).toList.map OwnerFact.lost)).note [.claimed c]).facts := by
      intro hb
      rw [facts_note, facts_note] at hb
      rcases List.mem_append.mp hb with hb | hb
      · rcases List.mem_append.mp hb with hb | hb
        · exact absurd (hnew _ hb) (lt_irrefl ws)
        · rw [List.filterMap_map, List.mem_filterMap] at hb
          obtain ⟨p, hp, he⟩ := hb
          cases he
          rw [Option.mem_toList, predecessor, Option.filter_eq_some_iff] at hp
          exact absurd rfl (of_decide_eq_true hp.2)
      · simp [OwnerFact.seatFact, hcsaved] at hb
    have hbase : Sound uuid ((g'.attach ws h).note
        ((predecessor ws r).toList.map OwnerFact.lost ++ [.claimed c])) := by
      refine hclaimed.sit h.sessionId hgranted hfree (fun k t _ hk => houtv k t hk) ?_ ?_
        hconnected' hminted'
      · show g'.seat = Function.update (g₀.forget h.sessionId).seat _ _
        rw [hseat', hvacant]
      · show g'.log ++ (_ ++ _) = (g₀.log ++ _) ++ _
        rw [hlog', List.append_assoc]
    split
    · split
      · exact hbase.shut _
      · exact hbase
    · exact hbase
  · next hnot =>
    have hcsaved : c.saved ≠ .ok := by
      rw [← hc]
      exact hnot
    -- a claim that was not saved seats nobody, and its socket is barred
    have hrefused : ∀ {g₁ : Gateway}, Sound uuid g₁ → (∀ k t, g₁.seat k ≠ some (ws, t)) →
        g₁.connected = g₀.connected → g₁.minted = g₀.minted →
        Sound uuid ({ g₁.note [.claimed c] with minted := g₁.minted + 2 }.note [.lost ws]) := by
      intro g₁ hs₁ hout₁ hconnected₁ hminted₁
      refine (hs₁.claimed hu (c := c) (by rw [hcs, hconnected₁]; exact hws)
        (by rw [hcg, hminted₁]) hcgate).bar ?_ hout₁ (.inl rfl)
      show ws < g₁.connected
      rw [hconnected₁]
      exact hws
    split
    · refine (hrefused hleft houtv rfl rfl).congr ?_ ?_ hconnected'.ge hminted'
      · show (g'.put h.sessionId { claimedRecord host uuid g ws h r with ownerWs := none }).seat
          = (g₀.forget h.sessionId).seat
        rw [seat_put, hseat', Function.update_idem, hvs,
          SessionRecord.seat, Option.map_none, hvacant, hvs, Function.update_idem]
      · show g'.log ++ (_ ++ [.claimed c, .lost ws]) = ((g₀.log ++ _) ++ [.claimed c]) ++ [.lost ws]
        rw [hlog', List.append_assoc, List.append_assoc]
        rfl
    · have hlast : g₀.log ++ [.claimed c, .lost ws] = (g₀.log ++ [.claimed c]) ++ [.lost ws] := by
        rw [List.append_assoc]
        rfl
      cases existing with
      | true =>
        obtain ⟨hsame, hget⟩ := hback rfl
        rw [if_pos rfl]
        refine (hrefused hs hout rfl rfl).congr ?_ ?_ hconnected'.ge hminted'
        · show (g'.put h.sessionId (rolledBack r (claimedRecord host uuid g ws h r))).seat = g₀.seat
          have hrolled : (rolledBack r (claimedRecord host uuid g ws h r)).slot = r.slot := rfl
          rw [seat_put, hseat', Function.update_idem, hobjects',
            seat_of_slot hrolled, ← seat_of_get? hget, Function.update_eq_self, hsame]
        · exact (congrArg (· ++ _) hlog').trans hlast
      | false =>
        rw [if_neg Bool.false_ne_true]
        refine (hrefused (hs.forget h.sessionId) houtv rfl rfl).congr ?_ ?_ hconnected'.ge hminted'
        · show (g'.forget h.sessionId).seat = (g₀.forget h.sessionId).seat
          rw [seat_forget, hseat', Function.update_idem, hvacant, hvs, Function.update_idem]
        · exact (congrArg (· ++ _) hlog').trans hlast

/-- The gate, at a record that was there before the connection. -/
theorem Sound.attend (hu : Function.Injective uuid) (hs : Sound uuid g) (hws : ws < g.connected)
    (hnew : ∀ f ∈ g.facts, f.holder < ws) (hget : g.reg.sessions.get? h.sessionId = some r) :
    Sound uuid (g.attend host uuid ws h true r) := by
  have hout : ∀ k t, g.seat k ≠ some (ws, t) := fun k t hk =>
    absurd (hnew _ (hs.tenure.granted k ws t hk)) (lt_irrefl ws)
  unfold Gateway.attend
  split
  · exact hs.congr (seat_congr rfl rfl) rfl le_rfl rfl
  dsimp only
  generalize g.reg.index.hasCredential h.sessionId = held
  generalize hp : (held && g.reg.index.matchesSid host.digest h.sessionId h.bearer) = proved
  cases hmay : (!held || proved) with
  | true =>
    rw [if_pos rfl]
    split
    · exact hs.congr (seat_congr rfl rfl) rfl le_rfl rfl
    split
    · refine hs.claim hu rfl rfl rfl (fun _ _ => rfl) hws hnew ?_ (fun _ => ⟨rfl, hget⟩) ?_
      · intro p hprev
        rw [predecessor, Option.filter_eq_some_iff] at hprev
        exact ⟨_, by rw [seat_of_get? hget, SessionRecord.seat, hprev.1, Option.map_some]⟩
      · intro hheld
        rw [hheld] at hmay
        exact hmay
    · exact hs.congr (seat_congr rfl rfl) rfl le_rfl rfl
  | false =>
    have hbarred : Sound uuid (g.note [.unproved ws]) := hs.bar hws hout (.inr rfl)
    rw [if_neg Bool.false_ne_true, Bool.and_false, if_neg Bool.false_ne_true]
    split
    · exact hbarred.congr (seat_congr rfl rfl) rfl le_rfl rfl
    · exact hbarred.congr (seat_congr rfl rfl) rfl le_rfl rfl

/-- **A connection**, which claims the record where it has to make one. -/
theorem Sound.connect (hu : Function.Injective uuid) (hs : Sound uuid g)
    (hset : g.reg.sessions.has h.sessionId = true ∨
      h.owner = true ∧ g.reg.index.hasCredential h.sessionId = false) :
    Sound uuid (g.connect host uuid h) := by
  have hs₁ : Sound uuid { g with connected := g.connected + 1 } :=
    hs.congr (seat_congr rfl rfl) rfl (Nat.le_succ _) rfl
  unfold Gateway.connect
  dsimp only
  split
  · next r hget => exact hs₁.attend hu (Nat.lt_succ_self _) hs.arrived hget
  · next hnone =>
    obtain ⟨howner, hheld⟩ := hset.resolve_left
      (by rw [g.reg.sessions.has_eq_false_iff.mpr hnone]; exact Bool.false_ne_true)
    generalize hg₁ : ({ g with connected := g.connected + 1 } : Gateway) = g₁ at hs₁
    have hnone₁ : g₁.reg.sessions.get? h.sessionId = none := by rw [← hg₁]; exact hnone
    have hs₂ : Sound uuid (g₁.create h.sessionId) := by
      refine hs₁.congr ?_ rfl le_rfl rfl
      funext k
      by_cases hk : k = h.sessionId
      · show ((g₁.reg.sessions.get? k).bind _) = (g₁.reg.sessions.get? k).bind _
        rw [hk, hnone₁, Option.bind_none, Option.bind_none]
      · show ((g₁.reg.sessions.get? k).bind fun r => r.seat (Function.update g₁.objects _ _ k)) = _
        rw [Function.update_of_ne hk]
        rfl
    have hslot := slot_initializeBootstrapState (r := autoSession host g.connected h) (host.isoText h.now)
    have hkept : ∀ r : SessionRecord,
        (initializeBootstrapState (host.isoText h.now) r).isClosing = r.isClosing ∧
        (initializeBootstrapState (host.isoText h.now) r).type = r.type := by
      intro r
      unfold initializeBootstrapState
      split <;> exact ⟨rfl, rfl⟩
    obtain ⟨hclosing, htype⟩ := hkept (autoSession host g.connected h)
    generalize initializeBootstrapState (host.isoText h.now) (autoSession host g.connected h) = r at *
    have hwrapped : r.hasType "wrapped" = true := by rw [SessionRecord.hasType, htype]; rfl
    have hopen : r.isClosing = false := hclosing
    have hheld₁ : (((g₁.create h.sessionId).put h.sessionId r).reg.index.hasCredential h.sessionId)
        = false := by
      rw [← hg₁]
      exact hheld
    unfold Gateway.attend
    rw [if_neg (by rw [hopen]; exact Bool.false_ne_true)]
    dsimp only
    simp only [hheld₁, hwrapped, howner, Bool.false_and, Bool.and_false, Bool.not_false,
      Bool.true_or, Bool.or_true, Bool.and_self, Bool.false_eq_true, if_true, if_false]
    refine hs₂.claim hu rfl rfl rfl (fun k hk => ?_) ?_ ?_ ?_ nofun nofun
    · rw [seat_put, Function.update_of_ne hk]
    · show g.connected < g₁.connected
      rw [← hg₁]
      exact Nat.lt_succ_self _
    · rw [← hg₁]
      exact hs.arrived
    · intro p hp
      have hown : r.ownerWs = some g.connected := congrArg Prod.fst hslot
      rw [predecessor, hown, Option.filter_eq_some_iff] at hp
      cases hp.1
      exact absurd rfl (of_decide_eq_true hp.2)

end

/-! ## Messages and closes -/

/-- The message would make its socket re-adopt the slot of the owner. -/
def readopts (g : Gateway) (ws : Nat) (f : Frame) : Bool :=
  (g.sockets.get? ws).any fun s => s.attached && f.served.isSome &&
    (g.reg.sessions.get? s.sessionId).any fun r => !r.isClosing && g.mayReadopt ws s r

section

variable {uuid : Nat → Text} {host : Host} {ws : Nat}

theorem slot_markBootstrapReady (iso reason : Text) (f : Frame) (r : SessionRecord) :
    (markBootstrapReady iso reason f r).slot = r.slot := by
  rw [← slot_initializeBootstrapState (r := r) iso]
  unfold markBootstrapReady
  dsimp only
  split
  · rfl
  · split <;> rfl

theorem slot_applyOwnerFrame (host : Host) (f : Frame) (type : Option Text) (r : SessionRecord) :
    (applyOwnerFrame host f type r).slot = r.slot := by
  unfold applyOwnerFrame
  dsimp only
  split
  · rfl
  split
  · exact slot_markBootstrapReady ..
  split
  · split
    · exact slot_markBootstrapReady ..
    · rfl
  · rfl

theorem Sound.serve (hs : Sound uuid g) (f : Frame) (type : Option Text) :
    Sound uuid (g.serve host ws id f type) := by
  unfold Gateway.serve
  split
  · exact hs
  next r hget =>
    split
    · next howner =>
      rw [Bool.and_eq_true] at howner
      have hsame : (g.put id (applyOwnerFrame host f type r)).seat = g.seat :=
        seat_set_same hget (slot_applyOwnerFrame ..) rfl rfl
      refine (hs.congr hsame rfl le_rfl rfl).act id ?_
      rw [hsame, seat_of_get? hget, SessionRecord.seat, of_decide_eq_true howner.2, Option.map_some]
    · exact hs

/-- **A message** of a socket that does not re-adopt a free slot. -/
theorem Sound.message (hs : Sound uuid g) {f : Frame} (hset : g.readopts ws f = false) :
    Sound uuid (g.message host ws f) := by
  unfold Gateway.message
  split
  · next s type hsock hserved =>
    split
    · next hattached =>
      split
      · next r hget =>
        unfold Gateway.receive
        split
        · exact hs
        · next hopen =>
          have hstays : g.mayReadopt ws s r = false := by
            simpa [readopts, hsock, hattached, hserved, hget, hopen] using hset
          rw [hstays]
          exact hs.serve f type
      · exact hs
    · exact hs
  · exact hs

/-- **A close** detaches the owner. -/
theorem Sound.closed (hs : Sound uuid g) (now : Nat) (saved : Saved) :
    Sound uuid (g.closed host ws now saved) := by
  unfold Gateway.closed
  dsimp only
  split
  · exact hs
  next s _ =>
    split
    · exact hs.congr (seat_congr rfl rfl) rfl le_rfl rfl
    next r hget =>
      split
      · next howner =>
        rw [Bool.and_eq_true] at howner
        have hown : r.ownerWs = some ws := of_decide_eq_true howner.2
        have hsat : g.seat s.sessionId = some (ws,
            ⟨g.objects s.sessionId, r.ownerToken, r.interactionOwnerGeneration⟩) := by
          rw [seat_of_get? hget, SessionRecord.seat, hown, Option.map_some]
        refine ((hs.forget s.sessionId).bar (hs.inside hsat) (fun k t hk => ?_)
          (.inl rfl)).congr ?_ rfl le_rfl rfl
        · rw [seat_forget] at hk
          by_cases hkid : k = s.sessionId
          · rw [hkid, Function.update_self] at hk
            cases hk
          · rw [Function.update_of_ne hkid] at hk
            exact hkid (hs.tenure.alone _ _ _ _ _ hk hsat)
        · have hleft : ∀ g₁ : Gateway, g₁.reg.sessions = g.reg.sessions.set s.sessionId { r with
              ownerWs := none, lastDisconnectedAt := some (host.isoText now), ready := false } →
              g₁.objects = g.objects → g₁.seat = (g.forget s.sessionId).seat :=
            fun g₁ hsessions hobjects => (seat_set hsessions hobjects).trans (seat_forget ..).symm
          exact hleft _ (Context.sessions_persist ..) rfl
      · exact hs.congr (seat_congr rfl rfl) rfl le_rfl rfl

/-! ## The routes -/

theorem Sound.register (hs : Sound uuid g) (call : Call) : Sound uuid (g.register host call) := by
  have hkept : SlotsKept g.reg.sessions (Registry.register host g.reg call).1.sessions :=
    slotsKept_register call
  unfold Gateway.register
  dsimp only
  split
  · next id _ =>
    split
    · exact hs.slotsKept hkept (fun _ _ => rfl) rfl rfl rfl
    · next hfree =>
      refine hs.slotsKept hkept (fun k hk => ?_) rfl rfl rfl
      refine Function.update_of_ne ?_ _ _
      rintro rfl
      exact hk (g.reg.sessions.has_eq_false_iff.mp (Bool.not_eq_true _ ▸ hfree))
  · exact hs.slotsKept hkept (fun _ _ => rfl) rfl rfl rfl

/-- A rename that is made moves the object of the record, and its seat, to the new name. -/
theorem seat_renamed {call : RenameCall} {old new : Text} (hold : call.resolved = some old)
    (hnew : readIdentity call.body "new_id" = .ok new) (hget : g.reg.sessions.get? old = some r)
    (hfree : g.reg.sessions.get? new = none)
    (hmoved : (renameSession host g.reg call).1.sessions
      = (g.reg.sessions.set new { r with id := new }).delete old) :
    g.rename host call = { g with
        reg := (renameSession host g.reg call).1
        objects := Function.update g.objects new (g.objects old) } ∧
      ∀ k, (g.rename host call).seat k
        = if k = old then none else if k = new then g.seat old else g.seat k := by
  have hstep : g.rename host call = { g with
      reg := (renameSession host g.reg call).1
      objects := Function.update g.objects new (g.objects old) } := by
    unfold Gateway.rename
    rw [hold, hnew]
    exact if_neg (by rw [g.reg.sessions.has_eq_false_iff.mpr hfree]; exact Bool.false_ne_true)
  refine ⟨hstep, fun k => ?_⟩
  rw [hstep]
  show ((renameSession host g.reg call).1.sessions.get? k).bind _ = _
  rw [hmoved, OrdMap.get?_delete, OrdMap.get?_set]
  by_cases hk : k = old
  · rw [if_pos hk, if_pos hk, Option.bind_none]
  · rw [if_neg hk, if_neg hk]
    by_cases hkn : k = new
    · rw [if_pos hkn, if_pos hkn, seat_of_get? hget, hkn]
      show SessionRecord.seat (Function.update g.objects new (g.objects old) new) _ = _
      rw [Function.update_self]
      rfl
    · rw [if_neg hkn, if_neg hkn]
      show ((g.reg.sessions.get? k).bind fun r =>
        r.seat (Function.update g.objects new (g.objects old) k)) = _
      rw [Function.update_of_ne hkn]
      rfl

/-- A rename leaves the objects of the records that there are. -/
theorem objects_rename (call : RenameCall) {k : Text} (hk : g.reg.sessions.get? k ≠ none) :
    (g.rename host call).objects k = g.objects k := by
  unfold Gateway.rename
  dsimp only
  split
  · split
    · rfl
    · next hfree =>
      refine Function.update_of_ne ?_ _ _
      rintro rfl
      exact hk (g.reg.sessions.has_eq_false_iff.mp (Bool.not_eq_true _ ▸ hfree))
  · rfl

variable (host) in
theorem rename_fields (g : Gateway) (call : RenameCall) :
    (g.rename host call).reg = (renameSession host g.reg call).1 ∧
    (g.rename host call).log = g.log ∧ (g.rename host call).sockets = g.sockets ∧
    (g.rename host call).connected = g.connected ∧ (g.rename host call).minted = g.minted ∧
    (g.rename host call).created = g.created := by
  unfold Gateway.rename
  dsimp only
  split
  · split <;> exact ⟨rfl, rfl, rfl, rfl, rfl, rfl⟩
  · exact ⟨rfl, rfl, rfl, rfl, rfl, rfl⟩

theorem Sound.rename (hs : Sound uuid g) (call : RenameCall) : Sound uuid (g.rename host call) := by
  obtain ⟨hreg, hlog, -, hconnected, hminted, -⟩ := rename_fields host g call
  rcases slots_renameSession host g.reg call with
    ⟨hkept, -⟩ | ⟨old, new, r, hold, hnew, hget, hfree, hmoved⟩
  · refine hs.slotsKept ?_ (fun _ => objects_rename call) hlog hconnected hminted
    rw [hreg]
    exact hkept
  · have hne : new ≠ old := by
      rintro rfl
      rw [hget] at hfree
      cases hfree
    obtain ⟨hstep, hseat⟩ := seat_renamed hold hnew hget hfree hmoved
    rw [hstep] at hseat ⊢
    refine ⟨hs.tenure.relabel (σ := fun k => if k = new then old else k) (fun k => ?_) ?_,
      hs.arrived, hs.stamped, hs.gated⟩
    · rw [hseat]
      by_cases hk : k = old
      · exact .inl (if_pos hk)
      · rw [if_neg hk]
        by_cases hkn : k = new
        · exact .inr (by rw [if_pos hkn, if_pos hkn])
        · exact .inr (by rw [if_neg hkn, if_neg hkn])
    · intro p q hp hq he
      have hseated : ∀ k, ({ g with
          reg := (renameSession host g.reg call).1
          objects := Function.update g.objects new (g.objects old) } : Gateway).seat k ≠ none →
          k ≠ old := by
        rintro k hk rfl
        exact hk (by rw [hseat, if_pos rfl])
      have hp := hseated p hp
      have hq := hseated q hq
      by_cases hpn : p = new <;> by_cases hqn : q = new
      · rw [hpn, hqn]
      · rw [if_pos hpn, if_neg hqn] at he
        exact absurd he.symm hq
      · rw [if_neg hpn, if_pos hqn] at he
        exact absurd he hp
      · rwa [if_neg hpn, if_neg hqn] at he

variable (host) in
/-- What a removal makes of the records; the sockets and the objects stay as they are. -/
theorem collect_eq (g : Gateway) (saved : Saved) (id : Text) :
    ∃ reg', g.collect host saved id = { g with reg := reg' } ∧
      SlotsKept g.reg.sessions reg'.sessions ∧
      ∀ k, g.reg.sessions.get? k = none → reg'.sessions.get? k = none := by
  have hrefl : SlotsKept g.reg.sessions g.reg.sessions ∧
      ∀ k, g.reg.sessions.get? k = none → g.reg.sessions.get? k = none := ⟨.refl _, fun _ h => h⟩
  have hdelete : ∀ k, g.reg.sessions.get? k = none → (g.reg.sessions.delete id).get? k = none := by
    intro k hk
    rw [OrdMap.get?_delete, hk, ite_self]
  unfold Gateway.collect
  split
  · next r hget =>
    split
    · refine ⟨_, rfl, ?_⟩
      split
      · refine ⟨?_, ?_⟩
        · show SlotsKept _ (Context.persist _ _ _).sessions
          rw [Context.sessions_persist]
          exact (SlotsKept.refl _).delete
        · show ∀ k, _ → (Context.persist _ _ _).sessions.get? k = none
          rw [Context.sessions_persist]
          exact hdelete
      · refine ⟨?_, fun k hk => ?_⟩
        · refine SlotsKept.set _ ?_ (.inr ⟨r, hget, rfl⟩)
          rw [Context.sessions_persist]
          exact (SlotsKept.refl _).delete
        · show ((Context.persist _ _ _).sessions.set id r).get? k = none
          rw [Context.sessions_persist, OrdMap.get?_set, hdelete k hk]
          split
          · next hkid =>
            rw [hkid, hget] at hk
            cases hk
          · rfl
    · exact ⟨g.reg, rfl, hrefl⟩
  · exact ⟨g.reg, rfl, hrefl⟩

theorem Sound.collect (hs : Sound uuid g) (saved : Saved) (id : Text) :
    Sound uuid (g.collect host saved id) := by
  obtain ⟨reg', hcollect, hkept, -⟩ := collect_eq host g saved id
  rw [hcollect]
  exact hs.slotsKept hkept (fun _ _ => rfl) rfl rfl rfl

end

/-! ## Runs -/

theorem ownerWs_restart (host : Host) (now : Nat) (reg : Context) :
    ∀ k r, (restart host now reg).sessions.get? k = some r → r.ownerWs = none := by
  have hentry : ∀ (members : List (Text × Json)) (reg : Context),
      (∀ k r, reg.sessions.get? k = some r → r.ownerWs = none) →
      ∀ k r, (members.foldl (restoreEntry host (host.isoText now)) reg).sessions.get? k = some r →
        r.ownerWs = none := by
    intro members
    induction members with
    | nil => exact fun _ h => h
    | cons m members ih =>
      intro reg h
      rw [List.foldl_cons]
      refine ih _ fun k r hk => ?_
      unfold restoreEntry at hk
      dsimp only at hk
      split at hk
      · exact h k r hk
      split at hk
      · exact h k r hk
      next r₀ hbuilt =>
        rw [OrdMap.get?_set] at hk
        split at hk
        · cases hk
          rw [ownerWs_initializeBootstrapState]
          exact ownerWs_buildRestored hbuilt
        · exact h k r hk
  have hfresh : ∀ k r, Context.started.sessions.get? k = some r → r.ownerWs = none := by
    intro k r hk
    rw [show Context.started.sessions.get? k = none from rfl] at hk
    cases hk
  unfold restart
  split
  · exact hentry _ _ hfresh
  · exact hfresh

theorem sound_started (uuid : Nat → Text) (host : Host) (now : Nat) (reg : Context) :
    Sound uuid (started host now reg) := by
  refine ⟨.empty fun k => ?_, nofun, nofun, nofun⟩
  cases hk : (started host now reg).seat k with
  | none => rfl
  | some seat =>
    obtain ⟨r, hr, hws, -⟩ := seat_eq_some hk
    rw [ownerWs_restart host now reg k r hr] at hws
    cases hws

/-- A connection that finds no record asks to own it, and no credential is held under its name; a
socket that speaks does not find the slot of the owner free for it. -/
def Settled (g : Gateway) : Traffic → Prop
  | .connect h => g.reg.sessions.has h.sessionId = true ∨
      h.owner = true ∧ g.reg.index.hasCredential h.sessionId = false
  | .message ws f => g.readopts ws f = false
  | _ => True

instance (g : Gateway) (t : Traffic) : Decidable (g.Settled t) :=
  match t with
  | .connect _ => inferInstanceAs (Decidable (_ ∨ _))
  | .message _ _ => inferInstanceAs (Decidable (_ = false))
  | .closing _ | .closed _ _ _ | .register _ | .rename _ | .takeover _ | .destroy _ _ _ | .remove _
  | .collect _ _ => inferInstanceAs (Decidable True)

/-- Every step of the run is settled. -/
def RunSettled (host : Host) (uuid : Nat → Text) : Gateway → List Traffic → Prop
  | _, [] => True
  | g, t :: traffic => g.Settled t ∧ RunSettled host uuid (g.step host uuid t) traffic

instance decidableRunSettled (host : Host) (uuid : Nat → Text) :
    (g : Gateway) → (traffic : List Traffic) → Decidable (RunSettled host uuid g traffic)
  | _, [] => inferInstanceAs (Decidable True)
  | g, t :: traffic =>
    have := decidableRunSettled host uuid (g.step host uuid t) traffic
    inferInstanceAs (Decidable (g.Settled t ∧ RunSettled host uuid (g.step host uuid t) traffic))

theorem sound_step {uuid : Nat → Text} {host : Host} (hu : Function.Injective uuid)
    (hs : Sound uuid g) {t : Traffic} (hset : g.Settled t) : Sound uuid (g.step host uuid t) := by
  cases t with
  | connect h => exact hs.connect hu hset
  | message ws f => exact hs.message hset
  | closing ws => exact hs.shut ws
  | closed ws now saved => exact hs.closed now saved
  | register call => exact hs.register call
  | rename call => exact hs.rename call
  | takeover call => exact hs.slotsKept (slotsKept_takeover call) (fun _ _ => rfl) rfl rfl rfl
  | destroy id acknowledged saved =>
    refine hs.slotsKept ?_ (fun _ _ => rfl) rfl rfl rfl
    cases hget : g.reg.sessions.get? id with
    | none =>
      rw [step, Event.apply, hget]
      exact .refl _
    | some r =>
      rw [step, Event.apply, hget]
      exact slotsKept_close acknowledged saved hget
  | remove id => exact hs.slotsKept (slotsKept_removeClosed id) (fun _ _ => rfl) rfl rfl rfl
  | collect id saved => exact hs.collect saved id

theorem sound_run {uuid : Nat → Text} {host : Host} (hu : Function.Injective uuid)
    (hs : Sound uuid g) {traffic : List Traffic} (hset : RunSettled host uuid g traffic) :
    Sound uuid (g.run host uuid traffic) := by
  induction traffic generalizing g with
  | nil => exact hs
  | cons t traffic ih => exact ih (sound_step hu hs hset.1) hset.2

/-! ## Ownership -/

/-- The claim was saved, and proved the credential that the session held. -/
def Completed (c : Claim) : Prop :=
  c.saved = .ok ∧ (c.sessionHoldsCredential = true → c.provedSessionCredential = true)

/-- Whoever owns a wrapped record holds it, and whoever acted as an owner acted, by a completed claim
of its own; no two sockets act under one generation; and a socket that lost its slot, or never proved
the credential, does not act afterwards. -/
structure Owned (g : Gateway) : Prop where
  owner : ∀ id r ws, g.reg.sessions.get? id = some r → r.hasType "wrapped" = true →
    r.ownerWs = some ws → ∃ c, .claimed c ∈ g.log ∧ Completed c ∧ c.socket = ws ∧
      c.object = g.objects id ∧ r.ownerToken = some c.ownerToken ∧
      r.interactionOwnerGeneration = some c.ownerGeneration
  acted : ∀ ws stamp, .acted ws stamp ∈ g.log →
    ∃ c, .claimed c ∈ g.log ∧ Completed c ∧ c.socket = ws ∧ c.stamp = stamp
  alone : ∀ ws₁ ws₂ stamp₁ stamp₂, .acted ws₁ stamp₁ ∈ g.log → .acted ws₂ stamp₂ ∈ g.log →
    stamp₁.ownerGeneration = stamp₂.ownerGeneration → ws₁ = ws₂
  silent : ∀ before after ws stamp,
    g.log = before ++ .lost ws :: after ∨ g.log = before ++ .unproved ws :: after →
      .acted ws stamp ∉ after

/-- A granted seat goes back to a claim. -/
theorem Sound.claim_of_granted {uuid : Nat → Text} (hs : Sound uuid g) {ws : Nat} {stamp : Stamp}
    (h : .granted ws stamp ∈ g.facts) :
    ∃ c, .claimed c ∈ g.log ∧ Completed c ∧ c.socket = ws ∧ c.stamp = stamp := by
  obtain ⟨fact, hfact, he⟩ := List.mem_filterMap.mp h
  cases fact with
  | claimed c =>
    rw [OwnerFact.seatFact] at he
    split at he
    · next hsaved =>
      cases he
      exact ⟨c, hfact, ⟨hsaved, hs.gated c hfact⟩, rfl, rfl⟩
    · cases he
  | lost ws => cases he
  | unproved ws => cases he
  | acted ws stamp => cases he

theorem mem_facts_acted {log : List OwnerFact} {ws : Nat} {stamp : Stamp} (h : .acted ws stamp ∈ log) :
    .acted ws stamp ∈ log.filterMap OwnerFact.seatFact :=
  List.mem_filterMap.mpr ⟨_, h, rfl⟩

theorem Sound.owned {uuid : Nat → Text} (hs : Sound uuid g) : g.Owned where
  owner id r ws hget _ hws := by
    have hseat : g.seat id = some (ws,
        ⟨g.objects id, r.ownerToken, r.interactionOwnerGeneration⟩) := by
      rw [seat_of_get? hget, SessionRecord.seat, hws, Option.map_some]
    obtain ⟨c, hc, hdone, hsocket, hstamp⟩ :=
      hs.claim_of_granted (hs.tenure.granted _ _ _ hseat)
    simp only [Claim.stamp, Stamp.mk.injEq] at hstamp
    exact ⟨c, hc, hdone, hsocket, hstamp.1, hstamp.2.1.symm, hstamp.2.2.symm⟩
  acted ws stamp ha := hs.claim_of_granted (hs.tenure.acts ws stamp (mem_facts_acted ha))
  alone ws₁ ws₂ stamp₁ stamp₂ h₁ h₂ he :=
    hs.tenure.one_holder (mem_facts_acted h₁) (mem_facts_acted h₂) he
  silent before after ws stamp hlog ha := by
    refine hs.tenure.silent (before.filterMap OwnerFact.seatFact)
      (after.filterMap OwnerFact.seatFact) ws stamp ?_ (mem_facts_acted ha)
    rcases hlog with hlog | hlog <;>
    · rw [facts, hlog, List.filterMap_append, List.filterMap_cons]
      rfl

/-- **In every run of settled steps, ownership moves only through completed claims.** -/
theorem owned_run {uuid : Nat → Text} {host : Host} (hu : Function.Injective uuid) (now : Nat)
    (reg : Context) {traffic : List Traffic}
    (hset : RunSettled host uuid (started host now reg) traffic) :
    ((started host now reg).run host uuid traffic).Owned :=
  (sound_run hu (sound_started uuid host now reg) hset).owned

/-! ### A daemon and two bridges -/

def pairUuid (n : Nat) : Text := List.replicate n 'u'

theorem pairUuid_injective : Function.Injective pairUuid := fun m n h => by
  simpa [pairUuid] using congrArg List.length h

/-- A bridge that asks to own the session. -/
def bridgeHandshake : Handshake :=
  { sessionId := "s", owner := true, command := none, ownerPid := none, bearer := none
    capability := none, now := 0, saved := .ok }

def outputFrame : Frame :=
  { message := some (.obj [("type", .str "output"), ("data", .str "x")]), now := 0
    negotiated := false, transportReady := false }

/-- One bridge takes the session over from another. -/
def takenOverTraffic : List Traffic :=
  [.connect bridgeHandshake, .message 0 outputFrame, .connect bridgeHandshake, .message 0 outputFrame,
    .message 1 outputFrame]

theorem owned_run_takenOver :
    RunSettled plainHost pairUuid (started plainHost 0 .started) takenOverTraffic ∧
      ((started plainHost 0 .started).run plainHost pairUuid takenOverTraffic).Owned :=
  have hset : RunSettled plainHost pairUuid (started plainHost 0 .started) takenOverTraffic := by
    decide +kernel
  ⟨hset, owned_run pairUuid_injective 0 .started hset⟩

/-- The second bridge goes before the connection of the first has ended. -/
def leftOverTraffic : List Traffic :=
  [.connect bridgeHandshake, .connect bridgeHandshake, .closed 1 0 .ok, .message 0 outputFrame]

/-- Ownership moves only through completed claims. -/
def OwnershipByClaims : Prop :=
  ∀ (host : Host) (uuid : Nat → Text) (now : Nat) (reg : Context) (traffic : List Traffic),
    Function.Injective uuid → ((started host now reg).run host uuid traffic).Owned

/-- A bridge that was displaced is served as the owner under the generation of its successor. -/
theorem displaced_readopts : ¬OwnershipByClaims := by
  intro h
  have howned := h plainHost pairUuid 0 .started leftOverTraffic pairUuid_injective
  have hlost : ((started plainHost 0 .started).run plainHost pairUuid leftOverTraffic).log
      = [.claimed ⟨0, ("s", 1), false, false, pairUuid 0, pairUuid 1, .ok⟩] ++ .lost 0 ::
          [.claimed ⟨1, ("s", 1), false, false, pairUuid 2, pairUuid 3, .ok⟩, .lost 1,
            .acted 0 ⟨("s", 1), some (pairUuid 2), some (pairUuid 3)⟩] := by
    decide +kernel
  exact howned.silent _ _ 0 ⟨("s", 1), some (pairUuid 2), some (pairUuid 3)⟩ (.inl hlost) (by decide)

end Gateway

end Telepty.Registry
