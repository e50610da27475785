import Telepty.Client.Model

/-!
# Every submission settles once

A submission is settled at once or put in flight with the unit it was admitted on, and leaves the
flight only by being settled. `Inv` says so of a whole history: each transaction submitted so far is
settled or in flight and not both, the counters are the sums over those in flight, and each of
those was posted to the owner that is alive.

The last needs that a submission made while the store is available finds an owner. An `open()` of
an available store lets the live owner go and waits for its termination before the state changes,
and what is submitted meanwhile is admitted and posted to nobody.
-/

namespace Telepty.LedgerClient

open Infra Ledger

namespace Client

variable {c c' : Client} {txns : List Text}

/-! ## What is in flight -/

/-- The units of the transactions in flight. -/
def grants (c : Client) : List Grant := c.inflight.values.map Inflight.grant

/-- Each transaction is settled or in flight, once, and the counters are right. -/
structure Counted (c : Client) (txns : List Text) : Prop where
  once : (c.settled.map Prod.fst ++ c.inflight.keys).Perm txns
  sound : Account.Sound ⟨c.accounting, c.grants⟩

/-- **The invariant of a client that was given some transactions.** -/
structure Inv (c : Client) (txns : List Text) : Prop extends Counted c txns where
  /-- what is in flight was posted to the owner that is alive -/
  waits : ∀ txn i, c.inflight.get? txn = some i →
    ∃ gen, c.worker = some gen ∧ (gen, Message.submit ⟨txn, i.kind, i.delta⟩) ∈ c.posted
  gen : ∀ gen, c.worker = some gen → gen = c.workerGen
  terminate : c.opening = .terminate → c.worker = none

/-- Nothing is settled or put in flight, no unit moves and the owner stays. -/
structure Still (c c' : Client) : Prop where
  inflight : c'.inflight = c.inflight
  settled : c'.settled = c.settled
  sound : ∀ gs, Account.Sound ⟨c.accounting, gs⟩ → Account.Sound ⟨c'.accounting, gs⟩
  posted : ∀ x ∈ c.posted, x ∈ c'.posted
  worker : c'.worker = c.worker
  workerGen : c'.workerGen = c.workerGen
  opening : c'.opening = .terminate → c.opening = .terminate

theorem Still.refl (c : Client) : Still c c :=
  ⟨rfl, rfl, fun _ h => h, fun _ h => h, rfl, rfl, id⟩

/-- The fields that `Still` speaks of, but for the phase of an open. -/
def core (c : Client) : OrdMap Text Inflight × List (Text × Outcome) × Accounting ×
    List (Nat × Message) × Option Nat × Nat :=
  (c.inflight, c.settled, c.accounting, c.posted, c.worker, c.workerGen)

theorem Still.of_core (h : c'.core = c.core)
    (ho : c'.opening = .terminate → c.opening = .terminate) : Still c c' := by
  simp only [core, Prod.mk.injEq] at h
  obtain ⟨hi, hs, ha, hp, hw, hg⟩ := h
  exact ⟨hi, hs, fun gs h => ha ▸ h, fun x hx => hp ▸ hx, hw, hg, ho⟩

theorem Still.trans {c'' : Client} (h : Still c c') (h' : Still c' c'') : Still c c'' where
  inflight := h'.inflight.trans h.inflight
  settled := h'.settled.trans h.settled
  sound gs hs := h'.sound gs (h.sound gs hs)
  posted x hx := h'.posted x (h.posted x hx)
  worker := h'.worker.trans h.worker
  workerGen := h'.workerGen.trans h.workerGen
  opening ho := h.opening (h'.opening ho)

theorem Counted.of_still (h : Counted c txns) (hs : Still c c') : Counted c' txns where
  once := by
    rw [hs.inflight, hs.settled]
    exact h.once
  sound := by
    rw [grants, hs.inflight]
    exact hs.sound _ h.sound

theorem Inv.of_still (h : Inv c txns) (hs : Still c c') : Inv c' txns where
  toCounted := h.toCounted.of_still hs
  waits txn i hi := by
    rw [hs.inflight] at hi
    obtain ⟨gen, hg, hp⟩ := h.waits txn i hi
    exact ⟨gen, hs.worker.trans hg, hs.posted _ hp⟩
  gen g hg := by
    rw [hs.workerGen]
    exact h.gen g (hs.worker ▸ hg)
  terminate ho := hs.worker.trans (h.terminate (hs.opening ho))

theorem Counted.of_inflight_eq (h : Counted c txns) (hi : c'.inflight = c.inflight)
    (hs : c'.settled = c.settled) (ha : c'.accounting = c.accounting) : Counted c' txns where
  once := by
    rw [hi, hs]
    exact h.once
  sound := by
    rw [grants, hi, ha]
    exact h.sound

/-- With nothing in flight and no owner there is nothing more to say. -/
theorem Inv.of_nil (h : Counted c txns) (hn : c.inflight.entries = []) (hw : c.worker = none) :
    Inv c txns where
  toCounted := h
  waits txn i hi := by
    have hm := c.inflight.mem_entries_iff.mpr hi
    rw [hn] at hm
    cases hm
  gen g hg := by
    rw [hw] at hg
    cases hg
  terminate _ := hw

/-- Without an owner nothing is in flight. -/
theorem Inv.entries_eq_nil (h : Inv c txns) (hw : c.worker = none) : c.inflight.entries = [] := by
  cases he : c.inflight.entries with
  | nil => rfl
  | cons e l =>
    obtain ⟨txn, i⟩ := e
    have hi : c.inflight.get? txn = some i :=
      c.inflight.mem_entries_iff.mp (by rw [he]; exact List.mem_cons_self)
    obtain ⟨gen, hg, -⟩ := h.waits txn i hi
    rw [hw] at hg
    cases hg

/-! ## Steps that settle nothing -/

theorem still_post (m : Message) (c : Client) : Still c (c.post m) := by
  unfold post
  split
  · exact ⟨rfl, rfl, fun _ h => h, fun _ h => List.mem_append_left _ h, rfl, rfl, id⟩
  · exact .refl c

theorem post_of_worker {gen : Nat} (h : c.worker = some gen) (m : Message) :
    c.post m = { c with posted := c.posted ++ [(gen, m)] } := by
  rw [post, h]

theorem still_answer (req : Text) (items : List Json) (reason : Text) (c : Client) :
    Still c (c.answer req items reason) := .of_core rfl fun h => h

theorem still_foldl {α : Type} {f : Client → α → Client} (hf : ∀ c a, Still c (f c a))
    (l : List α) (c : Client) : Still c (l.foldl f c) := by
  induction l generalizing c with
  | nil => exact .refl c
  | cons a l ih => exact (hf c a).trans (ih (f c a))

theorem still_clearReads (reason : Text) (c : Client) : Still c (c.clearReads reason) :=
  still_foldl (fun c req => still_answer req [] reason c) _ c

/-- The accounting is changed and what is outstanding is not. -/
theorem still_accounting {a : Accounting} (c : Client)
    (h : ∀ gs, Account.Sound ⟨c.accounting, gs⟩ → Account.Sound ⟨a, gs⟩) :
    Still c { c with accounting := a } := ⟨rfl, rfl, h, fun _ h => h, rfl, rfl, id⟩

theorem still_releaseJob (id : Option Text) (c : Client) : Still c (c.releaseJob id) := by
  cases id with
  | none => exact .refl c
  | some id => exact still_accounting c fun _ h => h.step (c := .releaseJob id) trivial

theorem still_reserveJob (id : Text) (free : Bool) (t : Nat) (c : Client) :
    Still c (c.reserveJob id free t).2 := by
  unfold reserveJob
  split
  · exact .refl c
  split
  · exact .refl c
  · exact still_accounting c fun _ h => h.step (c := .reserveJob id t) trivial

theorem still_readRequest (req : Text) (m : Message) (c : Client) :
    Still c (c.readRequest req m) := by
  unfold readRequest
  split
  · exact still_answer _ _ _ c
  · have h : Still c { c with reads := c.reads ++ [req] } :=
      .of_core rfl fun h => h
    exact h.trans (still_post m _)

theorem still_live (sid : Text) (on : Bool) (c : Client) : Still c (c.live sid on) := by
  unfold live
  refine Still.trans ?_ (still_post _ _)
  exact .of_core rfl fun h => h

theorem still_lockRefused (reason : Text) (c : Client) : Still c (c.lockRefused reason) :=
  .of_core rfl fun h => h

theorem still_acquireLock (answer : LockAnswer) (c : Client) : Still c (c.acquireLock answer) := by
  unfold acquireLock
  split
  · exact .refl c
  split
  · exact still_lockRefused _ c
  · exact .of_core rfl fun h => h

theorem still_lockSettled (refused : Option Text) (c : Client) : Still c (c.lockSettled refused) := by
  unfold lockSettled
  split
  · exact .refl c
  have h : Still c { c with
      lockPending := false
      lockHeld := refused.isNone
      opening := if c.opening = .lock then .answered refused.isNone else c.opening } := by
    refine .of_core rfl fun ho => ?_
    simp only at ho
    split at ho
    · cases ho
    · exact ho
  simp only
  split
  · split
    · exact h.trans (still_lockRefused _ _)
    · exact h
  · exact h

theorem still_settleOpen (c : Client) : Still c c.settleOpen := by
  unfold settleOpen
  split
  · exact Still.of_core rfl fun h => (by cases h)
  · exact .refl c

theorem still_openFinished (c : Client) : Still c c.openFinished := by
  unfold openFinished
  split
  · exact Still.of_core rfl fun h => (by cases h)
  · exact .refl c

theorem still_onState (store : StoreState) (reason : Text) (epoch : Nat) (c : Client) :
    Still c (c.onState store reason epoch) := by
  have h : ∀ (s : Status) (r : Text) (e : Nat) (p b : Bool), Still c { c with
      status := s, reason := r, epoch := e, pendingAvailable := p, openedOnce := b } :=
    fun _ _ _ _ _ => .of_core rfl fun h => h
  unfold onState
  simp only
  split
  · split
    · exact h _ _ _ _ _
    · exact h _ _ _ _ _
  · split
    · exact (h _ _ _ _ _).trans (still_settleOpen _)
    · exact h _ _ _ _ _

theorem still_rebuildAdmittedJobs (t : Nat) (c : Client) : Still c (c.rebuildAdmittedJobs t) :=
  still_foldl (fun c r => still_accounting c fun _ h =>
    h.step (c := .reserveJob (r.textField "inject_id") t) trivial) _ c

theorem still_onSnapshotChunk (items : List Json) (req : Text) (t : Nat) (c : Client) :
    Still c (c.onSnapshotChunk items req t) := by
  unfold onSnapshotChunk
  simp only
  have h0 : Still c { c with
      readModel := items.foldl ReadModel.addItem (c.nextModel.getD .empty), nextModel := none } :=
    .of_core rfl fun h => h
  have h1 := h0.trans (still_rebuildAdmittedJobs t _)
  generalize rebuildAdmittedJobs t _ = d at h1
  have h2 : Still c (if d.pendingAvailable = true then
      { d with pendingAvailable := false, status := .store .available, openedOnce := true } else d) := by
    split
    · exact h1.trans (.of_core rfl fun h => h)
    · exact h1
  generalize (if d.pendingAvailable = true then
      { d with pendingAvailable := false, status := Status.store .available, openedOnce := true }
      else d) = e at h2
  have h3 := h2.trans (still_settleOpen e)
  split
  · exact h3
  · exact h3.trans (still_readRequest _ _ _)

theorem still_applyWritten (i : Inflight) (effects : List Effect) (c : Client) :
    Still c (c.applyWritten i effects) := by
  have h : ∀ model, Still c { c with readModel := model } :=
    fun _ => .of_core rfl fun h => h
  unfold applyWritten
  simp only
  split
  · exact (h _).trans (still_releaseJob _ _)
  · exact h _

theorem still_onDemoted (ids : List Text) (c : Client) : Still c (c.onDemoted ids) := by
  refine still_foldl (fun c id => Still.trans ?_ (still_releaseJob (some id) _)) ids c
  exact .of_core rfl fun h => h

theorem still_onReadChunk (req : Text) (items : List Json) (reason : Text) (c : Client) :
    Still c (c.onReadChunk req items reason) := by
  unfold onReadChunk
  split
  · exact still_answer _ _ _ c
  · exact .refl c

theorem still_releaseLock (released : Bool) (c : Client) : Still c (c.releaseLock released) :=
  .of_core rfl fun h => h

theorem still_closeBody (released : Bool) (c : Client) : Still c (c.closeBody released) := by
  unfold closeBody
  split
  · refine Still.trans ?_ (still_post _ _)
    exact .of_core rfl fun h => h
  · refine Still.trans ?_ (still_releaseLock _ _)
    exact .of_core rfl fun h => h

theorem still_close (released : Bool) (c : Client) : Still c (c.close released) := by
  unfold close
  split
  · exact .refl c
  have h : Still c { c with closing := true } :=
    .of_core rfl fun h => h
  simp only
  split
  · exact h.trans (.of_core rfl fun h => h)
  · exact h.trans (still_closeBody _ _)

theorem still_closeContinues (released : Bool) (c : Client) : Still c (c.closeContinues released) := by
  unfold closeContinues
  split
  · exact still_closeBody _ c
  · exact .refl c

theorem still_closeTerminated (released : Bool) (c : Client) :
    Still c (c.closeTerminated released) := by
  unfold closeTerminated
  split
  · refine Still.trans ?_ (still_releaseLock _ _)
    exact .of_core rfl fun h => h
  · exact .refl c

theorem still_closeFinished (c : Client) : Still c c.closeFinished := by
  unfold closeFinished
  split
  · exact .of_core rfl fun h => h
  · exact .refl c

/-! ## Steps that settle -/

theorem Still.settle (h : Still c c') (txn : Text) (outcome : Outcome) :
    Still (c.settle txn outcome) (c'.settle txn outcome) where
  inflight := h.inflight
  settled := by rw [Client.settle, Client.settle, h.settled]
  sound := h.sound
  posted := h.posted
  worker := h.worker
  workerGen := h.workerGen
  opening := h.opening

/-- A transaction leaves the flight by being settled. -/
theorem Counted.settle_take (h : Counted c txns) {txn : Text} {i : Inflight}
    (hi : c.inflight.get? txn = some i) (outcome : Outcome) :
    Counted ((c.take txn i).settle txn outcome) txns where
  once := by
    have hp := (c.inflight.perm_delete hi).map Prod.fst
    refine List.Perm.trans ?_ h.once
    simp only [settle, take, OrdMap.keys, List.map_append, List.map_cons, List.map_nil,
      List.append_assoc, List.singleton_append]
    exact hp.symm.append_left _
  sound := by
    have hp := ((c.inflight.perm_delete hi).map Prod.snd).map Inflight.grant
    have hs := (h.sound.perm hp).step (c := .release i.grant) List.mem_cons_self
    rw [Account.step, List.map_cons, List.map_cons, List.erase_cons_head] at hs
    exact hs

theorem Inv.settle_take (h : Inv c txns) {txn : Text} {i : Inflight}
    (hi : c.inflight.get? txn = some i) (outcome : Outcome) :
    Inv ((c.take txn i).settle txn outcome) txns where
  toCounted := h.toCounted.settle_take hi outcome
  waits t j hj := by
    have hj' : (c.inflight.delete txn).get? t = some j := hj
    rw [OrdMap.get?_delete] at hj'
    split at hj'
    · cases hj'
    · exact h.waits t j hj'
  gen := h.gen
  terminate := h.terminate

/-- `resolveIndeterminate` up to the note on the unresolved transaction. -/
theorem still_resolveIndeterminate (why txn : Text) (i : Inflight) (c : Client) :
    Still ((c.take txn i).settle txn (.indeterminate why)) (c.resolveIndeterminate why txn i) := by
  unfold resolveIndeterminate
  simp only
  refine Still.settle ?_ txn _
  split
  · exact .of_core rfl fun h => h
  · exact .refl _

theorem Counted.resolveAll (h : Counted c txns) (why : Text) :
    Counted (c.resolveAll why) txns ∧ (c.resolveAll why).inflight.entries = [] ∧
      (c.resolveAll why).worker = c.worker := by
  have hfold : ∀ (l : List (Text × Inflight)) (c : Client), c.inflight.entries = l → Counted c txns →
      Counted (l.foldl (fun c e => c.resolveIndeterminate why e.1 e.2) c) txns ∧
        (l.foldl (fun c e => c.resolveIndeterminate why e.1 e.2) c).inflight.entries = [] ∧
        (l.foldl (fun c e => c.resolveIndeterminate why e.1 e.2) c).worker = c.worker := by
    intro l
    induction l with
    | nil => exact fun c hc h => ⟨h, hc, rfl⟩
    | cons e l ih =>
      intro c hc h
      obtain ⟨txn, i⟩ := e
      have hi : c.inflight.get? txn = some i :=
        c.inflight.mem_entries_iff.mp (by rw [hc]; exact List.mem_cons_self)
      have hs := still_resolveIndeterminate why txn i c
      have hl : (c.resolveIndeterminate why txn i).inflight.entries = l := by
        rw [hs.inflight]
        exact c.inflight.entries_delete_head hc
      obtain ⟨h1, h2, h3⟩ := ih _ hl ((h.settle_take hi _).of_still hs)
      exact ⟨h1, h2, h3.trans hs.worker⟩
  exact hfold _ c rfl h

/-- The owner is gone: everything in flight is settled. -/
theorem Counted.ownerGone (h : Counted c txns) (hw : c.worker = none) (why : Text) :
    Inv ((c.resolveAll why).clearReads why) txns := by
  obtain ⟨h1, h2, h3⟩ := h.resolveAll why
  exact (Inv.of_nil h1 h2 (h3.trans hw)).of_still (still_clearReads _ _)

theorem Inv.startOwner (h : Inv c txns) (hw : c.worker = none) : Inv c.startOwner txns := by
  have hn := h.entries_eq_nil hw
  refine Inv.of_still ?_ (still_post _ _)
  refine ⟨h.toCounted.of_inflight_eq rfl rfl rfl, fun txn i hi => ?_, fun gen hg => ?_, fun ho => ?_⟩
  · have hm := c.inflight.mem_entries_iff.mpr hi
    rw [hn] at hm
    cases hm
  · cases hg
    rfl
  · cases ho

theorem Inv.replaceOwner (h : Inv c txns) : Inv c.replaceOwner txns := by
  unfold Client.replaceOwner
  split
  · next hw => exact h.startOwner hw
  · refine Counted.ownerGone ?_ rfl _
    exact h.toCounted.of_inflight_eq rfl rfl rfl

theorem Inv.openClient (h : Inv c txns) (liveSids : List Text) (answer : LockAnswer) :
    Inv (c.openClient liveSids answer) txns := by
  have hgo : ∀ d, Still c d → Inv (
      let d := { d with
        liveSids := d.liveSids ++ liveSids.filter (· ∉ d.liveSids), closing := false }
      if d.lockHeld then d.replaceOwner
      else { d with status := .store .recovering, reason := [], pendingAvailable := false,
                    opening := .lock }) txns := by
    intro d hd
    have hd' : Inv { d with
        liveSids := d.liveSids ++ liveSids.filter (· ∉ d.liveSids), closing := false } txns :=
      (h.of_still hd).of_still (.of_core rfl fun h => h)
    simp only
    split
    · exact hd'.replaceOwner
    · exact hd'.of_still (.of_core rfl fun ho => (by cases ho))
  unfold Client.openClient
  split
  · exact h
  simp only
  by_cases hl : (c.lockHeld || c.lockPending) = true
  · rw [if_pos hl]
    exact hgo c (.refl c)
  · rw [if_neg hl]
    cases answer with
    | held => exact hgo { c with lockHeld := true } (.of_core rfl fun h => h)
    | pending => exact hgo { c with lockPending := true } (.of_core rfl fun h => h)
    | refused reason => exact h.of_still (still_lockRefused reason c)

theorem Inv.openContinues (h : Inv c txns) : Inv c.openContinues txns := by
  unfold Client.openContinues
  split
  · split
    · exact h.of_still (.of_core rfl fun ho => (by cases ho))
    · exact h.replaceOwner
  · exact h

theorem Inv.openTerminated (h : Inv c txns) : Inv c.openTerminated txns := by
  unfold Client.openTerminated
  split
  · next ho => exact h.startOwner (h.terminate ho)
  · exact h

theorem Inv.respawn (h : Inv c txns) (o : ClientOptions) (answer : LockAnswer) (t : Nat) :
    Inv (c.respawn o answer t) txns := by
  unfold Client.respawn
  split
  · exact h
  simp only
  split
  · exact h.of_still (.of_core rfl fun h => h)
  · refine Inv.openClient ?_ _ _
    exact h.of_still (.of_core rfl fun h => h)

theorem Inv.respawnAfter (h : Inv c txns) (o : ClientOptions) (answer : LockAnswer) (t : Nat) :
    Inv (c.respawnAfter o answer t) txns := by
  unfold Client.respawnAfter
  split
  · exact h
  · refine Inv.respawn ?_ o answer t
    exact h.of_still (.of_core rfl fun h => h)

theorem Inv.onWorkerExit (h : Inv c txns) (o : ClientOptions) (answer : LockAnswer) (t : Nat) :
    Inv (c.onWorkerExit o answer t) txns := by
  unfold Client.onWorkerExit
  simp only
  have hgone : ∀ why, Inv (({ c with worker := none }.resolveAll why).clearReads why) txns :=
    fun why => by
      refine Counted.ownerGone ?_ rfl why
      exact h.toCounted.of_inflight_eq rfl rfl rfl
  have h' := hgone (if c.closing then "shutting_down" else "owner_failed")
  generalize clearReads _ _ = d at h'
  have hd : Inv ({ d with
      status := .store .unavailable, reason := "owner_failed",
      pendingAvailable := false }.settleOpen) txns := by
    refine Inv.of_still ?_ (still_settleOpen _)
    exact h'.of_still (.of_core rfl fun h => h)
  split
  · refine Inv.of_still ?_ (still_settleOpen _)
    exact h'.of_still (.of_core rfl fun h => h)
  · split
    · exact hd.of_still (.of_core rfl fun h => h)
    · exact hd.respawn o answer t

theorem Inv.closeOwner (h : Inv c txns) : Inv c.closeOwner txns := by
  refine Counted.ownerGone ?_ rfl _
  exact h.toCounted.of_inflight_eq rfl rfl rfl

/-- An acknowledgement settles the transaction it names, or nothing. -/
theorem onAck_cases (a : Ack) (c : Client) :
    (c.inflight.get? a.txn = none ∧ c.onAck a = c) ∨
      ∃ i, c.inflight.get? a.txn = some i ∧
        Still ((c.take a.txn i).settle a.txn (.ack a)) (c.onAck a) := by
  unfold onAck
  split
  · next hn => exact .inl ⟨hn, rfl⟩
  · next i hi =>
    refine .inr ⟨i, hi, Still.settle ?_ a.txn (.ack a)⟩
    have h1 : Still (c.take a.txn i) (if a.basis = "written" then
        (c.take a.txn i).applyWritten i a.effects else c.take a.txn i) := by
      split
      · exact still_applyWritten _ _ _
      · exact .refl _
    refine h1.trans ?_
    generalize (if a.basis = "written".toList then
        (c.take a.txn i).applyWritten i a.effects else c.take a.txn i) = d
    split
    · exact still_releaseJob _ _
    · exact .refl _

theorem Inv.onAck (h : Inv c txns) (a : Ack) : Inv (c.onAck a) txns := by
  rcases onAck_cases a c with ⟨-, he⟩ | ⟨i, hi, hs⟩
  · rw [he]
    exact h
  · exact (h.settle_take hi (.ack a)).of_still hs

theorem Inv.onNack (h : Inv c txns) (txn reason code : Text) : Inv (c.onNack txn reason code) txns := by
  unfold Client.onNack
  split
  · exact h
  · next i hi =>
    simp only
    split
    · exact h.settle_take hi _
    · exact h.settle_take hi _

theorem Inv.loseTxn (h : Inv c txns) (reason txn : Text) : Inv (c.loseTxn reason txn) txns := by
  unfold Client.loseTxn
  split
  · next i hi => exact (h.settle_take hi _).of_still (still_resolveIndeterminate _ _ _ _)
  · exact h

theorem Inv.onIndeterminate (h : Inv c txns) (ts : List Text) (reason : Text) :
    Inv (c.onIndeterminate ts reason) txns := by
  unfold Client.onIndeterminate
  induction ts generalizing c with
  | nil => exact h
  | cons txn ts ih => exact ih (h.loseTxn reason txn)

theorem Inv.onMessage (h : Inv c txns) (req : Text) (t : Nat) (m : Post) :
    Inv (c.onMessage req t m) txns := by
  cases m with
  | state store reason detail epoch => exact h.of_still (still_onState _ _ _ _)
  | snapshotChunk items => exact h.of_still (still_onSnapshotChunk _ _ _ _)
  | ack a => exact h.onAck a
  | nack txn reason code => exact h.onNack _ _ _
  | indeterminate ts reason => exact h.onIndeterminate _ _
  | progress phase step => exact h
  | demoted ids checkpoint => exact h.of_still (still_onDemoted _ _)
  | readChunk req items reason tier => exact h.of_still (still_onReadChunk _ _ _ _)
  | resolveChunk r items =>
    rw [Client.onMessage]
    split
    · exact (h.of_still (still_onReadChunk _ _ _ _)).of_still (.of_core rfl fun h => h)
    · exact h
  | closed clean unresolved =>
    rw [Client.onMessage, Client.onClosed]
    split
    · exact h.closeOwner
    · exact h

/-! ## Submitting -/

/-- A transaction that is answered at once. -/
theorem Inv.settle (h : Inv c txns) (txn : Text) (outcome : Outcome) :
    Inv (c.settle txn outcome) (txns ++ [txn]) where
  once := by
    simp only [Client.settle, List.map_append, List.map_cons, List.map_nil, List.append_assoc,
      List.singleton_append]
    refine List.perm_middle.trans ?_
    exact (h.once.cons txn).trans (List.perm_append_singleton txn txns).symm
  sound := h.sound
  waits := h.waits
  gen := h.gen
  terminate := h.terminate

/-- A transaction that was admitted and posted to the live owner. -/
theorem Inv.setInflight (h : Inv c txns) {txn : Text} (hnew : txn ∉ txns) (i : Inflight)
    {a : Accounting} (ha : Account.Sound ⟨a, c.grants ++ [i.grant]⟩) (hw : c.worker.isSome = true) :
    Inv ({ c with accounting := a, inflight := c.inflight.set txn i }.post
      (.submit ⟨txn, i.kind, i.delta⟩)) (txns ++ [txn]) := by
  have hfree : c.inflight.get? txn = none := by
    cases hg : c.inflight.get? txn with
    | none => rfl
    | some j =>
      have hk : txn ∈ c.inflight.keys := c.inflight.mem_keys_iff.mpr ⟨j, hg⟩
      exact absurd (h.once.mem_iff.mp (List.mem_append_right _ hk)) hnew
  obtain ⟨gen, hgen⟩ := Option.isSome_iff_exists.mp hw
  have he := c.inflight.entries_set_of_none (v := i) hfree
  rw [post_of_worker (c := { c with accounting := a, inflight := c.inflight.set txn i }) hgen]
  refine ⟨⟨?_, ?_⟩, fun t j hj => ?_, h.gen, h.terminate⟩
  · simp only [OrdMap.keys, he, List.map_append, List.map_cons, List.map_nil]
    rw [← List.append_assoc]
    exact h.once.append_right _
  · simp only [grants, OrdMap.values, he, List.map_append, List.map_cons, List.map_nil]
    exact ha
  · refine ⟨gen, hgen, ?_⟩
    have hj' : (c.inflight.set txn i).get? t = some j := hj
    rw [OrdMap.get?_set] at hj'
    split at hj'
    · next ht =>
      cases hj'
      rw [ht]
      exact List.mem_append_right _ (List.mem_singleton_self _)
    · obtain ⟨g, hg, hp⟩ := h.waits t j hj'
      rw [hgen] at hg
      cases hg
      exact List.mem_append_left _ hp

/-- A submission in a store that is available finds an owner. -/
def Served (c : Client) : Prop := c.isAvailable = true → c.worker.isSome = true

instance (c : Client) : Decidable c.Served := inferInstanceAs (Decidable (_ → _))

theorem Inv.submit (h : Inv c txns) (o : ClientOptions) {txn : Text} (hnew : txn ∉ txns)
    (hs : c.Served) (kind : Text) (delta : Json) (opts : SubmitOpts) (t : Nat) :
    Inv (c.submit o txn kind delta opts t) (txns ++ [txn]) := by
  unfold Client.submit
  split
  · exact h.settle txn _
  next hav =>
  rw [Bool.not_eq_false] at hav
  simp only
  split
  · exact h.settle txn _
  split
  · exact h.settle txn _
  generalize (if kind = "begin".toList then "T".toList
    else if opts.cls ≠ [] then opts.cls
    else classify kind (delta.field "observation".toList) opts.result) = cls
  generalize (if kind = "begin".toList then
      (encodeFrame o.digests (provisionalFrame txn kind delta)).length
    else reserveBytes cls (encodeFrame o.digests (provisionalFrame txn kind delta)).length) = size
  have hadmit := h.sound.step (c := .admitUnit cls (some (size : Int)) (jobIdOf kind delta opts) t) trivial
  rw [Account.step] at hadmit
  split
  · next hg =>
    rw [hg, List.append_nil] at hadmit
    exact (h.of_still (still_accounting c fun gs hgs => by
      have := hgs.step (c := .admitUnit cls (some (size : Int)) (jobIdOf kind delta opts) t) trivial
      rw [Account.step, hg, List.append_nil] at this
      exact this)).settle txn _
  · next g gs hg =>
    have hnil : gs = [] := by
      unfold Account.granted at hg
      split at hg
      · cases hg
        rfl
      · cases hg
    rw [hg, hnil] at hadmit
    exact h.setInflight hnew ⟨kind, g, _, delta⟩ hadmit (hs hav)

/-! ## Runs -/

/-- The submission of an event finds an owner. -/
def ServedBy (c : Client) : Event → Prop
  | .submit .. => c.Served
  | _ => True

/-- Every submission of a run finds an owner. -/
def ServedRun (o : ClientOptions) : Client → List Event → Prop
  | _, [] => True
  | c, e :: events => c.ServedBy e ∧ ServedRun o (c.step o e) events

end Client

/-- The transaction that an event submits. -/
def Event.txn? : Event → Option Text
  | .submit txn .. => some txn
  | _ => none

/-- The transactions that some events submit. -/
def submitted (events : List Event) : List Text := events.filterMap Event.txn?

/-- The transactions that a message of an owner answers. -/
def answers : Post → List Text
  | .ack a => [a.txn]
  | .nack txn _ _ => [txn]
  | .indeterminate txns _ => txns
  | _ => []

namespace Client

/-- An event that submits nothing. -/
theorem Inv.step_of_none (h : Inv c txns) (o : ClientOptions) {e : Event} (he : e.txn? = none) :
    Inv (c.step o e) txns := by
  cases e with
  | submit => cases he
  | acquireLock answer => exact h.of_still (still_acquireLock _ _)
  | releaseLock released => exact h.of_still (still_releaseLock _ _)
  | lockSettled refused => exact h.of_still (still_lockSettled _ _)
  | openClient liveSids answer => exact h.openClient _ _
  | openContinues => exact h.openContinues
  | openTerminated => exact h.openTerminated
  | openFinished => exact h.of_still (still_openFinished _)
  | respawnAfter answer t => exact h.respawnAfter o _ _
  | reserveJob id free t => exact h.of_still (still_reserveJob _ _ _ _)
  | releaseJob id => exact h.of_still (still_releaseJob (some id) c)
  | reserveAct sid =>
    exact h.of_still (still_accounting c fun _ hs => hs.step (c := .reserveAct sid) trivial)
  | releaseAct sid =>
    exact h.of_still (still_accounting c fun _ hs => hs.step (c := .releaseAct sid) trivial)
  | read req op => exact h.of_still (still_readRequest _ _ _)
  | resolve req ts => exact h.of_still (still_readRequest _ _ _)
  | compact req => exact h.of_still (still_readRequest _ _ _)
  | live sid on => exact h.of_still (still_live _ _ _)
  | message gen m req t =>
    rw [Client.step]
    split
    · exact h.onMessage _ _ _
    · exact h
  | exit gen answer t =>
    rw [Client.step]
    split
    · exact h.onWorkerExit o _ _
    · exact h
  | close released => exact h.of_still (still_close _ _)
  | closeContinues released => exact h.of_still (still_closeContinues _ _)
  | closeDeadline =>
    rw [Client.step]
    split
    · exact h.closeOwner
    · exact h
  | closeTerminated released => exact h.of_still (still_closeTerminated _ _)
  | closeFinished => exact h.of_still (still_closeFinished _)

/-- **One step keeps the invariant**, with the transaction that the step submits. -/
theorem Inv.step (h : Inv c txns) (o : ClientOptions) {e : Event} (hs : c.ServedBy e)
    (hnew : ∀ txn, e.txn? = some txn → txn ∉ txns) :
    Inv (c.step o e) (txns ++ e.txn?.toList) := by
  cases he : e.txn? with
  | none =>
    rw [Option.toList_none, List.append_nil]
    exact h.step_of_none o he
  | some txn =>
    have hn := hnew txn he
    cases e with
    | submit txn' kind delta opts t =>
      cases he
      exact h.submit o hn hs kind delta opts t
    | _ => cases he

/-- **A run keeps the invariant** when its transactions are distinct and find an owner. -/
theorem Inv.run (h : Inv c txns) (o : ClientOptions) {events : List Event}
    (hs : c.ServedRun o events) (hn : (txns ++ submitted events).Nodup) :
    Inv (c.run o events) (txns ++ submitted events) := by
  induction events generalizing c txns with
  | nil =>
    rw [show submitted [] = [] from rfl, List.append_nil]
    exact h
  | cons e events ih =>
    have hsub : submitted (e :: events) = e.txn?.toList ++ submitted events := by
      rw [submitted, List.filterMap_cons]
      cases e.txn? <;> rfl
    rw [hsub, ← List.append_assoc] at hn ⊢
    refine ih (h.step o hs.1 fun txn he hm => ?_) hs.2 hn
    rw [he, Option.toList_some] at hn
    exact (List.nodup_append.mp (List.nodup_append.mp hn).1).2.2 txn hm txn
      (List.mem_singleton_self _) rfl

theorem inv_initial (liveSids : List Text) : Inv (initial liveSids) [] where
  once := .refl _
  sound := Account.sound_initial
  waits txn i h := by cases h
  gen g h := by cases h
  terminate h := by cases h

/-! ## The answers of an owner -/

theorem loseTxn_inflight (reason t txn : Text) (c : Client) :
    (c.loseTxn reason t).inflight.get? txn = if txn = t then none else c.inflight.get? txn := by
  unfold loseTxn
  split
  · next i hi =>
    rw [(still_resolveIndeterminate _ t i c).inflight]
    exact OrdMap.get?_delete _ _
  · next hn =>
    split
    · next he => rw [he, hn]
    · rfl

theorem onIndeterminate_inflight (ts : List Text) (reason : Text) (c : Client) (txn : Text) :
    (c.onIndeterminate ts reason).inflight.get? txn
      = if txn ∈ ts then none else c.inflight.get? txn := by
  unfold onIndeterminate
  induction ts generalizing c with
  | nil => exact (if_neg List.not_mem_nil).symm
  | cons t ts ih =>
    rw [List.foldl_cons, ih, loseTxn_inflight]
    by_cases h1 : txn ∈ ts
    · rw [if_pos h1, if_pos (List.mem_cons_of_mem _ h1)]
    · by_cases h2 : txn = t
      · rw [if_neg h1, if_pos h2, if_pos (by rw [h2]; exact List.mem_cons_self)]
      · have hm : txn ∉ t :: ts := fun hm => (List.mem_cons.mp hm).elim h2 h1
        rw [if_neg h1, if_neg h2, if_neg hm]

/-- What an owner answers is no longer in flight. -/
theorem onMessage_answers {m : Post} {txn : Text} (h : txn ∈ answers m) (req : Text) (t : Nat)
    (c : Client) : (c.onMessage req t m).inflight.get? txn = none := by
  cases m with
  | ack a =>
    obtain rfl := List.mem_singleton.mp h
    rcases onAck_cases a c with ⟨hn, he⟩ | ⟨i, -, hs⟩
    · rw [onMessage, he]
      exact hn
    · rw [onMessage, hs.inflight]
      exact (OrdMap.get?_delete _ _).trans (if_pos rfl)
  | nack txn' reason code =>
    obtain rfl := List.mem_singleton.mp h
    rw [onMessage, onNack]
    split
    · next hn => exact hn
    · next i hi =>
      have hd : (c.inflight.delete txn).get? txn = none := (OrdMap.get?_delete _ _).trans (if_pos rfl)
      simp only
      split
      · exact hd
      · exact hd
  | indeterminate ts reason =>
    rw [onMessage, onIndeterminate_inflight]
    exact if_pos h
  | _ => cases h

/-- An acknowledgement settles no transaction but its own. -/
theorem onAck_settled (a : Ack) (c : Client) :
    (c.onAck a).settled = c.settled ∨ (c.onAck a).settled = c.settled ++ [(a.txn, .ack a)] := by
  rcases onAck_cases a c with ⟨-, he⟩ | ⟨i, -, hs⟩
  · exact .inl (by rw [he])
  · exact .inr hs.settled

/-- **What is to hold of a client that was given some transactions.** -/
structure Settles (o : ClientOptions) (c : Client) (txns : List Text) : Prop where
  /-- each transaction is settled once or is still in flight -/
  once : (c.settled.map Prod.fst ++ c.inflight.keys).Perm txns
  counters : ∀ cls, c.accounting.inflight cls = outstanding (onClass cls) c.grants
  shared : c.accounting.shared = outstanding onShared c.grants
  /-- what is in flight waits for the owner that is alive, to which it was posted -/
  waits : ∀ txn i, c.inflight.get? txn = some i →
    ∃ gen, c.worker = some gen ∧ (gen, Message.submit ⟨txn, i.kind, i.delta⟩) ∈ c.posted
  /-- an answer of that owner settles it -/
  settles : ∀ gen m req t txn, c.worker = some gen → txn ∈ answers m →
    (c.step o (.message gen m req t)).inflight.get? txn = none
  /-- no acknowledgement of one transaction settles another -/
  own : ∀ gen a req t, (c.step o (.message gen (.ack a) req t)).settled = c.settled ∨
    (c.step o (.message gen (.ack a) req t)).settled = c.settled ++ [(a.txn, .ack a)]

theorem Inv.settles (h : Inv c txns) (o : ClientOptions) : Settles o c txns where
  once := h.once
  counters := h.sound.inflight
  shared := h.sound.shared
  waits := h.waits
  settles gen m req t txn hw ha := by
    rw [Client.step, if_pos (h.gen gen hw)]
    exact onMessage_answers ha req t c
  own gen a req t := by
    rw [Client.step]
    split
    · exact onAck_settled a c
    · exact .inl rfl

end Client

/-- **Every submission settles exactly once.** In every run whose transactions are distinct and
whose submissions to an available store find an owner, whatever the owners say and whenever they
exit, are replaced or are closed. -/
theorem submissions_settle_once (o : ClientOptions) (liveSids : List Text) (events : List Event)
    (hn : (submitted events).Nodup) (hs : (Client.initial liveSids).ServedRun o events) :
    ((Client.initial liveSids).run o events).Settles o (submitted events) := by
  have h := (Client.inv_initial liveSids).run o hs (by rwa [List.nil_append])
  rw [List.nil_append] at h
  exact h.settles o

/-- The defaults of `createLedgerClient`. -/
def defaultClientOptions : ClientOptions := ⟨nodeCrypto, 1, 60000⟩

/-- A store is opened and its owner says that it is available. -/
def openedEvents : List Event :=
  [.openClient [] .held, .message 1 (.state .available [] [] 1) "r" 1,
    .message 1 (.snapshotChunk []) "r" 1, .openFinished]

def factDelta : Json :=
  .obj [("scope", .str "global"), ("observation", .obj [("kind", .str "k")])]

/-- One submission that the owner acknowledges, and one that its exit settles. -/
def servedEvents : List Event :=
  openedEvents ++ [.submit "a" "fact" factDelta ⟨[], [], false⟩ 2,
    .message 1 (.ack ⟨"a", some 1, 1, "committed", "written", false, []⟩) "r" 2,
    .submit "b" "fact" factDelta ⟨[], [], false⟩ 3, .exit 1 .held 4]

set_option maxRecDepth 4000 in
theorem submissions_settle_once_served :
    ((Client.initial []).run defaultClientOptions servedEvents).Settles defaultClientOptions
      (submitted servedEvents) :=
  submissions_settle_once defaultClientOptions [] servedEvents (by decide)
    ⟨trivial, trivial, trivial, trivial, fun _ => (by decide +kernel), trivial,
      fun _ => (by decide +kernel), trivial, trivial⟩

/-- An available store is opened again, and a submission comes before its owner has terminated. -/
def reopenEvents : List Event :=
  openedEvents ++ [.openClient [] .held, .submit "a" "fact" factDelta ⟨[], [], false⟩ 2, .openTerminated,
    .message 3 (.state .available [] [] 2) "r" 3, .message 3 (.snapshotChunk []) "r" 3, .openFinished]

def Message.txn? : Message → Option Text
  | .submit msg => some msg.txn
  | _ => none

set_option maxRecDepth 4000 in
/-- The submission is admitted and in flight, the store is available again, and no owner was ever
given it. -/
theorem reopen_loses_submission :
    (submitted reopenEvents).Nodup ∧
      ((Client.initial []).run defaultClientOptions reopenEvents).status = .store .available ∧
      ((Client.initial []).run defaultClientOptions reopenEvents).inflight.keys = ["a".toList] ∧
      ((Client.initial []).run defaultClientOptions reopenEvents).settled.length = 0 ∧
      ((Client.initial []).run defaultClientOptions reopenEvents).posted.all
        (fun p => Message.txn? p.2 = none) = true := by
  decide +kernel

end Telepty.LedgerClient
