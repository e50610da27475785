import Telepty.Bridge.Context
import Telepty.Mailbox.Waiting

/-!
# What the bridge does aside

Most of what a turn does beside the writes is bookkeeping: receipts, the record index, the notes on
unwritten bodies, and dead letters. A property that the bookkeeping cannot touch (`Steady`) is an
invariant of all of it, whatever the property is about.
-/

namespace Telepty.Bridge

open Infra Infra.Action Mailbox

variable {env : Env} {cfg : Setup} {b b' : Context} {α : Type}

/-! ## Changes aside -/

/-- A change that touches neither the mailbox nor the writes nor what decides on them. -/
structure Aside (b b' : Context) : Prop where
  mailbox : b'.mailbox = b.mailbox
  queuedAs : b'.queuedAs = b.queuedAs
  seq : b'.bridgeMsgSeq = b.bridgeMsgSeq
  timers : b'.deliveryTimers = b.deliveryTimers
  tail : b'.deliveryTailAt = b.deliveryTailAt
  frames : b'.frames = b.frames
  written : b'.written = b.written
  count : b'.bridgePendingCount = b.bridgePendingCount
  reads : b.reads ≤ b'.reads
  calls : b'.calls = b.calls

theorem Aside.refl (b : Context) : Aside b b := ⟨rfl, rfl, rfl, rfl, rfl, rfl, rfl, rfl, le_rfl, rfl⟩

theorem Aside.trans {b'' : Context} (h : Aside b b') (h' : Aside b' b'') : Aside b b'' :=
  ⟨h'.mailbox.trans h.mailbox, h'.queuedAs.trans h.queuedAs, h'.seq.trans h.seq,
    h'.timers.trans h.timers, h'.tail.trans h.tail, h'.frames.trans h.frames,
    h'.written.trans h.written, h'.count.trans h.count, h.reads.trans h'.reads,
    h'.calls.trans h.calls⟩

/-- A program that changes nothing but what is aside, and does not throw. -/
def Bystands (x : Act α) : Prop := ∀ b, x.Ends b (fun _ => Aside b) Never

/-- The rule for such a program and what comes after it. -/
theorem Bystands.next {β : Type} {x : Act α} {f : α → Act β} {Q : β → Context → Prop}
    {E : Unit → Context → Prop} (hx : Bystands x)
    (h : ∀ a b', Aside b b' → (f a).Ends b' Q E) : (x >>= f).Ends b Q E :=
  ends_bind.mpr ((hx b).mono h fun _ _ h => h.elim)

theorem bystands_pure (a : α) : Bystands (pure a : Act α) := fun b => Aside.refl b

theorem bystands_get : Bystands (get : Act Context) := fun b => Aside.refl b

theorem bystands_now : Bystands (now env) := fun _ =>
  ⟨rfl, rfl, rfl, rfl, rfl, rfl, rfl, rfl, Nat.le_succ _, rfl⟩

@[simp] theorem ends_now {Q : Nat → Context → Prop} {E : Unit → Context → Prop} :
    (now env).Ends b Q E ↔ Q (env.clock b.reads) { b with reads := b.reads + 1 } := .rfl

theorem bystands_modify {g : Context → Context} (h : ∀ b, Aside b (g b)) :
    Bystands (modify g : Act Unit) := h

theorem Bystands.bind {β : Type} {x : Act α} {f : α → Act β} (hx : Bystands x)
    (hf : ∀ a, Bystands (f a)) : Bystands (x >>= f) := fun _ =>
  hx.next fun a b' hb => (hf a b').mono (fun _ _ h => hb.trans h) fun _ _ h => h

theorem Bystands.ite {c : Prop} [Decidable c] {x y : Act α} (hx : Bystands x) (hy : Bystands y) :
    Bystands (if c then x else y) := fun b => ends_ite (fun _ => hx b) fun _ => hy b

theorem bystands_sendReceipt (msgId : Option Text) (ids : Ids) (stage : Stage)
    (certainty : Certainty) (reason : Option Text) :
    Bystands (sendReceipt env msgId ids stage certainty reason) :=
  bystands_now.bind fun _ => bystands_modify fun _ =>
    ⟨rfl, rfl, rfl, rfl, rfl, rfl, rfl, rfl, le_rfl, rfl⟩

theorem bystands_setRecord (msgId : Text) (r : Record) : Bystands (setRecord msgId r) :=
  bystands_modify fun _ => ⟨rfl, rfl, rfl, rfl, rfl, rfl, rfl, rfl, le_rfl, rfl⟩

theorem bystands_setState (msgId : Text) (state : RecordState) :
    Bystands (setState msgId state) := by
  refine bystands_get.bind fun b => ?_
  split
  · exact bystands_pure ()
  · exact bystands_setRecord _ _

theorem bystands_rememberRecord (msgId : Text) (ids : Ids) (isCr : Bool) :
    Bystands (rememberRecord env msgId ids isCr) :=
  bystands_now.bind fun _ => bystands_modify fun _ =>
    ⟨rfl, rfl, rfl, rfl, rfl, rfl, rfl, rfl, le_rfl, rfl⟩

theorem bystands_rememberUnwritten (id : Option Text) : Bystands (rememberUnwritten id) := by
  unfold rememberUnwritten
  split
  · exact bystands_pure ()
  · exact bystands_modify fun _ => ⟨rfl, rfl, rfl, rfl, rfl, rfl, rfl, rfl, le_rfl, rfl⟩

theorem bystands_userInputRecent : Bystands (userInputRecent env) :=
  bystands_now.bind fun _ => bystands_get.bind fun _ => bystands_pure _

theorem bystands_isIdle : Bystands (isIdle env) :=
  bystands_get.bind fun _ => (bystands_pure _).ite
    ((bystands_now.bind fun _ => bystands_pure _).ite (bystands_pure _))

theorem bystands_withholdReason (view : Verdict) : Bystands (withholdReason env cfg view) := by
  refine bystands_get.bind fun b => (bystands_pure _).ite (.ite ?_ ?_)
  · exact bystands_userInputRecent.bind fun _ => (bystands_pure _).ite
      ((bystands_pure _).ite ((bystands_pure _).ite (bystands_pure _)))
  · split
    · exact bystands_pure _
    · exact .ite (bystands_userInputRecent.bind fun _ => (bystands_pure _).ite (bystands_pure _))
        (bystands_pure _)

theorem bystands_armBridgeTick : Bystands armBridgeTick := bystands_modify fun b => by
  split
  · exact ⟨rfl, rfl, rfl, rfl, rfl, rfl, rfl, rfl, le_rfl, rfl⟩
  · exact .refl b

theorem bystands_scheduleIdleFlush : Bystands (scheduleIdleFlush cfg) :=
  bystands_get.bind fun _ => (bystands_pure _).ite <| bystands_armBridgeTick.bind fun _ =>
    .ite (bystands_modify fun _ => ⟨rfl, rfl, rfl, rfl, rfl, rfl, rfl, rfl, le_rfl, rfl⟩)
      (bystands_pure _)

/-! ## Record ids -/

theorem digits_append_injective {s t x y : Text} (hs : ∀ c ∈ s, c ≠ ':') (ht : ∀ c ∈ t, c ≠ ':')
    (h : s ++ ':' :: x = t ++ ':' :: y) : s = t ∧ x = y := by
  induction s generalizing t with
  | nil =>
    cases t with
    | nil => exact ⟨rfl, (List.cons.inj h).2⟩
    | cons c t => exact absurd (List.cons.inj h).1.symm (ht c List.mem_cons_self)
  | cons c s ih =>
    cases t with
    | nil => exact absurd (List.cons.inj h).1 (hs c List.mem_cons_self)
    | cons d t =>
      obtain ⟨he, hr⟩ := List.cons.inj h
      obtain ⟨h1, h2⟩ := ih (fun c hc => hs c (List.mem_cons_of_mem _ hc))
        (fun c hc => ht c (List.mem_cons_of_mem _ hc)) hr
      exact ⟨by rw [he, h1], h2⟩

theorem colon_not_mem_natText (n : Nat) : ∀ c ∈ natText n, c ≠ ':' := by
  rintro c hc rfl
  exact absurd (isDigit_of_mem_natText hc) (by decide)

/-- **Records of different numbers have different ids.** -/
theorem bridgeMsgId_injective {sessionId : Text} {ms ms' seq seq' : Nat}
    (h : bridgeMsgId sessionId ms seq = bridgeMsgId sessionId ms' seq') : seq = seq' := by
  rw [bridgeMsgId, bridgeMsgId, List.append_assoc, List.append_assoc, List.cons_append,
    List.cons_append] at h
  have htail := (List.cons.inj (List.append_cancel_left h)).2
  exact natText_injective
    (digits_append_injective (colon_not_mem_natText _) (colon_not_mem_natText _) htail).2

theorem assoc_concat_of_mem {k k' : Text} {n : Nat} {l : List (Text × Nat)}
    (h : k ∈ l.map Prod.fst) : assoc k (l ++ [(k', n)]) = assoc k l := by
  induction l with
  | nil => cases h
  | cons e l ih =>
    rw [List.cons_append, assoc, assoc]
    split
    · rfl
    · next hne =>
      exact ih ((List.mem_cons.mp h).resolve_left fun he => hne he.symm)

theorem assoc_concat_self {k : Text} {n : Nat} {l : List (Text × Nat)}
    (h : k ∉ l.map Prod.fst) : assoc k (l ++ [(k, n)]) = some n := by
  induction l with
  | nil => rw [List.nil_append, assoc, if_pos rfl]
  | cons e l ih =>
    obtain ⟨k', n'⟩ := e
    have hne : k' ≠ k := fun he => h (he ▸ List.mem_cons_self)
    rw [List.cons_append, assoc, if_neg hne]
    exact ih fun hm => h (List.mem_cons_of_mem _ hm)

/-- Every record was named by a number up to the last one. -/
def Issued (cfg : Setup) (b : Context) : Prop :=
  ∀ e ∈ b.queuedAs, ∃ ms seq, e.1 = bridgeMsgId cfg.sessionId ms seq ∧ seq ≤ b.bridgeMsgSeq

theorem Issued.aside (h : Issued cfg b) (ha : Aside b b') : Issued cfg b' := by
  rw [Issued, ha.queuedAs, ha.seq]
  exact h

theorem Issued.named (h : Issued cfg b) (ms number : Nat) :
    Issued cfg (Context.named cfg ms number b) := by
  intro e he
  rcases List.mem_append.mp he with he | he
  · obtain ⟨ms', seq, hid, hle⟩ := h e he
    exact ⟨ms', seq, hid, Nat.le_succ_of_le hle⟩
  · rw [List.mem_singleton.mp he]
    exact ⟨ms, _, rfl, Nat.le_refl _⟩

/-- The next record id is new. -/
theorem Issued.fresh (h : Issued cfg b) (ms : Nat) :
    bridgeMsgId cfg.sessionId ms (b.bridgeMsgSeq + 1) ∉ b.queuedAs.map Prod.fst := by
  intro hm
  obtain ⟨e, he, heq⟩ := List.mem_map.mp hm
  obtain ⟨ms', seq, hid, hle⟩ := h e he
  have := bridgeMsgId_injective (heq.symm.trans hid)
  omega

theorem Issued.numberOf_named (h : Issued cfg b) (ms number : Nat) :
    numberOf (Context.named cfg ms number b) (bridgeMsgId cfg.sessionId ms (b.bridgeMsgSeq + 1))
      = some number :=
  assoc_concat_self (h.fresh ms)

/-! ## Dead letters -/

/-- The fate of a call as the mailbox has it. -/
def Fate.crash : Fate → Option Crash
  | .performed => none
  | .failed writes => some ⟨writes, none⟩

/-- The pending count after one record less. -/
def Context.uncounted (b : Context) : Context :=
  { b with bridgePendingCount := b.bridgePendingCount - 1 }

/-- A property that neither the bookkeeping nor a dead letter touches. -/
structure Steady (env : Env) (cfg : Setup) (I : Context → Prop) : Prop where
  aside : ∀ {b b'}, I b → Aside b b' → I b'
  takes : ∀ {b} {c : Call}, I b → c.Takes → I (b.called env cfg c (env.fate b.calls).crash)
  uncounted : ∀ {b} {id reason : Text} {o : WithdrawOptions}, I b → o.inFlight = false →
    (Mailbox.withdraw (b.secs env) id reason o b.mailbox).1 = .flag true →
    I (b.called env cfg (.withdraw id reason o) none).uncounted

variable {I : Context → Prop}

theorem Steady.and {J : Context → Prop} (hI : Steady env cfg I) (hJ : Steady env cfg J) :
    Steady env cfg fun b => I b ∧ J b :=
  ⟨fun h ha => ⟨hI.aside h.1 ha, hJ.aside h.2 ha⟩, fun h hc => ⟨hI.takes h.1 hc, hJ.takes h.2 hc⟩,
    fun h ho ha => ⟨hI.uncounted h.1 ho ha, hJ.uncounted h.2 ho ha⟩⟩

theorem Steady.bystands (hI : Steady env cfg I) {x : Act α} (hx : Bystands x) : Keeps I Never x :=
  fun b hb => (hx b).mono (fun _ _ h => hI.aside hb h) fun _ _ h => h.elim

/-- How a mailbox call ends: with the answer of the mailbox, or with an error. -/
theorem ends_mailboxCall {c : Call} {Q : Answer → Context → Prop} {E : Unit → Context → Prop}
    (hq : env.fate b.calls = .performed →
      Q (perform cfg.sessionId .default (b.secs env) b.mailbox c).1 (b.called env cfg c none))
    (he : (env.fate b.calls = .performed →
        (perform cfg.sessionId .default (b.secs env) b.mailbox c).1 = .threw) →
      E () (b.called env cfg c (env.fate b.calls).crash)) :
    (mailboxCall env cfg c).Ends b Q E := by
  unfold Ends mailboxCall
  cases hf : env.fate b.calls with
  | performed =>
    have hq := hq hf
    rw [hf] at he
    cases ha : (perform cfg.sessionId .default (b.secs env) b.mailbox c).1 with
    | threw => exact he fun _ => ha
    | _ =>
      rw [ha] at hq
      exact hq
  | failed n =>
    rw [hf] at he
    exact he fun h => by cases h

theorem Aside.uncounted (h : Aside b b') : Aside b.uncounted b'.uncounted :=
  ⟨h.mailbox, h.queuedAs, h.seq, h.timers, h.tail, h.frames, h.written,
    congrArg (· - 1) h.count, h.reads, h.calls⟩

theorem bystands_noteQuarantine (msgId reason : Text) (record : Option Record)
    (certainty : Certainty) (moved : Bool) :
    Bystands (noteQuarantine env msgId reason record certainty moved) := by
  have hreceipt : Bystands (sendReceipt env (some msgId) (idsOf record) .quarantined certainty
      (some reason)) := bystands_sendReceipt _ _ _ _ _
  have hrest : Bystands (do
      if moved then
        if record.any fun r => !r.isCr then
          rememberUnwritten (idsOf record).daemonMsgId
          if certainty = .notWritten then
            let at_ ← now env
            modify fun b => { b with unwrittenBodyAdjacentAt := some at_ }
        sendReceipt env (some msgId) (idsOf record) .quarantined certainty (some reason) : Act Unit) := by
    refine .ite (.ite ((bystands_rememberUnwritten _).bind fun _ => .ite ?_ hreceipt) hreceipt)
      (bystands_pure ())
    refine bystands_now.bind fun _ => .bind ?_ fun _ => hreceipt
    exact bystands_modify fun _ => ⟨rfl, rfl, rfl, rfl, rfl, rfl, rfl, rfl, le_rfl, rfl⟩
  refine .ite (.bind ?_ fun _ => hrest) hrest
  exact bystands_modify fun _ => ⟨rfl, rfl, rfl, rfl, rfl, rfl, rfl, rfl, le_rfl, rfl⟩

/-- **A dead letter** leaves the property, and where it takes a pending record it leaves it also with
one record less in the count. -/
theorem Steady.quarantine (hI : Steady env cfg I) (msgId reason : Text) (certainty : Certainty)
    (inFlight deliveryUncertain : Bool) (hb : I b) :
    (quarantine env cfg msgId reason certainty inFlight deliveryUncertain).Ends b
      (fun r b' => I b' ∧ (r = some true → inFlight = false → I b'.uncounted))
      Never := by
  unfold Bridge.quarantine
  rw [ends_bind, ends_get]
  dsimp only
  rw [ends_bind, ends_attempt]
  have ht := hI.takes hb (.withdraw msgId reason ⟨inFlight, deliveryUncertain,
      (idsOf (b.bridgeRecords.get? msgId)).details⟩)
  refine ends_mailboxCall (fun hf => ?_) fun _ => ⟨ht, fun h => by cases h⟩
  rw [hf] at ht
  split
  · next moved hm =>
    refine (bystands_noteQuarantine _ _ _ _ _).next fun _ b' ha => ⟨hI.aside ht ha, ?_⟩
    intro hr hin
    rw [Option.some.inj hr] at hm
    exact hI.aside (hI.uncounted hb hin (Option.some.inj hm)) ha.uncounted
  · exact ⟨ht, fun h => by cases h⟩

theorem Steady.keeps_quarantine (hI : Steady env cfg I) (msgId reason : Text)
    (certainty : Certainty) (inFlight deliveryUncertain : Bool) :
    Keeps I Never (Bridge.quarantine env cfg msgId reason certainty inFlight deliveryUncertain) :=
  fun _ hb => (hI.quarantine _ _ _ _ _ hb).mono (fun _ _ h => h.1) fun _ _ h => h.elim

/-- A dead letter that lowers the count where it took the record, and what follows it. -/
theorem Steady.expire {β : Type} (hI : Steady env cfg I) (msgId reason : Text)
    (certainty : Certainty) (deliveryUncertain : Bool) {f : Option Bool → Act β}
    (hf : ∀ r, r ≠ some true → Keeps I Never (f r))
    (ht : ∀ b, I b.uncounted → (f (some true)).Ends b (fun _ => I) Never) :
    Keeps I Never (Bridge.quarantine env cfg msgId reason certainty false deliveryUncertain >>= f) := by
  intro b hb
  refine ends_bind.mpr ((hI.quarantine _ _ _ _ _ hb).mono (fun r b' h => ?_) fun _ _ h => h.elim)
  by_cases hr : r = some true
  · subst hr
    exact ht b' (h.2 rfl rfl)
  · exact hf r hr b' h.1

theorem Steady.withdrawPairedSubmits (hI : Steady env cfg I) (bodyId : Option Text)
    (l : List (Text × Record)) : Keeps I Never (withdrawPairedSubmits env cfg bodyId l) := by
  induction l with
  | nil => exact keeps_pure ()
  | cons e l ih =>
    obtain ⟨crId, submit⟩ := e
    have hrest : Keeps I Never (if bodyId.isSome then Bridge.withdrawPairedSubmits env cfg bodyId l
        else pure ()) := .ite (fun _ => ih) fun _ => keeps_pure ()
    unfold Bridge.withdrawPairedSubmits
    refine keeps_get.bind fun b => .ite (fun _ => ?_) fun _ => hrest
    refine hI.expire _ _ _ _ (fun r hr => ?_) fun b' hb' => ?_
    · rw [if_neg hr]
      exact hrest
    · rw [if_pos rfl]
      exact hrest _ hb'

theorem Steady.maintainFrom (hI : Steady env cfg I) (view : Verdict) (reason : Option Text)
    (l : List (Text × Record)) : Keeps I Never (maintainFrom env cfg view reason l) := by
  induction l generalizing reason with
  | nil => exact keeps_pure _
  | cons e l ih =>
    unfold Bridge.maintainFrom
    refine keeps_get.bind fun b => ?_
    split
    · exact ih reason
    · next record hr =>
      refine .ite (fun _ => ih reason) fun _ => (hI.bystands bystands_now).bind fun t =>
        .ite (fun _ => ?_) fun _ => .ite (fun _ => ?_) fun _ => ih reason
      · refine hI.expire _ _ _ _ (fun r hr => ?_) fun b' hb' => ?_
        · rw [if_neg hr]
          exact ih reason
        · rw [if_pos rfl]
          exact (Keeps.ite (fun _ => (hI.withdrawPairedSubmits _ _).bind fun _ => ih reason)
            fun _ => ih reason) _ hb'
      · have hnote : ∀ why, Keeps I Never (do
            if record.withheld ≠ some why then
              setRecord e.1 { record with withheld := some why }
              sendReceipt env (some e.1) record.ids .withheld .notWritten (some why)
            Bridge.maintainFrom env cfg view (some why) l) := fun why =>
          .ite (fun _ => (hI.bystands (bystands_setRecord _ _)).bind fun _ =>
            (hI.bystands (bystands_sendReceipt _ _ _ _ _)).bind fun _ => ih _) fun _ => ih _
        split
        · exact (keeps_pure _).bind hnote
        · exact (hI.bystands (bystands_withholdReason view)).bind hnote

theorem Steady.maintainPendingRecords (hI : Steady env cfg I) (view : Verdict) :
    Keeps I Never (maintainPendingRecords env cfg view) :=
  keeps_get.bind fun _ => (hI.maintainFrom view none _).bind fun _ => keeps_pure ()

theorem Steady.withdrawPairedBody (hI : Steady env cfg I) (ids : Ids) :
    Keeps I Never (withdrawPairedBody env cfg ids) := by
  refine keeps_get.bind fun b => ?_
  split
  · exact keeps_pure ()
  · refine keeps_get.bind fun b => ?_
    split
    · exact keeps_pure ()
    · refine .ite (fun _ => keeps_pure ()) fun _ => .ite (fun _ => ?_) fun _ =>
        hI.bystands (bystands_setRecord _ _)
      refine hI.expire _ _ _ _ (fun r hr => ?_) fun b' hb' => hb'
      split
      · exact absurd rfl hr
      · exact keeps_pure ()
      · exact (hI.bystands (bystands_setRecord _ _)).bind fun _ =>
          hI.bystands (bystands_sendReceipt _ _ _ _ _)

theorem Steady.noteRefused (hI : Steady env cfg I) (msgId text : Text) (ids : Ids) :
    Keeps I Never (noteRefused env cfg msgId text ids) := by
  have hset : ∀ g : Context → Context, (∀ b, Aside b (g b)) → Keeps I Never (modify g : Act Unit) :=
    fun g hg => hI.bystands (bystands_modify hg)
  have hrest : Keeps I Never (do
      modify fun b => { b with adjacentQueuedBody := none }
      if text ≠ cr && ids.daemonMsgId.isNone then
        let at_ ← now env
        modify fun b => { b with refusedIdlessBodyAt := some at_ }
      else modify fun b => { b with refusedIdlessBodyAt := none } : Act Unit) := by
    refine (hset _ fun _ => ?_).bind fun _ => .ite (fun _ => (hI.bystands bystands_now).bind
      fun _ => hset _ fun _ => ?_) fun _ => hset _ fun _ => ?_ <;>
    exact ⟨rfl, rfl, rfl, rfl, rfl, rfl, rfl, rfl, le_rfl, rfl⟩
  have hreceipt : Keeps I Never (do
      sendReceipt env (some msgId) ids .refused .notWritten (some "mailbox_unavailable")
      if text = cr then Bridge.withdrawPairedBody env cfg ids
      modify fun b => { b with adjacentQueuedBody := none }
      if text ≠ cr && ids.daemonMsgId.isNone then
        let at_ ← now env
        modify fun b => { b with refusedIdlessBodyAt := some at_ }
      else modify fun b => { b with refusedIdlessBodyAt := none } : Act Unit) :=
    (hI.bystands (bystands_sendReceipt _ _ _ _ _)).bind fun _ => .ite
      (fun _ => (hI.withdrawPairedBody ids).bind fun _ => hrest) fun _ => hrest
  refine .ite (fun _ => (hI.bystands (bystands_rememberUnwritten _)).bind fun _ =>
    (hI.bystands bystands_now).bind fun _ => (hset _ fun _ => ?_).bind fun _ => hreceipt)
    fun _ => hreceipt
  exact ⟨rfl, rfl, rfl, rfl, rfl, rfl, rfl, rfl, le_rfl, rfl⟩

theorem Steady.dropAll (hI : Steady env cfg I) (l : List (Message × Option Drop)) :
    Keeps I Never (dropAll env cfg l) := by
  induction l with
  | nil => exact keeps_pure ()
  | cons e l ih =>
    obtain ⟨m, why⟩ := e
    cases why with
    | none => exact ih
    | some why => exact (hI.keeps_quarantine _ _ _ _ _).bind fun _ => ih

theorem Steady.quarantineRows (hI : Steady env cfg I) (l : List Summary) :
    Keeps I Never (quarantineRows env cfg l) := by
  induction l with
  | nil => exact keeps_pure _
  | cons s l ih =>
    exact keeps_get.bind fun _ => (hI.keeps_quarantine _ _ _ _ _).bind fun _ => ih.bind fun _ =>
      keeps_pure _

/-- A call that takes messages at most. -/
theorem Steady.mailboxCall (hI : Steady env cfg I) {c : Call} (hc : c.Takes) :
    Keeps I (fun _ => I) (mailboxCall env cfg c) := fun b hb => by
  refine ends_mailboxCall (fun hf => ?_) fun _ => hI.takes hb hc
  have := hI.takes hb hc
  rwa [hf] at this

theorem Steady.quarantineAtExit (hI : Steady env cfg I) : Keeps I Never (quarantineAtExit env cfg) := by
  refine (hI.mailboxCall .peek).attempt.bind fun a => ?_
  split
  · exact hI.quarantineRows _
  · exact keeps_pure _

/-! ## Turns -/

theorem ends_childWrite {w : Written} {Q : Unit → Context → Prop} {E : Unit → Context → Prop}
    (hq : Q () { b with writes := b.writes + 1, written := b.written ++ [w] })
    (he : E () { b with writes := b.writes + 1 }) : (childWrite env w).Ends b Q E := by
  unfold Ends childWrite
  split
  · next h => split at h <;> cases h; exact hq
  · next h => split at h <;> cases h; exact he

/-- A delivery leaves the state, or what its write makes of it. -/
theorem Steady.ends_deliver (hI : Steady env cfg I) {t : Timer} (h : I b)
    (hw : I { b with
      writes := b.writes + 1, written := b.written ++ [⟨some t.msgId, t.text, t.number⟩] }) :
    (deliver env cfg t).Ends b (fun _ => I) fun _ => I := by
  unfold Bridge.deliver
  rw [ends_bind, ends_get]
  refine ends_ite (fun _ => h) fun _ => ?_
  rw [ends_bind, ends_get]
  refine ends_ite (fun _ => ?_) fun _ => ?_
  · exact (((hI.keeps_quarantine _ _ _ _ _).bind fun _ => keeps_pure ()) b h).weaken
  · rw [ends_bind, ends_attempt]
    refine ends_childWrite ?_ ?_
    · have hkeep : Keeps I Never (do
          modify fun b => { b with
            bridgeRecords := b.bridgeRecords.delete t.msgId
            unwrittenBodyAdjacentAt := none }
          sendReceipt env (some t.msgId) t.ids .ptyWritten .written none
          let _ ← (Bridge.mailboxCall env cfg (.ack t.msgId .none)).attempt : Act Unit) := by
        refine (hI.bystands (bystands_modify fun _ => ?_)).bind fun _ =>
          (hI.bystands (bystands_sendReceipt _ _ _ _ _)).bind fun _ =>
            (hI.mailboxCall (.ack _)).attempt.bind fun _ => keeps_pure ()
        exact ⟨rfl, rfl, rfl, rfl, rfl, rfl, rfl, rfl, le_rfl, rfl⟩
      exact (hkeep _ hw).weaken
    · have hthrew : I { b with writes := b.writes + 1 } :=
        hI.aside h ⟨rfl, rfl, rfl, rfl, rfl, rfl, rfl, rfl, le_rfl, rfl⟩
      refine (bystands_setState _ _).next fun _ b₁ h₁ => ?_
      refine (bystands_sendReceipt _ _ _ _ _).next fun _ b₂ h₂ => ?_
      exact hI.aside hthrew (h₁.trans h₂)

/-- So does a direct write. -/
theorem ends_writeDirectInject {text : Text} {ids : Ids} {number : Nat}
    (haside : ∀ {b b'}, I b → Aside b b' → I b') (h : I b)
    (hw : I { b with
      writes := b.writes + 1, written := b.written ++ [⟨none, text, some number⟩] }) :
    (writeDirectInject env text ids number).Ends b (fun _ => I) fun _ => I := by
  unfold writeDirectInject
  rw [ends_bind, ends_get]
  refine ends_ite (fun _ => h) fun _ => ends_ite (fun _ => ?_) fun _ => ?_
  · exact (bystands_sendReceipt _ _ _ _ _).next fun _ b₁ h₁ => haside h h₁
  · rw [ends_bind]
    refine ends_childWrite ?_ (haside h ⟨rfl, rfl, rfl, rfl, rfl, rfl, rfl, rfl, le_rfl, rfl⟩)
    refine Bystands.next (bystands_modify fun _ => ?_) fun _ b₁ h₁ => ?_
    · exact ⟨rfl, rfl, rfl, rfl, rfl, rfl, rfl, rfl, le_rfl, rfl⟩
    · exact (bystands_sendReceipt _ _ _ _ _).next fun _ b₂ h₂ => haside hw (h₁.trans h₂)

/-- A property that the bookkeeping, a flush, a delivery and the end of the session leave. -/
structure Lasting (env : Env) (cfg : Setup) (I : Context → Prop) : Prop extends Steady env cfg I where
  flush : Keeps I (fun _ => I) (flushBridgeMailbox env cfg)
  deliver : ∀ {b t others}, I b → takeDue b.deliveryTimers = some (t, others) →
    (deliver env cfg t).Ends { b with deliveryTimers := others } (fun _ => I) fun _ => I
  close : ∀ {b : Context}, I b → I { b with
    closed := true
    deliveryTimers := []
    queueFlushTimer := false
    idleCheckTimer := false }

theorem Steady.lenient (hI : Steady env cfg I) {x : Act α} (hx : Bystands x) :
    Keeps I (fun _ => I) x := (hI.bystands hx).weaken

theorem Lasting.onReady (h : Lasting env cfg I) : Keeps I (fun _ => I) (onReady env cfg) := by
  refine keeps_get.bind fun b => .ite (fun _ => keeps_pure ()) fun _ => .bind ?_ fun _ => h.flush
  refine h.lenient (bystands_modify fun _ => ?_)
  exact ⟨rfl, rfl, rfl, rfl, rfl, rfl, rfl, rfl, le_rfl, rfl⟩

theorem Lasting.probeFrameReady (h : Lasting env cfg I) (view : Verdict) :
    Keeps I (fun _ => I) (probeFrameReady env cfg view) := by
  refine keeps_get.bind fun b => .ite (fun _ => keeps_pure ()) fun _ => ?_
  split
  · exact keeps_pure ()
  · refine (h.lenient bystands_now).bind fun t => .ite (fun _ => keeps_pure ()) fun _ =>
      (h.lenient bystands_userInputRecent).bind fun recent => .ite (fun _ => keeps_pure ())
        fun _ => keeps_get.bind fun b => ?_
    split
    · exact h.onReady
    · exact keeps_pure ()

theorem Lasting.bridgeTick (h : Lasting env cfg I) (view : Verdict) :
    Keeps I (fun _ => I) (bridgeTick env cfg view) := by
  have hend : Keeps I (fun _ => I) (modify fun b =>
      if (pendingRecords b).isEmpty && b.bridgePendingCount = 0 then { b with idleCheckTimer := false }
      else b : Act Unit) := by
    refine h.lenient (bystands_modify fun b => ?_)
    split
    · exact ⟨rfl, rfl, rfl, rfl, rfl, rfl, rfl, rfl, le_rfl, rfl⟩
    · exact .refl b
  refine keeps_get.bind fun b => .ite (fun _ => keeps_pure ()) fun _ =>
    (h.maintainPendingRecords view).weaken.bind fun _ => keeps_get.bind fun b => .ite (fun _ => ?_)
      fun _ => hend
  refine (h.lenient bystands_isIdle).bind fun idle => .ite
    (fun _ => h.flush.bind fun _ => hend) fun _ => keeps_get.bind fun b =>
      .ite (fun _ => (h.probeFrameReady view).bind fun _ => hend) fun _ => hend

theorem Lasting.closeAllowSession (h : Lasting env cfg I) (destroySession : Bool) :
    Keeps I (fun _ => I) (closeAllowSession env cfg destroySession) := by
  have hclose : ∀ kept : Bool, Keeps I (fun _ => I) (do
      modify fun b => { b with
        closed := true
        deliveryTimers := []
        queueFlushTimer := false
        idleCheckTimer := false }
      if kept then
        let _ ← (mailboxCall env cfg .purge).attempt : Act Unit) := fun kept =>
    Keeps.bind (keeps_modify fun _ hb => h.close hb) fun _ => .ite
      (fun _ => (h.mailboxCall .purge).attempt.bind fun _ => keeps_pure ()) fun _ => keeps_pure ()
  exact keeps_get.bind fun b => .ite (fun _ => keeps_pure ()) fun _ => .ite
    (fun _ => h.quarantineAtExit.weaken.bind hclose) fun _ => hclose false

/-- **An event that brings no frame** leaves a lasting property. -/
theorem Lasting.step (h : Lasting env cfg I) (hb : I b) {e : Event} (he : ∀ f, e ≠ .inject f) :
    I (step env cfg b e) := by
  have hset : ∀ {g : Context → Context}, (∀ b, Aside b (g b)) →
      Keeps I (fun _ => I) (modify g : Act Unit) := fun hg => h.lenient (bystands_modify hg)
  have haside : ∀ {b : Context} {prompt first : Bool} {at_ : Option Nat} {user : Nat} {owner on : Bool}
      {timer pending : Bool}, Aside b { b with
        promptReady := prompt
        firstReadyObserved := first
        lastOutputAt := at_
        lastUserInputTime := user
        ownerUp := owner
        supervised := on
        queueFlushTimer := timer
        handoffPending := pending } :=
    ⟨rfl, rfl, rfl, rfl, rfl, rfl, rfl, rfl, le_rfl, rfl⟩
  have hkeep : ∀ {x : Act Unit}, Keeps I (fun _ => I) x → I (x.after b) := fun hx =>
    Ends.after (hx b hb)
  cases e with
  | inject f => exact absurd rfl (he f)
  | output ready =>
    exact hkeep <| keeps_get.bind fun b => .ite (fun _ => keeps_pure ()) fun _ =>
      (h.lenient bystands_now).bind fun at_ => (hset fun _ => haside).bind fun _ => keeps_get.bind
        fun b => .ite (fun _ => h.onReady) fun _ => keeps_pure ()
  | userInput =>
    exact hkeep <| keeps_get.bind fun b => .ite (fun _ => keeps_pure ()) fun _ =>
      (h.lenient bystands_now).bind fun at_ => hset fun _ => haside
  | tick view =>
    exact hkeep <| keeps_get.bind fun b => .ite (fun _ => h.bridgeTick view) fun _ => keeps_pure ()
  | flushTimeout =>
    exact hkeep <| keeps_get.bind fun b => .ite (fun _ => keeps_pure ()) fun _ =>
      (hset fun _ => haside).bind fun _ => keeps_get.bind fun b => .ite (fun _ => h.flush)
        fun _ => keeps_pure ()
  | deliver =>
    refine Ends.after (ends_bind.mpr (ends_get.mpr ?_))
    split
    · exact hb
    · next t others ht => exact ends_bind.mpr ((ends_modify _).mpr (h.deliver hb ht))
  | ownerSocket up => exact hkeep (hset fun _ => haside)
  | supervision on => exact hkeep (hset fun _ => haside)
  | handoffRefused => exact hkeep (hset fun _ => haside)
  | handoff =>
    refine hkeep (hset fun b => ?_)
    split
    · exact haside
    · exact .refl b
  | close destroySession => exact hkeep (h.closeAllowSession destroySession)

end Telepty.Bridge
