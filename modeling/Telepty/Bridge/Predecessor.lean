import Telepty.Bridge.Arrival

/-!
# What a bridge takes over

A bridge starts over the mailbox of the process before it. Whatever that left there, and whichever
mailbox calls and writes fail later, everything that is written to the child is the text of a frame
this process was handed, or a record that was still waiting after the recovery (`written_own_or_left`).
If the recovery withdraws what waits, nothing of the predecessor is ever written
(`predecessor_never_written`).
-/

namespace Telepty.Bridge

open Infra Infra.Action Mailbox

variable {env : Env} {cfg : Setup} {b b' : Context} {α : Type} {old held : List Message}

/-! ## The records of a process -/

/-- The record was queued by this process, with the text of one of its frames. -/
def Context.Queued (b : Context) (id text : Text) : Prop :=
  ∃ n, (id, n) ∈ b.queuedAs ∧ b.frames[n]? = some text

/-- A record may be written: this process queued it, or it is one of `old`. -/
def Context.Mine (b : Context) (old : List Message) (id text : Text) : Prop :=
  b.Queued id text ∨ ∃ m ∈ old, m.msgId = id ∧ m.payload = text

/-- No message without a state has an id that is still to be given. -/
def Context.Free (b : Context) (env : Env) (cfg : Setup) : Prop :=
  ∀ m ∈ b.mailbox.messages, (loadStates b.mailbox.journal).get? m.msgId = none →
    ∀ n seq, b.bridgeMsgSeq < seq → m.msgId ≠ bridgeMsgId cfg.sessionId (env.clock n) seq

/-- The files can be relied on. -/
structure Tidy (env : Env) (cfg : Setup) (b : Context) : Prop where
  whole : b.mailbox.Whole
  free : b.Free env cfg

/-- What waits anywhere, and what was written, may be written. -/
structure Own (env : Env) (cfg : Setup) (old held : List Message) (b : Context) : Prop extends
    Tidy env cfg b where
  waiting : ∀ m, m ∈ held ∨ m ∈ pendingMessages b.mailbox → b.Mine old m.msgId m.payload
  timers : ∀ t ∈ b.deliveryTimers, b.Mine old t.msgId t.text
  written : ∀ w ∈ b.written, w.text ∈ b.frames ∧ w.msgId = none ∨ ∃ id ∈ w.msgId, b.Mine old id w.text

theorem Context.Mine.mono {id text : Text} (h : b.Mine old id text) (hq : b.queuedAs ⊆ b'.queuedAs)
    (hf : b.frames <+: b'.frames) : b'.Mine old id text := by
  refine h.imp_left fun ⟨n, hn, ht⟩ => ⟨n, hq hn, ?_⟩
  obtain ⟨more, hmore⟩ := hf
  rw [← hmore, List.getElem?_append_left (List.getElem?_eq_some_iff.mp ht).1]
  exact ht

/-- A state with more frames, ids and fewer timers, over files that are as good. -/
theorem Own.mono (h : Own env cfg old held b) (ht : Tidy env cfg b')
    (hq : b.queuedAs ⊆ b'.queuedAs) (hf : b.frames <+: b'.frames)
    (hp : pendingMessages b'.mailbox ⊆ pendingMessages b.mailbox)
    (hd : b'.deliveryTimers ⊆ b.deliveryTimers) (hw : b'.written = b.written) :
    Own env cfg old held b' where
  toTidy := ht
  waiting m hm := (h.waiting m (hm.imp_right fun hm => hp hm)).mono hq hf
  timers t ht := (h.timers t (hd ht)).mono hq hf
  written w hwm := by
    rw [hw] at hwm
    exact (h.written w hwm).imp (fun ⟨ht, hn⟩ => ⟨hf.subset ht, hn⟩)
      fun ⟨id, hid, hm⟩ => ⟨id, hid, hm.mono hq hf⟩

theorem Own.release {held' : List Message} (h : Own env cfg old held b) (hs : held' ⊆ held) :
    Own env cfg old held' b :=
  { h with waiting := fun m hm => h.waiting m (hm.imp_left fun hm => hs hm) }

theorem Tidy.aside (h : Tidy env cfg b) (ha : Aside b b') : Tidy env cfg b' := by
  obtain ⟨hwhole, hfree⟩ := h
  refine ⟨ha.mailbox ▸ hwhole, ?_⟩
  rw [Context.Free, ha.mailbox, ha.seq]
  exact hfree

theorem Own.aside (h : Own env cfg old held b) (ha : Aside b b') : Own env cfg old held b' :=
  h.mono (h.toTidy.aside ha) (ha.queuedAs ▸ List.Subset.refl _) (ha.frames ▸ List.prefix_refl _)
    (ha.mailbox ▸ List.Subset.refl _) (ha.timers ▸ List.Subset.refl _) ha.written

/-- What a write to the child leaves, of a text that may be written. -/
theorem Own.wrote (h : Own env cfg old held b) {id : Option Text} {text : Text} {number : Option Nat}
    (ht : text ∈ b.frames ∧ id = none ∨ ∃ i ∈ id, b.Mine old i text) :
    Own env cfg old held { b with
      writes := b.writes + 1, written := b.written ++ [⟨id, text, number⟩] } := by
  refine { h with written := fun w hw => ?_ }
  rcases List.mem_append.mp hw with hw | hw
  · exact h.written w hw
  · rw [List.mem_singleton.mp hw]
    exact ht

/-! ## Mailbox calls -/

theorem untorn_crash (f : Fate) (now : Int) (c : Call) : (Step.mk now c f.crash).Untorn := by
  intro x hx
  cases f with
  | performed => cases hx
  | failed n =>
    cases hx
    rfl

theorem Tidy.called (h : Tidy env cfg b) {c : Call} (hc : c.Takes) (f : Fate) :
    Tidy env cfg (b.called env cfg c f.crash) := by
  have hs : Settles b.mailbox (b.called env cfg c f.crash).mailbox :=
    Step.settles h.whole hc (untorn_crash f _ c)
  exact ⟨(untorn_crash f _ c).whole h.whole, fun m hm hn =>
    h.free m (hs.messages hm) (hs.stateless m hm hn)⟩

/-- **A call that at most takes messages away** adds nothing that waits. -/
theorem Own.called (h : Own env cfg old held b) {c : Call} (hc : c.Takes) (f : Fate) :
    Own env cfg old held (b.called env cfg c f.crash) :=
  h.mono (h.toTidy.called hc f) (List.Subset.refl _) (List.prefix_refl _)
    (Step.takes h.whole hc (untorn_crash f _ c)).subset (List.Subset.refl _) rfl

theorem Tidy.steady : Steady env cfg (Tidy env cfg) where
  aside := fun h ha => h.aside ha
  takes := fun h hc => h.called hc _
  uncounted := fun h _ _ => by
    obtain ⟨hwhole, hfree⟩ := h.called (.withdraw _ _ _) .performed
    exact ⟨hwhole, hfree⟩

variable (env cfg old held) in
theorem Own.steady : Steady env cfg (Own env cfg old held) where
  aside := fun h ha => h.aside ha
  takes := fun h hc => h.called hc _
  uncounted := fun {_ id reason o} h _ _ => by
    have hc := h.called (.withdraw id reason o) .performed
    exact hc.mono ⟨hc.whole, hc.free⟩ (List.Subset.refl _) (List.prefix_refl _)
      (List.Subset.refl _) (List.Subset.refl _) rfl

theorem Own.dequeueAll (fuel : Nat) {held : List Message} {b : Context}
    (h : Own env cfg old held b) :
    (dequeueAll env cfg fuel).Ends b (fun batch => Own env cfg old (held ++ batch))
      fun _ => Own env cfg old held := by
  induction fuel generalizing held b with
  | zero => exact h.release (by simp)
  | succ fuel ih =>
    unfold Bridge.dequeueAll
    rw [ends_bind]
    refine ends_mailboxCall (fun _ => ?_) fun _ => h.called .dequeue _
    have hc := h.called (f := .performed) .dequeue
    split
    · next m ha =>
      have hm : m ∈ pendingMessages b.mailbox := (mem_of_dequeue ha).1
      have hheld : Own env cfg old (held ++ [m]) (b.called env cfg .dequeue none) := by
        refine { hc with waiting := fun x hx => ?_ }
        rcases hx with hx | hx
        · rcases List.mem_append.mp hx with hx | hx
          · exact hc.waiting x (.inl hx)
          · exact List.mem_singleton.mp hx ▸ h.waiting m (.inr hm)
        · exact hc.waiting x (.inr hx)
      refine (bystands_setState m.msgId .inFlight).next fun _ b₁ hb₁ => ?_
      refine ends_bind.mpr ((ih (hheld.aside hb₁)).mono (fun batch b₂ h₂ => ?_) fun _ _ h =>
        h.release (List.subset_append_left _ _))
      rw [List.append_assoc] at h₂
      exact h₂
    · exact hc.release (by simp)

/-! ## The flush -/

theorem Own.scheduleAll (droppedIds : List Text) (judged : List (Message × Option Drop))
    {previous : Option Message} {delay : Nat} {b : Context}
    (h : Own env cfg old (judged.map Prod.fst) b) :
    (scheduleAll env cfg droppedIds previous delay judged).Ends b (fun _ => Own env cfg old [])
      Never := by
  induction judged generalizing previous delay b with
  | nil => exact h
  | cons e l ih =>
    obtain ⟨m, why⟩ := e
    have hdrop : ∀ {b : Context}, Own env cfg old ((m :: l.map Prod.fst)) b →
        Own env cfg old (l.map Prod.fst) b := fun h => h.release (List.subset_cons_self _ _)
    have hdead : ∀ reason previous, Ends (Bridge.quarantine env cfg m.msgId reason .notWritten true
        false >>= fun _ => Bridge.scheduleAll env cfg droppedIds previous delay l) b
        (fun _ => Own env cfg old []) Never := by
      intro reason previous
      refine ((Own.steady _ _ _ _).quarantine _ _ _ _ _ h).bind fun _ b' h' => ?_
      exact ih (hdrop h'.1)
    cases why with
    | some why => exact ih (hdrop h)
    | none =>
      unfold Bridge.scheduleAll
      rw [ends_bind, ends_get]
      refine ends_ite (fun _ => hdead _ _) fun _ => ends_ite (fun _ => hdead _ _) fun _ => ?_
      refine ih ?_
      have hm : b.Mine old m.msgId m.payload := h.waiting m (.inl List.mem_cons_self)
      refine { hdrop h with timers := fun t ht => ?_ }
      rcases List.mem_append.mp ht with ht | ht
      · exact h.timers t ht
      · exact List.mem_singleton.mp ht ▸ hm

theorem Own.flush (h : Own env cfg old [] b) :
    (flushBridgeMailbox env cfg).Ends b (fun _ => Own env cfg old []) fun _ => Own env cfg old [] := by
  unfold flushBridgeMailbox
  rw [ends_bind, ends_get]
  refine ends_ite (fun _ => h) fun _ => ?_
  refine Bystands.next (bystands_modify fun _ => ?_) fun _ b₁ hb₁ => ?_
  · exact ⟨rfl, rfl, rfl, rfl, rfl, rfl, rfl, rfl, le_rfl, rfl⟩
  rw [ends_bind, ends_get]
  have hs := Own.steady env cfg old []
  refine ends_ite (fun _ => h.aside hb₁) fun _ => ?_
  have hdelay : Bystands (firstDelay env) := bystands_get.bind fun _ => Bystands.ite
    (bystands_pure _) (bystands_now.bind fun _ => bystands_get.bind fun _ => bystands_pure _)
  refine hdelay.next fun delay b₂ hb₂ => ?_
  rw [ends_bind, ends_get, ends_bind]
  refine (Own.dequeueAll _ ((h.aside hb₁).aside hb₂)).mono (fun batch b₃ h₃ => ?_) fun _ _ h => h
  rw [List.nil_append] at h₃
  refine ends_ite (fun _ => ?_) fun _ => ?_
  · exact (h₃.release (List.nil_subset _)).mono ⟨h₃.whole, h₃.free⟩ (List.Subset.refl _) (List.prefix_refl _)
      (List.Subset.refl _) (List.Subset.refl _) rfl
  · refine bystands_now.next fun t b₄ hb₄ => ?_
    refine Ends.weaken (((Own.steady env cfg old batch).dropAll _ b₄ (h₃.aside hb₄)).bind
      fun _ b₅ h₅ => ?_)
    have h₅' : Own env cfg old ((filterBridgeBatch batch cfg.injectTtlSecs
        (t / 1000 : Nat)).map Prod.fst) b₅ := by
      rw [map_fst_filterBridgeBatch]
      exact h₅
    refine (Own.scheduleAll _ _ h₅').bind fun _ b₆ h₆ => ?_
    exact h₆.mono ⟨h₆.whole, h₆.free⟩ (List.Subset.refl _) (List.prefix_refl _) (List.Subset.refl _)
      (List.Subset.refl _) rfl

/-! ## Writes to the child -/

theorem mem_takeDue {l others : List Timer} {t : Timer} (h : takeDue l = some (t, others)) :
    t ∈ l ∧ others ⊆ l := by
  induction l generalizing t others with
  | nil => cases h
  | cons u l ih =>
    rw [takeDue] at h
    split at h
    · cases h
      exact ⟨List.mem_cons_self, List.nil_subset _⟩
    · next v rest hv =>
      obtain ⟨hmem, hsub⟩ := ih hv
      split at h
      · cases h
        exact ⟨List.mem_cons_of_mem _ hmem, List.cons_subset_cons _ hsub⟩
      · cases h
        exact ⟨List.mem_cons_self, List.subset_cons_self _ _⟩

theorem Own.deliver {t : Timer} (h : Own env cfg old [] b) (ht : b.Mine old t.msgId t.text) :
    (deliver env cfg t).Ends b (fun _ => Own env cfg old []) fun _ => Own env cfg old [] :=
  (Own.steady env cfg old []).ends_deliver h (h.wrote (.inr ⟨t.msgId, rfl, ht⟩))

theorem Own.writeDirect {text : Text} {ids : Ids} {number : Nat} (h : Own env cfg old [] b)
    (ht : text ∈ b.frames) :
    (writeDirectInject env text ids number).Ends b (fun _ => Own env cfg old [])
      fun _ => Own env cfg old [] :=
  ends_writeDirectInject (fun h ha => h.aside ha) h (h.wrote (.inl ⟨ht, rfl⟩))

/-! ## Frames -/

/-- **A record that this process queues** waits under a new id, or does not wait at all. -/
theorem Own.enqueued (h : Own env cfg old [] b) {m : Message} {number : Nat}
    (hr : m.recipient = cfg.sessionId) (hq : (m.msgId, number) ∈ b.queuedAs)
    (hf : b.frames[number]? = some m.payload)
    (hnew : ∀ x ∈ b.mailbox.messages, (loadStates b.mailbox.journal).get? x.msgId = none →
      x.msgId ≠ m.msgId)
    (hlater : ∀ n seq, b.bridgeMsgSeq < seq →
      m.msgId ≠ bridgeMsgId cfg.sessionId (env.clock n) seq) (f : Fate) :
    Own env cfg old [] (b.called env cfg (.enqueue m) f.crash) := by
  have hperform : perform cfg.sessionId .default (b.secs env) b.mailbox (.enqueue m)
      = Mailbox.enqueue .default (b.secs env) m b.mailbox := by
    cases m
    cases hr
    rfl
  have huntorn := untorn_crash f (b.secs env) (.enqueue m)
  obtain ⟨k, hafter, -⟩ := huntorn.after cfg.sessionId .default b.mailbox
  have hfiles : (b.called env cfg (.enqueue m) f.crash).mailbox
      = b.mailbox.applyAll ((Mailbox.enqueue .default (b.secs env) m b.mailbox).2.take k) := by
    rw [← hperform]
    exact hafter
  obtain ⟨hmessages, -, hstateless⟩ := settles_enqueue h.whole k hfiles
  have hfree : (loadStates b.mailbox.journal).get? m.msgId = none →
      rowsOf m.msgId b.mailbox.messages = [] := by
    intro hnone
    refine List.filter_eq_nil_iff.mpr fun x hx hxid => ?_
    have hxid := of_decide_eq_true hxid
    exact hnew x hx (hxid ▸ hnone) hxid
  have hpending := pendingMessages_enqueue .default (b.secs env) h.whole hfree k
  rw [← hfiles] at hpending
  refine ⟨⟨huntorn.whole h.whole, fun x hx hn n seq hseq => ?_⟩, fun x hx => ?_, h.timers, h.written⟩
  · rcases hmessages x hx with hx | rfl
    · exact h.free x hx (hstateless _ hn) n seq hseq
    · exact hlater n seq hseq
  · rcases hx with hx | hx
    · cases hx
    rcases hpending with heq | ⟨heq, -⟩
    · rw [heq] at hx
      exact h.waiting x (.inr hx)
    · rw [heq] at hx
      rcases List.mem_append.mp hx with hx | hx
      · exact h.waiting x (.inr hx)
      · rw [List.mem_singleton.mp hx]
        exact .inl ⟨number, hq, hf⟩

theorem Own.enqueueMessage {text : Text} {ids : Ids} {number : Nat} (h : Own env cfg old [] b)
    (hf : b.frames[number]? = some text) :
    (enqueueBridgeMessage env cfg text ids number).Ends b (fun _ => Own env cfg old []) Never := by
  have hs := Own.steady env cfg old []
  unfold enqueueBridgeMessage
  rw [ends_bind, ends_get]
  refine ends_ite (fun _ => h) fun _ => ?_
  rw [ends_bind, ends_now, ends_bind, ends_modify, ends_bind, ends_get, ends_bind, ends_now, ends_bind,
    ends_attempt]
  have hb := h.aside ((bystands_now : Bystands (now env)) b)
  have hnamed : Own env cfg old [] (Context.named cfg (env.clock b.reads) number
      { b with reads := b.reads + 1 }) :=
    hb.mono ⟨hb.whole, fun x hx hn n seq hlt => hb.free x hx hn n seq (Nat.lt_of_succ_lt hlt)⟩
      (List.subset_append_left _ _) (List.prefix_refl _) (List.Subset.refl _) (List.Subset.refl _) rfl
  have hqueued : (bridgeMsgId cfg.sessionId (env.clock b.reads) (b.bridgeMsgSeq + 1), number) ∈
      (Context.named cfg (env.clock b.reads) number { b with reads := b.reads + 1 }).queuedAs :=
    List.mem_append_right _ List.mem_cons_self
  have hlater : ∀ n seq, (Context.named cfg (env.clock b.reads) number
      { b with reads := b.reads + 1 }).bridgeMsgSeq < seq →
      bridgeMsgId cfg.sessionId (env.clock b.reads) (b.bridgeMsgSeq + 1)
        ≠ bridgeMsgId cfg.sessionId (env.clock n) seq := fun n seq hlt heq =>
    absurd (bridgeMsgId_injective heq) (Nat.ne_of_lt hlt)
  have hnew : ∀ x ∈ (Context.named cfg (env.clock b.reads) number
      { b with reads := b.reads + 1 }).mailbox.messages,
      (loadStates (Context.named cfg (env.clock b.reads) number
        { b with reads := b.reads + 1 }).mailbox.journal).get? x.msgId = none →
      x.msgId ≠ bridgeMsgId cfg.sessionId (env.clock b.reads) (b.bridgeMsgSeq + 1) := fun x hx hn =>
    h.free x hx hn b.reads _ (Nat.lt_succ_self _)
  change (Context.named cfg (env.clock b.reads) number
    { b with reads := b.reads + 1 }).frames[number]? = _ at hf
  change Ends (mailboxCall env cfg (.enqueue ⟨bridgeMsgId cfg.sessionId (env.clock b.reads)
    (b.bridgeMsgSeq + 1), _, _, _, _, _, _⟩)) _ _ _
  generalize bridgeMsgId cfg.sessionId (env.clock b.reads) (b.bridgeMsgSeq + 1) = msgId at *
  generalize Context.named cfg (env.clock b.reads) number { b with reads := b.reads + 1 } = b₁ at *
  have hcalled := (hnamed.aside ((bystands_now : Bystands (now env)) b₁)).enqueued (m := ⟨msgId,
    some "daemon", cfg.sessionId, text, (env.clock b₁.reads / 1000 : Nat), 0, none⟩) rfl hqueued hf
    hnew hlater
  refine ends_mailboxCall (fun _ => ?_) fun _ => ?_
  · refine (bystands_rememberRecord _ _ _).next fun _ b₃ h₃ => ?_
    rw [ends_bind, ends_modify]
    refine (bystands_sendReceipt _ _ _ _ _ _).mono (fun _ b₄ h₄ => ?_) fun _ _ h => h
    have h₃' := (hcalled .performed).aside h₃
    refine Own.aside ?_ h₄
    exact h₃'.mono ⟨h₃'.whole, h₃'.free⟩ (List.Subset.refl _) (List.prefix_refl _)
      (List.Subset.refl _) (List.Subset.refl _) rfl
  · exact hs.noteRefused _ _ _ _ (hcalled _)

theorem Own.handleOwnerInject {f : Frame} (h : Own env cfg old [] b) :
    (handleOwnerInject env cfg f).Ends b (fun _ => Own env cfg old []) fun _ => Own env cfg old [] := by
  have hs := Own.steady env cfg old []
  unfold Bridge.handleOwnerInject
  refine ends_ite (fun _ => h) fun _ => ?_
  rw [ends_bind, ends_get, ends_bind, ends_modify, ends_bind, ends_get]
  have h₁ : Own env cfg old [] { b with frames := b.frames ++ [f.data] } :=
    h.mono ⟨h.whole, h.free⟩ (List.Subset.refl _) (List.prefix_append _ _) (List.Subset.refl _)
      (List.Subset.refl _) rfl
  have hframe : (b.frames ++ [f.data])[b.frames.length]? = some f.data := by simp
  have hmem : f.data ∈ b.frames ++ [f.data] := List.mem_append_right _ List.mem_cons_self
  refine ends_ite (fun _ => ends_ite (fun _ => ends_ite (fun _ => ?_) fun _ => ?_) fun _ => ?_)
    fun _ => ?_
  · -- the submit of a refused body
    rw [ends_bind, ends_modify]
    refine Ends.weaken (hs.bystands (bystands_sendReceipt _ _ _ _ _) _ ?_)
    exact h₁.aside ⟨rfl, rfl, rfl, rfl, rfl, rfl, rfl, rfl, le_rfl, rfl⟩
  · -- a submit behind what waits
    refine ends_bind.mpr ((h₁.enqueueMessage hframe).weaken.mono (fun _ b' hb' => ?_) fun _ _ h => h)
    have hdrain : ∀ drains : Bool, Keeps (Own env cfg old []) (fun _ => Own env cfg old [])
        (if drains then do
          modify fun b => { b with queueFlushTimer := false }
          flushBridgeMailbox env cfg
        else scheduleIdleFlush cfg : Act Unit) := fun drains => by
      refine .ite (fun _ => .bind (hs.lenient (bystands_modify fun _ => ?_)) fun _ _ h => h.flush)
        fun _ => hs.lenient bystands_scheduleIdleFlush
      exact ⟨rfl, rfl, rfl, rfl, rfl, rfl, rfl, rfl, le_rfl, rfl⟩
    refine Keeps.ite (fun _ => ?_) (fun _ => ?_) b' hb'
    · exact hdrain true
    · exact (hs.lenient bystands_isIdle).bind hdrain
  · -- a submit that nothing is ahead of
    exact ends_bind.mpr ((h₁.writeDirect hmem).mono (fun _ _ h => h) fun _ _ h => h)
  · -- a body
    refine bystands_isIdle.next fun idle b' hb' => ends_ite (fun _ => ?_) fun _ => ?_
    · have hmem' : f.data ∈ b'.frames := hb'.frames ▸ hmem
      refine ends_bind.mpr (((h₁.aside hb').writeDirect hmem').mono (fun wrote b₂ h₂ =>
        ends_ite (fun _ => ?_) fun _ => h₂) fun _ _ h => h)
      exact h₂.aside ⟨rfl, rfl, rfl, rfl, rfl, rfl, rfl, rfl, le_rfl, rfl⟩
    · have hframe' : b'.frames[b.frames.length]? = some f.data := by
        rw [hb'.frames]
        exact hframe
      refine ends_bind.mpr (((h₁.aside hb').enqueueMessage hframe').weaken.mono (fun _ b₂ h₂ => ?_)
        fun _ _ h => h)
      exact hs.lenient bystands_scheduleIdleFlush b₂ h₂

variable (env cfg old) in
theorem Own.lasting : Lasting env cfg (Own env cfg old []) where
  toSteady := Own.steady env cfg old []
  flush := fun _ h => h.flush
  deliver := fun {b t others} h ht => by
    obtain ⟨hmem, hsub⟩ := mem_takeDue ht
    have hothers : Own env cfg old [] { b with deliveryTimers := others } :=
      h.mono ⟨h.whole, h.free⟩ (List.Subset.refl _) (List.prefix_refl _) (List.Subset.refl _) hsub rfl
    exact hothers.deliver (h.timers t hmem)
  close := fun {b} h => h.mono ⟨h.whole, h.free⟩ (List.Subset.refl _) (List.prefix_refl _)
    (List.Subset.refl _) (List.nil_subset _) rfl

/-- **One event**, whatever fails in it. -/
theorem Own.step (h : Own env cfg old [] b) (e : Event) : Own env cfg old [] (step env cfg b e) := by
  by_cases he : ∀ f, e ≠ .inject f
  · exact (Own.lasting env cfg old).step h he
  · obtain ⟨f, rfl⟩ := not_forall_not.mp he
    refine Ends.after (x := Event.turn env cfg (.inject f)) (ends_bind.mpr (ends_get.mpr ?_))
    exact ends_ite (fun _ => h.handleOwnerInject) fun _ => h

theorem Own.run (h : Own env cfg old [] b) (events : List Event) :
    Own env cfg old [] (run env cfg b events) := by
  induction events generalizing b with
  | nil => exact h
  | cons e events ih => exact ih (h.step e)

/-! ## The recovery -/

variable {I : Context → Prop} {mailbox : Files}

theorem Steady.recoverFrom (hI : Steady env cfg I) (l : List Summary) :
    Keeps I Never (recoverFrom env cfg l) := by
  induction l with
  | nil => exact keeps_pure 0
  | cons s l ih =>
    refine keeps_get.bind fun b => .ite (fun _ => ih.bind fun own => keeps_pure _) fun _ => ?_
    exact (hI.keeps_quarantine _ _ _ _ _).bind fun _ => ih

theorem Steady.start (hI : Steady env cfg I) (hb : I (.fresh mailbox))
    (hcount : ∀ b n, I b → I { b with bridgePendingCount := n }) : I (start env cfg mailbox) := by
  refine Ends.after (x := recoverBridgeMailbox env cfg) (Keeps.bind keeps_get (fun b => ?_) _ hb)
  refine .ite (fun _ => keeps_pure ()) fun _ => (hI.mailboxCall .peek).attempt.bind fun a => ?_
  split
  · refine (hI.recoverFrom _).weaken.bind fun own => Keeps.bind (keeps_modify fun b => hcount b own)
      fun _ => .ite (fun _ => hI.lenient bystands_armBridgeTick) fun _ => keeps_pure ()
  · exact keeps_pure ()

/-- Nothing is on its way to the child. -/
def Idle (b : Context) : Prop := b.deliveryTimers = [] ∧ b.written = []

variable (env cfg) in
theorem idle_steady : Steady env cfg Idle where
  aside := fun h ha => ⟨ha.timers.trans h.1, ha.written.trans h.2⟩
  takes := fun h _ => h
  uncounted := fun h _ _ => h

/-- No message without a state has an id that a bridge can give. -/
def Unnamed (env : Env) (cfg : Setup) (mailbox : Files) : Prop :=
  ∀ m ∈ mailbox.messages, (loadStates mailbox.journal).get? m.msgId = none →
    ∀ n seq, m.msgId ≠ bridgeMsgId cfg.sessionId (env.clock n) seq

/-- **A bridge that has started** has on its hands what waits in the mailbox. -/
theorem own_start (hw : mailbox.Whole) (hfree : Unnamed env cfg mailbox) :
    Own env cfg (pendingMessages (start env cfg mailbox).mailbox) [] (start env cfg mailbox) := by
  have hfresh : Tidy env cfg (.fresh mailbox) := ⟨hw, fun m hm hn n seq _ => hfree m hm hn n seq⟩
  have htidy : Tidy env cfg (Bridge.start env cfg mailbox) :=
    Tidy.steady.start hfresh fun b n h => ⟨h.whole, h.free⟩
  obtain ⟨htimers, hwritten⟩ : Idle (Bridge.start env cfg mailbox) :=
    (idle_steady env cfg).start ⟨rfl, rfl⟩ fun b n h => h
  refine ⟨htidy, fun m hm => ?_, fun t ht => ?_, fun w hwm => ?_⟩
  · rcases hm with hm | hm
    · cases hm
    · exact .inr ⟨m, hm, rfl, rfl⟩
  · rw [htimers] at ht
    cases ht
  · rw [hwritten] at hwm
    cases hwm

/-- A withdrawal makes two appends, and may throw behind them. -/
def Fate.withdraws : Fate → Bool
  | .performed => true
  | .failed writes => 2 ≤ writes

/-- What the recovery is to withdraw, one call for each. -/
def leftover (mailbox : Files) : List Summary := (peek mailbox).filter Summary.live

/-- If a record is pending, the recovery can read the mailbox and withdraws the record. -/
def Withdrawn (env : Env) (mailbox : Files) : Prop :=
  ∀ e ∈ (leftover mailbox).zipIdx, e.1.state = .pending →
    env.fate 0 = .performed ∧ (env.fate (e.2 + 1)).withdraws = true

/-- Where a recovery stands: the record index is empty. -/
structure Recovering (b : Context) : Prop where
  whole : b.mailbox.Whole
  dir : b.mailbox.dir = true
  records : b.bridgeRecords = .empty

theorem ends_noteQuarantine_unknown (msgId reason : Text) (certainty : Certainty) (moved : Bool) :
    (noteQuarantine env msgId reason none certainty moved).Ends b
      (fun _ b' => b'.mailbox = b.mailbox ∧ b'.bridgeRecords = b.bridgeRecords ∧ b'.calls = b.calls)
      Never := by
  cases moved <;> exact ⟨rfl, rfl, rfl⟩

/-- Two writes of a withdrawal take the message from those that wait. -/
theorem not_pending_withdraw {f : Files} (hf : f.Whole) (hd : f.dir = true) (now : Int)
    (id reason : Text) (o : WithdrawOptions) {k : Nat} (hk : 2 ≤ k) {m : Message}
    (hm : m ∈ pendingMessages (f.applyAll ((Mailbox.withdraw now id reason o f).2.take k))) :
    m.msgId ≠ id := by
  rintro rfl
  have hsub := ((((Call.Takes.withdraw m.msgId reason o).shrinking [] .default now hf).take k).applyAll
    hf).2.subset hm
  have hmem : m ∈ f.messages := (mem_of_latestOf (mem_pendingMessages_iff.mp hsub).1).1
  have hgone := withdraw_settles now reason o hf hd hmem hk
  rw [(mem_pendingMessages_iff.mp hm).2] at hgone
  cases hgone

theorem called_of_withdraws {f : Fate} (hf : f.withdraws = true) (c : Call) (b : Context) :
    ∃ k, 2 ≤ k ∧ (b.called env cfg c f.crash).mailbox =
      b.mailbox.applyAll ((perform cfg.sessionId .default (b.secs env) b.mailbox c).2.take k) := by
  cases f with
  | performed =>
    refine ⟨(perform cfg.sessionId .default (b.secs env) b.mailbox c).2.length + 2, by omega, ?_⟩
    rw [List.take_of_length_le (Nat.le_add_right _ _)]
    rfl
  | failed writes => exact ⟨writes, of_decide_eq_true hf, rfl⟩

theorem Recovering.quarantine (h : Recovering b) (msgId reason : Text) (certainty : Certainty)
    (inFlight deliveryUncertain : Bool) :
    (quarantine env cfg msgId reason certainty inFlight deliveryUncertain).Ends b
      (fun _ b' => Recovering b' ∧ b'.calls = b.calls + 1 ∧
        (pendingMessages b'.mailbox).Sublist (pendingMessages b.mailbox) ∧
        ((env.fate b.calls).withdraws = true → ∀ m ∈ pendingMessages b'.mailbox, m.msgId ≠ msgId))
      Never := by
  have hrecord : b.bridgeRecords.get? msgId = none := by
    rw [h.records]
    rfl
  unfold Bridge.quarantine
  rw [ends_bind, ends_get, hrecord]
  dsimp only
  rw [ends_bind, ends_attempt]
  generalize hcall : Call.withdraw msgId reason ⟨inFlight, deliveryUncertain, (idsOf none).details⟩ = c
  have hc : c.Takes := hcall ▸ .withdraw ..
  have hafter : ∀ f : Fate, Recovering (b.called env cfg c f.crash) ∧
      (pendingMessages (b.called env cfg c f.crash).mailbox).Sublist (pendingMessages b.mailbox) := by
    intro f
    have huntorn := untorn_crash f (b.secs env) c
    obtain ⟨k, hk, -⟩ := huntorn.after cfg.sessionId .default b.mailbox
    have hdir : (b.called env cfg c f.crash).mailbox.dir = true := by
      show (Step.after cfg.sessionId .default _ b.mailbox).dir = true
      rw [hk]
      exact Files.applyAll_dir _ _ h.dir
    exact ⟨⟨huntorn.whole h.whole, hdir, h.records⟩, Step.takes h.whole hc huntorn⟩
  have hgone : ∀ f : Fate, f.withdraws = true →
      ∀ m ∈ pendingMessages (b.called env cfg c f.crash).mailbox, m.msgId ≠ msgId := by
    subst hcall
    intro f hf m hm
    obtain ⟨k, hk, hmailbox⟩ := @called_of_withdraws env cfg f hf _ b
    rw [hmailbox] at hm
    exact not_pending_withdraw h.whole h.dir _ msgId reason _ hk hm
  refine ends_mailboxCall (fun _ => ?_) fun hf => ?_
  · obtain ⟨hr, hsub⟩ := hafter .performed
    split
    · refine ends_bind.mpr ((ends_noteQuarantine_unknown _ _ _ _).mono (fun _ b' h' => ?_)
        fun _ _ h => h)
      obtain ⟨hmailbox, hrecords, hcalls⟩ := h'
      refine ⟨⟨hmailbox ▸ hr.whole, hmailbox ▸ hr.dir, hrecords.trans hr.records⟩, hcalls,
        hmailbox ▸ hsub, fun _ => hmailbox ▸ hgone .performed rfl⟩
    · exact ⟨hr, rfl, hsub, fun _ => hgone .performed rfl⟩
  · obtain ⟨hr, hsub⟩ := hafter (env.fate b.calls)
    exact ⟨hr, rfl, hsub, fun hw => hgone _ hw⟩

theorem Recovering.recoverFrom (l : List Summary) {b : Context} (h : Recovering b) :
    (recoverFrom env cfg l).Ends b
      (fun own b' => own = 0 ∧ Recovering b' ∧
        (pendingMessages b'.mailbox).Sublist (pendingMessages b.mailbox) ∧
        ∀ n s, l[n]? = some s → (env.fate (b.calls + n)).withdraws = true →
          ∀ m ∈ pendingMessages b'.mailbox, m.msgId ≠ s.msgId)
      Never := by
  induction l generalizing b with
  | nil => exact ⟨rfl, h, List.Sublist.refl _, fun _ _ hs => by cases hs⟩
  | cons s l ih =>
    unfold Bridge.recoverFrom
    rw [ends_bind, ends_get]
    refine ends_ite (fun hhas => ?_) fun _ => ?_
    · rw [h.records] at hhas
      cases hhas
    · refine (h.quarantine _ _ _ _ _).bind fun _ b₁ h₁ => ?_
      obtain ⟨h₁, hcalls, hsub, hgone⟩ := h₁
      refine (ih h₁).mono (fun own b₂ h₂ => ?_) fun _ _ h => h
      obtain ⟨hown, h₂, hsub', hrest⟩ := h₂
      rw [hcalls] at hrest
      refine ⟨hown, h₂, hsub'.trans hsub, fun n s' hs' hw m hm => ?_⟩
      cases n with
      | zero =>
        rw [← Option.some.inj hs']
        exact hgone hw m (hsub'.subset hm)
      | succ n => exact hrest n s' hs' (by rwa [Nat.add_right_comm]) m hm

/-- **A recovery that withdraws what waits leaves nothing waiting.** -/
theorem recovered (hw : mailbox.Whole) (hdir : mailbox.dir = true) (hwd : Withdrawn env mailbox) :
    pendingMessages (start env cfg mailbox).mailbox = [] := by
  have hpending : ∀ m ∈ pendingMessages mailbox, env.fate 0 = .performed ∧
      ∃ n s, (leftover mailbox)[n]? = some s ∧ m.msgId = s.msgId ∧
        (env.fate (n + 1)).withdraws = true := by
    intro m hm
    obtain ⟨hlatest, hpending⟩ := mem_pendingMessages_iff.mp hm
    obtain ⟨r, hr, hstate⟩ := (Option.any_eq_true _ _).mp hpending
    obtain ⟨s, hs, hid, hsstate⟩ := exists_mem_peek hdir (mem_of_latestOf hlatest).1 hr
    rw [of_decide_eq_true hstate] at hsstate
    have hlive : s ∈ leftover mailbox := List.mem_filter.mpr ⟨hs, by rw [Summary.live, hsstate]; rfl⟩
    obtain ⟨n, hn⟩ := List.mem_iff_getElem?.mp hlive
    obtain ⟨hpeek, hcall⟩ := hwd (s, n) (List.mk_mem_zipIdx_iff_getElem?.mpr hn) hsstate
    exact ⟨hpeek, n, s, hn, hid.symm, hcall⟩
  suffices hend : (recoverBridgeMailbox env cfg).Ends (.fresh mailbox)
      (fun _ b => pendingMessages b.mailbox = []) fun _ b => pendingMessages b.mailbox = [] from
    hend.after
  unfold recoverBridgeMailbox
  rw [ends_bind, ends_get, if_neg (by simp [Context.fresh]), ends_bind, ends_attempt]
  refine ends_mailboxCall (fun _ => ?_) fun hf => ?_
  · have hpeek : Recovering (Context.called env cfg .peek none (.fresh mailbox)) := ⟨hw, hdir, rfl⟩
    refine ends_bind.mpr ((hpeek.recoverFrom (leftover mailbox)).mono
      (fun own b h => ?_) fun _ _ h => h.elim)
    obtain ⟨rfl, -, hsub, hgone⟩ := h
    refine ends_bind.mpr ((ends_modify _).mpr (ends_ite (fun h => absurd h (Nat.lt_irrefl 0))
      fun _ => List.eq_nil_iff_forall_not_mem.mpr fun m hm => ?_))
    obtain ⟨-, n, s, hs, hid, hcall⟩ := hpending m (hsub.subset hm)
    rw [Nat.add_comm] at hcall
    exact hgone n s hs hcall m hm hid
  · refine List.eq_nil_iff_forall_not_mem.mpr fun m hm => ?_
    have hthrew := hf (hpending m ((Step.takes hw .peek (untorn_crash _ _ _)).subset hm)).1
    cases hthrew

/-- **A bridge never writes what its predecessor queued**, if its recovery withdrew what was pending:
every text that is written is that of a frame it was handed, and where it came from a record, the
record is one that this process queued for that frame. Other mailbox calls and writes may fail. -/
theorem predecessor_never_written (hw : mailbox.Whole) (hdir : mailbox.dir = true)
    (hfree : Unnamed env cfg mailbox) (hwd : Withdrawn env mailbox) (events : List Event) :
    ∀ w ∈ (run env cfg (start env cfg mailbox) events).written,
      w.text ∈ (run env cfg (start env cfg mailbox) events).frames ∧
        ∀ id ∈ w.msgId, (run env cfg (start env cfg mailbox) events).Queued id w.text := by
  intro w hwm
  have hown := own_start hw hfree
  rw [recovered hw hdir hwd] at hown
  rcases (hown.run events).written w hwm with ⟨ht, hn⟩ | ⟨id, hid, hq | ⟨m, hm, -⟩⟩
  · refine ⟨ht, fun id hid => ?_⟩
    rw [hn] at hid
    cases hid
  · have hq' := hq
    obtain ⟨n, -, ht⟩ := hq'
    refine ⟨List.mem_of_getElem? ht, fun id' hid' => ?_⟩
    rw [Option.mem_unique hid' hid]
    exact hq
  · cases hm

/-- What a bridge leaves that was handed one body and never saw the prompt. -/
def leftMailbox : Files :=
  (run tenthsEnv (.default ['s'] true) (start tenthsEnv (.default ['s'] true) .absent)
    [.inject ⟨['o'], .none⟩]).mailbox

theorem whole_leftMailbox : leftMailbox.Whole :=
  ((own_start ⟨Files.sound_absent.clean, Files.inboxClean_absent⟩
    fun _ hm => absurd hm List.not_mem_nil).run _).whole

/-- A bridge whose first mailbox call, the one of the recovery, fails. -/
def failedEnv : Env :=
  ⟨fun n => 200000 + 10 * n, fun n => if n = 0 then .failed 0 else .performed, fun _ => false⟩

theorem unnamed_leftMailbox (env : Env) (cfg : Setup) : Unnamed env cfg leftMailbox := by
  have hstates : (leftMailbox.messages.all fun m =>
      ((loadStates leftMailbox.journal).get? m.msgId).isSome) = true := by
    decide +kernel
  intro m hm hn
  have hsome := List.all_eq_true.mp hstates m hm
  rw [hn] at hsome
  cases hsome

/-- The bridge that comes after it, and a body that it is handed. -/
def takenOver (env : Env) : Context :=
  run env (.default ['s'] true) (start env (.default ['s'] true) leftMailbox)
    [.inject ⟨['a'], .none⟩, .output true, .deliver]

set_option maxRecDepth 100000 in
/-- It writes the body of its predecessor. -/
theorem leftover_replayed : ¬ ∀ w ∈ (takenOver failedEnv).written,
    ∀ id ∈ w.msgId, (takenOver failedEnv).Queued id w.text := by
  intro h
  have hwritten : ∃ w ∈ (takenOver failedEnv).written, w.msgId.isSome = true ∧
      w.text ∉ (takenOver failedEnv).frames := by
    decide +kernel
  obtain ⟨w, hw, hsome, ht⟩ := hwritten
  obtain ⟨id, hid⟩ := Option.isSome_iff_exists.mp hsome
  obtain ⟨n, -, hn⟩ := h w hw id hid
  exact ht (List.mem_of_getElem? hn)

/-- The next bridge, whose first acknowledgement fails. -/
def nextEnv : Env :=
  ⟨fun n => 200000 + 10 * n, fun n => if n = 5 then .failed 1 else .performed, fun _ => false⟩

set_option maxRecDepth 100000 in
theorem predecessor_never_written_left :
    (pendingMessages leftMailbox).map Message.payload = [['o']] ∧
    (takenOver nextEnv).written.map Written.text = [['a']] ∧
    ∀ w ∈ (takenOver nextEnv).written, w.text ∈ (takenOver nextEnv).frames ∧
      ∀ id ∈ w.msgId, (takenOver nextEnv).Queued id w.text :=
  ⟨by decide +kernel, by decide +kernel, predecessor_never_written whole_leftMailbox
    (by decide +kernel) (unnamed_leftMailbox _ _) (by unfold Withdrawn; decide +kernel) _⟩

end Telepty.Bridge
