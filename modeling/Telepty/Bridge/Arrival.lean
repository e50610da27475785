import Telepty.Bridge.Steady

/-!
# Injects are written in the order of their arrival

Where no mailbox call fails and the clock never goes back, the texts stand in one line: those
written, those that wait for their delivery timers, those a flush has taken out of the mailbox, and
those in the mailbox. A frame goes to the end of the line, or past it where nothing waits; a flush
and a timer move texts forward in it; some leave it. So the line is at all times a part of the frames
in their order.
-/

namespace Telepty.Bridge

open Infra Infra.Action Mailbox

variable {env : Env} {cfg : Setup} {b b' : Context}

/-! ## Numbered frames -/

/-- The frames with their numbers. -/
def numbered (frames : List Text) : List (Option Nat × Text) :=
  frames.zipIdx.map fun e => (some e.2, e.1)

theorem numbered_concat (frames : List Text) (text : Text) :
    numbered (frames ++ [text]) = numbered frames ++ [(some frames.length, text)] := by
  simp [numbered, List.zipIdx_append]

theorem numbered_sublist (frames : List Text) (text : Text) :
    (numbered frames).Sublist (numbered (frames ++ [text])) := by
  rw [numbered_concat]
  exact List.sublist_append_left _ _

/-! ## Delivery timers -/

/-- Of timers in the order of their due times, the first is due first. -/
theorem takeDue_of_sorted {t : Timer} {l : List Timer}
    (h : (t :: l).Pairwise fun a b => a.due ≤ b.due) : takeDue (t :: l) = some (t, l) := by
  obtain ⟨ht, hl⟩ := List.pairwise_cons.mp h
  cases l with
  | nil => rfl
  | cons u l =>
    rw [takeDue, takeDue_of_sorted hl]
    exact if_neg (Nat.not_lt.mpr (ht u List.mem_cons_self))

/-! ## The line -/

def Written.entry (w : Written) : Option Nat × Text := (w.number, w.text)

def Timer.entry (t : Timer) : Option Nat × Text := (t.number, t.text)

def Context.entry (b : Context) (m : Message) : Option Nat × Text :=
  (numberOf b m.msgId, m.payload)

/-- The texts in the order in which they will be written; a flush holds the messages `held`. -/
def Context.line (b : Context) (held : List Message) : List (Option Nat × Text) :=
  b.written.map Written.entry ++ b.deliveryTimers.map Timer.entry ++ held.map b.entry ++
    (pendingMessages b.mailbox).map b.entry

/-- The line stands in the order of the frames `settled`, while the frames `arrived` have come. The
pending count is at least `owed` above the number of messages that wait in the mailbox. -/
structure Orderly (env : Env) (cfg : Setup) (settled arrived : List Text) (held : List Message)
    (owed : Int) (b : Context) : Prop where
  sound : b.mailbox.Sound
  inbox : b.mailbox.InboxClean
  matched : b.mailbox.Matched
  ages : (pendingMessages b.mailbox).Pairwise fun m n => m.createdAt ≤ n.createdAt
  due : ∀ m ∈ pendingMessages b.mailbox, m.createdAt ≤ b.secs env
  count : ((pendingMessages b.mailbox).length : Int) + owed ≤ b.bridgePendingCount
  issued : Issued cfg b
  known : ∀ m, m ∈ held ∨ m ∈ pendingMessages b.mailbox → m.msgId ∈ b.queuedAs.map Prod.fst
  timers : b.deliveryTimers.Pairwise fun t u => t.due ≤ u.due
  tail : ∀ t ∈ b.deliveryTimers, t.due ≤ b.deliveryTailAt.getD 0
  frames : b.frames = arrived
  inLine : (b.line held).Sublist (numbered settled)

section

variable {F G : List Text} {held : List Message} {owed : Int}

theorem Aside.entry (h : Aside b b') : b'.entry = b.entry := by
  funext m
  rw [Context.entry, Context.entry, numberOf, numberOf, h.queuedAs]

theorem Aside.line (h : Aside b b') (held : List Message) : b'.line held = b.line held := by
  rw [Context.line, Context.line, h.entry, h.mailbox, h.timers, h.written]

theorem secs_mono (hclock : Monotone env.clock) {b b' : Context} (h : b.reads ≤ b'.reads) :
    b.secs env ≤ b'.secs env :=
  Int.ofNat_le.mpr (Nat.div_le_div_right (hclock h))

theorem Orderly.aside (hclock : Monotone env.clock) (h : Orderly env cfg F G held owed b)
    (ha : Aside b b') : Orderly env cfg F G held owed b' where
  sound := ha.mailbox ▸ h.sound
  inbox := ha.mailbox ▸ h.inbox
  matched := ha.mailbox ▸ h.matched
  ages := ha.mailbox ▸ h.ages
  due := fun m hm => (h.due m (ha.mailbox ▸ hm)).trans (secs_mono hclock ha.reads)
  count := by
    rw [ha.mailbox, ha.count]
    exact h.count
  issued := h.issued.aside ha
  known := by
    rw [ha.queuedAs, ha.mailbox]
    exact h.known
  timers := ha.timers ▸ h.timers
  tail := by
    rw [ha.timers, ha.tail]
    exact h.tail
  frames := ha.frames.trans h.frames
  inLine := by
    rw [ha.line]
    exact h.inLine

/-! ## Mailbox calls -/

theorem Orderly.whole (h : Orderly env cfg F G held owed b) : b.mailbox.Whole :=
  ⟨h.sound.clean, h.inbox⟩

/-- What every call keeps of the files. -/
theorem Orderly.files (h : Orderly env cfg F G held owed b) (c : Call) :
    (b.called env cfg c none).mailbox.Sound ∧ (b.called env cfg c none).mailbox.InboxClean ∧
      (b.called env cfg c none).mailbox.Matched := by
  have hc : (Step.mk (b.secs env) c none).crash = none := rfl
  exact ⟨Step.sound h.sound (Step.spareState_of_whole hc),
    Step.inboxClean h.sound (Step.spareState_of_whole hc) h.inbox (Step.spareInbox_of_whole hc),
    Step.matched h.sound h.inbox h.matched hc⟩

/-- **A call that at most takes messages away** keeps the line. -/
theorem Orderly.called (hclock : Monotone env.clock) (h : Orderly env cfg F G held owed b) {c : Call}
    (hc : c.Takes) : Orderly env cfg F G held owed (b.called env cfg c none) := by
  have hsub : (pendingMessages (b.called env cfg c none).mailbox).Sublist
      (pendingMessages b.mailbox) :=
    Step.takes h.whole hc fun _ hc => by cases hc
  have hentry : (b.called env cfg c none).entry = b.entry := rfl
  obtain ⟨hs, hi, hm⟩ := h.files c
  refine ⟨hs, hi, hm, h.ages.sublist hsub, fun m hm => ?_, ?_, h.issued,
    fun m hm => h.known m (hm.imp_right fun hm => hsub.subset hm), h.timers, h.tail, h.frames, ?_⟩
  · exact (h.due m (hsub.subset hm)).trans (secs_mono hclock (Nat.le_succ _))
  · have := hsub.length_le
    have := h.count
    show ((pendingMessages _).length : Int) + owed ≤ b.bridgePendingCount
    omega
  · refine List.Sublist.trans ?_ h.inLine
    rw [Context.line, Context.line, hentry]
    exact (List.Sublist.refl _).append (hsub.map _)

/-- **A dequeue takes the first message of the mailbox**, or there is none. -/
theorem Orderly.dequeued (hclock : Monotone env.clock) (h : Orderly env cfg F G held owed b) :
    (∃ m, (Mailbox.dequeue (b.secs env) b.mailbox).1 = .message (some m) ∧
      Orderly env cfg F G (held ++ [m]) (owed + 1) (b.called env cfg .dequeue none)) ∨
    ((Mailbox.dequeue (b.secs env) b.mailbox).1 = .message none ∧
      pendingMessages b.mailbox = []) := by
  have hnext := nextMessage_eq_head? h.due h.ages
  cases hl : pendingMessages b.mailbox with
  | nil =>
    refine .inr ⟨?_, rfl⟩
    rw [hl] at hnext
    rw [Mailbox.dequeue, hnext]
    split <;> rfl
  | cons m l =>
    rw [hl] at hnext
    have hd := dequeue_of_next h.sound hnext
    refine .inl ⟨m, by rw [hd], ?_⟩
    have hsub : (pendingMessages (b.called env cfg .dequeue none).mailbox).Sublist l :=
      pendingMessages_after_dequeue h.sound h.inbox hnext hl
    obtain ⟨sound, inbox, matched, ages, due, -, issued, known, timers, tail, frames, -⟩ :=
      h.called hclock (Call.Takes.dequeue)
    refine ⟨sound, inbox, matched, ages, due, ?_, issued, fun x hx => ?_, timers, tail, frames, ?_⟩
    · have := hsub.length_le
      have := h.count
      rw [hl, List.length_cons] at this
      show ((pendingMessages _).length : Int) + (owed + 1) ≤ b.bridgePendingCount
      push_cast at this
      omega
    · refine h.known x ?_
      rw [hl]
      rcases hx with hx | hx
      · rcases List.mem_append.mp hx with hx | hx
        · exact .inl hx
        · exact .inr (List.mem_singleton.mp hx ▸ List.mem_cons_self)
      · exact .inr (List.mem_cons_of_mem _ (hsub.subset hx))
    · refine List.Sublist.trans ?_ h.inLine
      rw [Context.line, Context.line, hl, List.map_append, List.map_cons]
      simp only [List.append_assoc, List.map_cons, List.map_nil, List.cons_append, List.nil_append]
      exact (List.Sublist.refl _).append ((List.Sublist.refl _).append
        ((List.Sublist.refl _).append ((hsub.map _).cons_cons _)))

/-! ## Enqueue -/

theorem Orderly.named (h : Orderly env cfg F G held owed b) (ms number : Nat) :
    Orderly env cfg F G held owed (Context.named cfg ms number b) := by
  refine ⟨h.sound, h.inbox, h.matched, h.ages, h.due, h.count, h.issued.named ms number,
    fun m hm => ?_, h.timers, h.tail, h.frames, ?_⟩
  · show m.msgId ∈ (b.queuedAs ++ _).map Prod.fst
    rw [List.map_append]
    exact List.mem_append_left _ (h.known m hm)
  · have hentry : ∀ m, m ∈ held ∨ m ∈ pendingMessages b.mailbox →
        (Context.named cfg ms number b).entry m = b.entry m := fun m hm =>
      congrArg (·, m.payload) (assoc_concat_of_mem (h.known m hm))
    have hline : (Context.named cfg ms number b).line held = b.line held := by
      rw [Context.line, Context.line]
      congr 1
      · congr 1
        exact List.map_congr_left fun m hm => hentry m (.inl hm)
      · exact List.map_congr_left fun m hm => hentry m (.inr hm)
    rw [hline]
    exact h.inLine

theorem Orderly.settle (h : Orderly env cfg F G held owed b) (text : Text) :
    Orderly env cfg (F ++ [text]) G held owed b :=
  { h with inLine := h.inLine.trans (numbered_sublist F text) }

theorem Orderly.owe (h : Orderly env cfg F G held owed b) {owed' : Int} (ho : owed' ≤ owed) :
    Orderly env cfg F G held owed' b :=
  { h with count := by have := h.count; omega }

/-- **An enqueue puts its frame at the end of the line**, or nowhere. -/
theorem Orderly.enqueued (hclock : Monotone env.clock) (h : Orderly env cfg F G [] 0 b)
    {m : Message} (hr : m.recipient = cfg.sessionId) (hc : m.createdAt ≤ b.secs env)
    (hlate : ∀ x ∈ pendingMessages b.mailbox, x.createdAt ≤ m.createdAt)
    (hn : numberOf b m.msgId = some F.length) (hk : m.msgId ∈ b.queuedAs.map Prod.fst) :
    Orderly env cfg (F ++ [m.payload]) G [] (-1) (b.called env cfg (.enqueue m) none) ∧
      ((perform cfg.sessionId .default (b.secs env) b.mailbox (.enqueue m)).1 = .threw →
        Orderly env cfg (F ++ [m.payload]) G [] 0 (b.called env cfg (.enqueue m) none)) := by
  obtain ⟨hs, hi, hm⟩ := h.files (.enqueue m)
  have hperform : perform cfg.sessionId .default (b.secs env) b.mailbox (.enqueue m)
      = Mailbox.enqueue .default (b.secs env) m b.mailbox := by
    cases m
    cases hr
    rfl
  have hfiles : (b.called env cfg (.enqueue m) none).mailbox
      = b.mailbox.applyAll ((Mailbox.enqueue .default (b.secs env) m b.mailbox).2.take
          (Mailbox.enqueue .default (b.secs env) m b.mailbox).2.length) := by
    rw [List.take_length, ← hperform]
    rfl
  rw [hperform]
  have hfree : (loadStates b.mailbox.journal).get? m.msgId = none →
      rowsOf m.msgId b.mailbox.messages = [] := fun hnone =>
    h.matched _ (by rw [standing_last]; exact hnone)
  have hmono : b.secs env ≤ (b.called env cfg (.enqueue m) none).secs env :=
    secs_mono hclock (Nat.le_succ _)
  rcases pendingMessages_enqueue .default (b.secs env) h.whole hfree
    (Mailbox.enqueue .default (b.secs env) m b.mailbox).2.length with hp | ⟨hp, hok⟩
  · rw [← hfiles] at hp
    suffices h₀ : Orderly env cfg (F ++ [m.payload]) G [] 0 (b.called env cfg (.enqueue m) none) from
      ⟨h₀.owe (by omega), fun _ => h₀⟩
    refine ⟨hs, hi, hm, by rw [hp]; exact h.ages, fun x hx => ?_, ?_, h.issued, fun x hx => ?_,
      h.timers, h.tail, h.frames, ?_⟩
    · rw [hp] at hx
      exact (h.due x hx).trans hmono
    · have := h.count
      rw [hp]
      show _ ≤ (b.bridgePendingCount : Int)
      omega
    · rw [hp] at hx
      exact h.known x hx
    · have hline : (b.called env cfg (.enqueue m) none).line [] = b.line [] := by
        rw [Context.line, Context.line, hp]
        rfl
      rw [hline]
      exact h.inLine.trans (numbered_sublist F m.payload)
  · rw [← hfiles] at hp
    refine ⟨⟨hs, hi, hm, ?_, fun x hx => ?_, ?_, h.issued, fun x hx => ?_, h.timers, h.tail,
      h.frames, ?_⟩, fun hthrew => absurd hthrew hok⟩
    · rw [hp]
      exact List.pairwise_append.mpr ⟨h.ages, List.pairwise_singleton _ _, fun x hx y hy =>
        List.mem_singleton.mp hy ▸ hlate x hx⟩
    · rw [hp] at hx
      rcases List.mem_append.mp hx with hx | hx
      · exact (h.due x hx).trans hmono
      · exact List.mem_singleton.mp hx ▸ hc.trans hmono
    · have := h.count
      rw [hp, List.length_append, List.length_singleton]
      show _ ≤ (b.bridgePendingCount : Int)
      omega
    · rw [hp] at hx
      rcases hx with hx | hx
      · cases hx
      · rcases List.mem_append.mp hx with hx | hx
        · exact h.known x (.inr hx)
        · exact List.mem_singleton.mp hx ▸ hk
    · have hline : (b.called env cfg (.enqueue m) none).line []
          = b.line [] ++ [(some F.length, m.payload)] := by
        have hentry : (b.called env cfg (.enqueue m) none).entry = b.entry := rfl
        have hm : b.entry m = (some F.length, m.payload) := by rw [Context.entry, hn]
        rw [Context.line, Context.line, hp, hentry, List.map_append, ← List.append_assoc,
          List.map_singleton, hm]
        rfl
      rw [hline, numbered_concat]
      exact h.inLine.append (.refl _)

/-! ## The bookkeeping -/

variable (cfg F G held owed) in
/-- **The bookkeeping leaves the line.** -/
theorem Orderly.steady (hcalls : ∀ n, env.fate n = .performed) (hclock : Monotone env.clock) :
    Steady env cfg (Orderly env cfg F G held owed) where
  aside := fun h ha => h.aside hclock ha
  takes := fun h hc => by
    rw [hcalls]
    exact h.called hclock hc
  uncounted := fun {b id reason o} h ho ha => by
    have hc := h.called hclock (.withdraw id reason o)
    refine ⟨hc.sound, hc.inbox, hc.matched, hc.ages, hc.due, ?_, hc.issued, hc.known, hc.timers,
      hc.tail, hc.frames, hc.inLine⟩
    have hlt : (pendingMessages (b.called env cfg (.withdraw id reason o) none).mailbox).length + 1
        ≤ (pendingMessages b.mailbox).length := length_withdraw h.whole ho ha
    have := h.count
    show ((pendingMessages (b.called env cfg (.withdraw id reason o) none).mailbox).length : Int)
      + owed ≤ ((b.bridgePendingCount - 1 : Nat) : Int)
    omega

section

variable (hcalls : ∀ n, env.fate n = .performed) (hclock : Monotone env.clock)

include hcalls hclock

/-! ## The flush -/

theorem Orderly.dequeueAll (fuel : Nat) {held : List Message} {owed : Int} {b : Context}
    (h : Orderly env cfg F G held owed b) :
    (dequeueAll env cfg fuel).Ends b
      (fun batch b' => Orderly env cfg F G (held ++ batch) (owed + batch.length) b' ∧
        b'.deliveryTimers = b.deliveryTimers ∧ b.reads ≤ b'.reads ∧
        (fuel ≠ 0 → batch = [] → pendingMessages b'.mailbox = []))
      Never := by
  induction fuel generalizing held owed b with
  | zero =>
    refine ⟨?_, rfl, le_rfl, fun h => absurd rfl h⟩
    simpa using h
  | succ fuel ih =>
    have hd := h.dequeued hclock
    have hp : perform cfg.sessionId .default (b.secs env) b.mailbox .dequeue
        = Mailbox.dequeue (b.secs env) b.mailbox := rfl
    unfold Bridge.dequeueAll
    rw [ends_bind]
    refine ends_mailboxCall (fun _ => ?_) fun hf => ?_
    · rw [hp]
      rcases hd with ⟨m, ha, hd⟩ | ⟨ha, hnil⟩
      · rw [ha]
        refine (bystands_setState m.msgId .inFlight).next fun _ b₁ hb₁ => ?_
        refine (ih (hd.aside hclock hb₁)).bind fun batch b₂ hb₂ => ?_
        obtain ⟨ho, ht, hr, -⟩ := hb₂
        refine ⟨?_, ht.trans hb₁.timers, (Nat.le_succ _).trans (hb₁.reads.trans hr), fun _ hn => ?_⟩
        · rw [List.append_assoc] at ho
          refine ho.owe ?_
          rw [List.length_cons]
          push_cast
          omega
        · cases hn
      · rw [ha]
        have hc := h.called hclock .dequeue
        refine ⟨?_, rfl, Nat.le_succ _, fun _ _ => ?_⟩
        · simpa using hc
        · exact List.eq_nil_of_subset_nil (hnil ▸ (Step.takes h.whole .dequeue
            fun _ hc => by cases hc).subset)
    · have := hf (hcalls _)
      rw [hp] at this
      rcases hd with ⟨m, ha, -⟩ | ⟨ha, -⟩ <;>
        · rw [ha] at this
          cases this

/-- Every timer is due once `delay` has passed. -/
def Within (env : Env) (delay : Nat) (b : Context) : Prop :=
  ∀ t ∈ b.deliveryTimers, t.due ≤ env.clock b.reads + delay

omit hcalls hclock in
theorem Within.mono {delay delay' : Nat} (h : Within env delay b) (hle : delay ≤ delay') :
    Within env delay' b := fun t ht => (h t ht).trans (Nat.add_le_add_left hle _)

omit hcalls in
theorem steady_within (delay : Nat) : Steady env cfg (Within env delay) where
  aside := fun h ha t ht => by
    have := h t (ha.timers ▸ ht)
    have := hclock ha.reads
    omega
  takes := fun {b c} h _ t ht => by
    have := h t ht
    have : env.clock b.reads ≤ env.clock (b.reads + 1) := hclock (Nat.le_succ _)
    show t.due ≤ env.clock (b.reads + 1) + delay
    omega
  uncounted := fun {b id reason o} h _ _ t ht => by
    have := h t ht
    have : env.clock b.reads ≤ env.clock (b.reads + 1) := hclock (Nat.le_succ _)
    show t.due ≤ env.clock (b.reads + 1) + delay
    omega

omit hcalls hclock in
/-- A message that is not scheduled leaves the line. -/
theorem Orderly.drop {m : Message} (h : Orderly env cfg F G (m :: held) owed b) :
    Orderly env cfg F G held owed b :=
  { h with
    known := fun x hx => h.known x (hx.imp_left (List.mem_cons_of_mem _))
    inLine := by
      refine List.Sublist.trans ?_ h.inLine
      rw [Context.line, Context.line, List.map_cons]
      exact ((List.Sublist.refl _).append (List.sublist_cons_self _ _)).append (.refl _) }

/-- The state after a timer was created. -/
def Context.scheduled (b : Context) (env : Env) (delay : Nat) (m : Message) (ids : Ids) : Context :=
  { b with
    reads := b.reads + 1 + 1
    deliveryTimers := b.deliveryTimers ++
      [⟨env.clock b.reads + delay, m.msgId, m.payload, ids, numberOf b m.msgId⟩]
    deliveryTailAt := some (max (b.deliveryTailAt.getD 0) (env.clock (b.reads + 1) + delay)) }

omit hcalls in
/-- **A new timer is due after the others**, so its message keeps its place in the line. -/
theorem Orderly.scheduled {m : Message} {delay : Nat}
    (h : Orderly env cfg F G (m :: held) owed b) (hw : Within env delay b) (ids : Ids) :
    Orderly env cfg F G held owed (b.scheduled env delay m ids) ∧
      Within env delay (b.scheduled env delay m ids) := by
  have hmono : env.clock b.reads ≤ env.clock (b.reads + 1) := hclock (Nat.le_succ _)
  have hmono' : env.clock (b.reads + 1) ≤ env.clock (b.reads + 1 + 1) := hclock (Nat.le_succ _)
  have hmem : ∀ t ∈ (b.scheduled env delay m ids).deliveryTimers,
      t ∈ b.deliveryTimers ∨ t.due = env.clock b.reads + delay := by
    intro t ht
    rcases List.mem_append.mp ht with ht | ht
    · exact .inl ht
    · exact .inr (by rw [List.mem_singleton.mp ht])
  refine ⟨⟨h.sound, h.inbox, h.matched, h.ages, fun x hx => ?_, h.count, h.issued, fun x hx => ?_,
    ?_, fun t ht => ?_, h.frames, ?_⟩, fun t ht => ?_⟩
  · exact (h.due x hx).trans (secs_mono hclock (by show b.reads ≤ b.reads + 1 + 1; omega))
  · exact h.known x (hx.imp_left (List.mem_cons_of_mem _))
  · refine List.pairwise_append.mpr ⟨h.timers, List.pairwise_singleton _ _, fun t ht u hu => ?_⟩
    rw [List.mem_singleton.mp hu]
    exact hw t ht
  · show t.due ≤ max (b.deliveryTailAt.getD 0) (env.clock (b.reads + 1) + delay)
    rcases hmem t ht with ht | ht
    · have := h.tail t ht
      omega
    · omega
  · refine (congrArg (List.Sublist · _) ?_).mp h.inLine
    have hentry : (b.scheduled env delay m ids).entry = b.entry := rfl
    rw [Context.line, Context.line, hentry]
    show _ = _ ++ List.map Timer.entry (b.deliveryTimers ++ [_]) ++ _ ++ _
    rw [List.map_append, List.map_cons, ← List.append_assoc, List.append_assoc _ _ (held.map _)]
    rfl
  · show t.due ≤ env.clock (b.reads + 1 + 1) + delay
    rcases hmem t ht with ht | ht
    · have := hw t ht
      omega
    · omega

theorem Orderly.scheduleAll (droppedIds : List Text) (judged : List (Message × Option Drop))
    {previous : Option Message} {delay : Nat} {b : Context}
    (h : Orderly env cfg F G (judged.map Prod.fst) owed b) (hw : Within env delay b) :
    (scheduleAll env cfg droppedIds previous delay judged).Ends b
      (fun _ b' => Orderly env cfg F G [] owed b') Never := by
  induction judged generalizing previous delay b with
  | nil => exact h
  | cons e l ih =>
    obtain ⟨m, why⟩ := e
    have hdead : ∀ reason previous, Ends (Bridge.quarantine env cfg m.msgId reason .notWritten true
        false >>= fun _ => Bridge.scheduleAll env cfg droppedIds previous delay l) b
        (fun _ b' => Orderly env cfg F G [] owed b') Never := by
      intro reason previous
      refine (((Orderly.steady _ _ _ _ _ hcalls hclock).and (steady_within hclock delay)).quarantine
        _ _ _ _ _ ⟨h, hw⟩).bind fun _ b' h' => ?_
      exact ih h'.1.1.drop h'.1.2
    cases why with
    | some why => exact ih h.drop hw
    | none =>
      unfold Bridge.scheduleAll
      rw [ends_bind, ends_get]
      refine ends_ite (fun _ => hdead _ _) fun _ => ends_ite (fun _ => hdead _ _) fun _ => ?_
      obtain ⟨h', hw'⟩ := h.scheduled hclock hw (idsOf (b.bridgeRecords.get? m.msgId))
      exact ih h' (hw'.mono (by split <;> omega))

omit hcalls hclock in
theorem map_fst_filterFrom (ttlSecs nowSecs : Int) (last : Option Text) (batch : List Message) :
    (filterFrom ttlSecs nowSecs last batch).map Prod.fst = batch := by
  induction batch generalizing last with
  | nil => rfl
  | cons m l ih =>
    rw [filterFrom]
    split
    · rw [List.map_cons, ih]
    · split <;> rw [List.map_cons, ih]

omit hcalls hclock in
theorem map_fst_filterBridgeBatch (batch : List Message) (ttlSecs nowSecs : Int) :
    (filterBridgeBatch batch ttlSecs nowSecs).map Prod.fst = batch :=
  map_fst_filterFrom ttlSecs nowSecs none batch

omit hcalls in
theorem Orderly.firstDelay (h : Orderly env cfg F G held owed b) :
    (firstDelay env).Ends b
      (fun delay b' => Orderly env cfg F G held owed b' ∧ Within env delay b') Never := by
  unfold Bridge.firstDelay
  rw [ends_bind, ends_get]
  refine ends_ite (fun he => ⟨h, fun t ht => ?_⟩) fun _ => ?_
  · rw [List.isEmpty_iff.mp he] at ht
    cases ht
  · rw [ends_bind, ends_now, ends_bind, ends_get]
    refine ⟨h.aside hclock ((bystands_now : Bystands (now env)) b), fun t ht => ?_⟩
    have hdue := h.tail t ht
    have hmono : env.clock b.reads ≤ env.clock (b.reads + 1) := hclock (Nat.le_succ _)
    show t.due ≤ env.clock (b.reads + 1) + (b.deliveryTailAt.getD 0 - env.clock b.reads + 1)
    omega

theorem Orderly.flush (h : Orderly env cfg F G [] 0 b) :
    (flushBridgeMailbox env cfg).Ends b (fun _ => Orderly env cfg F G [] 0) Never := by
  unfold flushBridgeMailbox
  rw [ends_bind, ends_get]
  refine ends_ite (fun _ => h) fun _ => ?_
  refine Bystands.next (bystands_modify fun _ => ?_) fun _ b₁ hb₁ => ?_
  · exact ⟨rfl, rfl, rfl, rfl, rfl, rfl, rfl, rfl, le_rfl, rfl⟩
  rw [ends_bind, ends_get]
  have h₁ := h.aside hclock hb₁
  refine ends_ite (fun _ => h₁) fun _ => ?_
  refine (h₁.firstDelay hclock).bind fun delay b₂ h₂ => ?_
  rw [ends_bind, ends_get]
  refine (Orderly.dequeueAll hcalls hclock _ h₂.1).bind fun batch b₃ h₃ => ?_
  obtain ⟨ho, ht, hr, hn⟩ := h₃
  refine ends_ite (fun he => ?_) fun he => ?_
  · refine ⟨ho.sound, ho.inbox, ho.matched, ho.ages, ho.due, ?_, ho.issued, ?_, ho.timers, ho.tail,
      ho.frames, ?_⟩
    · rw [hn (Nat.succ_ne_zero _) (List.isEmpty_iff.mp he)]
      exact le_rfl
    · intro m hm
      exact ho.known m (hm.imp_left fun hm => by cases hm)
    · have := ho.inLine
      rw [List.isEmpty_iff.mp he, List.append_nil] at this
      exact this
  · have hw₃ : Within env delay b₃ := fun t h => by
      have := h₂.2 t (ht ▸ h)
      have := hclock hr
      omega
    have hs := (Orderly.steady cfg F G batch batch.length
      hcalls hclock).and (steady_within hclock delay)
    rw [List.nil_append, Int.zero_add] at ho
    refine (hs.bystands bystands_now b₃ ⟨ho, hw₃⟩).bind fun t b₄ h₄ => ?_
    refine (hs.dropAll _ b₄ h₄).bind fun _ b₅ h₅ => ?_
    have h₅' : Orderly env cfg F G ((filterBridgeBatch batch cfg.injectTtlSecs
        (t / 1000 : Nat)).map Prod.fst) batch.length b₅ := by
      rw [map_fst_filterBridgeBatch]
      exact h₅.1
    refine (Orderly.scheduleAll hcalls hclock _ _ h₅' h₅.2).bind fun _ b₆ h₆ => ?_
    refine { h₆ with count := ?_ }
    have := h₆.count
    show ((pendingMessages b₆.mailbox).length : Int) + 0
      ≤ ((b₆.bridgePendingCount - batch.length : Nat) : Int)
    omega


theorem keeps_flush :
    Keeps (Orderly env cfg F G [] 0) Never (flushBridgeMailbox env cfg) :=
  fun _ h => h.flush hcalls hclock

/-! ## Writes to the child -/

omit hcalls hclock in
/-- The first timer can leave the line, and its text can go to the end of what is written. -/
theorem Orderly.fire {t : Timer}
    (h : Orderly env cfg F G [] 0 { b with deliveryTimers := t :: b.deliveryTimers }) :
    Orderly env cfg F G [] 0 b ∧
      Orderly env cfg F G [] 0
        { b with
          writes := b.writes + 1
          written := b.written ++ [⟨some t.msgId, t.text, t.number⟩] } := by
  obtain ⟨sound, inbox, matched, ages, due, count, issued, known, timers, tail, frames, inLine⟩ := h
  have ht : b.deliveryTimers.Pairwise fun t u => t.due ≤ u.due := (List.pairwise_cons.mp timers).2
  have htail : ∀ u ∈ b.deliveryTimers, u.due ≤ b.deliveryTailAt.getD 0 := fun u hu =>
    tail u (List.mem_cons_of_mem _ hu)
  refine ⟨⟨sound, inbox, matched, ages, due, count, issued, known, ht, htail, frames, ?_⟩,
    ⟨sound, inbox, matched, ages, due, count, issued, known, ht, htail, frames, ?_⟩⟩
  · refine List.Sublist.trans ?_ inLine
    exact (((List.Sublist.refl _).append (List.sublist_cons_self _ _)).append (.refl _)).append
      (.refl _)
  · refine (congrArg (List.Sublist · _) ?_).mp inLine
    simp only [Context.line, List.map_append, List.map_cons, List.map_nil, List.append_assoc,
      List.cons_append, List.nil_append]
    rfl

theorem Orderly.deliver {t : Timer}
    (h : Orderly env cfg F G [] 0 { b with deliveryTimers := t :: b.deliveryTimers }) :
    (deliver env cfg t).Ends b (fun _ => Orderly env cfg F G [] 0)
      fun _ => Orderly env cfg F G [] 0 := by
  obtain ⟨hout, hwritten⟩ := h.fire
  exact (Orderly.steady cfg F G [] 0 hcalls hclock).ends_deliver hout hwritten

omit hcalls in
/-- **A direct write** goes to the end of the line where nothing else is in it. -/
theorem Orderly.writeDirect {text : Text} {ids : Ids} (h : Orderly env cfg F G [] 0 b)
    (ht : b.deliveryTimers = []) (hp : pendingMessages b.mailbox = []) :
    (writeDirectInject env text ids F.length).Ends b
      (fun _ => Orderly env cfg (F ++ [text]) G [] 0)
      fun _ => Orderly env cfg (F ++ [text]) G [] 0 := by
  refine ends_writeDirectInject (fun h ha => h.aside hclock ha) (h.settle text) ?_
  refine { h with inLine := ?_ }
  have hline := h.inLine
  rw [Context.line, ht, hp] at hline
  rw [Context.line, numbered_concat]
  show List.Sublist (List.map Written.entry (b.written ++ _) ++ List.map _ b.deliveryTimers ++ _ ++
    List.map _ (pendingMessages b.mailbox)) _
  rw [ht, hp, List.map_append]
  simp only [List.map_nil, List.append_nil] at hline ⊢
  exact hline.append (.refl _)

/-- **A frame that is queued** goes to the end of the line, or is refused. -/
theorem Orderly.enqueueMessage {text : Text} {ids : Ids} (h : Orderly env cfg F G [] 0 b) :
    (enqueueBridgeMessage env cfg text ids F.length).Ends b
      (fun _ => Orderly env cfg (F ++ [text]) G [] 0) Never := by
  have hs := Orderly.steady cfg (F ++ [text]) G [] 0 hcalls hclock
  unfold enqueueBridgeMessage
  rw [ends_bind, ends_get]
  refine ends_ite (fun _ => h.settle text) fun _ => ?_
  rw [ends_bind, ends_now, ends_bind, ends_modify, ends_bind, ends_get, ends_bind, ends_now, ends_bind,
    ends_attempt]
  have hb := h.aside hclock ((bystands_now : Bystands (now env)) b)
  have hn := hb.named (env.clock b.reads) F.length
  have hnumber := hb.issued.numberOf_named (env.clock b.reads) F.length
  have hmem : bridgeMsgId cfg.sessionId (env.clock b.reads) (b.bridgeMsgSeq + 1)
      ∈ (Context.named cfg (env.clock b.reads) F.length
        { b with reads := b.reads + 1 }).queuedAs.map Prod.fst := by
    show _ ∈ (b.queuedAs ++ [_]).map Prod.fst
    rw [List.map_append]
    exact List.mem_append_right _ List.mem_cons_self
  change Ends (mailboxCall env cfg (.enqueue ⟨bridgeMsgId cfg.sessionId (env.clock b.reads)
    (b.bridgeMsgSeq + 1), _, _, _, _, _, _⟩)) _ _ _
  generalize bridgeMsgId cfg.sessionId (env.clock b.reads) (b.bridgeMsgSeq + 1) = msgId at *
  generalize Context.named cfg (env.clock b.reads) F.length { b with reads := b.reads + 1 } = b₁ at *
  have h₂ := hn.aside hclock ((bystands_now : Bystands (now env)) b₁)
  obtain ⟨hqueued, hthrew⟩ := h₂.enqueued hclock (m := ⟨msgId, some "daemon", cfg.sessionId, text,
    (env.clock b₁.reads / 1000 : Nat), 0, none⟩) rfl
    (secs_mono hclock (Nat.le_succ _)) hn.due hnumber hmem
  refine ends_mailboxCall (fun _ => ?_) fun hf => ?_
  · refine (bystands_rememberRecord _ _ _).next fun _ b₃ h₃ => ?_
    rw [ends_bind, ends_modify]
    refine (bystands_sendReceipt _ _ _ _ _ _).mono (fun _ b₄ h₄ => ?_) fun _ _ h => h
    have h₃' := hqueued.aside hclock h₃
    refine Orderly.aside hclock ?_ h₄
    refine { h₃' with count := ?_ }
    have := h₃'.count
    show ((pendingMessages b₃.mailbox).length : Int) + 0 ≤ ((b₃.bridgePendingCount + 1 : Nat) : Int)
    omega
  · rw [hcalls]
    exact hs.noteRefused _ _ _ _ (hthrew (hf (hcalls _)))

/-! ## Turns -/

/-- **A frame** goes to the end of the line, or past it where nothing waits. -/
theorem Orderly.handleOwnerInject {f : Frame} (h : Orderly env cfg F F [] 0 b) (hne : f.data ≠ []) :
    (handleOwnerInject env cfg f).Ends b
      (fun _ => Orderly env cfg (F ++ [f.data]) (F ++ [f.data]) [] 0)
      fun _ => Orderly env cfg (F ++ [f.data]) (F ++ [f.data]) [] 0 := by
  have hs := Orderly.steady cfg (F ++ [f.data]) (F ++ [f.data]) [] 0 hcalls hclock
  unfold Bridge.handleOwnerInject
  rw [if_neg hne, ends_bind, ends_get, ends_bind, ends_modify, ends_bind, ends_get]
  have hlen : b.frames.length = F.length := by rw [h.frames]
  have h₁ : Orderly env cfg F (F ++ [f.data]) [] 0 { b with frames := b.frames ++ [f.data] } :=
    { h with frames := by rw [← h.frames] }
  dsimp only
  rw [hlen]
  have hempty : b.bridgePendingCount = 0 → pendingMessages b.mailbox = [] := by
    intro hz
    have := h.count
    exact List.eq_nil_of_length_eq_zero (by omega)
  have hflush : ∀ {α : Type} {x : Act α}, Keeps (Orderly env cfg (F ++ [f.data]) (F ++ [f.data]) [] 0)
      Never x → ∀ b', Orderly env cfg (F ++ [f.data]) (F ++ [f.data]) [] 0 b' →
      x.Ends b' (fun _ => Orderly env cfg (F ++ [f.data]) (F ++ [f.data]) [] 0)
        fun _ => Orderly env cfg (F ++ [f.data]) (F ++ [f.data]) [] 0 := fun hx b' hb =>
    (hx b' hb).weaken
  refine ends_ite (fun hcr => ends_ite (fun hq => ends_ite (fun _ => ?_) fun _ => ?_) fun hq => ?_)
    fun hcr => ?_
  · -- the submit of a refused body
    rw [ends_bind, ends_modify]
    refine hflush (hs.bystands (bystands_sendReceipt _ _ _ _ _)) _ ?_
    exact (h₁.settle f.data).aside hclock ⟨rfl, rfl, rfl, rfl, rfl, rfl, rfl, rfl, le_rfl, rfl⟩
  · -- a submit behind what waits
    refine ends_bind.mpr (((h₁.enqueueMessage hcalls hclock).weaken).mono (fun _ b' hb' => ?_)
      fun _ _ h => h)
    have hdrain : ∀ drains : Bool, Keeps (Orderly env cfg (F ++ [f.data]) (F ++ [f.data]) [] 0) Never
        (if drains then do
          modify fun b => { b with queueFlushTimer := false }
          flushBridgeMailbox env cfg
        else scheduleIdleFlush cfg : Act Unit) := fun drains => by
      refine .ite (fun _ => .bind (hs.bystands (bystands_modify fun _ => ?_)) fun _ =>
        keeps_flush hcalls hclock) fun _ => hs.bystands bystands_scheduleIdleFlush
      exact ⟨rfl, rfl, rfl, rfl, rfl, rfl, rfl, rfl, le_rfl, rfl⟩
    refine hflush (Keeps.ite (fun _ => ?_) fun _ => ?_) b' hb'
    · exact hdrain true
    · exact (hs.bystands bystands_isIdle).bind hdrain
  · -- a submit that nothing is ahead of
    have hz : b.bridgePendingCount = 0 := by
      by_contra hne
      exact hq (by simp [Nat.pos_of_ne_zero hne])
    have ht : b.deliveryTimers = [] := by
      by_contra hne
      exact hq (by simp [hz, hne])
    refine Ends.bind (h₁.writeDirect hclock ht (hempty hz)) fun _ _ hb' => hb'
  · -- a body
    refine bystands_isIdle.next fun idle b' hb' => ends_ite (fun hd => ?_) fun _ => ?_
    · simp only [Bool.and_eq_true, decide_eq_true_eq, List.isEmpty_iff] at hd
      obtain ⟨⟨-, hz⟩, ht⟩ := hd
      have hp : pendingMessages b'.mailbox = [] := by
        rw [hb'.mailbox]
        exact hempty hz
      refine ((h₁.aside hclock hb').writeDirect hclock (hb'.timers.trans ht) hp).bind
        fun wrote b₂ h₂ => ends_ite (fun _ => ?_) fun _ => h₂
      exact h₂.aside hclock ⟨rfl, rfl, rfl, rfl, rfl, rfl, rfl, rfl, le_rfl, rfl⟩
    · refine ((h₁.aside hclock hb').enqueueMessage hcalls hclock).weaken.bind fun _ b₂ h₂ => ?_
      exact hflush (hs.bystands bystands_scheduleIdleFlush) b₂ h₂

/-- **The line lasts.** -/
theorem Orderly.lasting : Lasting env cfg (Orderly env cfg F F [] 0) where
  toSteady := Orderly.steady _ _ _ _ _ hcalls hclock
  flush := (keeps_flush hcalls hclock).weaken
  deliver := fun {b t others} h ht => by
    cases htimers : b.deliveryTimers with
    | nil =>
      rw [htimers] at ht
      cases ht
    | cons u l =>
      rw [htimers, takeDue_of_sorted (htimers ▸ h.timers)] at ht
      cases ht
      refine Orderly.deliver hcalls hclock ?_
      show Orderly env cfg F F [] 0 { b with deliveryTimers := t :: others }
      rwa [← htimers]
  close := fun {b} h => by
    refine { h with timers := .nil, tail := fun t ht => absurd ht List.not_mem_nil, inLine := ?_ }
    refine List.Sublist.trans ?_ h.inLine
    exact (((List.Sublist.refl _).append (List.nil_sublist _)).append (.refl _)).append (.refl _)

end

end

/-! ## Runs -/

/-- The text of the frame that an event hands to the bridge. -/
def Event.arrival (b : Context) : Event → List Text
  | .inject f => if b.canWrite && f.data ≠ [] then [f.data] else []
  | _ => []

theorem Event.arrival_of_other {e : Event} (h : ∀ f, e ≠ .inject f) : e.arrival b = [] :=
  Event.arrival.eq_2 b e h

/-- The texts of the frames of a run, in the order in which they arrive. -/
def arrivals (env : Env) (cfg : Setup) : Context → List Event → List Text
  | _, [] => []
  | b, e :: events => e.arrival b ++ arrivals env cfg (step env cfg b e) events

variable {F : List Text}

/-- **One event** keeps the line. -/
theorem Orderly.step (hcalls : ∀ n, env.fate n = .performed) (hclock : Monotone env.clock)
    (h : Orderly env cfg F F [] 0 b) (e : Event) :
    Orderly env cfg (F ++ e.arrival b) (F ++ e.arrival b) [] 0 (step env cfg b e) := by
  by_cases he : ∀ f, e ≠ .inject f
  · rw [Event.arrival_of_other he, List.append_nil]
    exact (Orderly.lasting hcalls hclock).step h he
  · obtain ⟨f, rfl⟩ := not_forall_not.mp he
    rw [Event.arrival]
    refine Ends.after (x := Event.turn env cfg (.inject f)) (ends_bind.mpr (ends_get.mpr ?_))
    by_cases hw : b.canWrite = true
    · rw [if_pos hw]
      by_cases hne : f.data = []
      · rw [if_neg (by simp [hne]), List.append_nil]
        unfold Bridge.handleOwnerInject
        rw [if_pos hne]
        exact h
      · rw [if_pos (by simp [hw, hne])]
        exact h.handleOwnerInject hcalls hclock hne
    · rw [if_neg hw, if_neg (by simp [hw]), List.append_nil]
      exact h

theorem orderly_start (hcalls : ∀ n, env.fate n = .performed) (hclock : Monotone env.clock) :
    Orderly env cfg [] [] [] 0 (start env cfg .absent) := by
  have hfresh : Orderly env cfg [] [] [] 0 (.fresh .absent) :=
    ⟨Files.sound_absent, Files.inboxClean_absent, fun _ _ => rfl, .nil,
      fun _ hm => absurd hm List.not_mem_nil, le_rfl, fun _ he => absurd he List.not_mem_nil,
      fun _ hm => hm.elim (absurd · List.not_mem_nil) (absurd · List.not_mem_nil), .nil,
      fun _ ht => absurd ht List.not_mem_nil, rfl, List.Sublist.refl _⟩
  refine Ends.after (x := recoverBridgeMailbox env cfg) ?_
  unfold recoverBridgeMailbox
  rw [ends_bind, ends_get, if_neg (by simp [Context.fresh]), ends_bind, ends_attempt]
  have hpeek := hfresh.called hclock .peek
  refine ends_mailboxCall (fun _ => ?_) fun _ => ?_
  · have hcount := hpeek.count
    rw [show perform cfg.sessionId .default ((Context.fresh .absent).secs env)
      (Context.fresh .absent).mailbox .peek = (.messages [], []) from rfl]
    exact hpeek
  · rw [hcalls]
    exact hpeek

/-- The texts written so far, each with the number of its frame. -/
def Context.entries (b : Context) : List (Option Nat × Text) := b.written.map Written.entry

/-- **The texts are written in the order of the arrival of their frames**, each at most once. -/
theorem written_in_order (env : Env) (cfg : Setup) (hcalls : ∀ n, env.fate n = .performed)
    (hclock : Monotone env.clock) (events : List Event) :
    (run env cfg (start env cfg .absent) events).entries.Sublist
      (numbered (arrivals env cfg (start env cfg .absent) events)) := by
  have hrun : ∀ (events : List Event) (F : List Text) (b : Context), Orderly env cfg F F [] 0 b →
      Orderly env cfg (F ++ arrivals env cfg b events) (F ++ arrivals env cfg b events) [] 0
        (run env cfg b events) := by
    intro events
    induction events with
    | nil =>
      intro F b h
      rw [arrivals, List.append_nil]
      exact h
    | cons e events ih =>
      intro F b h
      have := ih _ _ (h.step hcalls hclock e)
      rwa [List.append_assoc] at this
  have h := hrun events [] _ (orderly_start hcalls hclock)
  rw [List.nil_append] at h
  refine List.Sublist.trans ?_ h.inLine
  rw [Context.line, List.append_assoc, List.append_assoc]
  exact List.sublist_append_left _ _

/-- A clock that goes on by 10 ms at each reading, and mailbox calls that do what they are told. -/
def tenthsEnv : Env := ⟨fun n => 100000 + 10 * n, fun _ => .performed, fun _ => false⟩

/-- A body and its submit wait for the prompt, a second body waits behind their timers. -/
def drainEvents : List Event :=
  [.inject ⟨['a'], .none⟩, .inject ⟨cr, .none⟩, .output true, .inject ⟨['b'], .none⟩, .deliver,
    .output true, .deliver, .deliver]

set_option maxRecDepth 100000 in
theorem written_in_order_drain :
    (run tenthsEnv (.default ['s'] true) (start tenthsEnv (.default ['s'] true) .absent)
      drainEvents).entries = [(some 0, ['a']), (some 1, cr), (some 2, ['b'])] ∧
    (run tenthsEnv (.default ['s'] true) (start tenthsEnv (.default ['s'] true) .absent)
      drainEvents).entries.Sublist
      (numbered (arrivals tenthsEnv (.default ['s'] true)
        (start tenthsEnv (.default ['s'] true) .absent) drainEvents)) :=
  ⟨by decide +kernel, written_in_order tenthsEnv (.default ['s'] true) (fun _ => rfl)
    (fun a b h => by show 100000 + 10 * a ≤ 100000 + 10 * b; omega) drainEvents⟩

end Telepty.Bridge
