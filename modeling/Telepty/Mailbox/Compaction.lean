import Telepty.Mailbox.Strict

/-!
# The compaction

After enough terminal messages an acknowledgement and the expiry rewrite the files without them. The
rest of the mailbox must not notice: the order of the dequeues, the peek, the attempts and states of
the messages without a result, the history of those with an unknown one (`Invisible`). A dequeue
reads nothing but the pending messages in the order of the inbox, and dropping the rows of other
messages leaves that list alone.

The compaction reads the files strictly, and where the strict reader refuses them the call that
compacts throws, now and at every later time.
-/

namespace Telepty.Mailbox

open Infra

variable {sid : Text} {cfg : Config} {f : Files} {id : Text} {m : Message}

/-! ## The queue -/

/-- Whether a message is pending. -/
def isPending (j : List StateRow) (id : Text) : Bool :=
  ((loadStates j).get? id).any fun r => r.state = .pending

/-- The pending messages, each with its latest row, in the order of the inbox. -/
def pendingMessages (f : Files) : List Message :=
  (latest f.messages).values.filter fun m => isPending f.journal m.msgId

/-- One message of the search among the pending ones. -/
def pickDue (now : Int) (next : Option Message) (m : Message) : Option Message :=
  if m.createdAt ≤ now then
    match next with
    | none => some m
    | some n => if m.createdAt < n.createdAt then some m else some n
  else next

/-- **A dequeue sees nothing but the pending messages.** -/
theorem nextMessage_eq (now : Int) (f : Files) :
    nextMessage now f = (pendingMessages f).foldl (pickDue now) none := by
  rw [nextMessage, pendingMessages]
  generalize (latest f.messages).values = l
  generalize (none : Option Message) = acc
  induction l generalizing acc with
  | nil => rfl
  | cons m l ih =>
    rw [List.foldl_cons, ih]
    by_cases h : isPending f.journal m.msgId = true
    · rw [List.filter_cons_of_pos (by simpa using h), List.foldl_cons]
      congr 1
      rw [isPending] at h
      cases acc <;> simp [pickNext, pickDue, h]
    · rw [List.filter_cons_of_neg (by simpa using h)]
      congr 1
      rw [isPending, Bool.not_eq_true] at h
      simp [pickNext, h]

/-- The answers of dequeues at the given times, one after the other. -/
def deliveries : List Int → Files → List (Option Message)
  | [], _ => []
  | now :: times, f =>
    nextMessage now f :: deliveries times (f.applyAll (dequeue now f).2)

theorem isPending_iff {f : Files} {id : Text} :
    isPending f.journal id = true ↔ Pending id f := by
  rw [isPending, Option.any_eq_true, ← standing_last]
  exact ⟨fun ⟨r, hr, hp⟩ => ⟨r, hr, of_decide_eq_true hp⟩,
    fun ⟨r, hr, hp⟩ => ⟨r, hr, decide_eq_true hp⟩⟩

/-- Files a dequeue cannot tell apart. -/
structure SameQueue (g h : Files) : Prop where
  left : g.Sound
  right : h.Sound
  leftInbox : g.InboxClean
  rightInbox : h.InboxClean
  queue : pendingMessages h = pendingMessages g

theorem pendingMessages_dequeue (hf : f.Sound) (hi : f.InboxClean) {now : Int}
    (hn : nextMessage now f = some m) :
    pendingMessages (f.applyAll (dequeue now f).2)
      = (pendingMessages f).filter fun x => x.msgId ≠ m.msgId := by
  rw [dequeue_of_next hf hn, pendingMessages, pendingMessages, List.filter_filter,
    (f.applyAll_inbox _ hi).1]
  refine List.filter_congr fun x _ => ?_
  rw [Bool.eq_iff_iff, Bool.and_eq_true, isPending_iff, isPending_iff, decide_eq_true_iff, Pending,
    standing_appendState hf]
  by_cases he : m.msgId = x.msgId
  · rw [if_pos (show (plainRow m.msgId .inFlight now).msgId = x.msgId from he)]
    refine ⟨fun ⟨r, hr, hst⟩ => ?_, fun h => absurd he.symm h.1⟩
    cases hr
    cases hst
  · rw [if_neg (show ¬ (plainRow m.msgId .inFlight now).msgId = x.msgId from he)]
    exact ⟨fun h => ⟨Ne.symm he, h⟩, fun h => h.2⟩

theorem dequeue_of_none {now : Int} (hn : nextMessage now f = none) : (dequeue now f).2 = [] := by
  rw [dequeue, hn]
  split <;> rfl

theorem SameQueue.dequeue {g h : Files} (hs : SameQueue g h) (now : Int) :
    nextMessage now h = nextMessage now g ∧
      SameQueue (g.applyAll (dequeue now g).2) (h.applyAll (dequeue now h).2) := by
  have hnext : nextMessage now h = nextMessage now g := by
    rw [nextMessage_eq, nextMessage_eq, hs.queue]
  refine ⟨hnext, ?_⟩
  cases hn : nextMessage now g with
  | none =>
    rw [dequeue_of_none hn, dequeue_of_none (hnext.trans hn)]
    exact hs
  | some m =>
    have hq : ∀ f : Files, f.Sound → f.InboxClean →
        (f.applyAll (Mailbox.dequeue now f).2).Sound ∧
          (f.applyAll (Mailbox.dequeue now f).2).InboxClean := fun f hf hi =>
      ⟨show ((Step.mk now .dequeue none).after "" .default f).Sound from
          Step.sound hf (Step.spareState_of_whole rfl),
        (f.applyAll_inbox _ hi).2⟩
    refine ⟨(hq g hs.left hs.leftInbox).1, (hq h hs.right hs.rightInbox).1,
      (hq g hs.left hs.leftInbox).2, (hq h hs.right hs.rightInbox).2, ?_⟩
    rw [pendingMessages_dequeue hs.left hs.leftInbox hn,
      pendingMessages_dequeue hs.right hs.rightInbox (hnext.trans hn), hs.queue]

/-- **Equal queues are dequeued alike**, at any times. -/
theorem SameQueue.deliveries {g h : Files} (hs : SameQueue g h) (times : List Int) :
    deliveries times h = deliveries times g := by
  induction times generalizing g h with
  | nil => rfl
  | cons now times ih =>
    obtain ⟨hn, hs'⟩ := hs.dequeue now
    rw [Mailbox.deliveries, Mailbox.deliveries, hn, ih hs']

/-! ## What the compaction keeps -/

/-- What the compaction must not change. -/
structure Invisible (g h : Files) : Prop where
  order : ∀ times, deliveries times h = deliveries times g
  peek : (peek h).filter (fun s => !s.state.terminal) = (peek g).filter fun s => !s.state.terminal
  state : ∀ id t, messageState id g = some t → t.terminal = false → messageState id h = some t
  attempts : ∀ id t, messageState id g = some t → t.terminal = false →
    latestOf id h.messages = latestOf id g.messages
  unknown : ∀ id ∈ unknownIds g.journal, history h.journal id = history g.journal id

/-- The files the compaction leaves. -/
structure Compacted (pristine : List Text) (g h : Files) : Prop where
  dir : h.dir = g.dir
  messages : h.messages = g.messages.filter fun m => kept g.journal m.msgId
  journal : h.journal = activeStates g.journal pristine

theorem compacted_applyAll {g : Files} (hs : g.StateClean) (hi : g.InboxClean)
    (pristine : List Text) :
    Compacted pristine g (g.applyAll [.writeInbox (g.messages.filter fun m => kept g.journal m.msgId),
      .writeState (activeStates g.journal pristine)]) :=
  ⟨rfl, (g.applyAll_inbox _ hi).1, (g.applyAll_state _ hs).1⟩

section

variable {pristine : List Text} {g h : Files}

/-- A message the compaction keeps has the state it had. -/
theorem Compacted.state_of_kept (hc : Compacted pristine g h) (hk : kept g.journal id = true) :
    ((standing id h.journal).last).map (·.state) = ((standing id g.journal).last).map (·.state) := by
  rw [hc.journal, standing_activeStates, Standing.compacted]
  rw [kept_eq] at hk
  split
  · rfl
  · next hu =>
    split
    · next hl => rw [hl]
    · next r hl =>
      split
      · next ht => simp [Standing.kept, hu, hl, ht] at hk
      · rw [hl, Option.map_some, Option.map_some, StateRow.safe_state]

/-- A message without a result is kept. -/
theorem kept_of_open {t : MsgState} (hl : ((standing id g.journal).last).map (·.state) = some t)
    (ht : t.terminal = false) : kept g.journal id = true := by
  obtain ⟨r, hr, rfl⟩ := Option.map_eq_some_iff.mp hl
  rw [kept_eq]
  exact Standing.kept_of_open hr ht

theorem Compacted.isPending (hc : Compacted pristine g h) (id : Text) :
    isPending h.journal id = (kept g.journal id && Mailbox.isPending g.journal id) := by
  have hmap : ∀ o : Option StateRow, (o.any fun r => r.state = .pending)
      = (o.map (·.state)).any fun t => t = .pending := fun o => by cases o <;> rfl
  rw [Mailbox.isPending, Mailbox.isPending, ← standing_last, ← standing_last, hmap, hmap]
  cases hk : kept g.journal id with
  | true => rw [hc.state_of_kept hk, Bool.true_and]
  | false =>
    rw [Bool.false_and, hc.journal, standing_activeStates, Standing.compacted]
    rw [kept_eq, Standing.kept, Bool.or_eq_false_iff, Bool.not_eq_false'] at hk
    obtain ⟨hu, ht⟩ := hk
    rw [if_neg (by simp [hu])]
    cases hl : (standing id g.journal).last with
    | none =>
      rw [hl] at ht
      cases ht
    | some r =>
      rw [hl, Option.any_some] at ht
      dsimp only
      rw [if_pos ht]
      rfl

theorem Compacted.sameQueue (hc : Compacted pristine g h) (hg : g.Sound) (hh : h.Sound)
    (hgi : g.InboxClean) (hhi : h.InboxClean) : SameQueue g h := by
  refine ⟨hg, hh, hgi, hhi, ?_⟩
  have hkeys : ∀ (ms : List Message) (q : Text → Bool),
      (latest ms).values.filter (fun m => q m.msgId)
        = ((latest ms).entries.filter fun e => q e.1).map Prod.snd := by
    intro ms q
    rw [OrdMap.values, List.filter_map]
    congr 1
    refine List.filter_congr fun e he => ?_
    have hl := ((latest ms).mem_entries_iff).mp he
    rw [latest_get?] at hl
    rw [Function.comp_apply, (mem_of_latestOf hl).2]
  have hentries : (latest h.messages).entries
      = (latest g.messages).entries.filter fun e => kept g.journal e.1 := by
    have hfilter : OrdMap.collect Message.msgId later
          (g.messages.filter fun m => kept g.journal m.msgId)
        = (OrdMap.collect Message.msgId later g.messages).filter fun e => kept g.journal e.1 :=
      OrdMap.collect_filter (kept g.journal) g.messages
    rw [hc.messages]
    exact congrArg OrdMap.entries hfilter
  rw [pendingMessages, pendingMessages, hkeys, hkeys, hentries, List.filter_filter]
  congr 1
  refine List.filter_congr fun e _ => ?_
  rw [hc.isPending]
  cases hp : Mailbox.isPending g.journal e.1 with
  | false => simp
  | true =>
    obtain ⟨r, hr, hst⟩ := isPending_iff.mp hp
    rw [kept_of_open (t := .pending) (by rw [hr, Option.map_some, hst]) rfl]
    rfl

/-! ## Peek -/

/-- What a peek lists of an inbox row. -/
def summaryOf (j : List StateRow) (m : Message) : Option Summary :=
  ((loadStates j).get? m.msgId).map fun r => ⟨m.msgId, m.sender, m.createdAt, m.attempt, r.state⟩

/-- The summary of the later attempt. -/
def newer (seen : Option Summary) (s : Summary) : Summary :=
  match seen with
  | none => s
  | some e => if e.attempt < s.attempt then s else e

theorem keepLatest_eq (seen : OrdMap Text Summary) (s : Summary) :
    keepLatest seen s = seen.set s.msgId (newer (seen.get? s.msgId) s) := by
  rw [keepLatest]
  cases he : seen.get? s.msgId with
  | none => rfl
  | some e =>
    dsimp only [newer]
    split
    · rfl
    · exact (OrdMap.set_of_get? he).symm

theorem peek_eq (f : Files) (hd : f.dir = true) :
    peek f = (OrdMap.collect Summary.msgId newer (f.messages.filterMap (summaryOf f.journal))).values := by
  rw [peek, if_neg (by simp [hd])]
  show (List.foldl keepLatest _ _).values = _
  rw [funext fun seen => funext (keepLatest_eq seen)]
  rfl

/-- Every entry of a peek is the summary of a row, under its message. -/
theorem collect_summaries {l : List Summary} {id : Text} {s : Summary}
    (h : (OrdMap.collect Summary.msgId newer l).get? id = some s) : s ∈ l ∧ s.msgId = id := by
  induction l using List.reverseRecOn generalizing s with
  | nil => cases h
  | append_singleton l x ih =>
    rw [OrdMap.collect_concat, OrdMap.get?_set] at h
    split at h
    · next hid =>
      subst hid
      rw [Option.some.injEq] at h
      cases hg : (OrdMap.collect Summary.msgId newer l).get? x.msgId with
      | none =>
        rw [hg] at h
        exact ⟨List.mem_append_right _ (List.mem_singleton.mpr h.symm), by rw [← h]; rfl⟩
      | some e =>
        rw [hg] at h
        dsimp only [newer] at h
        split at h
        · exact ⟨List.mem_append_right _ (List.mem_singleton.mpr h.symm), by rw [← h]⟩
        · obtain ⟨hm, he⟩ := ih (h ▸ hg)
          exact ⟨List.mem_append_left _ hm, he⟩
    · obtain ⟨hm, he⟩ := ih h
      exact ⟨List.mem_append_left _ hm, he⟩

/-- The rows a peek lists after the compaction. -/
theorem Compacted.summaries (hc : Compacted pristine g h) :
    h.messages.filterMap (summaryOf h.journal)
      = (g.messages.filterMap (summaryOf g.journal)).filter fun s => kept g.journal s.msgId := by
  have hone : ∀ m : Message, kept g.journal m.msgId = true →
      summaryOf h.journal m = summaryOf g.journal m := by
    intro m hk
    have hst := hc.state_of_kept hk
    rw [summaryOf, summaryOf, ← standing_last, ← standing_last]
    cases hl : (standing m.msgId h.journal).last with
    | none =>
      rw [hl, Option.map_none, eq_comm, Option.map_eq_none_iff] at hst
      rw [hst]
    | some r =>
      rw [hl, Option.map_some, eq_comm, Option.map_eq_some_iff] at hst
      obtain ⟨r', hr', he⟩ := hst
      rw [hr', Option.map_some, Option.map_some, he]
  rw [hc.messages]
  induction g.messages with
  | nil => rfl
  | cons m l ih =>
    by_cases hk : kept g.journal m.msgId = true
    · rw [List.filter_cons_of_pos (by simpa using hk), List.filterMap_cons, List.filterMap_cons,
        hone m hk, ih]
      cases hs : summaryOf g.journal m with
      | none => rfl
      | some s =>
        obtain ⟨r, -, rfl⟩ := Option.map_eq_some_iff.mp hs
        rw [List.filter_cons_of_pos (by simpa using hk)]
    · rw [List.filter_cons_of_neg (by simpa using hk), List.filterMap_cons, ih]
      cases hs : summaryOf g.journal m with
      | none => rfl
      | some s =>
        obtain ⟨r, -, rfl⟩ := Option.map_eq_some_iff.mp hs
        rw [List.filter_cons_of_neg (by simpa using hk)]

theorem Compacted.peek (hc : Compacted pristine g h) :
    (peek h).filter (fun s => !s.state.terminal)
      = (Mailbox.peek g).filter fun s => !s.state.terminal := by
  cases hd : g.dir with
  | false =>
    rw [Mailbox.peek, Mailbox.peek, hc.dir, hd]
    rfl
  | true =>
    rw [peek_eq g hd, peek_eq h (hc.dir.trans hd), hc.summaries,
      OrdMap.collect_filter (kept g.journal)]
    show (List.map Prod.snd (List.filter _ _)).filter _ = _
    rw [OrdMap.values, List.filter_map, List.filter_map, List.filter_filter]
    congr 1
    refine List.filter_congr fun e he => ?_
    cases ht : (!e.2.state.terminal) with
    | false => rw [Function.comp_apply, ht, Bool.false_and]
    | true =>
      -- an entry without a result is of a message the compaction keeps
      obtain ⟨hm, hid⟩ := collect_summaries ((OrdMap.mem_entries_iff _).mp he)
      obtain ⟨m, -, hs⟩ := List.mem_filterMap.mp hm
      obtain ⟨r, hr, hrs⟩ := Option.map_eq_some_iff.mp hs
      have hk : kept g.journal e.1 = true := by
        refine kept_of_open (t := e.2.state) ?_ (by simpa using ht)
        rw [← hid, ← hrs, standing_last, hr]
        rfl
      rw [Function.comp_apply, ht, hk]
      rfl

/-! ## Invisible -/

/-- **The compaction is invisible.** -/
theorem Compacted.invisible (hc : Compacted pristine g h) (hg : g.Sound) (hh : h.Sound)
    (hgi : g.InboxClean) (hhi : h.InboxClean) : Invisible g h := by
  have hstate : ∀ id t, messageState id g = some t →
      ((standing id g.journal).last).map (·.state) = some t := by
    intro id t ht
    rwa [messageState_eq hg.rooted] at ht
  refine ⟨(hc.sameQueue hg hh hgi hhi).deliveries, hc.peek, fun id t ht hopen => ?_,
    fun id t ht hopen => ?_, fun id hu => ?_⟩
  · rw [messageState_eq hh.rooted, hc.state_of_kept (kept_of_open (hstate id t ht) hopen)]
    exact hstate id t ht
  · rw [latestOf_eq_foldl, latestOf_eq_foldl, hc.messages, rowsOf_filter,
      if_pos (kept_of_open (hstate id t ht) hopen)]
  · rw [hc.journal, activeStates, history_append, history_unknownRows, history_activeRows,
      (standing_unknown id g.journal).mpr hu]
    simp

end

/-! ## Calls that compact -/

/-- The rows a call settles messages with leave the files regular. -/
theorem Files.Regular.settle {now : Int} {c : Call} {settled : List StateRow} (h : f.Regular sid)
    (hd : f.dir = true) (hs : c.settles cfg now f = some settled) :
    (f.applyAll (settled.map .appendState)).Regular sid := by
  have hplain : ∀ r ∈ settled, r.mark = .plain := by
    intro r hr
    cases c with
    | ack =>
      cases hs
      rw [List.mem_singleton.mp hr]
      rfl
    | expireStale =>
      cases hs
      obtain ⟨m, -, rfl⟩ := List.mem_map.mp hr
      rfl
    | compact =>
      cases hs
      cases hr
    | _ => cases hs
  have happ : ∀ w ∈ settled.map Write.appendState, w.appends := by
    intro w hw
    obtain ⟨r, -, rfl⟩ := List.mem_map.mp hw
    rfl
  have hj := f.applyAll_state (settled.map .appendState) h.sound.clean
  have hi := f.applyAll_inbox (settled.map .appendState) h.inbox
  have hmess : (f.applyAll (settled.map .appendState)).messages = f.messages := by
    rw [hi.1]
    clear hs hplain happ hj hi
    induction settled with
    | nil => rfl
    | cons r rs ih => exact ih
  refine ⟨⟨fun hn => ?_, hj.2⟩, hi.2, fun id hl => ?_, h.dead.applyAll _, fun id => ?_,
    fun r hr => ?_⟩
  · rw [f.applyAll_dir _ hd] at hn
    cases hn
  · rw [hj.1, standing_appends id _ happ] at hl
    rw [hmess]
    exact h.matched id (Standing.turn_last _ _ hl)
  · rw [hmess]
    exact h.lineage id
  · rw [hj.1, foldl_onState_settled] at hr
    rcases List.mem_append.mp hr with hr | hr
    · exact h.marks r hr
    · rw [hplain r hr]
      rfl

/-- **Within the limits the compaction does not throw, and nobody sees it.** -/
theorem Files.Regular.compact {g : Files} (h : g.Regular sid)
    (hf : cfg.compactionThreshold ≤ terminalCount g.journal → g.Fits) :
    ∃ ws, compact sid cfg g = some ws ∧ Invisible g (g.applyAll ws) := by
  rw [Mailbox.compact]
  split
  · exact ⟨[], rfl, fun _ => rfl, rfl, fun _ _ ht _ => ht, fun _ _ _ _ => rfl, fun _ _ => rfl⟩
  · next hge =>
    obtain ⟨c, hc⟩ := readCustody_of_fits h (hf (Nat.not_lt.mp hge))
    rw [pristinePendingIds, hc]
    refine ⟨_, rfl, (compacted_applyAll h.sound.clean h.inbox _).invisible h.sound ⟨fun hn => ?_,
      (g.applyAll_state _ h.sound.clean).2⟩ h.inbox (g.applyAll_inbox _ h.inbox).2⟩
    -- a mailbox without a directory has no files to read
    rw [h.sound.rooted hn] at hc
    cases hc


/-- What the compaction reads within its limits, exactly. -/
theorem Files.Regular.compact_isSome_iff {g : Files} (h : g.Regular sid) :
    (Mailbox.compact sid cfg g).isSome = true ↔
      (cfg.compactionThreshold ≤ terminalCount g.journal → g.Fits) := by
  constructor
  · intro hs hge
    rw [Mailbox.compact, if_neg (Nat.not_lt.mpr hge), pristinePendingIds] at hs
    cases hc : readCustody sid true g with
    | none =>
      rw [hc] at hs
      cases hs
    | some c => exact fits_of_readCustody h hc
  · intro hf
    obtain ⟨ws, hws, -⟩ := h.compact hf
    rw [hws]
    rfl

def Answer.throws : Answer → Bool
  | .threw => true
  | _ => false

/-- An acknowledgement without a proof throws only in its compaction. -/
theorem ack_throws {now : Int} {ws : List Write}
    (h : compact sid cfg (f.applyAll [.appendState (plainRow id .acked now)]) = some ws) :
    (ack sid cfg now id .none f).1.throws = false := by
  rw [ack]
  split
  · rfl
  · split
    · rfl
    · dsimp only
      rw [thenCompact, h]
      rfl

/-- **The compaction after a call is invisible and does not block, exactly if the files are within
the strict reader's limits.** The call comes after any run without a crash, on a mailbox that has a
directory; `settled` are the rows it appends before it compacts. -/
theorem compaction_invisible (sid : Text) (cfg : Config) (steps : List Step)
    (hc : ∀ s ∈ steps, s.crash = none) (now : Int) (c : Call) (settled : List StateRow)
    (hs : c.settles cfg now (run sid cfg .absent steps) = some settled)
    (hd : (run sid cfg .absent steps).dir = true) :
    let f := run sid cfg .absent steps
    let g := f.applyAll (settled.map .appendState)
    ((∃ ws, compact sid cfg g = some ws ∧ Invisible g (g.applyAll ws)) ∧
        ∀ id, c = .ack id .none → (perform sid cfg now f c).1.throws = false) ↔
      (cfg.compactionThreshold ≤ terminalCount g.journal → g.Fits) := by
  intro f g
  have hg : g.Regular sid := (regular_run hc).settle hd hs
  constructor
  · rintro ⟨⟨ws, hws, -⟩, -⟩
    exact hg.compact_isSome_iff.mp (by rw [hws]; rfl)
  · intro hf
    obtain ⟨ws, hws, hin⟩ := hg.compact hf
    refine ⟨⟨ws, hws, hin⟩, fun id hid => ?_⟩
    subst hid
    cases hs
    exact ack_throws hws

/-- Two messages, one of them in flight. -/
def inFlightSteps : List Step :=
  [.whole 5 (.enqueue ⟨"m", none, "s", "hi", 5, 0, none⟩),
    .whole 5 (.enqueue ⟨"b", none, "s", "hi", 5, 0, none⟩), .whole 5 .dequeue]

/-- The acknowledgement of an enqueued message compacts the mailbox. -/
theorem compaction_invisible_acked :
    let cfg : Config := ⟨3, 1, 86400, 30, 1⟩
    let g := (run "s" cfg .absent inFlightSteps).applyAll [.appendState (plainRow "m" .acked 6)]
    cfg.compactionThreshold ≤ terminalCount g.journal ∧
      ∃ ws, compact "s" cfg g = some ws ∧ Invisible g (g.applyAll ws) :=
  ⟨by decide +kernel, ((compaction_invisible "s" ⟨3, 1, 86400, 30, 1⟩ inFlightSteps
    (by simp [inFlightSteps, Step.whole]) 6 (.ack "m" .none) _ rfl (by decide +kernel)).mpr
      fun _ => by decide +kernel).1⟩

/-- **A second acknowledgement blocks the mailbox.** The first one drops the rows of the message, so
the second leaves a state without a message; it throws, and so does every later acknowledgement. -/
theorem compaction_blocks :
    let cfg : Config := ⟨3, 1, 86400, 30, 1⟩
    let acked := run "s" cfg .absent (inFlightSteps ++ [.whole 6 (.ack "m" .none)])
    let again := run "s" cfg acked [.whole 7 (.ack "m" .none), .whole 7 .dequeue]
    (perform "s" cfg 7 acked (.ack "m" .none)).1.throws = true ∧
      (perform "s" cfg 8 again (.ack "b" .none)).1.throws = true := by
  decide +kernel

end Telepty.Mailbox
