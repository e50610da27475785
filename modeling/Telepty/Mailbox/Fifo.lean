import Mathlib.Data.List.Pairwise
import Telepty.Mailbox.Intact
import Telepty.Mailbox.Terminal

/-!
# First deliveries in order

Messages leave the mailbox for the first time in the order in which they came in, as long as their
`created_at` never goes back. A `Queue` watches a run: it numbers the messages as they are enqueued
and notes the number of each one that is dequeued for the first time. A message that fails before it
was ever dequeued gets a `created_at` of its own and is not watched any more.

The rows of the watched messages are single, and in the inbox they stand in the order of the
numbers: a compaction drops rows, a retry appends them, but neither moves the row of a message that
waits.
-/

namespace Telepty.Mailbox

open Infra

/-! ## The watched queue -/

/-- A message that waits for its first delivery. -/
structure Arrival where
  number : Nat
  id : Text
  createdAt : Int

structure Queue where
  waiting : List Arrival
  /-- The `created_at` of every message enqueued so far. -/
  created : List Int
  /-- The numbers of the messages in the order of their first deliveries. -/
  firsts : List Nat

def Queue.empty : Queue := ⟨[], [], []⟩

/-- The messages that wait, apart from `id`. -/
def Queue.without (q : Queue) (id : Text) : List Arrival := q.waiting.filter fun a => a.id ≠ id

/-- What a call and its answer show of the queue. -/
def Queue.note (q : Queue) : Call → Answer → Queue
  | .enqueue m, .enqueued true _ =>
    { q with
      waiting := q.without m.msgId ++ [⟨q.created.length, m.msgId, m.createdAt⟩]
      created := q.created ++ [m.createdAt] }
  | .dequeue, .message (some m) =>
    { q with
      waiting := q.without m.msgId
      firsts := q.firsts ++ (q.waiting.filter fun a => a.id = m.msgId).map Arrival.number }
  | .nack id _, _ => { q with waiting := q.without id }
  | _, _ => q

/-- A call at time `now` on files that are watched. -/
def watchCall (sid : Text) (cfg : Config) (w : Files × Queue) (c : Int × Call) : Files × Queue :=
  ((Step.whole c.1 c.2).after sid cfg w.1, w.2.note c.2 (perform sid cfg c.1 w.1 c.2).1)

/-- A watched run of calls, each with its time, on a new mailbox. -/
def watch (sid : Text) (cfg : Config) (calls : List (Int × Call)) : Files × Queue :=
  calls.foldl (watchCall sid cfg) (.absent, .empty)

/-! ## The order of the inbox -/

/-- `a` came in before `b`. -/
def Arrival.Older (a b : Arrival) : Prop := a.number < b.number ∧ a.createdAt ≤ b.createdAt

/-- Of two waiting messages, `i` has the lower number. -/
def Queue.Before (q : Queue) (f : Files) (i j : Text) : Prop :=
  ∀ a ∈ q.waiting, ∀ b ∈ q.waiting, a.id = i → b.id = j → Pending a.id f → Pending b.id f →
    a.number < b.number

/-- The messages that wait stand in the files as they came in. -/
structure Ordered (q : Queue) (f : Files) : Prop where
  sound : f.Sound
  inbox : f.InboxClean
  matched : f.Matched
  ids : (q.waiting.map Arrival.id).Nodup
  ages : q.waiting.Pairwise Arrival.Older
  numbers : ∀ a ∈ q.waiting, a.number < q.created.length ∧ a.createdAt ∈ q.created
  untried : ∀ a ∈ q.waiting, ∀ r, (standing a.id f.journal).last = some r →
    r.state = .pending ∨ r.state.terminal = true
  row : ∀ a ∈ q.waiting, Pending a.id f →
    ∃ m, rowsOf a.id f.messages = [m] ∧ m.createdAt = a.createdAt
  order : (f.messages.map Message.msgId).Pairwise (q.Before f)
  firsts : q.firsts.Pairwise (· < ·)
  numbered : ∀ n ∈ q.firsts, n < q.created.length
  delivered : ∀ n ∈ q.firsts, ∀ a ∈ q.waiting, Pending a.id f → n < a.number

theorem ordered_empty : Ordered .empty .absent where
  sound := Files.sound_absent
  inbox := Files.inboxClean_absent
  matched := fun _ _ => rfl
  ids := List.nodup_nil
  ages := .nil
  numbers := fun _ ha => absurd ha List.not_mem_nil
  untried := fun _ ha => absurd ha List.not_mem_nil
  row := fun _ ha => absurd ha List.not_mem_nil
  order := .nil
  firsts := .nil
  numbered := fun _ hn => absurd hn List.not_mem_nil
  delivered := fun _ hn => absurd hn List.not_mem_nil

variable {sid : Text} {cfg : Config} {f f' : Files} {s : Step} {id : Text} {q q' : Queue}
  {a b : Arrival} {m : Message} {now : Int}

theorem Queue.mem_without : a ∈ q.without id ↔ a ∈ q.waiting ∧ a.id ≠ id := by
  simp [without]

theorem Queue.without_sublist : (q.without id).Sublist q.waiting := List.filter_sublist

/-- **Messages that stop waiting** leave the order of the others. -/
theorem Ordered.shrink (h : Ordered q f) (hs : f'.Sound) (hi : f'.InboxClean) (hm : f'.Matched)
    (hw : q'.waiting.Sublist q.waiting) (hc : q'.created = q.created)
    (huntried : ∀ a ∈ q'.waiting, ∀ r, (standing a.id f'.journal).last = some r →
      r.state = .pending ∨ r.state.terminal = true)
    (hback : ∀ a ∈ q'.waiting, Pending a.id f' → Pending a.id f)
    (hrows : ∀ a ∈ q'.waiting, Pending a.id f' →
      rowsOf a.id f'.messages = rowsOf a.id f.messages)
    (hnew : ∃ new, f'.messages.Sublist (f.messages ++ new) ∧
      ∀ m ∈ new, ∀ a ∈ q'.waiting, a.id ≠ m.msgId)
    (hfirsts : q'.firsts.Pairwise (· < ·)) (hnumbered : ∀ n ∈ q'.firsts, n < q'.created.length)
    (hdelivered : ∀ n ∈ q'.firsts, ∀ a ∈ q'.waiting, Pending a.id f' → n < a.number) :
    Ordered q' f' where
  sound := hs
  inbox := hi
  matched := hm
  ids := h.ids.sublist (hw.map _)
  ages := h.ages.sublist hw
  numbers := fun a ha => by
    rw [hc]
    exact h.numbers a (hw.subset ha)
  untried := huntried
  row := fun a ha hp => by
    rw [hrows a ha hp]
    exact h.row a (hw.subset ha) (hback a ha hp)
  order := by
    obtain ⟨new, hsub, hne⟩ := hnew
    refine List.Pairwise.sublist (hsub.map _) ?_
    rw [List.map_append, List.pairwise_append]
    have hnever : ∀ i, ∀ m ∈ new, q'.Before f' i m.msgId := by
      intro i m hm a ha b hb _ hid
      exact absurd hid (hne m hm b hb)
    refine ⟨h.order.imp fun hij a ha b hb hai hbj hpa hpb => ?_, ?_, fun i _ j hj => ?_⟩
    · exact hij a (hw.subset ha) b (hw.subset hb) hai hbj (hback a ha hpa) (hback b hb hpb)
    · rw [List.pairwise_map]
      exact List.Pairwise.imp_of_mem (fun _ hy _ => hnever _ _ hy)
        (List.pairwise_of_forall (R := fun _ _ => True) fun _ _ => trivial)
    · obtain ⟨m, hm, rfl⟩ := List.mem_map.mp hj
      exact hnever i m hm
  firsts := hfirsts
  numbered := hnumbered
  delivered := hdelivered

/-! ## Calls that deliver nothing -/

theorem Standing.turn_replicate (st : Standing) (r : StateRow) (n : Nat) :
    (st.turn (List.replicate (n + 1) (.appendState r))).last = some r := by
  induction n generalizing st with
  | zero => rfl
  | succ n ih =>
    rw [List.replicate_succ, Standing.turn_cons]
    exact ih _

/-- What a call does to a message that was never tried: nothing, or it ends it. -/
theorem Turn.untried {c : Call} {st : Standing} {L : Message → Prop} {ws : List Write}
    (h : Turn sid cfg now id st L c ws) (he : ∀ m, c ≠ .enqueue m) (hd : c ≠ .dequeue)
    (hn : ∀ reason, c ≠ .nack id reason)
    (hst : ∀ r, st.last = some r → r.state = .pending ∨ r.state.terminal = true) :
    inboxRows ws = [] ∧
      (ws = [] ∨ ∃ r, (st.turn ws).last = some r ∧ r.state.terminal = true) := by
  have hflight : ∀ r, st.last = some r → r.state ≠ .inFlight := by
    intro r hr hf
    rcases hst r hr with hst | hst <;> rw [hf] at hst <;> cases hst
  have hfailed : ¬ Failed cfg now id st c := by
    rintro (⟨reason, rfl, -⟩ | ⟨-, r, hr, hf, -⟩)
    · exact hn reason rfl
    · exact hflight r hr hf
  cases h with
  | quiet => exact ⟨rfl, .inl rfl⟩
  | enqueued => exact absurd rfl (he _)
  | dequeued => exact absurd rfl hd
  | acked hs hl =>
    rcases hl with rfl | ⟨t, rfl⟩
    · exact ⟨rfl, .inr ⟨_, rfl, rfl⟩⟩
    · exact ⟨rfl, .inr ⟨_, rfl, rfl⟩⟩
  | retried hc => exact absurd hc hfailed
  | gaveUp hc => exact absurd hc hfailed
  | fenced hs hr => exact absurd hr (hflight _ hs)
  | withdrawn hs hr =>
    refine ⟨rfl, .inr ⟨_, rfl, ?_⟩⟩
    split <;> rfl
  | expired n hs hr =>
    refine ⟨?_, .inr ⟨_, Standing.turn_replicate _ _ n, rfl⟩⟩
    simp [inboxRows]
  | lost hs hr => exact absurd hr (hflight _ hs)

variable (sid cfg) in
/-- **A call leaves a message that was never tried as it stands, or ends it.** -/
theorem Step.untried (hf : f.Sound) (hi : f.InboxClean) (hc : s.crash = none)
    (he : ∀ m, s.call ≠ .enqueue m) (hd : s.call ≠ .dequeue)
    (hn : ∀ reason, s.call ≠ .nack id reason)
    (hst : ∀ r, (standing id f.journal).last = some r →
      r.state = .pending ∨ r.state.terminal = true) :
    (∀ r, (standing id (s.after sid cfg f).journal).last = some r →
        r.state = .pending ∨ r.state.terminal = true) ∧
      (Pending id (s.after sid cfg f) → Pending id f ∧
        rowsOf id (s.after sid cfg f).messages = rowsOf id f.messages) := by
  obtain ⟨st, l, hmv, hafter, hrows⟩ := s.moves sid cfg hf.rooted hf.clean
    (spareState_of_whole hc) id
  have hrows := hrows hi (spareInbox_of_whole hc)
  -- the rows of the turn, where the message is pending after it
  have hturn : ∀ {ws}, Turn sid cfg s.now id (standing id f.journal) (IsLatest f id) s.call ws →
      (∀ r, ((standing id f.journal).turn ws).last = some r →
        r.state = .pending ∨ r.state.terminal = true) ∧
      ((∃ r, ((standing id f.journal).turn ws).last = some r ∧ r.state = .pending) →
        Pending id f ∧ inboxRows ws = []) := by
    intro ws ht
    obtain ⟨hin, rfl | ⟨r, hr, hter⟩⟩ := ht.untried he hd hn hst
    · exact ⟨hst, fun hp => ⟨hp, rfl⟩⟩
    · rw [hr]
      refine ⟨fun r' hr' => .inr (Option.some.inj hr' ▸ hter), ?_⟩
      rintro ⟨r', hr', hp⟩
      rw [← Option.some.inj hr'] at hp
      rw [hp] at hter
      cases hter
  rw [Pending, hafter, hrows]
  cases hmv with
  | part ht hp hwhole =>
    rw [hwhole hc]
    obtain ⟨h1, h2⟩ := hturn ht
    refine ⟨h1, fun hp => ?_⟩
    rw [(h2 hp).2, List.append_nil]
    exact ⟨(h2 hp).1, rfl⟩
  | compacted pristine ht hcomp =>
    obtain ⟨h1, h2⟩ := hturn ht
    constructor
    · intro r hr
      obtain ⟨r', hr', hs'⟩ := Standing.last_of_compacted hr
      rw [← hs']
      exact h1 r' hr'
    · rintro ⟨r, hr, hp⟩
      obtain ⟨r', hr', hs'⟩ := Standing.last_of_compacted hr
      rw [hp] at hs'
      obtain ⟨hpend, hnil⟩ := h2 ⟨r', hr', hs'⟩
      refine ⟨hpend, ?_⟩
      rw [if_pos (Standing.kept_of_open hr' (by rw [hs']; rfl)), hnil, List.append_nil]
  | interrupted ht hcomp hcr => exact absurd hc hcr
  | purged =>
    constructor
    · intro r hr
      cases hr
    · rintro ⟨r, hr, -⟩
      cases hr
  | halfPurged hcall hcr => exact absurd hc hcr

theorem foldl_onInbox_appends (ws : List Write) (h : ∀ w ∈ ws, w.appends) (ms : List Message) :
    ws.foldl Write.onInbox ms = ms ++ inboxRows ws := by
  induction ws generalizing ms with
  | nil => exact (List.append_nil ms).symm
  | cons w ws ih =>
    rw [List.foldl_cons, ih fun x hx => h x (List.mem_cons_of_mem _ hx)]
    cases w with
    | appendInbox m =>
      rw [Write.onInbox, List.append_assoc]
      rfl
    | writeInbox ms => exact absurd (h _ List.mem_cons_self) (by simp [Write.appends])
    | writeState rs => exact absurd (h _ List.mem_cons_self) (by simp [Write.appends])
    | _ => rfl

/-- A call drops rows of the inbox and appends rows of the messages it treats. -/
theorem Step.messages_sublist (hf : f.Sound) (hi : f.InboxClean) (hc : s.crash = none) :
    ∃ new, (s.after sid cfg f).messages.Sublist (f.messages ++ new) ∧
      ∀ m ∈ new, ∃ ws, Turn sid cfg s.now m.msgId (standing m.msgId f.journal)
        (IsLatest f m.msgId) s.call ws ∧ inboxRows ws ≠ [] := by
  obtain ⟨rows, tail, hsp⟩ := perform_splits sid cfg s.now hf.rooted s.call
  have hafter : (s.after sid cfg f).messages = (rows ++ tail).foldl Write.onInbox f.messages := by
    rw [← hsp.eq, after, hc]
    exact (f.applyAll_inbox _ hi).1
  rw [List.foldl_append, foldl_onInbox_appends rows hsp.appends] at hafter
  refine ⟨inboxRows rows, ?_, fun m hm => ⟨_, hsp.turn m.msgId, ?_⟩⟩
  · rw [hafter]
    rcases hsp.tail with rfl | ⟨ms, rs, rfl, hrew⟩
    · exact .refl _
    · show ms.Sublist _
      generalize s.call = c at hrew
      cases hrew with
      | compacted =>
        rw [(f.applyAll_inbox rows hi).1, foldl_onInbox_appends rows hsp.appends]
        exact List.filter_sublist
      | purged => exact List.nil_sublist _
      | created => exact List.nil_sublist _
  · obtain ⟨w, hw, hwm⟩ := List.mem_filterMap.mp hm
    refine List.ne_nil_of_mem (List.mem_filterMap.mpr ⟨w, List.mem_filter.mpr ⟨hw, ?_⟩, hwm⟩)
    cases w with
    | appendInbox m' =>
      cases hwm
      simp [Write.about]
    | _ => cases hwm

variable (sid cfg) in
/-- What every call without a crash keeps of the files. -/
theorem Ordered.kept_files (h : Ordered q f) (hc : s.crash = none) :
    (s.after sid cfg f).Sound ∧ (s.after sid cfg f).InboxClean ∧ (s.after sid cfg f).Matched :=
  ⟨s.sound h.sound (Step.spareState_of_whole hc),
    s.inboxClean h.sound (Step.spareState_of_whole hc) h.inbox (Step.spareInbox_of_whole hc),
    s.matched h.sound h.inbox h.matched hc⟩

/-- **Every call but an enqueue and a dequeue leaves the order.** -/
theorem Ordered.call (h : Ordered q f) (hc : s.crash = none) (he : ∀ m, s.call ≠ .enqueue m)
    (hd : s.call ≠ .dequeue) (hw : q'.waiting.Sublist q.waiting) (hcr : q'.created = q.created)
    (hfi : q'.firsts = q.firsts)
    (hn : ∀ a ∈ q'.waiting, ∀ reason, s.call ≠ .nack a.id reason) :
    Ordered q' (s.after sid cfg f) := by
  have hone := fun a ha => Step.untried sid cfg h.sound h.inbox hc he hd (hn a ha)
    (h.untried a (hw.subset ha))
  obtain ⟨hs, hi, hm⟩ := h.kept_files sid cfg hc
  refine h.shrink hs hi hm hw hcr (fun a ha => (hone a ha).1)
    (fun a ha hp => ((hone a ha).2 hp).1) (fun a ha hp => ((hone a ha).2 hp).2) ?_ ?_ ?_ ?_
  · obtain ⟨new, hsub, hturn⟩ := Step.messages_sublist h.sound h.inbox hc
    refine ⟨new, hsub, fun m hm a ha hid => ?_⟩
    obtain ⟨ws, ht, hne⟩ := hturn m hm
    rw [← hid] at ht
    exact hne (ht.untried he hd (hn a ha) (h.untried a (hw.subset ha))).1
  · rw [hfi]
    exact h.firsts
  · rw [hfi, hcr]
    exact h.numbered
  · intro n hnf a ha hp
    rw [hfi] at hnf
    exact h.delivered n hnf a (hw.subset ha) ((hone a ha).2 hp).1

/-! ## The dequeue -/

/-- The keys of the latest rows stand in the order of the inbox. -/
theorem keys_latest_sublist (ms : List Message) :
    (latest ms).keys.Sublist (ms.map Message.msgId) := by
  induction ms using List.reverseRecOn with
  | nil => exact .refl _
  | append_singleton ms m ih =>
    rw [latest_concat, List.map_append]
    show ((assocSet _ _ _).map Prod.fst).Sublist _
    rw [keys_assocSet]
    split
    · exact ih.trans (List.sublist_append_left _ _)
    · exact ih.append (.refl _)

theorem latest_values_msgId (ms : List Message) :
    (latest ms).values.map Message.msgId = (latest ms).keys := by
  rw [OrdMap.values, OrdMap.keys, List.map_map]
  refine List.map_congr_left fun e he => ?_
  have hl := ((latest ms).mem_entries_iff).mp he
  rw [latest_get?] at hl
  exact (mem_of_latestOf hl).2

/-- The single row of a waiting message is its latest one. -/
theorem Ordered.latest (h : Ordered q f) (ha : a ∈ q.waiting) (hp : Pending a.id f) :
    ∃ m, latestOf a.id f.messages = some m ∧ m.msgId = a.id ∧ m.createdAt = a.createdAt := by
  obtain ⟨m, hr, hc⟩ := h.row a ha hp
  have hl : latestOf a.id f.messages = some m := by
    rw [latestOf_eq_foldl, hr]
    rfl
  exact ⟨m, hl, (mem_of_latestOf hl).2, hc⟩

theorem Ordered.eq_of_id (h : Ordered q f) (ha : a ∈ q.waiting) (hb : b ∈ q.waiting)
    (he : a.id = b.id) : a = b := List.inj_on_of_nodup_map h.ids ha hb he

theorem Ordered.older (h : Ordered q f) (ha : a ∈ q.waiting) (hb : b ∈ q.waiting) (hne : a ≠ b) :
    a.Older b ∨ b.Older a := by
  have hsymm : Std.Symm fun a b : Arrival => a.Older b ∨ b.Older a := ⟨fun _ _ hab => hab.symm⟩
  have hall : q.waiting.Pairwise fun a b => a.Older b ∨ b.Older a := h.ages.imp fun hab => .inl hab
  exact hall.forall ha hb hne

/-- **A dequeue takes the waiting message with the lowest number.** -/
theorem Ordered.first (h : Ordered q f) (hm : nextMessage now f = some m) (ha : a ∈ q.waiting)
    (hid : a.id = m.msgId) (hb : b ∈ q.waiting) (hp : Pending b.id f) (hne : b ≠ a) :
    a.number < b.number := by
  obtain ⟨hlat, r, hr, hst, hdue⟩ := nextMessage_eq_some hm
  have hpa : Pending a.id f := ⟨r, by rw [hid]; exact hr, hst⟩
  by_contra hlt
  -- the message `b` came before `a`, so it is due as well
  have hold : b.Older a := (h.older ha hb hne.symm).resolve_left fun hab => hlt hab.1
  obtain ⟨m', hm', -, hc'⟩ := h.latest ha hpa
  obtain ⟨x, hx, hxid, hxc⟩ := h.latest hb hp
  rw [hid, hlat] at hm'
  cases hm'
  have hxmem : x ∈ (Mailbox.latest f.messages).values :=
    mem_latest_values.mpr (by rw [hxid]; exact hx)
  have hxdue : due (loadStates f.journal) now x = true := by
    obtain ⟨rb, hrb, hsb⟩ := hp
    rw [due, ← standing_last, hxid, hrb, Option.any_some, hsb, Bool.and_eq_true]
    refine ⟨rfl, decide_eq_true ?_⟩
    rw [hxc]
    exact Int.le_trans (hc' ▸ hold.2) hdue
  have hspec := foldl_pickNext (loadStates f.journal) now (Mailbox.latest f.messages).values
  rw [show (Mailbox.latest f.messages).values.foldl _ none = some m from hm] at hspec
  obtain ⟨l, l', hl, -, hbefore, -⟩ := hspec
  have hord : ((Mailbox.latest f.messages).values.map Message.msgId).Pairwise (q.Before f) := by
    rw [latest_values_msgId]
    exact h.order.sublist (keys_latest_sublist _)
  rw [hl, List.map_append, List.map_cons, List.pairwise_append, List.pairwise_cons] at hord
  rw [hl] at hxmem
  rcases List.mem_append.mp hxmem with hin | hin
  · have := hbefore x hin hxdue
    rw [hxc, hc'] at this
    exact absurd hold.2 (Int.not_le.mpr this)
  · rcases List.mem_cons.mp hin with rfl | hin
    · exact hne (h.eq_of_id hb ha (hxid.symm.trans hid.symm))
    · exact hlt (hord.2.1.1 x.msgId (List.mem_map_of_mem hin) a ha b hb hid hxid.symm hpa hp)

/-- **A dequeue delivers in order.** -/
theorem Ordered.dequeue (h : Ordered q f) :
    Ordered (q.note .dequeue (Mailbox.dequeue now f).1)
      ((Step.whole now .dequeue).after sid cfg f) := by
  obtain ⟨hs, hi, hm⟩ := h.kept_files sid cfg (s := .whole now .dequeue) rfl
  have hafter : (Step.whole now .dequeue).after sid cfg f
      = f.applyAll (Mailbox.dequeue now f).2 := rfl
  rw [hafter] at hs hi hm ⊢
  cases hn : nextMessage now f with
  | none =>
    have he : Mailbox.dequeue now f = (.message none, []) := by
      rw [Mailbox.dequeue, hn]
      split <;> rfl
    rw [he]
    exact h
  | some m =>
    rw [dequeue_of_next h.sound hn] at hs hi hm ⊢
    dsimp only at hs hi hm ⊢
    obtain ⟨-, r, hr, hst, -⟩ := nextMessage_eq_some hn
    have hstand : ∀ a ∈ q.without m.msgId,
        standing a.id (f.applyAll [.appendState (plainRow m.msgId .inFlight now)]).journal
          = standing a.id f.journal := by
      intro a ha
      rw [standing_appendState h.sound]
      exact if_neg (Queue.mem_without.mp ha).2.symm
    have hback : ∀ a ∈ q.without m.msgId,
        Pending a.id (f.applyAll [.appendState (plainRow m.msgId .inFlight now)]) →
          Pending a.id f := by
      intro a ha hp
      rw [Pending, hstand a ha] at hp
      exact hp
    have hmess : (f.applyAll [.appendState (plainRow m.msgId .inFlight now)]).messages
        = f.messages := (f.applyAll_inbox _ h.inbox).1
    have hnum : ∀ n ∈ (q.waiting.filter fun a => a.id = m.msgId).map Arrival.number,
        ∃ a ∈ q.waiting, a.id = m.msgId ∧ a.number = n := by
      intro n hn
      obtain ⟨a, ha, rfl⟩ := List.mem_map.mp hn
      obtain ⟨ha, hid⟩ := List.mem_filter.mp ha
      exact ⟨a, ha, of_decide_eq_true hid, rfl⟩
    refine h.shrink hs hi hm Queue.without_sublist rfl (fun a ha => ?_) hback
      (fun a ha _ => by rw [hmess]) ⟨[], by rw [hmess, List.append_nil], fun m hm => by cases hm⟩
      ?_ ?_ ?_
    · rw [hstand a ha]
      exact h.untried a (Queue.mem_without.mp ha).1
    · refine List.pairwise_append.mpr ⟨h.firsts, ?_, fun n hn k hk => ?_⟩
      · rw [List.pairwise_map]
        exact (h.ages.sublist List.filter_sublist).imp fun hab => hab.1
      · obtain ⟨a, ha, hid, rfl⟩ := hnum k hk
        exact h.delivered n hn a ha ⟨r, by rw [hid]; exact hr, hst⟩
    · intro n hn
      rcases List.mem_append.mp hn with hn | hn
      · exact h.numbered n hn
      · obtain ⟨a, ha, -, rfl⟩ := hnum n hn
        exact (h.numbers a ha).1
    · intro n hnf b hb hp
      obtain ⟨hbw, hbid⟩ := Queue.mem_without.mp hb
      rcases List.mem_append.mp hnf with hnf | hnf
      · exact h.delivered n hnf b hbw (hback b hb hp)
      · obtain ⟨a, ha, hid, rfl⟩ := hnum n hnf
        refine h.first hn ha hid hbw (hback b hb hp) ?_
        rintro rfl
        exact hbid hid

/-! ## The enqueue -/

theorem Ordered.congr (h : Ordered q f) (hs : f'.Sound) (hi : f'.InboxClean) (hm : f'.Matched)
    (hj : f'.journal = f.journal) (hmess : f'.messages = f.messages) : Ordered q f' := by
  have hp : ∀ id, Pending id f' → Pending id f := fun id hp => by rwa [Pending, hj] at hp
  refine h.shrink hs hi hm (.refl _) rfl (fun a ha => ?_) (fun a _ => hp a.id)
    (fun a _ _ => by rw [hmess]) ⟨[], by rw [hmess, List.append_nil], fun m hm => by cases hm⟩
    h.firsts h.numbered fun n hn a ha hpa => h.delivered n hn a ha (hp a.id hpa)
  rw [hj]
  exact h.untried a ha

/-- **A new message goes to the end of the order.** -/
theorem Ordered.arrive (h : Ordered q f) (hs : f'.Sound) (hi : f'.InboxClean) (hm : f'.Matched)
    (hfree : (standing m.msgId f.journal).last = none) {m' : Message} (hid : m'.msgId = m.msgId)
    (hca : m'.createdAt = m.createdAt)
    (hj : f'.journal = f.journal ++ [m'.firstRow now]) (hmess : f'.messages = f.messages ++ [m'])
    (hc : (q.created ++ [m.createdAt]).Pairwise (· ≤ ·)) (n : Nat) :
    Ordered (q.note (.enqueue m) (.enqueued true n)) f' := by
  have hother : ∀ i, i ≠ m.msgId → standing i f'.journal = standing i f.journal := by
    intro i hne
    rw [hj, standing_concat, if_neg]
    rw [show (m'.firstRow now).msgId = m'.msgId from rfl, hid]
    exact hne.symm
  have hself : (standing m.msgId f'.journal).last = some (m'.firstRow now) := by
    rw [hj, standing_concat, if_pos (show (m'.firstRow now).msgId = m.msgId from hid)]
    rfl
  have hnorow : rowsOf m.msgId f.messages = [] := h.matched _ hfree
  have hold : ∀ a ∈ q.without m.msgId, Pending a.id f' → Pending a.id f := by
    intro a ha hp
    rwa [Pending, hother _ (Queue.mem_without.mp ha).2] at hp
  have hrow : ∀ i, rowsOf i f'.messages
      = if i = m.msgId then [m'] else rowsOf i f.messages := by
    intro i
    rw [hmess, rowsOf, List.filter_append]
    split
    · next he =>
      rw [he]
      show rowsOf m.msgId f.messages ++ _ = _
      rw [hnorow, List.filter_cons_of_pos (by simpa using hid)]
      rfl
    · next he =>
      rw [List.filter_cons_of_neg (by rw [hid]; simpa using Ne.symm he)]
      exact List.append_nil _
  -- the new message is the one with the highest number
  have hcases : ∀ a ∈ (q.note (.enqueue m) (.enqueued true n)).waiting,
      a ∈ q.without m.msgId ∨ a = ⟨q.created.length, m.msgId, m.createdAt⟩ := by
    intro a ha
    rcases List.mem_append.mp ha with ha | ha
    · exact .inl ha
    · exact .inr (List.mem_singleton.mp ha)
  have hlen : (q.note (.enqueue m) (.enqueued true n)).created.length = q.created.length + 1 :=
    List.length_append
  refine ⟨hs, hi, hm, ?_, ?_, fun a ha => ?_, fun a ha r hr => ?_, fun a ha hp => ?_, ?_,
    h.firsts, fun k hk => ?_, fun k hk a ha hp => ?_⟩
  · show ((q.without m.msgId ++ [_]).map Arrival.id).Nodup
    rw [List.map_append, List.nodup_append]
    refine ⟨h.ids.sublist (Queue.without_sublist.map _), List.nodup_singleton _, ?_⟩
    intro i hin j hjn he
    obtain ⟨a, ha, rfl⟩ := List.mem_map.mp hin
    rw [List.map_singleton, List.mem_singleton] at hjn
    exact (Queue.mem_without.mp ha).2 (he.trans hjn)
  · show (q.without m.msgId ++ [_]).Pairwise _
    refine List.pairwise_append.mpr ⟨h.ages.sublist Queue.without_sublist,
      List.pairwise_singleton _ _, fun a ha b hb => ?_⟩
    rw [List.mem_singleton.mp hb]
    obtain ⟨hnum, hmem⟩ := h.numbers a (Queue.mem_without.mp ha).1
    exact ⟨hnum, (List.pairwise_append.mp hc).2.2 _ hmem _ List.mem_cons_self⟩
  · rw [hlen]
    rcases hcases a ha with ha | rfl
    · obtain ⟨hnum, hmem⟩ := h.numbers a (Queue.mem_without.mp ha).1
      exact ⟨Nat.lt_succ_of_lt hnum, List.mem_append_left _ hmem⟩
    · exact ⟨Nat.lt_succ_self _, List.mem_append_right _ List.mem_cons_self⟩
  · rcases hcases a ha with ha | rfl
    · obtain ⟨ha, hne⟩ := Queue.mem_without.mp ha
      rw [hother _ hne] at hr
      exact h.untried a ha r hr
    · rw [hself] at hr
      exact .inl (Option.some.inj hr ▸ rfl)
  · rcases hcases a ha with ha | rfl
    · have hpo := hold a ha hp
      obtain ⟨ha, hne⟩ := Queue.mem_without.mp ha
      rw [hrow, if_neg hne]
      exact h.row a ha hpo
    · exact ⟨m', by rw [hrow, if_pos rfl], hca⟩
  · rw [hmess, List.map_append, List.pairwise_append]
    refine ⟨?_, List.pairwise_singleton _ _, ?_⟩
    · refine h.order.imp_of_mem fun hx hy hxy a ha b hb hai hbj hpa hpb => ?_
      have hne : ∀ i ∈ f.messages.map Message.msgId, i ≠ m.msgId := by
        rintro i hin rfl
        obtain ⟨x, hxm, hxid⟩ := List.mem_map.mp hin
        have : x ∈ rowsOf m.msgId f.messages :=
          List.mem_filter.mpr ⟨hxm, decide_eq_true hxid⟩
        rw [hnorow] at this
        cases this
      rcases hcases a ha with ha | rfl
      · rcases hcases b hb with hb | rfl
        · exact hxy a (Queue.mem_without.mp ha).1 b (Queue.mem_without.mp hb).1 hai hbj
            (hold a ha hpa) (hold b hb hpb)
        · exact absurd hbj.symm (hne _ hy)
      · exact absurd hai.symm (hne _ hx)
    · intro i hin j hjn a ha b hb hai hbj hpa hpb
      rw [List.map_singleton, List.mem_singleton, hid] at hjn
      rcases hcases b hb with hb | rfl
      · exact absurd (hbj.trans hjn) (Queue.mem_without.mp hb).2
      · rcases hcases a ha with ha | rfl
        · exact (h.numbers a (Queue.mem_without.mp ha).1).1
        · obtain ⟨x, hxm, hxid⟩ := List.mem_map.mp hin
          have : x ∈ rowsOf m.msgId f.messages :=
            List.mem_filter.mpr ⟨hxm, decide_eq_true (hxid.trans hai.symm)⟩
          rw [hnorow] at this
          cases this
  · rw [hlen]
    exact Nat.lt_succ_of_lt (h.numbered k hk)
  · rcases hcases a ha with ha | rfl
    · exact h.delivered k hk a (Queue.mem_without.mp ha).1 (hold a ha hp)
    · exact h.numbered k hk

/-- **An enqueue keeps the order.** -/
theorem Ordered.enqueue (h : Ordered q f)
    (hc : (q.note (.enqueue m) (perform sid cfg now f (.enqueue m)).1).created.Pairwise (· ≤ ·)) :
    Ordered (q.note (.enqueue m) (perform sid cfg now f (.enqueue m)).1)
      ((Step.whole now (.enqueue m)).after sid cfg f) := by
  obtain ⟨hs, hi, hm⟩ := h.kept_files sid cfg (s := .whole now (.enqueue m)) rfl
  have hafter : (Step.whole now (.enqueue m)).after sid cfg f
      = f.applyAll (Mailbox.enqueue cfg now { m with recipient := sid } f).2 := rfl
  rw [hafter] at hs hi hm ⊢
  rw [perform] at hc ⊢
  have hmk : ∀ ws, ((if f.dir then [] else [Write.mkdir]) ++ ws).foldl Write.onState f.journal
        = ws.foldl Write.onState f.journal ∧
      ((if f.dir then [] else [Write.mkdir]) ++ ws).foldl Write.onInbox f.messages
        = ws.foldl Write.onInbox f.messages := by
    intro ws
    cases f.dir <;> exact ⟨rfl, rfl⟩
  have hjournal := fun ws => (f.applyAll_state ws h.sound.clean).1
  have hmessages := fun ws => (f.applyAll_inbox ws h.inbox).1
  have hquiet : ∀ ws, ws = (if f.dir then [] else [Write.mkdir]) →
      (f.applyAll ws).journal = f.journal ∧ (f.applyAll ws).messages = f.messages := by
    rintro ws rfl
    have := hmk []
    rw [List.append_nil] at this
    rw [hjournal, hmessages]
    exact this
  generalize he : Mailbox.enqueue cfg now { m with recipient := sid } f = out at *
  unfold Mailbox.enqueue at he
  dsimp only at he
  split at he
  · subst he
    exact h.congr hs hi hm (hquiet _ rfl).1 (hquiet _ rfl).2
  · next hhas =>
    split at he
    · subst he
      exact h.congr hs hi hm (hquiet _ rfl).1 (hquiet _ rfl).2
    · subst he
      have hfree : (standing m.msgId f.journal).last = none := by
        rw [standing_last, ← OrdMap.has_eq_false_iff]
        exact Bool.eq_false_iff.mpr hhas
      have hj := (hjournal _).trans (hmk
        [.appendInbox { m with recipient := sid },
          .appendState (Message.firstRow { m with recipient := sid } now)]).1
      have hmess := (hmessages _).trans (hmk
        [.appendInbox { m with recipient := sid },
          .appendState (Message.firstRow { m with recipient := sid } now)]).2
      exact h.arrive hs hi hm hfree
        (show Message.msgId { m with recipient := sid } = m.msgId from rfl) rfl hj hmess hc 0

/-! ## Runs -/

/-- **Every call keeps the order.** -/
theorem Ordered.watchCall {w : Files × Queue} {c : Int × Call} (h : Ordered w.2 w.1)
    (hc : (Mailbox.watchCall sid cfg w c).2.created.Pairwise (· ≤ ·)) :
    Ordered (Mailbox.watchCall sid cfg w c).2 (Mailbox.watchCall sid cfg w c).1 := by
  obtain ⟨f, q⟩ := w
  obtain ⟨now, c⟩ := c
  cases c with
  | enqueue m => exact h.enqueue hc
  | dequeue => exact h.dequeue
  | nack id reason =>
    refine h.call (s := .whole now (.nack id reason)) rfl (fun m hm => by cases hm)
      (fun hd => by cases hd) Queue.without_sublist rfl rfl fun a ha reason' he => ?_
    cases he
    exact (Queue.mem_without.mp ha).2 rfl
  | _ =>
    show Ordered q ((Step.whole now _).after sid cfg f)
    refine h.call rfl (fun m hm => by cases hm) (fun hd => by cases hd) (.refl _) rfl rfl
      fun a ha reason he => ?_
    cases he

/-- What was enqueued before a call was enqueued before the next one. -/
theorem Queue.created_note (q : Queue) (c : Call) (a : Answer) :
    q.created <+: (q.note c a).created := by
  unfold note
  split
  · exact List.prefix_append _ _
  all_goals exact List.prefix_refl _

theorem ordered_watch {calls : List (Int × Call)}
    (hc : (watch sid cfg calls).2.created.Pairwise (· ≤ ·)) :
    Ordered (watch sid cfg calls).2 (watch sid cfg calls).1 := by
  induction calls using List.reverseRecOn with
  | nil => exact ordered_empty
  | append_singleton calls c ih =>
    have hcons : watch sid cfg (calls ++ [c]) = watchCall sid cfg (watch sid cfg calls) c := by
      rw [watch, List.foldl_append]
      rfl
    rw [hcons] at hc ⊢
    exact (ih (hc.sublist (Queue.created_note _ _ _).sublist)).watchCall hc

/-- **First deliveries are in the order of the enqueues**, where `created_at` never goes back. -/
theorem first_deliveries_fifo (sid : Text) (cfg : Config) (calls : List (Int × Call))
    (hc : (watch sid cfg calls).2.created.Pairwise (· ≤ ·)) :
    (watch sid cfg calls).2.firsts.Pairwise (· < ·) := (ordered_watch hc).firsts

/-- Three messages, the first of which fails and is delivered again after the last one. -/
def retriedCalls : List (Int × Call) :=
  [(5, .enqueue ⟨"a", none, "s", "hi", 5, 0, none⟩), (5, .enqueue ⟨"b", none, "s", "hi", 5, 0, none⟩),
    (5, .dequeue), (5, .nack "a" "failed"), (5, .dequeue),
    (6, .enqueue ⟨"c", none, "s", "hi", 6, 0, none⟩), (6, .compact), (10, .dequeue), (10, .dequeue)]

theorem first_deliveries_fifo_retried :
    (watch "s" .default retriedCalls).2.firsts = [0, 1, 2] ∧
      (watch "s" .default retriedCalls).2.firsts.Pairwise (· < ·) :=
  ⟨by decide +kernel, first_deliveries_fifo "s" .default retriedCalls (by decide +kernel)⟩

end Telepty.Mailbox
