import Telepty.Mailbox.Compaction

/-!
# The messages that wait

A process that has a mailbox for itself sees it as a queue, `pendingMessages`. An enqueue of a new
message adds it at the end; where `created_at` never goes back, a dequeue takes the first message;
every other call it makes, whole or stopped between two writes, at most takes messages away.
-/

namespace Telepty.Mailbox

open Infra

variable {sid : Text} {cfg : Config} {f : Files} {id : Text} {m : Message} {now : Int}

/-! ## Writes that take messages away -/

/-- Files of whole rows. -/
structure Files.Whole (f : Files) : Prop where
  state : f.StateClean
  inbox : f.InboxClean

/-- A write that makes no message pending. -/
inductive Write.Shrinks (f : Files) : Write → Prop where
  | mkdir : Shrinks f .mkdir
  | dead (d : DeadLetter) : Shrinks f (.appendDead d)
  | settled (r : StateRow) (h : r.state ≠ .pending) : Shrinks f (.appendState r)
  | inbox (keep : Text → Bool) :
    Shrinks f (.writeInbox (f.messages.filter fun m => keep m.msgId))
  | states (rs : List StateRow) (h : ∀ id, isPending rs id = true → isPending f.journal id = true)
      (hn : ∀ m ∈ f.messages, (loadStates rs).get? m.msgId = none →
        (loadStates f.journal).get? m.msgId = none) :
    Shrinks f (.writeState rs)

/-- `g` has no message that `f` does not have, none pending that was not, and none without a state
that had one. -/
structure Settles (f g : Files) : Prop where
  messages : g.messages ⊆ f.messages
  pending : ∀ id, isPending g.journal id = true → isPending f.journal id = true
  stateless : ∀ m ∈ g.messages, (loadStates g.journal).get? m.msgId = none →
    (loadStates f.journal).get? m.msgId = none

theorem Settles.refl (f : Files) : Settles f f := ⟨List.Subset.refl _, fun _ h => h, fun _ _ h => h⟩

theorem Settles.trans {g h : Files} (hf : Settles f g) (hg : Settles g h) : Settles f h :=
  ⟨List.Subset.trans hg.messages hf.messages, fun id hp => hf.pending id (hg.pending id hp),
    fun m hm hn => hf.stateless m (hg.messages hm) (hg.stateless m hm hn)⟩

/-- Dropping rows and states leaves the order of the rest. -/
theorem pendingMessages_sublist {g : Files} (keep : Text → Bool)
    (hm : g.messages = f.messages.filter fun m => keep m.msgId)
    (hp : ∀ id, isPending g.journal id = true → isPending f.journal id = true) :
    (pendingMessages g).Sublist (pendingMessages f) := by
  have hl : latest g.messages = (latest f.messages).filter fun e => keep e.1 := by
    rw [hm]
    exact OrdMap.collect_filter keep f.messages
  rw [pendingMessages, pendingMessages, hl]
  refine (List.monotone_filter_right _ fun m h => hp _ h).trans (List.Sublist.filter _ ?_)
  exact List.Sublist.map _ List.filter_sublist

theorem isPending_concat (j : List StateRow) (r : StateRow) (id : Text) :
    isPending (j ++ [r]) id = if r.msgId = id then decide (r.state = .pending) else isPending j id := by
  rw [isPending, isPending, ← standing_last, ← standing_last, standing_concat]
  split <;> rfl

theorem Write.Shrinks.apply {w : Write} (hf : f.Whole) (hw : w.Shrinks f) :
    (f.apply w).Whole ∧ (pendingMessages (f.apply w)).Sublist (pendingMessages f) := by
  obtain ⟨hj, hs⟩ := f.apply_state w hf.state
  obtain ⟨hm, hi⟩ := f.apply_inbox w hf.inbox
  refine ⟨⟨hs, hi⟩, ?_⟩
  have hall : ∀ l : List Message, l = l.filter fun m => (fun _ => true) m.msgId := fun l =>
    (List.filter_eq_self.mpr fun _ _ => rfl).symm
  cases hw with
  | mkdir => exact .refl _
  | dead d => exact .refl _
  | settled r h =>
    refine pendingMessages_sublist (fun _ => true) (hm.trans (hall _)) fun id hp => ?_
    rw [hj, Write.onState, isPending_concat] at hp
    split at hp
    · exact absurd (of_decide_eq_true hp) h
    · exact hp
  | inbox keep => exact pendingMessages_sublist keep hm fun id hp => by rwa [hj] at hp
  | states rs h _ =>
    refine pendingMessages_sublist (fun _ => true) (hm.trans (hall _)) fun id hp => h id ?_
    rwa [hj] at hp

theorem loadStates_concat_eq_none {j : List StateRow} {r : StateRow}
    (h : (loadStates (j ++ [r])).get? id = none) : (loadStates j).get? id = none := by
  rw [← standing_last, standing_concat] at h
  split at h
  · cases h
  · rwa [← standing_last]

theorem Write.Shrinks.settles {w : Write} (hf : f.Whole) (hw : w.Shrinks f) :
    Settles f (f.apply w) := by
  have hj := (f.apply_state w hf.state).1
  have hm := (f.apply_inbox w hf.inbox).1
  cases hw with
  | mkdir | dead =>
    refine ⟨hm ▸ List.Subset.refl _, fun id hp => by rwa [hj] at hp, fun m _ hn => ?_⟩
    rwa [hj] at hn
  | settled r h =>
    refine ⟨hm ▸ List.Subset.refl _, fun id hp => ?_, fun m _ hn => ?_⟩
    · rw [hj, Write.onState, isPending_concat] at hp
      split at hp
      · exact absurd (of_decide_eq_true hp) h
      · exact hp
    · rw [hj] at hn
      exact loadStates_concat_eq_none hn
  | inbox keep =>
    refine ⟨fun x hx => (List.mem_filter.mp (hm ▸ hx)).1, fun id hp => by rwa [hj] at hp,
      fun m _ hn => ?_⟩
    rwa [hj] at hn
  | states rs h hn =>
    refine ⟨hm ▸ List.Subset.refl _, fun id hp => h id (by rwa [hj] at hp), fun m hmem hnone => ?_⟩
    rw [hm] at hmem
    rw [hj] at hnone
    exact hn m hmem hnone

/-- Writes of which each makes no message pending. -/
def Shrinking (f : Files) : List Write → Prop
  | [] => True
  | w :: ws => w.Shrinks f ∧ Shrinking (f.apply w) ws

theorem Shrinking.append {ws ws' : List Write} (h : Shrinking f ws)
    (h' : Shrinking (f.applyAll ws) ws') : Shrinking f (ws ++ ws') := by
  induction ws generalizing f with
  | nil => exact h'
  | cons w ws ih => exact ⟨h.1, ih h.2 h'⟩

theorem Shrinking.take {ws : List Write} (h : Shrinking f ws) (k : Nat) :
    Shrinking f (ws.take k) := by
  induction ws generalizing f k with
  | nil => rw [List.take_nil]; trivial
  | cons w ws ih =>
    cases k with
    | zero => trivial
    | succ k => exact ⟨h.1, ih h.2 k⟩

theorem Shrinking.applyAll {ws : List Write} (hf : f.Whole) (h : Shrinking f ws) :
    (f.applyAll ws).Whole ∧ (pendingMessages (f.applyAll ws)).Sublist (pendingMessages f) := by
  induction ws generalizing f with
  | nil => exact ⟨hf, .refl _⟩
  | cons w ws ih =>
    obtain ⟨hw, hs⟩ := h.1.apply hf
    obtain ⟨hw', hs'⟩ := ih hw h.2
    exact ⟨hw', hs'.trans hs⟩

theorem Shrinking.settles {ws : List Write} (hf : f.Whole) (h : Shrinking f ws) :
    Settles f (f.applyAll ws) := by
  induction ws generalizing f with
  | nil => exact .refl f
  | cons w ws ih => exact (h.1.settles hf).trans (ih (h.1.apply hf).1 h.2)

/-! ## The calls -/

/-- The calls of a process that has the mailbox for itself, apart from the enqueue. -/
inductive Call.Takes : Call → Prop where
  | dequeue : Takes .dequeue
  | ack (id : Text) : Takes (.ack id .none)
  | withdraw (id reason : Text) (o : WithdrawOptions) : Takes (.withdraw id reason o)
  | peek : Takes .peek
  | purge : Takes .purge

theorem isPending_activeStates (hf : f.Whole) (pristine : List Text) (id : Text)
    (h : isPending (activeStates f.journal pristine) id = true) : isPending f.journal id = true := by
  have hc := compacted_applyAll hf.state hf.inbox pristine
  have := hc.isPending id
  rw [hc.journal, h] at this
  exact (Bool.and_eq_true_iff.mp this.symm).2

theorem stateless_activeStates (hf : f.Whole) (pristine : List Text)
    (hk : kept f.journal id = true) (h : (loadStates (activeStates f.journal pristine)).get? id = none) :
    (loadStates f.journal).get? id = none := by
  have hc := compacted_applyAll hf.state hf.inbox pristine
  have hst := hc.state_of_kept hk
  rw [hc.journal, standing_last, h, Option.map_none, eq_comm, Option.map_eq_none_iff] at hst
  rwa [← standing_last]

theorem shrinking_compact {ws : List Write} (hf : f.Whole) (h : compact sid cfg f = some ws) :
    Shrinking f ws := by
  unfold compact at h
  split at h
  · cases h
    trivial
  · split at h
    · cases h
    · next pristine hp =>
      cases h
      have hj : (f.apply (.writeInbox (f.messages.filter fun m => kept f.journal m.msgId))).journal
          = f.journal := (f.apply_state _ hf.state).1
      refine ⟨.inbox (kept f.journal), .states _ (fun id hid => ?_) fun m hm hnone => ?_, trivial⟩
      · rw [hj]
        exact isPending_activeStates hf pristine id hid
      · rw [(f.apply_inbox _ hf.inbox).1] at hm
        rw [hj]
        exact stateless_activeStates hf pristine (List.mem_filter.mp hm).2 hnone

theorem shrinking_thenCompact {ws : List Write} {a : Answer} (hf : f.Whole) (h : Shrinking f ws) :
    Shrinking f (thenCompact sid cfg f ws a).2 := by
  unfold thenCompact
  split
  · exact h
  · next ws' hc => exact h.append (shrinking_compact (h.applyAll hf).1 hc)

variable (sid cfg now) in
/-- **No call but an enqueue makes a message pending.** -/
theorem Call.Takes.shrinking {c : Call} (hc : c.Takes) (hf : f.Whole) :
    Shrinking f (perform sid cfg now f c).2 := by
  cases hc with
  | dequeue =>
    show Shrinking f (Mailbox.dequeue now f).2
    unfold Mailbox.dequeue
    split
    · trivial
    · split
      · trivial
      · exact ⟨.settled _ (by simp [plainRow]), trivial⟩
  | ack id =>
    show Shrinking f (Mailbox.ack sid cfg now id .none f).2
    unfold Mailbox.ack
    split
    · trivial
    · split
      · trivial
      · exact shrinking_thenCompact hf ⟨.settled _ (by simp [plainRow]), trivial⟩
  | withdraw id reason o =>
    show Shrinking f (Mailbox.withdraw now id reason o f).2
    unfold Mailbox.withdraw
    split
    · trivial
    · split
      · trivial
      · split
        · trivial
        · refine ⟨.dead _, .settled _ ?_, trivial⟩
          split <;> simp [unknownRow, plainRow]
  | peek => trivial
  | purge =>
    show Shrinking f (Mailbox.purge f).2
    unfold Mailbox.purge
    split
    · refine ⟨?_, .states _ (fun id h => ?_) fun m hm _ => ?_, trivial⟩
      · have := Write.Shrinks.inbox (f := f) fun _ => false
        rwa [show (f.messages.filter fun m => (fun _ => false) m.msgId) = [] from
          List.filter_eq_nil_iff.mpr (by simp)] at this
      · cases h
      · rw [(f.apply_inbox _ hf.inbox).1] at hm
        cases hm
    · trivial

/-- A step that is whole, or stops between two writes. -/
def Step.Untorn (s : Step) : Prop := ∀ c, s.crash = some c → c.torn = none

variable (sid cfg f) in
theorem Step.Untorn.after {s : Step} (h : s.Untorn) :
    ∃ k, s.after sid cfg f = f.applyAll ((s.writes sid cfg f).take k) ∧
      (s.crash = none → (s.writes sid cfg f).take k = s.writes sid cfg f) := by
  unfold Step.after
  cases hc : s.crash with
  | none => exact ⟨(s.writes sid cfg f).length, by rw [List.take_length], fun _ => List.take_length⟩
  | some c =>
    refine ⟨c.done, ?_, fun h => by cases h⟩
    simp only [Files.crash, h c hc]

theorem Step.Untorn.whole {s : Step} (h : s.Untorn) (hf : f.Whole) :
    (s.after sid cfg f).Whole := by
  obtain ⟨k, he, -⟩ := h.after sid cfg f
  rw [he]
  exact ⟨(f.applyAll_state _ hf.state).2, (f.applyAll_inbox _ hf.inbox).2⟩

/-- **A step at most takes messages away**, unless it enqueues. -/
theorem Step.takes {s : Step} (hf : f.Whole) (hc : s.call.Takes) (hs : s.Untorn) :
    (pendingMessages (s.after sid cfg f)).Sublist (pendingMessages f) := by
  obtain ⟨k, he, -⟩ := hs.after sid cfg f
  rw [he]
  exact (((hc.shrinking _ _ _ hf).take k).applyAll hf).2

/-- **A step leaves no message pending that was not**, unless it enqueues. -/
theorem Step.settles {s : Step} (hf : f.Whole) (hc : s.call.Takes) (hs : s.Untorn) :
    Settles f (s.after sid cfg f) := by
  obtain ⟨k, he, -⟩ := hs.after sid cfg f
  rw [he]
  exact ((hc.shrinking _ _ _ hf).take k).settles hf

/-! ## Enqueue -/

theorem pendingMessages_congr {g : Files} (hm : g.messages = f.messages)
    (hj : g.journal = f.journal) : pendingMessages g = pendingMessages f := by
  rw [pendingMessages, pendingMessages, hm, hj]

/-- The row of a new message is the last one. -/
theorem latest_values_concat (ms : List Message) (hfree : rowsOf m.msgId ms = []) :
    (latest (ms ++ [m])).values = (latest ms).values ++ [m] ∧
      ∀ x ∈ (latest ms).values, m.msgId ≠ x.msgId := by
  have hnone : (latest ms).get? m.msgId = none := by
    rw [latest_get?, latestOf_eq_foldl, hfree]
    rfl
  constructor
  · rw [latest_concat, hnone, OrdMap.values, OrdMap.entries_set_of_none _ hnone, List.map_append]
    rfl
  · intro x hx he
    rw [mem_latest_values, ← he, ← latest_get?, hnone] at hx
    cases hx

/-- A new row whose message has no state is not waiting. -/
theorem pendingMessages_row {g : Files} (hm : g.messages = f.messages ++ [m])
    (hj : g.journal = f.journal) (hfree : rowsOf m.msgId f.messages = [])
    (hp : isPending f.journal m.msgId = false) : pendingMessages g = pendingMessages f := by
  rw [pendingMessages, pendingMessages, hm, hj, (latest_values_concat _ hfree).1,
    List.filter_append, List.filter_cons_of_neg (by simp [hp]), List.filter_nil, List.append_nil]

/-- A new row with its first state goes to the end. -/
theorem pendingMessages_concat {g : Files} (hm : g.messages = f.messages ++ [m])
    (hj : g.journal = f.journal ++ [m.firstRow now]) (hfree : rowsOf m.msgId f.messages = []) :
    pendingMessages g = pendingMessages f ++ [m] := by
  obtain ⟨hl, hne⟩ := latest_values_concat _ hfree
  have hself : isPending g.journal m.msgId = true := by
    rw [hj, isPending_concat, if_pos (show (m.firstRow now).msgId = m.msgId from rfl)]
    rfl
  rw [pendingMessages, pendingMessages, hm, hl, List.filter_append,
    List.filter_cons_of_pos (by simpa using hself), List.filter_nil]
  congr 1
  refine List.filter_congr fun x hx => ?_
  rw [hj, isPending_concat]
  exact if_neg (hne x hx)

variable (cfg now) in
/-- **An enqueue adds its message at the end or nothing**, also where it stops between two writes. -/
theorem pendingMessages_enqueue (hf : f.Whole)
    (hfree : (loadStates f.journal).get? m.msgId = none → rowsOf m.msgId f.messages = []) (k : Nat) :
    pendingMessages (f.applyAll ((enqueue cfg now m f).2.take k)) = pendingMessages f ∨
      pendingMessages (f.applyAll ((enqueue cfg now m f).2.take k)) = pendingMessages f ++ [m] ∧
        (enqueue cfg now m f).1 ≠ .threw := by
  have hnew : ∀ g : Files, g.Whole → g.messages = f.messages → g.journal = f.journal →
      (loadStates f.journal).get? m.msgId = none → ∀ k,
      pendingMessages (g.applyAll ([Write.appendInbox m, .appendState (m.firstRow now)].take k))
          = pendingMessages f ∨
        pendingMessages (g.applyAll ([Write.appendInbox m, .appendState (m.firstRow now)].take k))
          = pendingMessages f ++ [m] := by
    intro g hg hm hj hnone k
    have hp : isPending f.journal m.msgId = false := by
      rw [isPending, hnone]
      rfl
    replace hfree := hfree hnone
    obtain ⟨hj₁, hs₁⟩ := g.apply_state (.appendInbox m) hg.state
    obtain ⟨hm₁, hi₁⟩ := g.apply_inbox (.appendInbox m) hg.inbox
    obtain ⟨hj₂, -⟩ := (g.apply (.appendInbox m)).apply_state (.appendState (m.firstRow now)) hs₁
    obtain ⟨hm₂, -⟩ := (g.apply (.appendInbox m)).apply_inbox (.appendState (m.firstRow now)) hi₁
    rcases k with _ | _ | k
    · exact .inl (pendingMessages_congr hm hj)
    · refine .inl (pendingMessages_row (hm₁.trans ?_) (hj₁.trans hj) hfree hp)
      rw [hm, Write.onInbox]
    · have htwo : [Write.appendInbox m, .appendState (m.firstRow now)].take (k + 2)
          = [.appendInbox m, .appendState (m.firstRow now)] := by
        cases k <;> rfl
      rw [htwo]
      have hjournal : (g.applyAll [.appendInbox m, .appendState (m.firstRow now)]).journal
          = f.journal ++ [m.firstRow now] := by
        rw [← hj]
        exact hj₂.trans (by rw [hj₁]; rfl)
      refine .inr (pendingMessages_concat (hm₂.trans (hm₁.trans ?_)) hjournal hfree)
      rw [hm, Write.onInbox]
  have hmk : (f.apply .mkdir).Whole := ⟨(f.apply_state _ hf.state).2, (f.apply_inbox _ hf.inbox).2⟩
  unfold enqueue
  dsimp only
  split
  · left
    cases f.dir <;> cases k <;> first | rfl | (rename_i k; cases k <;> rfl)
  · next hhas =>
    split
    · left
      cases f.dir <;> cases k <;> first | rfl | (rename_i k; cases k <;> rfl)
    · have hp : (loadStates f.journal).get? m.msgId = none := by
        rwa [Bool.not_eq_true, OrdMap.has_eq_false_iff] at hhas
      have hok : ∀ n, Answer.enqueued true n ≠ .threw := fun n h => by cases h
      cases f.dir with
      | true => exact (hnew f hf rfl rfl hp k).imp_right fun h => ⟨h, hok _⟩
      | false =>
        cases k with
        | zero => exact .inl rfl
        | succ k => exact (hnew _ hmk rfl rfl hp k).imp_right fun h => ⟨h, hok _⟩

/-- The writes of an enqueue of `m`. -/
def Write.Enqueues (m : Message) (now : Int) (w : Write) : Prop :=
  w = .mkdir ∨ w = .appendInbox m ∨ w = .appendState (m.firstRow now)

theorem enqueues_of_mem {w : Write} (h : w ∈ (enqueue cfg now m f).2) :
    w.Enqueues m now ∧ (w = .appendState (m.firstRow now) → (loadStates f.journal).get? m.msgId = none) := by
  have hmk : ∀ {l : List Write}, w ∈ (if f.dir then [] else [Write.mkdir]) ++ l →
      w = .mkdir ∨ w ∈ l := fun h => by
    rcases List.mem_append.mp h with h | h
    · split at h
      · cases h
      · exact .inl (List.mem_singleton.mp h)
    · exact .inr h
  unfold enqueue at h
  dsimp only at h
  split at h
  · rcases hmk (l := []) (by simpa using h) with rfl | h
    · exact ⟨.inl rfl, fun heq => by cases heq⟩
    · cases h
  · next hhas =>
    split at h
    · rcases hmk (l := []) (by simpa using h) with rfl | h
      · exact ⟨.inl rfl, fun heq => by cases heq⟩
      · cases h
    · rw [Bool.not_eq_true, OrdMap.has_eq_false_iff] at hhas
      rcases hmk h with rfl | h
      · exact ⟨.inl rfl, fun heq => by cases heq⟩
      · rcases List.mem_cons.mp h with rfl | h
        · exact ⟨.inr (.inl rfl), fun heq => by cases heq⟩
        · rw [List.mem_singleton.mp h]
          exact ⟨.inr (.inr rfl), fun _ => hhas⟩

theorem foldl_onInbox_enqueues {ws : List Write} (hws : ∀ w ∈ ws, w.Enqueues m now)
    (ms : List Message) : ∀ x ∈ ws.foldl Write.onInbox ms, x ∈ ms ∨ x = m := by
  induction ws generalizing ms with
  | nil => exact fun x hx => .inl hx
  | cons w ws ih =>
    intro x hx
    rcases ih (fun w hw => hws w (List.mem_cons_of_mem _ hw)) _ x hx with h | h
    · rcases hws w List.mem_cons_self with rfl | rfl | rfl
      · exact .inl h
      · exact (List.mem_append.mp h).imp_right List.mem_singleton.mp
      · exact .inl h
    · exact .inr h

theorem foldl_onState_enqueues {ws : List Write} (hws : ∀ w ∈ ws, w.Enqueues m now)
    (j : List StateRow) (id : Text) :
    (isPending (ws.foldl Write.onState j) id = true →
      isPending j id = true ∨ id = m.msgId ∧ Write.appendState (m.firstRow now) ∈ ws) ∧
    ((loadStates (ws.foldl Write.onState j)).get? id = none → (loadStates j).get? id = none) := by
  induction ws generalizing j with
  | nil => exact ⟨.inl, fun h => h⟩
  | cons w ws ih =>
    obtain ⟨ihp, ihn⟩ := ih (fun w hw => hws w (List.mem_cons_of_mem _ hw)) (w.onState j)
    rw [List.foldl_cons]
    have hnone : (loadStates (w.onState j)).get? id = none → (loadStates j).get? id = none := by
      rcases hws w List.mem_cons_self with rfl | rfl | rfl
      · exact fun h => h
      · exact fun h => h
      · exact loadStates_concat_eq_none
    refine ⟨fun h => ?_, fun h => hnone (ihn h)⟩
    rcases ihp h with h | ⟨he, hw⟩
    · rcases hws w List.mem_cons_self with rfl | rfl | rfl
      · exact .inl h
      · exact .inl h
      · rw [Write.onState, isPending_concat] at h
        split at h
        · next he => exact .inr ⟨he.symm, List.mem_cons_self⟩
        · exact .inl h
    · exact .inr ⟨he, List.mem_cons_of_mem _ hw⟩

/-- What an enqueue adds, where it stops between two writes or not at all: the row of its message,
which becomes pending where it had no state. -/
theorem settles_enqueue (hf : f.Whole) (k : Nat) {g : Files}
    (hg : g = f.applyAll ((enqueue cfg now m f).2.take k)) :
    (∀ x ∈ g.messages, x ∈ f.messages ∨ x = m) ∧
      (∀ id, isPending g.journal id = true → isPending f.journal id = true ∨
        id = m.msgId ∧ (loadStates f.journal).get? id = none) ∧
      ∀ id, (loadStates g.journal).get? id = none → (loadStates f.journal).get? id = none := by
  have hmem := fun w (hw : w ∈ (enqueue cfg now m f).2.take k) =>
    enqueues_of_mem (List.mem_of_mem_take hw)
  have hws := fun w hw => (hmem w hw).1
  rw [hg, (f.applyAll_inbox _ hf.inbox).1, (f.applyAll_state _ hf.state).1]
  refine ⟨foldl_onInbox_enqueues hws _, fun id h => ?_, fun id =>
    (foldl_onState_enqueues hws _ id).2⟩
  refine ((foldl_onState_enqueues hws _ id).1 h).imp_right fun ⟨he, hw⟩ => ⟨he, ?_⟩
  rw [he]
  exact (hmem _ hw).2 rfl

/-! ## Dequeue -/

/-- A dequeue answers with a pending message that is due. -/
theorem mem_of_dequeue (h : (dequeue now f).1 = .message (some m)) :
    m ∈ pendingMessages f ∧ m.createdAt ≤ now := by
  unfold dequeue at h
  split at h
  · cases h
  · split at h
    · cases h
    · next x hx =>
      cases h
      rw [nextMessage_eq] at hx
      have hpick : ∀ (l : List Message) (acc : Option Message),
          l.foldl (pickDue now) acc = some m → acc = some m ∨ m ∈ l ∧ m.createdAt ≤ now := by
        intro l
        induction l with
        | nil => exact fun acc h => .inl h
        | cons y l ih =>
          intro acc h
          rcases ih _ h with h | ⟨h, hle⟩
          · rw [pickDue.eq_def] at h
            split at h
            · next hd =>
              have hy : y = m → acc = some m ∨ m ∈ y :: l ∧ m.createdAt ≤ now := fun he =>
                .inr ⟨he ▸ List.mem_cons_self, he ▸ hd⟩
              split at h
              · exact hy (Option.some.inj h)
              · split at h
                · exact hy (Option.some.inj h)
                · exact .inl h
            · exact .inl h
          · exact .inr ⟨List.mem_cons_of_mem _ h, hle⟩
      exact (hpick _ _ hx).resolve_left fun h => by cases h

theorem mem_pendingMessages_iff : m ∈ pendingMessages f ↔
    latestOf m.msgId f.messages = some m ∧ isPending f.journal m.msgId = true := by
  rw [pendingMessages, List.mem_filter, mem_latest_values]

/-- Where `created_at` never goes back and has come, the first message is the next one. -/
theorem foldl_pickDue (l : List Message) (hd : ∀ m ∈ l, m.createdAt ≤ now)
    (hs : l.Pairwise fun a b => a.createdAt ≤ b.createdAt) :
    l.foldl (pickDue now) none = l.head? := by
  cases l with
  | nil => rfl
  | cons m l =>
    obtain ⟨hm, -⟩ := List.pairwise_cons.mp hs
    rw [List.foldl_cons, pickDue, if_pos (hd m List.mem_cons_self)]
    have hkeep : ∀ l' : List Message, (∀ x ∈ l', m.createdAt ≤ x.createdAt) →
        l'.foldl (pickDue now) (some m) = some m := by
      intro l' h
      induction l' with
      | nil => rfl
      | cons x l' ih =>
        have hx : pickDue now (some m) x = some m := by
          rw [pickDue]
          split
          · exact if_neg (Int.not_lt.mpr (h x List.mem_cons_self))
          · rfl
        rw [List.foldl_cons, hx]
        exact ih fun y hy => h y (List.mem_cons_of_mem _ hy)
    exact hkeep l hm

/-- **A dequeue takes the first message.** -/
theorem nextMessage_eq_head? (hd : ∀ m ∈ pendingMessages f, m.createdAt ≤ now)
    (hs : (pendingMessages f).Pairwise fun a b => a.createdAt ≤ b.createdAt) :
    nextMessage now f = (pendingMessages f).head? := by
  rw [nextMessage_eq]
  exact foldl_pickDue _ hd hs

/-- What is left after the first message was dequeued. -/
theorem pendingMessages_after_dequeue (hf : f.Sound) (hi : f.InboxClean) {l : List Message}
    (hn : nextMessage now f = some m) (hp : pendingMessages f = m :: l) :
    (pendingMessages (f.applyAll (dequeue now f).2)).Sublist l := by
  rw [pendingMessages_dequeue hf hi hn, hp, List.filter_cons_of_neg (by simp)]
  exact List.filter_sublist

/-! ## Withdraw -/

variable (now) in
/-- **A withdrawal of a waiting message settles it**, also where it throws after its state row. -/
theorem withdraw_settles (reason : Text) (o : WithdrawOptions) (hf : f.Whole) (hd : f.dir = true) (hm : m ∈ f.messages) {k : Nat} (hk : 2 ≤ k) :
    isPending (f.applyAll ((withdraw now m.msgId reason o f).2.take k)).journal m.msgId = false := by
  by_cases hp : isPending f.journal m.msgId = true
  · obtain ⟨x, hx⟩ := latestOf_of_rowsOf
      (List.ne_nil_of_mem (List.mem_filter.mpr ⟨hm, decide_eq_true rfl⟩))
    have hany : ((loadStates f.journal).get? m.msgId).any
        (fun r => r.state = .pending || (o.inFlight && r.state = .inFlight)) = true := by
      rw [isPending, Option.any_eq_true] at hp
      obtain ⟨r, hr, hs⟩ := hp
      rw [hr, Option.any_some, hs, Bool.true_or]
    have hws : (withdraw now m.msgId reason o f).2 = [.appendDead (x.deadLetter
        (reasonOr reason "withdrawn") o.deliveryUncertain o.details now x.attempt), .appendState
          (if o.deliveryUncertain then unknownRow m.msgId now else plainRow m.msgId .deadLetter now)] := by
      rw [withdraw, if_neg (by simp [hd]), if_neg (by simp [hany]), hx]
    rw [(f.applyAll_state _ hf.state).1, hws, List.take_of_length_le hk]
    show isPending (f.journal ++ [_]) m.msgId = false
    rw [isPending_concat]
    cases o.deliveryUncertain <;> simp [unknownRow, plainRow]
  · have hs := (((Call.Takes.withdraw m.msgId reason o).shrinking [] .default now hf).take k).settles hf
    exact Bool.eq_false_iff.mpr fun h => hp (hs.pending _ h)

/-- **A withdrawal of a waiting message takes it away.** -/
theorem length_withdraw (hf : f.Whole) {reason : Text} {o : WithdrawOptions} (ho : o.inFlight = false)
    (ha : (withdraw now id reason o f).1 = .flag true) :
    (pendingMessages (f.applyAll (withdraw now id reason o f).2)).length + 1
      ≤ (pendingMessages f).length := by
  have hsub := ((Call.Takes.withdraw id reason o).shrinking [] .default now hf).applyAll hf
  have hws : (perform [] .default now f (.withdraw id reason o)).2 = (withdraw now id reason o f).2 :=
    rfl
  rw [hws] at hsub
  rcases Nat.lt_or_ge (pendingMessages (f.applyAll (withdraw now id reason o f).2)).length
    (pendingMessages f).length with h | h
  · exact h
  -- otherwise the message is still there
  have heq := hsub.2.eq_of_length_le h
  exfalso
  unfold withdraw at ha
  split at ha
  · cases ha
  · next hdir =>
    split at ha
    · cases ha
    · next hany =>
      split at ha
      · cases ha
      · next m hm =>
        obtain ⟨hmem, hid⟩ := mem_of_latestOf hm
        subst hid
        have hp : isPending f.journal m.msgId = true := by
          simpa [isPending, ho] using hany
        have hwait := mem_pendingMessages_iff.mpr ⟨hm, hp⟩
        rw [← heq] at hwait
        have hgone := withdraw_settles now reason o hf (by simpa using hdir)
          hmem (Nat.le_add_right 2 (withdraw now m.msgId reason o f).2.length)
        rw [List.take_of_length_le (Nat.le_add_left _ _), (mem_pendingMessages_iff.mp hwait).2] at hgone
        cases hgone

/-! ## Peek -/

theorem collect_summaries_of_mem {l : List Summary} {s : Summary} (h : s ∈ l) :
    ∃ e, (OrdMap.collect Summary.msgId newer l).get? s.msgId = some e := by
  induction l using List.reverseRecOn with
  | nil => cases h
  | append_singleton l x ih =>
    rw [OrdMap.collect_concat, OrdMap.get?_set]
    split
    · exact ⟨_, rfl⟩
    · next hne =>
      rcases List.mem_append.mp h with h | h
      · exact ih h
      · exact absurd (congrArg Summary.msgId (List.mem_singleton.mp h)) hne

/-- **`peek` lists each message that has a state.** -/
theorem exists_mem_peek (hd : f.dir = true) (hm : m ∈ f.messages) {r : StateRow}
    (hr : (loadStates f.journal).get? m.msgId = some r) :
    ∃ s ∈ peek f, s.msgId = m.msgId ∧ s.state = r.state := by
  have hrow : (⟨m.msgId, m.sender, m.createdAt, m.attempt, r.state⟩ : Summary)
      ∈ f.messages.filterMap (summaryOf f.journal) :=
    List.mem_filterMap.mpr ⟨m, hm, by rw [summaryOf, hr]; rfl⟩
  obtain ⟨s, hs⟩ := collect_summaries_of_mem hrow
  have hid := (collect_summaries hs).2
  have hmem : s ∈ peek f := by
    rw [peek_eq f hd]
    exact (OrdMap.mem_values_iff _).mpr ⟨_, hs⟩
  obtain ⟨r', hr', hst⟩ := state_of_mem_peek hmem
  rw [standing_last, hid, hr] at hr'
  exact ⟨s, hmem, hid, hst.trans (by rw [Option.some.inj hr'])⟩

end Telepty.Mailbox
