import Telepty.Mailbox.Terminal
import Telepty.Mailbox.Uncertain

/-!
# Messages after a crash

A process can die between any two writes of a call. After a restart a message that is pending, or
in flight without a fence and with an attempt left, still comes back: the recovery puts it into the
queue again once its timeout is over, and dequeues late enough empty the queue. A message behind
its fence does not come back, nor does one in its last attempt: the recovery makes dead letters of
them.
-/

namespace Telepty.Mailbox

open Infra

variable {sid : Text} {cfg : Config} {f : Files} {s : Step} {id : Text} {m : Message}
  {now T : Int}

/-! ## Messages that come back -/

/-- A message that waits, or whose attempt can be taken back and repeated. -/
def Recoverable (cfg : Config) (id : Text) (f : Files) : Prop :=
  ∃ r, (standing id f.journal).last = some r ∧
    (r.state = .pending ∨ r.state = .inFlight ∧ r.mark ≠ .nonRetryableAttempt ∧
      ∀ m, latestOf id f.messages = some m → m.attempt + 1 < cfg.maxRetries)

/-- A whole call that recovers attempts or takes a message. -/
def Step.Takes (s : Step) : Prop :=
  s.crash = none ∧ (s.call = .recoverInflight ∨ s.call = .dequeue)

/-- From time `T` on, after some recoveries and dequeues, a dequeue answers message `id`. -/
def Returned (sid : Text) (cfg : Config) (T : Int) (id : Text) (f : Files) : Prop :=
  ∃ (steps : List Step) (now : Int) (m : Message),
    (∀ s ∈ steps, s.Takes ∧ T ≤ s.now ∧ s.now ≤ now) ∧
    steps.Pairwise (fun s s' => s.now ≤ s'.now) ∧ T ≤ now ∧
    (dequeue now (run sid cfg f steps)).1 = .message (some m) ∧ m.msgId = id

/-! ## Emptying the queue -/

/-- Every row of the inbox may be dequeued by now. -/
def Ripe (now : Int) (f : Files) : Prop := ∀ m ∈ f.messages, m.createdAt ≤ now

theorem exists_ripe (T : Int) (f : Files) : ∃ now, T ≤ now ∧ Ripe now f := by
  have hmax : ∀ l : List Message, ∃ now, T ≤ now ∧ ∀ m ∈ l, m.createdAt ≤ now := by
    intro l
    induction l with
    | nil => exact ⟨T, Int.le_refl T, fun m hm => absurd hm List.not_mem_nil⟩
    | cons m l ih =>
      obtain ⟨now, hT, hl⟩ := ih
      refine ⟨max now m.createdAt, Int.le_trans hT (Int.le_max_left _ _), fun x hx => ?_⟩
      rcases List.mem_cons.mp hx with rfl | hx
      · exact Int.le_max_right _ _
      · exact Int.le_trans (hl x hx) (Int.le_max_left _ _)
  exact hmax f.messages

/-- The messages that are due. -/
def dueNow (now : Int) (f : Files) : List Message :=
  (latest f.messages).values.filter (due (loadStates f.journal) now)

theorem due_iff : due (loadStates f.journal) now m = true ↔
    Pending m.msgId f ∧ m.createdAt ≤ now := by
  rw [due, Bool.and_eq_true, Option.any_eq_true, decide_eq_true_iff, ← standing_last]
  refine and_congr_left' ⟨?_, ?_⟩
  · rintro ⟨r, hr, hp⟩
    exact ⟨r, hr, of_decide_eq_true hp⟩
  · rintro ⟨r, hr, hp⟩
    exact ⟨r, hr, decide_eq_true hp⟩

/-- A ripe pending message is due, so there is something to dequeue. -/
theorem exists_next (hf : f.Intact) (hr : Ripe now f) (hp : Pending id f) :
    ∃ m, nextMessage now f = some m := by
  obtain ⟨r, hl, hst⟩ := hp
  obtain ⟨m, hm⟩ := latestOf_of_rowsOf (hf.backed id r hl (by rw [hst]; rfl))
  obtain ⟨hmem, hid⟩ := mem_of_latestOf hm
  have hdue : due (loadStates f.journal) now m = true :=
    due_iff.mpr ⟨⟨r, by rw [hid]; exact hl, hst⟩, hr m hmem⟩
  have hspec := foldl_pickNext (loadStates f.journal) now (latest f.messages).values
  cases hn : nextMessage now f with
  | some x => exact ⟨x, rfl⟩
  | none =>
    rw [show (latest f.messages).values.foldl _ none = none from hn] at hspec
    rw [hspec m (mem_latest_values.mpr (by rw [hid]; exact hm))] at hdue
    cases hdue

variable (sid cfg) in
/-- **A dequeue of another message** takes that one out of the queue and leaves the rest. -/
theorem dequeue_other (hf : f.Intact) (hn : nextMessage now f = some m) (hne : m.msgId ≠ id)
    (hp : Pending id f) (hr : Ripe now f) :
    let f' := (Step.mk now .dequeue none).after sid cfg f
    f'.Intact ∧ Pending id f' ∧ Ripe now f' ∧ (dueNow now f').length < (dueNow now f).length := by
  intro f'
  have hf' : f'.Intact := Step.intact hf (Step.clean_of_whole rfl)
  have hafter : f' = f.applyAll [.appendState (plainRow m.msgId .inFlight now)] := by
    show f.applyAll (dequeue now f).2 = _
    rw [dequeue_of_next hf.sound hn]
  have hmess : f'.messages = f.messages := by
    rw [hafter]
    exact (f.applyAll_inbox _ hf.inbox).1
  have hstand : ∀ i, standing i f'.journal = if m.msgId = i
      then (standing i f.journal).push (plainRow m.msgId .inFlight now)
      else standing i f.journal := by
    intro i
    rw [hafter]
    exact standing_appendState hf.sound _
  have hpend : ∀ i, Pending i f' ↔ Pending i f ∧ i ≠ m.msgId := by
    intro i
    rw [Pending, hstand]
    by_cases he : m.msgId = i
    · rw [if_pos he]
      refine ⟨fun ⟨r, hr, hst⟩ => ?_, fun h => absurd he.symm h.2⟩
      cases hr
      cases hst
    · rw [if_neg he]
      exact ⟨fun h => ⟨h, Ne.symm he⟩, fun h => h.1⟩
  refine ⟨hf', (hpend id).mpr ⟨hp, hne.symm⟩, ?_, ?_⟩
  · rw [Ripe, hmess]
    exact hr
  · have hfilter : dueNow now f' = (dueNow now f).filter fun x => x.msgId ≠ m.msgId := by
      rw [dueNow, dueNow, List.filter_filter, hmess]
      refine List.filter_congr fun x _ => ?_
      rw [Bool.eq_iff_iff, Bool.and_eq_true, due_iff, due_iff, hpend, decide_eq_true_iff]
      tauto
    obtain ⟨hlat, r, hl, hst, hc⟩ := nextMessage_eq_some hn
    rw [hfilter, List.length_filter_lt_length_iff_exists]
    refine ⟨m, List.mem_filter.mpr ⟨mem_latest_values.mpr hlat, due_iff.mpr ⟨⟨r, hl, hst⟩, hc⟩⟩, ?_⟩
    simp

variable (sid cfg) in
/-- **Dequeues return every pending message**, once all rows are ripe. -/
theorem Pending.returned (hf : f.Intact) (hp : Pending id f) (hr : Ripe now f) :
    ∃ (n : Nat) (m : Message),
      (dequeue now (run sid cfg f (List.replicate n ⟨now, .dequeue, none⟩))).1 = .message (some m) ∧
        m.msgId = id := by
  -- induction on the number of messages that are due
  generalize hk : (dueNow now f).length = k
  induction k using Nat.strongRecOn generalizing f with
  | ind k ih =>
    obtain ⟨m, hm⟩ := exists_next hf hr hp
    by_cases he : m.msgId = id
    · refine ⟨0, m, ?_, he⟩
      rw [List.replicate_zero, run_nil, dequeue_of_next hf.sound hm]
    · obtain ⟨hf', hp', hr', hlt⟩ := dequeue_other sid cfg hf hm he hp hr
      obtain ⟨n, x, hx, hid⟩ := ih _ (hk ▸ hlt) hf' hp' hr' rfl
      exact ⟨n + 1, x, hx, hid⟩

/-! ## Taking an attempt back -/

variable (sid) in
/-- **The recovery makes an attempt without a fence pending again**, if it was not the last. -/
theorem recoverInflight_pending {r : StateRow} (hf : f.Intact)
    (hl : (standing id f.journal).last = some r) (hst : r.state = .inFlight)
    (hmark : r.mark ≠ .nonRetryableAttempt)
    (hleft : ∀ m, latestOf id f.messages = some m → m.attempt + 1 < cfg.maxRetries)
    (hdue : cfg.inflightTimeoutSecs ≤ now - r.ts) :
    Pending id ((Step.mk now .recoverInflight none).after sid cfg f) := by
  obtain ⟨m, hm⟩ := latestOf_of_rowsOf (hf.backed id r hl (by rw [hst]; rfl))
  have hid := (mem_of_latestOf hm).2
  subst hid
  have hws : (recoverInflight cfg now f).2.filter (Write.about m.msgId)
      = [.appendState (plainRow m.msgId .nacked now), .appendInbox (m.next cfg now),
        .appendState (plainRow m.msgId .pending now)] := by
    rw [recoverInflight_filter hf hl, recoverEntry, if_pos ⟨hst, hdue⟩, hm]
    dsimp only
    rw [if_neg hmark, retry, if_neg (Nat.not_le.mpr (hleft m hm)), filter_about_self]
    · rfl
    · simp [Write.about, plainRow]
  have ha : ∀ w ∈ (recoverInflight cfg now f).2, w.appends := by
    rw [recoverInflight]
    split
    · exact fun w hw => absurd hw List.not_mem_nil
    · exact (recoverEntries_about cfg now _ _).1
  have hstand := standing_applyAll m.msgId hf.sound ha
  rw [hws] at hstand
  exact ⟨_, congrArg Standing.last hstand, rfl⟩

/-- **A recoverable message comes back.** -/
theorem Recoverable.returned (hf : f.Intact) (h : Recoverable cfg id f) (T : Int) :
    Returned sid cfg T id f := by
  obtain ⟨r, hl, hst | ⟨hst, hmark, hleft⟩⟩ := h
  · obtain ⟨now, hT, hr⟩ := exists_ripe T f
    obtain ⟨n, m, hm, hid⟩ := Pending.returned sid cfg hf ⟨r, hl, hst⟩ hr
    refine ⟨_, now, m, fun s hs => ?_, ?_, hT, hm, hid⟩
    · rw [List.eq_of_mem_replicate hs]
      exact ⟨⟨rfl, .inr rfl⟩, hT, Int.le_refl _⟩
    · exact List.pairwise_replicate.mpr (.inr (Int.le_refl _))
  · -- the recovery first, at a time the attempt's timeout is over
    have hfirst : ∃ t, T ≤ t ∧ cfg.inflightTimeoutSecs ≤ t - r.ts :=
      ⟨max T (r.ts + cfg.inflightTimeoutSecs), Int.le_max_left _ _, by omega⟩
    obtain ⟨t, hTt, hdue⟩ := hfirst
    have hp := recoverInflight_pending sid hf hl hst hmark hleft hdue
    have hf' : ((Step.mk t .recoverInflight none).after sid cfg f).Intact :=
      Step.intact hf (Step.clean_of_whole rfl)
    obtain ⟨now, htn, hr⟩ := exists_ripe t ((Step.mk t .recoverInflight none).after sid cfg f)
    obtain ⟨n, m, hm, hid⟩ := Pending.returned sid cfg hf' hp hr
    have hTn := Int.le_trans hTt htn
    refine ⟨⟨t, .recoverInflight, none⟩ :: List.replicate n ⟨now, .dequeue, none⟩, now, m,
      fun s hs => ?_, List.pairwise_cons.mpr ⟨fun s hs => ?_, ?_⟩, hTn, hm, hid⟩
    · rcases List.mem_cons.mp hs with rfl | hs
      · exact ⟨⟨rfl, .inl rfl⟩, hTt, htn⟩
      · rw [List.eq_of_mem_replicate hs]
        exact ⟨⟨rfl, .inr rfl⟩, hTn, Int.le_refl _⟩
    · rw [List.eq_of_mem_replicate hs]
      exact htn
    · exact List.pairwise_replicate.mpr (.inr (Int.le_refl _))

/-! ## Runs with crashes -/

/-- What a step must not forget: an accepted message is pending, and a message without a result
keeps its state, unless it is purged, acknowledged or expired. -/
structure Step.Remembers (sid : Text) (cfg : Config) (s : Step) (f : Files) : Prop where
  accepted : ∀ m n, s.call = .enqueue m → s.answer sid cfg f = some (.enqueued true n) →
    messageState m.msgId (s.after sid cfg f) = some .pending
  kept : ∀ id t, messageState id f = some t → t.terminal = false →
    messageState id (s.after sid cfg f) = none →
    s.call = .purge ∨ (∃ proof, s.call = .ack id proof) ∨ s.call = .expireStale

/-- An accepted message is pending. -/
theorem enqueue_pending (hf : f.Intact) {n : Nat}
    (ha : (enqueue cfg now { m with recipient := sid } f).1 = .enqueued true n) :
    messageState m.msgId (f.applyAll (enqueue cfg now { m with recipient := sid } f).2)
      = some .pending := by
  have hafter : ((Step.mk now (.enqueue m) none).after sid cfg f).Intact :=
    Step.intact hf (Step.clean_of_whole rfl)
  have hr : (f.applyAll (enqueue cfg now { m with recipient := sid } f).2).Rooted :=
    hafter.sound.rooted
  rw [messageState_eq hr]
  generalize he : enqueue cfg now { m with recipient := sid } f = out at *
  unfold enqueue at he
  dsimp only at he
  split at he
  · subst he
    cases ha
  · split at he
    · subst he
      cases ha
    · subst he
      rw [(f.applyAll_state _ hf.sound.clean).1, List.foldl_append]
      have hmk : (if f.dir then [] else [Write.mkdir]).foldl Write.onState f.journal
          = f.journal := by cases f.dir <;> rfl
      rw [hmk]
      show Option.map _ (standing m.msgId (f.journal ++ [_])).last = _
      rw [standing_concat,
        if_pos (show (Message.firstRow { m with recipient := sid } now).msgId = m.msgId from rfl)]
      rfl

/-- **A clean step remembers every message.** -/
theorem Step.remembers (hf : f.Intact) (hs : s.Clean sid cfg f) : s.Remembers sid cfg f := by
  constructor
  · intro m n hc ha
    rw [answer] at ha
    split at ha
    · cases ha
    · next hcr =>
      have hnone : s.crash = none := by simpa using hcr
      have hafter : s.after sid cfg f = f.applyAll (perform sid cfg s.now f s.call).2 := by
        rw [after, hnone]
        rfl
      rw [hc] at ha hafter
      rw [hafter]
      exact enqueue_pending hf (Option.some.inj ha)
  · intro id t ht hopen hnone
    rw [messageState_eq hf.sound.rooted] at ht
    rw [messageState_eq (s.intact hf hs).sound.rooted, Option.map_eq_none_iff] at hnone
    obtain ⟨r, hr, rfl⟩ := Option.map_eq_some_iff.mp ht
    obtain ⟨st, l, hmv, hst, -⟩ := s.moves sid cfg hf.sound.rooted hf.sound.clean hs.spareState id
    rw [hst] at hnone
    have hturn : ∀ {ws}, ((standing id f.journal).turn ws).last ≠ none := fun hn => by
      rw [Standing.turn_last _ _ hn] at hr
      cases hr
    cases hmv with
    | part => exact absurd hnone hturn
    | compacted pristine hws hc =>
      obtain ⟨settled, hset, -⟩ := hc
      rcases Standing.compacted_last hnone with hn | hk
      · exact absurd hn hturn
      · generalize s.call = c at *
        cases hws with
        | quiet => rw [Standing.turn_nil, Standing.kept_of_open hr hopen] at hk; cases hk
        | acked => exact .inr (.inl ⟨_, rfl⟩)
        | expired => exact .inr (.inr rfl)
        | retried hf => rcases hf with ⟨reason, rfl, -⟩ | ⟨rfl, -⟩ <;> cases hset
        | gaveUp hf => rcases hf with ⟨reason, rfl, -⟩ | ⟨rfl, -⟩ <;> cases hset
        | _ => cases hset
    | interrupted => exact absurd hnone hturn
    | purged hc => exact .inl hc
    | halfPurged hc => exact .inl hc

/-- A condition of the steps, with an invariant they keep. -/
theorem Along.imp {P Q : Step → Files → Prop} {I : Files → Prop} {steps : List Step}
    (hstep : ∀ s f, I f → P s f → I (s.after sid cfg f)) (hq : ∀ s f, I f → P s f → Q s f)
    (h : I f) (hp : Along sid cfg P f steps) : Along sid cfg Q f steps := by
  induction steps generalizing f with
  | nil => trivial
  | cons s steps ih => exact ⟨hq s f h hp.1, ih (hstep s f h hp.1) hp.2⟩

/-- One message is in flight when the process dies between the two rows of another one. -/
def halfEnqueuedSteps : List Step :=
  [⟨5, .enqueue ⟨"m", none, "s", "hi", 5, 0, none⟩, none⟩, ⟨5, .dequeue, none⟩,
    ⟨6, .enqueue ⟨"b", none, "s", "hi", 6, 0, none⟩, some ⟨1, none⟩⟩]

/-- A shut message is answered by no dequeue. -/
theorem Shut.not_returned (hf : f.Intact) (h : Shut f id) (T : Int) :
    ¬ Returned sid cfg T id f := by
  rintro ⟨steps, now, m, hall, -, -, hm, hid⟩
  have hkeep : ∀ (s : Step) (f : Files), f.Intact ∧ Shut f id → s.Takes →
      (s.after sid cfg f).Intact ∧ Shut (s.after sid cfg f) id := by
    rintro s f ⟨hf, h⟩ ⟨hc, hcall⟩
    refine ⟨s.intact hf (Step.clean_of_whole hc), Step.shut hf (Step.clean_of_whole hc) h ⟨?_, ?_⟩⟩
    · intro reason hn
      rw [hn] at hcall
      rcases hcall with h | h <;> cases h
    · intro m hn
      rw [hn] at hcall
      rcases hcall with h | h <;> cases h
  obtain ⟨-, hshut⟩ := run_induction hkeep ⟨hf, h⟩
    (along_of_forall sid cfg fun s hs => (hall s hs).1)
  obtain ⟨-, r, hr, hst, -⟩ := nextMessage_eq_some (dequeue_answer hm)
  rw [hid] at hr
  exact hshut.not_pending hr hst

/-- A message is taken out, its attempt fenced, and the process dies. -/
def fencedSteps : List Step :=
  [⟨5, .enqueue ⟨"m", none, "s", "hi", 5, 0, none⟩, none⟩, ⟨5, .dequeue, none⟩,
    ⟨5, .beginNonRetryableAttempt "m", none⟩, ⟨6, .messageState "m", some ⟨0, none⟩⟩]

theorem clean_fenced : Along "s" .default (Step.Clean "s" .default) .absent fencedSteps :=
  ⟨Step.clean_of_whole rfl, Step.clean_of_whole rfl, Step.clean_of_whole rfl,
    ⟨fun w hw => (by cases hw), fun w hw => (by cases hw), fun h => (by cases h)⟩, trivial⟩

end Telepty.Mailbox
