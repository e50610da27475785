import Telepty.Mailbox.Intact
import Telepty.Mailbox.Terminal

/-!
# Bounded retries

A message that waits in the mailbox is taken, fails, waits for its backoff and is taken again, until
its last attempt fails. `attend` watches one message over a run of dequeues, nacks and recoveries and
notes what happens to it.

The backoff is computed with 32-bit integers: the wait after the 32nd failure is negative, so the
waits grow only as far as a message cannot fail more often.
-/

namespace Telepty.Mailbox.Backoff

open Infra

/-! ## What happens to a message -/

inductive Event where
  /-- A dequeue took the message. -/
  | taken (now : Int)
  /-- An attempt failed; the message waits until `due`, or was dead-lettered. -/
  | failed (now : Int) (due : Option Int)

/-- The calls that take messages and make them fail. -/
def attempting : Call → Bool
  | .dequeue | .nack _ _ | .recoverInflight => true
  | _ => false

/-- Whether an answer is message `id`. -/
def takes (id : Text) : Answer → Bool
  | .message (some m) => m.msgId = id
  | _ => false

/-- Whether a call is a failed attempt of message `id`: a nack of it, or a recovery that finds it in
flight for too long. -/
def fails (cfg : Config) (id : Text) (now : Int) (f : Files) : Call → Bool
  | .nack i _ => i = id && !((loadStates f.journal).get? id).any fun r => r.state = .deadLetter
  | .recoverInflight => ((loadStates f.journal).get? id).any fun r =>
      r.state = .inFlight && cfg.inflightTimeoutSecs ≤ now - r.ts
  | _ => false

/-- When a pending message is due. -/
def dueAt (id : Text) (f : Files) : Option Int :=
  if messageState id f = some .pending then (latestOf id f.messages).map (·.createdAt) else none

/-- The event that a call is for message `id`. -/
def eventOf (sid : Text) (cfg : Config) (id : Text) (f : Files) (c : Int × Call) : List Event :=
  if takes id (perform sid cfg c.1 f c.2).1 then [.taken c.1]
  else if fails cfg id c.1 f c.2 then
    [.failed c.1 (dueAt id ((Step.whole c.1 c.2).after sid cfg f))]
  else []

/-- A call, each with its time, on a mailbox whose message `id` is watched. -/
def attend (sid : Text) (cfg : Config) (id : Text) (w : Files × List Event) (c : Int × Call) :
    Files × List Event :=
  ((Step.whole c.1 c.2).after sid cfg w.1, w.2 ++ eventOf sid cfg id w.1 c)

/-- The files after a run of calls, and the events of message `id`. -/
def attendAll (sid : Text) (cfg : Config) (id : Text) (f : Files) (calls : List (Int × Call)) :
    Files × List Event := calls.foldl (attend sid cfg id) (f, [])

/-- The times at which the message was taken. -/
def taken (es : List Event) : List Int :=
  es.filterMap fun e => match e with
    | .taken now => some now
    | _ => none

/-- The times at which its attempts failed. -/
def failures (es : List Event) : List Int :=
  es.filterMap fun e => match e with
    | .failed now _ => some now
    | _ => none

/-- How long it waits after each of the failures. -/
def waits (es : List Event) : List Int :=
  es.filterMap fun e => match e with
    | .failed now (some due) => some (due - now)
    | _ => none

/-- How many attempts of a message can fail, from its row `m` on. -/
def allowed (cfg : Config) (m : Message) : Nat := max 1 (cfg.maxRetries - m.attempt)

/-- The message with the row `m` waits in the mailbox. -/
structure Waiting (m : Message) (f : Files) : Prop where
  intact : f.Intact
  latest : latestOf m.msgId f.messages = some m
  pending : Pending m.msgId f

/-- What is promised of the retries of a message. -/
structure Bounded (cfg : Config) (m : Message) (w : Files × List Event) : Prop where
  /-- It is attempted no more than `maxRetries` times, -/
  taken : (taken w.2).length ≤ cfg.maxRetries
  failed : (failures w.2).length ≤ cfg.maxRetries
  /-- is dead-lettered exactly when its last attempt failed, -/
  dead : messageState m.msgId w.1 = some .deadLetter ↔ (failures w.2).length = allowed cfg m
  /-- is not taken before its wait after the `k`-th failure is over, -/
  due : ∀ before now, before ++ [.taken now] <+: w.2 → ∀ k failure,
    (failures before)[k]? = some failure → failure + cfg.retryBackoffSecs * 2 ^ k ≤ now
  /-- and its waits never decrease. -/
  waits : (waits w.2).Pairwise (· ≤ ·)

/-- What is promised of the retries under a configuration: over every run of attempts, from any
mailbox in which the message waits, whose clock does not go back. -/
def Meets (cfg : Config) : Prop :=
  ∀ (sid : Text) (m : Message) (f : Files) (calls : List (Int × Call)), Waiting m f →
    (∀ c ∈ calls, attempting c.2) → (calls.map Prod.fst).Pairwise (· ≤ ·) →
    Bounded cfg m (attendAll sid cfg m.msgId f calls)

/-! ## One call -/

section

variable {sid : Text} {cfg : Config} {f : Files} {id : Text} {now : Int}

/-- What a call does to a message whose last row is `r` and whose latest row in the inbox is `l`: the
event, and the rows afterwards. -/
inductive Change (cfg : Config) (id : Text) (now : Int) (r : StateRow) (l : Message) :
    List Event → StateRow → Message → Prop where
  | quiet : Change cfg id now r l [] r l
  | taken (hr : r.state = .pending) (hd : l.createdAt ≤ now) :
    Change cfg id now r l [.taken now] (plainRow id .inFlight now) l
  | retried (hr : r.state ≠ .deadLetter) (ha : l.attempt + 1 < cfg.maxRetries) :
    Change cfg id now r l [.failed now (some (l.next cfg now).createdAt)] (plainRow id .pending now)
      (l.next cfg now)
  | gaveUp (hr : r.state ≠ .deadLetter) (ha : cfg.maxRetries ≤ l.attempt + 1) :
    Change cfg id now r l [.failed now none] (plainRow id .deadLetter now) l

/-- A call that does to the message one of the changes. -/
def Changes (sid : Text) (cfg : Config) (id : Text) (now : Int) (f : Files) (c : Call) (r : StateRow)
    (l : Message) : Prop :=
  ∃ r' l', Change cfg id now r l (eventOf sid cfg id f (now, c)) r' l' ∧
    (standing id ((Step.whole now c).after sid cfg f).journal).last = some r' ∧
    latestOf id ((Step.whole now c).after sid cfg f).messages = some l'

variable (id) in
/-- The rows of a message after a call that appends rows. -/
theorem after_appends (hf : f.Intact) {c : Call} (ha : ∀ w ∈ (perform sid cfg now f c).2, w.appends) :
    standing id ((Step.whole now c).after sid cfg f).journal
        = (standing id f.journal).turn ((perform sid cfg now f c).2.filter (Write.about id)) ∧
      latestOf id ((Step.whole now c).after sid cfg f).messages
        = (inboxRows ((perform sid cfg now f c).2.filter (Write.about id))).foldl
            (fun l m => some (later l m)) (latestOf id f.messages) := by
  have hafter : (Step.whole now c).after sid cfg f = f.applyAll (perform sid cfg now f c).2 := rfl
  rw [hafter, (f.applyAll_state _ hf.sound.clean).1, (f.applyAll_inbox _ hf.inbox).1]
  refine ⟨standing_appends id _ ha _, ?_⟩
  rw [latestOf_eq_foldl, rowsOf_appends id _ ha, List.foldl_append, ← latestOf_eq_foldl]

/-- The rows of a failed attempt about its message. -/
theorem retry_filter {l : Message} (hid : l.msgId = id) (reason : Text) :
    (retry cfg now l reason).filter (Write.about id)
      = if cfg.maxRetries ≤ l.attempt + 1 then [.appendState (plainRow id .deadLetter now)]
        else [.appendState (plainRow id .nacked now), .appendInbox (l.next cfg now),
          .appendState (plainRow id .pending now)] := by
  subst hid
  rw [retry]
  split
  · rw [List.filter_cons_of_neg (by simp [Write.about]),
      filter_about_self (by simp [Write.about, plainRow])]
  · rw [filter_about_self (by simp [Write.about, plainRow])]
    rfl

theorem dueAt_of_pending (hf : f.Intact) {r : StateRow} {l : Message}
    (hr : (standing id f.journal).last = some r) (hp : r.state = .pending)
    (hl : latestOf id f.messages = some l) : dueAt id f = some l.createdAt := by
  rw [dueAt, messageState_eq hf.sound.rooted, hr, Option.map_some, hp, if_pos rfl, hl, Option.map_some]

theorem dueAt_of_dead (hf : f.Intact) {r : StateRow}
    (hr : (standing id f.journal).last = some r) (hp : r.state = .deadLetter) : dueAt id f = none := by
  rw [dueAt, messageState_eq hf.sound.rooted, hr, Option.map_some, hp, if_neg (by decide)]

/-- A call that writes nothing about the message, and is no event for it. -/
theorem change_quiet (hf : f.Intact) {c : Call} {r : StateRow} {l : Message}
    (hr : (standing id f.journal).last = some r) (hl : latestOf id f.messages = some l)
    (ha : ∀ w ∈ (perform sid cfg now f c).2, w.appends)
    (hw : (perform sid cfg now f c).2.filter (Write.about id) = [])
    (he : eventOf sid cfg id f (now, c) = []) :
    Changes sid cfg id now f c r l := by
  obtain ⟨hst, hla⟩ := after_appends id hf ha
  rw [Changes, hst, hla, hw, he]
  exact ⟨r, l, .quiet, hr, hl⟩

/-- A failed attempt. -/
theorem change_failed (reason : Text) (hf : f.Intact) {c : Call} {r : StateRow} {l : Message}
    (hl : latestOf id f.messages = some l) (hdead : r.state ≠ .deadLetter)
    (ha : ∀ w ∈ (perform sid cfg now f c).2, w.appends)
    (hw : (perform sid cfg now f c).2.filter (Write.about id)
      = (retry cfg now l reason).filter (Write.about id))
    (ht : takes id (perform sid cfg now f c).1 = false) (he : fails cfg id now f c = true) :
    Changes sid cfg id now f c r l := by
  obtain ⟨hst, hla⟩ := after_appends id hf ha
  have hf' : ((Step.whole now c).after sid cfg f).Intact := Step.intact hf (Step.clean_of_whole rfl)
  rw [hw, retry_filter (mem_of_latestOf hl).2] at hst hla
  rw [Changes, eventOf, ht, he, if_neg Bool.false_ne_true, if_pos rfl]
  split at hst
  · next hge =>
    rw [if_pos hge, hl] at hla
    have hst := congrArg Standing.last hst
    refine ⟨_, l, ?_, hst, hla⟩
    rw [dueAt_of_dead hf' hst rfl]
    exact .gaveUp hdead hge
  · next hlt =>
    rw [if_neg hlt, hl] at hla
    have hst := congrArg Standing.last hst
    have hla : latestOf id ((Step.whole now c).after sid cfg f).messages = some (l.next cfg now) := by
      rw [hla]
      exact congrArg some (if_pos (Nat.lt_succ_self _))
    refine ⟨_, _, ?_, hst, hla⟩
    rw [dueAt_of_pending hf' hst rfl hla]
    exact .retried hdead (Nat.not_le.mp hlt)

/-- A mailbox that holds a row has its directory. -/
theorem dir_of_last (hf : f.Intact) {r : StateRow} (hr : (standing id f.journal).last = some r) :
    f.dir = true := by
  cases hd : f.dir with
  | true => rfl
  | false =>
    rw [hf.sound.rooted hd] at hr
    cases hr

variable (sid) in
theorem dequeue_changes (hf : f.Intact) {r : StateRow} {l : Message}
    (hr : (standing id f.journal).last = some r) (hl : latestOf id f.messages = some l) :
    Changes sid cfg id now f .dequeue r l := by
  cases hn : nextMessage now f with
  | none =>
    have hp : perform sid cfg now f .dequeue = (.message none, []) := by
      rw [perform, dequeue, hn]
      split <;> rfl
    refine change_quiet hf hr hl ?_ ?_ ?_
    · rw [hp]
      simp
    · rw [hp]
      rfl
    · rw [eventOf, hp]
      rfl
  | some m =>
    have hp : perform sid cfg now f .dequeue
        = (.message (some m), [.appendState (plainRow m.msgId .inFlight now)]) :=
      dequeue_of_next hf.sound hn
    have ha : ∀ w ∈ (perform sid cfg now f .dequeue).2, w.appends := by
      rw [hp]
      simp [Write.appends]
    by_cases hid : m.msgId = id
    · obtain ⟨hml, r', hr', hst, hd⟩ := nextMessage_eq_some hn
      rw [hid] at hml hr'
      have hrr : r' = r := Option.some.inj (hr'.symm.trans hr)
      have hml : m = l := Option.some.inj (hml.symm.trans hl)
      have hlast := after_appends id hf ha
      rw [hp, filter_about_self (by simp [Write.about, plainRow, hid]), hid] at hlast
      refine ⟨plainRow id .inFlight now, l, ?_, congrArg Standing.last hlast.1, ?_⟩
      · rw [eventOf, hp, if_pos (by simp [takes, hid])]
        exact .taken (hrr ▸ hst) (hml ▸ hd)
      · rw [hlast.2]
        exact hl
    · refine change_quiet hf hr hl ha ?_ ?_
      · rw [hp]
        exact filter_about_none (by simp [Write.about, plainRow, hid])
      · rw [eventOf, hp, if_neg (by simp [takes, hid])]
        rfl

variable (cfg now f) in
/-- A nack answers nothing, and writes nothing or the rows of a failed attempt. -/
theorem nack_cases (i reason : Text) :
    (nack cfg now i reason f).1 = .done ∧
      ((nack cfg now i reason f).2 = [] ∨ ∃ m, m.msgId = i ∧
        (nack cfg now i reason f).2
          = retry cfg now m (reasonOr reason "max_retries exhausted")) := by
  rw [nack]
  split
  · exact ⟨rfl, .inl rfl⟩
  · split
    · exact ⟨rfl, .inl rfl⟩
    · split
      · exact ⟨rfl, .inl rfl⟩
      · next m hm => exact ⟨rfl, .inr ⟨m, (mem_of_latestOf hm).2, rfl⟩⟩

variable (sid) in
theorem nack_changes (hf : f.Intact) (i reason : Text) {r : StateRow} {l : Message}
    (hr : (standing id f.journal).last = some r) (hl : latestOf id f.messages = some l) :
    Changes sid cfg id now f (.nack i reason) r l := by
  have hp : perform sid cfg now f (.nack i reason) = nack cfg now i reason f := rfl
  obtain ⟨hdone, hws⟩ := nack_cases cfg f now i reason
  have ht : takes id (perform sid cfg now f (.nack i reason)).1 = false := by
    rw [hp, hdone]
    rfl
  have ha : ∀ w ∈ (perform sid cfg now f (.nack i reason)).2, w.appends := by
    rw [hp]
    rcases hws with hws | ⟨m, -, hws⟩
    · rw [hws]
      exact fun w hw => absurd hw List.not_mem_nil
    · rw [hws]
      exact (retry_about cfg now m _).1
  by_cases hid : i = id
  · subst hid
    have hstate : (loadStates f.journal).get? i = some r := by rw [← standing_last, hr]
    by_cases hdead : r.state = .deadLetter
    · refine change_quiet hf hr hl ha ?_ ?_
      · rw [hp, nack, hstate, if_neg (by simp [dir_of_last hf hr]), if_pos (by simp [hdead])]
        rfl
      · rw [eventOf, ht, if_neg Bool.false_ne_true, if_neg (by simp [fails, hstate, hdead])]
    · refine change_failed (reasonOr reason "max_retries exhausted") hf hl hdead ha ?_ ht
        (by simp [fails, hstate, hdead])
      rw [hp, nack, hstate, if_neg (by simp [dir_of_last hf hr]), if_neg (by simp [hdead]), hl]
  · refine change_quiet hf hr hl ha ?_ ?_
    · rw [hp]
      rcases hws with hws | ⟨m, hm, hws⟩
      · rw [hws]
        rfl
      · rw [hws]
        exact (retry_about cfg now m _).2 id (by rw [hm]; exact Ne.symm hid)
    · rw [eventOf, ht, if_neg Bool.false_ne_true, if_neg (by simp [fails, hid])]

variable (sid) in
theorem recoverInflight_changes (hf : f.Intact) {r : StateRow} {l : Message}
    (hr : (standing id f.journal).last = some r) (hl : latestOf id f.messages = some l)
    (hm : r.state = .inFlight → r.mark ≠ .nonRetryableAttempt) :
    Changes sid cfg id now f .recoverInflight r l := by
  have hstate : (loadStates f.journal).get? id = some r := by rw [← standing_last, hr]
  have hp : perform sid cfg now f .recoverInflight = recoverInflight cfg now f := rfl
  have ht : takes id (perform sid cfg now f .recoverInflight).1 = false := by
    rw [hp, recoverInflight]
    split <;> rfl
  have ha : ∀ w ∈ (perform sid cfg now f .recoverInflight).2, w.appends := by
    rw [hp, recoverInflight, if_neg (by simp [dir_of_last hf hr])]
    exact (recoverEntries_about cfg now _ f).1
  have hw : (perform sid cfg now f .recoverInflight).2.filter (Write.about id)
      = (recoverEntry cfg now f id r).filter (Write.about id) := recoverInflight_filter hf hr
  by_cases hlate : r.state = .inFlight ∧ cfg.inflightTimeoutSecs ≤ now - r.ts
  · refine change_failed "inflight_timeout" hf hl (by rw [hlate.1]; decide) ha ?_ ht
      (by simp [fails, hstate, hlate.1, hlate.2])
    rw [hw, recoverEntry, if_pos hlate, hl]
    dsimp only
    rw [if_neg (hm hlate.1)]
  · refine change_quiet hf hr hl ha ?_ ?_
    · rw [hw, recoverEntry, if_neg hlate]
      rfl
    · rw [eventOf, ht, if_neg Bool.false_ne_true, if_neg (by simpa [fails, hstate] using hlate)]

variable (sid) in
/-- **What an attempting call does to a message** that no delivery holds. -/
theorem attempting_changes (hf : f.Intact) {c : Call} (hc : attempting c) {r : StateRow}
    {l : Message} (hr : (standing id f.journal).last = some r) (hl : latestOf id f.messages = some l)
    (hm : r.state = .inFlight → r.mark ≠ .nonRetryableAttempt) : Changes sid cfg id now f c r l := by
  cases c with
  | dequeue => exact dequeue_changes sid hf hr hl
  | nack i reason => exact nack_changes sid hf i reason hr hl
  | recoverInflight => exact recoverInflight_changes sid hf hr hl hm
  | _ => cases hc

/-- An accepted message waits in the mailbox, as it was sent. -/
theorem waiting_of_enqueued {m : Message} {pending : Nat} (hf : f.Intact)
    (hrow : rowsOf m.msgId f.messages = [])
    (ha : (perform sid cfg now f (.enqueue m)).1 = .enqueued true pending) :
    Waiting { m with recipient := sid } ((Step.whole now (.enqueue m)).after sid cfg f) := by
  have hws : (perform sid cfg now f (.enqueue m)).2 = (if f.dir then [] else [Write.mkdir]) ++
      [.appendInbox { m with recipient := sid },
        .appendState (Message.firstRow { m with recipient := sid } now)] := by
    rw [perform, enqueue] at ha ⊢
    dsimp only at ha ⊢
    split at ha
    · cases ha
    · next hnew =>
      split at ha
      · cases ha
      · next hfresh => rw [if_neg hnew, if_neg hfresh]
  have hmk : (if f.dir then [] else [Write.mkdir]).filter (Write.about m.msgId) = [] := by
    cases f.dir <;> rfl
  have happ : ∀ w ∈ (perform sid cfg now f (.enqueue m)).2, w.appends := by
    rw [hws]
    cases f.dir <;> simp [Write.appends]
  obtain ⟨hst, hla⟩ := after_appends m.msgId hf happ
  rw [hws, List.filter_append, hmk, List.nil_append,
    filter_about_self (by simp [Write.about, Message.firstRow])] at hst hla
  refine ⟨Step.intact hf (Step.clean_of_whole rfl), ?_, _, congrArg Standing.last hst, rfl⟩
  have hnone : latestOf m.msgId f.messages = none := by
    rw [latestOf_eq_foldl, hrow]
    rfl
  rw [hnone] at hla
  exact hla

end

/-! ## Runs -/

section

variable {sid : Text} {cfg : Config} {m : Message} {f : Files} {es : List Event}

@[simp] theorem taken_append (es es' : List Event) : taken (es ++ es') = taken es ++ taken es' :=
  List.filterMap_append

@[simp] theorem failures_append (es es' : List Event) :
    failures (es ++ es') = failures es ++ failures es' := List.filterMap_append

@[simp] theorem waits_append (es es' : List Event) : waits (es ++ es') = waits es ++ waits es' :=
  List.filterMap_append

@[simp] theorem taken_taken (now : Int) : taken [.taken now] = [now] := rfl

@[simp] theorem taken_failed (now : Int) (due : Option Int) : taken [.failed now due] = [] := rfl

@[simp] theorem failures_taken (now : Int) : failures [.taken now] = [] := rfl

@[simp] theorem failures_failed (now : Int) (due : Option Int) :
    failures [.failed now due] = [now] := rfl

@[simp] theorem waits_taken (now : Int) : waits [.taken now] = [] := rfl

@[simp] theorem waits_retried (now due : Int) : waits [.failed now (some due)] = [due - now] := rfl

@[simp] theorem waits_gaveUp (now : Int) : waits [.failed now none] = [] := rfl

theorem attendAll_concat (id : Text) (calls : List (Int × Call)) (c : Int × Call) :
    attendAll sid cfg id f (calls ++ [c]) = attend sid cfg id (attendAll sid cfg id f calls) c :=
  List.foldl_append

/-- The waits after `n` failures. -/
def backoffs (cfg : Config) (m : Message) (n : Nat) : List Int :=
  (List.range n).map fun i => cfg.backoff (m.attempt + i + 1)

theorem backoffs_succ (n : Nat) :
    backoffs cfg m (n + 1) = backoffs cfg m n ++ [cfg.backoff (m.attempt + n + 1)] := by
  rw [backoffs, List.range_succ, List.map_append]
  rfl

/-- Where the message is after the events `es`, with the last row `r` and the latest row `l`. -/
inductive Phase (cfg : Config) (m : Message) (es : List Event) (r : StateRow) (l : Message) : Prop where
  | pending (hr : r.state = .pending) (hl : l.attempt = m.attempt + (failures es).length)
    (hk : (failures es).length < allowed cfg m) (ht : (taken es).length ≤ (failures es).length)
    (hw : waits es = backoffs cfg m (failures es).length)
  | inFlight (hr : r.state = .inFlight) (hm : r.mark ≠ .nonRetryableAttempt)
    (hl : l.attempt = m.attempt + (failures es).length)
    (hk : (failures es).length < allowed cfg m) (ht : (taken es).length ≤ (failures es).length + 1)
    (hw : waits es = backoffs cfg m (failures es).length)
  | dead (hr : r.state = .deadLetter) (hk : (failures es).length = allowed cfg m)
    (ht : (taken es).length ≤ (failures es).length)
    (hw : waits es = backoffs cfg m ((failures es).length - 1))

/-- The waits double as far as a message can fail. -/
structure Doubling (cfg : Config) : Prop where
  nonneg : 0 ≤ cfg.retryBackoffSecs
  short : cfg.maxRetries ≤ 32 ∨ cfg.retryBackoffSecs = 0

theorem Doubling.backoff_eq (h : Doubling cfg) {n : Nat} (hn : n + 1 < cfg.maxRetries) :
    cfg.backoff (n + 1) = cfg.retryBackoffSecs * 2 ^ n := by
  rcases h.short with hs | hs
  · rw [Config.backoff, Nat.add_sub_cancel, shiftLeftOne, Nat.mod_eq_of_lt (by omega),
      if_neg (by omega)]
  · rw [Config.backoff, hs, Int.zero_mul, Int.zero_mul]

/-- Every wait that the events announce is over at `now`. -/
def Over (cfg : Config) (es : List Event) (now : Int) : Prop :=
  ∀ k failure, (failures es)[k]? = some failure → failure + cfg.retryBackoffSecs * 2 ^ k ≤ now

/-- The invariant of a run whose calls came at `times`. -/
structure Kept (cfg : Config) (m : Message) (times : List Int) (f : Files) (es : List Event) : Prop where
  intact : f.Intact
  phase : ∃ r l, (standing m.msgId f.journal).last = some r ∧ latestOf m.msgId f.messages = some l ∧
    Phase cfg m es r l ∧ (Doubling cfg → r.state = .pending → Over cfg es l.createdAt)
  times : failures es ⊆ times
  due : Doubling cfg → ∀ before now, before ++ [.taken now] <+: es → Over cfg before now

theorem kept_of_waiting (h : Waiting m f) : Kept cfg m [] f [] where
  intact := h.intact
  phase := by
    obtain ⟨r, hr, hp⟩ := h.pending
    refine ⟨r, m, hr, h.latest, .pending hp rfl ?_ (Nat.le_refl 0) rfl, ?_⟩
    · exact Nat.lt_of_lt_of_le Nat.zero_lt_one (Nat.le_max_left 1 _)
    · intro _ _ k failure hk
      cases hk
  times := List.Subset.refl []
  due := fun _ before now h => by simp at h

/-- The waits that a new failure leaves are no shorter than those before. -/
theorem Over.retried (hd : Doubling cfg) {l : Message} {now : Int}
    (hl : l.attempt = m.attempt + (failures es).length) (ha : l.attempt + 1 < cfg.maxRetries)
    (hle : ∀ t ∈ failures es, t ≤ now) (due : Option Int) :
    Over cfg (es ++ [.failed now due]) (l.next cfg now).createdAt := by
  intro k failure hk
  have hk : (failures es ++ [now])[k]? = some failure := by rw [← hk, failures_append]; rfl
  have hkl : k ≤ (failures es).length ∧ failure ≤ now := by
    obtain ⟨hlt, -⟩ := List.getElem?_eq_some_iff.mp hk
    refine ⟨by simpa using Nat.le_of_lt_succ (by simpa using hlt), ?_⟩
    rcases List.mem_append.mp (List.mem_of_getElem? hk) with hm | hm
    · exact hle _ hm
    · exact Int.le_of_eq (List.mem_singleton.mp hm)
  have hpow : (2 : Int) ^ k ≤ 2 ^ l.attempt := by
    exact_mod_cast Nat.pow_le_pow_right Nat.zero_lt_two (show k ≤ l.attempt by omega)
  calc failure + cfg.retryBackoffSecs * 2 ^ k
      ≤ now + cfg.retryBackoffSecs * 2 ^ l.attempt :=
        Int.add_le_add hkl.2 (Int.mul_le_mul_of_nonneg_left hpow hd.nonneg)
    _ = (l.next cfg now).createdAt := by rw [← hd.backoff_eq ha]; rfl

/-- An event after the others is no dequeue, or the waits are over. -/
theorem due_concat {e : Event} (h : ∀ before now, before ++ [.taken now] <+: es → Over cfg before now)
    (he : ∀ now, e = .taken now → Over cfg es now) :
    ∀ before now, before ++ [.taken now] <+: es ++ [e] → Over cfg before now := by
  intro before now hp
  rcases List.prefix_concat_iff.mp hp with hp | hp
  · obtain ⟨rfl, hn⟩ := List.append_inj' hp rfl
    exact he now (List.singleton_inj.mp hn).symm
  · exact h before now hp

/-- **A call keeps the invariant.** -/
theorem Kept.attend {times : List Int} (h : Kept cfg m times f es) {c : Int × Call}
    (hc : attempting c.2) (hle : ∀ t ∈ times, t ≤ c.1) :
    Kept cfg m (times ++ [c.1]) ((Step.whole c.1 c.2).after sid cfg f)
      (es ++ eventOf sid cfg m.msgId f c) := by
  obtain ⟨now, c⟩ := c
  obtain ⟨r, l, hr, hl, hph, hover⟩ := h.phase
  have hmark : r.state = .inFlight → r.mark ≠ .nonRetryableAttempt := by
    intro hst
    cases hph with
    | pending hr' => rw [hst] at hr'; cases hr'
    | inFlight _ hm => exact hm
    | dead hr' => rw [hst] at hr'; cases hr'
  obtain ⟨r', l', hch, hr', hl'⟩ := attempting_changes sid h.intact hc hr hl hmark
  have hf' : ((Step.whole now c).after sid cfg f).Intact :=
    Step.intact h.intact (Step.clean_of_whole rfl)
  have hold : failures es ⊆ times ++ [now] := fun t ht => List.mem_append_left _ (h.times ht)
  have hle' : ∀ t ∈ failures es, t ≤ now := fun t ht => hle t (h.times ht)
  -- a failed attempt of a message that is not dead-lettered
  have halive : r.state ≠ .deadLetter → l.attempt = m.attempt + (failures es).length ∧
      (failures es).length < allowed cfg m ∧ (taken es).length ≤ (failures es).length + 1 ∧
      waits es = backoffs cfg m (failures es).length := by
    intro hne
    cases hph with
    | pending hst ha hk ht hw => exact ⟨ha, hk, Nat.le_succ_of_le ht, hw⟩
    | inFlight hst hm ha hk ht hw => exact ⟨ha, hk, ht, hw⟩
    | dead hst => exact absurd hst hne
  generalize eventOf sid cfg m.msgId f (now, c) = ev at hch ⊢
  cases hch with
  | quiet =>
    rw [List.append_nil]
    exact ⟨hf', ⟨r, l, hr', hl', hph, hover⟩, hold, h.due⟩
  | taken hst hd =>
    refine ⟨hf', ⟨_, _, hr', hl', ?_, fun _ hp => by cases hp⟩, ?_, fun hdb => ?_⟩
    · cases hph with
      | pending hst' ha hk ht hw =>
        exact .inFlight rfl (fun hm => by cases hm) (by simpa using ha) (by simpa using hk)
          (by simpa using ht) (by simpa using hw)
      | inFlight hst' => rw [hst] at hst'; cases hst'
      | dead hst' => rw [hst] at hst'; cases hst'
    · rw [failures_append, failures_taken, List.append_nil]
      exact hold
    · refine due_concat (h.due hdb) fun t ht => ?_
      rw [← Event.taken.inj ht]
      exact fun k failure hk => Int.le_trans (hover hdb hst k failure hk) hd
  | retried hst ha =>
    obtain ⟨hatt, hk, ht, hw⟩ := halive hst
    have hlt : (failures es).length + 1 < allowed cfg m := by
      rw [allowed]
      omega
    refine ⟨hf', ⟨_, _, hr', hl', .pending rfl ?_ (by simpa using hlt) (by simpa using ht) ?_,
      fun hdb _ => Over.retried hdb hatt ha hle' _⟩, ?_, fun hdb => ?_⟩
    · simp only [Message.next, hatt, failures_append, failures_failed, List.length_append,
        List.length_cons, List.length_nil]
      omega
    · simp only [waits_append, waits_retried, failures_append, failures_failed, List.length_append,
        List.length_cons, List.length_nil, backoffs_succ, hw, Message.next, hatt]
      congr 2
      omega
    · rw [failures_append]
      exact List.append_subset.mpr ⟨hold, List.subset_append_right _ _⟩
    · exact due_concat (h.due hdb) fun t ht => by cases ht
  | gaveUp hst ha =>
    obtain ⟨hatt, hk, ht, hw⟩ := halive hst
    have hlast : (failures es).length + 1 = allowed cfg m := by
      rw [allowed] at hk ⊢
      omega
    refine ⟨hf', ⟨_, _, hr', hl', .dead rfl (by simpa using hlast) (by simpa using ht)
      (by simpa using hw), fun _ hp => by cases hp⟩, ?_, fun hdb => ?_⟩
    · rw [failures_append]
      exact List.append_subset.mpr ⟨hold, List.subset_append_right _ _⟩
    · exact due_concat (h.due hdb) fun t ht => by cases ht

variable (sid cfg) in
/-- **The invariant holds after every run of attempts.** -/
theorem kept_attendAll (h : Waiting m f) {calls : List (Int × Call)}
    (hc : ∀ c ∈ calls, attempting c.2) (ht : (calls.map Prod.fst).Pairwise (· ≤ ·)) :
    Kept cfg m (calls.map Prod.fst) (attendAll sid cfg m.msgId f calls).1
      (attendAll sid cfg m.msgId f calls).2 := by
  induction calls using List.reverseRecOn with
  | nil => exact kept_of_waiting h
  | append_singleton calls c ih =>
    rw [List.map_append, List.pairwise_append] at ht
    rw [attendAll_concat, List.map_append]
    exact (ih (fun x hx => hc x (List.mem_append_left _ hx)) ht.1).attend
      (hc c (List.mem_append_right _ List.mem_cons_self))
      fun t htm => ht.2.2 t htm c.1 List.mem_cons_self

end

/-! ## What is promised -/

section

variable {cfg : Config} {m : Message}

theorem allowed_le (m : Message) (hr : 1 ≤ cfg.maxRetries) : allowed cfg m ≤ cfg.maxRetries := by
  rw [allowed]
  omega

/-- The waits of a message grow as far as they double. -/
theorem Doubling.pairwise_backoffs (h : Doubling cfg) {n : Nat} (hn : n < allowed cfg m) :
    (backoffs cfg m n).Pairwise (· ≤ ·) := by
  rw [backoffs, List.pairwise_map]
  refine List.pairwise_lt_range.imp_of_mem fun {i j} hi hj hij => ?_
  have hj : j + 1 < allowed cfg m := by
    have := List.mem_range.mp hj
    omega
  rw [allowed] at hj
  rw [h.backoff_eq (by omega), h.backoff_eq (by omega)]
  have hpow : (2 : Int) ^ (m.attempt + i) ≤ 2 ^ (m.attempt + j) := by
    exact_mod_cast Nat.pow_le_pow_right Nat.zero_lt_two (show m.attempt + i ≤ m.attempt + j by omega)
  exact Int.mul_le_mul_of_nonneg_left hpow h.nonneg

theorem Kept.bounded {times : List Int} {f : Files} {es : List Event} (h : Kept cfg m times f es)
    (hr : 1 ≤ cfg.maxRetries) (hd : Doubling cfg) : Bounded cfg m (f, es) := by
  obtain ⟨r, l, hlast, hl, hph, -⟩ := h.phase
  have hle := allowed_le m hr
  have hstate : messageState m.msgId f = some r.state := by
    rw [messageState_eq h.intact.sound.rooted, hlast, Option.map_some]
  cases hph with
  | pending hst ha hk ht hw =>
    refine ⟨by dsimp only; omega, by dsimp only; omega, iff_of_false ?_ (Nat.ne_of_lt hk), h.due hd,
      hw ▸ hd.pairwise_backoffs hk⟩
    rw [hstate, hst]
    decide
  | inFlight hst hm ha hk ht hw =>
    refine ⟨by dsimp only; omega, by dsimp only; omega, iff_of_false ?_ (Nat.ne_of_lt hk), h.due hd,
      hw ▸ hd.pairwise_backoffs hk⟩
    rw [hstate, hst]
    decide
  | dead hst hk ht hw =>
    have hlt : (failures es).length - 1 < allowed cfg m := by
      rw [hk, allowed]
      omega
    exact ⟨by dsimp only; omega, by dsimp only; omega, iff_of_true (by rw [hstate, hst]) hk, h.due hd,
      hw ▸ hd.pairwise_backoffs hlt⟩

/-! ## Many failures -/

/-- `n` nacks of a message, all at once. -/
def nacks (id : Text) (n : Nat) : List (Int × Call) := List.replicate n (0, .nack id [])

theorem nacks_attempting (id : Text) (n : Nat) : ∀ c ∈ nacks id n, attempting c.2 := by
  intro c hc
  rw [List.eq_of_mem_replicate hc]
  rfl

theorem nacks_times (id : Text) (n : Nat) : ((nacks id n).map Prod.fst).Pairwise (· ≤ ·) := by
  rw [nacks, List.map_replicate, List.pairwise_replicate]
  exact .inr (Int.le_refl 0)

/-- A message that is not dead-lettered fails once more. -/
theorem failures_nacks (sid : Text) {f : Files} (h : Waiting m f) {n : Nat} (hn : n ≤ allowed cfg m) :
    (failures (attendAll sid cfg m.msgId f (nacks m.msgId n)).2).length = n := by
  induction n with
  | zero => rfl
  | succ n ih =>
    have ih := ih (Nat.le_of_succ_le hn)
    have hkept := kept_attendAll sid cfg h (nacks_attempting m.msgId n)
      (nacks_times m.msgId n)
    obtain ⟨r, l, hlast, -, hph, -⟩ := hkept.phase
    have hst : r.state ≠ .deadLetter := by
      cases hph with
      | pending hst => rw [hst]; decide
      | inFlight hst => rw [hst]; decide
      | dead _ hk => omega
    rw [nacks, List.replicate_succ', attendAll_concat, attend, failures_append, ← nacks,
      List.length_append, ih, eventOf, if_neg, if_pos]
    · rfl
    · rw [fails, ← standing_last, hlast]
      simp [hst]
    · rw [perform, (nack_cases _ _ _ _ _).1]
      simp [takes]

variable (cfg) in
/-- The waits after failures that leave the message alive. -/
theorem waits_nacks (sid : Text) {f : Files} (h : Waiting m f) {n : Nat} (hn : n < allowed cfg m) :
    waits (attendAll sid cfg m.msgId f (nacks m.msgId n)).2 = backoffs cfg m n := by
  have hlen := failures_nacks sid h (Nat.le_of_lt hn)
  obtain ⟨r, l, -, -, hph, -⟩ := (kept_attendAll sid cfg h
    (nacks_attempting m.msgId n) (nacks_times m.msgId n)).phase
  cases hph with
  | pending _ _ _ _ hw => rw [hw, hlen]
  | inFlight _ _ _ _ _ hw => rw [hw, hlen]
  | dead _ hk => omega

/-- **The 32nd wait is negative**, so a message that fails so often waits less than before. -/
theorem not_meets (hr : 32 < cfg.maxRetries) (hb : 0 < cfg.retryBackoffSecs) {f : Files}
    (h : Waiting m f) (ha : m.attempt = 0) : ¬ Meets cfg := by
  intro hmeets
  have hall : 32 < allowed cfg m := by
    rw [allowed, ha]
    omega
  have hw := (hmeets [] m f _ h (nacks_attempting m.msgId 32) (nacks_times m.msgId 32)).waits
  rw [waits_nacks cfg [] h hall, backoffs_succ, backoffs_succ, List.append_assoc,
    List.pairwise_append] at hw
  have hlast := (List.pairwise_cons.mp hw.2.1).1 _ List.mem_cons_self
  rw [ha, Config.backoff, Config.backoff,
    show shiftLeftOne (0 + 30 + 1 - 1) = 1073741824 by decide,
    show shiftLeftOne (0 + 31 + 1 - 1) = -2147483648 by decide] at hlast
  omega

end

/-- A new message, and the mailbox that it was put into. -/
def newMessage : Message := ⟨"m", none, "s", "hi", 0, 0, none⟩

def newMailbox : Files := (Step.whole 0 (.enqueue newMessage)).after "s" .default .absent

theorem waiting_new : Waiting newMessage newMailbox where
  intact := Step.intact Files.intact_absent (Step.clean_of_whole rfl)
  latest := by
    have hm : newMailbox.messages = [newMessage] :=
      (Files.absent.applyAll_inbox _ Files.inboxClean_absent).1
    rw [hm]
    rfl
  pending := ⟨newMessage.firstRow 0, by decide +kernel, rfl⟩

/-- **The retries of every message are bounded, wait and wait longer**, exactly where `maxRetries` is
no more than 32, or where there is no wait. -/
theorem meets_iff (cfg : Config) (hr : 1 ≤ cfg.maxRetries) (hb : 0 ≤ cfg.retryBackoffSecs) :
    Meets cfg ↔ cfg.maxRetries ≤ 32 ∨ cfg.retryBackoffSecs = 0 := by
  constructor
  · intro h
    by_cases hlong : 32 < cfg.maxRetries
    · by_cases hpos : 0 < cfg.retryBackoffSecs
      · exact absurd h (not_meets hlong hpos waiting_new rfl)
      · exact .inr (Int.le_antisymm (Int.not_lt.mp hpos) hb)
    · exact .inl (Nat.not_lt.mp hlong)
  · intro hshort sid m f calls hw hc ht
    exact (kept_attendAll sid cfg hw hc ht).bounded hr ⟨hb, hshort⟩

theorem meets_iff_default :
    1 ≤ Config.default.maxRetries ∧ (Meets .default ↔ (3 ≤ 32 ∨ (1 : Int) = 0)) :=
  ⟨by decide, meets_iff .default (by decide) (by decide)⟩

/-- Thirty-three attempts, with a wait of one second after the first. -/
def manyRetries : Config := { Config.default with maxRetries := 33 }

/-- After its 32nd failure the message is due 68 years before that failure. -/
theorem wait_negative : ¬ Meets manyRetries ∧
    (waits (attendAll "s" manyRetries "m" newMailbox (nacks "m" 32)).2).getLast?
      = some (-2147483648) := by
  refine ⟨not_meets (by decide) (by decide) waiting_new rfl, ?_⟩
  have hw := waits_nacks manyRetries "s" waiting_new (show 32 < allowed manyRetries newMessage by decide)
  exact hw ▸ by decide

end Telepty.Mailbox.Backoff
