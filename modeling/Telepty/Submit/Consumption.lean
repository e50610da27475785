import Telepty.Session.StateMachine
import Telepty.Submit.Echo

/-!
# Consumption evidence

After the CR of an inject the gate watches the state of the recipient for a while. A turn that
starts now has consumed the body; a recipient that was busy at the CR has only queued it.

Whether it was busy then is found out later, from the state that is read first and the time at which
that state was entered. A change between `working` and `thinking` starts this time anew.

* `step_keeps` — the state of a machine, and when it was entered
* `neverFalse_iff` — just when a recipient that was busy at the CR is not taken for one that
  consumed the body
-/

namespace Telepty.Submit

open Infra

/-! ## Timelines -/

/-- `ACCEPTED_AFTER_SUBMIT_STATES.has(state)` -/
def isBusy (s : SessionState.State) : Bool :=
  s = .working || s = .thinking

/-- The states of a session, moment by moment. A moment is what lies between two things that happen
to it; the clock may read the same at several moments. -/
structure Timeline where
  state : Nat → SessionState.State
  since : Nat → Int
  clock : Nat → Int
  clock_le : ∀ n, clock n ≤ clock (n + 1)
  /-- as `_transition` does -/
  step : ∀ n, (state (n + 1) = state n ∧ since (n + 1) = since n) ∨
    (state (n + 1) ≠ state n ∧ since (n + 1) = clock (n + 1))

namespace Timeline

theorem clock_mono (t : Timeline) {m n : Nat} (h : m ≤ n) : t.clock m ≤ t.clock n := by
  induction h with
  | refl => exact Int.le_refl _
  | step _ ih => exact Int.le_trans ih (t.clock_le _)

/-- The session is in `working` or `thinking`. -/
def busy (t : Timeline) (n : Nat) : Bool := isBusy (t.state n)

/-- A session that gets busy enters a busy state on the way. -/
theorem exists_entry (t : Timeline) {m n : Nat} (hmn : m ≤ n) (hm : t.busy m = false)
    (hn : t.busy n = true) :
    ∃ j, m ≤ j ∧ j < n ∧ t.busy j = false ∧ t.busy (j + 1) = true := by
  induction hmn with
  | refl =>
    rw [hm] at hn
    exact absurd hn Bool.false_ne_true
  | @step n hmn ih =>
    cases hb : t.busy n with
    | false => exact ⟨n, hmn, Nat.lt_succ_self n, hb, hn⟩
    | true =>
      obtain ⟨j, hmj, hjn, hj⟩ := ih hb
      exact ⟨j, hmj, Nat.lt_succ_of_lt hjn, hj⟩

end Timeline

/-! ### The timeline of a machine -/

/-- What an operation makes of the state: it stays, with its time, or another one is entered. -/
def Keeps (c : SessionState.Clock) (m m' : SessionState.Machine) : Prop :=
  (m'.state = m.state ∧ m'.since = m.since) ∨ (m'.state ≠ m.state ∧ m'.since = c.since)

theorem keeps_transition (c : SessionState.Clock) (s : SessionState.State) (confidence : Int)
    (detail : SessionState.Detail) {m m' : SessionState.Machine} (hstate : m'.state = m.state)
    (hsince : m'.since = m.since) :
    Keeps c m (SessionState.transition c s confidence detail m') := by
  unfold SessionState.transition
  split
  · exact .inl ⟨hstate, hsince⟩
  next hne => exact .inr ⟨hstate ▸ hne, rfl⟩

/-- The readings of the clock in an operation. -/
def clockOf : SessionState.Act → Option SessionState.Clock
  | .feed c _ | .tick c | .markIdle c _ _ | .markStarting c | .markDead c _ _
  | .markTerminationRequested c _ _ | .markRestarting c => some c
  | .reconfigure _ => none

section

variable (toLowerCase : Units → Units)

theorem keeps_detect (c : SessionState.Clock) {m m' : SessionState.Machine}
    (hstate : m'.state = m.state) (hsince : m'.since = m.since) :
    Keeps c m (SessionState.detect toLowerCase c m') := by
  unfold SessionState.detect
  simp only
  split
  · exact keeps_transition c _ _ _ hstate hsince
  · split
    · exact keeps_transition c _ _ _ hstate hsince
    · split
      · exact keeps_transition c _ _ _ hstate hsince
      · exact keeps_transition c _ _ _ hstate hsince

theorem keeps_feed (c : SessionState.Clock) (data : Option Units) (m : SessionState.Machine) :
    Keeps c m (SessionState.feed toLowerCase c data m) := by
  unfold SessionState.feed
  split
  · exact .inl ⟨rfl, rfl⟩
  · exact .inl ⟨rfl, rfl⟩
  · simp only
    split
    · exact keeps_transition c _ _ _ rfl rfl
    · split
      · exact .inl ⟨rfl, rfl⟩
      · split
        · exact .inl ⟨rfl, rfl⟩
        · exact keeps_detect toLowerCase c rfl rfl

theorem keeps_tick (c : SessionState.Clock) (m : SessionState.Machine) :
    Keeps c m (SessionState.tick c m) := by
  unfold SessionState.tick SessionState.quiet
  simp only
  split
  · exact .inl ⟨rfl, rfl⟩
  · split
    · exact keeps_transition c _ _ _ rfl rfl
    · split
      · split
        · exact .inl ⟨rfl, rfl⟩
        · split
          · exact .inl ⟨rfl, rfl⟩
          · exact keeps_transition c _ _ _ rfl rfl
      · exact .inl ⟨rfl, rfl⟩

/-- **One operation of the machine.** -/
theorem step_keeps (m : SessionState.Machine) (a : SessionState.Act) (now : Int)
    (h : ∀ c, clockOf a = some c → c.since = now) :
    ((SessionState.step toLowerCase m a).state = m.state ∧
        (SessionState.step toLowerCase m a).since = m.since) ∨
      ((SessionState.step toLowerCase m a).state ≠ m.state ∧
        (SessionState.step toLowerCase m a).since = now) := by
  have of_keeps : ∀ {c m'}, clockOf a = some c → Keeps c m m' →
      (m'.state = m.state ∧ m'.since = m.since) ∨ (m'.state ≠ m.state ∧ m'.since = now) := by
    intro c m' hc hkeeps
    rw [← h c hc]
    exact hkeeps
  cases a with
  | feed c data => exact of_keeps rfl (keeps_feed toLowerCase c data m)
  | tick c => exact of_keeps rfl (keeps_tick c m)
  | markIdle c confidence fields =>
    refine of_keeps (c := c) rfl ?_
    unfold SessionState.step SessionState.markIdle
    simp only
    split
    · exact .inl ⟨rfl, rfl⟩
    · exact keeps_transition c _ _ _ rfl rfl
  | reconfigure config => exact .inl ⟨rfl, rfl⟩
  | markStarting c => exact of_keeps rfl (keeps_transition c _ _ _ rfl rfl)
  | markDead c exitCode signal => exact of_keeps rfl (keeps_transition c _ _ _ rfl rfl)
  | markTerminationRequested c reason killError =>
    exact of_keeps rfl (keeps_transition c _ _ _ rfl rfl)
  | markRestarting c => exact of_keeps rfl (keeps_transition c _ _ _ rfl rfl)

/-- The machine after the first operations of a run. -/
def machineAt (m : SessionState.Machine) (acts : Nat → SessionState.Act) : Nat → SessionState.Machine
  | 0 => m
  | n + 1 => SessionState.step toLowerCase (machineAt m acts n) (acts n)

/-- The timeline of a machine whose clock does not go back. -/
def timelineOf (m : SessionState.Machine) (acts : Nat → SessionState.Act) (clock : Nat → Int)
    (clock_le : ∀ n, clock n ≤ clock (n + 1))
    (reads : ∀ n c, clockOf (acts n) = some c → c.since = clock (n + 1)) : Timeline where
  state n := (machineAt toLowerCase m acts n).state
  since n := (machineAt toLowerCase m acts n).since
  clock := clock
  clock_le := clock_le
  step n := step_keeps toLowerCase _ (acts n) _ (reads n)

end

/-! ## The classification -/

/-- What the gate reads of `getState()`. -/
structure Reading where
  state : SessionState.State
  sinceMs : Int

inductive Status where
  | consumed
  | queued
  | unknown
  deriving DecidableEq

structure Consumption where
  status : Status
  reason : Text
  waitedMs : Int
  deriving DecidableEq

structure Options where
  timeoutMs : Int := 1200
  settleMs : Int := 250
  minChars : Nat := 24
  submittedAtMs : Int
  sinceBytes : Option Int

/-- One round of the loop: what `getState()` returns, none where there is no such function, the
clock where the time that has passed is taken and where the function returns a turn that started,
and the ring. -/
structure Round where
  reading : Option Reading
  nowMs : Int
  returnedMs : Int
  session : Session

def stateText : SessionState.State → Text
  | .starting => "starting"
  | .idle => "idle"
  | .working => "working"
  | .thinking => "thinking"
  | .waiting => "waiting"
  | .error => "error"
  | .restarting => "restarting"
  | .dead => "dead"

/-- `startedBusy` -/
def startedBusy (submittedAtMs : Int) (initial : Option Reading) : Bool :=
  initial.any fun st => isBusy st.state && st.sinceMs < submittedAtMs

/-- A turn that has started since the CR. -/
def freshTurn (submittedAtMs : Int) (st : Reading) : Bool :=
  isBusy st.state && submittedAtMs ≤ st.sinceMs

section

variable (stripAnsi : Units → Units)

/-- The loop. It is still running where the rounds come to an end. -/
def watch (opts : Options) (bodyText : Units) (startedBusy : Bool) (start : Int) :
    List Round → Option Consumption
  | [] => none
  | r :: rounds =>
    match if startedBusy then none else r.reading.filter (freshTurn opts.submittedAtMs) with
    | some st => some ⟨.consumed, "turn_started_" ++ stateText st.state, r.returnedMs - start⟩
    | none =>
      let elapsed := r.nowMs - start
      let parked := (observeInjectEcho stripAnsi opts.minChars (some r.session) opts.sinceBytes
        bodyText).observed
      if startedBusy && opts.settleMs ≤ elapsed && parked then
        some ⟨.queued, "busy_parked", elapsed⟩
      else if opts.timeoutMs ≤ elapsed then
        if parked then
          some ⟨.queued, if startedBusy then "busy_parked" else "body_parked", elapsed⟩
        else some ⟨.unknown, if startedBusy then "busy_no_evidence" else "no_turn", elapsed⟩
      else watch opts bodyText startedBusy start rounds

/-- `classifyInjectConsumption(session, bodyText, opts)`; `initial` is the state that is read first,
`start` the clock after that. -/
def classifyInjectConsumption (opts : Options) (session : Option Session) (bodyText : Units)
    (initial : Option Reading) (start : Int) (rounds : List Round) : Option Consumption :=
  let body := normalize bodyText
  if body.length = 0 then some ⟨.unknown, "empty_body", 0⟩
  else if body.length < opts.minChars then some ⟨.unknown, "body_too_short", 0⟩
  else if (session.bind Session.outputRing).isNone then some ⟨.unknown, "no_ring", 0⟩
  else watch stripAnsi opts bodyText (startedBusy opts.submittedAtMs initial) start rounds

end

/-! ## Calls -/

/-- A round, at its moment. -/
structure Look where
  moment : Nat
  nowMs : Int
  returnedMs : Int
  session : Session

/-- A call for a session with the timeline `t`, made at the CR or after it. -/
structure Call (t : Timeline) where
  /-- the moment of the CR -/
  cr : Nat
  /-- the moment of the first reading -/
  first : Nat
  start : Int
  looks : List Look
  ordered : (cr :: first :: looks.map Look.moment).Pairwise (· ≤ ·)
  timeoutMs : Int
  settleMs : Int
  minChars : Nat
  sinceBytes : Option Int
  session : Option Session
  bodyText : Units

namespace Call

variable {t : Timeline} (c : Call t)

def readingAt (t : Timeline) (n : Nat) : Reading := ⟨t.state n, t.since n⟩

def roundAt (t : Timeline) (l : Look) : Round :=
  ⟨some (readingAt t l.moment), l.nowMs, l.returnedMs, l.session⟩

def options : Options where
  timeoutMs := c.timeoutMs
  settleMs := c.settleMs
  minChars := c.minChars
  submittedAtMs := t.clock c.cr
  sinceBytes := c.sinceBytes

def result (stripAnsi : Units → Units) : Option Consumption :=
  classifyInjectConsumption stripAnsi c.options c.session c.bodyText (some (readingAt t c.first))
    c.start (c.looks.map (roundAt t))

/-- The rounds that the loop comes to: none after the one that finds the time over. -/
def inTime (timeoutMs start : Int) : List Look → List Look
  | [] => []
  | l :: looks => l :: if timeoutMs ≤ l.nowMs - start then [] else inTime timeoutMs start looks

theorem mem_of_mem_inTime {timeoutMs start : Int} {l : Look} :
    ∀ {looks : List Look}, l ∈ inTime timeoutMs start looks → l ∈ looks
  | x :: looks, h => by
    rw [inTime, List.mem_cons] at h
    rcases h with rfl | h
    · exact List.mem_cons_self ..
    · split at h
      · exact nomatch h
      · exact List.mem_cons_of_mem _ (mem_of_mem_inTime h)

/-- `consumed` is said of a recipient that was not busy at the CR and got busy since. -/
def NeverFalse (stripAnsi : Units → Units) : Prop :=
  ∀ r, c.result stripAnsi = some r → r.status = .consumed →
    t.busy c.cr = false ∧
      ∃ j, c.cr ≤ j ∧ t.busy j = false ∧ t.busy (j + 1) = true ∧ t.clock c.cr ≤ t.clock (j + 1)

/-- The body is one that can be looked for. -/
def Classifies : Prop :=
  0 < (normalize c.bodyText).length ∧ c.minChars ≤ (normalize c.bodyText).length ∧
    (c.session.bind Session.outputRing).isSome

/-- The recipient is busy at the CR, but not in a busy state of before the CR when the state is first
read, and in time it is in one that it has entered since. -/
def Mistaken : Prop :=
  c.Classifies ∧ t.busy c.cr = true ∧ ¬ (t.busy c.first = true ∧ t.since c.first < t.clock c.cr) ∧
    ∃ l ∈ inTime c.timeoutMs c.start c.looks,
      t.busy l.moment = true ∧ t.clock c.cr ≤ t.since l.moment

end Call

/-! ## When a turn is claimed -/

section

variable {stripAnsi : Units → Units} {t : Timeline}

theorem freshTurn_iff {submittedAtMs : Int} {n : Nat} :
    freshTurn submittedAtMs (Call.readingAt t n) = true ↔
      t.busy n = true ∧ submittedAtMs ≤ t.since n := by
  rw [freshTurn, Bool.and_eq_true, decide_eq_true_eq]
  rfl

theorem startedBusy_iff {submittedAtMs : Int} {n : Nat} :
    startedBusy submittedAtMs (some (Call.readingAt t n)) = true ↔
      t.busy n = true ∧ t.since n < submittedAtMs := by
  simp [startedBusy, Call.readingAt, Timeline.busy]

/-- A recipient that started busy is never said to have consumed the body. -/
theorem watch_startedBusy {opts : Options} {bodyText : Units} {start : Int} {r : Consumption} :
    ∀ {rounds : List Round}, watch stripAnsi opts bodyText true start rounds = some r →
      r.status ≠ .consumed
  | [], h => nomatch h
  | round :: rounds, h => by
    simp only [watch, if_true] at h
    split at h
    · obtain rfl := Option.some.inj h
      exact nofun
    · split at h
      · split at h
        · obtain rfl := Option.some.inj h
          exact nofun
        · obtain rfl := Option.some.inj h
          exact nofun
      · exact watch_startedBusy h

/-- The loop of another recipient finds a turn just when one of the rounds in time does. -/
theorem watch_consumed_iff (opts : Options) (bodyText : Units) (start : Int) :
    ∀ looks : List Look,
      (∃ r, watch stripAnsi opts bodyText false start (looks.map (Call.roundAt t)) = some r ∧
          r.status = .consumed) ↔
        ∃ l ∈ Call.inTime opts.timeoutMs start looks,
          t.busy l.moment = true ∧ opts.submittedAtMs ≤ t.since l.moment
  | [] => by
    refine iff_of_false ?_ ?_
    · rintro ⟨r, hr, -⟩
      exact nomatch hr
    · rintro ⟨l, hl, -⟩
      exact nomatch hl
  | l :: looks => by
    have hfresh : freshTurn opts.submittedAtMs (Call.readingAt t l.moment) = true ↔ _ :=
      freshTurn_iff
    simp only [List.map_cons, watch, Call.roundAt, Bool.false_eq_true, if_false, Bool.false_and,
      Option.filter_some, Call.inTime]
    split
    next st hst =>
      -- this round finds a turn
      have hturn : freshTurn opts.submittedAtMs (Call.readingAt t l.moment) = true := by
        by_contra hne
        rw [if_neg hne] at hst
        exact nomatch hst
      exact iff_of_true ⟨_, rfl, rfl⟩ ⟨l, List.mem_cons_self .., hfresh.mp hturn⟩
    next hst =>
      have hturn : ¬ freshTurn opts.submittedAtMs (Call.readingAt t l.moment) = true := by
        intro h
        rw [if_pos h] at hst
        exact nomatch hst
      have hl : ¬ (t.busy l.moment = true ∧ opts.submittedAtMs ≤ t.since l.moment) :=
        fun h => hturn (hfresh.mpr h)
      split
      · refine iff_of_false ?_ ?_
        · split
          · rintro ⟨_, ⟨⟩, h⟩
            exact nomatch h
          · rintro ⟨_, ⟨⟩, h⟩
            exact nomatch h
        · rintro ⟨l', hl', h⟩
          rw [List.mem_singleton.mp hl'] at h
          exact hl h
      · refine (watch_consumed_iff opts bodyText start looks).trans ?_
        simp only [List.mem_cons, exists_eq_or_imp, hl, false_or]

theorem classify_of_classifies (c : Call t) (h : c.Classifies) :
    c.result stripAnsi = watch stripAnsi c.options c.bodyText
      (startedBusy (t.clock c.cr) (some (Call.readingAt t c.first))) c.start
      (c.looks.map (Call.roundAt t)) := by
  obtain ⟨hpos, hlong, hring⟩ := h
  have hlong : ¬ (normalize c.bodyText).length < c.options.minChars := Nat.not_lt.mpr hlong
  unfold Call.result classifyInjectConsumption
  simp only
  rw [if_neg (Nat.ne_of_gt hpos), if_neg hlong, if_neg]
  · rfl
  · rw [Option.isNone_eq_false_iff.mpr hring]
    exact Bool.false_ne_true

theorem not_consumed_of_not_classifies (c : Call t) (h : ¬ c.Classifies) {r : Consumption}
    (hr : c.result stripAnsi = some r) : r.status ≠ .consumed := by
  unfold Call.result classifyInjectConsumption at hr
  simp only at hr
  split at hr
  · obtain rfl := Option.some.inj hr
    exact nofun
  next hpos =>
    split at hr
    · obtain rfl := Option.some.inj hr
      exact nofun
    next hlong =>
      split at hr
      · obtain rfl := Option.some.inj hr
        exact nofun
      next hring =>
        refine absurd ⟨Nat.pos_of_ne_zero hpos, Nat.not_lt.mp hlong, ?_⟩ h
        exact Option.isNone_eq_false_iff.mp (Bool.eq_false_of_not_eq_true hring)

/-- The calls that claim a turn. -/
theorem consumed_iff (stripAnsi : Units → Units) (c : Call t) :
    (∃ r, c.result stripAnsi = some r ∧ r.status = .consumed) ↔
      c.Classifies ∧ ¬ (t.busy c.first = true ∧ t.since c.first < t.clock c.cr) ∧
        ∃ l ∈ Call.inTime c.timeoutMs c.start c.looks,
          t.busy l.moment = true ∧ t.clock c.cr ≤ t.since l.moment := by
  by_cases hclassifies : c.Classifies
  · rw [classify_of_classifies c hclassifies]
    cases hbusy : startedBusy (t.clock c.cr) (some (Call.readingAt t c.first)) with
    | true =>
      refine iff_of_false ?_ fun h => h.2.1 (startedBusy_iff.mp hbusy)
      rintro ⟨r, hr, hstatus⟩
      exact watch_startedBusy hr hstatus
    | false =>
      have hnot : ¬ (t.busy c.first = true ∧ t.since c.first < t.clock c.cr) := by
        intro h
        rw [startedBusy_iff.mpr h] at hbusy
        exact Bool.noConfusion hbusy
      rw [watch_consumed_iff c.options c.bodyText c.start c.looks]
      exact ⟨fun h => ⟨hclassifies, hnot, h⟩, fun h => h.2.2⟩
  · refine iff_of_false ?_ fun h => hclassifies h.1
    rintro ⟨r, hr, hstatus⟩
    exact not_consumed_of_not_classifies c hclassifies hr hstatus

/-- **Never false.** For every timeline and every call, `consumed` is only said of a recipient that
was not busy at the CR, except where it was, the busy state of then is over at the first reading, and
another one that was entered since is read in time. -/
theorem neverFalse_iff (stripAnsi : Units → Units) {t : Timeline} (c : Call t) :
    c.NeverFalse stripAnsi ↔ ¬ c.Mistaken := by
  have hconsumed := consumed_iff stripAnsi c
  constructor
  · rintro hnever ⟨hclassifies, hbusy, hfirst, hlook⟩
    obtain ⟨r, hr, hstatus⟩ := hconsumed.mpr ⟨hclassifies, hfirst, hlook⟩
    rw [(hnever r hr hstatus).1] at hbusy
    exact Bool.noConfusion hbusy
  · intro hmistaken r hr hstatus
    obtain ⟨hclassifies, hfirst, l, hl, hlook⟩ := hconsumed.mp ⟨r, hr, hstatus⟩
    have hcr : t.busy c.cr = false := by
      cases hbusy : t.busy c.cr with
      | false => rfl
      | true => exact absurd ⟨hclassifies, hbusy, hfirst, l, hl, hlook⟩ hmistaken
    have hmoment : c.cr ≤ l.moment := by
      have := (List.pairwise_cons.mp c.ordered).1 l.moment
      exact this (List.mem_cons_of_mem _ (List.mem_map_of_mem (Call.mem_of_mem_inTime hl)))
    obtain ⟨j, hj, -, hnot, hentered⟩ := t.exists_entry hmoment hcr hlook.1
    exact ⟨hcr, j, hj, hnot, hentered, t.clock_mono (Nat.le_succ_of_le hj)⟩

end

/-- A recipient at work since 200 that starts to think at 1001; the CR is at 1000. -/
def flips : Timeline where
  state n := if n = 0 then .working else .thinking
  since n := if n = 0 then 200 else 1001
  clock n := if n = 0 then 1000 else 1001
  clock_le n := by cases n <;> simp
  step n := by cases n <;> simp

/-- The first reading is of the state after the change. -/
def lateCall : Call flips where
  cr := 0
  first := 1
  start := 1002
  looks := [⟨1, 1002, 1002, ⟨some [], some 0⟩⟩]
  ordered := by decide
  timeoutMs := 1200
  settleMs := 250
  minChars := 24
  sinceBytes := some 0
  session := some ⟨some [], some 0⟩
  bodyText := codeUnits "REPORT: done, the tests pass"

/-- It was busy at the CR, and `consumed` is said of it. -/
theorem lateCall_consumed : ¬ lateCall.NeverFalse id := by
  intro h
  have hresult : lateCall.result id = some ⟨.consumed, "turn_started_thinking", 0⟩ := by
    decide +kernel
  exact absurd (h _ hresult rfl).1 (by decide)

end Telepty.Submit
