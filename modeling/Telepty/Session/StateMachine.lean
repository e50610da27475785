import Mathlib.Data.List.Sort
import Telepty.Screen.Registry

/-!
# The state machine of a session

What a session is doing, as far as its output tells: a prompt mark, the patterns of its last line,
repeated errors, silence. The daemon marks what the output cannot tell: the start, a restart, the
end of the process.

Times are in milliseconds, a confidence is in hundredths. `toLowerCase` of a text is a parameter.

* `test_osc133_iff` — a chunk passes the test for a prompt mark just when it has a whole one
* `stays_iff` — a machine that is dead or restarting stays so, over feeds, ticks and idle marks,
  just when no chunk has a whole prompt mark
-/

namespace Telepty.SessionState

open Infra Infra.Regex Screen

/-! ## Patterns -/

/-- `$` -/
def textEnd : Regex CodeUnit := between fun _ b => b.isNone

/-- `$` with the flag `m` -/
def lineEnd : Regex CodeUnit := between fun _ b => b.all CodeUnit.isLineTerminator

/-- `.` -/
def anyChar : Regex CodeUnit := sym fun u => !u.isLineTerminator

/-- `/\w/` -/
def isWord (u : CodeUnit) : Bool :=
  (0x30 ≤ u && u ≤ 0x39) || (0x41 ≤ u && u ≤ 0x5A) || u = 0x5F || (0x61 ≤ u && u ≤ 0x7A)

/-- `\b` -/
def wordBoundary : Regex CodeUnit := between fun a b => a.any isWord != b.any isWord

/-- ` *` -/
def blanks : Regex CodeUnit := star (text " ")

/-- `/\bt\b/i` -/
def wordI (t : Text) : Regex CodeUnit := chain [wordBoundary, textI t, wordBoundary]

/-- `/\bt\b/` -/
def word (t : Text) : Regex CodeUnit := chain [wordBoundary, text t, wordBoundary]

/-- `/\bt\?\s*$/i` -/
def questionI (t : Text) : Regex CodeUnit :=
  chain [wordBoundary, textI t, text "?", star space, textEnd]

/-- `[:\s]*$` -/
def colonEnd : Regex CodeUnit := seq (star (sym fun u => u = unit ':' || u.isSpace)) textEnd

/-- `OSC_133_RE`: `/\x1b\]133;[AB](?:\x07|\x1b\\)/` -/
def osc133Re : Regex CodeUnit :=
  chain [sym (· = esc), sym (· = 0x5D), text "133;", oneOf "AB",
    alt (sym (· = bel)) (chain [sym (· = esc), sym (· = 0x5C)])]

def promptPatterns : List (Regex CodeUnit) :=
  [chain [oneOf "$#%>❯›»", blanks, textEnd],
    chain [text ">>>", blanks, textEnd],
    chain [text "...", blanks, textEnd],
    chain [text "(", star anyChar, text ")", blanks, oneOf "$#>", blanks, textEnd],
    chain [lineStart, text "[", star anyChar, text "@", star anyChar, text "]", oneOf "$#", blanks,
      lineEnd]]

def thinkingPatterns : List (Regex CodeUnit) :=
  [oneOf "⠋⠙⠹⠸⠼⠴⠦⠧⠇⠏", oneOf "⣾⣽⣻⢿⡿⣟⣯⣷", chain [textStart, oneOf "|/-\\", textEnd], oneOf "◐◓◑◒",
    oneOf "⠁⠂⠄⡀⢀⠠⠐⠈", wordI "thinking", wordI "analyzing", wordI "processing", wordI "writing",
    wordI "reading", wordI "searching", wordI "planning", wordI "esc to interrupt",
    chain [wordBoundary, textI "starting mcp server", optional (textI "s"), wordBoundary],
    wordI "booting mcp server", wordI "exploring", chain [atLeast (text ".") 3, star space, textEnd]]

def waitingPatterns : List (Regex CodeUnit) :=
  [textI "[Y/n]", textI "(y/N)", textI "[yes/no]", wordI "press enter", questionI "continue",
    questionI "proceed", questionI "confirm", questionI "overwrite",
    chain [textI "(y)", star space, textEnd], questionI "replace",
    chain [wordBoundary, textI "password", colonEnd],
    chain [wordBoundary, textI "passphrase", colonEnd],
    chain [wordBoundary, textI "token", colonEnd],
    chain [wordBoundary, textI "enter ", star anyChar, colonEnd]]

def errorPatterns : List (Regex CodeUnit) :=
  [chain [wordI "error", oneOf ":["], seq wordBoundary (text "Error:"), word "FAILED", word "failed",
    wordI "panic", wordI "fatal", wordI "EXCEPTION", wordI "traceback", wordI "segmentation fault",
    wordI "command not found", wordI "permission denied", word "ENOENT", word "EACCES",
    word "ECONNREFUSED"]

/-- `ANSI_RE`: a CSI sequence, an OSC ended by BEL, or a charset. -/
def ansiRe : Regex CodeUnit :=
  choice [csiRe, chain [sym (· = esc), sym (· = 0x5D), star (sym (· ≠ bel)), sym (· = bel)],
    charsetRe]

/-- `stripAnsi(str)` -/
def stripAnsi (str : Units) : Units := ansiRe.replace [] str

/-- `_matchesAny(text, patterns)` -/
def matchesAny (t : Units) (patterns : List (Regex CodeUnit)) : Bool := patterns.any fun p => p.test t

/-! ## The machine -/

/-- `STATES` -/
inductive State where
  | starting
  | idle
  | working
  | thinking
  | waiting
  | error
  | restarting
  | dead
  deriving DecidableEq

/-- The states that the daemon manages: `DEAD` and `RESTARTING`. -/
def State.external : State → Bool
  | .dead | .restarting => true
  | _ => false

structure Config where
  idleTimeoutMs : Int
  errorRepeatCount : Nat
  errorWindowMs : Int
  thinkingTimeoutMs : Int
  outputPreviewLen : Nat
  errorDedupLen : Nat
  deriving DecidableEq

/-- `DEFAULT_CONFIG` -/
def defaultConfig : Config := ⟨5000, 3, 180000, 300000, 200, 120⟩

/-- The detail of a state, by its `trigger`. -/
inductive Detail where
  | lifecycleStarting
  | lifecycleRestarting
  | processExit (exitObservedAt : Int) (exitCode : Option Int) (signal : Option Text)
  | terminationRequested (reason : Text) (requestedAt : Int)
  | terminationKillFailed (reason : Text) (requestedAt : Int) (killError : Text)
  | osc133AOrBReceived (timestamp : Int)
  | inputRequestPattern (matchedLine : Units)
  | repeatedErrorPattern (errorFingerprint : Option Units) (repeatCount : Nat) (windowMs : Int)
  | busyIndicatorPattern (matchedLine : Units)
  | outputReceived
  | thinkingTimeout (thinkingDurationMs : Int)
  | quietAfterRecentOsc133AOrB (silenceMs : Int) (lastLine : Units)
  | promptSuffixAfterQuiet (silenceMs : Int) (lastLine : Units)
  | silenceTimeout (silenceMs : Int) (lastLine : Units)
  /-- With the caller's fields, less its own `trigger`. -/
  | manualStateMark (fields : List (Text × Text))
  deriving DecidableEq

structure Line where
  text : Units
  timestamp : Int
  errorTracked : Bool
  deriving DecidableEq

structure Seen where
  fingerprint : Units
  timestamp : Int
  deriving DecidableEq

/-- A call of the listeners. -/
structure Transition where
  left : State
  entered : State
  confidence : Int
  detail : Detail
  deriving DecidableEq

structure Machine where
  config : Config
  state : State
  since : Int
  confidence : Int
  detail : Detail
  lastOutputAt : Int
  lastOutputPreview : Units
  recentLines : List Line
  lastOsc133At : Option Int
  errorHistory : List Seen
  thinkingStartedAt : Option Int
  /-- What the listeners were told, the last first. -/
  told : List Transition
  deriving DecidableEq

/-- The readings of the clock in one call: its own, and those of `_transition`. -/
structure Clock where
  now : Int
  since : Int
  thinking : Int
  deriving DecidableEq

def maxRecentLines : Nat := 50

/-- A time that is there and is not 0. -/
def truthy (t : Option Int) : Option Int := t.filter (· ≠ 0)

/-- `_transition(newState, confidence, detail)` -/
def transition (c : Clock) (newState : State) (confidence : Int) (detail : Detail) (m : Machine) :
    Machine :=
  if newState = m.state then { m with confidence := confidence, detail := detail }
  else
    { m with
      state := newState
      since := c.since
      confidence := confidence
      detail := detail
      thinkingStartedAt :=
        if newState = .thinking then some ((truthy m.thinkingStartedAt).getD c.thinking) else none
      told := ⟨m.state, newState, confidence, detail⟩ :: m.told }

/-- The text of the last of the recent lines, empty if there is none. -/
def lastLine (m : Machine) : Units := (m.recentLines.getLast?.map (·.text)).getD []

/-- `text.slice(-n)` -/
def lastUnits (n : Nat) (t : Units) : Units := if n = 0 then t else t.drop (t.length - n)

variable (toLowerCase : Units → Units)

/-! ### Errors -/

def fingerprintOf (m : Machine) (t : Units) : Units :=
  trimUnits (toLowerCase (t.take m.config.errorDedupLen))

/-- `_trackErrors(now)` -/
def trackErrors (now : Int) (m : Machine) : Machine :=
  let fresh := m.recentLines.filter fun e => !e.errorTracked && matchesAny e.text errorPatterns
  { m with
    errorHistory := m.errorHistory.filter (fun e => now - m.config.errorWindowMs < e.timestamp) ++
      fresh.map fun e => ⟨fingerprintOf toLowerCase m e.text, e.timestamp⟩
    recentLines := m.recentLines.map fun e => { e with errorTracked := true } }

/-- The names among the keys of `counts` that every object inherits: they never count as numbers. -/
def inheritedNames : List Units := [codeUnits "constructor", codeUnits "__proto__"]

/-- The number that the key of an array element stands for. -/
def arrayIndex? (key : Units) : Option Nat :=
  if key ≠ [] ∧ key.all CodeUnit.isDigit ∧ (key.head? = some 0x30 → key = [0x30]) then
    let n := key.foldl (fun n u => 10 * n + (u.toNat - 0x30)) 0
    if n < 2 ^ 32 - 1 then some n else none
  else none

def countOf (history : List Seen) (fingerprint : Units) : Nat :=
  (history.filter fun e => e.fingerprint = fingerprint).length

/-- `Object.entries(counts)`: the keys of array elements by their number, then the others in the
order in which they came. -/
def countEntries (history : List Seen) : List (Units × Nat) :=
  let keys := (history.map (·.fingerprint)).eraseDups.filter (· ∉ inheritedNames)
  let indices := (keys.filter fun k => (arrayIndex? k).isSome).insertionSort fun a b =>
    (arrayIndex? a).getD 0 ≤ (arrayIndex? b).getD 0
  (indices ++ keys.filter fun k => (arrayIndex? k).isNone).map fun k => (k, countOf history k)

/-- The first of the most repeated errors. -/
def mostRepeated (history : List Seen) : Option Units × Nat :=
  (countEntries history).foldl
    (fun best e => if best.2 < e.2 then (some e.1, e.2) else best) (none, 0)

/-- `_checkError(now)` -/
def checkError (m : Machine) : Option (Int × Detail) :=
  if m.errorHistory = [] then none
  else
    let (maxFp, maxCount) := mostRepeated m.errorHistory
    if m.config.errorRepeatCount ≤ maxCount then
      some (min 95 (70 + ((maxCount : Int) - m.config.errorRepeatCount) * 5),
        .repeatedErrorPattern maxFp maxCount m.config.errorWindowMs)
    else none

/-! ### Output and silence -/

/-- `_detect(now)` -/
def detect (c : Clock) (m : Machine) : Machine :=
  let line := lastLine m
  if matchesAny line waitingPatterns then
    transition c .waiting 90 (.inputRequestPattern (line.take 100)) m
  else
    let m := trackErrors toLowerCase c.now m
    match checkError m with
    | some (confidence, detail) => transition c .error confidence detail m
    | none =>
      if matchesAny line thinkingPatterns then
        transition c .thinking 80 (.busyIndicatorPattern (line.take 100)) m
      else transition c .working 90 .outputReceived m

/-- The lines of a text that are not blank. A line break of two symbols leaves an empty one. -/
def linesOf (cleaned : Units) : List Units :=
  (cleaned.splitOnP fun u => u = cr || u = lf).filter fun l => trimUnits l ≠ []

/-- The last output, and what is shown of it. -/
def received (now : Int) (data : Units) (m : Machine) : Machine :=
  { m with
    lastOutputAt := now
    lastOutputPreview := lastUnits m.config.outputPreviewLen (m.lastOutputPreview ++ data) }

/-- The lines of the output are the last ones. -/
def recorded (now : Int) (cleaned : Units) (m : Machine) : Machine :=
  let lines := m.recentLines ++ (linesOf cleaned).map fun l => ⟨trimUnits l, now, false⟩
  { m with recentLines := lines.drop (lines.length - maxRecentLines) }

/-- `feed(data)`, where `data` is `none` when it is no string. -/
def feed (c : Clock) (data : Option Units) (m : Machine) : Machine :=
  match data with
  | none | some [] => m
  | some data =>
    let m := received c.now data m
    if osc133Re.test data then
      transition c .idle 95 (.osc133AOrBReceived c.now) { m with lastOsc133At := some c.now }
    else
      let cleaned := stripAnsi data
      if trimUnits cleaned = [] then m
      else
        let m := recorded c.now cleaned m
        -- the states that are managed externally are looked at only here, behind the mark
        if m.state.external then m else detect toLowerCase c m

/-- What silence of `silenceMs` makes of the machine. -/
def quiet (c : Clock) (silenceMs : Int) (m : Machine) : Machine :=
  let line := lastLine m
  let hasOsc133 := (truthy m.lastOsc133At).any fun t => c.now - t < m.config.idleTimeoutMs * 2
  if m.state = .thinking ∧ hasOsc133 = false then m
  else
    let hasPrompt := matchesAny line promptPatterns
    transition c .idle (if hasOsc133 then 95 else if hasPrompt then 90 else 60)
      (if hasOsc133 then .quietAfterRecentOsc133AOrB silenceMs (line.take 100)
        else if hasPrompt then .promptSuffixAfterQuiet silenceMs (line.take 100)
        else .silenceTimeout silenceMs (line.take 100)) m

/-- How long the machine has been thinking, where that is over the limit. -/
def thinkingOver (now : Int) (m : Machine) : Option Int :=
  if m.state = .thinking then
    ((truthy m.thinkingStartedAt).map fun t => now - t).filter (m.config.thinkingTimeoutMs < ·)
  else none

/-- `_tick(now)` -/
def tick (c : Clock) (m : Machine) : Machine :=
  let silenceMs := c.now - m.lastOutputAt
  if m.state.external ∨ m.state = .starting then m
  else
    match thinkingOver c.now m with
    | some duration => transition c .error 70 (.thinkingTimeout duration) m
    | none =>
      if m.config.idleTimeoutMs < silenceMs then
        if m.state = .error ∨ m.state = .waiting then m else quiet c silenceMs m
      else m

/-! ### Marks -/

/-- `markStarting()` -/
def markStarting (c : Clock) (m : Machine) : Machine :=
  transition c .starting 100 .lifecycleStarting m

/-- `markDead(exitCode, signal)` -/
def markDead (c : Clock) (exitCode : Option Int) (signal : Option Text) (m : Machine) : Machine :=
  transition c .dead 100 (.processExit c.now exitCode signal) m

/-- `markTerminationRequested(reason, killError)` -/
def markTerminationRequested (c : Clock) (reason : Text) (killError : Option Text) (m : Machine) :
    Machine :=
  let reason : Text := if reason = [] then "unspecified" else reason
  transition c .dead 100
    (match killError with
      | some e => .terminationKillFailed reason c.now e
      | none => .terminationRequested reason c.now) m

/-- `markRestarting()` -/
def markRestarting (c : Clock) (m : Machine) : Machine :=
  transition c .restarting 100 .lifecycleRestarting m

/-- `markIdle(confidence, detail)` -/
def markIdle (c : Clock) (confidence : Int) (fields : List (Text × Text)) (m : Machine) : Machine :=
  if m.state.external then m
  else transition c .idle confidence (.manualStateMark (fields.filter (·.1 ≠ "trigger"))) m

/-- `new SessionStateMachine(sessionId, config)` -/
def create (c : Clock) (config : Config) : Machine :=
  markStarting c
    { config := config, state := .starting, since := c.now, confidence := 100
      detail := .lifecycleStarting, lastOutputAt := c.now, lastOutputPreview := []
      recentLines := [], lastOsc133At := none, errorHistory := [], thinkingStartedAt := none
      told := [] }

/-! ## Runs -/

inductive Act where
  | feed (c : Clock) (data : Option Units)
  | tick (c : Clock)
  | markIdle (c : Clock) (confidence : Int) (fields : List (Text × Text))
  | reconfigure (config : Config)
  | markStarting (c : Clock)
  | markDead (c : Clock) (exitCode : Option Int) (signal : Option Text)
  | markTerminationRequested (c : Clock) (reason : Text) (killError : Option Text)
  | markRestarting (c : Clock)

/-- The explicit operations of the lifecycle. -/
def Act.lifecycle : Act → Bool
  | .markStarting _ | .markDead .. | .markTerminationRequested .. | .markRestarting _ => true
  | _ => false

def step (m : Machine) : Act → Machine
  | .feed c data => SessionState.feed toLowerCase c data m
  | .tick c => SessionState.tick c m
  | .markIdle c confidence fields => SessionState.markIdle c confidence fields m
  | .reconfigure config => { m with config := config }
  | .markStarting c => SessionState.markStarting c m
  | .markDead c exitCode signal => SessionState.markDead c exitCode signal m
  | .markTerminationRequested c reason killError =>
    SessionState.markTerminationRequested c reason killError m
  | .markRestarting c => SessionState.markRestarting c m

def run (m : Machine) (acts : List Act) : Machine := acts.foldl (step toLowerCase) m

/-! ## Prompt marks -/

/-- The prompt marks: `A` or `B`, ended by BEL or by ESC and a backslash. -/
def promptMarks : List Units :=
  [[0x41], [0x42]].flatMap fun kind =>
    [[bel], [esc, 0x5C]].map fun terminator =>
      [esc, 0x5D] ++ ("133;" : Text).map unit ++ kind ++ terminator

/-- A chunk with a whole prompt mark in it. -/
def Marked (data : Units) : Prop := ∃ mark ∈ promptMarks, mark <:+: data

theorem reads_osc133 : Reads osc133Re {t | t ∈ promptMarks} := by
  have h := Reads.sym (p := (· = esc)) |>.seq (Reads.sym (p := (· = 0x5D)) |>.seq
    (Reads.literal (("133;" : Text).map unit) |>.seq
      (Reads.sym (p := fun u => (("AB" : Text).map unit).contains u) |>.seq
        (Reads.sym (p := (· = bel)) |>.alt
          (Reads.sym (p := (· = esc)) |>.seq (Reads.sym (p := (· = 0x5C))))))))
  have hA : unit 'A' = 0x41 := by decide
  have hB : unit 'B' = 0x42 := by decide
  refine (Set.ext fun t => ?_ : {t | t ∈ promptMarks} = _) ▸ h
  simp only [promptMarks]
  constructor
  · intro ht
    simp at ht ⊢
    rcases ht with rfl | rfl | rfl | rfl <;> simp [hA, hB]
  · intro ht
    simp at ht ⊢
    obtain ⟨v, (rfl | rfl) | rfl | rfl, rfl⟩ := ht <;> simp [hA, hB]

theorem test_osc133_iff {data : Units} : osc133Re.test data = true ↔ Marked data :=
  reads_osc133.test_iff

/-! ## What keeps a state -/

@[simp] theorem transition_state {c : Clock} {s : State} {confidence : Int} {detail : Detail}
    {m : Machine} : (transition c s confidence detail m).state = s := by
  unfold transition
  split
  · next h => exact h.symm
  · rfl

@[simp] theorem received_state {now : Int} {data : Units} {m : Machine} :
    (received now data m).state = m.state := rfl

@[simp] theorem recorded_state {now : Int} {cleaned : Units} {m : Machine} :
    (recorded now cleaned m).state = m.state := by
  simp only [recorded]

variable {toLowerCase} {m : Machine}

/-- A chunk without a mark leaves an externally managed state. -/
theorem feed_state_of_not_marked (hm : m.state.external = true) (c : Clock) {data : Units}
    (h : ¬ Marked data) : (feed toLowerCase c (some data) m).state = m.state := by
  have htest : osc133Re.test data = false :=
    Bool.eq_false_iff.mpr fun ht => h (test_osc133_iff.mp ht)
  cases data with
  | nil => rfl
  | cons u data =>
    simp only [feed, htest, Bool.false_eq_true, if_false]
    split
    · exact received_state
    · rw [if_pos (by rw [recorded_state, received_state, hm]), recorded_state, received_state]

/-- A chunk with a mark makes any state idle. -/
theorem feed_state_of_marked (c : Clock) {data : Units} (h : Marked data) :
    (feed toLowerCase c (some data) m).state = .idle := by
  have htest : osc133Re.test data = true := test_osc133_iff.mpr h
  cases data with
  | nil => exact absurd htest (by decide)
  | cons u data => simp only [feed, htest, if_true, transition_state]

theorem tick_state (hm : m.state.external = true) (c : Clock) : (tick c m).state = m.state := by
  rw [tick, if_pos (Or.inl hm)]

theorem markIdle_state (hm : m.state.external = true) (c : Clock) (confidence : Int)
    (fields : List (Text × Text)) : (markIdle c confidence fields m).state = m.state := by
  rw [markIdle, if_pos hm]

/-- The action feeds a chunk with a whole prompt mark. -/
def Act.Marks : Act → Prop
  | .feed _ (some data) => Marked data
  | _ => False

theorem step_state_of_not_marks (hm : m.state.external = true) {a : Act}
    (ha : a.lifecycle = false) (h : ¬ a.Marks) : (step toLowerCase m a).state = m.state := by
  cases a with
  | feed c data =>
    cases data with
    | none => rfl
    | some data => exact feed_state_of_not_marked hm c h
  | tick c => exact tick_state hm c
  | markIdle c confidence fields => exact markIdle_state hm c confidence fields
  | reconfigure config => rfl
  | markStarting | markDead | markTerminationRequested | markRestarting => cases ha

theorem step_state_of_marks {a : Act} (h : a.Marks) : (step toLowerCase m a).state = .idle := by
  cases a with
  | feed c data =>
    cases data with
    | none => exact h.elim
    | some data => exact feed_state_of_marked c h
  | _ => exact h.elim

theorem run_state_of_not_marks (hm : m.state.external = true) (acts : List Act)
    (hacts : ∀ a ∈ acts, a.lifecycle = false ∧ ¬ a.Marks) :
    (run toLowerCase m acts).state = m.state := by
  induction acts generalizing m with
  | nil => rfl
  | cons a acts ih =>
    obtain ⟨ha, hmark⟩ := hacts a List.mem_cons_self
    have hstep : (step toLowerCase m a).state = m.state := step_state_of_not_marks hm ha hmark
    have hrest := ih (m := step toLowerCase m a) (by rw [hstep]; exact hm)
      fun b hb => hacts b (List.mem_cons_of_mem _ hb)
    exact hrest.trans hstep

/-- **A machine that is dead or restarting stays so, over feeds, ticks, idle marks and changes of
the configuration, just when no chunk has a whole prompt mark.** -/
theorem stays_iff (toLowerCase : Units → Units) (m : Machine) (acts : List Act)
    (hm : m.state = .dead ∨ m.state = .restarting) (hacts : ∀ a ∈ acts, a.lifecycle = false) :
    (∀ before, before <+: acts → (run toLowerCase m before).state = m.state) ↔
      ∀ c data, .feed c (some data) ∈ acts → ¬ Marked data := by
  have hext : m.state.external = true := by rcases hm with h | h <;> rw [h] <;> rfl
  constructor
  · intro hstay c data hmem hmark
    obtain ⟨before, after, rfl⟩ := List.append_of_mem hmem
    have hidle : (run toLowerCase m (before ++ [.feed c (some data)])).state = .idle := by
      rw [run, List.foldl_append]
      exact step_state_of_marks (a := .feed c (some data)) hmark
    have hsame := hstay (before ++ [.feed c (some data)]) ⟨after, by simp⟩
    rw [← hsame, hidle] at hext
    cases hext
  · intro hno before hbefore
    refine run_state_of_not_marks hext before fun a ha => ?_
    refine ⟨hacts a (hbefore.subset ha), fun hmark => ?_⟩
    cases a with
    | feed c data =>
      cases data with
      | none => exact hmark
      | some data => exact hno c data (hbefore.subset ha) hmark
    | _ => exact hmark

def someClock : Clock := ⟨0, 0, 0⟩

/-- A session whose process has ended. -/
def ended : Machine := markDead someClock (some 0) none (create someClock defaultConfig)

theorem stays_iff_ghost_output :
    (∀ before, before <+: [.feed someClock (some (codeUnits "ghost output"))] →
        (run id ended before).state = ended.state) ↔
      ∀ c data, Act.feed c (some data) ∈ [.feed someClock (some (codeUnits "ghost output"))] →
        ¬ Marked data :=
  stays_iff id ended _ (by decide) (by decide)

/-- The last prompt of a child that has died makes its session idle. -/
theorem late_mark_wakes : ¬ ∀ acts : List Act, (∀ a ∈ acts, a.lifecycle = false) →
    (run id ended acts).state = ended.state := by
  intro h
  have hstate := h [.feed someClock (some [esc, 0x5D, 0x31, 0x33, 0x33, 0x3B, 0x41, bel])] (by decide)
  exact absurd hstate (by decide +kernel)

end Telepty.SessionState
