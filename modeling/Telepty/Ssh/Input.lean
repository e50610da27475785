import Telepty.Infra.Runs
import Telepty.Screen.Registry

/-!
# The input gate of an SSH session

Automated input goes to the remote agent in two writes: the text, once its composer is seen, and
then a lone CR. The gate follows the children of the session, their output and the keys of the
operator, and lets a write through or refuses it.

* `Takes` — what one event can do
* `submitted` — a CR comes right after its text
* `paired` — and no text after a text that was not submitted, where nothing makes the gate forget it
-/

namespace Telepty.Ssh

open Infra Infra.Regex Screen

/-! ## What the output shows -/

/-- `SSH_BLOCKERS` -/
def sshBlockers : Regex CodeUnit :=
  choice (["password:", "passphrase for key", "are you sure you want to continue connecting",
    "host key verification failed", "remote host identification has changed", "permission denied",
    "authentication failed", "connection refused", "could not resolve hostname", "update available",
    "update now", "loading sessions", "resume a previous session"].map textI)

/-- What is left of a text after the last match from the cursor on, `last` if there is none. -/
def afterLastMatch : Nat → Cursor CodeUnit → Option Units → Option Units
  | 0, _, last => last
  | n + 1, c, last =>
    match sshBlockers.exec c.before c.rest with
    | none => last
    | some (_, e) => afterLastMatch n e (some e.rest)

/-- The name of the agent, empty where there is none. -/
def agentName : Option Cli → Units
  | some .claude => codeUnits "claude"
  | some .codex => codeUnits "codex"
  | some .gemini => codeUnits "gemini"
  | none => []

inductive Surface where
  | blocked (reason : Text)
  | composer
  | unknown
  deriving DecidableEq

def Surface.isBlocked : Surface → Bool
  | .blocked _ => true
  | _ => false

/-- What the tail of the output shows: a modal, a blocker without a composer after it, the composer
of the agent, or none of these. -/
def surface (agent : Option Cli) (tail : Units) : Surface :=
  let last := afterLastMatch (tail.length + 1) (.start tail) none
  let afterBlocker := last.getD tail
  let modal := detectSurfaceModal (agentName agent) afterBlocker
  let hit := agent.any fun cli => (cli.detect (normalizeOutputForDetection afterBlocker)).found
  if modal.blocked then .blocked modal.reason
  else if last.isSome && !hit then .blocked "ssh_authentication_or_connection_blocked"
  else if hit then .composer
  else .unknown

/-! ## The gate -/

/-- `PHASES` -/
inductive Phase where
  | connecting
  | unknown
  | ready
  | awaitingSubmit
  | busy
  | blocked
  | reconnecting
  deriving DecidableEq

/-- The variables of `createSshInputState`. A number stands for a child object, `none` for
`null`. -/
structure Gate where
  child : Option Nat
  generation : Nat
  phase : Phase
  reason : Text
  tail : Units
  owed : Bool
  expires : Int
  deriving DecidableEq

/-- The stage that a write is answered with. -/
inductive Stage where
  | refused
  | written
  | unknown
  deriving DecidableEq

/-- The data of a write that submits, `'\r'`. -/
def submit : Units := [cr]

namespace Gate

def created : Gate where
  child := none
  generation := 0
  phase := .connecting
  reason := "waiting_for_composer"
  tail := []
  owed := false
  expires := 0

def update (g : Gate) (next : Phase) (why : Text) : Gate :=
  { g with phase := next, reason := why }

def start (g : Gate) (current : Option Nat) : Gate :=
  { g with child := current, generation := g.generation + 1, tail := [], owed := false }.update
    .connecting "waiting_for_composer"

def exit (g : Gate) (current : Option Nat) : Gate :=
  if current ≠ g.child then g
  else { g with child := none, owed := false, tail := [] }.update .reconnecting "ssh_child_exited"

/-- `(tail + data).slice(-20000)`; what came before the composer was seen is forgotten. -/
def feed (g : Gate) (data : Units) : Units :=
  let tail := (if g.phase = .ready then [] else g.tail) ++ data
  tail.drop (tail.length - 20000)

def output (agent : Option Cli) (g : Gate) (current : Option Nat) (data : Units) : Gate × Bool :=
  if current ≠ g.child then (g, false)
  else
    let tail := g.feed data
    let g := { g with tail }
    match surface agent tail with
    | .blocked why => ({ g with owed := false }.update .blocked why, false)
    | .composer =>
      if g.owed then (g.update .awaitingSubmit "input_written_awaiting_submit", false)
      else (g.update .ready "qualified_remote_composer", true)
    | .unknown =>
      (g.update (if g.owed then .awaitingSubmit else .unknown)
        (if agent.isSome then "waiting_for_composer" else "remote_agent_readiness_unsupported"),
        false)

def localInput (g : Gate) (current : Option Nat) : Gate × Bool :=
  if g.child = none ∨ current ≠ g.child then (g, false)
  else ({ g with owed := false, tail := [] }.update .busy "operator_input", true)

/-- A write goes on to the child. -/
def admits (g : Gate) (current : Option Nat) (data : Units) (nowMs : Int) : Bool :=
  g.child.isSome && current = g.child && g.phase ≠ .blocked && g.phase ≠ .reconnecting &&
    if data = submit then g.owed && nowMs ≤ g.expires else g.phase = .ready

/-- `threw`: the child does not take the data. -/
def write (g : Gate) (current : Option Nat) (data : Units) (threw : Bool) (nowMs : Int) :
    Gate × Stage :=
  if !g.admits current data nowMs then (g, .refused)
  else if threw then
    ({ g with owed := false }.update .unknown "ssh_write_unconfirmed", .unknown)
  else if data = submit then
    ({ g with owed := false, expires := nowMs + 5000, tail := [] }.update .busy "input_submitted",
      .written)
  else
    ({ g with owed := true, expires := nowMs + 5000, tail := [] }.update .awaitingSubmit
      "input_written_awaiting_submit", .written)

end Gate

/-! ## Runs -/

inductive Event where
  | start (current : Option Nat)
  | exit (current : Option Nat)
  | output (current : Option Nat) (data : Units)
  | localInput (current : Option Nat)
  | write (current : Option Nat) (data : Units) (threw : Bool) (nowMs : Int)

/-- What an event does to the child. -/
inductive Effect where
  | quiet
  | started (child : Option Nat)
  | exited (child : Option Nat)
  | blocked
  | localInput (child : Nat)
  | written (child : Nat) (data : Units) (nowMs : Int)
  | unconfirmed (child : Nat) (data : Units) (nowMs : Int)
  deriving DecidableEq

/-- The output leaves a blocker or a modal on the surface of the child. -/
def Gate.blockedBy (agent : Option Cli) (g : Gate) (current : Option Nat) (data : Units) : Bool :=
  current = g.child && (surface agent (g.feed data)).isBlocked

def Gate.take (agent : Option Cli) (g : Gate) : Event → Gate × Effect
  | .start current => (g.start current, .started current)
  | .exit current => (g.exit current, if current = g.child then .exited current else .quiet)
  | .output current data =>
    ((g.output agent current data).1, bif g.blockedBy agent current data then .blocked else .quiet)
  | .localInput current =>
    let r := g.localInput current
    (r.1, match r.2, current with
      | true, some child => .localInput child
      | _, _ => .quiet)
  | .write current data threw nowMs =>
    let r := g.write current data threw nowMs
    (r.1, match r.2, current with
      | .written, some child => .written child data nowMs
      | .unknown, some child => .unconfirmed child data nowMs
      | _, _ => .quiet)

/-- A gate and what its events have done. -/
structure Session where
  gate : Gate
  trace : List Effect
  deriving DecidableEq

def machine (agent : Option Cli) : Automaton Session Event where
  start := ⟨.created, []⟩
  step s e := some ⟨(s.gate.take agent e).1, s.trace ++ [(s.gate.take agent e).2]⟩

/-! ## One event -/

/-- What one event can do. -/
inductive Takes (agent : Option Cli) (g : Gate) : Event → Gate → Effect → Prop where
  | kept {e g'} (child : g'.child = g.child) (owed : g'.owed = g.owed)
      (expires : g'.expires = g.expires)
      (ready : g'.phase = .ready → g.phase = .ready ∨ g.owed = false) :
      Takes agent g e g' .quiet
  | started {current g'} (child : g'.child = current) (owed : g'.owed = false)
      (phase : g'.phase ≠ .ready) : Takes agent g (.start current) g' (.started current)
  | exited {e current g'} (child : g'.child = none) (owed : g'.owed = false)
      (phase : g'.phase ≠ .ready) : Takes agent g e g' (.exited current)
  | blocked {current data g'} (child : g'.child = g.child) (owed : g'.owed = false)
      (phase : g'.phase ≠ .ready) (shown : g.blockedBy agent current data = true) :
      Takes agent g (.output current data) g' .blocked
  | localInput {e c g'} (mine : g.child = some c) (child : g'.child = g.child)
      (owed : g'.owed = false) (phase : g'.phase ≠ .ready) : Takes agent g e g' (.localInput c)
  | unconfirmed {c data nowMs g'} (mine : g.child = some c) (child : g'.child = g.child)
      (owed : g'.owed = false) (phase : g'.phase ≠ .ready)
      (admitted : g.admits (some c) data nowMs = true)
      (due : data = submit → g.owed = true ∧ nowMs ≤ g.expires) :
      Takes agent g (.write (some c) data true nowMs) g' (.unconfirmed c data nowMs)
  | submitted {e c nowMs g'} (mine : g.child = some c) (child : g'.child = g.child)
      (owed : g'.owed = false) (phase : g'.phase ≠ .ready) (due : g.owed = true)
      (inTime : nowMs ≤ g.expires) : Takes agent g e g' (.written c submit nowMs)
  | text {e c data nowMs g'} (mine : g.child = some c) (child : g'.child = g.child)
      (owed : g'.owed = true) (phase : g'.phase ≠ .ready) (expires : g'.expires = nowMs + 5000)
      (ready : g.phase = .ready) (text : data ≠ submit) : Takes agent g e g' (.written c data nowMs)

theorem takes_output (agent : Option Cli) (g : Gate) (current : Option Nat) (data : Units) :
    Takes agent g (.output current data) (g.take agent (.output current data)).1
      (g.take agent (.output current data)).2 := by
  simp only [Gate.take, Gate.output, Gate.blockedBy]
  by_cases hmine : current = g.child
  · subst hmine
    simp only [ne_eq, not_true_eq_false, if_false, decide_true, Bool.true_and]
    cases hsurface : surface agent (g.feed data) with
    | blocked why =>
      refine .blocked rfl rfl (by simp [Gate.update]) ?_
      simp [Gate.blockedBy, hsurface, Surface.isBlocked]
    | composer =>
      by_cases howed : g.owed = true
      · simp only [if_pos howed]
        exact .kept rfl rfl rfl fun h => nomatch h
      · simp only [if_neg howed]
        exact .kept rfl rfl rfl fun _ => .inr (eq_false_of_ne_true howed)
    | unknown =>
      refine .kept rfl rfl rfl fun h => ?_
      change (if g.owed = true then Phase.awaitingSubmit else Phase.unknown) = .ready at h
      split at h
      · cases h
      · cases h
  · simp only [hmine, ne_eq, not_false_eq_true, if_true, decide_false, Bool.false_and, cond_false]
    exact .kept rfl rfl rfl .inl

theorem takes_write (agent : Option Cli) (g : Gate) (current : Option Nat) (data : Units)
    (threw : Bool) (nowMs : Int) :
    Takes agent g (.write current data threw nowMs)
      (g.take agent (.write current data threw nowMs)).1
      (g.take agent (.write current data threw nowMs)).2 := by
  simp only [Gate.take, Gate.write]
  by_cases hadmits : g.admits current data nowMs = true
  · obtain ⟨c, hc⟩ : ∃ c, g.child = some c := by
      simp only [Gate.admits, Bool.and_eq_true] at hadmits
      exact Option.isSome_iff_exists.mp hadmits.1.1.1.1
    obtain rfl : current = some c := by
      simp only [Gate.admits, Bool.and_eq_true, decide_eq_true_eq] at hadmits
      rw [hadmits.1.1.1.2, hc]
    have hdue : data = submit → g.owed = true ∧ nowMs ≤ g.expires := by
      rintro rfl
      simp only [Gate.admits, Bool.and_eq_true, if_true, decide_eq_true_eq] at hadmits
      exact hadmits.2
    simp only [hadmits, Bool.not_true, Bool.false_eq_true, if_false]
    by_cases hthrew : threw = true
    · subst hthrew
      exact .unconfirmed hc rfl rfl (by simp [Gate.update]) hadmits hdue
    · by_cases hsubmit : data = submit
      · simp only [hthrew, Bool.false_eq_true, if_false, hsubmit, if_true]
        exact .submitted hc rfl rfl (by simp [Gate.update]) (hdue hsubmit).1 (hdue hsubmit).2
      · simp only [hthrew, Bool.false_eq_true, if_false, hsubmit]
        refine .text hc rfl rfl (by simp [Gate.update]) rfl ?_ hsubmit
        simp only [Gate.admits, Bool.and_eq_true, if_neg hsubmit, decide_eq_true_eq] at hadmits
        exact hadmits.2
  · simp only [hadmits, Bool.not_false, if_true]
    exact .kept rfl rfl rfl .inl

/-- **What one event does.** -/
theorem takes (agent : Option Cli) (g : Gate) (e : Event) :
    Takes agent g e (g.take agent e).1 (g.take agent e).2 := by
  cases e with
  | start current => exact .started rfl rfl (by simp [Gate.take, Gate.start, Gate.update])
  | exit current =>
    by_cases hmine : current = g.child
    · simp only [Gate.take, Gate.exit, hmine, ne_eq, not_true_eq_false, if_false, if_true]
      exact .exited rfl rfl (by simp [Gate.update])
    · simp only [Gate.take, Gate.exit, hmine, ne_eq, not_false_eq_true, if_true, if_false]
      exact .kept rfl rfl rfl .inl
  | output current data => exact takes_output agent g current data
  | localInput current =>
    simp only [Gate.take, Gate.localInput]
    by_cases hnone : g.child = none ∨ current ≠ g.child
    · simp only [hnone, if_true]
      exact .kept rfl rfl rfl .inl
    · obtain ⟨hsome, hmine⟩ := not_or.mp hnone
      obtain ⟨c, hc⟩ := Option.ne_none_iff_exists'.mp hsome
      obtain rfl : current = some c := by rw [← hc]; exact Decidable.not_not.mp hmine
      simp only [hnone, if_false]
      exact .localInput hc rfl rfl (by simp [Gate.update])
  | write current data threw nowMs => exact takes_write agent g current data threw nowMs

/-! ## What the effects of a run keep -/

/-- The data that an effect tried to write, and when. -/
def Effect.attempt : Effect → Option (Nat × Units × Int)
  | .written child data nowMs => some (child, data, nowMs)
  | .unconfirmed child data nowMs => some (child, data, nowMs)
  | _ => none

/-- A CR is tried only right after a text written to the same child at most five seconds before. -/
def Submits (trace : List Effect) : Prop :=
  ∀ a x b child now, trace = a ++ x :: b → x.attempt = some (child, submit, now) →
    ∃ a' data t quiet, a = a' ++ .written child data t :: quiet ∧ data ≠ submit ∧ now ≤ t + 5000 ∧
      ∀ y ∈ quiet, y = .quiet

/-- A CR to the child, or a key of the operator. -/
def Effect.Releases (child : Nat) (x : Effect) : Prop :=
  (∃ now, x = .written child submit now) ∨ x = .localInput child

/-- Between two texts written to one child it was submitted, or the operator typed. -/
def Separate (trace : List Effect) : Prop :=
  ∀ a m b child data t data' t',
    trace = a ++ .written child data t :: m ++ .written child data' t' :: b →
      data ≠ submit → data' ≠ submit → ∃ x ∈ m, x.Releases child

/-- A text stands in the composer of the child. -/
def Unsubmitted (trace : List Effect) (child : Nat) : Prop :=
  ∃ a data t m, trace = a ++ .written child data t :: m ∧ data ≠ submit ∧
    ∀ x ∈ m, ¬ x.Releases child

theorem unsubmitted_concat {trace : List Effect} {x : Effect} {child : Nat}
    (h : Unsubmitted (trace ++ [x]) child) :
    (∃ data t, x = .written child data t ∧ data ≠ submit) ∨
      (Unsubmitted trace child ∧ ¬ x.Releases child) := by
  obtain ⟨a, data, t, m, hsplit, hdata, hm⟩ := h
  rcases concat_eq_split hsplit with ⟨-, rfl, -⟩ | ⟨m, rfl, htrace⟩
  · exact .inl ⟨data, t, rfl, hdata⟩
  · refine .inr ⟨⟨a, data, t, m, htrace, hdata, fun y hy => hm y (List.mem_append_left _ hy)⟩, ?_⟩
    exact hm x (List.mem_append_right _ (List.mem_singleton.mpr rfl))

/-- What the gate knows of the run: it is ready only where it owes no CR, and the CR it owes is for
the text that was written last. -/
structure Knows (s : Session) : Prop where
  ready : s.gate.phase = .ready → s.gate.owed = false
  owed : s.gate.owed = true → ∃ child a data t quiet, s.gate.child = some child ∧
    s.trace = a ++ .written child data t :: quiet ∧ data ≠ submit ∧ s.gate.expires = t + 5000 ∧
      ∀ y ∈ quiet, y = .quiet
  submits : Submits s.trace

theorem Submits.concat {trace : List Effect} {x : Effect} (h : Submits trace)
    (hx : ∀ child now, x.attempt = some (child, submit, now) →
      ∃ a data t quiet, trace = a ++ .written child data t :: quiet ∧ data ≠ submit ∧
        now ≤ t + 5000 ∧ ∀ y ∈ quiet, y = .quiet) : Submits (trace ++ [x]) := by
  intro a y b child now hsplit hy
  rcases concat_eq_split hsplit with ⟨rfl, rfl, -⟩ | ⟨b', -, htrace⟩
  · exact hx child now hy
  · exact h a y b' child now htrace hy

/-- The CR that the gate owes comes after its text. -/
theorem Knows.due {s : Session} (h : Knows s) {child : Nat} {now : Int}
    (hchild : s.gate.child = some child) (howed : s.gate.owed = true)
    (hnow : now ≤ s.gate.expires) :
    ∃ a data t quiet, s.trace = a ++ .written child data t :: quiet ∧ data ≠ submit ∧
      now ≤ t + 5000 ∧ ∀ y ∈ quiet, y = .quiet := by
  obtain ⟨c, a, data, t, quiet, hc, htrace, hdata, hexpires, hquiet⟩ := h.owed howed
  obtain rfl := Option.some.inj (hc.symm.trans hchild)
  exact ⟨a, data, t, quiet, htrace, hdata, hexpires ▸ hnow, hquiet⟩

theorem knows_created : Knows ⟨.created, []⟩ where
  ready h := nomatch h
  owed h := nomatch h
  submits a x b child now h := by simp at h

/-- **One event keeps what the gate knows.** -/
theorem Knows.step {agent : Option Cli} {s : Session} (h : Knows s) {e : Event} {g' : Gate}
    {x : Effect}
    (htakes : Takes agent s.gate e g' x) : Knows ⟨g', s.trace ++ [x]⟩ := by
  -- where the gate forgets the CR and tries none
  have hclear : g'.owed = false → (∀ child now, x.attempt ≠ some (child, submit, now)) →
      Knows ⟨g', s.trace ++ [x]⟩ := by
    intro howed hx
    refine ⟨fun _ => howed, fun h => ?_, h.submits.concat fun child now hy => absurd hy (hx _ _)⟩
    exact absurd (howed.symm.trans h) (by simp)
  cases htakes with
  | kept child owed expires ready =>
    refine ⟨fun hr => ?_, fun ho => ?_, h.submits.concat fun _ _ hy => nomatch hy⟩
    · rcases ready hr with hr | ho
      · rw [owed, h.ready hr]
      · rw [owed, ho]
    · obtain ⟨c, a, data, t, quiet, hc, htrace, hdata, ht, hquiet⟩ := h.owed (owed ▸ ho)
      refine ⟨c, a, data, t, quiet ++ [.quiet], child ▸ hc, ?_, hdata, expires ▸ ht, ?_⟩
      · rw [htrace, List.append_assoc, List.cons_append]
      · intro y hy
        rcases List.mem_append.mp hy with hy | hy
        · exact hquiet y hy
        · exact List.mem_singleton.mp hy
  | started child owed phase => exact hclear owed fun _ _ hy => nomatch hy
  | exited child owed phase => exact hclear owed fun _ _ hy => nomatch hy
  | blocked child owed phase shown => exact hclear owed fun _ _ hy => nomatch hy
  | localInput mine child owed phase => exact hclear owed fun _ _ hy => nomatch hy
  | unconfirmed mine child owed phase admitted due =>
    refine ⟨fun _ => owed, fun ho => absurd (owed.symm.trans ho) (by simp), h.submits.concat ?_⟩
    intro c now hy
    obtain ⟨rfl, rfl, rfl⟩ : _ ∧ _ ∧ _ := by simpa [Effect.attempt] using hy
    exact h.due mine (due rfl).1 (due rfl).2
  | submitted mine child owed phase due inTime =>
    refine ⟨fun _ => owed, fun ho => absurd (owed.symm.trans ho) (by simp), h.submits.concat ?_⟩
    intro c now hy
    obtain ⟨rfl, rfl⟩ : _ ∧ _ := by simpa [Effect.attempt] using hy
    exact h.due mine due inTime
  | text mine child owed phase expires ready text =>
    refine ⟨fun hr => absurd hr phase, fun _ => ?_, h.submits.concat ?_⟩
    · exact ⟨_, s.trace, _, _, [], child.trans mine, rfl, text, expires, fun y hy => nomatch hy⟩
    · intro c now hy
      exact absurd (by simpa [Effect.attempt] using hy : _ ∧ _ ∧ _).2.1 text

/-- **A CR comes right after its text**, in every run. -/
theorem submitted (agent : Option Cli) {events : List Event} {s : Session}
    (hrun : (machine agent).run events = some s) : Submits s.trace := by
  have hknows : Knows s := by
    refine Automaton.invariant knows_created ?_ (Automaton.along_true events) hrun
    rintro s e s' h - hstep
    obtain rfl := Option.some.inj hstep
    exact h.step (takes agent s.gate e)
  exact hknows.submits

/-! ## Texts that nothing makes the gate forget -/

/-- While a text stands in the composer of a child, no output of the child leaves a blocker or a
modal on its surface, the child takes the CR, and it is not started again. -/
def Steady (agent : Option Cli) (s : Session) : Event → Prop
  | .start current => ∀ child, current = some child → ¬ Unsubmitted s.trace child
  | .output current data => ∀ child, s.gate.child = some child → Unsubmitted s.trace child →
      s.gate.blockedBy agent current data = false
  | .write current data threw nowMs => ∀ child, s.gate.child = some child →
      Unsubmitted s.trace child → s.gate.admits current data nowMs = true → threw = false
  | _ => True

/-- The gate owes the CR of the text that stands in the composer of its child. -/
structure Owes (s : Session) : Prop where
  knows : Knows s
  owed : ∀ child, Unsubmitted s.trace child → s.gate.child = some child → s.gate.owed = true
  separate : Separate s.trace

theorem owes_created : Owes ⟨.created, []⟩ where
  knows := knows_created
  owed child h := by
    obtain ⟨a, data, t, m, h, -⟩ := h
    simp at h
  separate a m b child data t data' t' h := by simp at h

theorem Separate.concat {trace : List Effect} {x : Effect} (h : Separate trace)
    (hx : ∀ child data now, x = .written child data now → data ≠ submit →
      ¬ Unsubmitted trace child) : Separate (trace ++ [x]) := by
  intro a m b child data t data' t' hsplit hdata hdata'
  rcases concat_eq_split hsplit with ⟨htrace, rfl, -⟩ | ⟨b', -, htrace⟩
  · by_contra hno
    exact hx child data' t' rfl hdata'
      ⟨a, data, t, m, htrace.symm, hdata, fun y hy hrel => hno ⟨y, hy, hrel⟩⟩
  · exact h a m b' child data t data' t' htrace hdata hdata'

/-- **One steady event keeps the CR owed.** -/
theorem Owes.step {agent : Option Cli} {s : Session} (h : Owes s) {e : Event} {g' : Gate}
    {x : Effect} (hsteady : Steady agent s e) (htakes : Takes agent s.gate e g' x) :
    Owes ⟨g', s.trace ++ [x]⟩ := by
  have hknows := h.knows.step htakes
  -- an event that writes no text
  have hquiet : (∀ child data now, x = .written child data now → data = submit) →
      (∀ child, Unsubmitted s.trace child → ¬ x.Releases child → g'.child = some child →
        g'.owed = true) → Owes ⟨g', s.trace ++ [x]⟩ := by
    intro hx howed
    refine ⟨hknows, fun child hun hchild => ?_, h.separate.concat ?_⟩
    · rcases unsubmitted_concat hun with ⟨data, t, hw, hdata⟩ | ⟨hun, hrel⟩
      · exact absurd (hx child data t hw) hdata
      · exact howed child hun hrel hchild
    · exact fun child data now hw hdata => absurd (hx child data now hw) hdata
  cases htakes with
  | kept child owed expires ready =>
    refine hquiet (fun _ _ _ hw => nomatch hw) fun c hun _ hc => ?_
    rw [owed, h.owed c hun (child ▸ hc)]
  | started child owed phase =>
    refine hquiet (fun _ _ _ hw => nomatch hw) fun c hun _ hc => ?_
    exact absurd hun (hsteady c (child ▸ hc))
  | exited child owed phase =>
    refine hquiet (fun _ _ _ hw => nomatch hw) fun c _ _ hc => ?_
    exact absurd (child.symm.trans hc) (by simp)
  | blocked child owed phase shown =>
    refine hquiet (fun _ _ _ hw => nomatch hw) fun c hun _ hc => ?_
    exact absurd (shown.symm.trans (hsteady c (child ▸ hc) hun)) (by simp)
  | localInput mine child owed phase =>
    refine hquiet (fun _ _ _ hw => nomatch hw) fun c _ hrel hc => ?_
    obtain rfl := Option.some.inj (mine.symm.trans (child ▸ hc))
    exact absurd (.inr rfl) hrel
  | unconfirmed mine child owed phase admitted due =>
    refine hquiet (fun _ _ _ hw => nomatch hw) fun c hun _ hc => ?_
    exact absurd (hsteady c (child ▸ hc) hun admitted) (by simp)
  | submitted mine child owed phase due inTime =>
    refine hquiet (fun _ _ _ hw => ?_) fun c _ hrel hc => ?_
    · exact (Effect.written.inj hw).2.1.symm
    · obtain rfl := Option.some.inj (mine.symm.trans (child ▸ hc))
      exact absurd (.inl ⟨_, rfl⟩) hrel
  | text mine child owed phase expires ready text =>
    refine ⟨hknows, fun _ _ _ => owed, h.separate.concat fun c data now hw _ hun => ?_⟩
    obtain ⟨rfl, -, -⟩ := Effect.written.inj hw
    exact absurd ((h.knows.ready ready).symm.trans (h.owed _ hun mine)) (by simp)

/-- **The input gate pairs each submit with its text.** -/
theorem paired (agent : Option Cli) {events : List Event} {s : Session}
    (hsteady : (machine agent).Along (Steady agent) events)
    (hrun : (machine agent).run events = some s) : Submits s.trace ∧ Separate s.trace := by
  have howes : Owes s := by
    refine Automaton.invariant owes_created ?_ hsteady hrun
    rintro s e s' h hsteady hstep
    obtain rfl := Option.some.inj hstep
    exact h.step hsteady (takes agent s.gate e)
  exact ⟨howes.knows.submits, howes.separate⟩

def sampleComposer : Units := codeUnits "OpenAI Codex (v0.160.0)\n› \nGPT-6-Astra xhigh fast"

theorem steady_write (agent : Option Cli) (s : Session) (current : Option Nat) (data : Units)
    (nowMs : Int) : Steady agent s (.write current data false nowMs) :=
  fun _ _ _ _ => rfl

theorem steady_output {agent : Option Cli} {events : List Event} {current : Option Nat}
    {data : Units}
    (h : ((machine agent).run events).all fun s => !s.gate.blockedBy agent current data)
    (s : Session) (hrun : (machine agent).run events = some s) :
    Steady agent s (.output current data) := by
  rw [hrun] at h
  exact fun _ _ _ => by simpa using h

/-- A prompt and its CR. -/
theorem paired_sample : ∃ s, (machine (some .codex)).run [.start (some 1),
      .output (some 1) sampleComposer, .write (some 1) (codeUnits "first") false 0,
      .write (some 1) submit false 4000] = some s ∧ Submits s.trace ∧ Separate s.trace := by
  have hstart : (machine (some .codex)).Along (Steady (some .codex)) ([] ++ [.start (some 1)]) := by
    refine Automaton.along_nil.concat ?_
    rintro s hs child - ⟨a, data, t, m, h, -⟩
    obtain rfl := Option.some.inj hs
    simp [machine] at h
  have hcomposer := hstart.concat (e := .output (some 1) sampleComposer)
    (steady_output (by decide +kernel))
  have htext := hcomposer.concat fun s _ => steady_write _ s (some 1) (codeUnits "first") 0
  have hsubmit := htext.concat fun s _ => steady_write _ s (some 1) submit 4000
  exact ⟨_, rfl, paired (some .codex) hsubmit rfl⟩

/-- A prompt, then a dialog, then the composer again, with the prompt still in it. -/
def repainted : List Event :=
  [.start (some 1), .output (some 1) sampleComposer,
    .write (some 1) (codeUnits "first") false 0, .output (some 1) (codeUnits "Update available"),
    .output (some 1) sampleComposer, .write (some 1) (codeUnits "second") false 9000]

def repaintedTrace : List Effect :=
  [.started (some 1), .quiet, .written 1 (codeUnits "first") 0, .blocked, .quiet,
    .written 1 (codeUnits "second") 9000]

/-- **The second prompt is written after the first one, which was not submitted.** -/
theorem repainted_unpaired :
    ∃ s, (machine (some .codex)).run repainted = some s ∧ ¬ Separate s.trace := by
  have hrun : ((machine (some .codex)).run repainted).map Session.trace = some repaintedTrace := by
    decide +kernel
  obtain ⟨s, hs, htrace⟩ := Option.map_eq_some_iff.mp hrun
  refine ⟨s, hs, fun h => ?_⟩
  rw [htrace] at h
  obtain ⟨x, hx, hrel⟩ := h [.started (some 1), .quiet] [.blocked, .quiet] [] 1
    (codeUnits "first") 0 (codeUnits "second") 9000 rfl (by decide) (by decide)
  rcases List.mem_cons.mp hx with rfl | hx
  · rcases hrel with ⟨now, h⟩ | h <;> cases h
  · obtain rfl := List.mem_singleton.mp hx
    rcases hrel with ⟨now, h⟩ | h <;> cases h

theorem submitted_repainted :
    ∃ s, (machine (some .codex)).run repainted = some s ∧ Submits s.trace := by
  have hrun : ((machine (some .codex)).run repainted).isSome = true := by decide +kernel
  obtain ⟨s, hs⟩ := Option.isSome_iff_exists.mp hrun
  exact ⟨s, hs, submitted (some .codex) hs⟩

end Telepty.Ssh
