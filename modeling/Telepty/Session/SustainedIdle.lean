import Telepty.Infra.Runs
import Telepty.Infra.Text
import Mathlib.Data.List.Basic

/-!
# Sustained idle

The sweep of the daemon looks at every session again and again. Once a session has been quiet for
long enough, and the evidence has said the same for a while, one observation goes out, and then none
until something stirs.

`Date.parse` is a parameter; what `readiness` and `inspectProcess` say comes with each call.

* `observe_cases` — what one call can do
* `Kept` — what the record of a session keeps of the calls so far
* `emits_once` — the observations of a run
-/

namespace Telepty.SustainedIdle

open Infra

/-! ## Sessions -/

/-- A field that `===` compares: not there, `null`, or a value. -/
inductive Slot (α : Type) where
  | undefined
  | null
  | value (a : α)
  deriving DecidableEq

/-- `x || null` of a text -/
def Slot.orNull : Slot Text → Option Text
  | .value t => if t = [] then none else some t
  | _ => none

/-- A socket object, and whether its `readyState` is `1`. -/
structure Socket where
  object : Nat
  isOpen : Bool

structure Session where
  type : Text
  sessionEpoch : Slot Text
  ownerWs : Slot Socket
  interactionOwnerGeneration : Slot Text
  /-- where it is a safe integer -/
  interactionInputGeneration : Option Int
  /-- where it is a finite number -/
  outputRingTotalBytes : Option Int
  lastActualOutputAt : Option Text
  lastActivityAt : Option Text
  createdAt : Option Text
  lastConnectedAt : Option Text
  bridgeReadSide : Option Text
  bridgeHeartbeatAt : Option Text

/-- `sessionStateManager.getState(id)` -/
structure ActivityState where
  state : Text
  since : Option Text
  /-- `detail.trigger` -/
  trigger : Option Text
  /-- `detail.exit_observed_at` -/
  exitObservedAt : Option Text

/-- What the classification reads of `readiness(session, …)`. -/
structure Ready where
  status : Text
  reason : Text
  ready : Bool
  observedAt : Option Text
  sessionEpoch : Slot Text
  ownerGeneration : Slot Text

/-- What the classification reads of `inspectProcess(session)`. -/
structure Process where
  status : Text
  state : Text
  observedAt : Option Text

/-- `createSustainedIdleObserver` checks the bounds. -/
structure Config where
  enabled : Bool
  thresholdMs : Nat
  debounceMs : Nat
  freshnessMs : Nat
  maxPerSweep : Nat
  thresholdMs_bounds : 100 ≤ thresholdMs ∧ thresholdMs ≤ 86400000
  debounceMs_bounds : debounceMs ≤ 60000
  freshnessMs_bounds : 100 ≤ freshnessMs ∧ freshnessMs ≤ 86400000
  maxPerSweep_bounds : 1 ≤ maxPerSweep ∧ maxPerSweep ≤ 256

/-- `observe(id, session, { nowMs, machineId, activityState })`; `object` is which session object it
is. -/
structure Call where
  id : Text
  object : Nat
  session : Session
  nowMs : Int
  machineId : Option Text
  activityState : Option ActivityState
  ready : Option Ready
  process : Option Process

/-! ## The classification -/

/-- `time(value, now)` -/
def time (parse : Text → Option Int) (value : Option Text) (now : Int) : Option Int :=
  (value.bind parse).filter (· ≤ now)

inductive Verdict where
  | ownerTransportNotOpen
  | ptyReadStreamDestroyed
  | processExit
  | processUnavailable
  | knownModal
  | active
  | qualifiedComposer
  | quietOutput
  deriving DecidableEq

/-- `classification` and `reason` -/
def Verdict.texts : Verdict → Text × Text
  | .ownerTransportNotOpen => ("transport_unavailable", "owner_transport_not_open_observed")
  | .ptyReadStreamDestroyed => ("transport_unavailable", "pty_read_stream_destroyed_reported")
  | .processExit => ("transport_unavailable", "process_exit_observed")
  | .processUnavailable => ("transport_unavailable", "process_scheduler_unavailable_observed")
  | .knownModal => ("awaiting_input", "fresh_known_modal_observed")
  | .active => ("unknown", "activity_state_does_not_establish_idle_or_completion")
  | .qualifiedComposer => ("composer_ready", "qualified_composer_observed_completion_unknown")
  | .quietOutput => ("unknown", "quiet_output_is_insufficient_evidence")

/-- `${observation.classification}:${observation.reason}` -/
def Verdict.key (v : Verdict) : Text :=
  v.texts.1 ++ ':' :: v.texts.2

def Verdict.all : List Verdict :=
  [.ownerTransportNotOpen, .ptyReadStreamDestroyed, .processExit, .processUnavailable, .knownModal,
    .active, .qualifiedComposer, .quietOutput]

theorem Verdict.find_key (v : Verdict) : Verdict.all.find? (·.key = v.key) = some v := by
  cases v <;> decide +kernel

/-- A key tells its verdict. -/
theorem Verdict.key_injective {v w : Verdict} (h : v.key = w.key) : v = w := by
  have hv := v.find_key
  rw [h, w.find_key] at hv
  exact (Option.some.inj hv).symm

/-- A fact the verdict rests on. -/
structure Fact where
  source : Text
  /-- the `state` or the `reason` of the fact -/
  detail : Text
  /-- where it is a time -/
  observedAt : Option Int

def Fact.ageMs (now : Int) (f : Fact) : Option Int :=
  f.observedAt.map (now - ·)

/-- `freshness` -/
def Fact.freshness (now : Int) (freshnessMs : Nat) (f : Fact) : Text :=
  match f.ageMs now with
  | none => "unknown"
  | some age => if age ≤ freshnessMs then "fresh" else "stale"

structure Observation where
  verdict : Verdict
  evidence : List Fact

section

variable (parse : Text → Option Int)

/-- `fresh(value)` -/
def fresh (freshnessMs : Nat) (now : Int) (value : Option Text) : Bool :=
  (time parse value now).any fun ms => now - ms ≤ freshnessMs

/-- `currentOwner(value)` -/
def currentOwner (session : Session) (now : Int) (value : Option Text) : Bool :=
  (time parse value now).any fun ms =>
    (time parse session.lastConnectedAt now).all (· ≤ ms)

/-- `classifyQuiet(session, { nowMs, freshnessMs, activityState, ready, process })` -/
def classifyQuiet (freshnessMs : Nat) (c : Call) : Observation :=
  let session := c.session
  let fact (source detail : Text) (value : Option Text) : List Fact :=
    [⟨source, detail, time parse value c.nowMs⟩]
  let fresh := fresh parse freshnessMs c.nowMs
  let currentOwner := currentOwner parse session c.nowMs
  let isOpen := match session.ownerWs with
    | .value s => s.isOpen
    | _ => false
  let state := (c.activityState.map ActivityState.state).getD []
  let exitAt := c.activityState.bind ActivityState.exitObservedAt
  let stopped := c.process.any fun p =>
    p.status = ("observed" : Text) && p.state ∈ (["stopped", "tracing_stop", "zombie", "dead"] : List Text)
      && fresh p.observedAt
  let modal := c.ready.any fun r =>
    r.status = ("blocked" : Text) && r.reason ∈ (["codex_modal_ui", "claude_modal_ui"] : List Text)
  let composer := c.ready.any fun r =>
    r.ready && r.reason = ("qualified_composer_observed" : Text) && fresh r.observedAt
      && r.sessionEpoch = session.sessionEpoch
      && r.ownerGeneration = session.interactionOwnerGeneration
  if session.type = "wrapped" ∧ !isOpen then
    ⟨.ownerTransportNotOpen, [⟨"daemon_owner_socket", "not_open", some c.nowMs⟩]⟩
  else if session.bridgeReadSide = some "destroyed" ∧ fresh session.bridgeHeartbeatAt
      ∧ currentOwner session.bridgeHeartbeatAt then
    ⟨.ptyReadStreamDestroyed,
      fact "authenticated_owner_heartbeat" "pty_read_stream_destroyed" session.bridgeHeartbeatAt⟩
  else if c.activityState.bind ActivityState.trigger = some "process_exit" ∧ fresh exitAt
      ∧ currentOwner exitAt then
    ⟨.processExit, fact "pty_exit_callback" "exit_observed" exitAt⟩
  else if stopped then
    ⟨.processUnavailable,
      fact "linux_proc_stat" ((c.process.map Process.state).getD []) (c.process.bind Process.observedAt)⟩
  else if modal ∧ fresh session.lastActualOutputAt ∧ currentOwner session.lastActualOutputAt then
    ⟨.knownModal,
      fact "known_modal_registry_over_output_text_tail" ((c.ready.map Ready.reason).getD [])
        session.lastActualOutputAt⟩
  else if state ∈ (["working", "thinking", "starting"] : List Text) then
    ⟨.active,
      fact "session_activity_state_machine" state (c.activityState.bind ActivityState.since)⟩
  else if composer then
    ⟨.qualifiedComposer,
      fact "qualified_owner_composer_evidence" [] (c.ready.bind Ready.observedAt)⟩
  else ⟨.quietOutput, []⟩

/-! ## The record of a session -/

/-- What the observer notes of a session at a call. -/
structure Snapshot where
  id : Text
  epoch : Slot Text
  owner : Slot Nat
  generation : Slot Text
  input : Option Int
  output : Option Int
  lastOutput : Option Int
  busy : Option Text

/-- `owner` stands for the socket object. -/
def ownerObject : Slot Socket → Slot Nat
  | .undefined => .undefined
  | .null => .null
  | .value s => .value s.object

/-- `${activityState.state}:${activityState.since || ''}` of a busy session -/
def busyOf (a : ActivityState) : Option Text :=
  if a.state ∈ (["working", "thinking"] : List Text) then
    some (a.state ++ ':' :: a.since.getD [])
  else none

def Call.snapshot (c : Call) : Snapshot where
  id := c.id
  epoch := c.session.sessionEpoch
  owner := ownerObject c.session.ownerWs
  generation := c.session.interactionOwnerGeneration
  input := c.session.interactionInputGeneration
  output := c.session.outputRingTotalBytes
  lastOutput := time parse c.session.lastActualOutputAt c.nowMs
  busy := c.activityState.bind busyOf

end

/-- `rebound`: the session is another one now, or has another owner. -/
def Snapshot.rebinds (p c : Snapshot) : Bool :=
  p.id ≠ c.id || p.epoch ≠ c.epoch || p.owner ≠ c.owner || p.generation ≠ c.generation

/-- There was output, or input, or a new busy episode. -/
def Snapshot.stirs (p c : Snapshot) : Bool :=
  (c.lastOutput ≠ none && c.lastOutput ≠ p.lastOutput) || c.input ≠ p.input ||
    c.output ≠ p.output || (c.busy ≠ none && c.busy ≠ p.busy)

structure Candidate where
  key : Text
  /-- `at` -/
  since : Int

/-- The record of a session. -/
structure Prior where
  seen : Snapshot
  quietSince : Int
  candidate : Option Candidate
  fired : Bool

/-- The record as a call finds it: a new one, a new one for a session that is rebound, or the one
there is, which starts anew when something stirs. -/
def look (parse : Text → Option Int) (c : Call) (prior : Option Prior) : Prior :=
  let seen := c.snapshot parse
  let p := match prior with
    | none =>
      let since := seen.lastOutput <|> time parse c.session.lastActivityAt c.nowMs <|>
        time parse c.session.createdAt c.nowMs
      { seen, quietSince := since.getD c.nowMs, candidate := none, fired := false }
    | some q =>
      if q.seen.rebinds seen then
        { seen, quietSince := c.nowMs, candidate := none, fired := false }
      else if q.seen.stirs seen then
        { seen, quietSince := c.nowMs, candidate := none, fired := false }
      else { q with seen }
  if c.nowMs < p.quietSince then { p with quietSince := c.nowMs, candidate := none } else p

/-- The candidate after a classification: the same one for as long as the verdict is the same. -/
def Prior.next (p : Prior) (key : Text) (now : Int) : Candidate :=
  match p.candidate with
  | some k => if k.key = key then k else ⟨key, now⟩
  | none => ⟨key, now⟩

/-! ## The observer -/

structure Emission where
  observation : Observation
  machineId : Option Text
  sessionId : Text
  sessionEpoch : Option Text
  ownerGeneration : Option Text
  observedAt : Int
  quietSince : Int
  quietMs : Int
  thresholdMs : Nat
  debounceMs : Nat
  freshnessMs : Nat

structure Observer where
  /-- by session object -/
  states : Nat → Option Prior
  sweepAt : Option Int
  classified : Nat

def Observer.created : Observer := ⟨fun _ => none, none, 0⟩

/-- What a call does: a classification, where it comes to one, and an observation, where one goes
out. -/
structure Outcome where
  observation : Option Observation
  emission : Option Emission

def emissionOf (cfg : Config) (c : Call) (p : Prior) (observation : Observation) : Emission where
  observation := observation
  machineId := c.machineId
  sessionId := c.id
  sessionEpoch := c.session.sessionEpoch.orNull
  ownerGeneration := c.session.interactionOwnerGeneration.orNull
  observedAt := c.nowMs
  quietSince := p.quietSince
  quietMs := c.nowMs - p.quietSince
  thresholdMs := cfg.thresholdMs
  debounceMs := cfg.debounceMs
  freshnessMs := cfg.freshnessMs

/-- `observe(id, session, …)` -/
def Observer.observe (parse : Text → Option Int) (cfg : Config) (o : Observer) (c : Call) :
    Observer × Outcome :=
  if !cfg.enabled then (o, ⟨none, none⟩)
  else
    let classified := if o.sweepAt = some c.nowMs then o.classified else 0
    let p := look parse c (o.states c.object)
    let put (p : Prior) (classified : Nat) : Observer :=
      ⟨fun n => if n = c.object then some p else o.states n, some c.nowMs, classified⟩
    if p.fired ∨ c.nowMs - p.quietSince < cfg.thresholdMs ∨ cfg.maxPerSweep ≤ classified then
      (put p classified, ⟨none, none⟩)
    else
      let observation := classifyQuiet parse cfg.freshnessMs c
      let k := p.next observation.verdict.key c.nowMs
      if c.nowMs - k.since < cfg.debounceMs then
        (put { p with candidate := some k } (classified + 1), ⟨some observation, none⟩)
      else
        (put { p with candidate := some k, fired := true } (classified + 1),
          ⟨some observation, some (emissionOf cfg c p observation)⟩)

/-! ## Runs -/

section

variable (parse : Text → Option Int) (cfg : Config)

/-- The observer after the calls of a run. -/
def after (calls : List Call) : Observer :=
  calls.foldl (fun o c => (o.observe parse cfg c).1) .created

/-- What a call does after the calls `before`. -/
def outcome (before : List Call) (c : Call) : Outcome :=
  ((after parse cfg before).observe parse cfg c).2

/-- The last of the calls for a session. -/
def previous (object : Nat) (before : List Call) : Option Call :=
  (before.filter (·.object = object)).getLast?

/-- Since the last call for the session it was rebound, or something stirred. -/
def Resets (before : List Call) (c : Call) : Prop :=
  ∃ p, previous c.object before = some p ∧
    ((p.snapshot parse).rebinds (c.snapshot parse) ∨ (p.snapshot parse).stirs (c.snapshot parse))

theorem after_concat (before : List Call) (c : Call) :
    after parse cfg (before ++ [c]) = ((after parse cfg before).observe parse cfg c).1 := by
  rw [after, List.foldl_append]
  rfl

end

/-- The clock does not go back. -/
def Nondecreasing (calls : List Call) : Prop :=
  calls.Pairwise fun c d => c.nowMs ≤ d.nowMs

theorem previous_concat_self {object : Nat} (before : List Call) {c : Call}
    (h : c.object = object) : previous object (before ++ [c]) = some c := by
  simp [previous, h]

theorem previous_concat_of_ne {object : Nat} (before : List Call) {c : Call}
    (h : c.object ≠ object) : previous object (before ++ [c]) = previous object before := by
  simp [previous, h]

theorem ne_of_previous {object : Nat} {before : List Call} (h : previous object before = none) :
    ∀ c ∈ before, c.object ≠ object := by
  intro c hc hobject
  rw [previous, List.getLast?_eq_none_iff, List.filter_eq_nil_iff] at h
  exact h c hc (by simpa using hobject)

/-! ## One call -/

/-- What one call can do: nothing, a classification, or a classification and an observation. -/
theorem observe_cases (parse : Text → Option Int) {cfg : Config} (henabled : cfg.enabled = true)
    (o : Observer) (c : Call) :
    let p := look parse c (o.states c.object)
    let r := o.observe parse cfg c
    ∃ q : Prior, (∀ n, r.1.states n = if n = c.object then some q else o.states n) ∧
      ((q = p ∧ r.2 = ⟨none, none⟩) ∨
        ∃ observation : Observation, ∃ k, k = p.next observation.verdict.key c.nowMs ∧
          ((q = { p with candidate := some k } ∧ r.2 = ⟨some observation, none⟩) ∨
            (p.fired = false ∧ p.quietSince + cfg.thresholdMs ≤ c.nowMs ∧
              k.since + cfg.debounceMs ≤ c.nowMs ∧
              q = { p with candidate := some k, fired := true } ∧
              r.2 = ⟨some observation, some (emissionOf cfg c p observation)⟩))) := by
  intro p r
  have hr : r = o.observe parse cfg c := rfl
  simp only [Observer.observe, henabled, Bool.not_true, Bool.false_eq_true, if_false] at hr
  generalize (if o.sweepAt = some c.nowMs then o.classified else 0) = classified at hr
  split at hr
  · exact ⟨p, fun n => by rw [hr], .inl ⟨rfl, by rw [hr]⟩⟩
  next hgo =>
    obtain ⟨hfired, hquiet, -⟩ := by simpa only [not_or] using hgo
    have hp : look parse c (o.states c.object) = p := rfl
    rw [hp] at hr hfired hquiet
    split at hr
    · exact ⟨_, fun n => by rw [hr], .inr ⟨_, _, rfl, .inl ⟨rfl, by rw [hr]⟩⟩⟩
    next hsteady =>
      refine ⟨_, fun n => by rw [hr], .inr ⟨_, _, rfl, .inr ⟨?_, ?_, ?_, rfl, by rw [hr]⟩⟩⟩
      · simpa using hfired
      · omega
      · omega

theorem time_le {parse : Text → Option Int} {value : Option Text} {now t : Int}
    (h : time parse value now = some t) : t ≤ now := by
  simpa using (Option.filter_eq_some_iff.mp h).2

theorem look_none (parse : Text → Option Int) (c : Call) :
    ∃ since ≤ c.nowMs, look parse c none = ⟨c.snapshot parse, since, none, false⟩ := by
  have hle : ((c.snapshot parse).lastOutput <|> time parse c.session.lastActivityAt c.nowMs <|>
      time parse c.session.createdAt c.nowMs).getD c.nowMs ≤ c.nowMs := by
    cases h : (c.snapshot parse).lastOutput with
    | some t => exact time_le h
    | none =>
      cases h : time parse c.session.lastActivityAt c.nowMs with
      | some t => exact time_le h
      | none =>
        cases h : time parse c.session.createdAt c.nowMs with
        | some t => exact time_le h
        | none => exact Int.le_refl _
  exact ⟨_, hle, if_neg (Int.not_lt.mpr hle)⟩

theorem look_reset {parse : Text → Option Int} {c : Call} {q : Prior}
    (h : q.seen.rebinds (c.snapshot parse) ∨ q.seen.stirs (c.snapshot parse)) :
    look parse c (some q) = ⟨c.snapshot parse, c.nowMs, none, false⟩ := by
  have hnow : ¬ c.nowMs < c.nowMs := Int.lt_irrefl _
  rcases h with h | h
  · simp only [look, h, if_true, hnow, if_false]
  · by_cases hrebinds : q.seen.rebinds (c.snapshot parse)
    · simp only [look, hrebinds, if_true, hnow, if_false]
    · simp only [look, hrebinds, h, Bool.false_eq_true, if_true, if_false, hnow]

theorem look_quiet {parse : Text → Option Int} {c : Call} {q : Prior}
    (h : ¬ (q.seen.rebinds (c.snapshot parse) ∨ q.seen.stirs (c.snapshot parse)))
    (hpast : q.quietSince ≤ c.nowMs) :
    look parse c (some q) = { q with seen := c.snapshot parse } := by
  obtain ⟨hrebinds, hstirs⟩ := not_or.mp h
  simp only [look, hrebinds, hstirs, Bool.false_eq_true, if_false, if_neg (Int.not_lt.mpr hpast)]

/-! ## What a record keeps -/

section

variable (parse : Text → Option Int) (cfg : Config)

/-- Among the calls `calls`, made after `before`, one resets the session. -/
def ResetIn (object : Nat) (before calls : List Call) : Prop :=
  ∃ a r b, calls = a ++ r :: b ∧ r.object = object ∧ Resets parse (before ++ a) r

/-- What the record of a session keeps of the calls: no reset is later than the start of the quiet
period, an observation has gone out in this period only where `fired` says so, and another verdict
than that of the candidate is not later than the candidate. -/
structure Kept (calls : List Call) (object : Nat) (p : Prior) : Prop where
  resets : ∀ a r b, calls = a ++ r :: b → r.object = object → Resets parse a r →
    r.nowMs ≤ p.quietSince
  fired : p.fired = false → ∀ a c b, calls = a ++ c :: b → c.object = object →
    (outcome parse cfg a c).emission ≠ none → ResetIn parse object (a ++ [c]) b
  candidate : ∀ k, p.candidate = some k → ∀ a r b observation, calls = a ++ r :: b →
    r.object = object → (outcome parse cfg a r).observation = some observation →
      observation.verdict.key = k.key ∨ r.nowMs ≤ k.since

/-- The record of a session, where there is one, is of the last call for it. -/
structure Recorded (calls : List Call) (object : Nat) (state : Option Prior) : Prop where
  seen : state.map Prior.seen = (previous object calls).map (Call.snapshot parse)
  past : ∀ p, state = some p → ∃ c ∈ calls, p.quietSince ≤ c.nowMs
  kept : ∀ p, state = some p → Kept parse cfg calls object p

end

section

variable {parse : Text → Option Int} {cfg : Config}

theorem ResetIn.append {object : Nat} {before calls : List Call}
    (h : ResetIn parse object before calls) (more : List Call) :
    ResetIn parse object before (calls ++ more) := by
  obtain ⟨a, r, b, rfl, hr⟩ := h
  exact ⟨a, r, b ++ more, by rw [List.append_assoc, List.cons_append], hr⟩

/-- **The record as a call finds it.** -/
theorem Recorded.found {before : List Call} {d : Call} {state : Option Prior}
    (hrecorded : Recorded parse cfg before d.object state)
    (hmono : Nondecreasing (before ++ [d])) :
    (look parse d state).seen = d.snapshot parse ∧ (look parse d state).quietSince ≤ d.nowMs ∧
      (∀ a r b, before ++ [d] = a ++ r :: b → r.object = d.object → Resets parse a r →
        r.nowMs ≤ (look parse d state).quietSince) ∧
      ((look parse d state).fired = false → ∀ a c b, before = a ++ c :: b → c.object = d.object →
        (outcome parse cfg a c).emission ≠ none → ResetIn parse d.object (a ++ [c]) (b ++ [d])) ∧
      ∀ k, (look parse d state).candidate = some k → ∀ a r b observation, before = a ++ r :: b →
        r.object = d.object → (outcome parse cfg a r).observation = some observation →
          observation.verdict.key = k.key ∨ r.nowMs ≤ k.since := by
  have hle : ∀ c ∈ before, c.nowMs ≤ d.nowMs := by
    intro c hc
    exact (List.pairwise_append.mp hmono).2.2 c hc d (List.mem_singleton.mpr rfl)
  have hbefore : ∀ a r b, before ++ [d] = a ++ r :: b → r.nowMs ≤ d.nowMs := by
    intro a r b h
    have hr : r ∈ before ++ [d] := h ▸ List.mem_append_right _ (List.mem_cons_self ..)
    rcases List.mem_append.mp hr with hr | hr
    · exact hle r hr
    · exact Int.le_of_eq (congrArg Call.nowMs (List.mem_singleton.mp hr))
  cases state with
  | none =>
    obtain ⟨since, hsince, hlook⟩ := look_none parse d
    have hprevious : previous d.object before = none := by
      simpa using hrecorded.seen.symm
    have hne := ne_of_previous hprevious
    rw [hlook]
    refine ⟨rfl, hsince, ?_, ?_, fun k hk => nomatch hk⟩
    · intro a r b h hobject hreset
      rcases concat_eq_split h with ⟨rfl, rfl, -⟩ | ⟨b', -, rfl⟩
      · obtain ⟨p, hp, -⟩ := hreset
        rw [hobject, hprevious] at hp
        exact absurd hp (by simp)
      · exact absurd hobject (hne r (List.mem_append_right _ (List.mem_cons_self ..)))
    · rintro - a c b rfl hobject
      exact absurd hobject (hne c (List.mem_append_right _ (List.mem_cons_self ..)))
  | some q =>
    have hkept := hrecorded.kept q rfl
    obtain ⟨l, hl, hpast⟩ := hrecorded.past q rfl
    have hpast := Int.le_trans hpast (hle l hl)
    obtain ⟨last, hlast, hseen⟩ : ∃ last, previous d.object before = some last ∧
        last.snapshot parse = q.seen := by
      have h := hrecorded.seen
      rw [Option.map_some] at h
      exact Option.map_eq_some_iff.mp h.symm
    by_cases hreset : q.seen.rebinds (d.snapshot parse) ∨ q.seen.stirs (d.snapshot parse)
    · -- a reset: the new period starts with this call
      rw [look_reset hreset]
      refine ⟨rfl, Int.le_refl _, fun a r b h _ _ => hbefore a r b h, ?_, fun k hk => nomatch hk⟩
      rintro - a c b rfl - -
      exact ⟨b, d, [], rfl, rfl, last, by simpa using hlast, by rwa [hseen]⟩
    · rw [look_quiet hreset hpast]
      refine ⟨rfl, hpast, ?_, ?_, hkept.candidate⟩
      · intro a r b h hobject hr
        rcases concat_eq_split h with ⟨rfl, rfl, -⟩ | ⟨b', -, hb'⟩
        · obtain ⟨p, hp, hr⟩ := hr
          rw [hlast] at hp
          rw [← Option.some.inj hp, hseen] at hr
          exact absurd hr hreset
        · exact hkept.resets a r b' hb' hobject hr
      · intro hfired a c b hb hobject hemission
        exact (hkept.fired hfired a c b hb hobject hemission).append [d]

/-- A call for another session leaves the record. -/
theorem Recorded.other {before : List Call} {d : Call} {object : Nat} {state : Option Prior}
    (hrecorded : Recorded parse cfg before object state) (hne : d.object ≠ object) :
    Recorded parse cfg (before ++ [d]) object state where
  seen := by rw [previous_concat_of_ne _ hne, hrecorded.seen]
  past := by
    intro p hp
    obtain ⟨c, hc, hle⟩ := hrecorded.past p hp
    exact ⟨c, List.mem_append_left _ hc, hle⟩
  kept := by
    intro p hp
    have hkept := hrecorded.kept p hp
    have hsplit : ∀ {a r b}, before ++ [d] = a ++ r :: b → r.object = object →
        ∃ b', b = b' ++ [d] ∧ before = a ++ r :: b' := by
      intro a r b h hobject
      rcases concat_eq_split h with ⟨-, rfl, -⟩ | h
      · exact absurd hobject hne
      · exact h
    refine ⟨?_, ?_, ?_⟩
    · intro a r b h hobject
      obtain ⟨b', -, hb'⟩ := hsplit h hobject
      exact hkept.resets a r b' hb' hobject
    · intro hfired a c b h hobject hemission
      obtain ⟨b', rfl, hb'⟩ := hsplit h hobject
      exact (hkept.fired hfired a c b' hb' hobject hemission).append [d]
    · intro k hk a r b observation h hobject
      obtain ⟨b', -, hb'⟩ := hsplit h hobject
      exact hkept.candidate k hk a r b' observation hb' hobject

/-- The candidate after a classification: another verdict is not later than it. -/
theorem Prior.next_spec (p : Prior) (key : Text) (now : Int) :
    (p.next key now).key = key ∧ ∀ other at', at' ≤ now →
      (∀ k, p.candidate = some k → other = k.key ∨ at' ≤ k.since) →
        other = key ∨ at' ≤ (p.next key now).since := by
  unfold Prior.next
  split
  next k hk =>
    split
    next hkey =>
      refine ⟨hkey, fun other at' _ h => ?_⟩
      rcases h k hk with h | h
      · exact .inl (h.trans hkey)
      · exact .inr h
    · exact ⟨rfl, fun _ _ hat _ => .inr hat⟩
  · exact ⟨rfl, fun _ _ hat _ => .inr hat⟩

/-- **One call.** It leaves of its session a record of the calls with this one. -/
theorem Recorded.put (henabled : cfg.enabled = true) {before : List Call} {d : Call}
    (hrecorded : Recorded parse cfg before d.object ((after parse cfg before).states d.object))
    (hmono : Nondecreasing (before ++ [d])) :
    Recorded parse cfg (before ++ [d]) d.object
      ((after parse cfg (before ++ [d])).states d.object) := by
  obtain ⟨hseen, hpast, hresets, hfired, hcandidate⟩ := hrecorded.found hmono
  obtain ⟨q, hstates, hq⟩ := observe_cases parse henabled (after parse cfg before) d
  have hstate : (after parse cfg (before ++ [d])).states d.object = some q := by
    rw [after_concat, hstates, if_pos rfl]
  have houtcome : outcome parse cfg before d = ((after parse cfg before).observe parse cfg d).2 := rfl
  rw [← houtcome] at hq
  have hle : ∀ {a r b}, before = a ++ r :: b → r.nowMs ≤ d.nowMs := by
    rintro a r b rfl
    exact (List.pairwise_append.mp hmono).2.2 r (List.mem_append_right _ (List.mem_cons_self ..)) d
      (List.mem_singleton.mpr rfl)
  generalize look parse d ((after parse cfg before).states d.object) = p at *
  rw [hstate]
  -- the parts of the record that the call leaves as it found them
  have hqseen : q.seen = p.seen ∧ q.quietSince = p.quietSince := by
    rcases hq with ⟨rfl, -⟩ | ⟨_, _, -, ⟨rfl, -⟩ | ⟨-, -, -, rfl, -⟩⟩
    · exact ⟨rfl, rfl⟩
    · exact ⟨rfl, rfl⟩
    · exact ⟨rfl, rfl⟩
  refine ⟨?_, ?_, ?_⟩
  · rw [previous_concat_self _ rfl, Option.map_some, Option.map_some, hqseen.1, hseen]
  · rintro _ ⟨⟩
    exact ⟨d, List.mem_append_right _ (List.mem_singleton.mpr rfl), hqseen.2 ▸ hpast⟩
  · rintro _ ⟨⟩
    refine ⟨?_, ?_, ?_⟩
    · intro a r b h hobject hr
      rw [hqseen.2]
      exact hresets a r b h hobject hr
    · intro hqfired a c b h hobject hemission
      rcases concat_eq_split h with ⟨rfl, rfl, rfl⟩ | ⟨b', rfl, hb'⟩
      · -- an observation of this call has set `fired`
        rcases hq with ⟨-, ho⟩ | ⟨_, _, -, ⟨-, ho⟩ | ⟨-, -, -, rfl, -⟩⟩
        · exact absurd (by rw [ho]) hemission
        · exact absurd (by rw [ho]) hemission
        · exact Bool.noConfusion hqfired
      · refine hfired ?_ a c b' hb' hobject hemission
        rcases hq with ⟨rfl, -⟩ | ⟨_, _, -, ⟨rfl, -⟩ | ⟨hp, -⟩⟩
        · exact hqfired
        · exact hqfired
        · exact hp
    · intro k hk a r b observation h hobject hr
      rcases hq with ⟨rfl, ho⟩ | ⟨observed, k', rfl, hq⟩
      · rcases concat_eq_split h with ⟨rfl, rfl, -⟩ | ⟨b', -, hb'⟩
        · rw [ho] at hr
          exact nomatch hr
        · exact hcandidate k hk a r b' observation hb' hobject hr
      · have hq : q.candidate = some (p.next observed.verdict.key d.nowMs) ∧
            (outcome parse cfg before d).observation = some observed := by
          rcases hq with ⟨rfl, ho⟩ | ⟨-, -, -, rfl, ho⟩
          · exact ⟨rfl, by rw [ho]⟩
          · exact ⟨rfl, by rw [ho]⟩
        obtain rfl := Option.some.inj (hk.symm.trans hq.1)
        obtain ⟨hkey, hnext⟩ := p.next_spec observed.verdict.key d.nowMs
        rcases concat_eq_split h with ⟨rfl, rfl, -⟩ | ⟨b', -, hb'⟩
        · obtain rfl := Option.some.inj (hr.symm.trans hq.2)
          exact .inl hkey.symm
        · rw [hkey]
          exact hnext _ _ (hle hb') fun k hk =>
            hcandidate k hk a r b' observation hb' hobject hr

/-- **Runs.** Every session has a record of the calls for it. -/
theorem recorded (henabled : cfg.enabled = true) {calls : List Call} (hmono : Nondecreasing calls)
    (object : Nat) : Recorded parse cfg calls object ((after parse cfg calls).states object) := by
  induction calls using List.reverseRecOn generalizing object with
  | nil => exact ⟨rfl, fun _ hp => (nomatch hp), fun _ hp => (nomatch hp)⟩
  | append_singleton before d ih =>
    have ih := ih (List.pairwise_append.mp hmono).1
    by_cases hobject : d.object = object
    · subst hobject
      exact (ih d.object).put henabled hmono
    · obtain ⟨q, hstates, -⟩ := observe_cases parse henabled (after parse cfg before) d
      rw [after_concat, hstates, if_neg (Ne.symm hobject)]
      exact (ih object).other hobject

/-- **One observation for every quiet period.** For every run of calls, over any sessions, in which
the clock does not go back, and every call that an observation goes out at: no earlier observation
of the session has gone out since the last reset, no reset is less than `thresholdMs` ago, and
whatever was classified in the last `debounceMs` had the verdict of the observation. -/
theorem emits_once {before : List Call} {d : Call} (hmono : Nondecreasing (before ++ [d]))
    {e : Emission} (h : (outcome parse cfg before d).emission = some e) :
    (∀ a c b, before = a ++ c :: b → c.object = d.object →
        (outcome parse cfg a c).emission ≠ none → ResetIn parse d.object (a ++ [c]) b) ∧
      (∀ a r b, before ++ [d] = a ++ r :: b → r.object = d.object → Resets parse a r →
        r.nowMs + cfg.thresholdMs ≤ d.nowMs) ∧
      ∀ a r b observation, before ++ [d] = a ++ r :: b → r.object = d.object →
        (outcome parse cfg a r).observation = some observation →
          d.nowMs - cfg.debounceMs < r.nowMs →
            observation.verdict = e.observation.verdict := by
  by_cases henabled : cfg.enabled = true
  · have hbefore := (List.pairwise_append.mp hmono).1
    obtain ⟨-, -, hresets, hfired, hcandidate⟩ :=
      (recorded henabled hbefore d.object).found hmono
    obtain ⟨q, -, hq⟩ := observe_cases parse henabled (after parse cfg before) d
    rw [outcome] at h
    rcases hq with ⟨-, ho⟩ | ⟨observed, k, rfl, ⟨-, ho⟩ | ⟨hp, hquiet, hsteady, -, ho⟩⟩
    · exact nomatch (congrArg Outcome.emission ho).symm.trans h
    · exact nomatch (congrArg Outcome.emission ho).symm.trans h
    have hreset : ∀ a r b, before ++ [d] = a ++ r :: b → r.object = d.object →
        Resets parse a r → r.nowMs + cfg.thresholdMs ≤ d.nowMs := by
      intro a r b hsplit hobject hr
      have := hresets a r b hsplit hobject hr
      omega
    refine ⟨?_, hreset, ?_⟩
    · rintro a c b hb hobject hemission
      obtain ⟨a', r, b', hsplit, hrobject, hr⟩ := hfired hp a c b hb hobject hemission
      rcases concat_eq_split hsplit with ⟨rfl, rfl, -⟩ | ⟨b'', -, hb''⟩
      · -- this call is no reset: nothing goes out at one
        have := hreset before r [] rfl rfl (by simpa [hb] using hr)
        have := cfg.thresholdMs_bounds.1
        omega
      · exact ⟨a', r, b'', hb'', hrobject, hr⟩
    · intro a r b observation hsplit hobject hr hrecent
      rcases concat_eq_split hsplit with ⟨rfl, rfl, -⟩ | ⟨b', -, hb'⟩
      · rw [outcome, ho] at hr
        rw [ho] at h
        obtain rfl := Option.some.inj hr
        obtain rfl := Option.some.inj h
        rfl
      · have hrle : r.nowMs ≤ d.nowMs := by
          refine (List.pairwise_append.mp hmono).2.2 r ?_ d (List.mem_singleton.mpr rfl)
          exact hb' ▸ List.mem_append_right _ (List.mem_cons_self ..)
        have hkey := (Prior.next_spec _ observed.verdict.key d.nowMs).2 _ _ hrle fun k hk =>
          hcandidate k hk a r b' observation hb' hobject hr
        rw [ho] at h
        obtain rfl := Option.some.inj h
        rcases hkey with hkey | hkey
        · exact Verdict.key_injective hkey
        · omega
  · have ho : outcome parse cfg before d = ⟨none, none⟩ := by
      simp only [outcome, Observer.observe, henabled, Bool.not_false, if_true]
    rw [ho] at h
    exact nomatch h

end

/-- A wrapped session, after `generation` inputs. -/
def sampleCall (nowMs : Int) (generation : Int) : Call where
  id := "worker"
  object := 0
  session :=
    { type := "wrapped", sessionEpoch := .value "epoch", ownerWs := .value ⟨1, true⟩
      interactionOwnerGeneration := .value "owner", interactionInputGeneration := some generation
      outputRingTotalBytes := some 0, lastActualOutputAt := some "0", lastActivityAt := some "0"
      createdAt := some "0", lastConnectedAt := some "0", bridgeReadSide := none
      bridgeHeartbeatAt := none }
  nowMs := nowMs
  machineId := some "host"
  activityState := none
  ready := none
  process := none

def sampleConfig : Config where
  enabled := true
  thresholdMs := 1000
  debounceMs := 100
  freshnessMs := 5000
  maxPerSweep := 64
  thresholdMs_bounds := by decide
  debounceMs_bounds := by decide
  freshnessMs_bounds := by decide
  maxPerSweep_bounds := by decide

/-- Two observations go out, and the input between them is the reset. -/
theorem emits_once_sample :
    ResetIn (fun _ => some 0) 0 [sampleCall 0 0, sampleCall 1000 0, sampleCall 1100 0]
      [sampleCall 3200 1, sampleCall 4200 1] := by
  have h : ((outcome (fun _ => some 0) sampleConfig
      [sampleCall 0 0, sampleCall 1000 0, sampleCall 1100 0, sampleCall 3200 1, sampleCall 4200 1]
      (sampleCall 4300 1)).emission).isSome := by decide +kernel
  exact (emits_once (by unfold Nondecreasing; decide +kernel) (Option.some_get h).symm).1
    [sampleCall 0 0, sampleCall 1000 0] (sampleCall 1100 0) [sampleCall 3200 1, sampleCall 4200 1]
    rfl rfl (by decide +kernel)

end Telepty.SustainedIdle
