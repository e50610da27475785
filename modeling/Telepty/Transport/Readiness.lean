import Mathlib.Data.List.Infix
import Telepty.Session.Handoff

/-!
# Readiness milestones

`readiness-handshake.js`: the bridge of a session announces for each child it starts that the process
was started, and then that its input transport is ready. The daemon keeps the milestones of one owner
generation in the session record.

`beginOwnerGeneration` reads the owner generation from the record, and so do the others. Nothing is
assumed of what happens to the rest of the record between the calls: `other` puts anything in it. A
message is a JSON value with integer numbers, the time is an argument, and the diagnostic count of
refused frames is left out.
-/

namespace Telepty.Readiness

open Infra
open Interaction (byteLength)
open Registry (isSafeInteger intOf textWhere isTextIn intWithin)

/-! ## The record -/

/-- A member of a record: `none` for `undefined`, `some none` for `null`. -/
abbrev Member := Option (Option Text)

/-- `value === member` for a member of a message. -/
def sameValue : Option Json → Member → Bool
  | none, none => true
  | some .null, some none => true
  | some (.str s), some (some t) => s = t
  | _, _ => false

structure Started where
  childSeq : Int
  pid : Int
  observedAt : Text
  deriving DecidableEq

structure Ready where
  childSeq : Int
  observedAt : Text
  deriving DecidableEq

/-- `session.transportReadiness` -/
structure State where
  ownerGeneration : Member
  capable : Bool
  nonce : Text
  processStarted : Option Started
  inputTransportReady : Option Ready
  retiredChildSeq : Int
  clearedReason : Option Text
  deriving DecidableEq

/-- What the handshake reads of a session record. -/
structure Record where
  id : Text
  sessionEpoch : Option Text
  interactionOwnerGeneration : Member
  /-- `isOpen(session.ownerWs)` -/
  ownerOpen : Bool
  transportReadiness : Option State
  deriving DecidableEq

inductive Milestone where
  | processStarted
  | inputTransportReady
  deriving DecidableEq

def milestones : List (Text × Milestone) :=
  [("process_started", .processStarted), ("input_transport_ready", .inputTransportReady)]

/-! ## The calls -/

/-- `beginOwnerGeneration(session, { capable })` with the nonce it draws. -/
def beginOwnerGeneration (capable : Bool) (nonce : Text) (r : Record) : Record :=
  { r with
    transportReadiness :=
      some ⟨r.interactionOwnerGeneration, capable, nonce, none, none, 0, none⟩ }

/-- `current(session)` -/
def current (r : Record) : Option State :=
  r.transportReadiness.filter fun s => s.ownerGeneration = r.interactionOwnerGeneration

/-- `clearReadiness(session, reason)`; a reason that is no string is `none`. -/
def clearReadiness (reason : Option Text) (r : Record) : Record × Bool :=
  match current r with
  | none => (r, false)
  | some s =>
    let seq := max ((s.processStarted.map (·.childSeq)).getD 0)
      ((s.inputTransportReady.map (·.childSeq)).getD 0)
    ({ r with transportReadiness := some { s with
        retiredChildSeq := max s.retiredChildSeq seq
        processStarted := none
        inputTransportReady := none
        clearedReason := some (reason.getD "cleared") } }, true)

/-- `FRAME_MAX_BYTES` -/
def frameMaxBytes : Nat := 512

/-- The bytes of the frame without the members of its transport. -/
def frameBytes (msg : Json) : Nat :=
  byteLength (((msg.erase "connection_id").erase "sequence").erase "expires_at").stringify

/-- `NONCE.test(nonce)` -/
def nonceForm (nonce : Text) : Bool :=
  22 ≤ nonce.length && nonce.length ≤ 64 &&
    nonce.all fun c => ('A' ≤ c && c ≤ 'Z') || ('a' ≤ c && c ≤ 'z') || ('0' ≤ c && c ≤ '9') ||
      c = '_' || c = '-'

/-- `(session.sessionEpoch || null) === (msg.session_epoch ?? null)` -/
def sameEpoch (epoch : Option Text) (value : Option Json) : Bool :=
  match epoch.filter (· ≠ []), value with
  | none, none => true
  | none, some .null => true
  | some t, some (.str s) => s = t
  | _, _ => false

/-- The kind of a milestone frame of the schema. -/
def kindOf (msg : Json) : Option Milestone :=
  ((msg.field "type").bind Json.asText).bind fun type =>
    if intWithin 1 1 (msg.field "schema") then (milestones.find? (·.1 = type)).map (·.2) else none

def childSeq (msg : Json) : Int := intOf (msg.field "child_seq")

/-- The checks that both milestones share, from the size of the frame on: the reason of the first one
that fails, or the state. -/
def checkFrame (sessionId : Text) (msg : Json) (r : Record) : Except Text State :=
  if frameMaxBytes < frameBytes msg then .error "oversize"
  else match (current r).filter (·.capable) with
  | none => .error "not_negotiated"
  | some s =>
    if !sameValue (msg.field "owner_generation") r.interactionOwnerGeneration then
      .error "owner_generation"
    else if !textWhere (fun t => nonceForm t && t = s.nonce) (msg.field "readiness_nonce") then
      .error "nonce"
    else if !textWhere (· = sessionId) (msg.field "session_id") || r.id ≠ sessionId then
      .error "session_id"
    else if !sameEpoch r.sessionEpoch (msg.field "session_epoch") then .error "session_epoch"
    else if !isSafeInteger (msg.field "child_seq") || childSeq msg ≤ s.retiredChildSeq then
      .error "child_seq"
    else if (msg.field "data").isSome || (msg.field "payload").isSome then .error "payload_key"
    else if !r.ownerOpen then .error "owner_transport"
    else .ok s

/-- The branch of `process_started`. -/
def acceptStarted (msg : Json) (at_ : Text) (s : State) : Except Text State :=
  if s.processStarted.any fun p => childSeq msg ≤ p.childSeq then .error "replay"
  else if !isSafeInteger (msg.field "pid") || intOf (msg.field "pid") ≤ 0 ||
      !isTextIn ["unverified"] (msg.field "exec") then .error "field"
  else .ok { s with
    retiredChildSeq := (s.processStarted.map fun p => max s.retiredChildSeq p.childSeq).getD
      s.retiredChildSeq
    processStarted := some ⟨childSeq msg, intOf (msg.field "pid"), at_⟩
    inputTransportReady := none
    clearedReason := none }

/-- The branch of `input_transport_ready`. -/
def acceptReady (msg : Json) (at_ : Text) (s : State) : Except Text State :=
  if !s.processStarted.any fun p => p.childSeq = childSeq msg then .error "process_not_started"
  else if s.inputTransportReady.isSome then .error "replay"
  else if !isTextIn ["attached"] (msg.field "input_loop") then .error "field"
  else .ok { s with inputTransportReady := some ⟨childSeq msg, at_⟩ }

/-- `acceptMilestone(sessionId, session, msg)` -/
def acceptMilestone (sessionId : Text) (msg : Json) (at_ : Text) (r : Record) :
    Record × Except Text Milestone :=
  match kindOf msg with
  | none => (r, .error "shape")
  | some kind =>
    let accepted := do
      let s ← checkFrame sessionId msg r
      match kind with
      | .processStarted => acceptStarted msg at_ s
      | .inputTransportReady => acceptReady msg at_ s
    match accepted with
    | .error reason => (r, .error reason)
    | .ok s => ({ r with transportReadiness := some s }, .ok kind)

/-! ## Runs -/

inductive Op where
  | beginOwnerGeneration (capable : Bool) (nonce : Text)
  | acceptMilestone (sessionId : Text) (msg : Json) (at_ : Text)
  | clearReadiness (reason : Option Text)
  /-- what is not of the handshake changes -/
  | other (id : Text) (sessionEpoch : Option Text) (interactionOwnerGeneration : Member)
    (ownerOpen : Bool)

def step (r : Record) : Op → Record
  | .beginOwnerGeneration capable nonce => beginOwnerGeneration capable nonce r
  | .acceptMilestone sessionId msg at_ => (acceptMilestone sessionId msg at_ r).1
  | .clearReadiness reason => (clearReadiness reason r).1
  | .other id sessionEpoch generation ownerOpen =>
    { r with
      id := id
      sessionEpoch := sessionEpoch
      interactionOwnerGeneration := generation
      ownerOpen := ownerOpen }

def Record.fresh : Record := ⟨[], none, none, false, none⟩

def run (ops : List Op) : Record := ops.foldl step .fresh

/-- The owner generation after the calls. -/
def generation (ops : List Op) : Member := (run ops).interactionOwnerGeneration

/-- The milestone that a call accepts after others, with its child. -/
def accepts (ops : List Op) : Op → Option (Milestone × Int)
  | .acceptMilestone sessionId msg at_ =>
    (acceptMilestone sessionId msg at_ (run ops)).2.toOption.map fun kind => (kind, childSeq msg)
  | _ => none

def Op.begins : Op → Bool
  | .beginOwnerGeneration .. => true
  | _ => false

/-- A milestone of the child is recorded. -/
def Holds (r : Record) (child : Int) : Prop :=
  ∃ s, r.transportReadiness = some s ∧
    ((∃ p, s.processStarted = some p ∧ p.childSeq = child) ∨
      ∃ p, s.inputTransportReady = some p ∧ p.childSeq = child)

/-- None of the calls that come after others begins the owner generation. -/
def NotBegun (g : Member) (before ops : List Op) : Prop :=
  ∀ mid op rest, ops = mid ++ op :: rest → op.begins → generation (before ++ mid) ≠ g

/-- The milestones are ordered after the calls. -/
structure Ordered (ops : List Op) : Prop where
  /-- readiness is accepted only for a child that was started in this owner generation -/
  started : ∀ op child, accepts ops op = some (.inputTransportReady, child) →
    ∃ before op' mid, ops = before ++ op' :: mid ∧ accepts before op' = some (.processStarted, child) ∧
      generation before = generation ops ∧ ∀ o ∈ mid, o.begins = false
  /-- and recorded only beside it -/
  recorded : ∀ s ready, (run ops).transportReadiness = some s → s.inputTransportReady = some ready →
    ∃ p, s.processStarted = some p ∧ p.childSeq = ready.childSeq
  /-- a child that a call retired or cleared is not accepted in that owner generation again -/
  retired : ∀ before op mid child, ops = before ++ op :: mid → op.begins = false →
    Holds (run before) child → ¬Holds (run (before ++ [op])) child →
    generation ops = generation before → NotBegun (generation before) (before ++ [op]) mid →
    ∀ op' kind, accepts ops op' ≠ some (kind, child)
  /-- a milestone of another owner generation is refused -/
  old : ∀ sessionId msg at_, sameValue (msg.field "owner_generation") (generation ops) = false →
    ∃ reason, acceptMilestone sessionId msg at_ (run ops) = (run ops, .error reason)
  /-- and what is refused changes nothing -/
  refused : ∀ sessionId msg at_ reason, (acceptMilestone sessionId msg at_ (run ops)).2 = .error reason →
    (acceptMilestone sessionId msg at_ (run ops)).1 = run ops

/-! ## What a call does -/

section

variable {r : Record} {s s' : State} {msg : Json} {sessionId at_ : Text} {child : Int}

theorem current_eq_some : current r = some s ↔
    r.transportReadiness = some s ∧ s.ownerGeneration = r.interactionOwnerGeneration := by
  rw [current, Option.filter_eq_some_iff, decide_eq_true_eq]

theorem checkFrame_ok (h : checkFrame sessionId msg r = .ok s) :
    current r = some s ∧ s.retiredChildSeq < childSeq msg ∧
      sameValue (msg.field "owner_generation") r.interactionOwnerGeneration = true := by
  unfold checkFrame at h
  split at h
  · cases h
  split at h
  · cases h
  next s₀ hs₀ =>
  split at h
  · cases h
  next hgen =>
  split at h
  · cases h
  split at h
  · cases h
  split at h
  · cases h
  split at h
  · cases h
  next hchild =>
  split at h
  · cases h
  split at h
  · cases h
  cases h
  rw [Bool.or_eq_true, not_or, decide_eq_true_eq, Int.not_le] at hchild
  exact ⟨(Option.filter_eq_some_iff.mp hs₀).1, hchild.2, by simpa using hgen⟩

theorem acceptStarted_ok (h : acceptStarted msg at_ s = .ok s') :
    (∀ p, s.processStarted = some p → p.childSeq < childSeq msg) ∧
      s' = { s with
        retiredChildSeq := (s.processStarted.map fun p => max s.retiredChildSeq p.childSeq).getD
          s.retiredChildSeq
        processStarted := some ⟨childSeq msg, intOf (msg.field "pid"), at_⟩
        inputTransportReady := none
        clearedReason := none } := by
  unfold acceptStarted at h
  split at h
  · cases h
  next hreplay =>
  split at h
  · cases h
  cases h
  refine ⟨fun p hp => ?_, rfl⟩
  rw [hp, Option.any_some, decide_eq_true_eq] at hreplay
  exact Int.not_le.mp hreplay

theorem acceptReady_ok (h : acceptReady msg at_ s = .ok s') :
    (∃ p, s.processStarted = some p ∧ p.childSeq = childSeq msg) ∧ s.inputTransportReady = none ∧
      s' = { s with inputTransportReady := some ⟨childSeq msg, at_⟩ } := by
  unfold acceptReady at h
  split at h
  · cases h
  next hstarted =>
  split at h
  · cases h
  next hready =>
  split at h
  · cases h
  cases h
  rw [Bool.not_eq_true, Bool.not_eq_false', Option.any_eq_true] at hstarted
  obtain ⟨p, hp, hchild⟩ := hstarted
  refine ⟨⟨p, hp, of_decide_eq_true hchild⟩, ?_, rfl⟩
  rwa [Option.isSome_iff_ne_none, ne_eq, not_not] at hready

/-- The state that an accepted milestone leaves. -/
def Moves (kind : Milestone) (msg : Json) (at_ : Text) (s s' : State) : Prop :=
  match kind with
  | .processStarted => acceptStarted msg at_ s = .ok s'
  | .inputTransportReady => acceptReady msg at_ s = .ok s'

/-- **A milestone is refused and changes nothing, or it is accepted** in the state of the current owner
generation. -/
theorem acceptMilestone_cases (sessionId : Text) (msg : Json) (at_ : Text) (r : Record) :
    (∃ reason, acceptMilestone sessionId msg at_ r = (r, .error reason)) ∨
      ∃ kind s s', acceptMilestone sessionId msg at_ r =
          ({ r with transportReadiness := some s' }, .ok kind) ∧
        checkFrame sessionId msg r = .ok s ∧ Moves kind msg at_ s s' := by
  unfold acceptMilestone
  split
  · exact .inl ⟨_, rfl⟩
  next kind hkind =>
  cases hcheck : checkFrame sessionId msg r with
  | error reason => exact .inl ⟨reason, rfl⟩
  | ok s =>
    cases kind with
    | processStarted =>
      cases hs : acceptStarted msg at_ s with
      | error reason => exact .inl ⟨reason, by simp only [Bind.bind, Except.bind, hs]⟩
      | ok s' => exact .inr ⟨.processStarted, s, s', by simp only [Bind.bind, Except.bind, hs], rfl, hs⟩
    | inputTransportReady =>
      cases hs : acceptReady msg at_ s with
      | error reason => exact .inl ⟨reason, by simp only [Bind.bind, Except.bind, hs]⟩
      | ok s' => exact .inr ⟨.inputTransportReady, s, s', by simp only [Bind.bind, Except.bind, hs], rfl, hs⟩

theorem run_nil : run [] = .fresh := rfl

theorem run_concat (ops : List Op) (op : Op) : run (ops ++ [op]) = step (run ops) op := by
  rw [run, List.foldl_append]
  rfl

/-! ## Children -/

/-- What holds of every state of the handshake: readiness stands beside its child, and a child that is
recorded is not retired. -/
structure State.Sound (s : State) : Prop where
  beside : ∀ ready, s.inputTransportReady = some ready →
    ∃ p, s.processStarted = some p ∧ p.childSeq = ready.childSeq
  standing : ∀ p, s.processStarted = some p → s.retiredChildSeq < p.childSeq

theorem Moves.sound {kind : Milestone} (hs : s.Sound) (hchild : s.retiredChildSeq < childSeq msg)
    (h : Moves kind msg at_ s s') : s'.Sound := by
  cases kind with
  | processStarted =>
    obtain ⟨hlast, rfl⟩ := acceptStarted_ok h
    refine ⟨nofun, fun p hp => ?_⟩
    cases hp
    cases hp : s.processStarted with
    | none => exact hchild
    | some p => exact Int.max_lt.mpr ⟨hchild, hlast p hp⟩
  | inputTransportReady =>
    obtain ⟨⟨p, hp, hpc⟩, -, rfl⟩ := acceptReady_ok h
    refine ⟨fun ready hready => ⟨p, hp, ?_⟩, hs.standing⟩
    cases hready
    exact hpc

def Record.Sound (r : Record) : Prop := ∀ s, r.transportReadiness = some s → s.Sound

theorem Record.Sound.step (h : r.Sound) (op : Op) : (step r op).Sound := by
  cases op with
  | beginOwnerGeneration capable nonce =>
    rintro s ⟨⟩
    exact ⟨nofun, nofun⟩
  | acceptMilestone sessionId msg at_ =>
    rw [Readiness.step]
    rcases acceptMilestone_cases sessionId msg at_ r with ⟨reason, heq⟩ | ⟨kind, s, s', heq, hcheck, hmoves⟩
    · rw [heq]
      exact h
    · rw [heq]
      rintro _ ⟨⟩
      obtain ⟨hcur, hchild, -⟩ := checkFrame_ok hcheck
      exact hmoves.sound (h s (current_eq_some.mp hcur).1) hchild
  | clearReadiness reason =>
    rw [Readiness.step, clearReadiness]
    split
    · exact h
    · rintro _ ⟨⟩
      exact ⟨nofun, nofun⟩
  | other id epoch g isOpen => exact h

theorem run_sound (ops : List Op) : (run ops).Sound := by
  induction ops using List.reverseRecOn with
  | nil =>
    intro s hs
    rw [run_nil, Record.fresh] at hs
    cases hs
  | append_singleton ops op ih =>
    rw [run_concat]
    exact ih.step op

/-- In its owner generation the child is retired. -/
def RetiredIn (g : Member) (child : Int) (r : Record) : Prop :=
  ∀ s, r.transportReadiness = some s → s.ownerGeneration = g → child ≤ s.retiredChildSeq

theorem Moves.retired {kind : Milestone} (h : Moves kind msg at_ s s') :
    s'.ownerGeneration = s.ownerGeneration ∧ s.retiredChildSeq ≤ s'.retiredChildSeq := by
  cases kind with
  | processStarted =>
    obtain ⟨-, rfl⟩ := acceptStarted_ok h
    refine ⟨rfl, ?_⟩
    cases s.processStarted with
    | none => exact Int.le_refl _
    | some p => exact Int.le_max_left _ _
  | inputTransportReady =>
    obtain ⟨-, -, rfl⟩ := acceptReady_ok h
    exact ⟨rfl, Int.le_refl _⟩

/-- **What is retired stays retired** until its owner generation is begun again. -/
theorem RetiredIn.step {g : Member} (h : RetiredIn g child r) {op : Op}
    (hop : op.begins → r.interactionOwnerGeneration ≠ g) : RetiredIn g child (step r op) := by
  cases op with
  | beginOwnerGeneration capable nonce =>
    rintro s ⟨⟩ hg
    exact absurd hg (hop rfl)
  | acceptMilestone sessionId msg at_ =>
    rw [Readiness.step]
    rcases acceptMilestone_cases sessionId msg at_ r with ⟨reason, heq⟩ | ⟨kind, s, s', heq, hcheck, hmoves⟩
    · rw [heq]
      exact h
    · rw [heq]
      rintro _ ⟨⟩ hg
      obtain ⟨hgen, hle⟩ := hmoves.retired
      obtain ⟨hs, -⟩ := current_eq_some.mp (checkFrame_ok hcheck).1
      exact Int.le_trans (h s hs (hgen ▸ hg)) hle
  | clearReadiness reason =>
    rw [Readiness.step, clearReadiness]
    split
    · exact h
    · next s hs =>
      rintro _ ⟨⟩ hg
      exact Int.le_trans (h s (current_eq_some.mp hs).1 hg) (Int.le_max_left _ _)
  | other id epoch g' isOpen => exact h

/-- **A call that drops a child retires it.** -/
theorem retiredIn_of_drop (hr : r.Sound) {op : Op} (hop : op.begins = false) (hholds : Holds r child)
    (hdrop : ¬Holds (step r op) child) :
    RetiredIn r.interactionOwnerGeneration child (step r op) := by
  obtain ⟨s, hs, hchild⟩ := hholds
  have hstarted : ∃ p, s.processStarted = some p ∧ p.childSeq = child := by
    rcases hchild with h | ⟨ready, hready, rfl⟩
    · exact h
    · exact (hr s hs).beside ready hready
  obtain ⟨p, hp, rfl⟩ := hstarted
  cases op with
  | beginOwnerGeneration capable nonce => cases hop
  | acceptMilestone sessionId msg at_ =>
    rw [step] at hdrop ⊢
    rcases acceptMilestone_cases sessionId msg at_ r with ⟨reason, heq⟩ | ⟨kind, s₀, s', heq, hcheck, hmoves⟩
    · rw [heq] at hdrop
      exact absurd ⟨s, hs, .inl ⟨p, hp, rfl⟩⟩ hdrop
    · rw [heq] at hdrop ⊢
      obtain ⟨hs₀, -⟩ := current_eq_some.mp (checkFrame_ok hcheck).1
      obtain rfl : s₀ = s := Option.some.inj (hs₀.symm.trans hs)
      cases kind with
      | processStarted =>
        obtain ⟨-, rfl⟩ := acceptStarted_ok hmoves
        rintro _ ⟨⟩ -
        dsimp only
        rw [hp]
        exact Int.le_max_right _ _
      | inputTransportReady =>
        obtain ⟨-, -, rfl⟩ := acceptReady_ok hmoves
        exact absurd ⟨_, rfl, .inl ⟨p, hp, rfl⟩⟩ hdrop
  | clearReadiness reason =>
    rw [step, clearReadiness] at hdrop ⊢
    split at hdrop
    · exact absurd ⟨s, hs, .inl ⟨p, hp, rfl⟩⟩ hdrop
    · next s₀ hs₀ =>
      obtain rfl : s₀ = s := Option.some.inj ((current_eq_some.mp hs₀).1.symm.trans hs)
      rintro _ ⟨⟩ -
      dsimp only
      rw [hp]
      exact Int.le_trans (Int.le_max_left _ _) (Int.le_max_right _ _)
  | other id epoch g isOpen => exact absurd ⟨s, hs, .inl ⟨p, hp, rfl⟩⟩ hdrop

/-! ## Every run -/

theorem accepts_eq_some {ops : List Op} {op : Op} {kind : Milestone}
    (h : accepts ops op = some (kind, child)) :
    ∃ sessionId msg at_ s s', op = .acceptMilestone sessionId msg at_ ∧ childSeq msg = child ∧
      acceptMilestone sessionId msg at_ (run ops) =
        ({ run ops with transportReadiness := some s' }, .ok kind) ∧
      checkFrame sessionId msg (run ops) = .ok s ∧ Moves kind msg at_ s s' := by
  cases op with
  | acceptMilestone sessionId msg at_ =>
    rw [accepts] at h
    rcases acceptMilestone_cases sessionId msg at_ (run ops) with
      ⟨reason, heq⟩ | ⟨kind', s, s', heq, hcheck, hmoves⟩
    · rw [heq] at h
      cases h
    · rw [heq] at h
      cases h
      exact ⟨sessionId, msg, at_, s, s', rfl, rfl, heq, hcheck, hmoves⟩
  | beginOwnerGeneration capable nonce => cases h
  | clearReadiness reason => cases h
  | other id epoch g isOpen => cases h

/-- The child that is recorded as started was accepted as such in the owner generation of the state. -/
theorem started_before (ops : List Op) :
    ∀ s p, (run ops).transportReadiness = some s → s.processStarted = some p →
      ∃ before op mid, ops = before ++ op :: mid ∧
        accepts before op = some (.processStarted, p.childSeq) ∧
        generation before = s.ownerGeneration ∧ ∀ o ∈ mid, o.begins = false := by
  induction ops using List.reverseRecOn with
  | nil =>
    intro s p hs
    rw [run_nil, Record.fresh] at hs
    cases hs
  | append_singleton ops op ih =>
    intro s p hs hp
    rw [run_concat] at hs
    -- the state of before, with the same child
    have hearlier : ∀ s₀, (run ops).transportReadiness = some s₀ → s₀.processStarted = some p →
        s₀.ownerGeneration = s.ownerGeneration → op.begins = false →
        ∃ before op' mid, ops ++ [op] = before ++ op' :: mid ∧
          accepts before op' = some (.processStarted, p.childSeq) ∧
          generation before = s.ownerGeneration ∧ ∀ o ∈ mid, o.begins = false := by
      intro s₀ hs₀ hp₀ hgen hop
      obtain ⟨before, op', mid, rfl, hacc, hg, hmid⟩ := ih s₀ p hs₀ hp₀
      refine ⟨before, op', mid ++ [op], by simp, hacc, hg.trans hgen, fun o ho => ?_⟩
      rcases List.mem_append.mp ho with ho | ho
      · exact hmid o ho
      · rwa [List.mem_singleton.mp ho]
    cases op with
    | beginOwnerGeneration capable nonce =>
      cases hs
      cases hp
    | acceptMilestone sessionId msg at_ =>
      rw [step] at hs
      rcases acceptMilestone_cases sessionId msg at_ (run ops) with
        ⟨reason, heq⟩ | ⟨kind, s₀, s', heq, hcheck, hmoves⟩
      · rw [heq] at hs
        exact hearlier s hs hp rfl rfl
      · rw [heq] at hs
        cases hs
        obtain ⟨hs₀, hg₀⟩ := current_eq_some.mp (checkFrame_ok hcheck).1
        cases kind with
        | processStarted =>
          obtain ⟨-, rfl⟩ := acceptStarted_ok hmoves
          cases hp
          refine ⟨ops, _, [], rfl, ?_, hg₀.symm, nofun⟩
          rw [accepts, heq]
          rfl
        | inputTransportReady =>
          obtain ⟨-, -, rfl⟩ := acceptReady_ok hmoves
          exact hearlier s₀ hs₀ hp rfl rfl
    | clearReadiness reason =>
      rw [step, clearReadiness] at hs
      split at hs
      · exact hearlier s hs hp rfl rfl
      · cases hs
        cases hp
    | other id epoch g isOpen => exact hearlier s hs hp rfl rfl

theorem retiredIn_run {g : Member} (before ops : List Op) (h : RetiredIn g child (run before))
    (hbegun : NotBegun g before ops) : RetiredIn g child (run (before ++ ops)) := by
  induction ops using List.reverseRecOn with
  | nil => rwa [List.append_nil]
  | append_singleton ops op ih =>
    rw [← List.append_assoc, run_concat]
    refine (ih fun mid op' rest heq => hbegun mid op' (rest ++ [op]) (by rw [heq]; simp)).step fun hop => ?_
    exact hbegun ops op [] rfl hop

/-- **Milestones are ordered per child**, after any calls in any order. -/
theorem run_ordered (ops : List Op) : Ordered ops where
  started op child h := by
    obtain ⟨sessionId, msg, at_, s, s', -, rfl, -, hcheck, hmoves⟩ := accepts_eq_some h
    obtain ⟨⟨p, hp, hchild⟩, -⟩ := acceptReady_ok hmoves
    obtain ⟨hs, hg⟩ := current_eq_some.mp (checkFrame_ok hcheck).1
    obtain ⟨before, op', mid, heq, hacc, hgen, hmid⟩ := started_before ops s p hs hp
    exact ⟨before, op', mid, heq, hchild ▸ hacc, hgen.trans hg, hmid⟩
  recorded s ready hs hready := (run_sound ops s hs).beside ready hready
  retired before op mid child heq hop hholds hdrop hgen hbegun op' kind hacc := by
    obtain ⟨sessionId, msg, at_, s, s', -, rfl, -, hcheck, -⟩ := accepts_eq_some hacc
    have hsplit : ops = before ++ [op] ++ mid := by rw [heq, List.append_assoc]; rfl
    have hretired : RetiredIn (generation before) (childSeq msg) (run (before ++ [op])) := by
      rw [run_concat] at hdrop ⊢
      exact retiredIn_of_drop (run_sound before) hop hholds hdrop
    have hlast := retiredIn_run (before ++ [op]) mid hretired hbegun
    rw [← hsplit] at hlast
    obtain ⟨hcur, hlt, -⟩ := checkFrame_ok hcheck
    obtain ⟨hs, hg⟩ := current_eq_some.mp hcur
    have := hlast s hs (hg.trans hgen)
    omega
  old sessionId msg at_ h := by
    rcases acceptMilestone_cases sessionId msg at_ (run ops) with heq | ⟨kind, s, s', -, hcheck, -⟩
    · exact heq
    · rw [generation, (checkFrame_ok hcheck).2.2] at h
      cases h
  refused sessionId msg at_ reason h := by
    rcases acceptMilestone_cases sessionId msg at_ (run ops) with
      ⟨reason', heq⟩ | ⟨kind, s, s', heq, -, -⟩
    · rw [heq]
    · rw [heq] at h
      cases h

end

/-- A milestone frame of child 1. -/
def frameOf (type : Text) (more : List (Text × Json)) : Json :=
  .obj <| ("type", .str type) :: ("schema", .num 1) :: ("session_id", .str "s") ::
    ("session_epoch", .null) :: ("owner_generation", .str "g") ::
    ("readiness_nonce", .str "0123456789012345678901") :: ("child_seq", .num 1) :: more

def startedOp : Op := .acceptMilestone "s"
  (frameOf "process_started" [("pid", .num 7), ("exec", .str "unverified")]) "t"

def readyOp : Op := .acceptMilestone "s"
  (frameOf "input_transport_ready" [("input_loop", .str "attached")]) "t"

def claimedOps : List Op :=
  [.other "s" none (some (some "g")) true, .beginOwnerGeneration true "0123456789012345678901"]

set_option maxRecDepth 100000 in
example : accepts (claimedOps ++ [startedOp]) readyOp = some (.inputTransportReady, 1) := by
  decide +kernel

end Telepty.Readiness
