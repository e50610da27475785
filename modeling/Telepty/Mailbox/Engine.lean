import Telepty.Mailbox.Runs

/-!
# The delivery engine

`DeliveryEngine` on one session. A tick recovers, expires, dequeues one message, fences it and calls
`deliverFn`; the result is recorded when it arrives. Every mailbox call takes the lock by itself, so
calls of other actors come between any two of them, and the process can die at any point. A mailbox
call of the engine can be refused for the lock, or throw after some of its writes.

`log` is a history variable: the calls of `deliverFn`, and the failures that were recorded for them,
the newest first.
-/

namespace Telepty.Mailbox

open Infra

/-! ## The engine -/

/-- How far a tick is, and with which message. -/
inductive Phase where
  | idle
  | recovered
  | swept
  | dequeued (m : Message)
  /-- the fence is unavailable, the callback will not be invoked -/
  | unfenced (m : Message)
  | fenced (m : Message)
  /-- `await deliverFn(sessionId, msg)` -/
  | delivering (m : Message)

/-- How a mailbox call of the engine ends. -/
inductive Fate where
  | performed
  | crashed (c : Crash)
  | lockRefused
  /-- it throws after as many writes -/
  | failed (c : Crash)

/-- What `deliverFn` resolves to. -/
inductive Delivery where
  | success (proof : Proof)
  | uncertain
  | failed (error : Text)
  | thrown

inductive Deed where
  | invoked (id : Text)
  | nacked (id : Text)
  deriving DecidableEq

structure World where
  files : Files
  phase : Phase
  log : List Deed

def World.initial : World := ⟨.absent, .idle, []⟩

inductive Event where
  /-- another actor's call; `dies` where that actor is the engine's own process and a crash ends
  both -/
  | other (s : Step) (dies : Bool)
  /-- the next mailbox call of the tick -/
  | advance (now : Int) (fate : Fate)
  /-- `deliverFn` is called -/
  | invoke
  /-- the delivery's result is recorded -/
  | settle (now : Int) (d : Delivery) (fate : Fate)
  /-- the session is no longer to be processed -/
  | leave
  | restart

/-! ## Steps -/

/-- The mailbox call a tick makes next. -/
def Phase.call : Phase → Option Call
  | .idle => some .recoverInflight
  | .recovered => some .expireStale
  | .swept => some .dequeue
  | .dequeued m => some (.beginNonRetryableAttempt m.msgId)
  | .unfenced m =>
    some (.nack m.msgId "Delivery attempt fence unavailable; callback was not invoked.")
  | .fenced _ | .delivering _ => none

/-- The call that records a result. -/
def Delivery.call (m : Message) : Delivery → Call
  | .success proof => .ack m.msgId proof
  | .uncertain | .thrown => .withdraw m.msgId "delivery_outcome_unknown" ⟨true, true, none⟩
  | .failed error => .nack m.msgId (reasonOr error "delivery failed")

/-- What a call does to the files, `none` where it was refused. -/
def Fate.step (now : Int) (c : Call) : Fate → Option Step
  | .performed => some ⟨now, c, none⟩
  | .crashed k | .failed k => some ⟨now, c, some k⟩
  | .lockRefused => none

/-- The step of the mailbox that an event makes. -/
def World.stepOf (w : World) : Event → Option Step
  | .other s _ => some s
  | .advance now fate => w.phase.call.bind fun c => fate.step now c
  | .settle now d fate =>
    match w.phase with
    | .delivering m => fate.step now (d.call m)
    | _ => none
  | _ => none

/-- The next phase after an answer. -/
def Phase.onAnswer (a : Answer) : Phase → Phase
  | .idle => .recovered
  | .recovered => .swept
  | .swept =>
    match a with
    | .message (some m) => .dequeued m
    | _ => .idle
  | .dequeued m =>
    match a with
    | .flag true => .fenced m
    | _ => .unfenced m
  | .unfenced _ => .idle
  | p => p

/-- The next phase after a call was refused for the lock. -/
def Phase.onRefused : Phase → Phase
  | .dequeued m => .unfenced m
  | .idle | .recovered | .swept | .unfenced _ => .idle
  | p => p

/-- The next phase after a call threw for another reason. -/
def Phase.onFailed : Phase → Phase
  | .idle => .recovered
  | .recovered => .swept
  | .dequeued m => .unfenced m
  | .swept | .unfenced _ => .idle
  | p => p

variable (sid : Text) (cfg : Config)

def World.phaseAfter (w : World) : Event → Phase
  | .other _ dies => if dies then .idle else w.phase
  | .advance now fate =>
    match w.phase.call, fate with
    | some c, .performed => w.phase.onAnswer (perform sid cfg now w.files c).1
    | some _, .crashed _ => .idle
    | some _, .lockRefused => w.phase.onRefused
    | some _, .failed _ => w.phase.onFailed
    | none, _ => w.phase
  | .invoke =>
    match w.phase with
    | .fenced m => .delivering m
    | p => p
  | .settle _ _ _ =>
    match w.phase with
    | .delivering _ => .idle
    | p => p
  | .leave =>
    match w.phase with
    | .recovered | .swept => .idle
    | p => p
  | .restart => .idle

def World.filesAfter (w : World) (e : Event) : Files :=
  match w.stepOf e with
  | none => w.files
  | some s => s.after sid cfg w.files

/-- A failure counts as recorded when the message has another state row. -/
def World.logAfter (w : World) (e : Event) : List Deed :=
  match e, w.phase with
  | .invoke, .fenced m => .invoked m.msgId :: w.log
  | .settle _ (.failed _) _, .delivering m =>
    if (loadStates (w.filesAfter sid cfg e).journal).get? m.msgId
        = (loadStates w.files.journal).get? m.msgId then w.log
    else .nacked m.msgId :: w.log
  | _, _ => w.log

def World.step (w : World) (e : Event) : World :=
  ⟨w.filesAfter sid cfg e, w.phaseAfter sid cfg e, w.logAfter sid cfg e⟩

def World.run (w : World) (events : List Event) : World := events.foldl (World.step sid cfg) w

@[simp] theorem World.run_nil (w : World) : w.run sid cfg [] = w := rfl

@[simp] theorem World.run_cons (w : World) (e : Event) (events : List Event) :
    w.run sid cfg (e :: events) = (w.step sid cfg e).run sid cfg events := rfl

/-- Every event of a run meets a condition in the world it finds. -/
def World.Along (P : World → Event → Prop) : World → List Event → Prop
  | _, [] => True
  | w, e :: events => P w e ∧ Along P (w.step sid cfg e) events

variable {sid cfg}

/-- **An invariant of the events holds at the end of a run.** -/
theorem World.run_induction {P : World → Event → Prop} {I : World → Prop}
    (hstep : ∀ w e, I w → P w e → I (w.step sid cfg e)) {w : World} {events : List Event} (h : I w)
    (hp : World.Along sid cfg P w events) : I (w.run sid cfg events) := by
  induction events generalizing w with
  | nil => exact h
  | cons e events ih => exact ih (hstep w e h hp.1) hp.2

/-- An event keeps what its mailbox step keeps. -/
theorem World.files_step {I : Files → Prop} {w : World} {e : Event} (h : I w.files)
    (hs : ∀ s, w.stepOf e = some s → I (s.after sid cfg w.files)) :
    I (w.step sid cfg e).files := by
  show I (w.filesAfter sid cfg e)
  rw [filesAfter]
  split
  · exact h
  · next s hs' => exact hs s hs'

/-- An event whose mailbox call, if it makes one, is not cut. -/
def Event.whole : Event → Bool
  | .other s _ => s.crash.isNone
  | .advance _ fate | .settle _ _ fate =>
    match fate with
    | .performed | .lockRefused => true
    | _ => false
  | _ => true

theorem Fate.step_whole {now : Int} {c : Call} {fate : Fate} {s : Step}
    (h : fate = .performed ∨ fate = .lockRefused) (hs : fate.step now c = some s) :
    s.crash = none := by
  rcases h with rfl | rfl
  · cases hs
    rfl
  · cases hs

theorem World.stepOf_whole {w : World} {e : Event} {s : Step} (h : e.whole)
    (hs : w.stepOf e = some s) : s.crash = none := by
  have hfate : ∀ fate : Fate, (match fate with
      | .performed | .lockRefused => true
      | _ => false) = true → fate = .performed ∨ fate = .lockRefused := by
    intro fate hf
    cases fate <;> simp_all
  cases e with
  | other s' dies =>
    cases hs
    exact Option.isNone_iff_eq_none.mp h
  | advance now fate =>
    rw [stepOf, Option.bind_eq_some_iff] at hs
    obtain ⟨c, -, hs⟩ := hs
    exact Fate.step_whole (hfate fate h) hs
  | settle now d fate =>
    rw [stepOf] at hs
    split at hs
    · exact Fate.step_whole (hfate fate h) hs
    · cases hs
  | _ => cases hs

/-- A run of whole calls tears nothing. -/
theorem World.along_whole {w : World} {events : List Event} (h : ∀ e ∈ events, e.whole) :
    World.Along sid cfg (fun w e => ∀ s, w.stepOf e = some s →
      s.SpareState sid cfg w.files ∧ s.SpareInbox sid cfg w.files) w events := by
  induction events generalizing w with
  | nil => trivial
  | cons e events ih =>
    refine ⟨fun s hs => ?_, ih fun x hx => h x (List.mem_cons_of_mem _ hx)⟩
    have hc := stepOf_whole (h e List.mem_cons_self) hs
    exact ⟨Step.spareState_of_whole hc, Step.spareInbox_of_whole hc⟩

theorem World.Along.mono {P Q : World → Event → Prop} (h : ∀ w e, P w e → Q w e) {w : World}
    {events : List Event} (hp : World.Along sid cfg P w events) :
    World.Along sid cfg Q w events := by
  induction events generalizing w with
  | nil => trivial
  | cons e events ih => exact ⟨h _ _ hp.1, ih hp.2⟩

end Telepty.Mailbox
