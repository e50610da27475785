import Telepty.Ledger.Owner

/-!
# Runs of a store

One store directory and the owners that open it one after another. At most one owner is alive: the
daemon takes the lock, starts the owner thread, which opens the store, and passes the client's
messages to it one at a time. The process may die between two messages (`Act.crash`) or in any
file operation (`Env.fate`); what is left is the disk and what was posted.
-/

namespace Telepty.Ledger

open Infra Prog

structure Sys where
  owner : Option State
  disk : FS
  tick : Nat
  /-- what the owners have posted, each with the disk at that moment -/
  sent : List (Post × FS)

inductive Act where
  /-- the daemon takes the lock -/
  | lock (pid : Nat) (token : Text)
  /-- an owner is started and opens the store -/
  | start (pid : Nat) (token : Text) (liveSids : List Text)
  /-- a message of the client -/
  | send (msg : Message)
  | crash

namespace Sys

/-- What is left when the owner has handled a message. The worker entry answers an exception with
a message and keeps the owner. -/
def ofOutcome : Outcome State Post Unit → Sys
  | .done _ m => ⟨some m.mem, m.disk, m.tick, m.sent⟩
  | .raised e m => ⟨some m.mem, m.disk, m.tick,
      m.sent ++ [(.state .unavailable "owner_exception" e.message m.mem.epoch, m.disk)]⟩
  | .crashed m => ⟨none, m.disk, m.tick, m.sent⟩

def machine (sys : Sys) (s : State) : Machine State Post := ⟨s, sys.disk, sys.tick, sys.sent⟩

def start (o : Options) (sys : Sys) (pid : Nat) (token : Text) (liveSids : List Text) : Sys :=
  ofOutcome (openStore o liveSids (sys.machine (.initial pid token liveSids)))

def send (o : Options) (sys : Sys) (s : State) (msg : Message) : Sys :=
  ofOutcome (handle o msg (sys.machine s))

end Sys

/-- One step of the run. The lock is taken, and an owner started, only when none is alive. -/
def step (o : Options) (sys : Sys) (act : Act) : Sys :=
  match act, sys.owner with
  | .lock pid token, none =>
    let body := Lock.lockBody pid token (o.isoText (o.env.now sys.tick))
    { sys with disk := sys.disk.set lockPath (.file body) }
  | .start pid token liveSids, none => sys.start o pid token liveSids
  | .send msg, some s => sys.send o s msg
  | .crash, some _ => { sys with owner := none }
  | _, _ => sys

def run (o : Options) (sys : Sys) (acts : List Act) : Sys := acts.foldl (step o) sys

@[simp] theorem run_nil (o : Options) (sys : Sys) : run o sys [] = sys := rfl

@[simp] theorem run_cons (o : Options) (sys : Sys) (act : Act) (acts : List Act) :
    run o sys (act :: acts) = run o (step o sys act) acts := rfl

theorem run_append (o : Options) (sys : Sys) (acts acts' : List Act) :
    run o sys (acts ++ acts') = run o (run o sys acts) acts' := List.foldl_append

/-- What `handle` ensures of every end of a message holds of the system after it. -/
theorem Sys.of_wp {x : Owner Unit} {Q : Ensures State Post Unit} {m : Machine State Post}
    {P : Sys → Prop} (h : wp x Q m)
    (hd : ∀ m', Q.done () m' → P (ofOutcome (.done () m')))
    (hr : ∀ e m', Q.raised e m' → P (ofOutcome (.raised e m')))
    (hc : ∀ m', Q.crashed m' → P (ofOutcome (.crashed m'))) : P (ofOutcome (x m)) := by
  unfold wp at h
  cases hx : x m with
  | done a m' => rw [hx] at h; exact hd m' h
  | raised e m' => rw [hx] at h; exact hr e m' h
  | crashed m' => rw [hx] at h; exact hc m' h

/-! ## A store to try things on -/

/-- An environment that performs every operation. -/
def plainEnv : Env := ⟨fun _ => .perform, fun tick => tick, fun _ => "r"⟩

/-- The defaults of `createStore`, in an environment. -/
def defaultOptions (env : Env) : Options where
  env := env
  digests := nodeCrypto
  groupFrames := 64
  groupBytes := 262144
  compactFrames := 20000
  hotMaxRecords := 576
  hotMaxBytes := 67108864
  coldIndexMaxBytes := 67108864
  win32 := false
  isoText := natText
  loadTrackedInjections := fun _ => .error ⟨"SyntaxError", []⟩

/-- A disk without an owner, on which the daemon 7 holds the lock. -/
def lockedDisk (entries : List (Path × Node)) : Sys :=
  ⟨none, OrdMap.empty.setAll ([([], .dir), (lockPath, .file (Lock.lockBody 7 "T" "0"))] ++ entries), 0, []⟩

end Telepty.Ledger
