import Telepty.Infra.FileSystem

/-!
# Processes that write files and may die between any two operations

A program runs on a `Machine`: its own memory, the disk, the number of file operations issued so
far and the messages posted so far, each with the disk it was posted over. An environment fixes
beforehand what happens to each operation: it is performed, a write is cut short and its count
returned, it fails (a write after any prefix of its bytes), or the process dies there (a write
after any prefix of its bytes). A run therefore ends in one of three ways, and after a crash only
the disk and the posted messages count.

Reads are not operations in this sense: they change nothing and are made on the disk directly.

`wp x Q m` says that the program `x` started on the machine `m` ends as the three-part
postcondition `Q` says.
-/

namespace Telepty.Infra

/-- What the environment does to one file operation. -/
inductive Fate where
  | perform
  /-- a write stores this many bytes and returns the count -/
  | short (count : Nat)
  /-- the call throws; a write has stored this many bytes -/
  | fail (kept : Nat) (code : Errno)
  /-- the process dies in the call; a write has stored this many bytes -/
  | crash (kept : Nat)

/-- An environment: the fate of the operation with each number, and the time and the random
numbers that the process reads when that many operations have been issued. -/
structure Env where
  fate : Nat → Fate
  now : Nat → Nat
  random : Nat → Text

/-- No write is cut short silently. -/
def Env.NoShort (env : Env) : Prop := ∀ n count, env.fate n ≠ .short count

/-- Every operation is performed unless the process dies in it. -/
def Env.Calm (env : Env) : Prop := ∀ n, env.fate n = .perform ∨ ∃ kept, env.fate n = .crash kept

theorem Env.Calm.noShort {env : Env} (h : env.Calm) : env.NoShort := fun n count hc => by
  rcases h n with hp | ⟨k, hk⟩
  · rw [hp] at hc; cases hc
  · rw [hk] at hc; cases hc

inductive FileOp where
  | open (flag : FS.OpenFlag) (p : Path)
  | write (p : Path) (bytes : Bytes)
  | fsync (p : Path)
  | close (p : Path)
  | mkdir (p : Path)
  | mkdirp (p : Path)
  | rename (src dst : Path)
  | rmdir (p : Path)
  | unlink (p : Path)

/-- What a performed operation does to the disk. -/
def FileOp.run (fs : FS) : FileOp → Except Errno FS
  | .open flag p => fs.openFile flag p
  | .write p b => .ok (fs.append p b)
  | .fsync _ => .ok fs
  | .close _ => .ok fs
  | .mkdir p => fs.mkdir p
  | .mkdirp p => fs.mkdirp p
  | .rename src dst => fs.rename src dst
  | .rmdir p => fs.rmdir p
  | .unlink p => fs.unlink p

/-- The bytes an operation is asked to write. -/
def FileOp.size : FileOp → Nat
  | .write _ b => b.length
  | _ => 0

/-- What an operation that stopped after `kept` bytes did to the disk. -/
def FileOp.cut (fs : FS) (kept : Nat) : FileOp → FS
  | .write p b => fs.append p (b.take kept)
  | _ => fs

/-- An `Error` with its `code`, and its message where the code has none. -/
structure Failure where
  code : Text
  message : Text := []
  deriving DecidableEq

theorem bind_eq_ok {ε α β : Type} {x : Except ε α} {f : α → Except ε β} {r : β}
    (h : (x >>= f) = .ok r) : ∃ v, x = .ok v ∧ f v = .ok r := by
  cases x with
  | ok v => exact ⟨v, rfl, h⟩
  | error e => cases h

structure Machine (σ μ : Type) where
  mem : σ
  disk : FS
  tick : Nat
  sent : List (μ × FS)

inductive Outcome (σ μ α : Type) where
  | done (a : α) (m : Machine σ μ)
  | raised (e : Failure) (m : Machine σ μ)
  | crashed (m : Machine σ μ)

def Prog (σ μ α : Type) : Type := Machine σ μ → Outcome σ μ α

namespace Prog

variable {σ μ α β : Type}

def bind (x : Prog σ μ α) (f : α → Prog σ μ β) : Prog σ μ β := fun m =>
  match x m with
  | .done a m => f a m
  | .raised e m => .raised e m
  | .crashed m => .crashed m

instance : Monad (Prog σ μ) where
  pure a := fun m => .done a m
  bind := bind

def raise (e : Failure) : Prog σ μ α := fun m => .raised e m

/-- `try { x } catch (error) { h(error) }` -/
def catching (x : Prog σ μ α) (h : Failure → Prog σ μ α) : Prog σ μ α := fun m =>
  match x m with
  | .done a m => .done a m
  | .raised e m => h e m
  | .crashed m => .crashed m

/-- `try { x } finally { y }` -/
def finallyDo (x : Prog σ μ α) (y : Prog σ μ Unit) : Prog σ μ α :=
  (x.catching fun e => y >>= fun _ => raise e) >>= fun a => y >>= fun _ => pure a

def get : Prog σ μ σ := fun m => .done m.mem m

def disk : Prog σ μ FS := fun m => .done m.disk m

def modify (f : σ → σ) : Prog σ μ Unit := fun m => .done () { m with mem := f m.mem }

/-- Posts a message. -/
def post (x : μ) : Prog σ μ Unit := fun m => .done () { m with sent := m.sent ++ [(x, m.disk)] }

def now (env : Env) : Prog σ μ Nat := fun m => .done (env.now m.tick) m

def random (env : Env) : Prog σ μ Text := fun m => .done (env.random m.tick) m

def ofExcept : Except Failure α → Prog σ μ α
  | .ok a => pure a
  | .error e => raise e

/-- An operation that the environment lets through. -/
def perform (op : FileOp) : Prog σ μ Nat := fun m =>
  match op.run m.disk with
  | .ok fs => .done op.size { m with disk := fs, tick := m.tick + 1 }
  | .error e => .raised ⟨e.text, []⟩ { m with tick := m.tick + 1 }

/-- One file operation; its value is the number of bytes written. -/
def sys (env : Env) (op : FileOp) : Prog σ μ Nat := fun m =>
  match env.fate m.tick with
  | .perform => perform op m
  | .short count =>
    match op with
    | .write p b =>
      .done (min count b.length) { m with disk := m.disk.append p (b.take count), tick := m.tick + 1 }
    | op => perform op m
  | .fail kept code =>
    .raised ⟨code.text, []⟩ { m with disk := op.cut m.disk kept, tick := m.tick + 1 }
  | .crash kept => .crashed { m with disk := op.cut m.disk kept, tick := m.tick + 1 }

/-! ## Weakest preconditions -/

/-- What must hold when a run ends with a value, with an error, and with a crash. -/
structure Ensures (σ μ α : Type) where
  done : α → Machine σ μ → Prop
  raised : Failure → Machine σ μ → Prop
  crashed : Machine σ μ → Prop

def wp (x : Prog σ μ α) (Q : Ensures σ μ α) (m : Machine σ μ) : Prop :=
  match x m with
  | .done a m => Q.done a m
  | .raised e m => Q.raised e m
  | .crashed m => Q.crashed m

variable {x : Prog σ μ α} {Q R : Ensures σ μ α} {m : Machine σ μ} {env : Env}

theorem wp_mono (h : wp x Q m) (hd : ∀ a m, Q.done a m → R.done a m)
    (hr : ∀ e m, Q.raised e m → R.raised e m) (hc : ∀ m, Q.crashed m → R.crashed m) :
    wp x R m := by
  unfold wp at *
  split at h
  · exact hd _ _ h
  · exact hr _ _ h
  · exact hc _ h

/-- Two postconditions at once. -/
theorem wp_and (h : wp x Q m) (h' : wp x R m) :
    wp x ⟨fun a m' => Q.done a m' ∧ R.done a m', fun e m' => Q.raised e m' ∧ R.raised e m',
      fun m' => Q.crashed m' ∧ R.crashed m'⟩ m := by
  unfold wp at *
  cases hx : x m <;> rw [hx] at h h' <;> exact ⟨h, h'⟩

@[simp] theorem wp_pure (a : α) : wp (pure a) Q m = Q.done a m := rfl

@[simp] theorem wp_raise (e : Failure) : wp (raise e) Q m = Q.raised e m := rfl

theorem wp_bind (f : α → Prog σ μ β) (Q : Ensures σ μ β) :
    wp (x >>= f) Q m = wp x ⟨fun a m => wp (f a) Q m, Q.raised, Q.crashed⟩ m := by
  change wp (bind x f) Q m = _
  unfold wp bind
  cases x m <;> rfl

theorem wp_catching (h : Failure → Prog σ μ α) :
    wp (x.catching h) Q m = wp x ⟨Q.done, fun e m => wp (h e) Q m, Q.crashed⟩ m := by
  unfold wp catching
  cases x m <;> rfl

theorem wp_finallyDo (y : Prog σ μ Unit) :
    wp (x.finallyDo y) Q m =
      wp x ⟨fun a m => wp y ⟨fun _ m => Q.done a m, Q.raised, Q.crashed⟩ m,
        fun e m => wp y ⟨fun _ m => Q.raised e m, Q.raised, Q.crashed⟩ m, Q.crashed⟩ m := by
  rw [finallyDo, wp_bind, wp_catching]
  simp only [wp_bind, wp_raise, wp_pure]

@[simp] theorem wp_get (Q : Ensures σ μ σ) : wp get Q m = Q.done m.mem m := rfl

@[simp] theorem wp_disk (Q : Ensures σ μ FS) : wp disk Q m = Q.done m.disk m := rfl

@[simp] theorem wp_modify (f : σ → σ) (Q : Ensures σ μ Unit) :
    wp (modify f) Q m = Q.done () { m with mem := f m.mem } := rfl

@[simp] theorem wp_post (x : μ) (Q : Ensures σ μ Unit) :
    wp (post x) Q m = Q.done () { m with sent := m.sent ++ [(x, m.disk)] } := rfl

@[simp] theorem wp_now (Q : Ensures σ μ Nat) : wp (now env) Q m = Q.done (env.now m.tick) m := rfl

@[simp] theorem wp_random (Q : Ensures σ μ Text) :
    wp (random env) Q m = Q.done (env.random m.tick) m := rfl

theorem wp_ofExcept (r : Except Failure α) :
    wp (ofExcept r) Q m =
      (match r with
      | .ok a => Q.done a m
      | .error e => Q.raised e m) := by
  cases r <;> rfl

/-- **One file operation, when no write is cut short**: it is performed, or it throws or dies with
the disk as it was or, for a write, with a prefix of the bytes. In a calm environment it throws only
when the file system refuses it. -/
theorem wp_sys {op : FileOp} {Q : Ensures σ μ Nat} (hs : env.NoShort)
    (hd : ∀ fs, op.run m.disk = .ok fs → Q.done op.size { m with disk := fs, tick := m.tick + 1 })
    (hr : ¬ env.Calm → ∀ e kept,
      Q.raised e { m with disk := op.cut m.disk kept, tick := m.tick + 1 })
    (hr' : ∀ e, op.run m.disk = .error e → Q.raised ⟨e.text, []⟩ { m with tick := m.tick + 1 })
    (hc : ∀ kept, Q.crashed { m with disk := op.cut m.disk kept, tick := m.tick + 1 }) :
    wp (sys env op) Q m := by
  unfold wp sys
  cases hf : env.fate m.tick with
  | perform =>
    simp only [perform]
    cases hrun : op.run m.disk with
    | ok fs => exact hd fs hrun
    | error e => exact hr' e hrun
  | short count => exact absurd hf (hs _ _)
  | fail kept code =>
    refine hr (fun hcalm => ?_) _ kept
    rcases hcalm m.tick with hp | ⟨k, hk⟩
    · rw [hf] at hp; cases hp
    · rw [hf] at hk; cases hk
  | crash kept => exact hc kept

/-- **A write, whatever the environment does**: a part of the bytes is stored, possibly all. -/
theorem wp_sys_write {p : Path} {b : Bytes} {Q : Ensures σ μ Nat}
    (hd : ∀ a k, Q.done a { m with disk := m.disk.append p (b.take k), tick := m.tick + 1 })
    (hr : ∀ e k, Q.raised e { m with disk := m.disk.append p (b.take k), tick := m.tick + 1 })
    (hc : ∀ k, Q.crashed { m with disk := m.disk.append p (b.take k), tick := m.tick + 1 }) :
    wp (sys env (.write p b)) Q m := by
  unfold wp sys
  cases env.fate m.tick with
  | perform =>
    have h := hd b.length b.length
    rw [List.take_length] at h
    exact h
  | short count => exact hd _ count
  | fail kept code => exact hr _ kept
  | crash kept => exact hc kept

/-- **An operation that is no write, whatever the environment does**: it is performed, or the disk
stays as it is. -/
theorem wp_sys_op {op : FileOp} {Q : Ensures σ μ Nat} (hw : ∀ p b, op ≠ .write p b)
    (hd : ∀ fs, op.run m.disk = .ok fs → Q.done op.size { m with disk := fs, tick := m.tick + 1 })
    (hr : ∀ e, Q.raised e { m with tick := m.tick + 1 })
    (hc : Q.crashed { m with tick := m.tick + 1 }) : wp (sys env op) Q m := by
  have hcut : ∀ kept, op.cut m.disk kept = m.disk := by
    intro kept
    cases op with
    | write p b => exact absurd rfl (hw p b)
    | _ => rfl
  have hperform : wp (perform op) Q m := by
    unfold wp perform
    cases hrun : op.run m.disk with
    | ok fs => exact hd fs hrun
    | error e => exact hr _
  unfold wp sys
  cases env.fate m.tick with
  | perform => exact hperform
  | short count =>
    cases op with
    | write p b => exact absurd rfl (hw p b)
    | _ => exact hperform
  | fail kept code =>
    simp only [hcut]
    exact hr _
  | crash kept =>
    simp only [hcut]
    exact hc

/-- An operation that leaves the disk as it is, whatever happens to it. -/
def Harmless (op : FileOp) : Prop :=
  ∀ fs, (∀ fs', op.run fs = .ok fs' → fs' = fs) ∧ ∀ kept, op.cut fs kept = fs

/-- Nothing but the number of operations changed. -/
structure Quiet (m m' : Machine σ μ) : Prop where
  mem : m'.mem = m.mem
  disk : m'.disk = m.disk
  sent : m'.sent = m.sent

theorem Quiet.trans {m m' m'' : Machine σ μ} (h : Quiet m m') (h' : Quiet m' m'') : Quiet m m'' :=
  ⟨h'.mem.trans h.mem, h'.disk.trans h.disk, h'.sent.trans h.sent⟩

theorem wp_sys_quiet {op : FileOp} {Q : Ensures σ μ Nat} (hs : env.NoShort) (ho : Harmless op)
    (hd : ∀ m', Quiet m m' → Q.done op.size m')
    (hr : ∀ e m', Quiet m m' → (env.Calm → ∃ err, op.run m.disk = .error err) → Q.raised e m')
    (hc : ∀ m', Quiet m m' → Q.crashed m') : wp (sys env op) Q m := by
  have hcut : ∀ kept, op.cut m.disk kept = m.disk := (ho m.disk).2
  refine wp_sys hs ?_ ?_ ?_ ?_
  · intro fs hrun
    exact hd _ ⟨rfl, (ho m.disk).1 fs hrun, rfl⟩
  · intro hn e kept
    exact hr _ _ ⟨rfl, hcut kept, rfl⟩ fun hcalm => absurd hcalm hn
  · intro e hrun
    exact hr _ _ ⟨rfl, rfl, rfl⟩ fun _ => ⟨e, hrun⟩
  · intro kept
    exact hc _ ⟨rfl, hcut kept, rfl⟩

theorem harmless_fsync (p : Path) : Harmless (.fsync p) :=
  fun _ => ⟨fun _ h => (Except.ok.inj h).symm, fun _ => rfl⟩

theorem harmless_close (p : Path) : Harmless (.close p) :=
  fun _ => ⟨fun _ h => (Except.ok.inj h).symm, fun _ => rfl⟩

theorem harmless_read (p : Path) : Harmless (.open .r p) :=
  fun _ => ⟨fun _ h => FS.openFile_r h, fun _ => rfl⟩

/-! ## What a program keeps -/

/-- Whatever way `x` ends, the machine it ends on is related to the one it started on. -/
def Keeps (R : Machine σ μ → Machine σ μ → Prop) (x : Prog σ μ α) : Prop :=
  ∀ m, wp x ⟨fun _ m' => R m m', fun _ m' => R m m', fun m' => R m m'⟩ m

section

variable {R : Machine σ μ → Machine σ μ → Prop} {y : Prog σ μ Unit} {f : α → Prog σ μ β}

theorem Keeps.of_refl (hr : ∀ m, R m m) {x : Prog σ μ α}
    (h : ∀ m, (∃ a, x m = .done a m) ∨ ∃ e, x m = .raised e m) : Keeps R x := by
  intro m
  unfold wp
  rcases h m with ⟨a, ha⟩ | ⟨e, he⟩
  · rw [ha]; exact hr m
  · rw [he]; exact hr m

theorem Keeps.bind (ht : ∀ a b c, R a b → R b c → R a c) (hx : Keeps R x)
    (hf : ∀ a, Keeps R (f a)) : Keeps R (x >>= f) := by
  intro m
  rw [wp_bind]
  exact wp_mono (hx m)
    (fun a m' h => wp_mono (hf a m') (fun _ m'' h' => ht _ _ _ h h') (fun _ m'' h' => ht _ _ _ h h')
      fun m'' h' => ht _ _ _ h h')
    (fun _ _ h => h) fun _ h => h

theorem Keeps.catching (ht : ∀ a b c, R a b → R b c → R a c) (hx : Keeps R x)
    {h : Failure → Prog σ μ α} (hh : ∀ e, Keeps R (h e)) : Keeps R (x.catching h) := by
  intro m
  rw [wp_catching]
  exact wp_mono (hx m) (fun _ _ h => h)
    (fun e m' h => wp_mono (hh e m') (fun _ m'' h' => ht _ _ _ h h')
      (fun _ m'' h' => ht _ _ _ h h') fun m'' h' => ht _ _ _ h h')
    fun _ h => h

theorem Keeps.finallyDo (hr : ∀ m, R m m) (ht : ∀ a b c, R a b → R b c → R a c) (hx : Keeps R x)
    (hy : Keeps R y) : Keeps R (x.finallyDo y) := by
  have hpure : ∀ a : α, Keeps R (pure a : Prog σ μ α) := fun a =>
    Keeps.of_refl hr fun m => .inl ⟨a, rfl⟩
  have hraise : ∀ e, Keeps R (raise e : Prog σ μ α) := fun e =>
    Keeps.of_refl hr fun m => .inr ⟨e, rfl⟩
  exact Keeps.bind ht (Keeps.catching ht hx fun e => Keeps.bind ht hy fun _ => hraise e) fun a =>
    Keeps.bind ht hy fun _ => hpure a

theorem Keeps.ofExcept (hr : ∀ m, R m m) (r : Except Failure α) :
    Keeps R (ofExcept r : Prog σ μ α) := by
  cases r with
  | ok a => exact Keeps.of_refl hr fun m => .inl ⟨a, rfl⟩
  | error e => exact Keeps.of_refl hr fun m => .inr ⟨e, rfl⟩

theorem Keeps.mono {S : Machine σ μ → Machine σ μ → Prop} (h : Keeps R x)
    (hS : ∀ a b, R a b → S a b) : Keeps S x := fun m =>
  wp_mono (h m) (fun _ _ h => hS _ _ h) (fun _ _ h => hS _ _ h) fun _ h => hS _ _ h

theorem Keeps.and {S : Machine σ μ → Machine σ μ → Prop} (h : Keeps R x) (h' : Keeps S x) :
    Keeps (fun a b => R a b ∧ S a b) x := fun m => wp_and (h m) (h' m)

end

/-- What a program keeps may be used at each of its ends. -/
theorem wp_of_keeps {R : Machine σ μ → Machine σ μ → Prop} (hk : Keeps R x)
    (h : wp x ⟨fun a m' => R m m' → Q.done a m', fun e m' => R m m' → Q.raised e m',
      fun m' => R m m' → Q.crashed m'⟩ m) : wp x Q m := by
  have hm := hk m
  unfold wp at hm h ⊢
  cases hx : x m with
  | done a m' => rw [hx] at hm h; exact h hm
  | raised e m' => rw [hx] at hm h; exact h hm
  | crashed m' => rw [hx] at hm h; exact h hm

/-- What holds of every machine holds of every end. -/
theorem wp_always (hd : ∀ a m', Q.done a m') (hr : ∀ e m', Q.raised e m') (hc : ∀ m', Q.crashed m') :
    wp x Q m := by
  unfold wp
  cases x m with
  | done a m' => exact hd a m'
  | raised e m' => exact hr e m'
  | crashed m' => exact hc m'

/-- A condition on the start of a run can be moved to its ends. -/
theorem wp_imp {P : Prop} (h : P → wp x Q m) :
    wp x ⟨fun a m' => P → Q.done a m', fun e m' => P → Q.raised e m', fun m' => P → Q.crashed m'⟩ m := by
  unfold wp at *
  cases hx : x m <;> exact fun hp => by simpa only [hx] using h hp

/-- A file operation keeps what its effect on the disk keeps, however much of it is done. -/
theorem Keeps.sys {D : FS → FS → Prop} {op : FileOp} (hrefl : ∀ fs, D fs fs)
    (hrun : ∀ fs fs', op.run fs = .ok fs' → D fs fs') (hcut : ∀ fs kept, D fs (op.cut fs kept)) :
    Keeps (fun m m' : Machine σ μ => D m.disk m'.disk) (Prog.sys env op) := by
  have hperform : Keeps (fun m m' : Machine σ μ => D m.disk m'.disk) (perform op) := by
    intro m
    unfold wp perform
    cases h : op.run m.disk with
    | ok fs => exact hrun m.disk fs h
    | error e => exact hrefl m.disk
  intro m
  unfold wp Prog.sys
  cases env.fate m.tick with
  | perform => exact hperform m
  | short count =>
    cases op with
    | write p b => exact hcut m.disk count
    | _ => exact hperform m
  | fail kept code => exact hcut m.disk kept
  | crash kept => exact hcut m.disk kept

/-- No step of `x` changes what `φ` reads of the memory. -/
def Fixes {τ : Type} (φ : σ → τ) (x : Prog σ μ α) : Prop :=
  Keeps (fun m m' => φ m'.mem = φ m.mem) x

namespace Fixes

variable {τ : Type} {φ : σ → τ} {y : Prog σ μ Unit} {f : α → Prog σ μ β}

theorem bind (hx : Fixes φ x) (hf : ∀ a, Fixes φ (f a)) : Fixes φ (x >>= f) :=
  Keeps.bind (fun _ _ _ h h' => h'.trans h) hx hf

theorem sys (op : FileOp) : Fixes φ (Prog.sys env op : Prog σ μ Nat) := by
  have hp : ∀ op, Fixes φ (perform op : Prog σ μ Nat) := by
    intro op m
    unfold wp perform
    cases op.run m.disk <;> rfl
  intro m
  unfold wp Prog.sys
  cases env.fate m.tick with
  | perform => exact hp op m
  | short count => cases op <;> first | exact rfl | exact hp _ m
  | fail kept code => rfl
  | crash kept => rfl

end Fixes

/-! ## How a sequence came to its end -/

theorem bind_eq_done {f : α → Prog σ μ β} {b : β} {m'' : Machine σ μ} :
    (x >>= f) m = .done b m'' ↔ ∃ a m', x m = .done a m' ∧ f a m' = .done b m'' := by
  change bind x f m = _ ↔ _
  unfold bind
  cases x m with
  | done a m' => simp
  | raised e m' => simp
  | crashed m' => simp

theorem bind_of_done {f : α → Prog σ μ β} {a : α} {m' : Machine σ μ} (h : x m = .done a m') :
    (x >>= f) m = f a m' := by
  change bind x f m = _
  unfold bind
  rw [h]

theorem wp_of_done {a : α} {m' : Machine σ μ} (hx : x m = .done a m') (h : Q.done a m') : wp x Q m := by
  unfold wp
  rw [hx]
  exact h

end Prog

end Telepty.Infra
