import Telepty.Ledger.Fixed
import Telepty.Ledger.Runs

/-!
# A store that is not available

An open that fails leaves an owner without an open group, because no step of the open makes one.
Such an owner answers every later message and changes nothing on the disk, except that `compact`
looks at neither the state of the store nor at why the open failed.
-/

namespace Telepty.Ledger

open Infra Prog

/-! ## An open makes no group -/

section

variable {o : Options}

/-- No step of `x` changes the open group. -/
abbrev FixesGroup {α : Type} (x : Owner α) : Prop := Fixes State.group x

theorem respects_fixesGroup (o : Options) (ok : FileOp → Prop) :
    Respects o ok State.group fun m m' => m'.mem.group = m.mem.group := respects_fixes o ok State.group

theorem group_of_bookkeeping (s s' : State) (h : bookkeeping s' = bookkeeping s) :
    s'.group = s.group := congrArg Prod.fst h

theorem fixesGroup_recover (manifest : Manifest) : FixesGroup (recover o manifest) := by
  have hR := respects_fixesGroup o FileOp.Tame
  have hS := respects_fixesGroup o Respects.OnSegments
  have hb := group_of_bookkeeping
  exact hR.bind (hR.modify fun _ => rfl) fun _ =>
    hR.bind (hR.loadCheckpoint hb (fun _ _ => hR.modify fun _ => rfl) (fun _ _ => rfl)
      fun _ _ => rfl) fun _ =>
    hR.bind hR.disk fun _ => hR.bind (hR.ofExcept _) fun _ => hR.bind (hR.modify fun _ => rfl) fun _ =>
      hR.bind (hR.replaySegments hb _ _ _) fun _ => hR.bind (hR.modify fun _ => rfl) fun _ =>
        hR.bind (hR.file _ trivial) fun _ => hR.bind (hS.openSegment (fun _ _ _ => rfl) _ _) fun _ =>
          hR.bind (hS.copyLast (fun _ _ _ => rfl) _ _) fun _ => hR.writeManifest (fun _ _ => rfl) _ _

theorem fixesGroup_postOpenError (o : Options) (e : Failure) : FixesGroup (postOpenError e) := by
  unfold postOpenError
  repeat' split
  all_goals exact (respects_fixesGroup o FileOp.Tame).postState (fun _ _ _ => rfl) _ _ _

theorem fixesGroup_openBody : FixesGroup (openBody o) := by
  have hR := respects_fixesGroup o FileOp.Tame
  refine hR.bind hR.get fun _ => hR.bind hR.disk fun _ => ?_
  split
  · exact hR.bind (hR.postState (fun _ _ _ => rfl) _ _ _) fun _ => hR.pure _
  · refine hR.bind (hR.ofExcept _) fun _ => hR.bind (hR.openPath (fun _ _ _ => rfl) _) fun manifest => ?_
    cases manifest with
    | none => exact hR.pure _
    | some m => exact hR.bind (fixesGroup_recover m) fun _ => hR.pure _

/-- **An open makes no group**, however it ends. -/
theorem fixesGroup_openStore (liveSids : List Text) : FixesGroup (openStore o liveSids) := by
  have hR := respects_fixesGroup o FileOp.Tame
  refine hR.bind (hR.modify fun _ => rfl) fun _ => hR.bind (hR.postState (fun _ _ _ => rfl) _ _ _) fun _ =>
    hR.bind (hR.catching fixesGroup_openBody fun e =>
      hR.bind (fixesGroup_postOpenError o e) fun _ => hR.pure _) fun recovered => ?_
  split
  · exact hR.bind (hR.postState (fun _ _ _ => rfl) _ _ _) fun _ => hR.bind hR.get fun _ => hR.post _
  · exact hR.pure _

end

/-! ## The messages after a failed open -/

/-- The owner of a store that is not available has no open group. -/
structure Idle (s : State) : Prop where
  refused : s.state ≠ .available
  noGroup : s.group = none

/-- The disk is `fs` and the owner is idle. -/
def Untouched (fs : FS) : Ensures State Post Unit where
  done _ m := m.disk = fs ∧ Idle m.mem
  raised _ m := m.disk = fs ∧ Idle m.mem
  crashed m := m.disk = fs

section

variable {o : Options} {m : Machine State Post} {fs : FS}

theorem refusal_of_idle {s : State} (h : Idle s) : ∃ r, refusal s = some r := by
  have hs := h.refused
  unfold refusal
  split
  · exact ⟨_, rfl⟩
  · exact ⟨_, rfl⟩
  · exact ⟨_, rfl⟩
  · next ha => exact absurd ha hs
  · exact ⟨_, rfl⟩

theorem untouched_postState (store : StoreState) (reason detail : Text) (hs : store ≠ .available)
    (hd : m.disk = fs) (hi : Idle m.mem) :
    wp (postState store reason detail) (Untouched fs) m := by
  simp only [postState, wp_bind, wp_modify, wp_get, wp_post]
  exact ⟨hd, hs, hi.noGroup⟩

theorem untouched_submit (msg : Submit) (hd : m.disk = fs) (hi : Idle m.mem) :
    wp (submit o msg) (Untouched fs) m := by
  have honce : wp (submitOnce o msg)
      ⟨fun again m' => again = false ∧ m'.disk = fs ∧ Idle m'.mem, fun _ _ => False,
        fun _ => False⟩ m := by
    obtain ⟨⟨reason, code⟩, hr⟩ := refusal_of_idle hi
    simp only [submitOnce, wp_bind, wp_get]
    split
    · simp only [wp_bind, wp_post, wp_pure]
      exact ⟨trivial, hd, hi⟩
    · simp only [hr, wp_bind, wp_post, wp_pure]
      exact ⟨trivial, hd, hi⟩
  rw [submit, wp_bind]
  refine wp_mono honce ?_ (fun _ _ h => h.elim) fun _ h => h.elim
  rintro again m' ⟨rfl, hd', hi'⟩
  exact ⟨hd', hi'⟩

theorem untouched_flushGroup (hd : m.disk = fs) (hi : Idle m.mem) :
    wp (flushGroup o) (Untouched fs) m := by
  simp only [flushGroup, wp_bind, wp_get, wp_modify, hi.noGroup, wp_pure]
  exact ⟨hd, hi.refused, rfl⟩

theorem untouched_read (req : Text) (op : ReadOp) (hd : m.disk = fs) (hi : Idle m.mem) :
    wp (read o req op) (Untouched fs) m := by
  simp only [read, wp_bind, wp_get, wp_disk]
  repeat' split
  all_goals exact ⟨hd, hi⟩

theorem untouched_sys_close {p : Path} {Q : Ensures State Post Nat}
    (hd : ∀ n m', m'.disk = m.disk → m'.mem = m.mem → Q.done n m')
    (hr : ∀ e m', m'.disk = m.disk → m'.mem = m.mem → Q.raised e m')
    (hc : ∀ m', m'.disk = m.disk → m'.mem = m.mem → Q.crashed m') :
    wp (sys o.env (.close p)) Q m := by
  unfold wp sys
  cases o.env.fate m.tick with
  | perform => exact hd _ _ rfl rfl
  | short count => exact hd _ _ rfl rfl
  | fail kept code => exact hr _ _ rfl rfl
  | crash kept => exact hc _ rfl rfl

theorem untouched_closeSegment (hd : m.disk = fs) (hi : Idle m.mem) :
    wp (closeSegment o) (Untouched fs) m := by
  simp only [closeSegment, wp_bind, wp_get]
  cases m.mem.seg with
  | none => exact ⟨hd, hi⟩
  | some seg =>
    simp only [wp_bind, wp_catching]
    refine untouched_sys_close ?_ ?_ ?_
    · intro n m' hd' hm'
      exact ⟨hd'.trans hd, by rw [hm']; exact hi.refused, by rw [hm']; exact hi.noGroup⟩
    · intro e m' hd' hm'
      exact ⟨hd'.trans hd, by rw [hm']; exact hi.refused, by rw [hm']; exact hi.noGroup⟩
    · intro m' hd' hm'
      exact hd'.trans hd

theorem untouched_close (hd : m.disk = fs) (hi : Idle m.mem) :
    wp (close o) (Untouched fs) m := by
  have hbody : ∀ m : Machine State Post, Idle m.mem →
      wp (closeBody o) ⟨fun _ m' => m' = m, fun _ _ => False, fun _ => False⟩ m := by
    intro m hi
    simp only [closeBody, wp_bind, wp_get, if_neg hi.refused, wp_pure]
  simp only [close, wp_bind, wp_modify]
  rw [wp_catching]
  refine wp_mono (hbody _ ⟨hi.refused, hi.noGroup⟩) ?_ (fun _ _ h => h.elim) fun _ h => h.elim
  rintro clean m' rfl
  simp only [wp_get]
  have hclose : wp (closeSegment o) (Untouched fs) { m with mem := { m.mem with closing := true } } :=
    untouched_closeSegment hd ⟨hi.refused, hi.noGroup⟩
  refine wp_mono hclose ?_ (fun _ _ h => h) fun _ h => h
  rintro - m' ⟨hd', hi'⟩
  refine wp_mono (untouched_postState .closed [] [] (by decide) hd' hi') ?_ (fun _ _ h => h)
    fun _ h => h
  intro _ m'' h
  exact h

/-- A `compact` that meets a file where the directory of the hot tier should be changes nothing. -/
theorem untouched_compact (req : Text) (hb : ∃ e, fs.mkdirp hotDir = .error e) (hd : m.disk = fs)
    (hi : Idle m.mem) : wp (compact o req) (Untouched fs) m := by
  obtain ⟨err, hb⟩ := hb
  have hflush : wp (flushFrames o) ⟨fun _ m' => m' = m, fun _ _ => False, fun _ => False⟩ m := by
    simp only [flushFrames, wp_bind, wp_get, hi.noGroup, wp_pure]
  have hmk : ∀ m' : Machine State Post, m'.disk = fs → Idle m'.mem →
      wp (sys o.env (.mkdirp hotDir)) ⟨fun _ _ => False, (Untouched fs).raised, (Untouched fs).crashed⟩
        m' := by
    intro m' hd' hi'
    have hrun : FileOp.run m'.disk (.mkdirp hotDir) = .error err := by rw [hd']; exact hb
    unfold wp sys perform
    cases o.env.fate m'.tick with
    | perform => simp only [hrun]; exact ⟨hd', hi'⟩
    | short count => simp only [hrun]; exact ⟨hd', hi'⟩
    | fail kept code => exact ⟨hd', hi'⟩
    | crash kept => exact hd'
  have hbody : wp (checkpointBody o "requested")
      ⟨fun _ _ => False, (Untouched fs).raised, (Untouched fs).crashed⟩ m := by
    simp only [checkpointBody, reserve, wp_bind, wp_get, wp_ofExcept]
    cases hr : reserveHot m.mem with
    | error e => exact ⟨hd, hi⟩
    | ok taken =>
      have hs : taken.2 = { m.mem with allocHot := taken.1 } := by
        unfold reserveHot unsafeGeneration at hr
        dsimp only at hr
        split at hr
        · cases hr; rfl
        · cases hr
      simp only [wp_modify, wp_pure]
      exact wp_mono (hmk _ hd (by rw [hs]; exact ⟨hi.refused, hi.noGroup⟩)) (fun _ _ h => h.elim)
        (fun _ _ h => h) fun _ h => h
  simp only [compact, checkpoint, wp_catching, wp_bind]
  refine wp_mono hflush ?_ (fun _ _ h => h.elim) fun _ h => h.elim
  rintro - m' rfl
  exact wp_mono hbody (fun _ _ h => h.elim) (fun _ _ h => h) fun _ h => h

/-- **One message to an idle owner** changes nothing on the disk and leaves the owner idle. -/
theorem untouched_handle (msg : Message) (ho : ∀ l, msg ≠ .open l)
    (hc : ∀ req, msg = .compact req → ∃ e, fs.mkdirp hotDir = .error e)
    (hd : m.disk = fs) (hi : Idle m.mem) : wp (handle o msg) (Untouched fs) m := by
  cases msg with
  | «open» l => exact absurd rfl (ho l)
  | submit msg => exact untouched_submit msg hd hi
  | read req op => exact untouched_read req op hd hi
  | live sid on =>
    simp only [handle, wp_modify]
    exact ⟨hd, hi.refused, hi.noGroup⟩
  | compact req => exact untouched_compact req (hc req rfl) hd hi
  | resolve req txns =>
    simp only [handle, resolve, wp_bind, wp_get, wp_post]
    exact ⟨hd, hi⟩
  | close => exact untouched_close hd hi
  | flush => exact untouched_flushGroup hd hi

end

/-! ## The run after a failed open -/

/-- Messages to an owner that is idle, or to none. -/
theorem untouched_run {o : Options} {sys : Sys} {fs : FS} (msgs : List Message)
    (ho : ∀ msg ∈ msgs, ∀ l, msg ≠ .open l)
    (hc : ∀ req, Message.compact req ∈ msgs → ∃ e, fs.mkdirp hotDir = .error e)
    (hd : sys.disk = fs) (hi : ∀ s, sys.owner = some s → Idle s) :
    (run o sys (msgs.map .send)).disk = fs := by
  induction msgs generalizing sys with
  | nil => exact hd
  | cons msg msgs ih =>
    rw [List.map_cons, run_cons]
    have hstep : (step o sys (.send msg)).disk = fs ∧
        ∀ s, (step o sys (.send msg)).owner = some s → Idle s := by
      cases hs : sys.owner with
      | none =>
        simp only [step, hs]
        exact ⟨hd, fun s h => by cases h⟩
      | some s =>
        simp only [step, hs]
        refine Sys.of_wp (P := fun sys => sys.disk = fs ∧ ∀ s, sys.owner = some s → Idle s)
          (untouched_handle msg (ho msg List.mem_cons_self)
            (fun req h => hc req (by rw [h]; exact List.mem_cons_self)) hd (hi s hs)) ?_ ?_ ?_
        · rintro m' ⟨hd', hi'⟩
          exact ⟨hd', fun s h => by cases h; exact hi'⟩
        · rintro e m' ⟨hd', hi'⟩
          exact ⟨hd', fun s h => by cases h; exact hi'⟩
        · intro m' hd'
          exact ⟨hd', fun s h => by cases h⟩
    exact ih (fun m hm => ho m (List.mem_cons_of_mem _ hm))
      (fun req h => hc req (List.mem_cons_of_mem _ h)) hstep.1 hstep.2

/-- **No write outside `available`**: after an open that left the store in another state, messages
change nothing, as long as no `compact` finds a directory to write its checkpoint into. -/
theorem disk_unchanged_unless_compact (o : Options) (sys : Sys) (pid : Nat) (token : Text)
    (liveSids : List Text) (msgs : List Message)
    (hs : ∀ s, (sys.start o pid token liveSids).owner = some s → s.state ≠ .available)
    (ho : ∀ msg ∈ msgs, ∀ l, msg ≠ .open l)
    (hc : ∀ req, Message.compact req ∈ msgs →
      ∃ e, (sys.start o pid token liveSids).disk.mkdirp hotDir = .error e) :
    (run o (sys.start o pid token liveSids) (msgs.map .send)).disk
      = (sys.start o pid token liveSids).disk := by
  refine untouched_run msgs ho hc rfl fun s h => ⟨hs s h, ?_⟩
  have hg : ∀ s, (sys.start o pid token liveSids).owner = some s → s.group = none :=
    Sys.of_wp (P := fun sys => ∀ s, sys.owner = some s → s.group = none)
      (fixesGroup_openStore liveSids (sys.machine (.initial pid token liveSids)))
      (fun m' h s hs => by cases hs; exact h) (fun _ m' h s hs => by cases hs; exact h)
      (fun m' _ s hs => by cases hs)
  exact hg s h

/-- A store whose manifest is of no known format. -/
def foreignStore : Sys := lockedDisk [(storeDir, .dir), (manifestPath, .file (encodeText "{}"))]

set_option maxRecDepth 100000 in
/-- A submission, a flush and the close leave the foreign manifest alone. -/
theorem foreignStore_unchanged :
    (run (defaultOptions plainEnv) (foreignStore.start (defaultOptions plainEnv) 7 "T" [])
      ([Message.submit ⟨"a", "iact", .obj []⟩, .flush, .close].map .send)).disk
      = (foreignStore.start (defaultOptions plainEnv) 7 "T" []).disk := by
  have hs : (foreignStore.start (defaultOptions plainEnv) 7 "T" []).owner.map State.state
      = some .unavailableRead := by decide +kernel
  refine disk_unchanged_unless_compact _ _ _ _ _ _ ?_ (by simp) (by simp)
  intro s h hst
  rw [h, Option.map_some, hst] at hs
  cases hs

set_option maxRecDepth 100000 in
/-- `compact` after the same failed open replaces the manifest that it could not read. -/
theorem compact_replaces_foreign_manifest :
    let sys := foreignStore.start (defaultOptions plainEnv) 7 "T" []
    sys.owner.map State.state = some .unavailableRead ∧
      (run (defaultOptions plainEnv) sys [.send (.compact "q")]).disk.get? manifestPath
        ≠ sys.disk.get? manifestPath := by
  decide +kernel

end Telepty.Ledger
