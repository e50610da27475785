import Telepty.Ledger.Recovery
import Telepty.Ledger.Checkpoint

/-!
# What the file helpers do to the disk

One specification for each helper that writes, over environments that cut no write short. Each says
what holds when the helper is done, when it throws and when the process dies in it; under a calm
environment a helper throws only where the file system itself refuses an operation.
-/

namespace Telepty.Ledger

open Infra Prog

/-- Only the name `p` changed, and if it changed it is a file now. -/
structure Touches (p : Path) (fs fs' : FS) : Prop where
  other : ∀ q, q ≠ p → fs'.get? q = fs.get? q
  self : fs'.get? p = fs.get? p ∨ ∃ b, fs'.get? p = some (.file b)

/-- Memory and messages are as they were. -/
structure SameMind (m m' : Machine State Post) : Prop where
  mem : m'.mem = m.mem
  sent : m'.sent = m.sent

section

variable {p : Path} {fs fs' fs'' : FS} {m m' m'' : Machine State Post}

theorem Touches.refl (p : Path) (fs : FS) : Touches p fs fs := ⟨fun _ _ => rfl, .inl rfl⟩

theorem Touches.trans (h : Touches p fs fs') (h' : Touches p fs' fs'') : Touches p fs fs'' where
  other q hq := (h'.other q hq).trans (h.other q hq)
  self := by
    rcases h'.self with he | hb
    · rw [he]
      exact h.self
    · exact .inr hb

theorem Touches.set (p : Path) (fs : FS) (b : Bytes) : Touches p fs (fs.set p (.file b)) :=
  ⟨fun _ hq => OrdMap.get?_set_of_ne _ hq, .inr ⟨b, OrdMap.get?_set_self _⟩⟩

theorem Touches.append (p : Path) (fs : FS) (b : Bytes) : Touches p fs (fs.append p b) where
  other _ hq := FS.append_get?_of_ne hq
  self := by
    unfold FS.append
    split
    · exact .inr ⟨_, OrdMap.get?_set_self _⟩
    · exact .inl rfl

theorem SameMind.trans (h : SameMind m m') (h' : SameMind m' m'') : SameMind m m'' :=
  ⟨h'.mem.trans h.mem, h'.sent.trans h.sent⟩

end

/-! ## Flushing -/

variable {o : Options} {m : Machine State Post}

/-- Flushing a directory changes nothing; it throws only when there is no such directory. -/
theorem wp_fsyncDir {p : Path} {Q : Ensures State Post Unit} (hs : o.env.NoShort)
    (hd : ∀ m', Quiet m m' → Q.done () m')
    (hr : ∀ e m', Quiet m m' → (o.env.Calm → m.disk.get? p = none) → Q.raised e m')
    (hc : ∀ m', Quiet m m' → Q.crashed m') : wp (fsyncDir o p) Q m := by
  have hnever : ∀ {op : FileOp} {fs : FS}, (∃ err, op.run fs = .error err) →
      op = .fsync p ∨ op = .close p → False := by
    rintro op fs ⟨err, h⟩ (rfl | rfl) <;> cases h
  have hclose : ∀ (Q : Ensures State Post Unit) m₁, Quiet m m₁ →
      (∀ m', Quiet m m' → Q.done () m') → (∀ m', Quiet m m' → Q.crashed m') →
      wp (catching (do let _ ← sys o.env (.close p)) fun _ => pure ()) Q m₁ := by
    intro Q m₁ h1 hd hc
    simp only [wp_catching, wp_bind, wp_pure]
    exact wp_sys_quiet hs (harmless_close p) (fun m₂ h2 => hd m₂ (h1.trans h2))
      (fun _ m₂ h2 _ => hd m₂ (h1.trans h2)) fun m₂ h2 => hc m₂ (h1.trans h2)
  unfold fsyncDir
  rw [wp_bind]
  refine wp_sys_quiet hs (harmless_read p) ?_ ?_ hc
  · intro m₁ h1
    dsimp only
    rw [wp_finallyDo, wp_catching, wp_bind]
    refine wp_sys_quiet hs (harmless_fsync p) ?_ ?_ ?_
    · intro m₂ h2
      exact hclose _ _ (h1.trans h2) hd hc
    · intro e m₂ h2 hcalm
      dsimp only
      split
      · exact hclose _ _ (h1.trans h2) hd hc
      · exact hclose _ _ (h1.trans h2)
          (fun m' h' => hr _ m' h' fun hx => (hnever (hcalm hx) (.inl rfl)).elim) hc
    · exact fun m₂ h2 => hc m₂ (h1.trans h2)
  · intro e m₁ h1 hcalm
    refine hr e m₁ h1 fun hx => ?_
    obtain ⟨err, herr⟩ := hcalm hx
    change m.disk.openFile .r p = _ at herr
    unfold FS.openFile at herr
    cases hp : m.disk.get? p with
    | none => rfl
    | some n => cases n <;> rw [hp] at herr <;> cases herr

/-! ## Whole files -/

/-- The end of `writeFileDurable`: the flush and the close. -/
theorem wp_flushed {file : Path} {Q : Ensures State Post Unit} (hs : o.env.NoShort)
    (hd : ∀ m', Quiet m m' → Q.done () m')
    (hr : ∀ e m', Quiet m m' → ¬ o.env.Calm → Q.raised e m')
    (hc : ∀ m', Quiet m m' → Q.crashed m') :
    wp (do let _ ← sys o.env (.fsync file)) ⟨
      fun a m => wp (do let _ ← sys o.env (.close file)) ⟨fun _ m => Q.done a m, Q.raised, Q.crashed⟩ m,
      fun e m => wp (do let _ ← sys o.env (.close file)) ⟨fun _ m => Q.raised e m, Q.raised,
        Q.crashed⟩ m, Q.crashed⟩ m := by
  have hcalm : ∀ {op : FileOp} {fs : FS}, op = .fsync file ∨ op = .close file →
      (o.env.Calm → ∃ err, op.run fs = .error err) → ¬ o.env.Calm := by
    rintro op fs (rfl | rfl) h hx <;> obtain ⟨err, herr⟩ := h hx <;> cases herr
  simp only [wp_bind, wp_pure]
  refine wp_sys_quiet hs (harmless_fsync file) ?_ ?_ ?_
  · intro m₁ h1
    exact wp_sys_quiet hs (harmless_close file) (fun m₂ h2 => hd m₂ (h1.trans h2))
      (fun e m₂ h2 hx => hr e m₂ (h1.trans h2) (hcalm (.inr rfl) hx))
      fun m₂ h2 => hc m₂ (h1.trans h2)
  · intro e m₁ h1 hx
    have hn := hcalm (.inl rfl) hx
    exact wp_sys_quiet hs (harmless_close file) (fun m₂ h2 => hr e m₂ (h1.trans h2) hn)
      (fun e m₂ h2 _ => hr e m₂ (h1.trans h2) hn) fun m₂ h2 => hc m₂ (h1.trans h2)
  · exact hc

/-- **A file written in one go**: it holds the bytes at the end; until then only its name is
touched, and an occupied name is left alone by an exclusive open. -/
theorem wp_writeFileDurable {file : Path} {buf : Bytes} {flag : FS.OpenFlag} {fs₀ : FS}
    {Q : Ensures State Post Unit} (hs : o.env.NoShort)
    (hopen : ∀ fs, m.disk.openFile flag file = .ok fs → fs = fs₀)
    (hset : fs₀ = m.disk.set file (.file []))
    (hd : ∀ m', SameMind m m' → Touches file m.disk m'.disk → m'.disk.get? file = some (.file buf) →
      (∃ fs, m.disk.openFile flag file = .ok fs) → Q.done () m')
    (hr : ∀ e m', SameMind m m' → Touches file m.disk m'.disk →
      ((∃ fs, m.disk.openFile flag file = .ok fs) ∨ m'.disk = m.disk) →
      (o.env.Calm → ∃ err, m.disk.openFile flag file = .error err) → Q.raised e m')
    (hc : ∀ m', SameMind m m' → Touches file m.disk m'.disk →
      ((∃ fs, m.disk.openFile flag file = .ok fs) ∨ m'.disk = m.disk) → Q.crashed m') :
    wp (writeFileDurable o file buf flag) Q m := by
  unfold writeFileDurable
  rw [wp_bind]
  refine wp_sys hs ?_ ?_ ?_ ?_
  · intro fs hrun
    have hrun' : m.disk.openFile flag file = .ok fs := hrun
    have hok : ∃ fs, m.disk.openFile flag file = .ok fs := ⟨fs, hrun'⟩
    obtain rfl : fs = m.disk.set file (.file []) := (hopen fs hrun').trans hset
    have ht : Touches file m.disk (m.disk.set file (.file [])) := Touches.set _ _ _
    have hempty : (m.disk.set file (.file [])).get? file = some (.file []) := OrdMap.get?_set_self _
    have herr : ¬ o.env.Calm → o.env.Calm → ∃ err, m.disk.openFile flag file = .error err :=
      fun hn hx => absurd hx hn
    dsimp only
    rw [wp_finallyDo, wp_bind]
    refine wp_sys hs ?_ ?_ ?_ ?_
    · intro fs' hw
      cases hw
      have ht' := ht.trans (Touches.append file (m.disk.set file (.file [])) buf)
      have hfile : (FS.append (m.disk.set file (.file [])) file buf).get? file = some (.file buf) :=
        FS.append_get?_self hempty
      refine wp_flushed hs ?_ ?_ ?_
      · intro m' hq
        exact hd m' ⟨hq.mem, hq.sent⟩ (by rw [hq.disk]; exact ht') (by rw [hq.disk]; exact hfile) hok
      · intro e m' hq hn
        exact hr e m' ⟨hq.mem, hq.sent⟩ (by rw [hq.disk]; exact ht') (.inl hok) (herr hn)
      · intro m' hq
        exact hc m' ⟨hq.mem, hq.sent⟩ (by rw [hq.disk]; exact ht') (.inl hok)
    · intro hn e kept
      have ht' := ht.trans (Touches.append file (m.disk.set file (.file [])) (buf.take kept))
      dsimp only
      rw [wp_bind]
      refine wp_sys_quiet hs (harmless_close file) ?_ ?_ ?_
      · intro m' hq
        exact hr e m' ⟨hq.mem, hq.sent⟩ (by rw [hq.disk]; exact ht') (.inl hok) (herr hn)
      · intro e' m' hq _
        exact hr e' m' ⟨hq.mem, hq.sent⟩ (by rw [hq.disk]; exact ht') (.inl hok) (herr hn)
      · intro m' hq
        exact hc m' ⟨hq.mem, hq.sent⟩ (by rw [hq.disk]; exact ht') (.inl hok)
    · intro e hw
      cases hw
    · intro kept
      exact hc _ ⟨rfl, rfl⟩ (ht.trans (Touches.append _ _ _)) (.inl hok)
  · intro hn e kept
    exact hr _ _ ⟨rfl, rfl⟩ (Touches.refl _ _) (.inr rfl) fun hx => absurd hx hn
  · intro e hrun
    exact hr _ _ ⟨rfl, rfl⟩ (Touches.refl _ _) (.inr rfl) fun _ => ⟨e, hrun⟩
  · intro kept
    exact hc _ ⟨rfl, rfl⟩ (Touches.refl _ _) (.inr rfl)

/-- The name `p` was free, or nothing changed; it may be a file now. -/
structure Creates (p : Path) (fs fs' : FS) : Prop extends Touches p fs fs' where
  free : fs.get? p = none ∨ fs'.get? p = fs.get? p

/-- **A checkpoint member** is created under a free name, or nothing is changed. -/
theorem wp_createFileDurable {file : Path} {buf : Bytes} {Q : Ensures State Post Unit}
    (hs : o.env.NoShort)
    (hd : ∀ m', SameMind m m' → Creates file m.disk m'.disk →
      m'.disk.get? file = some (.file buf) → Q.done () m')
    (hr : ∀ e m', SameMind m m' → Creates file m.disk m'.disk → Q.raised e m')
    (hc : ∀ m', SameMind m m' → Creates file m.disk m'.disk → Q.crashed m') :
    wp (createFileDurable o file buf) Q m := by
  have hfree : (∃ fs, m.disk.openFile .wx file = .ok fs) → m.disk.get? file = none :=
    fun ⟨_, h⟩ => (FS.openFile_wx h).1
  have hcreates : ∀ {fs' : FS}, Touches file m.disk fs' →
      ((∃ fs, m.disk.openFile .wx file = .ok fs) ∨ fs' = m.disk) → Creates file m.disk fs' :=
    fun ht h => ⟨ht, h.imp hfree fun he => by rw [he]⟩
  refine wp_writeFileDurable hs (fun fs h => (FS.openFile_wx h).2) rfl ?_ ?_ ?_
  · intro m' hsm ht hb ho
    exact hd m' hsm (hcreates ht (.inl ho)) hb
  · intro e m' hsm ht h _
    exact hr e m' hsm (hcreates ht h)
  · intro m' hsm ht h
    exact hc m' hsm (hcreates ht h)

/-! ## The manifest -/

/-- The temporary name of an atomic write. -/
def tmpPath (dir : Path) (name : Text) (pid ms : Nat) : Path := joinPath dir (tmpName name pid ms)

theorem tmpName_ne (name : Text) (pid ms : Nat) : tmpName name pid ms ≠ name := by
  intro h
  have hl := congrArg List.length h
  simp [tmpName] at hl

/-- **An atomic write** replaces the file under its name at once, or leaves it. -/
theorem wp_writeAtomic {dir : Path} {name : Text} {buf : Bytes} {Q : Ensures State Post Unit}
    (hs : o.env.NoShort) (hdir : m.disk.get? dir = some .dir)
    (hname : m.disk.get? (joinPath dir name) ≠ some .dir)
    (htmp : ∀ ms, m.disk.get? (tmpPath dir name m.mem.pid ms) ≠ some .dir)
    (hd : ∀ ms m', SameMind m m' →
      (∀ q, q ≠ tmpPath dir name m.mem.pid ms → q ≠ joinPath dir name →
        m'.disk.get? q = m.disk.get? q) →
      m'.disk.get? (joinPath dir name) = some (.file buf) →
      m'.disk.get? (tmpPath dir name m.mem.pid ms) ≠ some .dir → Q.done () m')
    (hr : ∀ ms e m', ¬ o.env.Calm → SameMind m m' →
      (∀ q, q ≠ tmpPath dir name m.mem.pid ms → q ≠ joinPath dir name →
        m'.disk.get? q = m.disk.get? q) →
      (m'.disk.get? (joinPath dir name) = m.disk.get? (joinPath dir name) ∨
        m'.disk.get? (joinPath dir name) = some (.file buf)) →
      m'.disk.get? (tmpPath dir name m.mem.pid ms) ≠ some .dir → Q.raised e m')
    (hc : ∀ ms m', SameMind m m' →
      (∀ q, q ≠ tmpPath dir name m.mem.pid ms → q ≠ joinPath dir name →
        m'.disk.get? q = m.disk.get? q) →
      (m'.disk.get? (joinPath dir name) = m.disk.get? (joinPath dir name) ∨
        m'.disk.get? (joinPath dir name) = some (.file buf)) →
      m'.disk.get? (tmpPath dir name m.mem.pid ms) ≠ some .dir → Q.crashed m') :
    wp (writeAtomic o dir name buf) Q m := by
  unfold writeAtomic
  simp only [wp_bind, wp_get, wp_now]
  change wp (writeFileDurable o (tmpPath dir name m.mem.pid (o.env.now m.tick)) buf .w) _ m
  generalize hms : o.env.now m.tick = ms
  have htmp' := htmp ms
  have hneq : joinPath dir name ≠ tmpPath dir name m.mem.pid ms := by
    simp only [tmpPath, joinPath, ne_eq, List.append_cancel_left_eq, List.cons.injEq, and_true]
    exact fun h => tmpName_ne name m.mem.pid ms h.symm
  have hdne : dir ≠ tmpPath dir name m.mem.pid ms := by simp [tmpPath, joinPath]
  have hdne' : dir ≠ joinPath dir name := by simp [joinPath]
  have hnodir : ∀ {fs' : FS}, Touches (tmpPath dir name m.mem.pid ms) m.disk fs' →
      fs'.get? (tmpPath dir name m.mem.pid ms) ≠ some .dir := by
    intro fs' ht h
    rcases ht.self with he | ⟨b, hb⟩
    · exact htmp' (he.symm.trans h)
    · rw [hb] at h; cases h
  have hopen : ∃ fs, m.disk.openFile .w (tmpPath dir name m.mem.pid ms) = .ok fs := by
    have hparent : m.disk.parentDir (tmpPath dir name m.mem.pid ms) = .ok () := by
      unfold FS.parentDir
      rw [tmpPath, joinPath, List.dropLast_concat, hdir]
    unfold FS.openFile
    cases hp : m.disk.get? (tmpPath dir name m.mem.pid ms) with
    | none => simp [hparent, Except.map]
    | some n =>
      cases n with
      | dir => exact absurd hp htmp'
      | file b => exact ⟨_, rfl⟩
  refine wp_writeFileDurable hs (fun fs h => FS.openFile_w h) rfl ?_ ?_ ?_
  · intro m₁ hsm ht hb _
    -- the rename
    have hsrc : m₁.disk.get? (tmpPath dir name m.mem.pid ms) = some (.file buf) := hb
    have hdst : m₁.disk.get? (joinPath dir name) = m.disk.get? (joinPath dir name) := ht.other _ hneq
    have hparent : m₁.disk.parentDir (joinPath dir name) = .ok () := by
      unfold FS.parentDir
      rw [joinPath, List.dropLast_concat, ht.other _ hdne, hdir]
    refine wp_sys hs ?_ ?_ ?_ ?_
    · intro fs hrun
      have hren : fs = (m₁.disk.delete (tmpPath dir name m.mem.pid ms)).set (joinPath dir name)
          (.file buf) := FS.rename_file hsrc hneq.symm hrun
      subst hren
      have hother : ∀ q, q ≠ tmpPath dir name m.mem.pid ms → q ≠ joinPath dir name →
          ((m₁.disk.delete (tmpPath dir name m.mem.pid ms)).set (joinPath dir name)
            (.file buf)).get? q = m.disk.get? q := by
        intro q h1 h2
        rw [OrdMap.get?_set_of_ne _ h2, OrdMap.get?_delete, if_neg h1]
        exact ht.other q h1
      have hself : ((m₁.disk.delete (tmpPath dir name m.mem.pid ms)).set (joinPath dir name)
          (.file buf)).get? (joinPath dir name) = some (.file buf) := OrdMap.get?_set_self _
      have hgone : ((m₁.disk.delete (tmpPath dir name m.mem.pid ms)).set (joinPath dir name)
          (.file buf)).get? (tmpPath dir name m.mem.pid ms) ≠ some .dir := by
        rw [OrdMap.get?_set_of_ne _ hneq.symm, OrdMap.get?_delete, if_pos rfl]
        exact nofun
      refine wp_fsyncDir hs ?_ ?_ ?_
      · intro m₂ hq
        exact hd ms m₂ (hsm.trans ⟨hq.mem, hq.sent⟩) (by rw [hq.disk]; exact hother)
          (by rw [hq.disk]; exact hself) (by rw [hq.disk]; exact hgone)
      · intro e m₂ hq hx
        refine hr ms e m₂ (fun hcalm => ?_) (hsm.trans ⟨hq.mem, hq.sent⟩)
          (by rw [hq.disk]; exact hother) (.inr (by rw [hq.disk]; exact hself))
          (by rw [hq.disk]; exact hgone)
        have hnone := hx hcalm
        rw [show ((m₁.disk.delete (tmpPath dir name m.mem.pid ms)).set (joinPath dir name)
          (.file buf)).get? dir = m.disk.get? dir from hother dir hdne hdne', hdir] at hnone
        cases hnone
      · intro m₂ hq
        exact hc ms m₂ (hsm.trans ⟨hq.mem, hq.sent⟩) (by rw [hq.disk]; exact hother)
          (.inr (by rw [hq.disk]; exact hself)) (by rw [hq.disk]; exact hgone)
    · intro hn e kept
      exact hr ms _ _ hn (hsm.trans ⟨rfl, rfl⟩) (fun q h1 _ => ht.other q h1) (.inl hdst) (hnodir ht)
    · intro e hrun
      -- a rename of a file over a file is not refused
      exfalso
      change m₁.disk.rename (tmpPath dir name m.mem.pid ms) (joinPath dir name) = _ at hrun
      rw [FS.rename, hsrc] at hrun
      simp only [hparent, Except.map] at hrun
      split at hrun
      · next hbad => exact hname (hdst.symm.trans hbad)
      · cases hrun
    · intro kept
      exact hc ms _ (hsm.trans ⟨rfl, rfl⟩) (fun q h1 _ => ht.other q h1) (.inl hdst) (hnodir ht)
  · intro e m' hsm ht _ hx
    refine hr ms e m' (fun hcalm => ?_) hsm (fun q h1 _ => ht.other q h1) (.inl (ht.other _ hneq))
      (hnodir ht)
    obtain ⟨err, herr⟩ := hx hcalm
    obtain ⟨fs, hok⟩ := hopen
    rw [hok] at herr
    cases herr
  · intro m' hsm ht _
    exact hc ms m' hsm (fun q h1 _ => ht.other q h1) (.inl (ht.other _ hneq)) (hnodir ht)

end Telepty.Ledger
