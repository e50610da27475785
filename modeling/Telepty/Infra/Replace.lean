import Telepty.Infra.Process

/-!
# Replacing a file

A file is replaced by writing its new bytes to a name of their own and renaming that over it. The file
then has its old bytes or its new ones, wherever the process dies and whichever operation fails, and
nothing else changes but the name that was used (`Replacing`).
-/

namespace Telepty.Infra.Prog

variable {σ μ : Type}

/-- The bytes in a file that was not there, on disk. -/
def writeTemp (env : Env) (tmp : Path) (bytes : Bytes) : Prog σ μ Unit := do
  let _ ← sys env (.open .wx tmp)
  let _ ← sys env (.write tmp bytes)
  let _ ← sys env (.fsync tmp)
  let _ ← sys env (.close tmp)
  pure ()

/-- `try { unlink(tmp) } catch (error) { if (!ignored(error)) throw error }` -/
def discard (env : Env) (tmp : Path) (ignored : Failure → Bool) : Prog σ μ Unit :=
  (sys env (.unlink tmp) >>= fun _ => pure ()).catching fun e =>
    if ignored e then pure () else raise e

/-- Nothing changed but the file `tmp`, and `dst` if it has the new bytes now. -/
structure Replacing (tmp dst : Path) (bytes : Bytes) (m m' : Machine σ μ) : Prop where
  mem : m'.mem = m.mem
  sent : m'.sent = m.sent
  others : ∀ q, q ≠ tmp → q ≠ dst → m'.disk.get? q = m.disk.get? q
  target : m'.disk.get? dst = m.disk.get? dst ∨ m'.disk.get? dst = some (.file bytes)

/-- Nothing changed but the file `tmp`. -/
structure Beside (tmp : Path) (m m' : Machine σ μ) : Prop where
  mem : m'.mem = m.mem
  sent : m'.sent = m.sent
  others : ∀ q, q ≠ tmp → m'.disk.get? q = m.disk.get? q

variable {tmp dst : Path} {bytes : Bytes} {m m' m'' : Machine σ μ} {env : Env}

namespace Beside

/-- An operation that failed without a trace. -/
theorem still {fs : FS} {n : Nat} (h : fs = m.disk) : Beside tmp m ⟨m.mem, fs, n, m.sent⟩ :=
  ⟨rfl, rfl, fun _ _ => by rw [h]⟩

theorem trans (h : Beside tmp m m') (h' : Beside tmp m' m'') : Beside tmp m m'' :=
  ⟨h'.mem.trans h.mem, h'.sent.trans h.sent, fun q hq => (h'.others q hq).trans (h.others q hq)⟩

theorem of_quiet (h : Quiet m m') : Beside tmp m m' :=
  ⟨h.mem, h.sent, fun q _ => by rw [h.disk]⟩

theorem replacing (h : Beside tmp m m') (hne : tmp ≠ dst) : Replacing tmp dst bytes m m' :=
  ⟨h.mem, h.sent, fun q hq _ => h.others q hq, .inl (h.others dst hne.symm)⟩

end Beside

/-- What happens beside a replacement. -/
theorem Replacing.beside (h : Replacing tmp dst bytes m m') (h' : Beside tmp m' m'')
    (hne : tmp ≠ dst) : Replacing tmp dst bytes m m'' where
  mem := h'.mem.trans h.mem
  sent := h'.sent.trans h.sent
  others q hq hq' := (h'.others q hq).trans (h.others q hq hq')
  target := by
    rw [h'.others dst hne.symm]
    exact h.target

/-- The new file is complete before it has its name. -/
theorem wp_writeTemp (hs : env.NoShort) (m : Machine σ μ) :
    wp (writeTemp env tmp bytes)
      ⟨fun _ m' => Beside tmp m m' ∧ m'.disk.get? tmp = some (.file bytes),
        fun _ m' => Beside tmp m m', fun m' => Beside tmp m m'⟩ m := by
  unfold writeTemp
  rw [wp_bind]
  refine wp_sys hs (fun fs hopen => ?_) (fun _ _ _ => .still rfl) (fun _ _ => .still rfl)
    (fun _ => .still rfl)
  obtain ⟨-, rfl⟩ := FS.openFile_wx hopen
  have hfile : (m.disk.set tmp (.file [])).get? tmp = some (.file []) := OrdMap.get?_set_self ..
  have hopened : Beside tmp m ⟨m.mem, m.disk.set tmp (.file []), m.tick + 1, m.sent⟩ :=
    ⟨rfl, rfl, fun q hq => OrdMap.get?_set_of_ne _ hq⟩
  -- the bytes so far, of whatever the write has stored
  have hwritten : ∀ b, Beside tmp m
      ⟨m.mem, FS.append (m.disk.set tmp (.file [])) tmp b, m.tick + 1 + 1, m.sent⟩ := fun b =>
    hopened.trans ⟨rfl, rfl, fun q hq => FS.append_get?_of_ne hq⟩
  show wp _ _ _
  rw [wp_bind]
  refine wp_sys hs (fun fs hwrite => ?_) (fun _ e kept => hwritten _) (fun e he => ?_)
    (fun kept => hwritten _)
  · cases hwrite
    have hdone : (FS.append (m.disk.set tmp (.file [])) tmp bytes).get? tmp = some (.file bytes) := by
      rw [FS.append_get?_self hfile, List.nil_append]
    show wp _ _ _
    rw [wp_bind]
    refine wp_sys_quiet hs (harmless_fsync tmp) (fun m₁ h₁ => ?_)
      (fun e m₁ h₁ _ => (hwritten bytes).trans (.of_quiet h₁))
      (fun m₁ h₁ => (hwritten bytes).trans (.of_quiet h₁))
    show wp _ _ _
    rw [wp_bind]
    refine wp_sys_quiet hs (harmless_close tmp) (fun m₂ h₂ => ?_)
      (fun e m₂ h₂ _ => ((hwritten bytes).trans (.of_quiet h₁)).trans (.of_quiet h₂))
      (fun m₂ h₂ => ((hwritten bytes).trans (.of_quiet h₁)).trans (.of_quiet h₂))
    refine ⟨((hwritten bytes).trans (.of_quiet h₁)).trans (.of_quiet h₂), ?_⟩
    rw [h₂.disk, h₁.disk]
    exact hdone
  · cases he

/-- **The rename replaces the file or leaves it.** -/
theorem wp_rename_over (hs : env.NoShort) (hne : tmp ≠ dst)
    (htmp : m.disk.get? tmp = some (.file bytes)) :
    wp (sys env (.rename tmp dst))
      ⟨fun _ m' => Replacing tmp dst bytes m m' ∧ m'.disk.get? dst = some (.file bytes),
        fun _ m' => Beside tmp m m', fun m' => Beside tmp m m'⟩ m := by
  refine wp_sys hs (fun fs hrun => ?_) (fun _ _ _ => .still rfl) (fun _ _ => .still rfl)
    (fun _ => .still rfl)
  have hfs := FS.rename_file htmp hne hrun
  have hdst : fs.get? dst = some (.file bytes) := by
    rw [hfs]
    exact OrdMap.get?_set_self ..
  refine ⟨⟨rfl, rfl, fun q hq hq' => ?_, .inr hdst⟩, hdst⟩
  show fs.get? q = m.disk.get? q
  rw [hfs, OrdMap.get?_set_of_ne _ hq', OrdMap.get?_delete, if_neg hq]

/-- What is left of the new file is removed, or is not. -/
theorem wp_discard (hs : env.NoShort) (ignored : Failure → Bool) (m : Machine σ μ) :
    wp (discard env tmp ignored) ⟨fun _ m' => Beside tmp m m', fun _ m' => Beside tmp m m',
      fun m' => Beside tmp m m'⟩ m := by
  have hfailed : ∀ (e : Failure) (m' : Machine σ μ), Beside tmp m m' →
      wp (if ignored e then pure () else raise e : Prog σ μ Unit) ⟨fun _ m' => Beside tmp m m',
        fun _ m' => Beside tmp m m', fun m' => Beside tmp m m'⟩ m' := by
    intro e m' h
    split
    · exact h
    · exact h
  unfold discard
  rw [wp_catching, wp_bind]
  refine wp_sys hs (fun fs hrun => ?_) (fun _ _ _ => hfailed _ _ (.still rfl))
    (fun _ _ => hfailed _ _ (.still rfl)) (fun _ => .still rfl)
  show Beside tmp m _
  refine ⟨rfl, rfl, fun q hq => ?_⟩
  have hfs : fs.get? q = (m.disk.delete tmp).get? q := by
    have hunlink : m.disk.unlink tmp = .ok fs := hrun
    rw [FS.unlink] at hunlink
    split at hunlink
    · cases hunlink
    · cases hunlink
    · cases hunlink
      rfl
  show fs.get? q = m.disk.get? q
  rw [hfs, OrdMap.get?_delete, if_neg hq]

end Telepty.Infra.Prog
