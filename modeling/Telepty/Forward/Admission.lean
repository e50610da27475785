import Telepty.Forward.Leftover

/-!
# Admission after a crash

As long as the directory of the ledger holds whole records only, a key that nothing is stored under
can be reserved. A part of a record or a temporary file that a crash left there is in the way of
every reservation, until someone takes it away; nothing that is stored is ever sent again.
-/

namespace Telepty.Forward

open Infra Infra.Prog Mailbox Principal

variable {σ μ α : Type} {home p : Path} {env : Env} {net : Addresses} {fs fs' : FS} {k : Text}
  {r : Json} {m m' : Machine σ μ}

/-! ## What a crash may leave -/

/-- Every file of the ledger is a record that can be read. -/
structure Usable (home : Path) (fs : FS) : Prop where
  root : fs.get? home = some .dir
  base : fs.get? (base home) = none ∨ fs.get? (Forward.base home) = some .dir
  dir : fs.get? (dir home) = none ∨ fs.get? (Forward.dir home) = some .dir
  names : ∀ name, fs.get? (joinPath (Forward.dir home) name) ≠ none → isRecordName name = true
  records : ∀ k, digestText k = true → slot home fs k ≠ none → ∃ r, observe home fs k = .ok (some r)

/-- A file holds a part of a record, and not all of it. -/
def Torn (home : Path) (fs : FS) : Prop :=
  ∃ r b, Legible r ∧ digestText (keyOf r) = true ∧ b <+: bytesOf r ∧ b ≠ bytesOf r ∧
    slot home fs (keyOf r) = some (.file b)

/-- There is a temporary file. -/
def Stray (home : Path) (fs : FS) : Prop :=
  ∃ name, fs.get? (joinPath (dir home) name) ≠ none ∧ isTemporary name = true

/-- What a crash in a write may leave. -/
def Leftover (home : Path) (fs : FS) : Prop := Torn home fs ∨ Stray home fs

theorem isRecordName_of_isTemporary {name : Text} (h : isTemporary name = true) :
    isRecordName name = false := by
  by_contra hrec
  rw [Bool.not_eq_false, isRecordName, Bool.and_eq_true, decide_eq_true_eq] at hrec
  have hjson : name.getLast? = some 'n' := by
    rw [← List.take_append_drop 64 name, hrec.2, List.getLast?_append]
    rfl
  rw [isTemporary, List.isSuffixOf_iff_suffix] at h
  obtain ⟨front, rfl⟩ := h
  have htmp : (".tmp" : Text).getLast? = some 'p' := by decide
  rw [List.getLast?_append, htmp] at hjson
  exact absurd (Option.some.inj hjson) (by decide)

/-- **A run leaves the ledger usable, or something in it that a crash left.** -/
theorem usable_or_leftover (env : Env) (net : Addresses) {m : Node} (hu : Usable home m.disk)
    (h : Orderly home m) (es : List Event) : Usable home (run home env net m es).disk ∨
      Leftover home (run home env net m es).disk := by
  have hframed : Framed home m.disk (run home env net m es).disk := framed_run_events env net m es
  have hcourse := course_run env net h es
  by_cases hleft : Leftover home (run home env net m es).disk
  · exact .inr hleft
  · have hmade : ∀ q, q.length ≤ home.length + 2 → (m.disk.get? q = none ∨ m.disk.get? q = some .dir) →
        (run home env net m es).disk.get? q = none ∨ (run home env net m es).disk.get? q = some .dir := by
      intro q hq hbefore
      rcases hframed.dirs q hq with hs | ⟨-, hdir⟩
      · exact hs ▸ hbefore
      · exact .inr hdir
    refine .inl ⟨?_, hmade _ (by simp [base, joinPath]) hu.base,
      hmade _ (by simp [dir, base, joinPath]) hu.dir, fun name hname => ?_, fun k hk hocc => ?_⟩
    · rcases hframed.dirs home (Nat.le_add_right _ _) with hs | ⟨hnone, -⟩
      · exact hs.trans hu.root
      · rw [hu.root] at hnone
        cases hnone
    · rcases hframed.names name hname with hold | hrec | htmp
      · exact hu.names name hold
      · exact hrec
      · exact absurd (.inr ⟨name, hname, htmp⟩) hleft
    · rcases (hcourse.orderly.parts k hk hocc).read_or_torn with hread | ⟨r, b, hl, rfl, hb, hne, hslot⟩
      · exact hread
      · exact absurd (.inl ⟨r, b, hl, hk, hb, hne, hslot⟩) hleft

/-! ## Leftovers are in the way -/

/-- What lies far enough below the home is as it was. -/
def Deep (home : Path) (m m' : Machine σ μ) : Prop :=
  ∀ q, home.length + 2 < q.length → m'.disk.get? q = m.disk.get? q

theorem deep_prepare : Keeps (Deep home) (prepare home env : Prog σ μ Unit) := by
  have hmkdir : ∀ p : Path, p.length ≤ home.length + 2 →
      Keeps (Deep home) (sys env (.mkdir p) >>= fun _ => pure () : Prog σ μ Unit) := by
    intro p hp
    refine Keeps.bind (R := Deep home) (fun _ _ _ h h' q hq => (h' q hq).trans (h q hq)) (fun m => ?_)
      fun _ _ _ _ => rfl
    refine wp_op (fun _ => rfl) nofun (fun fs hrun q hq => ?_) (fun _ _ _ => rfl) fun _ _ => rfl
    simp only [FileOp.run, FS.mkdir] at hrun
    split at hrun
    · cases hrun
    · cases hd : m.disk.parentDir p with
      | error e => rw [hd] at hrun; cases hrun
      | ok u =>
        rw [hd] at hrun
        obtain rfl := Except.ok.inj hrun
        refine OrdMap.get?_set_of_ne _ ?_
        rintro rfl
        omega
  have hdir : ∀ p : Path, p.length ≤ home.length + 2 →
      Keeps (Deep home) (prepareDir env p : Prog σ μ Unit) := by
    intro p hp
    refine Keeps.bind (R := Deep home) (fun _ _ _ h h' q hq => (h' q hq).trans (h q hq))
      (Keeps.catching (R := Deep home) (fun _ _ _ h h' q hq => (h' q hq).trans (h q hq)) (hmkdir p hp)
        fun e => ?_) fun _ => ?_
    · split
      · exact fun _ _ _ => rfl
      · exact fun _ _ _ => rfl
    · refine Keeps.bind (R := Deep home) (fun _ _ _ h h' q hq => (h' q hq).trans (h q hq))
        (fun _ _ _ => rfl) fun fs => ?_
      split
      · exact fun _ _ _ => rfl
      · exact fun _ _ _ => rfl
      · exact fun _ _ _ => rfl
  exact Keeps.bind (R := Deep home) (fun _ _ _ h h' q hq => (h' q hq).trans (h q hq))
    (hdir _ (by simp [base, joinPath])) fun _ => hdir _ (by simp [dir, base, joinPath])

theorem deep_read (key : Text) : Keeps (Deep home) (read home env key : Prog σ μ _) := by
  refine Keeps.bind (R := Deep home) (fun _ _ _ h h' q hq => (h' q hq).trans (h q hq)) deep_prepare
    fun _ => Keeps.bind (R := Deep home) (fun _ _ _ h h' q hq => (h' q hq).trans (h q hq))
      (Keeps.ofExcept (fun _ _ _ => rfl) _) fun _ => ?_
  exact Keeps.bind (R := Deep home) (fun _ _ _ h h' q hq => (h' q hq).trans (h q hq))
    (fun _ _ _ => rfl) fun _ => Keeps.ofExcept (fun _ _ _ => rfl) _

/-- All records are read only where every name is that of a record. -/
theorem names_of_all : wp (all home env) ⟨fun _ _ => ∀ name,
    m.disk.get? (joinPath (dir home) name) ≠ none → isRecordName name = true,
      fun _ _ => True, fun _ => True⟩ m := by
  rw [all, wp_bind]
  refine wp_mono (deep_prepare m) (fun _ m₁ h₁ => ?_) (fun _ _ _ => trivial) fun _ _ => trivial
  dsimp only at h₁ ⊢
  rw [wp_bind, wp_disk]
  dsimp only
  cases hnames : m₁.disk.readdir (dir home) with
  | error e => exact trivial
  | ok names =>
    dsimp only
    split
    · exact trivial
    · split
      · next hall =>
        have hmem : ∀ name, m.disk.get? (joinPath (dir home) name) ≠ none →
            isRecordName name = true := by
          intro name hname
          refine List.all_eq_true.mp hall name ?_
          rw [FS.readdir] at hnames
          split at hnames
          · cases hnames
          · cases hnames
          · obtain rfl := Except.ok.inj hnames
            refine FS.mem_names_iff.mpr (Option.ne_none_iff_exists'.mp ?_)
            rwa [← h₁ _ (by simp [dir, base, joinPath])] at hname
        have hrest : Keeps (fun _ _ => True) (readAll home env names : Prog σ μ (List Json)) := by
          intro m
          unfold wp
          split <;> exact trivial
        exact wp_mono (hrest m₁) (fun _ _ _ => hmem) (fun _ _ _ => trivial) fun _ _ => trivial
      · exact trivial

theorem Leftover.reads (h : Leftover home m.disk) (hr : Reads home m m') (hd : Deep home m m') :
    Leftover home m'.disk := by
  rcases h with ⟨r, b, hl, hk, hb, hne, hslot⟩ | ⟨name, hname, htmp⟩
  · exact .inl ⟨r, b, hl, hk, hb, hne, (hr.1 _ hk).trans hslot⟩
  · refine .inr ⟨name, ?_, htmp⟩
    rwa [hd _ (by simp [dir, base, joinPath])]

theorem not_read_of_torn {b : Bytes} (hl : Legible r) (hb : b <+: bytesOf r) (hne : b ≠ bytesOf r)
    (hslot : slot home fs (keyOf r) = some (.file b)) :
    ∀ r', observe home fs (keyOf r) ≠ .ok (some r') := by
  intro r' hobs
  rw [slot] at hslot
  rw [observe, FS.lstat, hslot] at hobs
  dsimp only at hobs
  split at hobs
  · next record hrec => exact hne (eq_of_recordIn_cut hb hl.object hrec).1
  · cases hobs

/-- **A leftover is in the way of every reservation** of a key that nothing is stored under. -/
theorem not_reserved_of_leftover {key fingerprint : Text} {metadata : List (Text × Json)}
    (hleft : Leftover home m.disk) (hk : Unused home m.disk key) :
    ∀ reserved m', reserve home env key fingerprint metadata m ≠ .done reserved m' := by
  have hw : wp (reserve home env key fingerprint metadata)
      ⟨fun _ _ => False, fun _ _ => True, fun _ => True⟩ m := by
    rw [reserve, wp_bind]
    refine wp_of_keeps (deep_read key) (wp_read (fun m₁ found h₁ _ hfound hdeep => ?_)
      (fun _ _ _ _ => trivial) fun _ _ _ => trivial)
    cases found with
    | some record => exact absurd hk.2 (ne_none_of_observe hfound)
    | none =>
      dsimp only
      rw [wp_bind]
      have hread : wp (all home env) ⟨fun records _ => ∀ k, digestText k = true →
          slot home m₁.disk k ≠ none → ∃ r ∈ records, observe home m₁.disk k = .ok (some r),
            fun _ _ => True, fun _ => True⟩ m₁ :=
        wp_all (fun _ _ _ hall _ => hall) (fun _ _ _ => trivial) fun _ _ => trivial
      refine wp_mono (wp_and hread names_of_all) (fun records m₂ hall => ?_) (fun _ _ _ => trivial)
        fun _ _ => trivial
      rcases hleft.reads h₁ hdeep with ⟨r, b, hl, hrk, hb, hne, hslot⟩ | ⟨name, hname, htmp⟩
      · obtain ⟨r', -, hobs⟩ := hall.1 (keyOf r) hrk (hslot ▸ Option.some_ne_none _)
        exact absurd hobs (not_read_of_torn hl hb hne hslot r')
      · have hrec := hall.2 name hname
        rw [isRecordName_of_isTemporary htmp] at hrec
        cases hrec
  intro reserved m' heq
  unfold wp at hw
  rw [heq] at hw
  exact hw

/-! ## Admission -/

/-- From here on every operation is performed. -/
def Performs (env : Env) (t : Nat) : Prop := ∀ i, t ≤ i → env.fate i = .perform

theorem wp_performed {op : FileOp} {Q : Ensures σ μ Nat} (hp : Performs env m.tick)
    (hrun : op.run m.disk = .ok fs) (h : Q.done op.size { m with disk := fs, tick := m.tick + 1 }) :
    wp (sys env op) Q m := by
  unfold wp sys
  rw [hp m.tick (Nat.le_refl _)]
  dsimp only
  rw [Prog.perform, hrun]
  exact h

theorem wp_refused {op : FileOp} {Q : Ensures σ μ Nat} {e : Errno} (hp : Performs env m.tick)
    (hrun : op.run m.disk = .error e) (h : Q.raised ⟨e.text, []⟩ { m with tick := m.tick + 1 }) :
    wp (sys env op) Q m := by
  unfold wp sys
  rw [hp m.tick (Nat.le_refl _)]
  dsimp only
  rw [Prog.perform, hrun]
  exact h

theorem Performs.later {t t' : Nat} (h : Performs env t) (ht : t ≤ t') : Performs env t' :=
  fun i hi => h i (Nat.le_trans ht hi)

/-- The directories of the ledger are there, and every operation is performed. -/
structure Standing (home : Path) (env : Env) (m : Machine σ μ) : Prop where
  performs : Performs env m.tick
  root : m.disk.get? home = some .dir
  base : m.disk.get? (base home) = some .dir
  dir : m.disk.get? (dir home) = some .dir

theorem Standing.tick (h : Standing home env m) :
    Standing home env { m with tick := m.tick + 1 } :=
  ⟨h.performs.later (Nat.le_succ _), h.root, h.base, h.dir⟩

/-- A directory that is there, or can be made. -/
theorem wp_prepareDir {Q : Ensures σ μ Unit} (hp : Performs env m.tick)
    (hd : m.disk.get? p = some .dir ∨
      (m.disk.get? p = none ∧ m.disk.get? p.dropLast = some .dir))
    (h : ∀ fs, fs.get? p = some .dir → (∀ q, q ≠ p → fs.get? q = m.disk.get? q) →
      Q.done () { m with disk := fs, tick := m.tick + 1 }) : wp (prepareDir env p) Q m := by
  rw [prepareDir, wp_bind, wp_catching, wp_bind]
  rcases hd with hd | ⟨hnone, hparent⟩
  · refine wp_refused hp (show m.disk.mkdir p = .error .EEXIST by rw [FS.mkdir, hd]) ?_
    dsimp only
    rw [if_pos rfl, wp_pure]
    dsimp only
    rw [wp_bind, wp_disk]
    dsimp only
    rw [FS.lstat, hd]
    exact h m.disk hd fun _ _ => rfl
  · have hmkdir : m.disk.mkdir p = .ok (OrdMap.set m.disk p .dir) := by
      rw [FS.mkdir, hnone]
      dsimp only
      rw [FS.parentDir, hparent]
      rfl
    refine wp_performed hp hmkdir ?_
    dsimp only
    rw [wp_pure]
    dsimp only
    rw [wp_bind, wp_disk]
    dsimp only
    have hself : (OrdMap.set m.disk p .dir).get? p = some .dir := OrdMap.get?_set_self _
    rw [FS.lstat, hself]
    exact h _ hself fun q hq => OrdMap.get?_set_of_ne _ hq

/-- The directories are made where they are missing. -/
theorem wp_prepare_performed {Q : Ensures σ μ Unit} (hp : Performs env m.tick)
    (hroot : m.disk.get? home = some .dir)
    (hb : m.disk.get? (base home) = none ∨ m.disk.get? (base home) = some .dir)
    (hd : m.disk.get? (dir home) = none ∨ m.disk.get? (dir home) = some .dir)
    (h : ∀ m', Standing home env m' → Deep home m m' → Q.done () m') :
    wp (prepare home env) Q m := by
  have hbase : (base home).dropLast = home := List.dropLast_concat
  have hdir : (dir home).dropLast = base home := List.dropLast_concat
  have hne : ∀ {p q : Path}, p.length ≠ q.length → p ≠ q := fun hlen heq => hlen (heq ▸ rfl)
  rw [prepare, wp_bind]
  refine wp_prepareDir hp (hb.symm.imp_right fun hnone => ⟨hnone, by rw [hbase, hroot]⟩)
    fun fs hself hrest => ?_
  dsimp only
  have hdirs : fs.get? (dir home) = m.disk.get? (dir home) :=
    hrest _ (hne (by simp [dir, base, joinPath]))
  refine wp_prepareDir (hp.later (Nat.le_succ _)) (hd.symm.imp (hdirs.trans ·) fun hnone =>
    ⟨hdirs.trans hnone, by rw [hdir, hself]⟩) fun fs' hself' hrest' => ?_
  refine h _ ⟨hp.later (Nat.le_add_right _ 2), ?_, ?_, hself'⟩ fun q hq => ?_
  · exact (hrest' _ (hne (by simp [dir, base, joinPath]))).trans
      ((hrest _ (hne (by simp [base, joinPath]))).trans hroot)
  · exact (hrest' _ (hne (by simp [dir, base, joinPath]))).trans hself
  · have hlen : (base home).length = home.length + 1 ∧ (dir home).length = home.length + 2 := by
      simp [dir, base, joinPath]
    exact (hrest' _ (hne (by omega))).trans (hrest _ (hne (by omega)))

theorem Standing.prepare {Q : Ensures σ μ Unit} (hs : Standing home env m)
    (h : ∀ m', Standing home env m' → Deep home m m' → Q.done () m') :
    wp (prepare home env) Q m :=
  wp_prepare_performed hs.performs hs.root (.inr hs.base) (.inr hs.dir) h

theorem Deep.trans {m'' : Machine σ μ} (h : Deep home m m') (h' : Deep home m' m'') :
    Deep home m m'' := fun q hq => (h' q hq).trans (h q hq)

theorem Deep.entry (h : Deep home m m') (name : Text) :
    m'.disk.get? (joinPath (dir home) name) = m.disk.get? (joinPath (dir home) name) :=
  h _ (by simp [dir, base, joinPath])

theorem Deep.length_names_le (h : Deep home m m') :
    (m'.disk.names (dir home)).length ≤ (m.disk.names (dir home)).length := by
  refine (List.subperm_of_subset (FS.nodup_names _ _) fun name hname => ?_).length_le
  obtain ⟨n, hn⟩ := FS.mem_names_iff.mp hname
  exact FS.mem_names_iff.mpr ⟨n, (h.entry name).symm.trans hn⟩

theorem Deep.slot (h : Deep home m m') (k : Text) : slot home m'.disk k = slot home m.disk k :=
  h _ (by simp [recordFile, dir, base, joinPath])

/-- What is read where nothing fails. -/
theorem wp_read_prepared {key : Text} {found : Option Json} {Q : Ensures σ μ (Option Json)}
    (hprepare : ∀ {P : Ensures σ μ Unit}, (∀ m', Standing home env m' → Deep home m m' →
      P.done () m') → wp (prepare home env) P m)
    (hk : digestText key = true) (hobs : observe home m.disk key = .ok found)
    (h : ∀ m', Standing home env m' → Deep home m m' → Q.done found m') :
    wp (read home env key) Q m := by
  rw [read, wp_bind]
  refine hprepare fun m' hs hd => ?_
  dsimp only
  rw [wp_bind, recordPath, if_pos hk, wp_ofExcept]
  dsimp only
  rw [wp_bind, wp_disk]
  dsimp only
  rw [observe_congr (hd.slot key), hobs, wp_ofExcept]
  exact h m' hs hd

theorem Standing.readAll {names : List Text} {Q : Ensures σ μ (List Json)}
    (hs : Standing home env m) (hnames : ∀ name ∈ names, digestText (name.take 64) = true ∧
      ∃ r, observe home m.disk (name.take 64) = .ok (some r))
    (h : ∀ records m', records.length = names.length → Standing home env m' → Deep home m m' →
      Q.done records m') : wp (readAll home env names) Q m := by
  induction names generalizing m Q with
  | nil => exact h [] m rfl hs fun _ _ => rfl
  | cons name names ih =>
    obtain ⟨hk, r, hobs⟩ := hnames name List.mem_cons_self
    rw [Forward.readAll, wp_bind]
    refine wp_read_prepared hs.prepare hk hobs fun m₁ hs₁ hd₁ => ?_
    dsimp only
    rw [wp_bind]
    refine ih hs₁ (fun n hn => ?_) fun records m₂ hlen hs₂ hd₂ => ?_
    · obtain ⟨hkn, r', hr'⟩ := hnames n (List.mem_cons_of_mem _ hn)
      exact ⟨hkn, r', by rw [observe_congr (hd₁.slot _), hr']⟩
    · exact h (r :: records) m₂ (by rw [List.length_cons, hlen, List.length_cons]) hs₂ (hd₁.trans hd₂)

/-- The records of a directory that holds nothing else. -/
theorem Standing.all {Q : Ensures σ μ (List Json)} (hs : Standing home env m)
    (hlen : (m.disk.names (Forward.dir home)).length < maxRecords)
    (hnames : ∀ name, m.disk.get? (joinPath (Forward.dir home) name) ≠ none →
      isRecordName name = true)
    (hrecords : ∀ k, digestText k = true → slot home m.disk k ≠ none →
      ∃ r, observe home m.disk k = .ok (some r))
    (h : ∀ records m', records.length < maxRecords → Standing home env m' → Deep home m m' →
      Q.done records m') : wp (all home env) Q m := by
  rw [Forward.all, wp_bind]
  refine hs.prepare fun m₁ hs₁ hd₁ => ?_
  dsimp only
  rw [wp_bind, wp_disk]
  dsimp only
  have hreaddir : m₁.disk.readdir (Forward.dir home) = .ok (m₁.disk.names (Forward.dir home)) := by
    rw [FS.readdir, hs₁.dir]
  have hmem : ∀ name ∈ m₁.disk.names (Forward.dir home),
      m.disk.get? (joinPath (Forward.dir home) name) ≠ none := by
    intro name hname
    obtain ⟨n, hn⟩ := FS.mem_names_iff.mp hname
    rw [← hd₁.entry, joinPath, hn]
    exact Option.some_ne_none _
  have hshort : (m₁.disk.names (Forward.dir home)).length < maxRecords :=
    Nat.lt_of_le_of_lt hd₁.length_names_le hlen
  rw [hreaddir]
  dsimp only
  rw [if_neg (Nat.not_lt.mpr (Nat.le_of_lt hshort)),
    if_pos (List.all_eq_true.mpr fun name hname => hnames name (hmem name hname))]
  refine hs₁.readAll (fun name hname => ?_) fun records m₂ hcount hs₂ hd₂ =>
    h records m₂ (hcount ▸ hshort) hs₂ (hd₁.trans hd₂)
  have hrec := hnames name (hmem name hname)
  rw [isRecordName, Bool.and_eq_true, decide_eq_true_eq] at hrec
  have hslot : slot home m.disk (name.take 64) ≠ none := by
    have hfile := hmem name hname
    rwa [← List.take_append_drop 64 name, hrec.2] at hfile
  obtain ⟨r, hobs⟩ := hrecords _ hrec.1 hslot
  exact ⟨hrec.1, r, by rw [observe_congr (hd₁.slot _), hobs]⟩

/-! ## The first write -/

/-- An operation that changes nothing. -/
theorem wp_still {op : FileOp} {Q : Ensures σ μ Nat} (hs : Standing home env m)
    (hrun : op.run m.disk = .ok m.disk)
    (h : ∀ m', Standing home env m' → Q.done op.size m') : wp (sys env op) Q m :=
  wp_performed hs.performs hrun (h _ hs.tick)

theorem Standing.syncDir {Q : Ensures σ μ Unit} (hs : Standing home env m)
    (hp : ∀ m' : Machine σ μ, Standing home env m' → m'.disk.get? p = some .dir)
    (h : ∀ m', Standing home env m' → Q.done () m') : wp (syncDir env p) Q m := by
  rw [Forward.syncDir, wp_bind]
  refine wp_still hs ?_ fun m₁ hs₁ => ?_
  · change m.disk.openFile .r p = .ok m.disk
    unfold FS.openFile
    rw [hp m hs]
  · dsimp only
    rw [wp_finallyDo, wp_bind]
    refine wp_still hs₁ rfl fun m₂ hs₂ => ?_
    dsimp only
    rw [wp_pure]
    dsimp only
    rw [wp_bind]
    exact wp_still hs₂ rfl fun m₃ hs₃ => h m₃ hs₃

theorem Standing.fsyncAll {Q : Ensures σ μ Unit} (hs : Standing home env m)
    (h : ∀ m', Standing home env m' → Q.done () m') : wp (fsyncAll home env) Q m := by
  rw [Forward.fsyncAll, wp_bind]
  refine hs.syncDir (fun _ hs' => hs'.dir) fun m₁ hs₁ => ?_
  dsimp only
  rw [wp_bind]
  exact hs₁.syncDir (fun _ hs' => hs'.base) fun m₂ hs₂ => hs₂.syncDir (fun _ hs' => hs'.root) h

/-- A file of the ledger changes. -/
theorem Standing.file (hs : Standing home env m) (hp : home.length + 2 < p.length) {fs : FS}
    (hrest : ∀ q, q ≠ p → fs.get? q = m.disk.get? q) :
    Standing home env { m with disk := fs, tick := m.tick + 1 } := by
  have hlen : (Forward.base home).length = home.length + 1 ∧
      (Forward.dir home).length = home.length + 2 := by
    simp [Forward.dir, Forward.base, joinPath]
  have hne : ∀ q : Path, q.length ≤ home.length + 2 → q ≠ p := fun q hq heq => by
    subst heq
    omega
  exact ⟨hs.performs.later (Nat.le_succ _), (hrest _ (hne _ (by omega))).trans hs.root,
    (hrest _ (hne _ (by omega))).trans hs.base, (hrest _ (hne _ (by omega))).trans hs.dir⟩

theorem Standing.writeFileSync {Q : Ensures σ μ Unit} {bytes : Bytes} (hs : Standing home env m)
    (hp : home.length + 2 < p.length) (h : ∀ m', Standing home env m' → Q.done () m') :
    wp (writeFileSync env p bytes.length bytes) Q m := by
  cases bytes with
  | nil => exact h m hs
  | cons b bytes =>
    rw [List.length_cons, Forward.writeFileSync, if_neg (List.cons_ne_nil _ _), wp_bind]
    refine wp_performed hs.performs rfl ?_
    have hs₁ : Standing home env
        { m with disk := m.disk.append p (b :: bytes), tick := m.tick + 1 } :=
      hs.file hp fun q hq => FS.append_get?_of_ne hq
    have hrest : (b :: bytes).drop (FileOp.write p (b :: bytes)).size = [] := List.drop_length
    dsimp only
    rw [hrest]
    cases bytes.length with
    | zero => exact h _ hs₁
    | succ n =>
      rw [Forward.writeFileSync, if_pos rfl]
      exact h _ hs₁

/-- **The first write of a record** where nothing fails. -/
theorem Standing.write {Q : Ensures σ μ Unit} (hs : Standing home env m)
    (hk : digestText (keyOf r) = true) (hnone : slot home m.disk (keyOf r) = none)
    (hsmall : (bytesOf r).length ≤ maxRecordBytes)
    (h : ∀ m', Standing home env m' → Q.done () m') : wp (write home env r true) Q m := by
  rw [Forward.write, wp_bind]
  refine hs.prepare fun m₁ hs₁ hd₁ => ?_
  dsimp only
  rw [if_neg (show ¬ maxRecordBytes < (encodeText r.stringify).length from Nat.not_lt.mpr hsmall),
    wp_bind, recordPath, if_pos (show digestText (r.textField "receipt_id") = true from hk),
    wp_ofExcept]
  dsimp only
  rw [wp_bind, wp_random]
  dsimp only
  rw [if_pos rfl, writeFirst, wp_bind, create, wp_bind, wp_catching, wp_bind]
  have hfile : home.length + 2 < (recordFile home (r.textField "receipt_id")).length := by
    simp [recordFile, Forward.dir, Forward.base, joinPath]
  have hopen : m₁.disk.openFile .wx (recordFile home (r.textField "receipt_id")) =
      .ok (OrdMap.set m₁.disk (recordFile home (r.textField "receipt_id")) (.file [])) := by
    have hfree : m₁.disk.get? (recordFile home (r.textField "receipt_id")) = none :=
      (hd₁ _ hfile).trans hnone
    have hparent : (recordFile home (r.textField "receipt_id")).dropLast = Forward.dir home :=
      List.dropLast_concat
    unfold FS.openFile
    rw [hfree]
    dsimp only
    rw [if_neg (by decide), FS.parentDir, hparent, hs₁.dir]
    rfl
  refine wp_performed hs₁.performs hopen ?_
  have hs₂ : Standing home env { m₁ with
      disk := OrdMap.set m₁.disk (recordFile home (r.textField "receipt_id")) (.file [])
      tick := m₁.tick + 1 } := hs₁.file hfile fun q hq => OrdMap.get?_set_of_ne _ hq
  dsimp only
  rw [wp_pure]
  dsimp only
  rw [wp_catching, fill, wp_bind]
  refine hs₂.writeFileSync hfile fun m₃ hs₃ => ?_
  dsimp only
  rw [wp_bind]
  refine wp_still hs₃ rfl fun m₄ hs₄ => ?_
  dsimp only
  rw [wp_bind]
  exact wp_still hs₄ rfl fun m₅ hs₅ => hs₅.fsyncAll h

/-- **An unused key is reserved** where nothing fails, as long as the ledger is usable and has room. -/
theorem reserved_of_usable {key fingerprint : Text} {metadata : List (Text × Json)}
    (hu : Usable home m.disk) (hp : Performs env m.tick) (hk : Unused home m.disk key)
    (hlen : (m.disk.names (dir home)).length < maxRecords)
    (hnames : ("receipt_id" : Text) ∉ metadata.map Prod.fst)
    (hsmall : ∀ t, (bytesOf (pendingRecord key fingerprint (env.now t) metadata)).length ≤
      maxRecordBytes) :
    ∃ t m', reserve home env key fingerprint metadata m =
      .done ⟨pendingRecord key fingerprint (env.now t) metadata, true⟩ m' := by
  have hw : wp (reserve home env key fingerprint metadata)
      ⟨fun x _ => ∃ t, x = ⟨pendingRecord key fingerprint (env.now t) metadata, true⟩,
        fun _ _ => False, fun _ => False⟩ m := by
    have hobs : observe home m.disk key = .ok none := by
      have hnone := hk.2
      rw [slot] at hnone
      rw [observe, FS.lstat, hnone]
    rw [reserve, wp_bind]
    refine wp_read_prepared (fun h => wp_prepare_performed hp hu.root hu.base hu.dir h) hk.1 hobs
      fun m₁ hs₁ hd₁ => ?_
    dsimp only
    rw [wp_bind]
    refine hs₁.all (Nat.lt_of_le_of_lt hd₁.length_names_le hlen)
      (fun name hname => hu.names name (hd₁.entry name ▸ hname)) (fun k hkd hslot => ?_) fun records m₂ hroom hs₂ hd₂ => ?_
    · obtain ⟨r, hr⟩ := hu.records k hkd (hd₁.slot k ▸ hslot)
      exact ⟨r, by rw [observe_congr (hd₁.slot k), hr]⟩
    · dsimp only
      rw [if_neg (Nat.not_le.mpr hroom), wp_bind, wp_now]
      dsimp only
      rw [wp_bind]
      have hkey : keyOf (pendingRecord key fingerprint (env.now m₂.tick) metadata) = key :=
        keyOf_pendingRecord hnames
      refine hs₂.write (by rw [hkey]; exact hk.1) ?_ (hsmall _) fun m₃ _ => ⟨_, rfl⟩
      rw [hkey, hd₂.slot, hd₁.slot]
      exact hk.2
  unfold wp at hw
  split at hw
  · next x m' heq =>
    obtain ⟨t, rfl⟩ := hw
    exact ⟨t, m', heq⟩
  · exact hw.elim
  · exact hw.elim

/-! ## A crash -/

/-- The requests that were sent or passed on under a key. -/
def effectsFor (k : Text) (m : Node) : List Json := (reservations m).filter fun r => keyOf r = k

theorem orderly_fresh (hu : Usable home fs) : Orderly home (fresh fs) :=
  ⟨fun k hk hocc => .inl (hu.records k hk hocc), fun _ hw => absurd hw List.not_mem_nil,
    fun _ hr => absurd hr List.not_mem_nil⟩

theorem effectsFor_run (env : Env) (net : Addresses) {m : Node} (h : Orderly home m)
    (hocc : slot home m.disk k ≠ none) (es : List Event) :
    effectsFor k (run home env net m es) = effectsFor k m := by
  obtain ⟨new, hnew, hunused⟩ := (course_run env net h es).fresh
  have hnone : new.filter (fun r => keyOf r = k) = [] := by
    refine List.filter_eq_nil_iff.mpr fun r hr heq => hocc ?_
    rw [← of_decide_eq_true heq]
    exact (hunused r hr).2
  rw [effectsFor, hnew, List.filter_append, hnone, List.append_nil, effectsFor]

/-- **A crash never has a request sent again, and leaves the ledger usable or a leftover.** After
every run: a key that something is stored under has no more effects; every file of the ledger is a
record that can be read, unless a part of a record or a temporary file was left; without such a
leftover every unused key can be reserved, as long as there is room; with one, none can. -/
theorem usable_after_crash (home : Path) (env : Env) (net : Addresses) {fs : FS}
    (hu : Usable home fs) (es : List Event) :
    (∀ later k, slot home (run home env net (fresh fs) es).disk k ≠ none →
      effectsFor k (run home env net (fresh fs) (es ++ later)) =
        effectsFor k (run home env net (fresh fs) es)) ∧
    (Usable home (run home env net (fresh fs) es).disk ∨
      Leftover home (run home env net (fresh fs) es).disk) ∧
    (¬ Leftover home (run home env net (fresh fs) es).disk → ∀ env' key fingerprint metadata,
      Performs env' (run home env net (fresh fs) es).tick →
      Unused home (run home env net (fresh fs) es).disk key →
      ((run home env net (fresh fs) es).disk.names (dir home)).length < maxRecords →
      ("receipt_id" : Text) ∉ metadata.map Prod.fst →
      (∀ t, (bytesOf (pendingRecord key fingerprint (env'.now t) metadata)).length ≤
        maxRecordBytes) →
      ∃ t m', reserve home env' key fingerprint metadata (run home env net (fresh fs) es) =
        .done ⟨pendingRecord key fingerprint (env'.now t) metadata, true⟩ m') ∧
    (Leftover home (run home env net (fresh fs) es).disk → ∀ env' key fingerprint metadata,
      Unused home (run home env net (fresh fs) es).disk key → ∀ x m',
        reserve home env' key fingerprint metadata (run home env net (fresh fs) es) ≠ .done x m') := by
  have horderly := orderly_fresh hu
  have hleft := usable_or_leftover env net (show Usable home (fresh fs).disk from hu) horderly es
  refine ⟨fun later k hocc => ?_, hleft, fun hnot env' key fingerprint metadata hp hk hlen hnames
    hsmall => ?_, fun hleft env' key fingerprint metadata hk => not_reserved_of_leftover hleft hk⟩
  · rw [show run home env net (fresh fs) (es ++ later) =
      run home env net (run home env net (fresh fs) es) later from List.foldl_append ..]
    exact effectsFor_run env net (course_run env net horderly es).orderly hocc later
  · exact reserved_of_usable (hleft.resolve_right hnot) hp hk hlen hnames hsmall

/-! ## A torn record -/

/-- A home with no ledger in it. -/
def bareHome : FS := OrdMap.set OrdMap.empty ["h"] .dir

theorem usable_bareHome : Usable ["h"] bareHome := by
  have hnone : ∀ q : Path, q ≠ ["h"] → bareHome.get? q = none := fun _ hq =>
    OrdMap.get?_set_of_ne _ hq
  refine ⟨OrdMap.get?_set_self _, .inl (hnone _ (by decide)), .inl (hnone _ (by decide)),
    fun name hname => absurd (hnone _ fun heq => ?_) hname,
    fun k _ hocc => absurd (hnone _ fun heq => ?_) hocc⟩
  · exact absurd (congrArg List.length heq) (by simp [dir, base, joinPath])
  · exact absurd (congrArg List.length heq) (by simp [recordFile, dir, base, joinPath])

/-- The process dies in the write of the first record, with five bytes stored. -/
def diesInWrite : Env where
  fate := fun n => if n = 11 then .crash 5 else .perform
  now := fun _ => 0
  random := fun _ => []

def tornNode : Node := run ["h"] diesInWrite anyAddress (fresh bareHome) [.send (requestOf 'a')]

def otherKey : Text := List.replicate 64 'b'

/-- A record file that cannot be read. -/
def unreadable (fs : FS) (name : Text) : Bool :=
  isRecordName name && match observe ["h"] fs (name.take 64) with
    | .ok _ => false
    | .error _ => true

set_option maxRecDepth 100000 in
theorem tornNode_facts : tornNode.tick = 12 ∧ (tornNode.disk.names (dir ["h"])).length = 1 ∧
    (tornNode.disk.names (dir ["h"])).any (unreadable tornNode.disk) = true ∧
    slot ["h"] tornNode.disk otherKey = none := by
  decide +kernel

theorem leftover_tornNode : Leftover ["h"] tornNode.disk := by
  refine (usable_or_leftover diesInWrite anyAddress usable_bareHome (orderly_fresh usable_bareHome)
    [.send (requestOf 'a')]).resolve_left fun hu => ?_
  obtain ⟨name, hname, hbad⟩ := List.any_eq_true.mp tornNode_facts.2.2.1
  rw [unreadable, Bool.and_eq_true] at hbad
  obtain ⟨n, hn⟩ := FS.mem_names_iff.mp hname
  have hrec := hbad.1
  rw [isRecordName, Bool.and_eq_true, decide_eq_true_eq] at hrec
  have hslot : slot ["h"] tornNode.disk (name.take 64) ≠ none := by
    rw [← List.take_append_drop 64 name, hrec.2] at hn
    exact Option.ne_none_iff_exists'.mpr ⟨n, hn⟩
  obtain ⟨r, hobs⟩ := hu.records _ hrec.1 hslot
  have hread := hbad.2
  rw [show observe ["h"] tornNode.disk (name.take 64) = .ok (some r) from hobs] at hread
  cases hread

/-- What is left of the record is in the way of another key. -/
theorem usable_after_crash_torn : Leftover ["h"] tornNode.disk ∧ ∀ x m',
    reserve ["h"] diesInWrite otherKey otherKey [] tornNode ≠ .done x m' :=
  ⟨leftover_tornNode, (usable_after_crash ["h"] diesInWrite anyAddress usable_bareHome
    [.send (requestOf 'a')]).2.2.2 leftover_tornNode diesInWrite otherKey otherKey []
      ⟨by decide, tornNode_facts.2.2.2⟩⟩

/-- **A crash in a first write disables the ledger**: with one record, and nothing failing any more,
no other key can be reserved. -/
theorem crash_disables : ¬ ∀ (home : Path) (env : Env) (net : Addresses) (fs : FS)
    (es : List Event) (key fingerprint : Text) (metadata : List (Text × Json)), Usable home fs →
      Performs env (run home env net (fresh fs) es).tick →
      Unused home (run home env net (fresh fs) es).disk key →
      ((run home env net (fresh fs) es).disk.names (dir home)).length < maxRecords →
      ("receipt_id" : Text) ∉ metadata.map Prod.fst →
      (∀ t, (bytesOf (pendingRecord key fingerprint (env.now t) metadata)).length ≤
        maxRecordBytes) →
      ∃ x m', reserve home env key fingerprint metadata (run home env net (fresh fs) es) =
        .done x m' := by
  intro h
  obtain ⟨htick, hcount, -, hslot⟩ := tornNode_facts
  have hunused : Unused ["h"] tornNode.disk otherKey := ⟨by decide, hslot⟩
  have hperforms : Performs diesInWrite tornNode.tick := by
    intro i hi
    rw [htick] at hi
    exact if_neg (by omega)
  obtain ⟨x, m', hdone⟩ := h ["h"] diesInWrite anyAddress bareHome [.send (requestOf 'a')] otherKey
    otherKey [] usable_bareHome hperforms hunused (hcount ▸ by decide) (by decide)
    fun _ => show (bytesOf (pendingRecord otherKey otherKey 0 [])).length ≤ maxRecordBytes by
      decide +kernel
  exact not_reserved_of_leftover leftover_tornNode hunused x m' hdone

end Telepty.Forward
