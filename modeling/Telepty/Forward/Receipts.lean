import Telepty.Forward.Ledger

/-!
# What the ledger does to its files

One specification for each operation of the ledger, for every environment: operations may fail, a
write may be cut short, the process may die in any of them. A slot is what is on the disk under a
key. Reading leaves every slot alone; reserving fills one that was empty; replacing a record changes
one slot in a single step.
-/

namespace Telepty.Forward

open Infra Infra.Prog Mailbox Principal

variable {σ μ α : Type} {home : Path} {env : Env}

/-! ## Operations that write nothing -/

/-- An operation other than a write is performed as it stands, or not at all. -/
theorem wp_op {op : FileOp} {Q : Ensures σ μ Nat} {m : Machine σ μ}
    (hcut : ∀ kept, op.cut m.disk kept = m.disk) (hop : ∀ p b, op ≠ .write p b)
    (hd : ∀ fs, op.run m.disk = .ok fs → Q.done op.size { m with disk := fs, tick := m.tick + 1 })
    (hr : ∀ e, Q.raised e { m with tick := m.tick + 1 })
    (hc : Q.crashed { m with tick := m.tick + 1 }) : wp (sys env op) Q m := by
  have hperform : wp (Prog.perform op) Q m := by
    unfold wp Prog.perform
    cases h : op.run m.disk with
    | ok fs => exact hd fs h
    | error e => exact hr _
  unfold wp sys
  cases env.fate m.tick with
  | perform => exact hperform
  | short count =>
    cases op with
    | write p b => exact absurd rfl (hop p b)
    | _ => exact hperform
  | fail kept code =>
    dsimp only
    rw [hcut]
    exact hr _
  | crash kept =>
    dsimp only
    rw [hcut]
    exact hc

/-! ## Slots -/

/-- What is on the disk under a key. -/
def slot (home : Path) (fs : FS) (key : Text) : Option Node := fs.get? (recordFile home key)

/-- Every slot is as it was, but for the one of `key`. -/
def SameBut (home : Path) (key : Text) (fs fs' : FS) : Prop :=
  ∀ k, digestText k = true → k ≠ key → slot home fs' k = slot home fs k

/-- Every slot is as it was. -/
def Same (home : Path) (fs fs' : FS) : Prop :=
  ∀ k, digestText k = true → slot home fs' k = slot home fs k

theorem Same.refl (fs : FS) : Same home fs fs := fun _ _ => rfl

theorem Same.trans {a b c : FS} (h : Same home a b) (h' : Same home b c) : Same home a c :=
  fun k hk => (h' k hk).trans (h k hk)

/-- The memory is the one before, and nothing was posted. -/
structure DiskOnly (m m' : Machine σ μ) : Prop where
  mem : m'.mem = m.mem
  sent : m'.sent = m.sent

theorem DiskOnly.refl (m : Machine σ μ) : DiskOnly m m := ⟨rfl, rfl⟩

theorem DiskOnly.trans {a b c : Machine σ μ} (h : DiskOnly b c) (h' : DiskOnly a b) :
    DiskOnly a c := ⟨h.mem.trans h'.mem, h.sent.trans h'.sent⟩

theorem diskOnly_of_quiet {m m' : Machine σ μ} (h : Quiet m m') : DiskOnly m m' := ⟨h.mem, h.sent⟩

/-- The slots are those of the machine before, and so is what is not on the disk. -/
def Reads (home : Path) (m m' : Machine σ μ) : Prop := Same home m.disk m'.disk ∧ DiskOnly m m'

theorem Reads.refl (m : Machine σ μ) : Reads home m m := ⟨.refl _, .refl _⟩

theorem Reads.trans {a b c : Machine σ μ} (h : Reads home a b) (h' : Reads home b c) :
    Reads home a c := ⟨h.1.trans h'.1, h'.2.trans h.2⟩

theorem recordFile_injective {k k' : Text} (h : recordFile home k = recordFile home k') :
    k = k' := by
  have hname := List.append_cancel_left h
  exact List.append_cancel_right (List.singleton_inj.mp hname)

theorem recordFile_ne_of_length {k : Text} {p : Path} (h : p.length ≤ home.length + 2) :
    recordFile home k ≠ p := by
  rintro rfl
  simp only [recordFile, dir, base, joinPath, List.length_append, List.length_singleton] at h
  omega

theorem recordFile_ne_temporary {k : Text} (target : Path) (suffix : Text) :
    recordFile home k ≠ temporaryFile target suffix := by
  intro h
  have hlast := congrArg List.getLast? h
  simp only [recordFile, temporaryFile, joinPath, List.getLast?_append, List.getLast?_singleton,
    Option.some_or] at hlast
  have hchar := congrArg List.getLast? (Option.some.inj hlast)
  have hjson : (".json" : Text).getLast? = some 'n' := by decide
  have htmp : (".tmp" : Text).getLast? = some 'p' := by decide
  rw [List.getLast?_append, ← List.append_assoc, List.getLast?_append, hjson, htmp] at hchar
  exact absurd (Option.some.inj hchar) (by decide)

/-! ## Preparing and reading -/

theorem sys_mkdir_reads {p : Path} (hp : p.length ≤ home.length + 2) :
    Keeps (Reads home) (sys env (.mkdir p) : Prog σ μ Nat) := by
  intro m
  refine wp_op (fun _ => rfl) nofun (fun fs hrun => ⟨fun k _ => ?_, rfl, rfl⟩)
    (fun _ => ⟨.refl _, rfl, rfl⟩) ⟨.refl _, rfl, rfl⟩
  simp only [FileOp.run, FS.mkdir] at hrun
  split at hrun
  · cases hrun
  · cases hd : m.disk.parentDir p with
    | error e => rw [hd] at hrun; cases hrun
    | ok u =>
      rw [hd] at hrun
      obtain rfl := Except.ok.inj hrun
      exact OrdMap.get?_set_of_ne _ (recordFile_ne_of_length hp)

theorem reads_pure (a : α) : Keeps (Reads home) (pure a : Prog σ μ α) :=
  Keeps.of_refl Reads.refl fun _ => .inl ⟨a, rfl⟩

theorem reads_raise (e : Failure) : Keeps (Reads home) (raise e : Prog σ μ α) :=
  Keeps.of_refl Reads.refl fun _ => .inr ⟨e, rfl⟩

theorem reads_bind {x : Prog σ μ α} {β : Type} {f : α → Prog σ μ β} (hx : Keeps (Reads home) x)
    (hf : ∀ a, Keeps (Reads home) (f a)) : Keeps (Reads home) (x >>= f) :=
  Keeps.bind (R := Reads home) (fun _ _ _ h h' => Reads.trans h h') hx hf

theorem reads_catching {x : Prog σ μ α} {h : Failure → Prog σ μ α} (hx : Keeps (Reads home) x)
    (hh : ∀ e, Keeps (Reads home) (h e)) : Keeps (Reads home) (x.catching h) :=
  Keeps.catching (R := Reads home) (fun _ _ _ h h' => Reads.trans h h') hx hh

theorem reads_ofExcept (r : Except Failure α) : Keeps (Reads home) (ofExcept r : Prog σ μ α) :=
  Keeps.ofExcept Reads.refl r

theorem reads_disk : Keeps (Reads home) (disk : Prog σ μ FS) := fun m => Reads.refl m

theorem reads_prepareDir {p : Path} (hp : p.length ≤ home.length + 2) :
    Keeps (Reads home) (prepareDir env p : Prog σ μ Unit) := by
  have hmkdir : Keeps (Reads home) (sys env (.mkdir p) >>= fun _ => pure () : Prog σ μ Unit) :=
    reads_bind (sys_mkdir_reads hp) fun _ => reads_pure _
  refine reads_bind (reads_catching hmkdir fun e => ?_) fun _ => reads_bind reads_disk fun fs => ?_
  · split
    · exact reads_pure _
    · exact reads_raise e
  · split
    · exact reads_pure _
    · exact reads_raise _
    · exact reads_raise _

/-- Preparing the directories changes no slot. -/
theorem reads_prepare : Keeps (Reads home) (prepare home env : Prog σ μ Unit) := by
  refine reads_bind (reads_prepareDir ?_) fun _ => reads_prepareDir ?_
  · simp [base, joinPath]
  · simp [dir, base, joinPath]

theorem observe_congr {fs fs' : FS} {k : Text} (h : slot home fs' k = slot home fs k) :
    observe home fs' k = observe home fs k := by
  rw [slot, slot] at h
  rw [observe, observe, FS.lstat, FS.lstat, h]

/-- A key that is read is well formed, and what is found under it is what is there. -/
theorem wp_read {key : Text} {Q : Ensures σ μ (Option Json)} {m : Machine σ μ}
    (hd : ∀ m' found, Reads home m m' → digestText key = true →
      observe home m.disk key = .ok found → Q.done found m')
    (hr : ∀ e m', Reads home m m' → Q.raised e m')
    (hc : ∀ m', Reads home m m' → Q.crashed m') : wp (read home env key) Q m := by
  rw [read, wp_bind]
  refine wp_mono (reads_prepare m) (fun _ m' hm => ?_) hr hc
  dsimp only at hm ⊢
  rw [wp_bind, wp_ofExcept, recordPath]
  split
  · next hkey =>
    split at hkey
    · next hk =>
      dsimp only
      rw [wp_bind, wp_disk]
      dsimp only
      rw [wp_ofExcept, observe_congr (hm.1 key hk)]
      split
      · next found hfound => exact hd m' found hm hk hfound
      · exact hr _ m' hm
    · cases hkey
  · exact hr _ m' hm

theorem reads_read (key : Text) : Keeps (Reads home) (read home env key : Prog σ μ _) :=
  fun _ => wp_read (fun _ _ hm _ _ => hm) (fun _ _ hm => hm) fun _ hm => hm

/-- The records of a directory are those under the names in it. -/
theorem wp_readAll {names : List Text} {Q : Ensures σ μ (List Json)} {m : Machine σ μ}
    (hnames : ∀ name ∈ names, digestText (name.take 64) = true)
    (hd : ∀ m' records, Reads home m m' →
      (∀ name ∈ names, ∃ r ∈ records, observe home m.disk (name.take 64) = .ok (some r)) →
      (∀ r ∈ records, ∃ k, digestText k = true ∧ observe home m.disk k = .ok (some r)) →
      Q.done records m')
    (hr : ∀ e m', Reads home m m' → Q.raised e m')
    (hc : ∀ m', Reads home m m' → Q.crashed m') : wp (readAll home env names) Q m := by
  induction names generalizing m Q with
  | nil =>
    exact hd m [] (.refl m) (fun _ h => absurd h List.not_mem_nil)
      fun _ h => absurd h List.not_mem_nil
  | cons name names ih =>
    rw [readAll, wp_bind]
    refine wp_read (fun m' found hm hk hfound => ?_) hr hc
    cases found with
    | none => exact hr _ m' hm
    | some record =>
      dsimp only
      rw [wp_bind]
      refine ih (fun n hn => hnames n (List.mem_cons_of_mem _ hn))
        (fun m'' records hm' hall hfrom => ?_) (fun e m'' hm' => hr e m'' (hm.trans hm'))
        fun m'' hm' => hc m'' (hm.trans hm')
      have hback : ∀ {k r}, digestText k = true → observe home m'.disk k = .ok (some r) →
          observe home m.disk k = .ok (some r) := fun hk hobs => by
        rwa [observe_congr (hm.1 _ hk)] at hobs
      refine hd m'' (record :: records) (hm.trans hm') (fun n hn => ?_) fun r hr => ?_
      · rcases List.mem_cons.mp hn with rfl | hn
        · exact ⟨record, List.mem_cons_self, hfound⟩
        · obtain ⟨r, hmem, hobs⟩ := hall n hn
          exact ⟨r, List.mem_cons_of_mem _ hmem,
            hback (hnames n (List.mem_cons_of_mem _ hn)) hobs⟩
      · rcases List.mem_cons.mp hr with rfl | hr
        · exact ⟨_, hk, hfound⟩
        · obtain ⟨k, hk, hobs⟩ := hfrom r hr
          exact ⟨k, hk, hback hk hobs⟩

theorem length_of_digestText {t : Text} (h : digestText t = true) : t.length = 64 := by
  rw [digestText, Bool.and_eq_true, decide_eq_true_iff] at h
  exact h.1

/-- All records: every key in use is among them, and each of them was read. -/
theorem wp_all {Q : Ensures σ μ (List Json)} {m : Machine σ μ}
    (hd : ∀ m' records, Reads home m m' →
      (∀ k, digestText k = true → slot home m.disk k ≠ none →
        ∃ r ∈ records, observe home m.disk k = .ok (some r)) →
      (∀ r ∈ records, ∃ k, digestText k = true ∧ observe home m.disk k = .ok (some r)) →
      Q.done records m')
    (hr : ∀ e m', Reads home m m' → Q.raised e m')
    (hc : ∀ m', Reads home m m' → Q.crashed m') : wp (all home env) Q m := by
  rw [all, wp_bind]
  refine wp_mono (reads_prepare m) (fun _ m' hm => ?_) hr hc
  dsimp only at hm ⊢
  rw [wp_bind, wp_disk]
  dsimp only
  cases hnames : m'.disk.readdir (dir home) with
  | error e => exact hr _ m' hm
  | ok names =>
    dsimp only
    split
    · exact hr _ m' hm
    · split
      · next hall =>
        have hkeys : ∀ name ∈ names, digestText (name.take 64) = true := by
          intro name hn
          have := List.all_eq_true.mp hall name hn
          rw [isRecordName, Bool.and_eq_true] at this
          exact this.1
        refine wp_readAll hkeys (fun m'' records hm' hrec hfrom => ?_)
          (fun e m'' hm' => hr e m'' (hm.trans hm')) fun m'' hm' => hc m'' (hm.trans hm')
        refine hd m'' records (hm.trans hm') (fun k hk hslot => ?_) fun r hr =>
          (hfrom r hr).imp fun k h => ⟨h.1, by rw [← observe_congr (hm.1 k h.1)]; exact h.2⟩
        have hlen := length_of_digestText hk
        have hmem : k ++ (".json" : Text) ∈ names := by
          rw [FS.readdir] at hnames
          split at hnames
          · cases hnames
          · cases hnames
          · obtain rfl := Except.ok.inj hnames
            refine FS.mem_names_iff.mpr (Option.ne_none_iff_exists'.mp ?_)
            rw [← hm.1 k hk] at hslot
            exact hslot
        obtain ⟨r, hr, hobs⟩ := hrec _ hmem
        rw [← hlen, List.take_left, observe_congr (hm.1 k hk)] at hobs
        exact ⟨r, hr, hobs⟩
      · exact hr _ m' hm

/-! ## Time -/

/-- No operation is taken back. -/
def Later (m m' : Machine σ μ) : Prop := m.tick ≤ m'.tick

theorem later_sys (op : FileOp) : Keeps Later (sys env op : Prog σ μ Nat) := by
  have hperform : Keeps Later (Prog.perform op : Prog σ μ Nat) := by
    intro m
    unfold wp Prog.perform
    cases op.run m.disk with
    | ok fs => exact Nat.le_succ m.tick
    | error e => exact Nat.le_succ m.tick
  intro m
  unfold wp sys
  cases env.fate m.tick with
  | perform => exact hperform m
  | short count =>
    cases op with
    | write p b => exact Nat.le_succ m.tick
    | _ => exact hperform m
  | fail kept code => exact Nat.le_succ m.tick
  | crash kept => exact Nat.le_succ m.tick

theorem later_bind {β : Type} {x : Prog σ μ α} {f : α → Prog σ μ β} (hx : Keeps Later x)
    (hf : ∀ a, Keeps Later (f a)) : Keeps Later (x >>= f) :=
  Keeps.bind (R := Later) (fun _ _ _ h h' => Nat.le_trans h h') hx hf

theorem later_pure (a : α) : Keeps Later (pure a : Prog σ μ α) := fun m => Nat.le_refl m.tick

theorem later_raise (e : Failure) : Keeps Later (raise e : Prog σ μ α) := fun m =>
  Nat.le_refl m.tick

theorem later_disk : Keeps Later (disk : Prog σ μ FS) := fun m => Nat.le_refl m.tick

theorem later_ofExcept (r : Except Failure α) : Keeps Later (ofExcept r : Prog σ μ α) :=
  Keeps.ofExcept (fun m => Nat.le_refl m.tick) r

theorem later_prepareDir (p : Path) : Keeps Later (prepareDir env p : Prog σ μ Unit) := by
  refine later_bind (Keeps.catching (R := Later) (fun _ _ _ h h' => Nat.le_trans h h')
    (later_bind (later_sys _) fun _ => later_pure _) fun e => ?_) fun _ => later_bind later_disk
      fun fs => ?_
  · split
    · exact later_pure _
    · exact later_raise e
  · split
    · exact later_pure _
    · exact later_raise _
    · exact later_raise _

theorem later_prepare : Keeps Later (prepare home env : Prog σ μ Unit) :=
  later_bind (later_prepareDir _) fun _ => later_prepareDir _

theorem later_read (key : Text) : Keeps Later (read home env key : Prog σ μ (Option Json)) :=
  later_bind later_prepare fun _ => later_bind (later_ofExcept _) fun _ =>
    later_bind later_disk fun _ => later_ofExcept _

theorem later_readAll (names : List Text) :
    Keeps Later (readAll home env names : Prog σ μ (List Json)) := by
  induction names with
  | nil => exact later_pure []
  | cons name names ih =>
    refine later_bind (later_read _) fun found => ?_
    cases found with
    | none => exact later_raise _
    | some record => exact later_bind ih fun _ => later_pure _

theorem later_all : Keeps Later (all home env : Prog σ μ (List Json)) := by
  refine later_bind later_prepare fun _ => later_bind later_disk fun fs => ?_
  split
  · exact later_raise _
  · split
    · exact later_raise _
    · split
      · exact later_readAll _
      · exact later_raise _

/-! ## Writing a file -/

/-- Nothing but one file changed, and it holds these bytes. -/
structure Wrote (p : Path) (bytes : Bytes) (m m' : Machine σ μ) : Prop where
  self : m'.disk.get? p = some (.file bytes)
  other : ∀ q, q ≠ p → m'.disk.get? q = m.disk.get? q
  rest : DiskOnly m m'

theorem Wrote.trans {p : Path} {b b' : Bytes} {m m' m'' : Machine σ μ} (h : Wrote p b m m')
    (h' : Wrote p b' m' m'') : Wrote p b' m m'' :=
  ⟨h'.self, fun q hq => (h'.other q hq).trans (h.other q hq), h'.rest.trans h.rest⟩

/-- Bytes at the end of a file. -/
theorem wrote_append {p : Path} {stored : Bytes} {m : Machine σ μ} (b : Bytes) (tick : Nat)
    (hp : m.disk.get? p = some (.file stored)) :
    Wrote p (stored ++ b) m { m with disk := m.disk.append p b, tick := tick } :=
  ⟨FS.append_get?_self hp, fun _ hq => FS.append_get?_of_ne hq, rfl, rfl⟩

theorem wrote_self {p : Path} {stored : Bytes} {m : Machine σ μ}
    (hp : m.disk.get? p = some (.file stored)) : Wrote p (stored ++ []) m m :=
  ⟨by rw [hp, List.append_nil], fun _ _ => rfl, .refl _⟩

theorem prefix_of_taken {k : Nat} {b rest : Bytes} (h : b <+: rest.drop k) :
    rest.take k ++ b <+: rest := by
  have := List.prefix_append_right_inj (rest.take k) |>.mpr h
  rwa [List.take_append_drop] at this

/-- The bytes asked for are stored, or a prefix of them. -/
theorem wp_writeFileSync {p : Path} {n : Nat} {stored rest : Bytes} {Q : Ensures σ μ Unit}
    {m : Machine σ μ} (hp : m.disk.get? p = some (.file stored))
    (hd : ∀ m', Wrote p (stored ++ rest) m m' → Q.done () m')
    (hr : ∀ e m' b, b <+: rest → Wrote p (stored ++ b) m m' → Q.raised e m')
    (hc : ∀ m' b, b <+: rest → Wrote p (stored ++ b) m m' → Q.crashed m') :
    wp (writeFileSync env p n rest) Q m := by
  induction n generalizing stored rest m with
  | zero =>
    rw [writeFileSync]
    by_cases hrest : rest = []
    · subst hrest
      rw [if_pos rfl]
      exact hd m (wrote_self hp)
    · rw [if_neg hrest]
      exact hc m [] List.nil_prefix (wrote_self hp)
  | succ n ih =>
    rw [writeFileSync]
    by_cases hrest : rest = []
    · subst hrest
      rw [if_pos rfl]
      exact hd m (wrote_self hp)
    · rw [if_neg hrest, wp_bind]
      -- after `k` bytes the loop goes on with the others
      have hmore : ∀ k tick, wp (writeFileSync env p n (rest.drop k)) Q
          { m with disk := m.disk.append p (rest.take k), tick := tick } := by
        intro k tick
        have hw := wrote_append (rest.take k) tick hp
        refine ih hw.self (fun m' h => ?_) (fun e m' b hb h => ?_) (fun m' b hb h => ?_)
        · rw [List.append_assoc, List.take_append_drop] at h
          exact hd m' (hw.trans h)
        · rw [List.append_assoc] at h
          exact hr e m' _ (prefix_of_taken hb) (hw.trans h)
        · rw [List.append_assoc] at h
          exact hc m' _ (prefix_of_taken hb) (hw.trans h)
      unfold wp sys
      cases env.fate m.tick with
      | perform =>
        have h := hmore rest.length (m.tick + 1)
        rw [List.take_length] at h
        exact h
      | short count =>
        have h := hmore (min count rest.length) (m.tick + 1)
        rw [← List.take_eq_take_min] at h
        exact h
      | fail kept code =>
        exact hr _ _ _ (List.take_prefix kept _) (wrote_append _ _ hp)
      | crash kept =>
        exact hc _ _ (List.take_prefix kept _) (wrote_append _ _ hp)

/-! ## Replacing a file -/

theorem quiet_sys {op : FileOp} (ho : Harmless op) (hop : ∀ p b, op ≠ .write p b) :
    Keeps Quiet (sys env op : Prog σ μ Nat) := fun m =>
  wp_op (ho m.disk).2 hop (fun fs hrun => ⟨rfl, (ho m.disk).1 fs hrun, rfl⟩)
    (fun _ => ⟨rfl, rfl, rfl⟩) ⟨rfl, rfl, rfl⟩

theorem quiet_refl (m : Machine σ μ) : Quiet m m := ⟨rfl, rfl, rfl⟩

theorem quiet_bind {β : Type} {x : Prog σ μ α} {f : α → Prog σ μ β} (hx : Keeps Quiet x)
    (hf : ∀ a, Keeps Quiet (f a)) : Keeps Quiet (x >>= f) :=
  Keeps.bind (R := Quiet) (fun _ _ _ h h' => Quiet.trans h h') hx hf

theorem quiet_pure (a : α) : Keeps Quiet (pure a : Prog σ μ α) :=
  Keeps.of_refl quiet_refl fun _ => .inl ⟨a, rfl⟩

theorem quiet_syncDir (p : Path) : Keeps Quiet (syncDir env p : Prog σ μ Unit) :=
  quiet_bind (quiet_sys (harmless_read p) nofun) fun _ =>
    Keeps.finallyDo (R := Quiet) quiet_refl (fun _ _ _ h h' => Quiet.trans h h')
      (quiet_bind (quiet_sys (harmless_fsync p) nofun) fun _ => quiet_pure _)
      (quiet_bind (quiet_sys (harmless_close p) nofun) fun _ => quiet_pure _)

theorem quiet_fsyncAll : Keeps Quiet (fsyncAll home env : Prog σ μ Unit) :=
  quiet_bind (quiet_syncDir _) fun _ => quiet_bind (quiet_syncDir _) fun _ => quiet_syncDir _

/-- A file that was made for a record holds it, or a prefix. -/
theorem wp_fill {p : Path} {bytes : Bytes} {Q : Ensures σ μ Unit} {m : Machine σ μ}
    (hp : m.disk.get? p = some (.file []))
    (hd : ∀ m', Wrote p bytes m m' → Q.done () m')
    (hr : ∀ e m' b, b <+: bytes → Wrote p b m m' → Q.raised e m')
    (hc : ∀ m' b, b <+: bytes → Wrote p b m m' → Q.crashed m') :
    wp (fill env p bytes) Q m := by
  rw [fill, wp_bind]
  refine wp_writeFileSync hp (fun m' hm => ?_) hr hc
  have hquiet : Keeps Quiet (do
      let _ ← sys env (.fsync p)
      let _ ← sys env (.close p) : Prog σ μ Unit) :=
    quiet_bind (quiet_sys (harmless_fsync p) nofun) fun _ =>
      quiet_bind (quiet_sys (harmless_close p) nofun) fun _ => quiet_pure _
  have hstill : ∀ m'', Quiet m' m'' → Wrote p bytes m m'' := fun m'' hq =>
    ⟨by rw [hq.disk]; exact hm.self, fun q hne => by rw [hq.disk]; exact hm.other q hne,
      (diskOnly_of_quiet hq).trans hm.rest⟩
  exact wp_mono (hquiet m') (fun _ m'' hq => hd m'' (hstill m'' hq))
    (fun e m'' hq => hr e m'' bytes List.prefix_rfl (hstill m'' hq))
    fun m'' hq => hc m'' bytes List.prefix_rfl (hstill m'' hq)

/-- A slot that was empty holds these bytes, and nothing else changed. -/
structure Filled (home : Path) (key : Text) (bytes : Bytes) (m m' : Machine σ μ) : Prop where
  valid : digestText key = true
  empty : slot home m.disk key = none
  full : slot home m'.disk key = some (.file bytes)
  other : SameBut home key m.disk m'.disk
  rest : DiskOnly m m'

/-- A slot holds these bytes, and nothing else changed. -/
structure Replaced (home : Path) (key : Text) (bytes : Bytes) (m m' : Machine σ μ) : Prop where
  full : slot home m'.disk key = some (.file bytes)
  other : SameBut home key m.disk m'.disk
  rest : DiskOnly m m'

/-- The key of a record, and its bytes. -/
def keyOf (record : Json) : Text := record.textField "receipt_id"

def bytesOf (record : Json) : Bytes := encodeText record.stringify

theorem Filled.of_reads {key : Text} {bytes : Bytes} {a b c : Machine σ μ} (h : Reads home a b)
    (h' : Filled home key bytes b c) : Filled home key bytes a c :=
  ⟨h'.valid, (h.1 key h'.valid).symm.trans h'.empty, h'.full,
    fun k hk hne => (h'.other k hk hne).trans (h.1 k hk), h'.rest.trans h.2⟩

theorem filled_of_wrote {key : Text} {bytes : Bytes} {m m' : Machine σ μ}
    (hkey : digestText key = true) (hnone : slot home m.disk key = none)
    (h : Wrote (recordFile home key) bytes m m') : Filled home key bytes m m' :=
  ⟨hkey, hnone, h.self, fun _ _ hne => h.other _ fun heq => hne (recordFile_injective heq), h.rest⟩

/-- What is left of an attempt to make a file: nothing, or a prefix of its bytes. -/
def Left (p : Path) (bytes : Bytes) (m m' : Machine σ μ) : Prop :=
  Quiet m m' ∨ (m.disk.get? p = none ∧ ∃ b, b <+: bytes ∧ Wrote p b m m')

theorem Left.quiet {p : Path} {bytes : Bytes} {m m' m'' : Machine σ μ} (h : Left p bytes m m')
    (hq : Quiet m' m'') : Left p bytes m m'' := by
  rcases h with h | ⟨hnone, b, hb, hw⟩
  · exact .inl (h.trans hq)
  · exact .inr ⟨hnone, b, hb, by rw [hq.disk]; exact hw.self,
      fun q hne => by rw [hq.disk]; exact hw.other q hne, (diskOnly_of_quiet hq).trans hw.rest⟩

/-- A file is made with its bytes, or what is left of it is cleaned up. -/
theorem wp_create {C : Machine σ μ → Machine σ μ → Prop} {p : Path} {bytes : Bytes}
    {cleanup : Prog σ μ Unit} {Q : Ensures σ μ Unit} {m : Machine σ μ} (hC : Keeps C cleanup)
    (hrefl : ∀ m, C m m)
    (hd : ∀ m', m.disk.get? p = none → Wrote p bytes m m' → Q.done () m')
    (hr : ∀ e m₁ m', Left p bytes m m₁ → C m₁ m' → Q.raised e m')
    (hc : ∀ m₁ m', Left p bytes m m₁ → C m₁ m' → Q.crashed m') :
    wp (create env p bytes cleanup) Q m := by
  have hcleanup : ∀ D e m₁, Left p bytes m m₁ →
      wp (cleanup >>= fun _ => raise e : Prog σ μ Unit) ⟨D, Q.raised, Q.crashed⟩ m₁ := by
    intro D e m₁ h
    rw [wp_bind]
    exact wp_mono (hC m₁) (fun _ m' hm' => hr e m₁ m' h hm') (fun e' m' hm' => hr e' m₁ m' h hm')
      fun m' hm' => hc m₁ m' h hm'
  have hidle : Left p bytes m { m with tick := m.tick + 1 } := .inl ⟨rfl, rfl, rfl⟩
  rw [create, wp_bind, wp_catching, wp_bind]
  refine wp_op (fun _ => rfl) nofun (fun fs hrun => ?_) (fun e => hcleanup _ e _ hidle)
    (hc _ _ hidle (hrefl _))
  obtain ⟨hnone, rfl⟩ := FS.openFile_wx hrun
  dsimp only
  rw [wp_pure]
  dsimp only
  have hmade : Wrote p [] m
      { m with disk := m.disk.set p (.file []), tick := m.tick + 1 } :=
    ⟨OrdMap.get?_set_self _, fun q hne => OrdMap.get?_set_of_ne _ hne, rfl, rfl⟩
  rw [wp_catching]
  refine wp_fill hmade.self (fun m' h => hd m' hnone (hmade.trans h)) (fun e m' b hb h => ?_)
    fun m' b hb h => hc m' m' (.inr ⟨hnone, b, hb, hmade.trans h⟩) (hrefl m')
  have hleft : Left p bytes m m' := .inr ⟨hnone, b, hb, hmade.trans h⟩
  dsimp only
  rw [wp_bind]
  exact wp_mono (quiet_sys (harmless_close p) nofun m')
    (fun _ m'' hq => hcleanup _ e m'' (hleft.quiet hq))
    (fun e' m'' hq => hr e' m'' m'' (hleft.quiet hq) (hrefl _))
    fun m'' hq => hc m'' m'' (hleft.quiet hq) (hrefl _)

theorem reads_of_quiet {m m' : Machine σ μ} (h : Quiet m m') : Reads home m m' :=
  ⟨fun k _ => by rw [slot, slot, h.disk], diskOnly_of_quiet h⟩

theorem keeps_reads_of_quiet {x : Prog σ μ α} (h : Keeps Quiet x) : Keeps (Reads home) x :=
  h.mono fun _ _ => reads_of_quiet

theorem Filled.reads {key : Text} {bytes : Bytes} {a b c : Machine σ μ}
    (h : Filled home key bytes a b) (h' : Reads home b c) : Filled home key bytes a c :=
  ⟨h.valid, h.empty, (h'.1 key h.valid).trans h.full,
    fun k hk hne => (h'.1 k hk).trans (h.other k hk hne), h'.2.trans h.rest⟩

/-- A write that has not come to its end has changed no slot, or filled its own in part. -/
def FilledInPart (home : Path) (record : Json) (m m' : Machine σ μ) : Prop :=
  Reads home m m' ∨ ∃ b, b <+: bytesOf record ∧ Filled home (keyOf record) b m m'

/-- **The first write of a record** fills its slot, which was empty. -/
theorem wp_write_first {record : Json} {Q : Ensures σ μ Unit} {m : Machine σ μ}
    (hd : ∀ m', (bytesOf record).length ≤ maxRecordBytes →
      Filled home (keyOf record) (bytesOf record) m m' → Q.done () m')
    (hr : ∀ e m', FilledInPart home record m m' → Q.raised e m')
    (hc : ∀ m', FilledInPart home record m m' → Q.crashed m') :
    wp (write home env record true) Q m := by
  rw [write, wp_bind]
  refine wp_mono (reads_prepare m) (fun _ m₁ h₁ => ?_) (fun e m' h => hr e m' (.inl h))
    fun m' h => hc m' (.inl h)
  dsimp only at h₁ ⊢
  split
  · exact hr _ m₁ (.inl h₁)
  · next hlen =>
    rw [wp_bind, wp_ofExcept, recordPath]
    by_cases hkey : digestText (record.textField "receipt_id") = true
    · rw [if_pos hkey]
      dsimp only
      rw [wp_bind, wp_random]
      dsimp only
      rw [if_pos rfl]
      have hfilled : ∀ b m₂, m₁.disk.get? (recordFile home (keyOf record)) = none →
          Wrote (recordFile home (keyOf record)) b m₁ m₂ → Filled home (keyOf record) b m m₂ :=
        fun b m₂ hnone hw => (filled_of_wrote hkey hnone hw).of_reads h₁
      have hpart : ∀ m₂ m', Left (recordFile home (keyOf record)) (bytesOf record) m₁ m₂ →
          Quiet m₂ m' → FilledInPart home record m m' := by
        intro m₂ m' hl hq
        rcases hl with hl | ⟨hnone, b, hb, hw⟩
        · exact .inl (h₁.trans (reads_of_quiet (hl.trans hq)))
        · exact .inr ⟨b, hb, (hfilled b m₂ hnone hw).reads (reads_of_quiet hq)⟩
      rw [writeFirst, wp_bind]
      refine wp_create (quiet_pure ()) quiet_refl (fun m₂ hnone hw => ?_)
        (fun e m₂ m' hl hq => hr e m' (hpart m₂ m' hl hq)) fun m₂ m' hl hq => hc m' (hpart m₂ m' hl hq)
      have hf := hfilled _ m₂ hnone hw
      have hend : ∀ m', Quiet m₂ m' → FilledInPart home record m m' := fun m' hq =>
        .inr ⟨_, List.prefix_rfl, hf.reads (reads_of_quiet hq)⟩
      exact wp_mono (quiet_fsyncAll m₂)
        (fun _ m' hq => hd m' (Nat.le_of_not_lt hlen) (hf.reads (reads_of_quiet hq)))
        (fun e m' hq => hr e m' (hend m' hq)) fun m' hq => hc m' (hend m' hq)
    · rw [if_neg hkey]
      exact hr _ m₁ (.inl h₁)

theorem reads_unlinkQuiet {p : Path} (hp : ∀ k, recordFile home k ≠ p) :
    Keeps (Reads home) (unlinkQuiet env p : Prog σ μ Unit) := by
  have hunlink : Keeps (Reads home) (sys env (.unlink p) >>= fun _ => pure () : Prog σ μ Unit) := by
    refine reads_bind (fun m => ?_) fun _ => reads_pure _
    refine wp_op (fun _ => rfl) nofun (fun fs hrun => ⟨fun k _ => ?_, rfl, rfl⟩) (fun _ => ⟨.refl _, rfl, rfl⟩)
      ⟨.refl _, rfl, rfl⟩
    simp only [FileOp.run, FS.unlink] at hrun
    split at hrun
    · cases hrun
    · cases hrun
    · obtain rfl := Except.ok.inj hrun
      rw [slot, slot, OrdMap.get?_delete, if_neg (hp k)]
  refine reads_catching hunlink fun e => ?_
  split
  · exact reads_pure _
  · exact reads_raise _

theorem reads_of_wrote {p : Path} {b : Bytes} {m m' : Machine σ μ}
    (hp : ∀ k, recordFile home k ≠ p) (h : Wrote p b m m') : Reads home m m' :=
  ⟨fun k _ => h.other _ (hp k), h.rest⟩

theorem Replaced.of_reads {key : Text} {bytes : Bytes} {a b c : Machine σ μ} (h : Reads home a b)
    (h' : Replaced home key bytes b c) : Replaced home key bytes a c :=
  ⟨h'.full, fun k hk hne => (h'.other k hk hne).trans (h.1 k hk), h'.rest.trans h.2⟩

theorem Replaced.reads {key : Text} {bytes : Bytes} {a b c : Machine σ μ}
    (hkey : digestText key = true) (h : Replaced home key bytes a b) (h' : Reads home b c) :
    Replaced home key bytes a c :=
  ⟨(h'.1 key hkey).trans h.full, fun k hk hne => (h'.1 k hk).trans (h.other k hk hne),
    h'.2.trans h.rest⟩

/-- A later write has changed no slot, or replaced its own. -/
def ReplacedOrNot (home : Path) (record : Json) (m m' : Machine σ μ) : Prop :=
  Reads home m m' ∨ (digestText (keyOf record) = true ∧
    (bytesOf record).length ≤ maxRecordBytes ∧ Replaced home (keyOf record) (bytesOf record) m m')

/-- **A later write of a record** replaces what its slot holds in one step. -/
theorem wp_write_over {record : Json} {Q : Ensures σ μ Unit} {m : Machine σ μ}
    (hd : ∀ m', ReplacedOrNot home record m m' → Q.done () m')
    (hr : ∀ e m', ReplacedOrNot home record m m' → Q.raised e m')
    (hc : ∀ m', ReplacedOrNot home record m m' → Q.crashed m') :
    wp (write home env record false) Q m := by
  rw [write, wp_bind]
  refine wp_mono (reads_prepare m) (fun _ m₁ h₁ => ?_) (fun e m' h => hr e m' (.inl h))
    fun m' h => hc m' (.inl h)
  dsimp only at h₁ ⊢
  split
  · exact hr _ m₁ (.inl h₁)
  · next hlen =>
    rw [wp_bind, wp_ofExcept, recordPath]
    by_cases hkey : digestText (record.textField "receipt_id") = true
    · rw [if_pos hkey]
      dsimp only
      rw [wp_bind, wp_random]
      dsimp only
      rw [if_neg Bool.false_ne_true]
      generalize env.random m₁.tick = suffix
      have htmp : ∀ k, recordFile home k
          ≠ temporaryFile (recordFile home (record.textField "receipt_id")) suffix :=
        fun _ => recordFile_ne_temporary _ _
      generalize temporaryFile (recordFile home (record.textField "receipt_id")) suffix = tmp
        at htmp ⊢
      have hleft : ∀ m₂ m', Left tmp (bytesOf record) m₁ m₂ → Reads home m₂ m' →
          ReplacedOrNot home record m m' := fun m₂ m' hl h => by
        rcases hl with hl | ⟨_, b, _, hw⟩
        · exact .inl ((h₁.trans (reads_of_quiet hl)).trans h)
        · exact .inl ((h₁.trans (reads_of_wrote htmp hw)).trans h)
      rw [writeOver, wp_bind]
      refine wp_create (reads_unlinkQuiet htmp) Reads.refl (fun m₂ hnone hw => ?_)
        (fun e m₂ m' hl h => hr e m' (hleft m₂ m' hl h)) fun m₂ m' hl h => hc m' (hleft m₂ m' hl h)
      have h₂ : Reads home m m₂ := h₁.trans (reads_of_wrote htmp hw)
      -- whatever happened before the file is cleaned up
      have hclean : ∀ m₃, ReplacedOrNot home record m m₃ →
          ∀ m', Reads home m₃ m' → ReplacedOrNot home record m m' := fun m₃ h₃ m' h => by
        rcases h₃ with h₃ | ⟨hk, hle, h₃⟩
        · exact .inl (h₃.trans h)
        · exact .inr ⟨hk, hle, h₃.reads hk h⟩
      have hinner : wp (do
            let _ ← sys env (.rename tmp (recordFile home (record.textField "receipt_id")))
            fsyncAll home env : Prog σ μ Unit)
          ⟨fun _ m' => ReplacedOrNot home record m m', fun _ m' => ReplacedOrNot home record m m',
            fun m' => ReplacedOrNot home record m m'⟩ m₂ := by
        rw [wp_bind]
        have hnot : ReplacedOrNot home record m { m₂ with tick := m₂.tick + 1 } :=
          .inl ⟨h₂.1, h₂.2.mem, h₂.2.sent⟩
        refine wp_op (fun _ => rfl) nofun (fun fs hrun => ?_) (fun _ => hnot) hnot
        have hfs := FS.rename_file hw.self (htmp _).symm hrun
        have hreplaced : Replaced home (keyOf record) (bytesOf record) m₂
            { m₂ with disk := fs, tick := m₂.tick + 1 } := by
          subst hfs
          refine ⟨OrdMap.get?_set_self _, fun k hk hne => ?_, rfl, rfl⟩
          have hne' : recordFile home k ≠ recordFile home (keyOf record) := fun heq =>
            hne (recordFile_injective heq)
          exact (OrdMap.get?_set_of_ne _ hne').trans
            ((OrdMap.get?_delete ..).trans (if_neg (htmp k)))
        have hdone : ReplacedOrNot home record m { m₂ with disk := fs, tick := m₂.tick + 1 } :=
          .inr ⟨hkey, Nat.le_of_not_lt hlen, hreplaced.of_reads h₂⟩
        have hsync : Keeps (Reads home) (fsyncAll home env : Prog σ μ Unit) :=
          keeps_reads_of_quiet quiet_fsyncAll
        exact wp_mono (hsync _) (fun _ m' h => hclean _ hdone m' h) (fun _ m' h => hclean _ hdone m' h)
          fun m' h => hclean _ hdone m' h
      have hunlink : Keeps (Reads home) (unlinkQuiet env tmp : Prog σ μ Unit) :=
        reads_unlinkQuiet htmp
      dsimp only
      rw [wp_finallyDo]
      refine wp_mono hinner (fun _ m₃ h₃ => ?_) (fun e m₃ h₃ => ?_) fun m₃ h₃ => hc m₃ h₃
      · exact wp_mono (hunlink m₃) (fun _ m' h => hd m' (hclean m₃ h₃ m' h))
          (fun e m' h => hr e m' (hclean m₃ h₃ m' h)) fun m' h => hc m' (hclean m₃ h₃ m' h)
      · exact wp_mono (hunlink m₃) (fun _ m' h => hr e m' (hclean m₃ h₃ m' h))
          (fun e m' h => hr e m' (hclean m₃ h₃ m' h)) fun m' h => hc m' (hclean m₃ h₃ m' h)
    · rw [if_neg hkey]
      exact hr _ m₁ (.inl h₁)

/-! ## Reserving -/

/-- What a fresh reservation has done. -/
structure Fresh (home : Path) (env : Env) (key fingerprint : Text)
    (metadata : List (Text × Json)) (record : Json) (m m' : Machine σ μ) : Prop where
  filled : Filled home key (bytesOf record) m m'
  small : (bytesOf record).length ≤ maxRecordBytes
  record : ∃ t, m.tick ≤ t ∧ record = pendingRecord key fingerprint (env.now t) metadata

theorem field_spread {record : Json} {members : List (Text × Json)} {k : Text}
    (h : k ∉ members.map Prod.fst) : (spread record members).field k = record.field k := by
  induction members generalizing record with
  | nil => rfl
  | cons p members ih =>
    rw [List.map_cons, List.mem_cons, not_or] at h
    rw [spread, List.foldl_cons]
    exact (ih h.2).trans (Json.field_set_of_ne p.2 record h.1)

/-- **A reservation** either finds a record with the fingerprint, or fills an empty slot with a
pending one. -/
theorem wp_reserve {key fingerprint : Text} {metadata : List (Text × Json)}
    {Q : Ensures σ μ Reserved} {m : Machine σ μ}
    (hnames : ("receipt_id" : Text) ∉ metadata.map Prod.fst)
    (hd : ∀ m' record, Fresh home env key fingerprint metadata record m m' →
      Q.done ⟨record, true⟩ m')
    (hold : ∀ m' record, Reads home m m' → digestText key = true →
      observe home m.disk key = .ok (some record) →
      textOf (record.field "fingerprint") = some fingerprint → Q.done ⟨record, false⟩ m')
    (hr : ∀ e m', (Reads home m m' ∨ ∃ b, Filled home key b m m') → Q.raised e m')
    (hc : ∀ m', (Reads home m m' ∨ ∃ b, Filled home key b m m') → Q.crashed m') :
    wp (reserve home env key fingerprint metadata) Q m := by
  rw [reserve, wp_bind]
  refine wp_of_keeps (later_read key) (wp_read (fun m₁ found h₁ hkey hfound ht₁ => ?_)
    (fun e m' h _ => hr e m' (.inl h)) fun m' h _ => hc m' (.inl h))
  cases found with
  | some existing =>
    dsimp only
    split
    · next hsame => exact hold m₁ existing h₁ hkey hfound hsame
    · exact hr _ m₁ (.inl h₁)
  | none =>
    dsimp only
    rw [wp_bind]
    refine wp_of_keeps later_all (wp_all (fun m₂ records h₂ _ _ ht₂ => ?_)
      (fun e m' h _ => hr e m' (.inl (h₁.trans h))) fun m' h _ => hc m' (.inl (h₁.trans h)))
    dsimp only
    split
    · exact hr _ m₂ (.inl (h₁.trans h₂))
    · rw [wp_bind, wp_now]
      dsimp only
      have hkeyOf : keyOf (pendingRecord key fingerprint (env.now m₂.tick) metadata) = key := by
        rw [keyOf, Json.textField, pendingRecord, field_spread hnames]
        rfl
      have hreads := h₁.trans h₂
      have hpart : ∀ m',
          FilledInPart home (pendingRecord key fingerprint (env.now m₂.tick) metadata) m₂ m' →
          Reads home m m' ∨ ∃ b, Filled home key b m m' := by
        rintro m' (h | ⟨b, _, h⟩)
        · exact .inl (hreads.trans h)
        · rw [hkeyOf] at h
          exact .inr ⟨b, h.of_reads hreads⟩
      rw [wp_bind]
      refine wp_write_first (fun m₃ hlen h₃ => ?_) (fun e m' h => hr e m' (hpart m' h))
        fun m' h => hc m' (hpart m' h)
      rw [hkeyOf] at h₃
      exact hd m₃ _ ⟨h₃.of_reads hreads, hlen, m₂.tick, Nat.le_trans ht₁ ht₂, rfl⟩

end Telepty.Forward
