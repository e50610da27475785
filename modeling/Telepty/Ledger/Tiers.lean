import Telepty.Ledger.Durable
import Telepty.Ledger.Fixed

/-!
# The files of the generations

What the owner's operations do to the directories of the tiers, whatever the environment does to
them, writes that are cut short included. A file of a checkpoint is only created under a free name;
the manifest is replaced by a rename; all other operations stay away from the tiers.

`Tended` relates the disks before and after: the files of the tiers are kept, and a store that has a
manifest goes on having one. Where a manifest stands, an open creates, migrates and fills nothing, so
the files of the tiers outlive every crash and every reopen.
-/

namespace Telepty.Ledger

open Infra Prog

/-! ## Relations of disks -/

/-- A manifest stands in the directory of the store. -/
def Founded (fs : FS) : Prop :=
  fs.get? storeDir = some .dir ∧ ∃ b, fs.get? manifestPath = some (.file b)

/-- The files of the tiers are kept as they are. -/
def TiersKept (fs fs' : FS) : Prop :=
  ∀ d ∈ tierDirs, ∀ name n, fs.get? (joinPath d name) = some n → fs'.get? (joinPath d name) = some n

/-- The files of the tiers stand in directories. -/
def Housed (fs : FS) : Prop :=
  ∀ d ∈ tierDirs, ∀ name n, fs.get? (joinPath d name) = some n → fs.get? d = some .dir

/-- The files of the tiers are kept and stand in directories, and a store with a manifest keeps
one. -/
structure Tended (fs fs' : FS) : Prop where
  kept : TiersKept fs fs'
  housed : Housed fs → Housed fs'
  founded : Founded fs → Founded fs'

/-- The tiers have the same files. -/
structure SameTiers (fs fs' : FS) : Prop where
  files : ∀ d ∈ tierDirs, ∀ name, fs'.get? (joinPath d name) = fs.get? (joinPath d name)
  dirs : ∀ d ∈ storeDir :: tierDirs, fs.get? d = some .dir → fs'.get? d = some .dir

/-- Neither the tiers nor the manifest changed. -/
structure Aside (fs fs' : FS) : Prop extends SameTiers fs fs' where
  manifest : fs'.get? manifestPath = fs.get? manifestPath

/-- A file is made under a name that was free, or nothing changed. -/
structure Adds (p : Path) (fs fs' : FS) : Prop extends Creates p fs fs' where
  parent : fs'.get? p = fs.get? p ∨ fs.get? p.dropLast = some .dir

/-- The tiers did not change; the manifest may hold some of the bytes now. -/
structure Replaces (buf : Bytes) (fs fs' : FS) : Prop extends SameTiers fs fs' where
  manifest : fs'.get? manifestPath = fs.get? manifestPath ∨
    ∃ k, fs'.get? manifestPath = some (.file (buf.take k))

section

variable {fs fs' fs'' : FS} {p d : Path} {name : Text} {buf : Bytes}

theorem TiersKept.refl (fs : FS) : TiersKept fs fs := fun _ _ _ _ h => h

theorem TiersKept.trans (h : TiersKept fs fs') (h' : TiersKept fs' fs'') : TiersKept fs fs'' :=
  fun d hd name n hn => h' d hd name n (h d hd name n hn)

theorem Tended.refl (fs : FS) : Tended fs fs := ⟨.refl fs, id, id⟩

theorem Tended.trans (h : Tended fs fs') (h' : Tended fs' fs'') : Tended fs fs'' :=
  ⟨h.kept.trans h'.kept, h'.housed ∘ h.housed, h'.founded ∘ h.founded⟩

theorem SameTiers.trans (h : SameTiers fs fs') (h' : SameTiers fs' fs'') : SameTiers fs fs'' :=
  ⟨fun d hd name => (h'.files d hd name).trans (h.files d hd name),
    fun d hd => h'.dirs d hd ∘ h.dirs d hd⟩

theorem SameTiers.kept (h : SameTiers fs fs') : TiersKept fs fs' := fun d hd name n hn => by
  rw [h.files d hd name, hn]

theorem SameTiers.housed (h : SameTiers fs fs') (hh : Housed fs) : Housed fs' :=
  fun d hd name n hn => h.dirs d (List.mem_cons_of_mem _ hd)
    (hh d hd name n (by rw [← h.files d hd name, hn]))

theorem Aside.refl (fs : FS) : Aside fs fs := ⟨⟨fun _ _ _ => rfl, fun _ _ => id⟩, rfl⟩

theorem Aside.trans (h : Aside fs fs') (h' : Aside fs' fs'') : Aside fs fs'' :=
  ⟨h.toSameTiers.trans h'.toSameTiers, h'.manifest.trans h.manifest⟩

theorem Replaces.tended (h : Replaces buf fs fs') : Tended fs fs' where
  kept := h.kept
  housed := h.housed
  founded hs := by
    obtain ⟨hdir, b, hb⟩ := hs
    refine ⟨h.dirs _ List.mem_cons_self hdir, ?_⟩
    rcases h.manifest with he | ⟨k, hk⟩
    · exact ⟨b, he.trans hb⟩
    · exact ⟨_, hk⟩

theorem Aside.replaces (h : Aside fs fs') (buf : Bytes) : Replaces buf fs fs' :=
  ⟨h.toSameTiers, .inl h.manifest⟩

theorem Aside.tended (h : Aside fs fs') : Tended fs fs' := (h.replaces []).tended

theorem ours_of_tier (hd : d ∈ tierDirs) (name : Text) : Ours (joinPath d name) :=
  .inr ⟨d, hd, name, rfl⟩

theorem ours_dir (hd : d ∈ storeDir :: tierDirs) : Ours d := by
  rcases List.mem_cons.mp hd with rfl | hd
  · exact .inl (by simp)
  · exact ours_tier hd

/-- What the store keeps outside of its segments is as it was. -/
theorem Aside.of_ours (h : ∀ p, Ours p → fs'.get? p = fs.get? p) : Aside fs fs' :=
  ⟨⟨fun d hd name => h _ (ours_of_tier hd name), fun d hd hn => by rw [h _ (ours_dir hd), hn]⟩,
    h _ ours_manifest⟩

theorem ours_ne_segmentFile (hp : Ours p) (name : Text) : p ≠ segmentFile name := by
  rcases hp with hp | ⟨d, hd, name', rfl⟩
  · simp only [tierDirs, List.cons_append, List.nil_append, List.mem_cons, List.not_mem_nil,
      or_false] at hp
    rcases hp with rfl | rfl | rfl | rfl | rfl | rfl | rfl <;>
      simp [parentPath, storeDir, manifestPath, hotDir, coldDir, factsDir, segmentFile, segmentsDir,
        joinPath]
  · exact tier_ne_segmentFile hd name' name

theorem OnlySegments.ours (h : OnlySegments fs fs') (hp : Ours p) : fs'.get? p = fs.get? p :=
  h p (ours_ne_segmentFile hp)

/-- A directory of the store that is made when it is missing. -/
theorem Aside.of_mkdirp {sub : Text} (hs : sub ≠ "MANIFEST.json")
    (hm : fs.mkdirp (joinPath storeDir sub) = .ok fs') : Aside fs fs' := by
  have hsame : ∀ q, ¬ q <+: joinPath storeDir sub → fs'.get? q = fs.get? q := by
    intro q hq
    rcases FS.mkdirp_get? hm q with h | h
    · exact h
    · exact absurd h.1 hq
  refine ⟨⟨fun d hd name => hsame _ fun hp => ?_, fun d _ hdir => ?_⟩, hsame _ fun hp => ?_⟩
  · have hlen := hp.length_le
    simp only [tierDirs, List.mem_cons, List.not_mem_nil, or_false] at hd
    rcases hd with rfl | rfl | rfl <;>
      simp [hotDir, coldDir, factsDir, storeDir, joinPath] at hlen
  · rcases FS.mkdirp_get? hm d with h | h
    · rw [h, hdir]
    · exact h.2.2
  · have he := hp.eq_of_length_le (by simp [manifestPath, storeDir, joinPath])
    exact hs (tier_joinPath he).2.symm

theorem length_le_of_dir (hd : d ∈ storeDir :: tierDirs) : d.length ≤ 2 := by
  revert d
  decide

theorem dir_ne_tier {d' : Path} (hd' : d' ∈ storeDir :: tierDirs) (hd : d ∈ tierDirs)
    (name : Text) : d' ≠ joinPath d name := by
  have hlen : d.length = 2 := by
    revert d
    decide
  rintro rfl
  have h := length_le_of_dir hd'
  rw [joinPath, List.length_append, List.length_singleton] at h
  omega

theorem dir_ne_manifest (hd : d ∈ storeDir :: tierDirs) : d ≠ manifestPath := by
  revert d
  decide

theorem Adds.tended (hd : d ∈ tierDirs) (h : Adds (joinPath d name) fs fs') : Tended fs fs' where
  housed hh d' hd' name' n hn := by
    have hdir : ∀ q, q ∈ tierDirs → fs.get? q = some .dir → fs'.get? q = some .dir := fun q hq hq' => by
      rw [h.other _ (dir_ne_tier (List.mem_cons_of_mem _ hq) hd name), hq']
    refine hdir d' hd' ?_
    by_cases he : joinPath d' name' = joinPath d name
    · obtain ⟨rfl, rfl⟩ := tier_joinPath he
      rcases h.parent with hf | hf
      · exact hh d' hd' name' n (by rw [← hf, hn])
      · rwa [joinPath, List.dropLast_concat] at hf
    · exact hh d' hd' name' n (by rw [← h.other _ he, hn])
  kept := by
    intro d' hd' name' n hn
    by_cases he : joinPath d' name' = joinPath d name
    · rw [he] at hn ⊢
      rcases h.free with hf | hf
      · rw [hf] at hn
        cases hn
      · rw [hf, hn]
    · rw [h.other _ he, hn]
  founded hs := by
    obtain ⟨hdir, b, hb⟩ := hs
    refine ⟨?_, b, ?_⟩
    · rw [h.other _ (dir_ne_tier List.mem_cons_self hd name), hdir]
    · rw [h.other manifestPath (tier_ne_store hd name _).symm, hb]

end

/-! ## Writing files -/

section

variable {o : Options} {m : Machine State Post}

/-- A file that is open is written to, flushed and closed. -/
def OnFile (file : Path) : FileOp → Prop
  | .write p _ | .fsync p | .close p => p = file
  | _ => False

theorem respects_touches (o : Options) (file : Path) :
    Respects o (OnFile file) (fun _ => ()) fun m m' => Touches file m.disk m'.disk := by
  refine respects_disk (.refl file) (fun _ _ _ h h' => h.trans h') ?_ ?_
  · intro op fs fs' ho hr
    cases op with
    | write p b =>
      cases ho
      cases hr
      exact .append _ fs b
    | fsync p => cases hr; exact .refl file _
    | close p => cases hr; exact .refl file _
    | _ => cases ho
  · intro op fs kept ho
    cases op with
    | write p b =>
      cases ho
      exact .append _ fs (b.take kept)
    | _ => exact .refl file _

theorem respects_sameDisk (o : Options) :
    Respects o Harmless (fun _ => ()) fun m m' => m'.disk = m.disk :=
  respects_disk (D := fun fs fs' => fs' = fs) (fun _ => rfl) (fun _ _ _ h h' => h'.trans h)
    (fun _ fs _ ho hr => (ho fs).1 _ hr) fun _ fs kept ho => (ho fs).2 kept

/-- A program that leaves the disk alone. -/
theorem wp_sameDisk {α : Type} {x : Owner α} {Q : Ensures State Post α}
    (hx : Keeps (fun m m' => m'.disk = m.disk) x) (hd : ∀ a m', m'.disk = m.disk → Q.done a m')
    (hr : ∀ e m', m'.disk = m.disk → Q.raised e m') (hc : ∀ m', m'.disk = m.disk → Q.crashed m') :
    wp x Q m := wp_mono (hx m) hd hr hc

/-- **A checkpoint member** is created under a free name, or nothing is changed. -/
theorem keeps_createFileDurable (file : Path) (buf : Bytes) :
    Keeps (fun m m' => Adds file m.disk m'.disk) (createFileDurable o file buf) := by
  have hR := respects_touches o file
  intro m
  unfold createFileDurable writeFileDurable
  rw [wp_bind]
  have hsame : Adds file m.disk m.disk := ⟨⟨.refl _ _, .inr rfl⟩, .inl rfl⟩
  refine wp_sys_op nofun (fun fs hrun => ?_) (fun e => hsame) hsame
  have hparent := FS.parent_of_openFile_wx hrun
  obtain ⟨hfree, rfl⟩ := FS.openFile_wx hrun
  have ht : Touches file m.disk (m.disk.set file (.file [])) := .set file m.disk []
  have hwrite := hR.finallyDo (hR.bind (hR.file (.write file buf) rfl) fun _ =>
    hR.sys (show OnFile file (.fsync file) from rfl))
    (hR.sys (show OnFile file (.close file) from rfl))
  have hadds : ∀ fs, Touches file (m.disk.set file (.file [])) fs → Adds file m.disk fs :=
    fun _ h => ⟨⟨ht.trans h, .inl hfree⟩, .inr hparent⟩
  exact wp_mono (hwrite _) (fun _ _ h => hadds _ h) (fun _ _ h => hadds _ h) fun _ h => hadds _ h

/-- A file that is written over holds some of the bytes at the end, all when no write is cut short. -/
theorem wp_writeFileDurable_w {file : Path} {buf : Bytes} :
    wp (writeFileDurable o file buf .w)
      ⟨fun _ m' => Touches file m.disk m'.disk ∧
          ∃ k, m'.disk.get? file = some (.file (buf.take k)),
        fun _ m' => Touches file m.disk m'.disk, fun m' => Touches file m.disk m'.disk⟩ m := by
  have hR := respects_sameDisk o
  have hsync := hR.sys (harmless_fsync file)
  have hclose := hR.sys (harmless_close file)
  unfold writeFileDurable
  rw [wp_bind]
  refine wp_sys_op nofun (fun fs hrun => ?_) (fun e => .refl _ _) (.refl _ _)
  obtain rfl := FS.openFile_w hrun
  have ht : ∀ (b : Bytes) (m' : Machine State Post),
      m'.disk = FS.append (m.disk.set file (.file [])) file b → Touches file m.disk m'.disk := by
    intro b m' h
    rw [h]
    exact (Touches.set file m.disk []).trans (.append _ _ b)
  dsimp only
  rw [wp_finallyDo, wp_bind]
  refine wp_sys_write (fun a k => ?_) (fun e k => ?_) fun k => ht _ _ rfl
  · refine wp_sameDisk hsync (fun _ m₂ h₂ => ?_) (fun e m₂ h₂ => ?_) fun m₂ h₂ => ht _ m₂ h₂
    · refine wp_sameDisk hclose (fun _ m₃ h₃ => ?_) (fun _ m₃ h₃ => ht _ m₃ (h₃.trans h₂))
        fun m₃ h₃ => ht _ m₃ (h₃.trans h₂)
      refine ⟨ht _ m₃ (h₃.trans h₂), k, ?_⟩
      rw [h₃, h₂]
      exact FS.append_get?_self (OrdMap.get?_set_self _)
    · exact wp_sameDisk hclose (fun _ m₃ h₃ => ht _ m₃ (h₃.trans h₂))
        (fun _ m₃ h₃ => ht _ m₃ (h₃.trans h₂)) fun m₃ h₃ => ht _ m₃ (h₃.trans h₂)
  · exact wp_sameDisk hclose (fun _ m₃ h₃ => ht _ m₃ h₃) (fun _ m₃ h₃ => ht _ m₃ h₃)
      fun m₃ h₃ => ht _ m₃ h₃

/-- **The manifest is replaced at once**; with a write that was cut short it holds a part of the bytes.
When the write is done the manifest is there. -/
theorem wp_replaceManifest (buf : Bytes) :
    wp (writeAtomic o storeDir "MANIFEST.json" buf)
      ⟨fun _ m' => Replaces buf m.disk m'.disk ∧ m'.disk.get? storeDir = some .dir ∧
          ∃ k, m'.disk.get? manifestPath = some (.file (buf.take k)),
        fun _ m' => Replaces buf m.disk m'.disk, fun m' => Replaces buf m.disk m'.disk⟩ m := by
  have hfsync := (respects_sameDisk o).fsyncDir (harmless_read storeDir) (harmless_fsync _)
    (harmless_close _)
  unfold writeAtomic
  simp only [wp_bind, wp_get, wp_now]
  change wp (writeFileDurable o (tmpPath storeDir "MANIFEST.json" m.mem.pid (o.env.now m.tick)) buf .w)
    _ m
  generalize htmp : tmpPath storeDir "MANIFEST.json" m.mem.pid (o.env.now m.tick) = tmp
  have hne : tmp ≠ manifestPath := by
    rw [← htmp]
    intro he
    exact tmpName_ne _ _ _ (tier_joinPath he).2
  have hours : ∀ p, Ours p → p ≠ tmp := fun p hp => by
    subst htmp
    exact ours_ne_tmp hne hp
  have haside : ∀ {fs : FS}, Touches tmp m.disk fs → Aside m.disk fs := fun ht =>
    .of_ours fun p hp => ht.other p (hours p hp)
  refine wp_mono wp_writeFileDurable_w ?_ (fun _ _ ht => (haside ht).replaces buf)
    fun _ ht => (haside ht).replaces buf
  rintro - m₁ ⟨ht, k, hk⟩
  refine wp_sys_op nofun (fun fs hrun => ?_) (fun e => (haside ht).replaces buf)
    ((haside ht).replaces buf)
  replace hrun : m₁.disk.rename tmp manifestPath = .ok fs := by
    rw [← htmp]
    exact hrun
  have hdir : m₁.disk.get? storeDir = some .dir := FS.parent_of_rename hrun
  obtain rfl := FS.rename_file hk hne hrun
  have hother : ∀ p, Ours p → p ≠ manifestPath →
      ((m₁.disk.delete tmp).set manifestPath (.file (buf.take k))).get? p = m.disk.get? p := by
    intro p hp hm
    rw [OrdMap.get?_set_of_ne _ hm, OrdMap.get?_delete, if_neg (hours p hp)]
    exact ht.other p (hours p hp)
  have hman : ((m₁.disk.delete tmp).set manifestPath (.file (buf.take k))).get? manifestPath
      = some (.file (buf.take k)) := OrdMap.get?_set_self _
  have hdone : Replaces buf m.disk ((m₁.disk.delete tmp).set manifestPath (.file (buf.take k))) :=
    ⟨⟨fun d hd name => hother _ (ours_of_tier hd name) (tier_ne_store hd name _),
      fun d hd hn => by rw [hother _ (ours_dir hd) (dir_ne_manifest hd), hn]⟩, .inr ⟨k, hman⟩⟩
  have hreplaced : ∀ m₂ : Machine State Post,
      m₂.disk = (m₁.disk.delete tmp).set manifestPath (.file (buf.take k)) →
      Replaces buf m.disk m₂.disk := fun m₂ h₂ => h₂ ▸ hdone
  refine wp_sameDisk hfsync (fun _ m₂ h₂ => ⟨hreplaced m₂ h₂, ?_, k, ?_⟩)
    (fun _ m₂ h₂ => hreplaced m₂ h₂) fun m₂ h₂ => hreplaced m₂ h₂
  · have hours' : Ours storeDir := ours_dir List.mem_cons_self
    rw [h₂, hother _ hours' (dir_ne_manifest List.mem_cons_self), ← ht.other _ (hours _ hours')]
    exact hdir
  · rw [h₂]
    exact hman

end

/-! ## Generation numbers -/

theorem generationOfName_numbered (n : Nat) {rest : Text} (h : rest.head? = some '.') :
    generationOfName (natText n ++ rest) = some n := by
  cases rest with
  | nil => cases h
  | cons c rest =>
    cases h
    exact generationOfName_natText n rest

theorem wp_reserve {m : Machine State Post} {take : State → Except Failure (Nat × State)}
    {Q : Ensures State Post Nat}
    (hd : ∀ n s, take m.mem = .ok (n, s) → Q.done n { m with mem := s })
    (hr : ∀ e, take m.mem = .error e → Q.raised e m) : wp (reserve take) Q m := by
  unfold reserve
  simp only [wp_bind, wp_get, wp_ofExcept]
  cases ht : take m.mem with
  | error e => exact hr e ht
  | ok taken => exact hd taken.1 taken.2 ht

theorem le_foldl_max_cold (l : List ColdMeta) (k : Nat) :
    k ≤ l.foldl (fun m c => max m c.n) k ∧ ∀ c ∈ l, c.n ≤ l.foldl (fun m c => max m c.n) k := by
  induction l generalizing k with
  | nil => exact ⟨Nat.le_refl _, by simp⟩
  | cons x l ih =>
    obtain ⟨h1, h2⟩ := ih (max k x.n)
    refine ⟨Nat.le_trans (Nat.le_max_left _ _) h1, fun c hc => ?_⟩
    rcases List.mem_cons.mp hc with rfl | hc
    · exact Nat.le_trans (Nat.le_max_right _ _) h1
    · exact h2 c hc

/-! ## The open of a store with a manifest -/

section

variable {o : Options} {fs : FS}

/-- What an open does without creating, migrating or filling the store. -/
def PathKind.Standing : PathKind → Prop
  | .resumeM6b _ _ | .resumePublish _ _ | .fresh | .migrate => False
  | _ => True

theorem standing_checkAside {tok missing : Text} {legacy : Legacy} {man : Manifest} {kind : PathKind}
    (h : checkAside o fs tok legacy missing (.resumeM7 man) = .ok kind) : kind.Standing := by
  unfold checkAside at h
  dsimp only at h
  split at h
  · cases h
    trivial
  · cases hf : hashFile o fs (joinPath parentPath (asidePrefix ++ tok)) with
    | error e => rw [hf] at h; cases h
    | ok hash =>
      rw [hf] at h
      simp only [Bind.bind, Except.bind] at h
      split at h
      · cases h
        trivial
      · cases h
        trivial

/-- **A store with a manifest is neither created nor filled.** -/
theorem Founded.standing (h : Founded fs) {kind : PathKind} (hk : classifyPath o fs = .ok kind) :
    kind.Standing := by
  obtain ⟨hdir, b, hb⟩ := h
  unfold classifyPath at hk
  simp only [FS.lstat, hdir] at hk
  unfold classifyDirectory at hk
  cases hp : Json.parse (decodeText b) with
  | none =>
    have hread : readJson fs manifestPath = .error ⟨[], "SyntaxError"⟩ := by
      simp only [readJson, FS.readFile_of_get? hb, hp]
    rw [hread] at hk
    cases hk
    trivial
  | some j =>
    have hread : readJson fs manifestPath = .ok j := by
      simp only [readJson, FS.readFile_of_get? hb, hp]
    rw [hread] at hk
    simp only at hk
    split at hk
    · cases hk
      trivial
    split at hk
    · cases hk
      trivial
    split at hk
    · cases hk
      trivial
    · exact standing_checkAside hk

theorem respects_tended (o : Options) :
    Respects o Respects.OnSegments (fun _ => ()) fun m m' => Tended m.disk m'.disk :=
  respects_disk .refl (fun _ _ _ h h' => h.trans h')
    (fun _ _ _ ho hr => (Aside.of_ours fun _ hp => (onlySegments_run ho hr).ours hp).tended)
    fun _ _ _ ho => (Aside.of_ours fun _ hp => (onlySegments_cut ho).ours hp).tended

theorem tended_mkdirp {sub : Text} (hs : sub ≠ "MANIFEST.json") :
    Keeps (fun m m' : Machine State Post => Tended m.disk m'.disk)
      (sys o.env (.mkdirp (joinPath storeDir sub))) :=
  Keeps.sys .refl (fun _ _ hr => (Aside.of_mkdirp hs hr).tended) fun fs _ => .refl fs

theorem tended_writeManifest (clean : Bool) (n : Option Nat) :
    Keeps (fun m m' : Machine State Post => Tended m.disk m'.disk) (writeManifest o clean n) := by
  intro m
  unfold writeManifest
  simp only [wp_bind, wp_get, wp_random]
  exact wp_mono (wp_replaceManifest _) (fun _ _ h => h.1.tended) (fun _ _ h => h.tended)
    fun _ h => h.tended

theorem tended_publishM7 (manifest : Manifest) :
    Keeps (fun m m' : Machine State Post => Tended m.disk m'.disk) (publishM7 o manifest) := by
  have hR := respects_tended o
  have hunlink : Keeps (fun m m' : Machine State Post => Tended m.disk m'.disk)
      (sys o.env (.unlink (joinPath storeDir "MIGRATION.json"))) := by
    refine Keeps.sys .refl (fun fs fs' hr => ?_) fun fs _ => .refl fs
    change fs.unlink _ = _ at hr
    unfold FS.unlink at hr
    split at hr
    · cases hr
    · cases hr
    · cases hr
      refine (Aside.of_ours fun p hp => ?_).tended
      rw [OrdMap.get?_delete, if_neg]
      rintro rfl
      rcases hp with hp | ⟨d, hd, name, he⟩
      · revert hp
        decide
      · exact tier_ne_store hd name _ he.symm
  refine hR.bind (fun m => wp_mono (wp_replaceManifest _) (fun _ _ h => h.1.tended)
    (fun _ _ h => h.tended) fun _ h => h.tended) fun _ => hR.bind
      (hR.fsyncDir trivial trivial trivial) fun _ => hR.bind (hR.catching (hR.bind hunlink fun _ =>
        hR.pure _) fun _ => hR.pure _) fun _ => hR.pure _

theorem tended_openPath {kind : PathKind} (h : kind.Standing) :
    Keeps (fun m m' : Machine State Post => Tended m.disk m'.disk) (openPath o kind) := by
  have hR := respects_tended o
  have hpost := hR.postState fun _ _ _ => rfl
  cases kind with
  | unavailableRead reason detail => exact hR.bind (hpost _ _ _) fun _ => hR.pure _
  | precondition detail => exact hR.bind (hpost _ _ _) fun _ => hR.pure _
  | conflict detail => exact hR.bind (hpost _ _ _) fun _ => hR.pure _
  | published m => exact hR.pure _
  | resumeM7 m => exact hR.bind (tended_publishM7 m) fun _ => hR.pure _
  | _ => exact h.elim

theorem tended_recover (manifest : Manifest) :
    Keeps (fun m m' : Machine State Post => Tended m.disk m'.disk) (recover o manifest) := by
  have hR := respects_tended o
  exact hR.bind (hR.modify fun _ => rfl) fun _ =>
    hR.bind (hR.loadCheckpoint (fun _ _ _ => rfl) (fun _ _ => hR.modify fun _ => rfl) (fun _ _ => rfl)
      fun _ _ => rfl) fun _ =>
    hR.bind hR.disk fun _ => hR.bind (hR.ofExcept _) fun _ => hR.bind (hR.modify fun _ => rfl) fun _ =>
      hR.bind (hR.replaySegments (fun _ _ _ => rfl) _ _ _) fun _ => hR.bind (hR.modify fun _ => rfl)
        fun _ => hR.bind (tended_mkdirp (by decide)) fun _ =>
          hR.bind (hR.openSegment (fun _ _ _ => rfl) _ _) fun _ =>
            hR.bind (hR.copyLast (fun _ _ _ => rfl) _ _) fun _ => tended_writeManifest _ _

theorem tended_postOpenError (o : Options) (e : Failure) :
    Keeps (fun m m' : Machine State Post => Tended m.disk m'.disk) (postOpenError e) := by
  unfold postOpenError
  repeat' split
  all_goals exact (respects_tended o).postState (fun _ _ _ => rfl) _ _ _

/-- The open of a store with a manifest. -/
theorem tended_openBody {m : Machine State Post} (h : Founded m.disk) :
    wp (openBody o) ⟨fun _ m' => Tended m.disk m'.disk, fun _ m' => Tended m.disk m'.disk,
      fun m' => Tended m.disk m'.disk⟩ m := by
  have hR := respects_tended o
  unfold openBody
  rw [wp_bind, wp_get]
  dsimp only
  rw [wp_bind, wp_disk]
  dsimp only
  split
  · exact hR.bind (hR.postState (fun _ _ _ => rfl) _ _ _) (fun _ => hR.pure _) m
  · rw [wp_bind, wp_ofExcept]
    split
    · next kind hk =>
      refine hR.bind (tended_openPath (h.standing hk)) (fun manifest => ?_) m
      cases manifest with
      | none => exact hR.pure _
      | some man => exact hR.bind (tended_recover man) fun _ => hR.pure _
    · exact .refl _

theorem respects_tendedIf (o : Options) : Respects o Respects.OnSegments (fun _ => ())
    fun m m' => Founded m.disk → Tended m.disk m'.disk :=
  ⟨fun _ _ => .refl _, fun _ _ _ h h' hs => (h hs).trans (h' ((h hs).founded hs)),
    fun op ho => ((respects_tended o).file op ho).mono fun _ _ h _ => h, fun _ _ _ _ => .refl _,
    fun _ _ _ => .refl _⟩

/-- **An open keeps the files of the tiers** of a store that has a manifest. -/
theorem tended_openStore (liveSids : List Text) :
    Keeps (fun m m' : Machine State Post => Founded m.disk → Tended m.disk m'.disk)
      (openStore o liveSids) := by
  have hR := respects_tendedIf o
  have hpost := hR.postState fun _ _ _ => rfl
  refine hR.bind (hR.modify fun _ => rfl) fun _ => hR.bind (hpost _ _ _) fun _ =>
    hR.bind (hR.catching (fun m => wp_imp tended_openBody) fun e => hR.bind
      ((tended_postOpenError o e).mono fun _ _ h _ => h) fun _ => hR.pure _) fun recovered => ?_
  split
  · exact hR.bind (hpost _ _ _) fun _ => hR.bind hR.get fun _ => hR.post _
  · exact hR.pure _

end

end Telepty.Ledger
