import Telepty.Ledger.Open
import Telepty.Ledger.Snapshot
import Telepty.Ledger.Writes

/-!
# What a store directory stands for

A `Book` is what the files of a published store say: the manifest, the checkpoint that it names, the
segments, the log that they hold, what the log means over the content the store began with, and the
memory that a recovery would come to. `Holds` ties the files of a disk to a book.

A disk may hold more than its book names: files of checkpoints that were never published, staging
directories, the temporary files of atomic writes. `Apart` relates two disks that agree on all that a
book names, and `Holds.apart` says that a book is then held by both.
-/

namespace Telepty.Ledger

open Infra Prog

/-! ## The directories of a store -/

/-- The directories whose files carry generation numbers. -/
def tierDirs : List Path := [hotDir, coldDir, factsDir]

structure Layout (fs : FS) : Prop where
  root : fs.get? parentPath = some .dir
  store : fs.get? storeDir = some .dir
  tiers : ∀ d ∈ tierDirs, fs.get? d = some .dir
  /-- no directory stands where the owner keeps a file of the store -/
  plain : ∀ name, fs.get? (joinPath storeDir name) = some .dir → name ∈ childDirs
  /-- the numbers of the files can be counted up -/
  numbers : ∀ d ∈ tierDirs, ∀ name node, fs.get? (joinPath d name) = some node →
    ∀ n, generationOfName name = some n → n ≤ maxSafeInteger

/-- The names that a store keeps its content under, the segments apart. -/
def Ours (p : Path) : Prop :=
  p ∈ [parentPath, storeDir, manifestPath, segmentsDir] ++ tierDirs ∨
    ∃ d ∈ tierDirs, ∃ name, p = joinPath d name

/-- `fs'` has all that a store keeps in `fs`, the segments apart. -/
structure Keeping (fs fs' : FS) : Prop where
  kept : ∀ p n, Ours p → fs.get? p = some n → fs'.get? p = some n
  layout : Layout fs → Layout fs'

/-- `fs'` has all that a store keeps in `fs`. -/
structure Apart (fs fs' : FS) : Prop extends Keeping fs fs' where
  segments : ∀ name, fs'.get? (segmentFile name) = fs.get? (segmentFile name)

section

variable {fs fs' fs'' : FS} {p : Path}

theorem Apart.refl (fs : FS) : Apart fs fs := ⟨⟨fun _ _ _ h => h, fun h => h⟩, fun _ => rfl⟩

theorem Apart.trans (h : Apart fs fs') (h' : Apart fs' fs'') : Apart fs fs'' :=
  ⟨⟨fun p n hp hn => h'.kept p n hp (h.kept p n hp hn), fun hl => h'.layout (h.layout hl)⟩,
    fun name => (h'.segments name).trans (h.segments name)⟩

theorem ours_tier {d : Path} (hd : d ∈ tierDirs) : Ours d := .inl (List.mem_append_right _ hd)

theorem ours_manifest : Ours manifestPath := .inl (by simp)

theorem ours_segments : Ours segmentsDir := .inl (by simp)

theorem ours_hot (name : Text) : Ours (joinPath hotDir name) :=
  .inr ⟨hotDir, by simp [tierDirs], name, rfl⟩

theorem ours_cold (name : Text) : Ours (joinPath coldDir name) :=
  .inr ⟨coldDir, by simp [tierDirs], name, rfl⟩

theorem ours_facts (name : Text) : Ours (joinPath factsDir name) :=
  .inr ⟨factsDir, by simp [tierDirs], name, rfl⟩

theorem tier_ne_segmentFile {d : Path} (hd : d ∈ tierDirs) (name name' : Text) :
    joinPath d name ≠ segmentFile name' := by
  simp only [tierDirs, List.mem_cons, List.not_mem_nil, or_false] at hd
  rcases hd with rfl | rfl | rfl <;>
    simp [segmentFile, segmentsDir, hotDir, coldDir, factsDir, storeDir, joinPath]

theorem tier_ne_store {d : Path} (hd : d ∈ tierDirs) (name name' : Text) :
    joinPath d name ≠ joinPath storeDir name' := by
  simp only [tierDirs, List.mem_cons, List.not_mem_nil, or_false] at hd
  rcases hd with rfl | rfl | rfl <;> simp [hotDir, coldDir, factsDir, storeDir, joinPath]

theorem tier_joinPath {d d' : Path} {name name' : Text} (h : joinPath d name = joinPath d' name') :
    d = d' ∧ name = name' := by
  have := List.append_inj' h rfl
  exact ⟨this.1, by simpa using this.2⟩

/-- A file created in a tier directory under a number that can be counted on. -/
theorem Apart.of_creates {d : Path} {name : Text} (hd : d ∈ tierDirs)
    (hn : ∀ n, generationOfName name = some n → n ≤ maxSafeInteger)
    (h : Creates (joinPath d name) fs fs') : Apart fs fs' := by
  have hkept : ∀ p n, fs.get? p = some n → fs'.get? p = some n := by
    intro p n hp
    by_cases he : p = joinPath d name
    · subst he
      rcases h.free with hf | hf
      · rw [hf] at hp; cases hp
      · rw [hf, hp]
    · rw [h.other p he, hp]
  refine ⟨⟨fun p n _ hp => hkept p n hp, fun hl => ?_⟩,
    fun name' => h.other _ (tier_ne_segmentFile hd name name').symm⟩
  refine ⟨hkept _ _ hl.root, hkept _ _ hl.store, fun d' hd' => hkept _ _ (hl.tiers d' hd'), ?_, ?_⟩
  · intro name' hdir
    rw [h.other _ (tier_ne_store hd name name').symm] at hdir
    exact hl.plain name' hdir
  · intro d' hd' name' node hnode n hgen
    by_cases he : joinPath d' name' = joinPath d name
    · obtain ⟨-, rfl⟩ := tier_joinPath he
      exact hn n hgen
    · rw [h.other _ he] at hnode
      exact hl.numbers d' hd' name' node hnode n hgen

/-- A temporary file is no file of the store. -/
theorem ours_ne_tmp {name : Text} {pid ms : Nat} (hne : tmpPath storeDir name pid ms ≠ manifestPath)
    {p : Path} (hp : Ours p) : p ≠ tmpPath storeDir name pid ms := by
  have hdir : ∀ t : Text, t.getLast? ≠ some 'p' → joinPath storeDir t ≠ tmpPath storeDir name pid ms := by
    intro t ht he
    obtain ⟨-, rfl⟩ := tier_joinPath he
    rw [tmpName, List.getLast?_append] at ht
    exact ht rfl
  rcases hp with hp | ⟨d, hd, name', rfl⟩
  · simp only [tierDirs, List.cons_append, List.nil_append, List.mem_cons, List.not_mem_nil,
      or_false] at hp
    rcases hp with rfl | rfl | rfl | rfl | rfl | rfl | rfl
    · simp [parentPath, tmpPath, joinPath]
    · simp [tmpPath, joinPath]
    · exact hne.symm
    · exact hdir _ (by decide)
    · exact hdir _ (by decide)
    · exact hdir _ (by decide)
    · exact hdir _ (by decide)
  · exact tier_ne_store hd name' _

/-- A temporary file of the store. -/
theorem Apart.of_tmp {name : Text} {pid ms : Nat}
    (h : ∀ q, q ≠ tmpPath storeDir name pid ms → fs'.get? q = fs.get? q)
    (hfile : fs'.get? (tmpPath storeDir name pid ms) ≠ some .dir)
    (hne : tmpPath storeDir name pid ms ≠ manifestPath) : Apart fs fs' := by
  have hours : ∀ p, Ours p → p ≠ tmpPath storeDir name pid ms := fun p => ours_ne_tmp hne
  have hkept : ∀ p n, Ours p → fs.get? p = some n → fs'.get? p = some n := by
    intro p n hp hn
    rw [h p (hours p hp), hn]
  refine ⟨⟨hkept, fun hl => ⟨?_, ?_, ?_, ?_, ?_⟩⟩, fun name' => h _ ?_⟩
  rotate_left 5
  · simp [segmentFile, segmentsDir, tmpPath, storeDir, joinPath]
  · exact hkept _ _ (.inl (by simp)) hl.root
  · exact hkept _ _ (.inl (by simp)) hl.store
  · exact fun d hd => hkept _ _ (ours_tier hd) (hl.tiers d hd)
  · intro name' hd
    by_cases he : joinPath storeDir name' = tmpPath storeDir name pid ms
    · rw [he] at hd
      exact absurd hd hfile
    · rw [h _ he] at hd
      exact hl.plain name' hd
  · intro d hd name' node hnode n hgen
    rw [h _ (tier_ne_store hd name' _)] at hnode
    exact hl.numbers d hd name' node hnode n hgen

/-- A segment that is written to. -/
theorem Keeping.of_segment (name : Text) (h : ∀ q, q ≠ segmentFile name → fs'.get? q = fs.get? q) :
    Keeping fs fs' := by
  have hours : ∀ p, Ours p → p ≠ segmentFile name := by
    rintro p (hp | ⟨d, hd, name', rfl⟩)
    · simp only [tierDirs, List.cons_append, List.nil_append, List.mem_cons, List.not_mem_nil,
        or_false] at hp
      rcases hp with rfl | rfl | rfl | rfl | rfl | rfl | rfl <;>
        simp [parentPath, storeDir, manifestPath, hotDir, coldDir, factsDir, segmentFile, segmentsDir,
          joinPath]
    · exact tier_ne_segmentFile hd name' name
  have hkept : ∀ p n, Ours p → fs.get? p = some n → fs'.get? p = some n := by
    intro p n hp hn
    rw [h p (hours p hp), hn]
  refine ⟨hkept, fun hl => ⟨?_, ?_, ?_, ?_, ?_⟩⟩
  · exact hkept _ _ (.inl (by simp)) hl.root
  · exact hkept _ _ (.inl (by simp)) hl.store
  · exact fun d hd => hkept _ _ (ours_tier hd) (hl.tiers d hd)
  · intro name' hd
    rw [h _ (by simp [segmentFile, segmentsDir, storeDir, joinPath])] at hd
    exact hl.plain name' hd
  · intro d hd name' node hnode n hgen
    rw [h _ (tier_ne_segmentFile hd name' name)] at hnode
    exact hl.numbers d hd name' node hnode n hgen

theorem Layout.mkdirp {d : Path} (hl : Layout fs) (hd : d ∈ tierDirs) : fs.mkdirp d = .ok fs := by
  have hdir := hl.tiers d hd
  refine FS.mkdirp_of_dirs fun q hq => ?_
  simp only [tierDirs, List.mem_cons, List.not_mem_nil, or_false] at hd
  have hlen : d = storeDir ++ [d.getLast?.getD []] := by
    rcases hd with rfl | rfl | rfl <;> rfl
  rw [hlen, List.prefix_concat_iff] at hq
  rcases hq with rfl | hq
  · rw [← hlen]
    exact hdir
  · change q <+: [] ++ _ at hq
    rw [List.prefix_concat_iff] at hq
    rcases hq with rfl | hq
    · exact hl.store
    · rw [List.prefix_nil.mp hq]
      exact hl.root

end

/-! ## The numbers of the generations -/

/-- The numbers that a manifest names can be counted on. -/
structure Manifest.Counted (m : Manifest) : Prop where
  named : ∀ o ∈ [m.hotN, m.receiptsN, m.receiptsPrev, m.factsN, m.lastCheckpointN],
    ∀ n, o = some n → n ≤ maxSafeInteger
  cold : ∀ c ∈ m.cold, c.n ≤ maxSafeInteger

theorem generationOfName_natText (n : Nat) (rest : Text) :
    generationOfName (natText n ++ '.' :: rest) = some n := by
  have h : Json.spanDigits (natText n ++ '.' :: rest) = (natText n, '.' :: rest) :=
    Json.spanDigits_append (fun _ => isDigit_of_mem_natText) (Json.noDigit_cons _ (by decide))
  rw [generationOfName, h]
  exact parseNat_natText n

theorem highOfNames_ok {names : List Text}
    (h : ∀ name ∈ names, ∀ n, generationOfName name = some n → n ≤ maxSafeInteger) :
    ∃ high, highOfNames names = .ok high := by
  induction names with
  | nil => exact ⟨0, rfl⟩
  | cons name names ih =>
    obtain ⟨high, hhigh⟩ := ih fun name' hm => h name' (List.mem_cons_of_mem _ hm)
    rw [highOfNames, hhigh]
    simp only [Bind.bind, Except.bind]
    cases hg : generationOfName name with
    | none => exact ⟨high, rfl⟩
    | some n => exact ⟨max n high, by simp only [if_pos (h name List.mem_cons_self n hg)]⟩

theorem maxGeneration_ok {l : List (Option Nat)}
    (h : ∀ o ∈ l, ∀ n, o = some n → n ≤ maxSafeInteger) : ∃ high, maxGeneration l = .ok high := by
  induction l with
  | nil => exact ⟨0, rfl⟩
  | cons o l ih =>
    obtain ⟨high, hhigh⟩ := ih fun o' hm => h o' (List.mem_cons_of_mem _ hm)
    have ho : ∃ n, generationOf o = .ok n := by
      cases o with
      | none => exact ⟨0, rfl⟩
      | some n => exact ⟨n, if_pos (h _ List.mem_cons_self n rfl)⟩
    obtain ⟨n, hn⟩ := ho
    exact ⟨max n high, by rw [maxGeneration, hn, hhigh]; rfl⟩

theorem Layout.occupiedHighWater {fs : FS} {d : Path} (hl : Layout fs) (hd : d ∈ tierDirs) :
    ∃ high, occupiedHighWater fs d = .ok high := by
  rw [Ledger.occupiedHighWater, FS.readdir, hl.tiers d hd]
  refine highOfNames_ok fun name hm n hg => ?_
  obtain ⟨node, hnode⟩ := FS.mem_names_iff.mp hm
  exact hl.numbers d hd name node hnode n hg

/-- **The generation numbers of a store are recovered.** -/
theorem Layout.recoverGenerations {fs : FS} {m : Manifest} (hl : Layout fs) (hm : m.Counted) :
    ∃ alloc, recoverGenerations fs m = .ok alloc := by
  obtain ⟨hot, hhot⟩ := hl.occupiedHighWater (d := hotDir) (by simp [tierDirs])
  obtain ⟨facts, hfacts⟩ := hl.occupiedHighWater (d := factsDir) (by simp [tierDirs])
  obtain ⟨cold, hcold⟩ := hl.occupiedHighWater (d := coldDir) (by simp [tierDirs])
  obtain ⟨named, hnamed⟩ := maxGeneration_ok hm.named
  obtain ⟨listed, hlisted⟩ := maxGeneration_ok (l := m.cold.map fun c => some c.n) (by
    intro o ho n hn
    obtain ⟨c, hc, rfl⟩ := List.mem_map.mp ho
    cases hn
    exact hm.cold c hc)
  refine ⟨(max (max hot facts) named, max cold listed), ?_⟩
  rw [Ledger.recoverGenerations, hhot, hfacts, hnamed, hcold, hlisted]
  rfl

/-! ## Books -/

structure Book where
  man : Manifest
  snap : Snap
  segs : List SegView
  log : List Frame
  /-- what the store began with -/
  base : Core
  /-- what the log makes of it -/
  spec : Core
  /-- the memory that a recovery comes to -/
  recovered : Core

/-- A receipt of a frame of the log. -/
def ReceiptOf (log : List Frame) (txn : Text) (r : Receipt) : Prop :=
  ∃ f ∈ log, f.txn = txn ∧ r.pos = f.pos ∧ r.kind = f.kind ∧ r.id = f.id?

theorem ReceiptOf.mono {log log' : List Frame} {txn : Text} {r : Receipt} (h : ReceiptOf log txn r)
    (hl : ∀ f ∈ log, f ∈ log') : ReceiptOf log' txn r := by
  obtain ⟨f, hf, hr⟩ := h
  exact ⟨f, hl f hf, hr⟩

structure Holds (o : Options) (fs : FS) (b : Book) : Prop where
  layout : Layout fs
  manifest : fs.get? manifestPath = some (.file b.man.bytes)
  format : b.man.format = storeFormatVersion
  published : b.man.published = true
  counted : b.man.Counted
  checkpoint : b.man.checkpoint.epoch ≤ b.man.epoch
  files : b.snap.Files o.digests fs b.man
  shows : Shows o.digests fs b.segs
  /-- a recovery that was cut off leaves the first segment of the next epoch -/
  epochs : ∀ v ∈ b.segs, v.epoch ≤ b.man.epoch ∨ v.epoch = b.man.epoch + 1 ∧ v.n = 1
  logOk : LogOk (allFrames b.segs) b.log
  logEpochs : ∀ f ∈ b.log, f.epoch ≤ b.man.epoch
  spec : Core.Steps b.log b.base b.spec
  recovered : Core.Steps (b.log.filter (isAfter b.man.checkpoint)) b.snap.core b.recovered
  tier : Tier b.recovered b.spec (coldAll b.snap.gens)
  receipts : ∀ e ∈ b.snap.receipts ++ b.snap.prevReceipts, ReceiptOf b.log e.1 e.2
  keyed : b.base.Keyed
  baseFacts : b.base.facts = []

namespace Holds

variable {o : Options} {fs fs' : FS} {b : Book}

theorem specKeyed (h : Holds o fs b) : b.spec.Keyed := h.spec.keyed h.logOk.sound h.keyed

theorem specFacts (h : Holds o fs b) : b.spec.facts = b.log.filterMap Frame.fact? := by
  rw [h.spec.facts, h.baseFacts, List.nil_append]

/-- The facts of the memory stand in the order of their positions. -/
theorem factsSorted (h : Holds o fs b) : b.spec.facts.Pairwise Fact.le := by
  rw [h.specFacts]
  have hpos : ∀ {f : Frame} {x : Fact}, f.fact? = some x → x.pos = f.pos := by
    intro f x hx
    unfold Frame.fact? at hx
    split at hx
    · cases hx
      rfl
    · cases hx
  rw [List.pairwise_filterMap]
  refine h.logOk.sorted.imp ?_
  intro f g hfg x hx y hy
  show comparePos x.pos y.pos ≤ 0
  rw [hpos hx, hpos hy]
  omega

theorem filesKept {x : Snap} {man : Manifest} (hf : x.Files o.digests fs man)
    (hk : ∀ p n, Ours p → fs.get? p = some n → fs'.get? p = some n) :
    x.Files o.digests fs' man := by
  have hcold : ∃ metas, List.Forall₂ (Stored o.digests fs') metas x.gens ∧
      man.cold = metas.map refOf := by
    obtain ⟨metas, hall, hrefs⟩ := hf.cold
    refine ⟨metas, hall.imp fun c g hc => hc.congr ?_, hrefs⟩
    rintro p buf hp (rfl | rfl | rfl)
    · exact hk _ _ (ours_cold _) hp
    · exact hk _ _ (ours_cold _) hp
    · exact hk _ _ (ours_cold _) hp
  exact { hf with
    hot := hk _ _ (ours_hot _) hf.hot
    receipts := hk _ _ (ours_hot _) hf.receipts
    prevReceipts := fun p hp => hk _ _ (ours_hot _) (hf.prevReceipts p hp)
    facts := hk _ _ (ours_facts _) hf.facts
    cold := hcold }

/-- **A disk that keeps what a book names holds the book.** -/
theorem apart (h : Holds o fs b) (ha : Apart fs fs') : Holds o fs' b := by
  have hdir : fs'.get? segmentsDir = fs.get? segmentsDir := by
    rw [h.shows.dir]
    exact ha.kept _ _ ours_segments h.shows.dir
  exact { h with
    layout := ha.layout h.layout
    manifest := ha.kept _ _ ours_manifest h.manifest
    files := filesKept h.files ha.kept
    shows := h.shows.congr hdir ha.segments }

/-- The manifest is read as it was written. -/
theorem readManifest (h : Holds o fs b) : readJson fs manifestPath = .ok b.man.toJson := by
  rw [readJson, FS.readFile_of_get? h.manifest]
  simp only [Manifest.bytes, decodeText_encodeText, Json.parse_stringify_newline]

/-- **A published store is recognised**, whatever else stands beside it. -/
theorem classifyPath (h : Holds o fs b) : classifyPath o fs = .ok (.published b.man) := by
  have hobj : b.man.toJson.isObject = true := rfl
  unfold Ledger.classifyPath
  simp only [FS.lstat, h.layout.store]
  rw [classifyDirectory, h.readManifest]
  simp only [Manifest.ofJson_toJson, hobj, h.format, h.published, ne_eq, not_true_eq_false, or_false,
    Bool.true_eq_false, if_false, if_true]
  rfl

end Holds

end Telepty.Ledger
