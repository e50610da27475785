import Telepty.Ledger.Owner
import Telepty.Ledger.Tiers

/-!
# The marks of the generation numbers

An owner takes the numbers of its checkpoints one above a mark, one mark for the hot files and the
facts and one for the cold generations. `Spaced` says that the marks are above all that is there: the
names in the tiers, the numbers that the memory still refers to and those that the manifest names.

`Advances` is what every message does, however it ends: the marks do not fall, what was spaced stays
spaced, and every file that it makes has a number above the marks that it began with. A checkpoint
raises the mark before it makes a file, and every file that it makes has a number that was taken.
-/

namespace Telepty.Ledger

open Infra Prog

/-! ## Marks -/

/-- The mark of a tier directory: the highest number that is taken in it. -/
def markOf (s : State) (d : Path) : Nat :=
  if d = coldDir then max s.allocCold (s.cold.foldl (fun m c => max m c.n) 0)
  else max s.allocHot s.checkpointN

/-- The numbers of the files of a checkpoint that a manifest names. -/
def Manifest.hotNumbers (m : Manifest) : List Nat :=
  [m.hotN, m.receiptsN, m.receiptsPrev, m.factsN, m.lastCheckpointN].filterMap id

/-- The numbers of the cold generations that a manifest names. -/
def Manifest.coldNumbers (m : Manifest) : List Nat := m.cold.map ColdRef.n

structure Manifest.Within (m : Manifest) (hot cold : Nat) : Prop where
  hot : ∀ k ∈ m.hotNumbers, k ≤ hot
  cold : ∀ k ∈ m.coldNumbers, k ≤ cold

/-- The marks are above the names in the tiers and the numbers in the memory. -/
structure Ahead (s : State) (fs : FS) : Prop where
  names : ∀ d ∈ tierDirs, ∀ name node, fs.get? (joinPath d name) = some node →
    ∀ k, generationOfName name = some k → k ≤ markOf s d
  receipts : ∀ k ∈ s.receiptCkpts, k ≤ markOf s hotDir
  last : ∀ k, s.manifest.bind Manifest.lastCheckpointN = some k → k ≤ markOf s hotDir

/-- The marks are above the numbers of the manifest on the disk as well. -/
structure Spaced (s : State) (fs : FS) : Prop extends Ahead s fs where
  manifest : ∀ man : Manifest, fs.get? manifestPath = some (.file man.bytes) →
    man.Within (markOf s hotDir) (markOf s coldDir)

/-- The part of the memory that the numbers come from. -/
def numbers (s : State) :
    Option Manifest × List Nat × List ColdMeta × Nat × Nat × Nat := (bookkeeping s).2

section

variable {s s' : State} {fs fs' : FS} {man : Manifest}

theorem markOf_hot (s : State) : markOf s hotDir = max s.allocHot s.checkpointN := rfl

theorem markOf_facts (s : State) : markOf s factsDir = markOf s hotDir := rfl

theorem markOf_congr (h : numbers s' = numbers s) (d : Path) : markOf s' d = markOf s d := by
  simp only [numbers, bookkeeping, Prod.mk.injEq] at h
  obtain ⟨-, -, hcold, hn, hhot, hac⟩ := h
  rw [markOf, markOf, hcold, hn, hhot, hac]

theorem Manifest.Within.mono {hot cold hot' cold' : Nat} (h : man.Within hot cold) (hh : hot ≤ hot')
    (hc : cold ≤ cold') : man.Within hot' cold' :=
  ⟨fun k hk => Nat.le_trans (h.hot k hk) hh, fun k hk => Nat.le_trans (h.cold k hk) hc⟩

/-- The marks may rise. -/
theorem Ahead.mono (h : Ahead s fs) (hm : ∀ d, markOf s d ≤ markOf s' d)
    (hr : s'.receiptCkpts = s.receiptCkpts) (hman : s'.manifest = s.manifest) : Ahead s' fs where
  names d hd name node hn k hk := Nat.le_trans (h.names d hd name node hn k hk) (hm d)
  receipts k hk := Nat.le_trans (h.receipts k (hr ▸ hk)) (hm hotDir)
  last k hk := Nat.le_trans (h.last k (hman ▸ hk)) (hm hotDir)

theorem Spaced.mono (h : Spaced s fs) (hm : ∀ d, markOf s d ≤ markOf s' d)
    (hr : s'.receiptCkpts = s.receiptCkpts) (hman : s'.manifest = s.manifest) : Spaced s' fs :=
  ⟨h.toAhead.mono hm hr hman, fun man hb => (h.manifest man hb).mono (hm _) (hm _)⟩

theorem Ahead.congr (h : Ahead s fs) (hn : numbers s' = numbers s) : Ahead s' fs := by
  have hm := markOf_congr hn
  simp only [numbers, bookkeeping, Prod.mk.injEq] at hn
  exact h.mono (fun d => Nat.le_of_eq (hm d).symm) hn.2.1 hn.1

theorem Spaced.congr (h : Spaced s fs) (hn : numbers s' = numbers s) : Spaced s' fs := by
  have hm := markOf_congr hn
  simp only [numbers, bookkeeping, Prod.mk.injEq] at hn
  exact h.mono (fun d => Nat.le_of_eq (hm d).symm) hn.2.1 hn.1

/-- A disk with the same tiers. -/
theorem Ahead.sameTiers (h : Ahead s fs) (hf : SameTiers fs fs') : Ahead s fs' :=
  { h with names := fun d hd name node hn => h.names d hd name node (by rw [← hf.files d hd name, hn]) }

theorem Spaced.aside (h : Spaced s fs) (hf : Aside fs fs') : Spaced s fs' :=
  ⟨h.toAhead.sameTiers hf.toSameTiers, fun man hb => h.manifest man (by rw [← hf.manifest, hb])⟩

/-! ## The manifest -/

/-- What begins the bytes of a manifest and is a manifest is the whole. -/
theorem Manifest.eq_of_take {m m' : Manifest} {k : Nat} (h : m.bytes.take k = m'.bytes) : m' = m := by
  have hend : ∀ x : Manifest, x.bytes = encodeText x.toJson.stringify ++ [newline] := fun x => by
    rw [Manifest.bytes, encodeText_append]
    rfl
  have hbytes : m'.bytes = m.bytes := by
    by_cases hk : m.bytes.length ≤ k
    · rw [← h, List.take_of_length_le hk]
    · -- a part of the bytes has no newline
      exfalso
      have hmem : newline ∈ m.bytes.take k := by
        rw [h, hend]
        exact List.mem_append_right _ (List.mem_singleton_self _)
      rw [hend, List.take_append_of_le_length] at hmem
      · have hc := mem_of_mem_encodeText (List.mem_of_mem_take hmem) (by decide)
        exact absurd (Json.le_of_mem_stringify _ hc) (by decide)
      · rw [hend, List.length_append, List.length_singleton] at hk
        omega
  have hjson : m'.toJson = m.toJson := by
    have hp := congrArg (fun b => Json.parse (decodeText b)) hbytes
    simpa only [Manifest.bytes, decodeText_encodeText, Json.parse_stringify_newline,
      Option.some.injEq] using hp
  rw [← Manifest.ofJson_toJson m', hjson, Manifest.ofJson_toJson]

theorem le_markOf_cold {c : ColdMeta} (hc : c ∈ s.cold) : c.n ≤ markOf s coldDir :=
  Nat.le_trans ((le_foldl_max_cold s.cold 0).2 c hc) (Nat.le_max_right _ _)

/-- The manifest that the memory describes is within the marks. -/
theorem Ahead.manifestOf (h : Ahead s fs) {last : Option Nat}
    (hl : ∀ k, last = some k → k ≤ markOf s hotDir) (tok : Text) (clean : Bool) :
    (manifestOf s tok clean last).Within (markOf s hotDir) (markOf s coldDir) where
  hot k hk := by
    have hn : s.checkpointN ≤ markOf s hotDir := Nat.le_max_right _ _
    simp only [Manifest.hotNumbers, Ledger.manifestOf, List.mem_filterMap, List.mem_cons,
      List.not_mem_nil, or_false, id_eq, exists_eq_right] at hk
    rcases hk with hk | hk | hk | hk | hk
    · cases hk
      exact hn
    · cases hk
      exact hn
    · exact h.receipts k (List.mem_of_mem_dropLast (List.mem_of_getLast? hk.symm))
    · cases hk
      exact hn
    · cases last with
      | none => exact h.last k (by simpa using hk.symm)
      | some l => exact hl k (by simpa using hk.symm)
  cold k hk := by
    obtain ⟨c, hc, rfl⟩ := List.mem_map.mp hk
    obtain ⟨x, hx, rfl⟩ := List.mem_map.mp hc
    exact le_markOf_cold hx

/-- A manifest within the marks that replaces the one on the disk. -/
theorem Spaced.replaces (h : Spaced s fs) (hw : man.Within (markOf s hotDir) (markOf s coldDir))
    (hf : Replaces man.bytes fs fs') : Spaced s fs' :=
  ⟨h.toAhead.sameTiers hf.toSameTiers, fun man' hb => by
    rcases hf.manifest with he | ⟨k, hk⟩
    · exact h.manifest man' (he.symm.trans hb)
    · rw [hb] at hk
      cases Manifest.eq_of_take (Node.file.inj (Option.some.inj hk)).symm
      exact hw⟩

end

/-! ## What a message does -/

/-- The tiers, the manifest and the numbers in the memory stay as they are. -/
def Unnumbered (m m' : Machine State Post) : Prop :=
  numbers m'.mem = numbers m.mem ∧ Aside m.disk m'.disk

/-- From one machine to a later one; what is made has a number above `low`. -/
structure Moves (low : Path → Nat) (m m' : Machine State Post) : Prop where
  tended : Tended m.disk m'.disk
  marks : ∀ d, markOf m.mem d ≤ markOf m'.mem d
  spaced : Spaced m.mem m.disk → Spaced m'.mem m'.disk
  made : ∀ d ∈ tierDirs, ∀ name node, m.disk.get? (joinPath d name) = none →
    m'.disk.get? (joinPath d name) = some node → ∀ k, generationOfName name = some k → low d < k

/-- From a machine whose marks are not below `low`. -/
def Advances (low : Path → Nat) (m m' : Machine State Post) : Prop :=
  (∀ d, low d ≤ markOf m.mem d) → Moves low m m'

section

variable {low : Path → Nat} {m m' m'' : Machine State Post} {o : Options}

theorem Moves.trans (h : Moves low m m') (h' : Moves low m' m'') : Moves low m m'' where
  tended := h.tended.trans h'.tended
  marks d := Nat.le_trans (h.marks d) (h'.marks d)
  spaced := h'.spaced ∘ h.spaced
  made d hd name node hnone hn k hk := by
    cases hmid : m'.disk.get? (joinPath d name) with
    | none => exact h'.made d hd name node hmid hn k hk
    | some n => exact h.made d hd name n hnone hmid k hk

/-- The tiers and the manifest stay, and so do the numbers in the memory. -/
theorem Moves.of_aside (hn : numbers m'.mem = numbers m.mem) (hf : Aside m.disk m'.disk) :
    Moves low m m' where
  tended := hf.tended
  marks d := Nat.le_of_eq (markOf_congr hn d).symm
  spaced h := (h.congr hn).aside hf
  made d hd name node hnone hsome := by
    rw [hf.files d hd name, hnone] at hsome
    cases hsome

theorem Moves.refl (low : Path → Nat) (m : Machine State Post) : Moves low m m :=
  .of_aside rfl (.refl _)

theorem Advances.trans (h : Advances low m m') (h' : Advances low m' m'') : Advances low m m'' :=
  fun hl => (h hl).trans (h' fun d => Nat.le_trans (hl d) ((h hl).marks d))

theorem unnumbered_onSegments {op : FileOp} (ho : Respects.OnSegments op) :
    Keeps Unnumbered (sys o.env op) :=
  (Keeps.and (Fixes.sys op) ((respects_onlySegments o).file op ho)).mono fun _ _ h =>
    ⟨h.1, .of_ours fun _ hp => h.2.ours hp⟩

theorem unnumbered_mkdirp {sub : Text} (hs : sub ≠ "MANIFEST.json") :
    Keeps Unnumbered (sys o.env (.mkdirp (joinPath storeDir sub))) :=
  Keeps.and (Fixes.sys _) (Keeps.sys (D := Aside) .refl (fun _ _ hr => .of_mkdirp hs hr)
    fun fs _ => .refl fs)

theorem respects_unnumbered (o : Options) : Respects o Respects.OnSegments numbers Unnumbered :=
  ⟨fun _ => ⟨rfl, .refl _⟩, fun _ _ _ h h' => ⟨h'.1.trans h.1, h.2.trans h'.2⟩,
    fun _ => unnumbered_onSegments, fun _ _ h => ⟨h, .refl _⟩, fun _ _ => ⟨rfl, .refl _⟩⟩

theorem respects_advances (o : Options) (low : Path → Nat) :
    Respects o Respects.OnSegments numbers (Advances low) :=
  ⟨fun m _ => .refl low m, fun _ _ _ h h' => h.trans h',
    fun _ ho => (unnumbered_onSegments ho).mono fun _ _ h _ => .of_aside h.1 h.2,
    fun _ _ hn _ => .of_aside hn (.refl _), fun _ _ _ => .of_aside rfl (.refl _)⟩

/-- **The manifest of the memory is published.** -/
theorem wp_writeManifest_spaced (low : Path → Nat) {clean : Bool} {last : Option Nat}
    (hl : ∀ k, last = some k → k ≤ markOf m.mem hotDir) :
    wp (writeManifest o clean last)
      ⟨fun _ m' => Moves low m m' ∧ (Ahead m.mem m.disk → Spaced m'.mem m'.disk ∧ Founded m'.disk),
        fun _ m' => Moves low m m', fun m' => Moves low m m'⟩ m := by
  unfold writeManifest
  simp only [wp_bind, wp_get, wp_random]
  generalize o.env.random m.tick = tok
  have hmem : Keeps (fun m m' : Machine State Post => m'.mem = m.mem)
      (writeAtomic o storeDir "MANIFEST.json" (manifestOf m.mem tok clean last).bytes) :=
    (respects_fixes o FileOp.Tame id).writeAtomic _ _ _
  have hmoves : ∀ m₁ : Machine State Post, m₁.mem = m.mem →
      Replaces (manifestOf m.mem tok clean last).bytes m.disk m₁.disk → Moves low m m₁ := by
    intro m₁ he hf
    refine ⟨hf.tended, fun d => by rw [he], fun h => ?_, fun d hd name node hnone hsome => ?_⟩
    · rw [he]
      exact h.replaces (h.manifestOf hl tok clean) hf
    · rw [hf.files d hd name, hnone] at hsome
      cases hsome
  refine wp_of_keeps hmem (wp_mono (wp_replaceManifest _) ?_ (fun _ m₁ hf he => hmoves m₁ he hf)
    fun m₁ hf he => hmoves m₁ he hf)
  rintro - m₁ ⟨hf, hstore, k, hk⟩ he
  simp only [wp_modify]
  have hwithin : Ahead m.mem m.disk → Ahead { m₁.mem with
      manifest := some (manifestOf m.mem tok clean last) } m₁.disk := by
    intro h
    rw [he]
    refine ⟨(h.sameTiers hf.toSameTiers).names, h.receipts, fun j hj => ?_⟩
    refine (h.manifestOf hl tok clean).hot j ?_
    simp only [Option.bind_some] at hj
    simp only [Manifest.hotNumbers, hj, List.filterMap_cons, List.filterMap_nil, id_eq]
    split <;> split <;> split <;> split <;> simp
  have hspaced : Ahead m.mem m.disk → Spaced { m₁.mem with
      manifest := some (manifestOf m.mem tok clean last) } m₁.disk := fun h =>
    ⟨hwithin h, fun man hb => by
      rw [hb] at hk
      cases Manifest.eq_of_take (Node.file.inj (Option.some.inj hk)).symm
      have hw := h.manifestOf hl tok clean
      rw [← he] at hw ⊢
      exact hw⟩
  have hm := hmoves m₁ he hf
  exact ⟨⟨hm.tended, hm.marks, fun h => hspaced h.toAhead, hm.made⟩, fun h =>
    ⟨hspaced h, hstore, _, hk⟩⟩

end

/-! ## A checkpoint -/

/-- What is said of the numbers in a memory only. -/
def OfNumbers (T : State → Prop) : Prop := ∀ s s', numbers s' = numbers s → T s → T s'

/-- From a machine on which some numbers were taken. -/
def Fills (low : Path → Nat) (T : State → Prop) (m m' : Machine State Post) : Prop :=
  T m.mem → Moves low m m' ∧ T m'.mem

/-- The number of a checkpoint is taken. -/
structure Taken (n : Nat) (s : State) : Prop where
  hot : n ≤ s.allocHot
  checkpoint : s.checkpointN ≤ s.allocHot

/-- A move that begins with the taking of a number. -/
structure TakesFirst (take : State → Except Failure (Nat × State)) (d : Path) (low : Path → Nat)
    (m m' : Machine State Post) : Prop extends Moves low m m' where
  taken : ∀ n t, take m.mem = .ok (n, t) → n ≤ markOf m'.mem d

section

variable {low : Path → Nat} {T : State → Prop} {n : Nat} {m m' : Machine State Post} {o : Options}

theorem ofNumbers_taken (n : Nat) : OfNumbers (Taken n) := by
  intro s s' hn h
  simp only [numbers, bookkeeping, Prod.mk.injEq] at hn
  obtain ⟨-, -, -, hn, hhot, -⟩ := hn
  exact ⟨hhot ▸ h.hot, by rw [hn, hhot]; exact h.checkpoint⟩

/-- The number of a cold generation is taken as well. -/
theorem OfNumbers.cold (hT : OfNumbers T) (c : Nat) : OfNumbers fun s => T s ∧ c ≤ s.allocCold := by
  intro s s' hn h
  refine ⟨hT s s' hn h.1, ?_⟩
  simp only [numbers, bookkeeping, Prod.mk.injEq] at hn
  rw [hn.2.2.2.2.2]
  exact h.2

theorem Taken.le_hot {s : State} (h : Taken n s) : n ≤ markOf s hotDir :=
  Nat.le_trans h.hot (Nat.le_max_left _ _)

theorem Fills.of_unnumbered (hT : OfNumbers T) (h : Unnumbered m m') : Fills low T m m' :=
  fun ht => ⟨.of_aside h.1 h.2, hT _ _ h.1 ht⟩

theorem respects_fills (o : Options) (low : Path → Nat) (hT : OfNumbers T) :
    Respects o Respects.OnSegments numbers (Fills low T) :=
  ⟨fun _ => .of_unnumbered hT ⟨rfl, .refl _⟩,
    fun _ _ _ h h' ht => ⟨(h ht).1.trans (h' (h ht).2).1, (h' (h ht).2).2⟩,
    fun _ ho => (unnumbered_onSegments ho).mono fun _ _ => .of_unnumbered hT,
    fun _ _ hn => .of_unnumbered hT ⟨hn, .refl _⟩, fun _ _ => .of_unnumbered hT ⟨rfl, .refl _⟩⟩

theorem fills_mkdirp (hT : OfNumbers T) {sub : Text} (hs : sub ≠ "MANIFEST.json") :
    Keeps (Fills low T) (sys o.env (.mkdirp (joinPath storeDir sub))) :=
  (unnumbered_mkdirp hs).mono fun _ _ => .of_unnumbered hT

/-- **A file of a tier** is made under a number that was taken. -/
theorem fills_create {d : Path} {name : Text} {k : Nat} (hd : d ∈ tierDirs)
    (hname : generationOfName name = some k) (hlow : low d < k)
    (hk : ∀ s, T s → k ≤ markOf s d) (buf : Bytes) :
    Keeps (Fills low T) (createFileDurable o (joinPath d name) buf) := by
  have hmem : Keeps (fun m m' : Machine State Post => m'.mem = m.mem)
      (createFileDurable o (joinPath d name) buf) :=
    (respects_fixes o FileOp.Tame id).writeFileDurable _ _ _
  refine (Keeps.and hmem (keeps_createFileDurable _ _)).mono ?_
  rintro m m' ⟨he, hf⟩ ht
  rw [he]
  refine ⟨⟨hf.tended hd, fun d => by rw [he], fun h => ?_, ?_⟩, ht⟩
  · rw [he]
    refine ⟨⟨fun d' hd' name' node hn j hj => ?_, h.receipts, h.last⟩, fun man hb => ?_⟩
    · by_cases hp : joinPath d' name' = joinPath d name
      · obtain ⟨rfl, rfl⟩ := tier_joinPath hp
        rw [hname] at hj
        cases hj
        exact hk _ ht
      · rw [hf.other _ hp] at hn
        exact h.names d' hd' name' node hn j hj
    · rw [hf.other manifestPath (tier_ne_store hd name _).symm] at hb
      exact h.manifest man hb
  · intro d' hd' name' node hnone hsome j hj
    by_cases hp : joinPath d' name' = joinPath d name
    · obtain ⟨rfl, rfl⟩ := tier_joinPath hp
      rw [hname] at hj
      cases hj
      exact hlow
    · rw [hf.other _ hp, hnone] at hsome
      cases hsome

/-- The files of a checkpoint are made. -/
theorem fills_writeCheckpointFiles (hlow : low hotDir < n) (hfacts : low factsDir < n) :
    Keeps (Fills low (Taken n)) (writeCheckpointFiles o n) := by
  have hR := respects_fills o low (ofNumbers_taken n)
  have hhot : ∀ {rest : Text}, rest.head? = some '.' → ∀ buf,
      Keeps (Fills low (Taken n)) (createFileDurable o (joinPath hotDir (natText n ++ rest)) buf) :=
    fun hr => fills_create (by simp [tierDirs]) (generationOfName_numbered n hr) hlow
      fun _ => Taken.le_hot
  have hfile : ∀ {rest : Text}, rest.head? = some '.' → ∀ buf,
      Keeps (Fills low (Taken n)) (createFileDurable o (joinPath factsDir (natText n ++ rest)) buf) :=
    fun hr => fills_create (by simp [tierDirs]) (generationOfName_numbered n hr) hfacts
      fun _ => Taken.le_hot
  exact hR.bind hR.get fun s => hR.bind (hhot rfl _) fun _ => hR.bind (hR.modify fun _ => rfl) fun _ =>
    hR.bind (hhot rfl _) fun _ => hR.bind (hfile rfl _) fun _ => hR.bind (hR.ofExcept _) fun _ =>
      hR.bind (hfile rfl _) fun _ => hR.bind (hR.fsyncDir trivial trivial trivial) fun _ =>
        hR.fsyncDir trivial trivial trivial

theorem reserveHot_ok {s t : State} (h : reserveHot s = .ok (n, t)) :
    n = markOf s hotDir + 1 ∧ t = { s with allocHot := n } := by
  unfold reserveHot unsafeGeneration at h
  dsimp only at h
  split at h
  · cases h
    exact ⟨rfl, rfl⟩
  · cases h

theorem reserveCold_ok {s t : State} (h : reserveCold s = .ok (n, t)) :
    n = markOf s coldDir + 1 ∧ t = { s with allocCold := n } := by
  unfold reserveCold unsafeGeneration at h
  dsimp only at h
  split at h
  · cases h
    exact ⟨rfl, rfl⟩
  · cases h

/-- A mark is raised to a number above it. -/
theorem Moves.of_alloc {s : State} (hm : ∀ d, markOf m.mem d ≤ markOf s d)
    (hr : s.receiptCkpts = m.mem.receiptCkpts) (hman : s.manifest = m.mem.manifest) :
    Moves low m { m with mem := s } :=
  ⟨.refl _, hm, fun h => h.mono hm hr hman, fun d _ name node hnone hsome => by
    rw [hnone] at hsome
    cases hsome⟩

theorem marks_allocHot (s : State) (h : markOf s hotDir ≤ n) (d : Path) :
    markOf s d ≤ markOf { s with allocHot := n } d := by
  unfold markOf
  split
  · exact Nat.le_refl _
  · exact Nat.le_trans h (Nat.le_max_left _ _)

theorem marks_allocCold (s : State) (h : markOf s coldDir ≤ n) (d : Path) :
    markOf s d ≤ markOf { s with allocCold := n } d := by
  unfold markOf
  split
  · exact Nat.le_trans h (Nat.le_max_left _ _)
  · exact Nat.le_refl _

/-- **A cold generation** is made under the number above the mark. -/
theorem takes_writeColdGeneration (hT : OfNumbers T) (halloc : ∀ s c, T s → T { s with allocCold := c })
    (records : List Json) (h : T m.mem) (hlow : ∀ d, low d ≤ markOf m.mem d) :
    wp (writeColdGeneration o records)
      ⟨fun _ m' => TakesFirst reserveCold coldDir low m m' ∧ T m'.mem,
        fun _ m' => TakesFirst reserveCold coldDir low m m',
        fun m' => TakesFirst reserveCold coldDir low m m'⟩ m := by
  unfold writeColdGeneration
  rw [wp_bind]
  refine wp_reserve (fun c t htake => ?_) fun e he => ⟨.refl low m, fun c t htake => ?_⟩
  · obtain ⟨hc, rfl⟩ := reserveCold_ok htake
    have hmoves : Moves low m { m with mem := { m.mem with allocCold := c } } :=
      .of_alloc (marks_allocCold m.mem (by omega)) rfl rfl
    have htaken : T { m.mem with allocCold := c } ∧ c ≤ c := ⟨halloc _ _ h, Nat.le_refl c⟩
    have hR := respects_fills o low (hT.cold c)
    have hcold : ∀ rest : Text, rest.head? = some '.' → ∀ buf,
        Keeps (Fills low fun s => T s ∧ c ≤ s.allocCold)
          (createFileDurable o (joinPath coldDir (natText c ++ rest)) buf) := by
      intro rest hr
      have hl := hlow coldDir
      exact fills_create (by simp [tierDirs]) (generationOfName_numbered c hr) (by omega)
        fun _ hs => Nat.le_trans hs.2 (Nat.le_max_left _ _)
    have hkeeps := hR.bind (hR.ofExcept (coldFilesFrom o.digests c 0 records)) fun files =>
      hR.bind (hR.ofExcept (buildIndex files.ids)) fun idIdx =>
        hR.bind (hR.ofExcept (buildIndex files.sids)) fun sidIdx =>
          hR.bind (hcold ".jsonl" rfl files.lines) fun _ =>
            hR.bind (hcold ".id.idx" rfl idIdx) fun _ =>
              hR.bind (hcold ".sid.idx" rfl sidIdx) fun _ =>
                hR.bind (hR.fsyncDir (p := coldDir) trivial trivial trivial) fun _ =>
                  hR.pure (⟨c, coldFile c, idIdx, sidIdx, records.length, files.lines.length,
                    false⟩ : ColdMeta)
    have htakes : ∀ m', Moves low { m with mem := { m.mem with allocCold := c } } m' →
        TakesFirst reserveCold coldDir low m m' := fun m' hm => ⟨hmoves.trans hm, fun c' t' h' => by
      rw [htake] at h'
      cases h'
      exact Nat.le_trans (Nat.le_max_left _ _) (hm.marks coldDir)⟩
    exact wp_mono (hkeeps _) (fun _ _ hf => ⟨htakes _ (hf htaken).1, (hf htaken).2.1⟩)
      (fun _ _ hf => htakes _ (hf htaken).1) fun _ hf => htakes _ (hf htaken).1
  · rw [he] at htake
    cases htake

/-- The cold generation, when something is demoted. -/
theorem moves_writeCold (records : List Json) (h : Taken n m.mem)
    (hlow : ∀ d, low d ≤ markOf m.mem d) :
    wp (writeCold o records)
      ⟨fun _ m' => Moves low m m' ∧ Taken n m'.mem, fun _ m' => Moves low m m',
        fun m' => Moves low m m'⟩ m := by
  unfold writeCold
  split
  · exact ⟨.refl low m, h⟩
  · rw [wp_bind]
    exact wp_mono (takes_writeColdGeneration (ofNumbers_taken n)
      (fun _ _ hs => ⟨hs.hot, hs.checkpoint⟩) records h hlow) (fun _ _ hm => ⟨hm.1.toMoves, hm.2⟩) (fun _ _ hm => hm.toMoves)
      fun _ hm => hm.toMoves

/-- What the memory forgets when the files are made. -/
theorem fills_released (dem : List Json) (cold : Option ColdMeta) :
    Keeps (Fills low (Taken n)) (Prog.modify (released n dem cold) : Owner Unit) := by
  intro m ht
  have hmarks : ∀ d, markOf m.mem d ≤ markOf (released n dem cold m.mem) d := by
    intro d
    unfold markOf
    split
    · have h1 := (le_foldl_max_cold cold.toList (m.mem.cold.foldl (fun m c => max m c.n) 0)).1
      simp only [released, trimReceipts, List.foldl_append]
      omega
    · have h1 := ht.checkpoint
      simp only [released, trimReceipts]
      omega
  refine ⟨⟨.refl _, hmarks, fun h => ?_, fun d _ name node hnone hsome => ?_⟩, ht.hot, ht.hot⟩
  · refine ⟨⟨fun d hd name node hn k hk =>
      Nat.le_trans (h.names d hd name node hn k hk) (hmarks d), fun k hk => ?_,
      fun k hk => Nat.le_trans (h.last k hk) (hmarks hotDir)⟩,
      fun man hb => (h.manifest man hb).mono (hmarks _) (hmarks _)⟩
    rcases List.mem_append.mp (List.mem_of_mem_drop hk) with hk | hk
    · exact Nat.le_trans (h.receipts k hk) (hmarks hotDir)
    · rw [List.mem_singleton.mp hk]
      exact Nat.le_trans ht.hot (Nat.le_max_left _ _)
  · rw [hnone] at hsome
    cases hsome

/-- The rule for a part of a checkpoint. -/
theorem wp_fills {α : Type} {x : Owner α} {Q : Ensures State Post α} (hx : Keeps (Fills low T) x)
    (h : Moves low m m' ∧ T m'.mem) (hd : ∀ a m'', Moves low m m'' ∧ T m''.mem → Q.done a m'')
    (hr : ∀ e m'', Moves low m m'' → Q.raised e m'') (hc : ∀ m'', Moves low m m'' → Q.crashed m'') :
    wp x Q m' :=
  wp_mono (hx m') (fun a _ hf => hd a _ ⟨h.1.trans (hf h.2).1, (hf h.2).2⟩)
    (fun e _ hf => hr e _ (h.1.trans (hf h.2).1)) fun _ hf => hc _ (h.1.trans (hf h.2).1)

/-- What a checkpoint does once it has its number. -/
theorem moves_afterReserve (reason : Text) (htaken : Taken n m.mem) (hhot : low hotDir < n)
    (hfacts : low factsDir < n) (hlow : ∀ d, low d ≤ markOf m.mem d) :
    wp (do
        let _ ← sys o.env (.mkdirp hotDir)
        let _ ← sys o.env (.mkdirp coldDir)
        let _ ← sys o.env (.mkdirp factsDir)
        let s ← get
        let cold ← writeCold o (demoted s)
        writeCheckpointFiles o n
        modify (released n (demoted s) cold)
        writeManifest o false (some n)
        postDemoted (demoted s) n
        post (.progress "compact" reason)
        return Json.obj [("n", .num n), ("demoted", .num (demoted s).length)] : Owner Json)
      ⟨fun _ m' => Moves low m m', fun _ m' => Moves low m m', fun m' => Moves low m m'⟩ m := by
  have hT := ofNumbers_taken n
  -- the directories
  rw [wp_bind]
  refine wp_fills (fills_mkdirp hT (by decide)) ⟨.refl low m, htaken⟩ (fun _ m₁ h₁ => ?_)
    (fun _ _ h => h) fun _ h => h
  dsimp only
  rw [wp_bind]
  refine wp_fills (fills_mkdirp hT (by decide)) h₁ (fun _ m₂ h₂ => ?_) (fun _ _ h => h) fun _ h => h
  dsimp only
  rw [wp_bind]
  refine wp_fills (fills_mkdirp hT (by decide)) h₂ (fun _ m₃ h₃ => ?_) (fun _ _ h => h) fun _ h => h
  -- the cold generation
  dsimp only
  rw [wp_bind, wp_get]
  dsimp only
  rw [wp_bind]
  have hlow₃ : ∀ d, low d ≤ markOf m₃.mem d := fun d => Nat.le_trans (hlow d) (h₃.1.marks d)
  refine wp_mono (moves_writeCold _ h₃.2 hlow₃) ?_ (fun _ _ h => h₃.1.trans h) fun _ h => h₃.1.trans h
  rintro cold m₄ ⟨h₄, ht₄⟩
  -- the other files, the memory and the manifest
  dsimp only
  rw [wp_bind]
  refine wp_fills (fills_writeCheckpointFiles hhot hfacts) ⟨h₃.1.trans h₄, ht₄⟩ (fun _ m₅ h₅ => ?_)
    (fun _ _ h => h) fun _ h => h
  dsimp only
  rw [wp_bind]
  refine wp_fills (fills_released _ _) h₅ (fun _ m₆ h₆ => ?_) (fun _ _ h => h) fun _ h => h
  dsimp only
  rw [wp_bind]
  have hlast : ∀ k, some n = some k → k ≤ markOf m₆.mem hotDir := by
    intro k hk
    cases hk
    exact h₆.2.le_hot
  refine wp_mono (wp_writeManifest_spaced low hlast) (fun _ m₇ h₇ => ?_)
    (fun _ _ h => h₆.1.trans h) fun _ h => h₆.1.trans h
  have hposts := (respects_advances o low).bind (f := fun _ => do
      post (.progress "compact" reason)
      return Json.obj [("n", .num n), ("demoted", .num (demoted m₃.mem).length)])
    (x := postDemoted (demoted m₃.mem) n) (by
      unfold postDemoted
      split
      · exact (respects_advances o low).pure _
      · exact (respects_advances o low).post _)
    fun _ => (respects_advances o low).bind ((respects_advances o low).post _) fun _ =>
      (respects_advances o low).pure _
  have hmoves₇ := h₆.1.trans h₇.1
  have hlow₇ : ∀ d, low d ≤ markOf m₇.mem d := fun d => Nat.le_trans (hlow d) (hmoves₇.marks d)
  exact wp_mono (hposts m₇) (fun _ _ h => hmoves₇.trans (h hlow₇))
    (fun _ _ h => hmoves₇.trans (h hlow₇)) fun _ h => hmoves₇.trans (h hlow₇)

/-- **A checkpoint takes the number above the mark** and makes its files under it. -/
theorem takes_checkpointBody (reason : Text) (hlow : ∀ d, low d ≤ markOf m.mem d) :
    wp (checkpointBody o reason) ⟨fun _ m' => TakesFirst reserveHot hotDir low m m',
      fun _ m' => TakesFirst reserveHot hotDir low m m',
      fun m' => TakesFirst reserveHot hotDir low m m'⟩ m := by
  unfold checkpointBody
  rw [wp_bind]
  refine wp_reserve (fun n t htake => ?_) fun e he => ⟨.refl low m, fun n t htake => ?_⟩
  · obtain ⟨hn, rfl⟩ := reserveHot_ok htake
    have hmoves : Moves low m { m with mem := { m.mem with allocHot := n } } :=
      .of_alloc (marks_allocHot m.mem (by omega)) rfl rfl
    have htaken : Taken n { m.mem with allocHot := n } :=
      ⟨Nat.le_refl n, by rw [markOf_hot] at hn; show m.mem.checkpointN ≤ n; omega⟩
    have hhot : low hotDir < n := by
      have := hlow hotDir
      omega
    have hfacts : low factsDir < n := by
      have := hlow factsDir
      rw [markOf_facts] at this
      omega
    have htakes : ∀ m', Moves low { m with mem := { m.mem with allocHot := n } } m' →
        TakesFirst reserveHot hotDir low m m' := fun m' hm => ⟨hmoves.trans hm, fun n' t' h' => by
      rw [htake] at h'
      cases h'
      exact Nat.le_trans (Nat.le_max_left _ _) (hm.marks hotDir)⟩
    exact wp_mono (moves_afterReserve reason htaken hhot hfacts fun d =>
      Nat.le_trans (hlow d) (hmoves.marks d)) (fun _ _ h => htakes _ h) (fun _ _ h => htakes _ h)
      fun _ h => htakes _ h
  · rw [he] at htake
    cases htake

theorem moves_checkpointBody (reason : Text) (hlow : ∀ d, low d ≤ markOf m.mem d) :
    wp (checkpointBody o reason) ⟨fun _ m' => Moves low m m', fun _ m' => Moves low m m',
      fun m' => Moves low m m'⟩ m :=
  wp_mono (takes_checkpointBody reason hlow) (fun _ _ h => h.toMoves) (fun _ _ h => h.toMoves)
    fun _ h => h.toMoves

theorem advances_checkpointBody (o : Options) (low : Path → Nat) (reason : Text) :
    Keeps (Advances low) (checkpointBody o reason) :=
  fun _ => wp_imp (moves_checkpointBody reason)

theorem advances_writeManifest (o : Options) (low : Path → Nat) (clean : Bool) :
    Keeps (Advances low) (writeManifest o clean none) := fun _ =>
  wp_mono (wp_writeManifest_spaced low nofun) (fun _ _ h _ => h.1) (fun _ _ h _ => h) fun _ h _ => h

end

/-! ## The messages -/

section

variable {o : Options} {low : Path → Nat}

theorem numbers_merged (g : Group) (s : State) : numbers (merged g s) = numbers s := by
  have hactions : ∀ (l : List (Json × Option Json)) (s : State),
      numbers (l.foldl (fun s a => s.setAction a.1 a.2) s) = numbers s := by
    intro l
    induction l with
    | nil => exact fun _ => rfl
    | cons a l ih => exact fun s => ih _
  have hmembers : ∀ (l : List Member) (s : State), numbers (l.foldl (fun s m =>
      { s with
        appliedPos := s.appliedPos ++ [posKey m.pos]
        txnHash := (s.txnHash.set m.txn m.hash).set (posKey m.pos) m.hash
        receipts := s.receipts.set m.txn ⟨m.pos, m.kind, m.id, .open⟩ }) s) = numbers s := by
    intro l
    induction l with
    | nil => exact fun _ => rfl
    | cons m l ih => exact fun s => ih _
  rw [merged, hmembers, hactions]
  rfl

theorem numbers_trimIfMany (s : State) : numbers (trimIfMany s) = numbers s := by
  unfold trimIfMany
  split <;> rfl

theorem advances_commitGroup (g : Group) : Keeps (Advances low) (commitGroup o g) := by
  have hR := respects_advances o low
  refine hR.bind (hR.modify (numbers_merged g)) fun _ => hR.bind hR.get fun _ =>
    hR.bind (hR.postAll _) fun _ => hR.bind (hR.postAll _) fun _ =>
      hR.bind (hR.modify numbers_trimIfMany) fun _ => hR.bind (hR.bind hR.get fun _ => ?_) fun _ =>
        hR.bind hR.get fun _ => ?_
  · split
    · exact hR.catching (hR.bind (advances_checkpointBody o low _) fun _ => hR.pure _) fun _ =>
        hR.post _
    · exact hR.pure _
  · split
    · exact hR.catching (hR.rollSegment fun _ _ _ => rfl) fun _ => hR.pure _
    · exact hR.pure _

theorem advances_flushGroup (o : Options) (low : Path → Nat) :
    Keeps (Advances low) (flushGroup o) := by
  have hR := respects_advances o low
  refine hR.bind hR.get fun s => hR.bind (hR.modify fun _ => rfl) fun _ => ?_
  split
  · exact hR.pure _
  split
  · exact hR.postAll _
  refine hR.bind (hR.writeGroup (fun _ _ _ => rfl) _) fun r => ?_
  split
  · exact advances_commitGroup _
  · exact hR.bind (hR.modify fun _ => rfl) fun _ =>
      hR.bind (hR.postState (fun _ _ _ => rfl) _ _ _) fun _ => hR.post _

theorem advances_checkpoint (reason : Text) : Keeps (Advances low) (checkpoint o reason) := by
  have hR := respects_advances o low
  refine hR.bind (hR.bind hR.get fun s => ?_) fun _ => advances_checkpointBody o low reason
  split
  · exact hR.pure _
  split
  · exact hR.pure _
  · exact advances_flushGroup o low

theorem advances_submitOnce (msg : Submit) : Keeps (Advances low) (submitOnce o msg) := by
  have hR := respects_advances o low
  have hpost : ∀ (p : Post) (b : Bool), Keeps (Advances low) (do post p; return b : Owner Bool) :=
    fun p b => hR.bind (hR.post p) fun _ => hR.pure b
  refine hR.bind hR.get fun s => ?_
  dsimp only
  split
  · exact hpost _ _
  split
  · exact hpost _ _
  split
  · exact hpost _ _
  refine hR.bind (hR.modify fun _ => rfl) fun _ => hR.bind hR.disk fun _ => hR.bind hR.now fun _ => ?_
  split
  · exact hpost _ _
  · exact hpost _ _
  · refine hR.bind ?_ fun _ => hR.pure _
    unfold noopVerdict
    split
    · exact hR.modify fun _ => rfl
    · refine hR.bind hR.get fun _ => hR.bind (hR.post _) fun _ => ?_
      split
      · exact hR.modify fun _ => rfl
      · exact hR.pure _
  · split
    · exact hpost _ _
    split
    · exact hR.bind (advances_flushGroup o low) fun _ => hR.pure _
    split
    · exact hpost _ _
    · refine hR.bind (hR.modify fun _ => rfl) fun _ => ?_
      split
      · exact hR.bind (advances_flushGroup o low) fun _ => hR.pure _
      · exact hR.pure _

theorem advances_submit (msg : Submit) : Keeps (Advances low) (submit o msg) := by
  have hR := respects_advances o low
  refine hR.bind (advances_submitOnce msg) fun again => ?_
  split
  · exact hR.bind (advances_submitOnce msg) fun _ => hR.pure _
  · exact hR.pure _

theorem advances_read (req : Text) (op : ReadOp) : Keeps (Advances low) (read o req op) := by
  have hR := respects_advances o low
  refine hR.bind hR.get fun s => hR.bind hR.disk fun fs => ?_
  repeat' split
  all_goals first
    | exact hR.pure _
    | exact hR.post _

theorem advances_close : Keeps (Advances low) (close o) := by
  have hR := respects_advances o low
  have hbody : Keeps (Advances low) (closeBody o) := by
    refine hR.bind hR.get fun s => ?_
    split
    · refine hR.bind (advances_flushGroup o low) fun _ => hR.bind hR.get fun _ => ?_
      split
      · exact hR.bind (advances_checkpoint _) fun _ =>
          hR.bind (advances_writeManifest o low true) fun _ => hR.pure _
      · exact hR.pure _
    · exact hR.pure _
  exact hR.bind (hR.modify fun _ => rfl) fun _ =>
    hR.bind (hR.catching hbody fun _ => hR.bind (hR.post _) fun _ => hR.pure _) fun _ =>
      hR.bind hR.get fun _ => hR.bind (hR.closeSegment fun _ _ _ => rfl) fun _ =>
        hR.bind (hR.postState (fun _ _ _ => rfl) _ _ _) fun _ => hR.post _

/-- **Every message but another open advances the numbers**, however it ends. -/
theorem advances_handle (low : Path → Nat) {msg : Message} (ho : ∀ l, msg ≠ .open l) :
    Keeps (Advances low) (handle o msg) := by
  have hR := respects_advances o low
  cases msg with
  | «open» l => exact absurd rfl (ho l)
  | submit msg => exact advances_submit msg
  | read req op => exact advances_read req op
  | live sid on =>
    unfold handle
    exact hR.modify fun _ => rfl
  | compact req =>
    exact hR.catching (hR.bind (advances_checkpoint _) fun _ => hR.post _) fun _ => hR.post _
  | resolve req txns => exact hR.bind hR.get fun _ => hR.post _
  | close => exact advances_close
  | flush => exact advances_flushGroup o low

end

end Telepty.Ledger
