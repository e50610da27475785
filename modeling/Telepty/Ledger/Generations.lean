import Telepty.Ledger.Marks
import Telepty.Ledger.Runs

/-!
# New generation numbers

A recovery rebuilds the marks from the directory and the manifest: it looks at every name in the
tiers and at every number that the manifest names. An open that ends available leaves the marks
above all of these, and the messages that follow keep them there.

A mark is lost with the memory of a crashed owner, and so is a number that was taken before a file
was made under it. A number of a file is not: the file stays in the directory, whatever happens.
-/

namespace Telepty.Ledger

open Infra Prog

/-! ## The numbers on the disk -/

section

variable {fs : FS} {d : Path} {names : List Text} {high : Nat} {man : Manifest} {alloc : Nat × Nat}

theorem le_of_highOfNames (h : highOfNames names = .ok high) {name : Text} (hm : name ∈ names) {k : Nat}
    (hk : generationOfName name = some k) : k ≤ high := by
  induction names generalizing high with
  | nil => cases hm
  | cons x names ih =>
    obtain ⟨rest, hrest, h⟩ := bind_eq_ok h
    rcases List.mem_cons.mp hm with rfl | hm
    · rw [hk] at h
      dsimp only at h
      split at h
      · cases h
        exact Nat.le_max_left _ _
      · cases h
    · have hle := ih hrest hm
      cases hx : generationOfName x with
      | none =>
        rw [hx] at h
        cases h
        exact hle
      | some n =>
        rw [hx] at h
        dsimp only at h
        split at h
        · cases h
          exact Nat.le_trans hle (Nat.le_max_right _ _)
        · cases h

/-- No name of the directory carries a number above the one that is found. -/
theorem le_of_occupiedHighWater (hh : Housed fs) (hd : d ∈ tierDirs)
    (h : occupiedHighWater fs d = .ok high) {name : Text} {node : Node}
    (hn : fs.get? (joinPath d name) = some node) {k : Nat} (hk : generationOfName name = some k) :
    k ≤ high := by
  unfold occupiedHighWater FS.readdir at h
  rw [hh d hd name node hn] at h
  exact le_of_highOfNames h (FS.mem_names_iff.mpr ⟨node, hn⟩) hk

theorem le_of_maxGeneration {l : List (Option Nat)} (h : maxGeneration l = .ok high) {k : Nat}
    (hk : some k ∈ l) : k ≤ high := by
  induction l generalizing high with
  | nil => cases hk
  | cons v l ih =>
    obtain ⟨n, hn, h⟩ := bind_eq_ok h
    obtain ⟨rest, hrest, h⟩ := bind_eq_ok h
    cases h
    rcases List.mem_cons.mp hk with rfl | hk
    · unfold generationOf at hn
      dsimp only at hn
      split at hn
      · cases hn
        exact Nat.le_max_left _ _
      · cases hn
    · exact Nat.le_trans (ih hrest hk) (Nat.le_max_right _ _)

/-- **The recovered marks** are above the names in the tiers and the numbers of the manifest. -/
theorem recoverGenerations_spec (hh : Housed fs) (h : recoverGenerations fs man = .ok alloc) :
    (∀ d ∈ tierDirs, ∀ name node, fs.get? (joinPath d name) = some node →
      ∀ k, generationOfName name = some k → k ≤ if d = coldDir then alloc.2 else alloc.1) ∧
    man.Within alloc.1 alloc.2 := by
  obtain ⟨hot, hhot, h⟩ := bind_eq_ok h
  obtain ⟨facts, hfacts, h⟩ := bind_eq_ok h
  obtain ⟨named, hnamed, h⟩ := bind_eq_ok h
  obtain ⟨cold, hcold, h⟩ := bind_eq_ok h
  obtain ⟨listed, hlisted, h⟩ := bind_eq_ok h
  cases h
  refine ⟨fun d hd name node hn k hk => ?_, fun k hk => ?_, fun k hk => ?_⟩
  · have hle : ∀ {high}, occupiedHighWater fs d = .ok high → k ≤ high := fun h =>
      le_of_occupiedHighWater hh hd h hn hk
    simp only [tierDirs, List.mem_cons, List.not_mem_nil, or_false] at hd
    rcases hd with rfl | rfl | rfl
    · rw [if_neg (by decide)]
      have := hle hhot
      omega
    · rw [if_pos rfl]
      have := hle hcold
      omega
    · rw [if_neg (by decide)]
      have := hle hfacts
      omega
  · have hmem : some k ∈ [man.hotN, man.receiptsN, man.receiptsPrev, man.factsN, man.lastCheckpointN] := by
      obtain ⟨v, hv, rfl⟩ := List.mem_filterMap.mp hk
      exact hv
    have := le_of_maxGeneration hnamed hmem
    omega
  · obtain ⟨c, hc, rfl⟩ := List.mem_map.mp hk
    have := le_of_maxGeneration hlisted (List.mem_map_of_mem (f := fun c => some c.n) hc)
    omega

theorem housed_of_tree (h : fs.Tree) : Housed fs := fun d _ name n hn => h d name n hn

end

/-! ## Recovery -/

/-- What is loaded names numbers of the manifest only. -/
structure Named (man : Manifest) (s : State) : Prop where
  manifest : s.manifest = some man
  receipts : ∀ k ∈ s.receiptCkpts, some k ∈ [man.receiptsN, man.receiptsPrev]

section

variable {o : Options} {man : Manifest} {m : Machine State Post} {s : State} {fs : FS}

theorem respects_named (o : Options) (man : Manifest) :
    Respects o Harmless (fun s => (s.manifest, s.receiptCkpts)) fun m m' =>
      m'.disk = m.disk ∧ (Named man m.mem → Named man m'.mem) := by
  have hcongr : ∀ s s' : State, (s'.manifest, s'.receiptCkpts) = (s.manifest, s.receiptCkpts) →
      Named man s → Named man s' := by
    intro s s' he h
    simp only [Prod.mk.injEq] at he
    exact ⟨he.1.trans h.manifest, fun k hk => h.receipts k (he.2 ▸ hk)⟩
  refine ⟨fun _ => ⟨rfl, id⟩, fun _ _ _ h h' => ⟨h'.1.trans h.1, h'.2 ∘ h.2⟩, fun op ho => ?_,
    fun _ _ he => ⟨rfl, hcongr _ _ he⟩, fun _ _ => ⟨rfl, id⟩⟩
  exact (Keeps.and ((respects_sameDisk o).file op ho) (Fixes.sys
    (φ := fun s : State => (s.manifest, s.receiptCkpts)) op)).mono fun _ _ h =>
    ⟨h.1, hcongr _ _ h.2⟩

theorem named_loadCheckpoint (o : Options) (man : Manifest) :
    Keeps (fun m m' => m'.disk = m.disk ∧ (Named man m.mem → Named man m'.mem))
      (loadCheckpoint o man) := by
  refine (respects_named o man).loadCheckpoint (fun s s' h => ?_) (fun n hn m => ⟨rfl, fun h => ?_⟩)
    (fun _ _ => rfl) fun _ _ => rfl
  · simp only [bookkeeping, Prod.mk.injEq] at h
    rw [h.2.1, h.2.2.1]
  · refine ⟨h.manifest, fun k hk => ?_⟩
    rcases List.mem_append.mp hk with hk | hk
    · exact h.receipts k hk
    · rw [List.mem_singleton.mp hk]
      exact hn

/-- The marks that are recovered are above all that was loaded. -/
theorem Named.ahead (h : Named man s) (hh : Housed fs) {alloc : Nat × Nat}
    (ha : recoverGenerations fs man = .ok alloc) :
    Ahead { s with allocHot := alloc.1, allocCold := alloc.2 } fs := by
  obtain ⟨hnames, hwithin⟩ := recoverGenerations_spec hh ha
  have hhot : ∀ v ∈ [man.hotN, man.receiptsN, man.receiptsPrev, man.factsN, man.lastCheckpointN],
      ∀ k, v = some k → k ≤ max alloc.1 s.checkpointN := by
    intro v hv k hk
    have hle := hwithin.hot k (List.mem_filterMap.mpr ⟨v, hv, hk⟩)
    omega
  refine ⟨fun d hd name node hn k hk => ?_, fun k hk => ?_, fun k hk => ?_⟩
  · have hle := hnames d hd name node hn k hk
    unfold markOf
    split at hle
    · next he => rw [if_pos he]; exact Nat.le_trans hle (Nat.le_max_left _ _)
    · next he => rw [if_neg he]; exact Nat.le_trans hle (Nat.le_max_left _ _)
  · refine hhot _ ?_ k rfl
    have hmem := h.receipts k hk
    simp only [List.mem_cons, List.not_mem_nil, or_false] at hmem ⊢
    rcases hmem with hmem | hmem
    · exact .inr (.inl hmem)
    · exact .inr (.inr (.inl hmem))
  · have hlast : man.lastCheckpointN = some k := by
      have hk' : s.manifest.bind Manifest.lastCheckpointN = some k := hk
      rw [h.manifest] at hk'
      exact hk'
    exact hhot _ (by simp) k hlast

theorem numbers_of_bookkeeping {s s' : State} (h : bookkeeping s' = bookkeeping s) :
    numbers s' = numbers s := congrArg Prod.snd h

/-- What an open leaves behind that ends available. -/
structure Numbered (s : State) (fs : FS) : Prop extends Spaced s fs where
  founded : Founded fs
  housed : Housed fs

/-- **A recovery** puts the marks above all that is in the directory. -/
theorem wp_recover_numbered (hh : Housed m.disk) (hr : m.mem.receiptCkpts = []) :
    wp (recover o man) ⟨fun _ m' => Numbered m'.mem m'.disk, fun _ _ => True, fun _ => True⟩ m := by
  refine wp_of_keeps (tended_recover man) ?_
  unfold recover
  rw [wp_bind, wp_modify]
  dsimp only
  rw [wp_bind]
  refine wp_mono (named_loadCheckpoint o man _) (fun _ m₁ h₁ => ?_) (fun _ _ _ _ => trivial)
    fun _ _ _ => trivial
  have hnamed : Named man m₁.mem := h₁.2 ⟨rfl, fun k hk => by
    have hk' : k ∈ m.mem.receiptCkpts := hk
    rw [hr] at hk'
    cases hk'⟩
  have hh₁ : Housed m₁.disk := by
    rw [h₁.1]
    exact hh
  dsimp only
  rw [wp_bind, wp_disk]
  dsimp only
  rw [wp_bind, wp_ofExcept]
  split
  · next alloc ha =>
    have hahead := hnamed.ahead hh₁ ha
    dsimp only
    rw [wp_bind, wp_modify]
    dsimp only
    -- the log, and the segment that the owner writes to
    have hR := respects_unnumbered o
    have hrest : Keeps Unnumbered (do
        let last ← replaySegments o man (segmentFiles m₁.disk) none
        modify fun s => { s with epoch := man.epoch + 1, seqNext := 1, seqCommitted := 0 }
        let _ ← sys o.env (.mkdirp segmentsDir)
        openSegment o (man.epoch + 1) 1
        copyLast o (segmentName (man.epoch + 1) 1) last : Owner Unit) :=
      hR.bind (hR.replaySegments (fun _ _ => numbers_of_bookkeeping) _ _ _) fun _ =>
        hR.bind (hR.modify fun _ => rfl) fun _ => hR.bind (unnumbered_mkdirp (by decide)) fun _ =>
          hR.bind (hR.openSegment (fun _ _ _ => rfl) _ _) fun _ =>
            hR.copyLast (fun _ _ _ => rfl) _ _
    have hwrite : ∀ m₂, Unnumbered { m₁ with mem := { m₁.mem with
          allocHot := alloc.1, allocCold := alloc.2 } } m₂ →
        wp (writeManifest o false none) ⟨fun _ m' => Spaced m'.mem m'.disk ∧ Founded m'.disk,
          fun _ _ => True, fun _ => True⟩ m₂ := fun m₂ h₂ =>
      wp_mono (wp_writeManifest_spaced (fun _ => 0) nofun)
        (fun _ _ h => h.2 ((hahead.congr h₂.1).sameTiers h₂.2.toSameTiers))
        (fun _ _ _ => trivial) fun _ _ => trivial
    have hdone := wp_mono (hrest { m₁ with mem := { m₁.mem with
        allocHot := alloc.1, allocCold := alloc.2 } })
      (R := ⟨fun _ m₂ => wp (writeManifest o false none) ⟨fun _ m' => Tended m.disk m'.disk →
          Numbered m'.mem m'.disk, fun _ m' => Tended m.disk m'.disk → True,
          fun m' => Tended m.disk m'.disk → True⟩ m₂,
        fun _ m' => Tended m.disk m'.disk → True, fun m' => Tended m.disk m'.disk → True⟩)
      (fun _ m₂ h₂ => wp_mono (hwrite m₂ h₂) (fun _ _ h ht => ⟨h.1, h.2, ht.housed hh⟩)
        (fun _ _ _ _ => trivial) fun _ _ _ => trivial)
      (fun _ _ _ _ => trivial) fun _ _ _ => trivial
    simp only [wp_bind] at hdone ⊢
    exact hdone
  · exact fun _ => trivial

end

/-! ## Opening -/

/-- A disk on which an open finds every file of the tiers in a directory. -/
def Openable (fs : FS) : Prop := fs.Tree ∨ Founded fs ∧ Housed fs

section

variable {o : Options} {m : Machine State Post}

/-- An open that comes to no manifest does not serve. -/
theorem wp_openPath_none (kind : PathKind) :
    wp (openPath o kind) ⟨fun r m' => r = none → m'.mem.state ≠ .available, fun _ _ => True,
      fun _ => True⟩ m := by
  have hsome : ∀ {α : Type} {x : Owner α} {f : α → Owner (Option Manifest)} {m : Machine State Post},
      (∀ a m', wp (f a) ⟨fun r m' => r = none → m'.mem.state ≠ .available, fun _ _ => True,
        fun _ => True⟩ m') →
      wp (x >>= f) ⟨fun r m' => r = none → m'.mem.state ≠ .available, fun _ _ => True,
        fun _ => True⟩ m := by
    intro α x f m hf
    rw [wp_bind]
    exact wp_always hf (fun _ _ => trivial) fun _ => trivial
  have hpost : ∀ (store : StoreState) (reason detail : Text), store ≠ .available →
      wp (do postState store reason detail; return none : Owner (Option Manifest))
        ⟨fun r m' => r = none → m'.mem.state ≠ .available, fun _ _ => True, fun _ => True⟩ m :=
    fun store reason detail hs => by
      unfold postState
      simp only [wp_bind, wp_modify, wp_get, wp_post]
      exact fun _ => hs
  cases kind with
  | unavailableRead reason detail => exact hpost _ _ _ (by decide)
  | precondition detail => exact hpost _ _ _ (by decide)
  | conflict detail => exact hpost _ _ _ (by decide)
  | published m => exact nofun
  | resumeM7 m => exact hsome fun _ _ => nofun
  | resumeM6b staging m => exact hsome fun _ _ => hsome fun _ _ => hsome fun _ _ => nofun
  | resumePublish staging m => exact hsome fun _ _ => hsome fun _ _ => nofun
  | fresh => exact hsome fun _ _ => nofun
  | migrate => exact hsome fun _ _ => nofun

/-- What stands in the tiers when the recovery begins stands in directories. -/
theorem wp_openPath_housed (h : Openable m.disk) {kind : PathKind} (hk : classifyPath o m.disk = .ok kind) :
    wp (openPath o kind) ⟨fun _ m' => Housed m'.disk, fun _ _ => True, fun _ => True⟩ m := by
  rcases h with ht | ⟨hf, hh⟩
  · exact wp_mono ((respects_tree o).openPath (fun _ _ _ => rfl) kind m)
      (fun _ _ h => housed_of_tree (h ht)) (fun _ _ _ => trivial) fun _ _ => trivial
  · exact wp_mono (tended_openPath (hf.standing hk) m) (fun _ _ h => h.housed hh)
      (fun _ _ _ => trivial) fun _ _ => trivial

theorem wp_openBody_numbered (h : Openable m.disk) (hr : m.mem.receiptCkpts = []) :
    wp (openBody o)
      ⟨fun recovered m' => if recovered then Numbered m'.mem m'.disk else m'.mem.state ≠ .available,
        fun _ _ => True, fun _ => True⟩ m := by
  unfold openBody
  rw [wp_bind, wp_get]
  dsimp only
  rw [wp_bind, wp_disk]
  dsimp only
  split
  · unfold postState
    simp only [wp_bind, wp_modify, wp_get, wp_post]
    exact nofun
  · rw [wp_bind, wp_ofExcept]
    split
    · next kind hk =>
      dsimp only
      rw [wp_bind]
      have hreceipts := (respects_fixes o FileOp.Tame State.receiptCkpts).openPath (fun _ _ _ => rfl) kind
      refine wp_of_keeps hreceipts ?_
      refine wp_mono (wp_and (wp_openPath_none kind) (wp_openPath_housed h hk)) ?_
        (fun _ _ _ _ => trivial) fun _ _ _ => trivial
      rintro r m₁ ⟨hn, hh⟩ hr₁
      cases r with
      | none => exact hn rfl
      | some man =>
        dsimp only
        rw [wp_bind]
        exact wp_recover_numbered hh (hr₁.trans hr)
    · trivial

/-- **An open that ends available** has the marks above all that is in the directory. -/
theorem wp_openStore_numbered (liveSids : List Text) (h : Openable m.disk)
    (hr : m.mem.receiptCkpts = []) :
    wp (openStore o liveSids)
      ⟨fun _ m' => m'.mem.state = .available → Numbered m'.mem m'.disk, fun _ _ => False,
        fun _ => True⟩ m := by
  unfold openStore postState
  simp only [wp_bind, wp_modify, wp_get, wp_post, wp_catching]
  refine wp_mono (wp_openBody_numbered h hr) (fun recovered m₁ h₁ => ?_) (fun e m₁ _ => ?_)
    fun _ _ => trivial
  · cases recovered with
    | true =>
      simp only [if_true, wp_bind, wp_modify, wp_get, wp_post] at h₁ ⊢
      exact fun _ => { h₁ with toSpaced := h₁.toSpaced.congr rfl }
    | false => exact fun ha => absurd ha h₁
  · exact wp_postOpenError fun m₂ h₂ ha => absurd ha h₂

end

/-! ## Runs -/

section

variable {o : Options} {sys : Sys}

theorem aside_lock (fs : FS) (body : Bytes) : Aside fs (fs.set lockPath (.file body)) := by
  refine .of_ours fun p hp => OrdMap.get?_set_of_ne _ ?_
  rintro rfl
  rcases hp with hp | ⟨d, hd, name, he⟩
  · revert hp
    decide
  · have hlen := congrArg List.length he
    simp only [tierDirs, List.mem_cons, List.not_mem_nil, or_false] at hd
    rcases hd with rfl | rfl | rfl <;>
      simp [hotDir, coldDir, factsDir, storeDir, lockPath, joinPath] at hlen

/-- A program that keeps the files of a store with a manifest does so however it ends. -/
theorem tended_ofOutcome {x : Owner Unit} {m : Machine State Post} (hf : Founded m.disk)
    (hx : Keeps (fun m m' => Founded m.disk → Tended m.disk m'.disk) x) :
    Tended m.disk (Sys.ofOutcome (x m)).disk :=
  Sys.of_wp (P := fun sys => Tended m.disk sys.disk) (hx m) (fun _ h => h hf) (fun _ _ h => h hf)
    fun _ h => h hf

theorem tended_handle (msg : Message) :
    Keeps (fun m m' : Machine State Post => Founded m.disk → Tended m.disk m'.disk)
      (handle o msg) := by
  by_cases ho : ∃ l, msg = .open l
  · obtain ⟨l, rfl⟩ := ho
    exact tended_openStore l
  · exact (advances_handle (fun _ => 0) fun l hl => ho ⟨l, hl⟩).mono fun _ _ h _ =>
      (h fun _ => Nat.zero_le _).tended

theorem tended_step (h : Founded sys.disk) (act : Act) : Tended sys.disk (step o sys act).disk := by
  unfold step
  split
  · exact (aside_lock _ _).tended
  · exact tended_ofOutcome (m := sys.machine _) h (tended_openStore _)
  · exact tended_ofOutcome (m := sys.machine _) h (tended_handle _)
  · exact .refl _
  · exact .refl _

/-- **No run changes a file of the tiers** of a store that has a manifest. -/
theorem tended_run (h : Founded sys.disk) (acts : List Act) :
    Tended sys.disk (run o sys acts).disk := by
  induction acts generalizing sys with
  | nil => exact .refl _
  | cons act acts ih =>
    have hstep := tended_step (o := o) h act
    exact hstep.trans (ih (hstep.founded h))

/-- What the moves of an owner keep holds after every message. -/
theorem run_messages {P : State → FS → Prop}
    (hP : ∀ m m' : Machine State Post, Moves (markOf m.mem) m m' → P m.mem m.disk → P m'.mem m'.disk)
    {msgs : List Message} (hmsgs : ∀ l, Message.open l ∉ msgs)
    (h : ∀ s, sys.owner = some s → P s sys.disk) {s : State}
    (hs : (run o sys (msgs.map .send)).owner = some s) : P s (run o sys (msgs.map .send)).disk := by
  induction msgs generalizing sys with
  | nil => exact h s hs
  | cons msg msgs ih =>
    refine ih (fun l hl => hmsgs l (List.mem_cons_of_mem _ hl)) (fun s₁ hs₁ => ?_) hs
    cases hown : sys.owner with
    | none =>
      simp only [step, hown] at hs₁ ⊢
      cases hs₁
    | some s₀ =>
      have hstep : step o sys (.send msg) = sys.send o s₀ msg := by simp only [step, hown]
      rw [hstep] at hs₁ ⊢
      have hne : ∀ l, msg ≠ .open l := by
        rintro l rfl
        exact hmsgs l List.mem_cons_self
      have hkeeps : ∀ m', Advances (markOf s₀) (sys.machine s₀) m' → P m'.mem m'.disk := fun m' hm =>
        hP (sys.machine s₀) m' (hm fun _ => Nat.le_refl _) (h s₀ hown)
      revert s₁
      refine Sys.of_wp (P := fun sys' => ∀ s₁, sys'.owner = some s₁ → P s₁ sys'.disk)
        (advances_handle (markOf s₀) hne (sys.machine s₀)) (fun m' hm s₁ hs₁ => ?_)
        (fun e m' hm s₁ hs₁ => ?_) fun m' hm s₁ hs₁ => ?_
      · cases hs₁
        exact hkeeps m' hm
      · cases hs₁
        exact hkeeps m' hm
      · cases hs₁

end

/-! ## New numbers -/

/-- The kinds of `reserveGeneration(kind)`. -/
inductive GenerationKind where
  | hot
  | cold

namespace GenerationKind

/-- `reserveGeneration(kind)` -/
def reserve : GenerationKind → State → Except Failure (Nat × State)
  | hot => reserveHot
  | cold => reserveCold

/-- The directories of the files that a number of the kind is for. -/
def dirs : GenerationKind → List Path
  | hot => [hotDir, factsDir]
  | cold => [coldDir]

/-- The numbers of the kind that a manifest names. -/
def named : GenerationKind → Manifest → List Nat
  | hot => Manifest.hotNumbers
  | cold => Manifest.coldNumbers

def dir : GenerationKind → Path
  | hot => hotDir
  | cold => coldDir

/-- What an owner runs that takes a number of the kind first. -/
inductive Begins (o : Options) : GenerationKind → Owner Unit → Prop where
  | checkpoint (reason : Text) : Begins o hot (do let _ ← checkpointBody o reason)
  | generation (records : List Json) : Begins o cold (do let _ ← writeColdGeneration o records)

end GenerationKind

/-- The number that the owner `s` of `sys` takes next **is new**. -/
structure NewNumber (o : Options) (kind : GenerationKind) (sys : Sys) (s : State) (n : Nat) : Prop where
  /-- no name in the directories carries it, nor a higher one -/
  names : ∀ d ∈ kind.dirs, ∀ name node, sys.disk.get? (joinPath d name) = some node →
    ∀ k, generationOfName name = some k → k < n
  /-- the manifest names lower numbers only -/
  manifest : ∀ man : Manifest, sys.disk.get? manifestPath = some (.file man.bytes) →
    ∀ k ∈ kind.named man, k < n
  /-- the files that the next message makes have this number or a higher one -/
  made : ∀ msg, (∀ l, msg ≠ .open l) → ∀ d ∈ kind.dirs, ∀ name node,
    sys.disk.get? (joinPath d name) = none →
    (sys.send o s msg).disk.get? (joinPath d name) = some node →
    ∀ k, generationOfName name = some k → n ≤ k
  /-- however the program ends that takes it, the owner takes higher numbers from then on -/
  once : ∀ x, kind.Begins o x → ∀ msgs : List Message, (∀ l, .open l ∉ msgs) → ∀ s' n' t,
    (run o (.ofOutcome (x (sys.machine s))) (msgs.map .send)).owner = some s' →
    kind.reserve s' = .ok (n', t) → n < n'

/-- The owner of the system takes new numbers, whatever it is sent. -/
def NewNumbers (o : Options) (sys : Sys) : Prop :=
  ∀ msgs : List Message, (∀ l, .open l ∉ msgs) → ∀ s kind n t,
    (run o sys (msgs.map .send)).owner = some s → kind.reserve s = .ok (n, t) →
    NewNumber o kind (run o sys (msgs.map .send)) s n

section

variable {o : Options} {sys : Sys} {s t : State} {kind : GenerationKind} {n : Nat} {d : Path}

theorem GenerationKind.reserve_ok (h : kind.reserve s = .ok (n, t)) : n = markOf s kind.dir + 1 := by
  cases kind with
  | hot => exact (reserveHot_ok h).1
  | cold => exact (reserveCold_ok h).1

theorem GenerationKind.tier (h : d ∈ kind.dirs) : d ∈ tierDirs ∧ ∀ s, markOf s d = markOf s kind.dir := by
  cases kind with
  | hot =>
    simp only [GenerationKind.dirs, List.mem_cons, List.not_mem_nil, or_false] at h
    rcases h with rfl | rfl <;> exact ⟨by simp [tierDirs], fun _ => rfl⟩
  | cold =>
    simp only [GenerationKind.dirs, List.mem_cons, List.not_mem_nil, or_false] at h
    rw [h]
    exact ⟨by simp [tierDirs], fun _ => rfl⟩

/-- The mark is raised by the program that takes a number, however it ends. -/
theorem GenerationKind.Begins.takes {x : Owner Unit} (hx : kind.Begins o x) (m : Machine State Post) :
    wp x ⟨fun _ m' => ∀ n t, kind.reserve m.mem = .ok (n, t) → n ≤ markOf m'.mem kind.dir,
      fun _ m' => ∀ n t, kind.reserve m.mem = .ok (n, t) → n ≤ markOf m'.mem kind.dir,
      fun _ => True⟩ m := by
  have hlow : ∀ d, (fun _ => 0) d ≤ markOf m.mem d := fun _ => Nat.zero_le _
  cases hx with
  | checkpoint reason =>
    rw [wp_bind]
    exact wp_mono (takes_checkpointBody reason hlow) (fun _ _ h => h.taken) (fun _ _ h => h.taken)
      fun _ _ => trivial
  | generation records =>
    rw [wp_bind]
    exact wp_mono (takes_writeColdGeneration (T := fun _ => True) (fun _ _ _ => id) (fun _ _ => id)
      records trivial hlow) (fun _ _ h => h.1.taken) (fun _ _ h => h.taken) fun _ _ => trivial

/-- **The next number is new** while the marks are above all that is in the directory. -/
theorem Spaced.newNumber (h : Spaced s sys.disk) (hn : kind.reserve s = .ok (n, t)) :
    NewNumber o kind sys s n where
  names d hd name node hnode k hk := by
    have hle := h.names d (GenerationKind.tier hd).1 name node hnode k hk
    rw [(GenerationKind.tier hd).2] at hle
    have := GenerationKind.reserve_ok hn
    omega
  manifest man hman k hk := by
    have hw := h.manifest man hman
    have hle : k ≤ markOf s kind.dir := by
      cases kind with
      | hot => exact hw.hot k hk
      | cold => exact hw.cold k hk
    have := GenerationKind.reserve_ok hn
    omega
  made msg hmsg d hd name node hnone hsome k hk := by
    have hnew : ∀ m', Advances (markOf s) (sys.machine s) m' →
        m'.disk.get? (joinPath d name) = some node → markOf s d < k := fun m' hm hs =>
      (hm fun _ => Nat.le_refl _).made d (GenerationKind.tier hd).1 name node hnone hs k hk
    have hmade := Sys.of_wp (P := fun sys' => sys'.disk.get? (joinPath d name) = some node →
        markOf s d < k) (advances_handle (o := o) (markOf s) hmsg (sys.machine s))
      (fun m' hm hs => hnew m' hm hs) (fun _ m' hm hs => hnew m' hm hs) fun m' hm hs => hnew m' hm hs
    have hlt := hmade hsome
    rw [(GenerationKind.tier hd).2] at hlt
    have := GenerationKind.reserve_ok hn
    omega
  once x hx msgs hmsgs s' n' t' hs' hn' := by
    have hbegin : ∀ s₁, (Sys.ofOutcome (x (sys.machine s))).owner = some s₁ →
        n ≤ markOf s₁ kind.dir := by
      refine Sys.of_wp (P := fun sys' => ∀ s₁, sys'.owner = some s₁ → n ≤ markOf s₁ kind.dir)
        (hx.takes (sys.machine s)) (fun m' hm s₁ hs₁ => ?_) (fun _ m' hm s₁ hs₁ => ?_)
        fun _ _ _ hs₁ => ?_
      · cases hs₁
        exact hm n t hn
      · cases hs₁
        exact hm n t hn
      · cases hs₁
    have hle := run_messages (P := fun s₁ _ => n ≤ markOf s₁ kind.dir)
      (fun _ _ hm hle => Nat.le_trans hle (hm.marks _)) hmsgs hbegin hs'
    have := GenerationKind.reserve_ok hn'
    omega

/-- An owner that is spaced takes new numbers. -/
theorem newNumbers_of_spaced (h : ∀ s, sys.owner = some s → Spaced s sys.disk) : NewNumbers o sys :=
  fun _ hmsgs _ _ _ _ hs hn =>
    (run_messages (P := Spaced) (fun _ _ hm => hm.spaced) hmsgs h hs).newNumber hn

/-- **An open that ends available**, on a disk that finds its files in directories. -/
theorem start_numbered (h : Openable sys.disk) {pid : Nat} {token : Text} {liveSids : List Text}
    (hs : (sys.start o pid token liveSids).owner = some s) (ha : s.state = .available) :
    Numbered s (sys.start o pid token liveSids).disk := by
  revert ha hs
  refine Sys.of_wp (P := fun sys' => sys'.owner = some s → s.state = .available →
    Numbered s sys'.disk) (wp_openStore_numbered (o := o) (m := sys.machine (.initial pid token liveSids))
      liveSids h rfl) (fun m' hm hs => ?_) (fun _ _ hf => hf.elim) fun _ _ hs => ?_
  · cases hs
    exact hm
  · cases hs

/-- **The numbers of generations are new.** An open of any directory that ends available gives an
owner that takes new numbers, and so does every later open that does, whatever happens in between.
From the first on, no file of a tier is ever changed or removed. -/
theorem numbers_are_new (htree : sys.disk.Tree) {pid : Nat} {token : Text} {liveSids : List Text}
    (hs : (sys.start o pid token liveSids).owner = some s) (ha : s.state = .available) :
    NewNumbers o (sys.start o pid token liveSids) ∧
    (∀ acts pid' token' liveSids' s',
      ((run o (sys.start o pid token liveSids) acts).start o pid' token' liveSids').owner = some s' →
      s'.state = .available →
      NewNumbers o ((run o (sys.start o pid token liveSids) acts).start o pid' token' liveSids')) ∧
    ∀ acts acts', TiersKept (run o (sys.start o pid token liveSids) acts).disk
      (run o (sys.start o pid token liveSids) (acts ++ acts')).disk := by
  have hfirst := start_numbered (.inl htree) hs ha
  have htended := fun acts => tended_run (o := o) hfirst.founded acts
  refine ⟨newNumbers_of_spaced fun s₁ hs₁ => ?_, fun acts pid' token' liveSids' s' hs' ha' =>
    newNumbers_of_spaced fun s₁ hs₁ => ?_, fun acts acts' => ?_⟩
  · rw [hs] at hs₁
    cases hs₁
    exact hfirst.toSpaced
  · rw [hs'] at hs₁
    cases hs₁
    exact (start_numbered (.inr ⟨(htended acts).founded hfirst.founded,
      (htended acts).housed hfirst.housed⟩) hs' ha').toSpaced
  · rw [run_append]
    exact (tended_run ((htended acts).founded hfirst.founded) acts').kept

end

/-! ## A number that is lost -/

/-- An environment in which the process dies in the operation `j`. -/
def crashAt (j : Nat) : Env :=
  ⟨fun n => if n = j then .crash 0 else .perform, fun tick => tick, fun _ => "r"⟩

/-- The owner of a store that it has created. -/
def firstOwner (o : Options) : Sys := (lockedDisk []).start o 7 "T" []

theorem lockedDisk_tree : (lockedDisk []).disk.Tree := by
  intro p name node h
  have hne : joinPath p name ≠ [] := by simp [joinPath]
  have hp : p = [] := by
    rw [lockedDisk, OrdMap.get?_setAll, OrdMap.get?_empty, Option.or_none] at h
    have hmem := List.mem_reverse.mp (mem_of_assoc h)
    simp only [List.append_nil, List.mem_cons, List.not_mem_nil, or_false, Prod.mk.injEq] at hmem
    rcases hmem with hmem | hmem
    · exact absurd hmem.1 hne
    · exact (tier_joinPath (d := []) hmem.1.symm).1.symm
  rw [hp]
  rfl

set_option maxRecDepth 100000 in
theorem numbers_are_new_created :
    NewNumbers (defaultOptions plainEnv) (firstOwner (defaultOptions plainEnv)) := by
  have hend : (firstOwner (defaultOptions plainEnv)).owner.map State.state = some .available := by
    decide +kernel
  obtain ⟨s, hs, ha⟩ := Option.map_eq_some_iff.mp hend
  exact (numbers_are_new lockedDisk_tree hs ha).1

/-- The number that the hot files of an owner have next, and the one that was taken last. -/
def hotNumbersOf (s : State) : Option Nat × Nat := ((reserveHot s).toOption.map Prod.fst, s.allocHot)

/-- The memory of the owner when it dies in the handling of a message. -/
def memoryAtCrash (o : Options) (sys : Sys) (msg : Message) : Option State :=
  sys.owner.bind fun s =>
    match handle o msg (sys.machine s) with
    | .crashed m => some m.mem
    | _ => none

set_option maxRecDepth 100000 in
/-- A number that was taken before a crash, with no file made under it, is taken by the next owner
again. -/
theorem lost_number_taken_again :
    let o := defaultOptions (crashAt 90)
    let sys := firstOwner o
    let second := run o sys [.send (.compact "q"), .lock 8 "U", .start 8 "U" []]
    sys.owner.map hotNumbersOf = some (some 2, 1) ∧
      (memoryAtCrash o sys (.compact "q")).map hotNumbersOf = some (some 3, 2) ∧
      second.owner.map hotNumbersOf = some (some 2, 1) ∧
      (step o second (.send (.compact "r"))).owner.map hotNumbersOf = some (some 3, 2) := by
  decide +kernel

end Telepty.Ledger
