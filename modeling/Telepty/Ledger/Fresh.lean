import Telepty.Ledger.Survival

/-!
# A fresh store

The directory that a creation publishes: empty tiers, empty files of checkpoint 1 and a manifest of
epoch 0. Its book is the empty one, so every run of a store may begin with it.
-/

namespace Telepty.Ledger

open Infra Prog

/-- The manifest that a creation publishes. -/
def publishedManifest (tok : Text) : Manifest := { freshManifest tok none [] with published := true }

/-- What a disk has after a creation. -/
structure FreshStore (fs : FS) (tok : Text) : Prop where
  layout : Layout fs
  segments : fs.get? segmentsDir = some .dir
  manifest : fs.get? manifestPath = some (.file (publishedManifest tok).bytes)
  hot : fs.get? (hotFile 1) = some (.file [])
  receipts : fs.get? (receiptsFile 1) = some (.file [])
  facts : fs.get? (factsFile 1) = some (.file [])
  noSegment : ∀ name, fs.get? (segmentFile name) = none

def freshSnap : Snap := ⟨1, none, [], [], [], [], [], [], []⟩

def freshBook (tok : Text) : Book :=
  ⟨publishedManifest tok, freshSnap, [], [], .empty, .empty, .empty⟩

section

variable {o : Options} {I : Regime} {fs : FS} {tok : Text}

/-- **A fresh store holds the empty book.** -/
theorem FreshStore.holds (h : FreshStore fs tok) : Holds o fs (freshBook tok) where
  layout := h.layout
  manifest := h.manifest
  format := rfl
  published := rfl
  counted :=
    { named := fun v hv k hk => by
        subst hk
        simp only [freshBook, publishedManifest, freshManifest, List.mem_cons, List.not_mem_nil,
          or_false, Option.some.injEq, reduceCtorEq, false_or] at hv
        have hk : k = 1 := by omega
        rw [hk]
        decide
      cold := fun c hc => by cases hc }
  checkpoint := le_refl 0
  files :=
    { hotN := rfl
      receiptsN := rfl
      factsN := rfl
      receiptsPrev := rfl
      pos := Nat.one_pos
      prevPos := fun p hp => by cases hp
      hot := h.hot
      receipts := h.receipts
      prevReceipts := fun p hp => by cases hp
      facts := h.facts
      sorted := .nil
      cold := ⟨[], .nil, rfl⟩
      ascending := .nil }
  shows :=
    { dir := h.segments
      file := fun v hv => by cases hv
      only := fun name node hn => by rw [h.noSegment] at hn; cases hn
      sorted := .nil
      ok := fun v hv => by cases hv }
  epochs v hv := by cases hv
  logOk := .empty
  logEpochs f hf := by cases hf
  spec := rfl
  recovered := rfl
  tier := ⟨fun _ => rfl, rfl, rfl, rfl⟩
  receipts e he := by cases he
  keyed := Core.keyed_empty
  baseFacts := rfl

/-- **A run may begin with a fresh store** that no owner has opened. -/
theorem FreshStore.sound {sys : Sys} (h : FreshStore sys.disk tok) (hdown : sys.owner = none)
    (hsent : sys.sent = []) (hI : I.core .empty) : sys.Sound o I (freshBook tok) := by
  unfold Sys.Sound
  rw [hdown]
  refine ⟨freshBook tok, fun s => ⟨.refl _, h.holds, fun _ => hI, (fun f hf => by cases hf), ?_⟩⟩
  intro x hx
  change x ∈ sys.sent at hx
  rw [hsent] at hx
  cases hx

end

/-! ## One fresh store -/

/-- The nodes of a fresh store that the daemon 7 has locked. -/
def freshDisk (tok : Text) : FS :=
  OrdMap.empty.setAll ([(parentPath, .dir), (lockPath, .file (Lock.lockBody 7 "T" "0")),
    (storeDir, .dir), (hotDir, .dir), (coldDir, .dir), (factsDir, .dir), (segmentsDir, .dir),
    (manifestPath, .file (publishedManifest tok).bytes), (hotFile 1, .file []),
    (receiptsFile 1, .file []), (factsFile 1, .file [])])

theorem freshDisk_fresh (tok : Text) : FreshStore (freshDisk tok) tok := by
  have hmem : ∀ p n, (freshDisk tok).get? p = some n → (p, n) ∈
      [(parentPath, Node.dir), (lockPath, .file (Lock.lockBody 7 "T" "0")), (storeDir, .dir),
        (hotDir, .dir), (coldDir, .dir), (factsDir, .dir), (segmentsDir, .dir),
        (manifestPath, .file (publishedManifest tok).bytes), (hotFile 1, .file []),
        (receiptsFile 1, .file []), (factsFile 1, .file [])] := by
    intro p n h
    rw [freshDisk, OrdMap.get?_setAll, OrdMap.get?_empty, Option.or_none] at h
    exact List.mem_reverse.mp (mem_of_assoc h)
  generalize (publishedManifest tok).bytes = bytes at hmem
  simp only [List.mem_cons, List.not_mem_nil, or_false, Prod.mk.injEq] at hmem
  exact {
    layout :=
      { root := rfl
        store := rfl
        tiers := fun d hd => by
          simp only [tierDirs, List.mem_cons, List.not_mem_nil, or_false] at hd
          rcases hd with rfl | rfl | rfl <;> rfl
        plain := fun name hd => by
          have h := hmem _ _ hd
          simp only [reduceCtorEq, and_false, and_true, or_false, false_or] at h
          rcases h with h | h | h | h | h | h <;>
            simp [joinPath, parentPath, storeDir, hotDir, coldDir, factsDir, segmentsDir, childDirs]
              at h ⊢ <;> simp [h]
        numbers := fun d hd name node hn n hg => by
          have hname : name = natText 1 ++ ".jsonl" ∨ name = natText 1 ++ ".receipts.jsonl" := by
            rcases hmem _ _ hn with h | h | h | h | h | h | h | h | h | h | h
            case inr.inr.inr.inr.inr.inr.inr.inr.inl => exact .inl (tier_joinPath h.1).2
            case inr.inr.inr.inr.inr.inr.inr.inr.inr.inl => exact .inr (tier_joinPath h.1).2
            case inr.inr.inr.inr.inr.inr.inr.inr.inr.inr => exact .inl (tier_joinPath h.1).2
            all_goals
              have hlen := congrArg List.length h.1
              simp only [tierDirs, List.mem_cons, List.not_mem_nil, or_false] at hd
              rcases hd with rfl | rfl | rfl <;> simp [joinPath, parentPath, lockPath, storeDir,
                hotDir, coldDir, factsDir, segmentsDir, manifestPath] at hlen
          rcases hname with rfl | rfl
          · rw [show (natText 1 ++ ".jsonl" : Text) = natText 1 ++ '.' :: "jsonl" from rfl,
              generationOfName_natText] at hg
            cases hg
            decide
          · rw [show (natText 1 ++ ".receipts.jsonl" : Text) = natText 1 ++ '.' :: "receipts.jsonl"
              from rfl, generationOfName_natText] at hg
            cases hg
            decide }
    segments := rfl
    manifest := rfl
    hot := rfl
    receipts := rfl
    facts := rfl
    noSegment := fun name => by
      cases hn : (freshDisk tok).get? (segmentFile name) with
      | none => rfl
      | some node =>
        have h := hmem _ _ hn
        simp [segmentFile, joinPath, parentPath, lockPath, storeDir, hotDir, coldDir, factsDir,
          segmentsDir, manifestPath, hotFile, receiptsFile, factsFile] at h }

end Telepty.Ledger
