import Telepty.Ledger.Checkpoint
import Telepty.Ledger.Recovery
import Telepty.Lock.Protocol

/-!
# Opening a store

What stands at the path of the store decides what an open does: a published store is recovered, a
fresh one is created, a legacy file is migrated, an interrupted creation or migration is resumed,
and everything ambiguous is refused with the store left alone.
-/

namespace Telepty.Ledger

open Infra Prog

def migratingPrefix : Text := "tracked-injections.json.migrating."

def asidePrefix : Text := "tracked-injections.json.pre-0.10."

def legacyFileName : Text := "tracked-injections.v3.json"

/-- The children of a staging directory, in the order they are moved; the manifest is the last. -/
def publicationChildren : List Text :=
  ["legacy", "cold", "hot", "facts", "segments", "MIGRATION.json", "MANIFEST.json"]

def childDirs : List Text := ["legacy", "cold", "hot", "facts", "segments"]

/-! ## The lock -/

/-- `lock.verify(lockPath, { pid, token })` -/
def verifyLock (fs : FS) (pid : Nat) (token : Text) : Bool :=
  match fs.readFile lockPath with
  | .ok b => Lock.verify (Lock.lockFromText b) pid token
  | .error _ => false

/-! ## Classification -/

inductive PathKind where
  | unavailableRead (reason : Text) (detail : Text)
  | precondition (detail : Text)
  | conflict (detail : Text)
  | published (manifest : Manifest)
  | resumeM7 (manifest : Manifest)
  | resumeM6b (staging : Path) (manifest : Manifest)
  | resumePublish (staging : Path) (manifest : Manifest)
  | fresh
  | migrate

def hashFile (o : Options) (fs : FS) (p : Path) : Except Failure Text :=
  (ioResult (fs.readFile p)).map o.digests.sha256

/-- `readJson(file)` or `null` -/
def jsonOrNone (fs : FS) (p : Path) : Option Json := (readJson fs p).toOption

def stagingOf (fs : FS) : List Text := (listDir fs parentPath).filter migratingPrefix.isPrefixOf

def asidesOf (fs : FS) : List Text := (listDir fs parentPath).filter asidePrefix.isPrefixOf

/-- A staging directory, the token in its name and its manifest. -/
structure Candidate where
  staging : Path
  tok : Text
  manifest : Manifest

def candidateOf (fs : FS) (n : Text) : Option (Candidate × Json) :=
  (jsonOrNone fs (joinPath (joinPath parentPath n) "MANIFEST.json")).map fun man =>
    (⟨joinPath parentPath n, n.drop migratingPrefix.length, Manifest.ofJson man⟩, man)

/-- The aside of a migration, checked against the capture hash. -/
def checkAside (o : Options) (fs : FS) (tok : Text) (legacy : Legacy) (missing : Text)
    (ok : PathKind) : Except Failure PathKind := do
  let aside := joinPath parentPath (asidePrefix ++ tok)
  if (fs.lstat aside).isNone then return .conflict missing
  else
    let h ← hashFile o fs aside
    if h ≠ legacy.sha256 then return .conflict "original_modified" else return ok

/-- A claimed directory without a manifest, when it is this owner's own interrupted fill. -/
def interruptedPublication (o : Options) (fs : FS) (staging : List Text) :
    Except Failure (Option PathKind) := do
  let present := listDir fs storeDir
  if present.all (· ∈ publicationChildren) = false then return none
  else
    let candidates := (staging.filterMap (candidateOf fs)).filter fun (c, man) =>
      man.isObject && Manifest.isFalse (man.field "published") && c.manifest.token = c.tok &&
        c.manifest.format = storeFormatVersion
    match candidates with
    | [] => return none
    | [(c, _)] =>
      if present.any fun n => (fs.lstat (joinPath c.staging n)).isSome then
        return some (.conflict "publication_overlap")
      else
        match c.manifest.legacy with
        | none => return some (.resumePublish c.staging c.manifest)
        | some legacy =>
          return some (← checkAside o fs c.tok legacy "aside_missing"
            (.resumePublish c.staging c.manifest))
    | _ => return some (.conflict "pending_identity_ambiguous")

def stepOf (fs : FS) (n : Text) : Option Text :=
  (jsonOrNone fs (joinPath (joinPath parentPath n) "MIGRATION.json")).map fun mig =>
    templateText (mig.field "step")

/-- The store path is a directory. -/
def classifyDirectory (o : Options) (fs : FS) (staging : List Text) : Except Failure PathKind := do
  match readJson fs manifestPath with
  | .error e =>
    let interrupted ← if e.code = "ENOENT" then interruptedPublication o fs staging else pure none
    return interrupted.getD (.unavailableRead "manifest_unreadable" e.code)
  | .ok j =>
    let m := Manifest.ofJson j
    if j.isObject = false ∨ m.format ≠ storeFormatVersion then
      return .unavailableRead "manifest_format" []
    else if m.published then return .published m
    else
      match m.legacy with
      | none => return .resumeM7 m
      | some legacy => checkAside o fs m.token legacy "unpublished_store_without_aside" (.resumeM7 m)

/-- Nothing stands at the store path, but a creation or a migration was begun. -/
def classifyPending (o : Options) (fs : FS) (staging : List Text) : Except Failure PathKind := do
  let candidates := (staging.filter fun n => stepOf fs n ∈ [some "5".toList, some "6a".toList]).filterMap
    fun n => (candidateOf fs n).bind fun (c, _) => c.manifest.legacy.map fun l => (c, l)
  match candidates with
  | [(c, legacy)] => checkAside o fs c.tok legacy "aside_missing" (.resumeM6b c.staging c.manifest)
  | _ => return .conflict "pending_identity_ambiguous"

def classifyPath (o : Options) (fs : FS) : Except Failure PathKind :=
  let staging := stagingOf fs
  let asides := asidesOf fs
  match fs.lstat storeDir with
  | some .dir => classifyDirectory o fs staging
  | none =>
    if staging = [] ∧ asides = [] then .ok .fresh else classifyPending o fs staging
  | some (.file _) =>
    if 2 ≤ staging.length then .ok (.precondition "abandoned_staging")
    else if staging.any fun n => stepOf fs n = some "6a".toList then
      .ok (.conflict "legacy_recreated")
    else .ok .migrate

/-! ## Creation and publication -/

def freshManifest (tok : Text) (legacy : Option Legacy) (cold : List ColdRef) : Manifest where
  format := storeFormatVersion
  epoch := 0
  seqCommitted := 0
  published := false
  token := tok
  checkpoint := .zero
  hotN := some 1
  receiptsN := some 1
  receiptsPrev := none
  cold := cold
  factsN := some 1
  legacy := legacy
  lastCheckpointN := none
  cleanClose := true

/-- A step for each element. -/
def each {α : Type} (f : α → Owner Unit) : List α → Owner Unit
  | [] => pure ()
  | x :: xs => do
    f x
    each f xs

def durablePublicationOrder (o : Options) (s : Path) : Owner Unit := do
  each (fun sub => do
    let fs ← disk
    if (fs.lstat (joinPath s sub)).isSome then fsyncDir o (joinPath s sub)) childDirs
  fsyncDir o s

/-- Claims the store path with an exclusive, non-recursive mkdir. -/
def claimStorePath (o : Options) : Owner Unit := do
  let _ ← sys o.env (.mkdir storeDir)
  fsyncDir o parentPath

def moveChild (o : Options) (s : Path) (name : Text) : Owner Unit := do
  let fs ← disk
  if (fs.lstat (joinPath s name)).isSome then do
    let _ ← sys o.env (.rename (joinPath s name) (joinPath storeDir name))

/-- Moves the children of a staging directory into the claimed directory. -/
def fillClaimedStore (o : Options) (s : Path) : Owner Unit := do
  each (moveChild o s) publicationChildren
  fsyncDir o storeDir
  catching (do let _ ← sys o.env (.rmdir s)) fun _ => pure ()
  fsyncDir o parentPath

def publishM7 (o : Options) (manifest : Manifest) : Owner Manifest := do
  let published := { manifest with published := true }
  writeAtomic o storeDir "MANIFEST.json" published.bytes
  fsyncDir o storeDir
  catching (do let _ ← sys o.env (.unlink (joinPath storeDir "MIGRATION.json"))) fun _ => pure ()
  return published

def occupiedCodes : List Text := ["ENOTDIR", "EEXIST", "ENOTEMPTY", "EISDIR"]

def migrationConflict (detail : Text) : Failure := ⟨"MIGRATION_CONFLICT", detail⟩

/-- The claim, with an occupied path as a conflict. -/
def claimOrConflict (o : Options) : Owner Unit :=
  catching (claimStorePath o) fun e =>
    raise (if e.code ∈ occupiedCodes then migrationConflict "legacy_recreated" else e)

def createFresh (o : Options) : Owner Manifest := do
  let tok ← random o.env
  let s := joinPath parentPath (migratingPrefix ++ tok)
  let _ ← sys o.env (.mkdirp parentPath)
  let _ ← sys o.env (.mkdir s)
  each (fun sub => do let _ ← sys o.env (.mkdirp (joinPath s sub))) childDirs
  writeFileDurable o (joinPath (joinPath s "hot") "1.jsonl") [] .w
  writeFileDurable o (joinPath (joinPath s "hot") "1.receipts.jsonl") [] .w
  writeFileDurable o (joinPath (joinPath s "facts") "1.jsonl") [] .w
  let manifest := freshManifest tok none []
  durablePublicationOrder o s
  writeAtomic o s "MANIFEST.json" manifest.bytes
  fsyncDir o s
  claimOrConflict o
  fillClaimedStore o s
  publishM7 o manifest

/-! ## Migration -/

/-- MIGRATION.json of a staging directory. -/
def migrationRecord (o : Options) (s : Path) (tok step : Text) : Owner Unit := do
  let ms ← now o.env
  writeAtomic o s "MIGRATION.json" (linesBytes
    [.obj [("tok", .str tok), ("step", .str step), ("at", .str (o.isoText ms))]])

def copyFileStreamed (o : Options) (src dst : Path) : Owner Text := do
  let fs ← disk
  let b ← ofExcept (ioResult (fs.readFile src))
  writeFileDurable o dst b .w
  return o.digests.sha256 b

/-- The copy, made once more when its hash is not the captured one. -/
def copyLegacy (o : Options) (src dst : Path) (h : Text) : Owner Text := do
  let first ← copyFileStreamed o src dst
  if first = h then return first
  else copyFileStreamed o src dst

/-- The legacy records as cold records; none is hot after an import. -/
def importedRecords (l : LegacyLedger) : List Json :=
  l.injections.map fun (id, rec) =>
    (rec.set "inject_id" (match orNull (rec.field "inject_id") with
      | .null => .str id
      | own => own)).set "materialized_through" Pos.zero.toJson

def importLegacyInto (o : Options) (s legacyCopy : Path) (tok : Text) :
    Owner (LegacyLedger × ColdFiles) := do
  let fs ← disk
  let copy ← ofExcept (ioResult (fs.readFile legacyCopy))
  let ledger ← ofExcept (match o.loadTrackedInjections copy with
    | .ok l => .ok l
    | .error e => .error ⟨"LEGACY_UNPARSEABLE", e.message⟩)
  each (fun sub => do let _ ← sys o.env (.mkdirp (joinPath s sub))) childDirs
  let files ← ofExcept (coldFilesFrom o.digests 1 0 (importedRecords ledger))
  let idIdx ← ofExcept (buildIndex files.ids)
  let sidIdx ← ofExcept (buildIndex files.sids)
  writeFileDurable o (joinPath (joinPath s "cold") "1.jsonl") files.lines .w
  writeFileDurable o (joinPath (joinPath s "cold") "1.id.idx") idIdx .w
  writeFileDurable o (joinPath (joinPath s "cold") "1.sid.idx") sidIdx .w
  writeFileDurable o (joinPath (joinPath s "hot") "1.jsonl")
    (linesBytes (ledger.actions.map actionLineJson ++ ledger.pending.map pendingLineJson)) .w
  writeFileDurable o (joinPath (joinPath s "hot") "1.receipts.jsonl") [] .w
  writeFileDurable o (joinPath (joinPath s "facts") "1.jsonl") [] .w
  migrationRecord o s tok "4"
  return (ledger, files)

def migrateFromFile (o : Options) : Owner Manifest := do
  let tok ← random o.env
  let s := joinPath parentPath (migratingPrefix ++ tok)
  let aside := joinPath parentPath (asidePrefix ++ tok)
  let _ ← sys o.env (.mkdir s)
  migrationRecord o s tok "1"
  let h1 ← ofExcept (hashFile o (← disk) storeDir)
  let b1 ← ofExcept (ioResult ((← disk).readFile storeDir))
  migrationRecord o s tok "2"
  let _ ← sys o.env (.mkdirp (joinPath s "legacy"))
  let legacyCopy := joinPath (joinPath s "legacy") legacyFileName
  let copied ← copyLegacy o storeDir legacyCopy h1
  if copied ≠ h1 then raise ⟨"COPY_MISMATCH", []⟩
  else do
    migrationRecord o s tok "3"
    let (ledger, files) ← importLegacyInto o s legacyCopy tok
    let manifest := freshManifest tok (some ⟨h1, b1.length, ledger.generation⟩)
      [⟨1, ledger.injections.length, files.lines.length⟩]
    durablePublicationOrder o s
    writeAtomic o s "MANIFEST.json" manifest.bytes
    fsyncDir o s
    migrationRecord o s tok "5"
    let h2 ← ofExcept (hashFile o (← disk) storeDir)
    if h2 ≠ h1 then raise (migrationConflict "legacy_modified")
    else do
      let _ ← sys o.env (.rename storeDir aside)
      fsyncDir o parentPath
      migrationRecord o s tok "6a"
      let h3 ← ofExcept (hashFile o (← disk) aside)
      if h3 ≠ h1 then raise (migrationConflict "original_modified_after_capture")
      else do
        claimOrConflict o
        fillClaimedStore o s
        let _ ← publishM7 o manifest
        -- the caller recovers from the manifest as it was before the publication
        return manifest

/-! ## Open -/

/-- How an error of the open is posted. -/
def postOpenError (e : Failure) : Owner Unit :=
  if e.code = "MIGRATION_CONFLICT" then postState .unavailable "migration_conflict" e.message
  else if e.code = "LEGACY_UNPARSEABLE" then
    postState .unavailableRead "observation_store_unavailable" e.message
  else if e.code = "COPY_MISMATCH" then postState .unavailable "migration_failed" "copy_mismatch"
  else if e.code = "DUP_CONFLICT" then
    postState .unavailableRead "duplicate_frame_conflict" e.message
  else if e.code = "CORRUPT" then postState .unavailableRead "corrupt_committed_frame" e.message
  else if e.code = "REPLAY_FAILED" then postState .unavailableRead "replay_failed" e.message
  else postState .unavailable "open_failed" e.code

/-- The manifest to recover from, or the state that was posted instead. -/
def openPath (o : Options) : PathKind → Owner (Option Manifest)
  | .unavailableRead reason detail => do
    postState .unavailableRead reason detail
    return none
  | .precondition detail => do
    postState .unavailable "migration_precondition" detail
    return none
  | .conflict detail => do
    postState .unavailable "migration_conflict" detail
    return none
  | .published m => return some m
  | .resumeM7 m => do return some (← publishM7 o m)
  | .resumeM6b staging m => do
    claimOrConflict o
    fillClaimedStore o staging
    return some (← publishM7 o m)
  | .resumePublish staging m => do
    fillClaimedStore o staging
    return some (← publishM7 o m)
  | .fresh => do return some (← createFresh o)
  | .migrate => do return some (← migrateFromFile o)

/-- The part of `open` under its `try`; whether the store was recovered. -/
def openBody (o : Options) : Owner Bool := do
  let s ← get
  let fs ← disk
  if verifyLock fs s.pid s.token = false then do
    postState .unavailable "lock_mismatch" []
    return false
  else do
    let kind ← ofExcept (classifyPath o fs)
    match ← openPath o kind with
    | none => return false
    | some manifest => do
      recover o manifest
      return true

def snapshotItems (s : State) : List Json :=
  s.hot.records.values.map (fun r => .obj [("kind", .str "record"), ("record", r)])
    ++ s.actions.values.map (fun a => .obj [("kind", .str "action"), ("action", a)])
    ++ s.pending.values.map (fun p => .obj [("kind", .str "pending"), ("pending", p)])

/-- `open({ live_sids })` -/
def openStore (o : Options) (liveSids : List Text) : Owner Unit := do
  modify fun s => { s with liveSids := s.liveSids ++ liveSids.filter (· ∉ s.liveSids) }
  postState .recovering [] []
  let recovered ← catching (openBody o) fun e => do
    postOpenError e
    return false
  if recovered then do
    postState .available [] []
    let s ← get
    post (.snapshotChunk (snapshotItems s))

end Telepty.Ledger
