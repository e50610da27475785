import Telepty.Infra.FileTree
import Telepty.Ledger.Core
import Telepty.Ledger.Open

/-!
# What the owner's operations leave alone

The owner's programs are made of operations on files, of changes of the memory and of posts. A
relation between machines that these respect is respected by the program: that a part of the memory
stays as it is, that the disk stays a tree, that only segments are written. Which operations on files
a program makes, and which parts of the memory it changes, is said once for each program here.

A part of the memory is given by a reading `φ` of it. The operations on files change nothing in the
memory, and those that note what they wrote change only that.
-/

namespace Telepty.Ledger

open Infra Prog

/-! ## Relations that programs respect -/

/-- The operations on files that `ok` allows, the changes of the memory that `φ` does not see and
the posts stay within `R`. -/
structure Respects {τ : Type} (o : Options) (ok : FileOp → Prop) (φ : State → τ)
    (R : Machine State Post → Machine State Post → Prop) : Prop where
  refl : ∀ m, R m m
  trans : ∀ a b c, R a b → R b c → R a c
  file : ∀ op, ok op → Keeps R (sys o.env op)
  mem : ∀ m s, φ s = φ m.mem → R m { m with mem := s }
  sent : ∀ m l, R m { m with sent := l }

/-- What a reading of the memory sees stays as it is. -/
theorem respects_fixes {τ : Type} (o : Options) (ok : FileOp → Prop) (φ : State → τ) :
    Respects o ok φ fun m m' => φ m'.mem = φ m.mem :=
  ⟨fun _ => rfl, fun _ _ _ h h' => h'.trans h, fun op _ => Fixes.sys op, fun _ _ h => h,
    fun _ _ => rfl⟩

/-- A relation of disks. -/
theorem respects_disk {D : FS → FS → Prop} {o : Options} {ok : FileOp → Prop}
    (hrefl : ∀ fs, D fs fs) (htrans : ∀ a b c, D a b → D b c → D a c)
    (hrun : ∀ op fs fs', ok op → op.run fs = .ok fs' → D fs fs')
    (hcut : ∀ op fs kept, ok op → D fs (op.cut fs kept)) :
    Respects o ok (fun _ => ()) fun m m' => D m.disk m'.disk :=
  ⟨fun _ => hrefl _, fun _ _ _ => htrans _ _ _, fun op ho =>
    Keeps.sys hrefl (fun fs fs' => hrun op fs fs' ho) fun fs kept => hcut op fs kept ho,
    fun _ _ _ => hrefl _, fun _ _ => hrefl _⟩

/-- The disk stays a tree. -/
theorem respects_tree (o : Options) :
    Respects o FileOp.Tame (fun _ => ()) fun m m' => m.disk.Tree → m'.disk.Tree :=
  respects_disk (D := fun fs fs' => fs.Tree → fs'.Tree) (fun _ => id) (fun _ _ _ h h' => h' ∘ h)
    (fun _ _ _ ho hr h => FileOp.tree_run ho h hr) fun _ _ kept _ h => FileOp.tree_cut h kept

namespace Respects

variable {τ : Type} {o : Options} {ok : FileOp → Prop} {φ : State → τ}
  {R : Machine State Post → Machine State Post → Prop} {α β : Type} {x : Owner α}

theorem bind (hR : Respects o ok φ R) {f : α → Owner β} (hx : Keeps R x)
    (hf : ∀ a, Keeps R (f a)) : Keeps R (x >>= f) := Keeps.bind hR.trans hx hf

theorem catching (hR : Respects o ok φ R) {h : Failure → Owner α} (hx : Keeps R x)
    (hh : ∀ e, Keeps R (h e)) : Keeps R (x.catching h) := Keeps.catching hR.trans hx hh

theorem finallyDo (hR : Respects o ok φ R) {y : Owner Unit} (hx : Keeps R x) (hy : Keeps R y) :
    Keeps R (x.finallyDo y) := Keeps.finallyDo hR.refl hR.trans hx hy

theorem pure (hR : Respects o ok φ R) (a : α) : Keeps R (Pure.pure a : Owner α) :=
  fun m => hR.refl m

theorem raise (hR : Respects o ok φ R) (e : Failure) : Keeps R (Prog.raise e : Owner α) :=
  fun m => hR.refl m

theorem get (hR : Respects o ok φ R) : Keeps R (Prog.get : Owner State) := fun m => hR.refl m

theorem disk (hR : Respects o ok φ R) : Keeps R (Prog.disk : Owner FS) := fun m => hR.refl m

theorem now (hR : Respects o ok φ R) : Keeps R (Prog.now o.env : Owner Nat) := fun m => hR.refl m

theorem random (hR : Respects o ok φ R) : Keeps R (Prog.random o.env : Owner Text) :=
  fun m => hR.refl m

theorem ofExcept (hR : Respects o ok φ R) (r : Except Failure α) :
    Keeps R (Prog.ofExcept r : Owner α) := Keeps.ofExcept hR.refl r

theorem modify (hR : Respects o ok φ R) {g : State → State} (h : ∀ s, φ (g s) = φ s) :
    Keeps R (Prog.modify g : Owner Unit) := fun m => hR.mem m _ (h m.mem)

theorem post (hR : Respects o ok φ R) (p : Post) : Keeps R (Prog.post p : Owner Unit) :=
  fun m => hR.sent m _

/-- An operation whose count is not looked at. -/
theorem sys (hR : Respects o ok φ R) {op : FileOp} (ho : ok op) :
    Keeps R (do let _ ← Prog.sys o.env op : Owner Unit) :=
  hR.bind (hR.file op ho) fun _ => hR.pure _

theorem each (hR : Respects o ok φ R) {f : α → Owner Unit} :
    ∀ l : List α, (∀ a ∈ l, Keeps R (f a)) → Keeps R (each f l)
  | [], _ => hR.pure _
  | a :: l, h => hR.bind (h a List.mem_cons_self) fun _ =>
      each hR l fun b hb => h b (List.mem_cons_of_mem _ hb)

theorem postAll (hR : Respects o ok φ R) : ∀ l : List Post, Keeps R (postAll l)
  | [] => hR.pure _
  | p :: l => hR.bind (hR.post p) fun _ => postAll hR l

/-- A walk over lines. -/
theorem stepAll (hR : Respects o ok φ R) {step : α → State → Except Failure State}
    (h : ∀ a s s', step a s = .ok s' → φ s' = φ s) : ∀ l : List α, Keeps R (stepAll step l)
  | [] => hR.pure _
  | a :: l => by
    intro m
    rw [Ledger.stepAll, wp_bind, wp_get]
    cases hs : step a m.mem with
    | ok s =>
      have hg := hR.mem m s (h a m.mem s hs)
      simp only [hs, wp_bind, wp_modify]
      exact wp_mono (stepAll hR h l { m with mem := s }) (fun _ _ h' => hR.trans _ _ _ hg h')
        (fun _ _ h' => hR.trans _ _ _ hg h') fun _ h' => hR.trans _ _ _ hg h'
    | error e =>
      simp only [hs, wp_raise]
      exact hR.refl m

/-! ## Writing files -/

theorem fsyncDir (hR : Respects o ok φ R) {p : Path} (hopen : ok (.open .r p)) (hsync : ok (.fsync p))
    (hclose : ok (.close p)) : Keeps R (fsyncDir o p) := by
  refine hR.bind (hR.file _ hopen) fun _ => hR.finallyDo
    (hR.catching (hR.sys hsync) fun e => ?_) (hR.catching (hR.sys hclose) fun _ => hR.pure _)
  split
  · exact hR.pure _
  · exact hR.raise _

theorem writeFileDurable (hR : Respects o FileOp.Tame φ R) (file : Path) (buf : Bytes) (flag : FS.OpenFlag) :
    Keeps R (writeFileDurable o file buf flag) :=
  hR.bind (hR.file _ trivial) fun _ =>
    hR.finallyDo (hR.bind (hR.file _ trivial) fun _ => hR.sys trivial) (hR.sys trivial)

theorem writeAtomic (hR : Respects o FileOp.Tame φ R) (dir : Path) (name : Text) (buf : Bytes) :
    Keeps R (writeAtomic o dir name buf) :=
  hR.bind hR.get fun _ => hR.bind hR.now fun _ => hR.bind (hR.writeFileDurable _ _ _) fun _ =>
    hR.bind (hR.file _ (FileOp.tame_rename (by simp [joinPath]))) fun _ => hR.fsyncDir trivial trivial trivial

/-- For what does not look at the state of the store. -/
theorem postState (hR : Respects o ok φ R)
    (h : ∀ s x y, φ { s with state := x, reason := y } = φ s) (store : StoreState)
    (reason detail : Text) : Keeps R (postState store reason detail) :=
  hR.bind (hR.modify fun s => h s _ _) fun _ => hR.bind hR.get fun _ => hR.post _

/-- For what does not look at the manifest. -/
theorem writeManifest (hR : Respects o FileOp.Tame φ R) (h : ∀ s x, φ { s with manifest := x } = φ s)
    (clean : Bool) (n : Option Nat) : Keeps R (writeManifest o clean n) :=
  hR.bind hR.get fun _ => hR.bind hR.random fun _ => hR.bind (hR.writeAtomic _ _ _) fun _ =>
    hR.modify fun s => h s _

/-! ## Creation and migration -/

theorem publishM7 (hR : Respects o FileOp.Tame φ R) (manifest : Manifest) : Keeps R (publishM7 o manifest) :=
  hR.bind (hR.writeAtomic _ _ _) fun _ => hR.bind (hR.fsyncDir trivial trivial trivial) fun _ =>
    hR.bind (hR.catching (hR.sys trivial) fun _ => hR.pure _) fun _ => hR.pure _

theorem claimOrConflict (hR : Respects o FileOp.Tame φ R) : Keeps R (claimOrConflict o) :=
  hR.catching (hR.bind (hR.file _ trivial) fun _ => hR.fsyncDir trivial trivial trivial) fun _ => hR.raise _

theorem moveChild (hR : Respects o FileOp.Tame φ R) (s : Path) {name : Text} (hn : name ∈ publicationChildren) :
    Keeps R (moveChild o s name) := by
  have htame : (FileOp.rename (joinPath s name) (joinPath storeDir name)).Tame := by
    cases s with
    | nil =>
      refine .inr fun hp => ?_
      have he := (List.cons_prefix_cons.mp hp).1
      rw [he] at hn
      revert hn
      decide
    | cons a s => exact FileOp.tame_rename (by simp [joinPath, storeDir])
  refine hR.bind hR.disk fun _ => ?_
  split
  · exact hR.sys htame
  · exact hR.pure _

theorem fillClaimedStore (hR : Respects o FileOp.Tame φ R) (s : Path) : Keeps R (fillClaimedStore o s) :=
  hR.bind (hR.each _ fun _ => hR.moveChild s) fun _ => hR.bind (hR.fsyncDir trivial trivial trivial) fun _ =>
    hR.bind (hR.catching (hR.sys trivial) fun _ => hR.pure _) fun _ => hR.fsyncDir trivial trivial trivial

theorem durablePublicationOrder (hR : Respects o FileOp.Tame φ R) (s : Path) :
    Keeps R (durablePublicationOrder o s) := by
  refine hR.bind (hR.each _ fun sub _ => hR.bind hR.disk fun _ => ?_) fun _ => hR.fsyncDir trivial trivial trivial
  split
  · exact hR.fsyncDir trivial trivial trivial
  · exact hR.pure _

theorem mkdirs (hR : Respects o FileOp.Tame φ R) (s : Path) :
    Keeps R (Ledger.each (fun sub => do let _ ← Prog.sys o.env (.mkdirp (joinPath s sub)))
      childDirs) :=
  hR.each _ fun _ _ => hR.sys trivial

theorem createFresh (hR : Respects o FileOp.Tame φ R) : Keeps R (createFresh o) :=
  hR.bind hR.random fun _ => hR.bind (hR.file _ trivial) fun _ => hR.bind (hR.file _ trivial) fun _ =>
    hR.bind (hR.mkdirs _) fun _ => hR.bind (hR.writeFileDurable _ _ _) fun _ =>
      hR.bind (hR.writeFileDurable _ _ _) fun _ => hR.bind (hR.writeFileDurable _ _ _) fun _ =>
        hR.bind (hR.durablePublicationOrder _) fun _ => hR.bind (hR.writeAtomic _ _ _) fun _ =>
          hR.bind (hR.fsyncDir trivial trivial trivial) fun _ => hR.bind hR.claimOrConflict fun _ =>
            hR.bind (hR.fillClaimedStore _) fun _ => hR.publishM7 _

theorem migrationRecord (hR : Respects o FileOp.Tame φ R) (s : Path) (tok step : Text) :
    Keeps R (migrationRecord o s tok step) :=
  hR.bind hR.now fun _ => hR.writeAtomic _ _ _

theorem copyFileStreamed (hR : Respects o FileOp.Tame φ R) (src dst : Path) :
    Keeps R (copyFileStreamed o src dst) :=
  hR.bind hR.disk fun _ => hR.bind (hR.ofExcept _) fun _ =>
    hR.bind (hR.writeFileDurable _ _ _) fun _ => hR.pure _

theorem copyLegacy (hR : Respects o FileOp.Tame φ R) (src dst : Path) (h : Text) :
    Keeps R (copyLegacy o src dst h) := by
  refine hR.bind (hR.copyFileStreamed _ _) fun first => ?_
  split
  · exact hR.pure _
  · exact hR.copyFileStreamed _ _

theorem importLegacyInto (hR : Respects o FileOp.Tame φ R) (s legacyCopy : Path) (tok : Text) :
    Keeps R (importLegacyInto o s legacyCopy tok) :=
  hR.bind hR.disk fun _ => hR.bind (hR.ofExcept _) fun _ => hR.bind (hR.ofExcept _) fun _ =>
    hR.bind (hR.mkdirs _) fun _ => hR.bind (hR.ofExcept _) fun _ => hR.bind (hR.ofExcept _) fun _ =>
      hR.bind (hR.ofExcept _) fun _ => hR.bind (hR.writeFileDurable _ _ _) fun _ =>
        hR.bind (hR.writeFileDurable _ _ _) fun _ => hR.bind (hR.writeFileDurable _ _ _) fun _ =>
          hR.bind (hR.writeFileDurable _ _ _) fun _ => hR.bind (hR.writeFileDurable _ _ _) fun _ =>
            hR.bind (hR.writeFileDurable _ _ _) fun _ => hR.bind (hR.migrationRecord _ _ _) fun _ =>
              hR.pure _

theorem migrateFromFile (hR : Respects o FileOp.Tame φ R) : Keeps R (migrateFromFile o) := by
  refine hR.bind hR.random fun tok => hR.bind (hR.file _ trivial) fun _ =>
    hR.bind (hR.migrationRecord _ _ _) fun _ => hR.bind hR.disk fun _ =>
      hR.bind (hR.ofExcept _) fun h1 => hR.bind hR.disk fun _ => hR.bind (hR.ofExcept _) fun b1 =>
        hR.bind (hR.migrationRecord _ _ _) fun _ => hR.bind (hR.file _ trivial) fun _ =>
          hR.bind (hR.copyLegacy _ _ _) fun copied => ?_
  split
  · exact hR.raise _
  · refine hR.bind (hR.migrationRecord _ _ _) fun _ =>
      hR.bind (hR.importLegacyInto _ _ _) fun imported =>
        hR.bind (hR.durablePublicationOrder _) fun _ => hR.bind (hR.writeAtomic _ _ _) fun _ =>
          hR.bind (hR.fsyncDir trivial trivial trivial) fun _ => hR.bind (hR.migrationRecord _ _ _) fun _ =>
            hR.bind hR.disk fun _ => hR.bind (hR.ofExcept _) fun h2 => ?_
    split
    · exact hR.raise _
    · refine hR.bind (hR.file _ (FileOp.tame_rename (Nat.le_refl _))) fun _ =>
        hR.bind (hR.fsyncDir trivial trivial trivial) fun _ => hR.bind (hR.migrationRecord _ _ _) fun _ =>
          hR.bind hR.disk fun _ => hR.bind (hR.ofExcept _) fun h3 => ?_
      split
      · exact hR.raise _
      · exact hR.bind hR.claimOrConflict fun _ => hR.bind (hR.fillClaimedStore _) fun _ =>
          hR.bind (hR.publishM7 _) fun _ => hR.pure _

/-- What the path of the store calls for; for what does not look at the state of the store. -/
theorem openPath (hR : Respects o FileOp.Tame φ R)
    (h : ∀ s x y, φ { s with state := x, reason := y } = φ s) (kind : PathKind) :
    Keeps R (openPath o kind) := by
  have hpost := hR.postState h
  cases kind with
  | unavailableRead reason detail => exact hR.bind (hpost _ _ _) fun _ => hR.pure _
  | precondition detail => exact hR.bind (hpost _ _ _) fun _ => hR.pure _
  | conflict detail => exact hR.bind (hpost _ _ _) fun _ => hR.pure _
  | published m => exact hR.pure _
  | resumeM7 m => exact hR.bind (hR.publishM7 _) fun _ => hR.pure _
  | resumeM6b staging m =>
    exact hR.bind hR.claimOrConflict fun _ => hR.bind (hR.fillClaimedStore _) fun _ =>
      hR.bind (hR.publishM7 _) fun _ => hR.pure _
  | resumePublish staging m =>
    exact hR.bind (hR.fillClaimedStore _) fun _ => hR.bind (hR.publishM7 _) fun _ => hR.pure _
  | fresh => exact hR.bind hR.createFresh fun _ => hR.pure _
  | migrate => exact hR.bind hR.migrateFromFile fun _ => hR.pure _


/-! ## Segments -/

/-- An operation that changes nothing but segments. -/
def OnSegments : FileOp → Prop
  | .open .r _ | .fsync _ | .close _ => True
  | .open .a p | .write p _ => ∃ name, p = segmentFile name
  | _ => False

/-- For what does not look at the segments. -/
theorem openSegment (hR : Respects o OnSegments φ R)
    (h : ∀ s x y, φ { s with seg := x, segments := y } = φ s) (epoch n : Nat) :
    Keeps R (openSegment o epoch n) :=
  hR.bind (hR.file _ ⟨_, rfl⟩) fun _ => hR.bind (hR.modify fun s => h s _ _) fun _ =>
    hR.fsyncDir trivial trivial trivial

theorem closeSegment (hR : Respects o OnSegments φ R)
    (h : ∀ s x y, φ { s with seg := x, segments := y } = φ s) : Keeps R (closeSegment o) := by
  refine hR.bind hR.get fun s => ?_
  split
  · exact hR.pure _
  · exact hR.bind (hR.catching (hR.sys trivial) fun _ => hR.pure _) fun _ =>
      hR.modify fun s => h s none _

theorem rollSegment (hR : Respects o OnSegments φ R)
    (h : ∀ s x y, φ { s with seg := x, segments := y } = φ s) : Keeps R (rollSegment o) :=
  hR.bind (hR.closeSegment h) fun _ => hR.bind hR.get fun _ => hR.openSegment h _ _

theorem copyLast (hR : Respects o OnSegments φ R)
    (h : ∀ s x y, φ { s with seg := x, segments := y } = φ s) (name : Text) :
    ∀ last : Option Bytes, Keeps R (copyLast o name last)
  | none => hR.pure _
  | some _ => hR.bind (hR.file _ ⟨_, rfl⟩) fun _ => hR.bind (hR.file _ trivial) fun _ =>
      hR.modify fun s => h s _ s.segments

theorem tryWrite (hR : Respects o OnSegments φ R)
    (h : ∀ s x y, φ { s with seg := x, segments := y } = φ s) (bytes : Bytes) :
    Keeps R (tryWrite o bytes) := by
  refine hR.bind (hR.bind hR.get fun s => ?_) fun _ => hR.bind hR.get fun s => ?_
  · split
    · exact hR.openSegment h _ _
    · exact hR.pure _
  · split
    · exact hR.pure _
    · exact hR.bind (hR.file _ ⟨_, rfl⟩) fun _ => hR.bind (hR.file _ trivial) fun _ =>
        hR.modify fun s => h s _ s.segments

theorem writeGroup (hR : Respects o OnSegments φ R)
    (h : ∀ s x y, φ { s with seg := x, segments := y } = φ s) (bytes : Bytes) :
    Keeps R (writeGroup o bytes) :=
  hR.catching (hR.bind (hR.tryWrite h bytes) fun _ => hR.pure _) fun _ =>
    hR.catching (hR.bind (hR.rollSegment h) fun _ => hR.bind (hR.tryWrite h bytes) fun _ =>
      hR.pure _) fun _ => hR.pure _

end Respects

/-- Nothing but segments changed. -/
def OnlySegments (fs fs' : FS) : Prop :=
  ∀ p, (∀ name, p ≠ segmentFile name) → fs'.get? p = fs.get? p

section

variable {op : FileOp} {fs fs' : FS}

theorem onlySegments_set (fs : FS) (name : Text) (n : Node) :
    OnlySegments fs (fs.set (segmentFile name) n) := fun _ hp => OrdMap.get?_set_of_ne _ (hp _)

theorem onlySegments_append (fs : FS) (name : Text) (b : Bytes) :
    OnlySegments fs (fs.append (segmentFile name) b) := fun _ hp => FS.append_get?_of_ne (hp _)

theorem onlySegments_run (ho : Respects.OnSegments op) (hr : op.run fs = .ok fs') :
    OnlySegments fs fs' := by
  cases op with
  | «open» flag p =>
    cases flag with
    | r => rw [FS.openFile_r hr]; exact fun _ _ => rfl
    | a =>
      obtain ⟨name, rfl⟩ := ho
      rcases FS.openFile_a hr with ⟨_, -, rfl⟩ | ⟨-, rfl⟩
      · exact fun _ _ => rfl
      · exact onlySegments_set fs name _
    | w => cases ho
    | wx => cases ho
  | write p b =>
    obtain ⟨name, rfl⟩ := ho
    cases hr
    exact onlySegments_append fs name b
  | fsync p => cases hr; exact fun _ _ => rfl
  | close p => cases hr; exact fun _ _ => rfl
  | _ => cases ho

theorem onlySegments_cut {kept : Nat} (ho : Respects.OnSegments op) :
    OnlySegments fs (op.cut fs kept) := by
  cases op with
  | write p b =>
    obtain ⟨name, rfl⟩ := ho
    exact onlySegments_append fs name _
  | _ => exact fun _ _ => rfl

end

theorem respects_onlySegments (o : Options) :
    Respects o Respects.OnSegments (fun _ => ()) fun m m' => OnlySegments m.disk m'.disk :=
  respects_disk (fun _ _ _ => rfl) (fun _ _ _ h h' p hp => (h' p hp).trans (h p hp))
    (fun _ _ _ => onlySegments_run) fun _ _ _ => onlySegments_cut

/-! ## Opens that fail -/

section

variable {m : Machine State Post}

/-- An open that is answered with an error does not serve. -/
theorem wp_postOpenError {e : Failure} {Q : Ensures State Post Unit}
    (hd : ∀ m', m'.mem.state ≠ .available → Q.done () m') : wp (postOpenError e) Q m := by
  have hpost : ∀ (store : StoreState) (reason detail : Text), store ≠ .available →
      wp (postState store reason detail) Q m := by
    intro store reason detail hs
    unfold postState
    simp only [wp_bind, wp_modify, wp_get, wp_post]
    exact hd _ hs
  unfold postOpenError
  repeat' split
  all_goals exact hpost _ _ _ (by decide)

end

/-! ## Recovery -/

/-- What neither the lines of a checkpoint nor the frames of a log say. -/
def bookkeeping (s : State) :
    Option Group × Option Manifest × List Nat × List ColdMeta × Nat × Nat × Nat :=
  (s.group, s.manifest, s.receiptCkpts, s.cold, s.checkpointN, s.allocHot, s.allocCold)

section

variable {s s' : State} {text : Text}

theorem bookkeeping_hotLine (h : hotLine text s = .ok s') : bookkeeping s' = bookkeeping s := by
  unfold hotLine at h
  dsimp only at h
  repeat' split at h
  all_goals first
    | cases h; rfl
    | cases h

theorem bookkeeping_receiptLine {n : Nat} (h : receiptLine n text s = .ok s') :
    bookkeeping s' = bookkeeping s := by
  unfold receiptLine at h
  dsimp only at h
  split at h
  · cases h
  · cases h; rfl

theorem bookkeeping_factLine (h : factLine text s = .ok s') : bookkeeping s' = bookkeeping s := by
  unfold factLine at h
  split at h
  · cases h
  · cases h; rfl

theorem bookkeeping_applyFrame {f : Frame} {e : List Effect}
    (h : applyFrame replayCtx f s = .ok (s', e)) : bookkeeping s' = bookkeeping s :=
  CtxKeeps.applyFrame (C := replayCtx) (R := fun s s' : State => bookkeeping s' = bookkeeping s)
    ⟨fun _ => rfl, fun _ _ _ h h' => h'.trans h, fun _ _ _ => rfl, fun _ _ => rfl⟩
    (fun _ _ _ => rfl) h

theorem bookkeeping_replayFrame {manifest : Manifest} {fr : DecodedFrame}
    (h : replayFrame manifest fr s = .ok s') : bookkeeping s' = bookkeeping s := by
  unfold replayFrame at h
  dsimp only at h
  split at h
  · repeat' split at h
    all_goals first
      | cases h; rfl
      | cases h
  split at h
  · cases h; rfl
  split at h
  · cases h
  · next s₁ e hs =>
    have hb : bookkeeping s₁ = bookkeeping s := bookkeeping_applyFrame hs
    cases h
    exact hb

theorem bookkeeping_noteUnapplied (segment : Text) (g : Grouped) (tail : Option Tail) (s : State) :
    bookkeeping (noteUnapplied segment g tail s) = bookkeeping s := by
  unfold noteUnapplied
  split <;> rfl

end

namespace Respects

variable {τ : Type} {o : Options} {ok : FileOp → Prop} {φ : State → τ}
  {R : Machine State Post → Machine State Post → Prop}

theorem loadHot (hR : Respects o ok φ R) (hφ : ∀ s s', bookkeeping s' = bookkeeping s → φ s' = φ s)
    (n : Nat) : Keeps R (loadHot n) := by
  refine hR.bind hR.disk fun fs => ?_
  split
  · exact hR.bind (hR.ofExcept _) fun _ =>
      hR.stepAll (fun _ _ _ h => hφ _ _ (bookkeeping_hotLine h)) _
  · exact hR.pure _

theorem loadFacts (hR : Respects o ok φ R)
    (hφ : ∀ s s', bookkeeping s' = bookkeeping s → φ s' = φ s) (n : Nat) : Keeps R (loadFacts n) := by
  refine hR.bind hR.disk fun fs => ?_
  split
  · exact hR.bind (hR.ofExcept _) fun _ =>
      hR.stepAll (fun _ _ _ h => hφ _ _ (bookkeeping_factLine h)) _
  · exact hR.pure _

theorem loadReceipts (hR : Respects o ok φ R)
    (hφ : ∀ s s', bookkeeping s' = bookkeeping s → φ s' = φ s) {n : Nat}
    (hn : Keeps R (Prog.modify fun s => { s with receiptCkpts := s.receiptCkpts ++ [n] } : Owner Unit)) :
    Keeps R (loadReceipts n) := by
  refine hR.bind hR.disk fun fs => ?_
  split
  · exact hR.bind (hR.ofExcept _) fun _ =>
      hR.bind (hR.stepAll (fun _ _ _ h => hφ _ _ (bookkeeping_receiptLine h)) _) fun _ => hn
  · exact hR.pure _

/-- The loading of a checkpoint; `hn` is about the receipts files that the manifest names. -/
theorem loadCheckpoint (hR : Respects o ok φ R) {manifest : Manifest}
    (hφ : ∀ s s', bookkeeping s' = bookkeeping s → φ s' = φ s)
    (hn : ∀ n, some n ∈ [manifest.receiptsN, manifest.receiptsPrev] →
      Keeps R (Prog.modify fun s => { s with receiptCkpts := s.receiptCkpts ++ [n] } : Owner Unit))
    (hcheckpoint : ∀ s x, φ { s with checkpointN := x } = φ s)
    (hcold : ∀ s x, φ { s with cold := x } = φ s) : Keeps R (loadCheckpoint o manifest) := by
  have hr : ∀ v : Option Nat, v ∈ [manifest.receiptsN, manifest.receiptsPrev] →
      Keeps R ((truthy v).elim (Pure.pure ()) Ledger.loadReceipts) := by
    intro v hv
    cases ht : truthy v with
    | none => exact hR.pure _
    | some n =>
      have hvn : v = some n := by
        unfold truthy at ht
        split at ht
        · cases ht
        · exact ht
      exact hR.loadReceipts hφ (hn n (hvn ▸ hv))
  exact hR.bind (hR.loadHot hφ _) fun _ => hR.bind (hr _ (by simp)) fun _ =>
    hR.bind (hr _ (by simp)) fun _ => hR.bind (hR.modify fun s => hcheckpoint s _) fun _ =>
      hR.bind (hR.loadFacts hφ _) fun _ => hR.bind (hR.modify fun s => hφ _ _ rfl) fun _ =>
        hR.bind hR.disk fun _ => hR.bind (hR.ofExcept _) fun _ => hR.modify fun s => hcold s _

theorem replaySegment (hR : Respects o ok φ R)
    (hφ : ∀ s s', bookkeeping s' = bookkeeping s → φ s' = φ s) (manifest : Manifest)
    (f : SegmentRef) : Keeps R (replaySegment o manifest f) := by
  refine hR.bind hR.disk fun _ => hR.bind (hR.ofExcept _) fun _ => ?_
  dsimp only
  split
  · exact hR.raise _
  · exact hR.bind (hR.stepAll (fun _ _ _ h => hφ _ _ (bookkeeping_replayFrame h)) _) fun _ =>
      hR.bind (hR.modify fun _ => hφ _ _ (bookkeeping_noteUnapplied _ _ _ _)) fun _ => hR.pure _

theorem replaySegments (hR : Respects o ok φ R)
    (hφ : ∀ s s', bookkeeping s' = bookkeeping s → φ s' = φ s) (manifest : Manifest) :
    ∀ (files : List SegmentRef) (last : Option Bytes), Keeps R (replaySegments o manifest files last)
  | [], _ => hR.pure _
  | f :: files, _ => hR.bind (hR.replaySegment hφ manifest f) fun _ =>
      replaySegments hR hφ manifest files _

end Respects

end Telepty.Ledger
