import Telepty.Ledger.Durable

/-!
# What the owner's writes do to the book

A segment is opened, a group is appended to the last segment, whole or cut off, and a manifest is
published. For each of them the book that the disk holds afterwards is named; between the operations
of a write the disk holds the book from before or the book from after.
-/

namespace Telepty.Ledger

open Infra Prog

/-! ## Opening a segment -/

def emptySegment (e n : Nat) : SegView := ⟨e, n, [], [], []⟩

/-- The segments after the one of epoch `e` and number `n` was opened: it was the last one already,
or it is new and comes last. -/
inductive OpenedAs (segs : List SegView) (e n : Nat) : List SegView → Prop where
  | last {init : List SegView} {v : SegView} (hs : segs = init ++ [v]) (he : v.epoch = e)
      (hn : v.n = n) : OpenedAs segs e n segs
  | new (hb : ∀ v ∈ segs, v.Before (emptySegment e n)) : OpenedAs segs e n (segs ++ [emptySegment e n])

/-- The segment that is open is the last one. -/
theorem OpenedAs.last_eq {segs segs' : List SegView} {e n : Nat} (h : OpenedAs segs e n segs') :
    ∃ init v, segs' = init ++ [v] ∧ v.epoch = e ∧ v.n = n := by
  cases h with
  | last hs he hn => exact ⟨_, _, hs, he, hn⟩
  | new hb => exact ⟨segs, _, rfl, rfl, rfl⟩

/-- A new segment holds no frames. -/
theorem OpenedAs.allFrames {segs segs' : List SegView} {e n : Nat} (h : OpenedAs segs e n segs') :
    allFrames segs' = allFrames segs := by
  cases h with
  | last => rfl
  | new hb => simp [Ledger.allFrames, SegView.frames, emptySegment]

namespace Holds

variable {o : Options} {fs fs' : FS} {b : Book} {e n : Nat}

/-- The same log in other segments. -/
theorem resegment (h : Holds o fs b) {segs : List SegView} (hk : Keeping fs fs')
    (hs : Shows o.digests fs' segs) (hf : allFrames segs = allFrames b.segs)
    (he : ∀ v ∈ segs, v.epoch ≤ b.man.epoch ∨ v.epoch = b.man.epoch + 1 ∧ v.n = 1) :
    Holds o fs' { b with segs := segs } :=
  { h with
    layout := hk.layout h.layout
    manifest := hk.kept _ _ ours_manifest h.manifest
    files := filesKept h.files hk.kept
    shows := hs
    epochs := he
    logOk := hf ▸ h.logOk }

theorem openSegment (h : Holds o fs b)
    (hat : (∃ init v, b.segs = init ++ [v] ∧ v.epoch = e ∧ v.n = n) ∨
      ∀ v ∈ b.segs, v.Before (emptySegment e n))
    (he : e ≤ b.man.epoch ∨ e = b.man.epoch + 1 ∧ n = 1)
    (ho : fs.openFile .a (segmentFile (segmentName e n)) = .ok fs') :
    ∃ segs, OpenedAs b.segs e n segs ∧ Holds o fs' { b with segs := segs } := by
  rcases hat with ⟨init, v, hsegs, hve, hvn⟩ | hnew
  · have hfile := h.shows.file v (by rw [hsegs]; simp)
    rw [SegView.name, hve, hvn] at hfile
    rcases FS.openFile_a ho with ⟨-, -, rfl⟩ | ⟨hnone, -⟩
    · exact ⟨b.segs, .last hsegs hve hvn, h⟩
    · rw [hfile] at hnone
      cases hnone
  · rcases FS.openFile_a ho with ⟨buf, hsome, -⟩ | ⟨-, rfl⟩
    · obtain ⟨v, hv, hname⟩ := h.shows.only _ _ hsome
      have hb := hnew v hv
      obtain ⟨h1, h2⟩ := segmentName_injective hname
      simp only [SegView.Before, emptySegment] at hb
      omega
    · have hopened : OpenedAs b.segs e n (b.segs ++ [emptySegment e n]) := .new hnew
      refine ⟨_, hopened, h.resegment (.of_segment (segmentName e n) fun q hq =>
        OrdMap.get?_set_of_ne _ hq) (h.shows.create hnew) hopened.allFrames ?_⟩
      intro v hv
      rcases List.mem_append.mp hv with hv | hv
      · exact h.epochs v hv
      · rw [List.mem_singleton.mp hv]
        exact he

/-- The file of a segment can be opened. -/
theorem canOpen (h : Holds o fs b) (name : Text) :
    ∃ fs', fs.openFile .a (segmentFile name) = .ok fs' := by
  unfold FS.openFile
  cases hp : fs.get? (segmentFile name) with
  | none =>
    have hparent : fs.parentDir (segmentFile name) = .ok () := by
      unfold FS.parentDir
      rw [segmentFile, joinPath, List.dropLast_concat, h.shows.dir]
    simp [hparent, Except.map]
  | some node =>
    obtain ⟨v, hv, rfl⟩ := h.shows.only _ _ hp
    rw [h.shows.file v hv] at hp
    cases hp
    exact ⟨fs, rfl⟩

end Holds

/-- The memory after a segment was opened. -/
def withSegment (e n : Nat) (s : State) : State :=
  { s with
    seg := some ⟨segmentName e n, 0, e, n⟩
    segments := s.segments ++ [⟨segmentName e n, e, n, false, 0⟩] }

/-- **Opening a segment**: it is the last one of the book afterwards. -/
theorem wp_openSegment {o : Options} {m : Machine State Post} {b : Book} {e n : Nat}
    {Q : Ensures State Post Unit} (hs : o.env.NoShort) (h : Holds o m.disk b)
    (hat : (∃ init v, b.segs = init ++ [v] ∧ v.epoch = e ∧ v.n = n) ∨
      ∀ v ∈ b.segs, v.Before (emptySegment e n))
    (he : e ≤ b.man.epoch ∨ e = b.man.epoch + 1 ∧ n = 1)
    (hd : ∀ m' segs, m'.mem = withSegment e n m.mem → m'.sent = m.sent → OpenedAs b.segs e n segs →
      Holds o m'.disk { b with segs := segs } → Q.done () m')
    (hr : ∀ err m', ¬ o.env.Calm → m'.sent = m.sent →
      (m'.mem = m.mem ∧ Holds o m'.disk b ∨ m'.mem = withSegment e n m.mem ∧
        ∃ segs, OpenedAs b.segs e n segs ∧ Holds o m'.disk { b with segs := segs }) → Q.raised err m')
    (hc : ∀ m', m'.sent = m.sent → (Holds o m'.disk b ∨
      ∃ segs, OpenedAs b.segs e n segs ∧ Holds o m'.disk { b with segs := segs }) → Q.crashed m') :
    wp (openSegment o e n) Q m := by
  unfold openSegment
  simp only [wp_bind, wp_modify]
  refine wp_sys hs ?_ ?_ ?_ ?_
  · intro fs hrun
    obtain ⟨segs, hopened, hh⟩ := h.openSegment hat he hrun
    refine wp_fsyncDir hs ?_ ?_ ?_
    · intro m' hq
      exact hd m' segs hq.mem hq.sent hopened (by rw [hq.disk]; exact hh)
    · intro err m' hq hx
      refine hr err m' (fun hcalm => ?_) hq.sent (.inr ⟨hq.mem, segs, hopened, by
        rw [hq.disk]; exact hh⟩)
      have hnone : fs.get? segmentsDir = none := hx hcalm
      rw [hh.shows.dir] at hnone
      cases hnone
    · intro m' hq
      exact hc m' hq.sent (.inr ⟨segs, hopened, by rw [hq.disk]; exact hh⟩)
  · intro hn err kept
    exact hr _ _ hn rfl (.inl ⟨rfl, h⟩)
  · intro err hrun
    exfalso
    obtain ⟨fs, hok⟩ := h.canOpen (segmentName e n)
    change m.disk.openFile .a _ = _ at hrun
    rw [hok] at hrun
    cases hrun
  · intro kept
    exact hc _ rfl (.inl h)

/-! ## Appending a group -/

/-- What the log becomes when `added` is appended to it on the disk. -/
structure Book.Grows (b : Book) (added log : List Frame) (whole part : Core) : Prop where
  logOk : LogOk (allFrames b.segs ++ added) log
  epochs : ∀ f ∈ log, f.epoch ≤ b.man.epoch
  keeps : ∀ f ∈ b.log, f ∈ log
  spec : Core.Steps log b.base whole
  recovered : Core.Steps (log.filter (isAfter b.man.checkpoint)) b.snap.core part
  tier : Tier part whole (coldAll b.snap.gens)

namespace Holds

variable {o : Options} {fs fs' : FS} {b : Book} {added : List Frame}

/-- Frames that are in the log already add nothing to it. -/
theorem growsCopy (h : Holds o fs b) (hf : ∀ f ∈ added, f ∈ b.log) :
    b.Grows added b.log b.spec b.recovered :=
  ⟨h.logOk.copy hf, h.logEpochs, fun _ hf => hf, h.spec, h.recovered, h.tier⟩

/-- **New frames make the log longer**: what applies to the memory that a recovery would come to
applies to the whole, when no frame begins an id that the whole has. -/
theorem growsNew (h : Holds o fs b) {c : Core}
    (hpos : (b.log ++ added).Pairwise fun a b => comparePos a.pos b.pos < 0)
    (htxns : ((b.log ++ added).map Frame.txn).Nodup)
    (hplain : ∀ f ∈ added, f.txn ≠ [] ∧ ':' ∉ f.txn) (hsound : ∀ f ∈ added, f.Sound)
    (hafter : ∀ f ∈ added, isAfter b.man.checkpoint f) (he : ∀ f ∈ added, f.epoch ≤ b.man.epoch)
    (hc : Core.Steps added b.recovered c)
    (hfresh : ∀ f ∈ added, ∀ id, f.begins = some id → b.spec.records id = none) :
    ∃ spec, Core.Steps added b.spec spec ∧ b.Grows added (b.log ++ added) spec c := by
  have hcold : ∀ f ∈ added, ∀ id, f.begins = some id → coldAll b.snap.gens id = none := by
    intro f hf id hb
    have hnone := hfresh f hf id hb
    rw [h.tier.records] at hnone
    exact (Option.or_eq_none_iff.mp hnone).2
  obtain ⟨spec, hspec, htier⟩ := h.tier.steps hcold hc
  refine ⟨spec, hspec, h.logOk.extend hpos htxns hplain hsound, ?_, ?_, ?_, ?_, htier⟩
  · intro f hf
    rcases List.mem_append.mp hf with hf | hf
    · exact h.logEpochs f hf
    · exact he f hf
  · exact fun f hf => List.mem_append_left _ hf
  · exact Core.steps_append.mpr ⟨b.spec, h.spec, hspec⟩
  · rw [List.filter_append, List.filter_eq_self.mpr hafter]
    exact Core.steps_append.mpr ⟨b.recovered, h.recovered, hc⟩

theorem allFrames_add (init : List SegView) (v : SegView) (g : LogGroup) :
    allFrames (init ++ [v.add g]) = allFrames (init ++ [v]) ++ g.frames := by
  simp [allFrames, SegView.frames, SegView.add]

theorem epochs_last (h : Holds o fs b) {init : List SegView} {v w : SegView}
    (hsegs : b.segs = init ++ [v]) (he : w.epoch = v.epoch) (hn : w.n = v.n) :
    ∀ u ∈ init ++ [w], u.epoch ≤ b.man.epoch ∨ u.epoch = b.man.epoch + 1 ∧ u.n = 1 := by
  intro u hu
  rcases List.mem_append.mp hu with hu | hu
  · exact h.epochs u (by rw [hsegs]; exact List.mem_append_left _ hu)
  · rw [List.mem_singleton.mp hu, he, hn]
    exact h.epochs v (by rw [hsegs]; simp)

/-- **A group appended to the last segment**: the log has grown. -/
theorem writeAll (h : Holds o fs b) {init : List SegView} {v : SegView} {g : LogGroup}
    {log : List Frame} {whole part : Core} (hsegs : b.segs = init ++ [v]) (hg : g.Ok)
    (hgrow : b.Grows g.frames log whole part) {buf : Bytes}
    (hbytes : (v.add g).bytes o.digests = v.bytes o.digests ++ buf) :
    Holds o (fs.append (segmentFile v.name) buf)
      { b with segs := init ++ [v.add g], log := log, spec := whole, recovered := part } := by
  have hk : Keeping fs (fs.append (segmentFile v.name) buf) :=
    .of_segment v.name fun q hq => FS.append_get?_of_ne hq
  have hshows := h.shows
  rw [hsegs] at hshows
  refine { h with
    layout := hk.layout h.layout
    manifest := hk.kept _ _ ours_manifest h.manifest
    files := filesKept h.files hk.kept
    shows := hshows.write rfl rfl hbytes (SegView.ok_add (hshows.ok v (by simp)) hg)
    epochs := h.epochs_last hsegs rfl rfl
    logOk := ?_
    logEpochs := hgrow.epochs
    spec := hgrow.spec
    recovered := hgrow.recovered
    tier := hgrow.tier
    receipts := fun e he => (h.receipts e he).mono hgrow.keeps }
  rw [allFrames_add, ← hsegs]
  exact hgrow.logOk

/-- **A group appended to the last segment up to any byte**: it is there whole and the log has
grown, or it is cut off and the log is as it was. -/
theorem writeCut (h : Holds o fs b) {init : List SegView} {v : SegView} {g : LogGroup}
    {log : List Frame} {whole part : Core} (hsegs : b.segs = init ++ [v]) (hv : v.Clean)
    (hg : g.Ok) (hgrow : b.Grows g.frames log whole part) (k : Nat) :
    Holds o (fs.append (segmentFile v.name) ((encodeFrames o.digests g.objs).take k))
        { b with segs := init ++ [v.add g], log := log, spec := whole, recovered := part } ∨
      ∃ w : SegView, w.epoch = v.epoch ∧ w.n = v.n ∧ w.groups = v.groups ∧
        Holds o (fs.append (segmentFile v.name) ((encodeFrames o.digests g.objs).take k))
          { b with segs := init ++ [w] } := by
  have hshows := h.shows
  rw [hsegs] at hshows
  obtain ⟨w, hw, hok, hbytes⟩ :=
    SegView.write_cut (D := o.digests) (hshows.ok v (by simp)) hv hg k
  rcases hw with rfl | ⟨j, rest, rfl⟩
  · exact .inl (h.writeAll hsegs hg hgrow hbytes)
  · have hw := hshows.write (w := v.tear (g.frames.take j) rest) rfl rfl hbytes hok
    refine .inr ⟨v.tear (g.frames.take j) rest, rfl, rfl, rfl,
      h.resegment (.of_segment v.name fun q hq => FS.append_get?_of_ne hq) hw ?_
        (h.epochs_last hsegs rfl rfl)⟩
    rw [hsegs]
    simp [allFrames, SegView.frames, SegView.tear]

end Holds

/-! ## Publishing a manifest -/

/-- What a new manifest names over a book. -/
structure Book.Publishes (o : Options) (fs : FS) (b : Book) (man : Manifest) (snap : Snap)
    (part : Core) : Prop where
  format : man.format = storeFormatVersion
  published : man.published = true
  counted : man.Counted
  checkpoint : man.checkpoint.epoch ≤ man.epoch
  files : snap.Files o.digests fs man
  epoch : man.epoch = b.man.epoch ∨ man.epoch = b.man.epoch + 1
  recovered : Core.Steps (b.log.filter (isAfter man.checkpoint)) snap.core part
  tier : Tier part b.spec (coldAll snap.gens)
  receipts : ∀ e ∈ snap.receipts ++ snap.prevReceipts, ReceiptOf b.log e.1 e.2

/-- The book under a new manifest. -/
def Book.publish (b : Book) (man : Manifest) (snap : Snap) (recovered : Core) : Book :=
  { b with man := man, snap := snap, recovered := recovered }

theorem tmpPath_ne_manifest (pid ms : Nat) :
    tmpPath storeDir "MANIFEST.json" pid ms ≠ manifestPath := fun h =>
  tmpName_ne _ pid ms (tier_joinPath h).2

/-- `fs'` has all that a store keeps in `fs`, the manifest apart. -/
def Republished (fs fs' : FS) : Prop :=
  ∀ p n, Ours p → p ≠ manifestPath → fs.get? p = some n → fs'.get? p = some n

/-- The files of a checkpoint stay under another manifest that names them. -/
theorem filesRepublished {D : Digests} {fs fs' : FS} {x : Snap} {man man' : Manifest}
    (hf : x.Files D fs man) (hk : Republished fs fs') (h1 : man'.hotN = man.hotN)
    (h2 : man'.receiptsN = man.receiptsN) (h3 : man'.factsN = man.factsN)
    (h4 : man'.receiptsPrev = man.receiptsPrev) (h5 : man'.cold = man.cold) : x.Files D fs' man' := by
  have htier : ∀ d ∈ tierDirs, ∀ name, joinPath d name ≠ manifestPath := fun d hd name =>
    tier_ne_store hd name "MANIFEST.json"
  have hhot : ∀ name n, fs.get? (joinPath hotDir name) = some n →
      fs'.get? (joinPath hotDir name) = some n := fun name n =>
    hk _ _ (ours_hot name) (htier _ (by simp [tierDirs]) name)
  have hfacts : ∀ name n, fs.get? (joinPath factsDir name) = some n →
      fs'.get? (joinPath factsDir name) = some n := fun name n =>
    hk _ _ (ours_facts name) (htier _ (by simp [tierDirs]) name)
  have hcolds : ∀ name n, fs.get? (joinPath coldDir name) = some n →
      fs'.get? (joinPath coldDir name) = some n := fun name n =>
    hk _ _ (ours_cold name) (htier _ (by simp [tierDirs]) name)
  have hcold : ∃ metas, List.Forall₂ (Stored D fs') metas x.gens ∧ man'.cold = metas.map refOf := by
    obtain ⟨metas, hall, hrefs⟩ := hf.cold
    refine ⟨metas, hall.imp fun c g hc => hc.congr ?_, h5.trans hrefs⟩
    rintro p buf hp (rfl | rfl | rfl)
    · exact hcolds _ _ hp
    · exact hcolds _ _ hp
    · exact hcolds _ _ hp
  exact { hf with
    hotN := h1.trans hf.hotN
    receiptsN := h2.trans hf.receiptsN
    factsN := h3.trans hf.factsN
    receiptsPrev := h4.trans hf.receiptsPrev
    hot := hhot _ _ hf.hot
    receipts := hhot _ _ hf.receipts
    prevReceipts := fun p hp => hhot _ _ (hf.prevReceipts p hp)
    facts := hfacts _ _ hf.facts
    cold := hcold }

theorem Holds.publish {o : Options} {fs fs' : FS} {b : Book} {man : Manifest} {snap : Snap}
    {recovered : Core} {pid ms : Nat} (h : Holds o fs b)
    (hp : b.Publishes o fs man snap recovered)
    (hother : ∀ q, q ≠ tmpPath storeDir "MANIFEST.json" pid ms → q ≠ manifestPath →
      fs'.get? q = fs.get? q)
    (hman : fs'.get? manifestPath = some (.file man.bytes))
    (htmp : fs'.get? (tmpPath storeDir "MANIFEST.json" pid ms) ≠ some .dir) :
    Holds o fs' (b.publish man snap recovered) := by
  -- with the old manifest in place the two disks would be apart
  have hback : ∀ q, q ≠ tmpPath storeDir "MANIFEST.json" pid ms →
      (fs'.set manifestPath (.file b.man.bytes)).get? q = fs.get? q := by
    intro q hq
    by_cases hm : q = manifestPath
    · rw [hm, OrdMap.get?_set_self, h.manifest]
    · rw [OrdMap.get?_set_of_ne _ hm, hother q hq hm]
  have hapart : Apart fs (fs'.set manifestPath (.file b.man.bytes)) := by
    refine .of_tmp hback ?_ (tmpPath_ne_manifest pid ms)
    rw [OrdMap.get?_set_of_ne _ (tmpPath_ne_manifest pid ms)]
    exact htmp
  have hget : ∀ q, q ≠ manifestPath →
      fs'.get? q = (fs'.set manifestPath (.file b.man.bytes)).get? q := fun q hq =>
    (OrdMap.get?_set_of_ne _ hq).symm
  have htier : ∀ d ∈ tierDirs, ∀ name, joinPath d name ≠ manifestPath := fun d hd name =>
    tier_ne_store hd name "MANIFEST.json"
  have hseg : ∀ name, segmentFile name ≠ manifestPath := fun name => by
    simp [segmentFile, segmentsDir, manifestPath, storeDir, joinPath]
  have hl := hapart.layout h.layout
  have hdirs : ∀ d ∈ [parentPath, storeDir, segmentsDir] ++ tierDirs, d ≠ manifestPath := by decide
  have hkeep : ∀ p n, Ours p → p ≠ manifestPath → fs.get? p = some n → fs'.get? p = some n := by
    intro p n hp hne hn
    rw [hget p hne]
    exact hapart.kept p n hp hn
  exact {
    layout := {
      root := by rw [hget _ (hdirs _ (by simp))]; exact hl.root
      store := by rw [hget _ (hdirs _ (by simp))]; exact hl.store
      tiers := fun d hd => by rw [hget _ (hdirs _ (List.mem_append_right _ hd))]; exact hl.tiers d hd
      plain := fun name hd => by
        by_cases hm : joinPath storeDir name = manifestPath
        · rw [hm, hman] at hd
          cases hd
        · rw [hget _ hm] at hd
          exact hl.plain name hd
      numbers := fun d hd name node hn => by
        rw [hget _ (htier d hd name)] at hn
        exact hl.numbers d hd name node hn }
    manifest := hman
    format := hp.format
    published := hp.published
    counted := hp.counted
    checkpoint := hp.checkpoint
    files := filesRepublished hp.files hkeep rfl rfl rfl rfl rfl
    shows := by
      refine h.shows.congr ?_ fun name => ?_
      · rw [h.shows.dir]
        exact hkeep _ _ ours_segments (hdirs _ (by simp)) h.shows.dir
      · rw [hget _ (hseg name)]
        exact hapart.segments name
    epochs := fun v hv => by
      have hve := h.epochs v hv
      rcases hp.epoch with he | he <;> simp only [Book.publish, he] <;> omega
    logOk := h.logOk
    logEpochs := fun f hf => by
      have hfe := h.logEpochs f hf
      rcases hp.epoch with he | he <;> simp only [Book.publish, he] <;> omega
    spec := h.spec
    recovered := hp.recovered
    tier := hp.tier
    receipts := hp.receipts
    keyed := h.keyed
    baseFacts := h.baseFacts }

/-- **Publishing the manifest that the memory describes**: the disk holds the old book or the new
one, and the new one at the end. -/
theorem wp_writeManifest {o : Options} {m : Machine State Post} {b : Book} {clean : Bool}
    {last : Option Nat} {Q : Ensures State Post Unit} (snap : Snap) (recovered : Core)
    (hs : o.env.NoShort) (h : Holds o m.disk b)
    (hp : ∀ tok, b.Publishes o m.disk (manifestOf m.mem tok clean last) snap recovered)
    (hd : ∀ tok m', m'.mem = { m.mem with manifest := some (manifestOf m.mem tok clean last) } →
      m'.sent = m.sent → Republished m.disk m'.disk →
      Holds o m'.disk (b.publish (manifestOf m.mem tok clean last) snap recovered) → Q.done () m')
    (hr : ∀ tok e m', ¬ o.env.Calm → SameMind m m' → Republished m.disk m'.disk → (Holds o m'.disk b ∨
      Holds o m'.disk (b.publish (manifestOf m.mem tok clean last) snap recovered)) → Q.raised e m')
    (hc : ∀ tok m', m'.sent = m.sent → (Holds o m'.disk b ∨
      Holds o m'.disk (b.publish (manifestOf m.mem tok clean last) snap recovered)) →
      Q.crashed m') :
    wp (writeManifest o clean last) Q m := by
  unfold writeManifest
  simp only [wp_bind, wp_get, wp_random, wp_modify]
  generalize o.env.random m.tick = tok
  have htmp : ∀ ms, m.disk.get? (tmpPath storeDir "MANIFEST.json" m.mem.pid ms) ≠ some .dir := by
    intro ms hdir
    have hm := h.layout.plain _ hdir
    have hlast : (tmpName "MANIFEST.json" m.mem.pid ms).getLast? = some 'p' := by
      rw [tmpName, List.getLast?_append]
      rfl
    simp only [childDirs, List.mem_cons, List.not_mem_nil, or_false] at hm
    rcases hm with hm | hm | hm | hm | hm <;> rw [hm] at hlast <;> exact absurd hlast (by decide)
  have hkept : ∀ {ms : Nat} {fs' : FS},
      (∀ q, q ≠ tmpPath storeDir "MANIFEST.json" m.mem.pid ms → q ≠ manifestPath →
        fs'.get? q = m.disk.get? q) → Republished m.disk fs' := by
    intro ms fs' hother p n hp hne hn
    rw [hother p (ours_ne_tmp (tmpPath_ne_manifest _ _) hp) hne, hn]
  have hold : ∀ {ms : Nat} {fs' : FS},
      (∀ q, q ≠ tmpPath storeDir "MANIFEST.json" m.mem.pid ms → q ≠ manifestPath →
        fs'.get? q = m.disk.get? q) →
      fs'.get? manifestPath = m.disk.get? manifestPath →
      fs'.get? (tmpPath storeDir "MANIFEST.json" m.mem.pid ms) ≠ some .dir → Holds o fs' b := by
    intro ms fs' hother hman htmp'
    refine h.apart (.of_tmp (fun q hq => ?_) htmp' (tmpPath_ne_manifest _ _))
    by_cases hm : q = manifestPath
    · rw [hm, hman]
    · exact hother q hq hm
  have hends : ∀ {ms : Nat} {fs' : FS},
      (∀ q, q ≠ tmpPath storeDir "MANIFEST.json" m.mem.pid ms → q ≠ manifestPath →
        fs'.get? q = m.disk.get? q) →
      (fs'.get? manifestPath = m.disk.get? manifestPath ∨
        fs'.get? manifestPath = some (.file (manifestOf m.mem tok clean last).bytes)) →
      fs'.get? (tmpPath storeDir "MANIFEST.json" m.mem.pid ms) ≠ some .dir →
      Holds o fs' b ∨ Holds o fs' (b.publish (manifestOf m.mem tok clean last) snap recovered) := by
    intro ms fs' hother hman htmp'
    rcases hman with hman | hman
    · exact .inl (hold hother hman htmp')
    · exact .inr (h.publish (hp tok) hother hman htmp')
  refine wp_writeAtomic hs h.layout.store ?_ htmp ?_ ?_ ?_
  · change m.disk.get? manifestPath ≠ _
    rw [h.manifest]
    exact nofun
  · intro ms m' hsm hother hman htmp'
    refine hd tok _ (congrArg (fun s : State => { s with
      manifest := some (manifestOf m.mem tok clean last) }) hsm.mem) hsm.sent (hkept hother) ?_
    exact h.publish (hp tok) hother hman htmp'
  · intro ms e m' hn hsm hother hman htmp'
    exact hr tok e m' hn hsm (hkept hother) (hends hother hman htmp')
  · intro ms m' hsm hother hman htmp'
    exact hc tok m' hsm.sent (hends hother hman htmp')

end Telepty.Ledger
