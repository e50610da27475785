import Telepty.Ledger.Refused
import Telepty.Ledger.Serve

/-!
# Opening a store again

An open of a published store comes to an owner that serves the log of the disk, whatever a crash has
left beside it. One write of the recovery goes to a file that an earlier recovery may have left: the
copy of the last group is appended to the first segment of the next epoch. So it is asked of the disk
that nothing is cut off in that segment (`Book.CopyReady`).
-/

namespace Telepty.Ledger

open Infra Prog

/-! ## The memory of an owner that has not been opened -/

structure Unopened (D : Digests) (s : State) : Prop where
  core : coreOf s = .empty
  receipts : s.receipts = .empty
  receiptCkpts : s.receiptCkpts = []
  remembers : Remembers D [] s

theorem unopened_initial (D : Digests) (pid : Nat) (token : Text) (liveSids : List Text) :
    Unopened D (.initial pid token liveSids) :=
  ⟨rfl, rfl, rfl, remembers_initial pid token liveSids⟩

/-! ## What the checkpoint loads -/

section

variable {o : Options} {I : Regime} {m m' : Machine State Post} {b b₀ b' : Book} {s t : State}
  {fs fs' : FS}

theorem coreOf_load {x : Snap} (cold : List ColdMeta) (hs : coreOf s = .empty) :
    coreOf (x.load cold s) = x.core := by
  have hmap : ∀ (m : OrdMap Text Json) (l : List (Text × Json)) (k : Text), m.get? k = none →
      (m.setAll l).get? k = (OrdMap.empty.setAll l).get? k := fun m l k h => by
    rw [OrdMap.get?_setAll, OrdMap.get?_setAll, h, OrdMap.get?_empty]
  have hhot : ∀ id, s.hot.records.get? id = none := fun id => congrFun (congrArg Core.records hs) id
  have hfacts : s.facts = [] := congrArg Core.facts hs
  have hcore : coreOf (x.load cold s) = coreOf { x.withHot s with facts := s.facts ++ x.facts } := by
    unfold Snap.load Snap.withReceipts Snap.withPrev
    cases x.prev <;> rfl
  rw [hcore]
  refine Core.eq_of (fun id => ?_) ?_ (fun k => ?_) fun k => ?_
  · change (s.hot.setAll _).get? id = _
    rw [HotSet.get?_setAll]
    exact hmap _ _ _ (hhot id)
  · change s.facts ++ x.facts = x.facts
    rw [hfacts, List.nil_append]
  · exact hmap _ _ _ (congrFun (congrArg Core.actions hs) k)
  · exact hmap _ _ _ (congrFun (congrArg Core.pending hs) k)

/-- What holds of the values of a map and of some more holds after these are set. -/
theorem receipts_setAll {P : Text → Receipt → Prop} {r : OrdMap Text Receipt}
    {l : List (Text × Receipt)} (hr : ∀ k x, r.get? k = some x → P k x) (hl : ∀ e ∈ l, P e.1 e.2) :
    ∀ k x, (r.setAll l).get? k = some x → P k x := by
  intro k x hx
  rw [OrdMap.get?_setAll] at hx
  cases ha : assoc k l.reverse with
  | none =>
    rw [ha] at hx
    exact hr k x hx
  | some y =>
    rw [ha] at hx
    cases hx
    exact hl _ (List.mem_reverse.mp (mem_of_assoc ha))

/-- The receipts of the checkpoint are receipts of the log. -/
theorem receiptOf_load {x : Snap} {log : List Frame} (cold : List ColdMeta)
    (hs : s.receipts = .empty) (hx : ∀ e ∈ x.receipts ++ x.prevReceipts, ReceiptOf log e.1 e.2) :
    ∀ k r, (x.load cold s).receipts.get? k = some r → ReceiptOf log k r := by
  have hnumbered : ∀ (n : Nat) (l : List (Text × Receipt)), (∀ e ∈ l, ReceiptOf log e.1 e.2) →
      ∀ e ∈ Snap.numbered n l, ReceiptOf log e.1 e.2 := by
    intro n l hl e he
    obtain ⟨e', he', rfl⟩ := List.mem_map.mp he
    exact hl e' he'
  have hempty : ∀ k r, s.receipts.get? k = some r → ReceiptOf log k r := by
    intro k r hr
    rw [hs, OrdMap.get?_empty] at hr
    cases hr
  have hprev : ∀ k r, (x.withPrev (x.withHot s)).receipts.get? k = some r → ReceiptOf log k r := by
    unfold Snap.withPrev
    cases x.prev with
    | none => exact hempty
    | some p =>
      exact receipts_setAll hempty (hnumbered p _ fun e he => hx e (List.mem_append_right _ he))
  exact receipts_setAll hprev (hnumbered x.n _ fun e he => hx e (List.mem_append_left _ he))

/-! ## The memory that was recovered -/

/-- What a replay of the disk has put into the memory. -/
structure Recovered (o : Options) (fs : FS) (b : Book) (s : State) : Prop where
  core : coreOf s = b.recovered
  cold : List.Forall₂ (Stored o.digests fs) s.cold b.snap.gens
  receipts : ∀ k r, s.receipts.get? k = some r → ReceiptOf b.log k r
  receiptCkpts : s.receiptCkpts = b.snap.prev.toList ++ [b.snap.n]
  checkpointN : s.checkpointN = b.snap.n
  checkpointPos : s.checkpointPos = b.man.checkpoint
  lastCheckpoint : ∀ n, s.manifest.bind Manifest.lastCheckpointN = some n → n ≤ maxSafeInteger

/-- A generation is stored in one way only. -/
theorem Stored.transfer {D : Digests} {c c' : ColdMeta} {g : Gen} (h : Stored D fs c g)
    (h' : Stored D fs' c' g) : Stored D fs' c g := by
  obtain ⟨files, hfiles, hids, hsids, hbytes, -⟩ := h.written
  obtain ⟨files', hfiles', hids', hsids', -, hdisk⟩ := h'.written
  obtain rfl : files = files' := Except.ok.inj (hfiles.symm.trans hfiles')
  have hid : c'.idIdx = c.idIdx := Except.ok.inj (hids'.symm.trans hids)
  have hsid : c'.sidIdx = c.sidIdx := Except.ok.inj (hsids'.symm.trans hsids)
  exact ⟨h.n, h.file, h.records, h.distinct, ⟨files, hfiles, hids, hsids, hbytes, hdisk⟩,
    by rw [← hid]; exact h'.idFile, by rw [← hsid]; exact h'.sidFile⟩

theorem forall₂_transfer {D : Digests} {cs cs' : List ColdMeta} {gens : List Gen}
    (h : List.Forall₂ (Stored D fs) cs gens) (h' : List.Forall₂ (Stored D fs') cs' gens) :
    List.Forall₂ (Stored D fs') cs gens := by
  induction h generalizing cs' with
  | nil => exact .nil
  | cons hc _ ih =>
    cases h' with
    | cons hc' hrest => exact .cons (hc.transfer hc') (ih hrest)

/-- The generations of a manifest have its numbers. -/
theorem forall₂_numbers {D : Digests} {cs : List ColdMeta} {gens : List Gen}
    (h : List.Forall₂ (Stored D fs) cs gens) : cs.map ColdMeta.n = gens.map Gen.n := by
  induction h with
  | nil => rfl
  | cons hc _ ih => rw [List.map_cons, List.map_cons, hc.n, ih]

/-- A value that was set under its own key. -/
theorem key_of_byKey {key : Json → Text} {l : List Json} {k : Text} {v : Json}
    (h : (OrdMap.empty.setAll (byKey key l)).get? k = some v) : key v = k := by
  rw [OrdMap.get?_setAll, OrdMap.get?_empty, Option.or_none] at h
  obtain ⟨x, -, hx⟩ := List.mem_map.mp (List.mem_reverse.mp (mem_of_assoc h))
  cases hx
  rfl

namespace Holds

/-- The numbers of the cold generations can be counted on. -/
theorem gensCounted (h : Holds o fs b) : ∀ g ∈ b.snap.gens, g.n ≤ maxSafeInteger := by
  obtain ⟨metas, hall, hrefs⟩ := h.files.cold
  intro g hg
  have hn : g.n ∈ metas.map ColdMeta.n := by
    rw [forall₂_numbers hall]
    exact List.mem_map_of_mem hg
  obtain ⟨c, hc, hcn⟩ := List.mem_map.mp hn
  have hcount := h.counted.cold (refOf c) (by rw [hrefs]; exact List.mem_map_of_mem hc)
  rw [← hcn]
  exact hcount

/-- The memory that a recovery comes to has its actions under their own ids. -/
theorem recoveredKeys (h : Holds o fs b) : b.recovered.OwnKeys := by
  exact h.recovered.ownKeys ⟨fun _ _ => key_of_byKey, fun _ _ => key_of_byKey⟩

end Holds

namespace Recovered

/-- The memory describes the checkpoint that it was loaded from. -/
theorem describes (h : Recovered o fs b s) (hh : Holds o fs' b) : Describes o s fs' b where
  files tok clean last := by
    obtain ⟨metas, hall, hrefs⟩ := hh.files.cold
    exact { hh.files with
      hotN := congrArg some h.checkpointN
      receiptsN := congrArg some h.checkpointN
      factsN := congrArg some h.checkpointN
      receiptsPrev := by
        change s.receiptCkpts.dropLast.getLast? = _
        rw [h.receiptCkpts, List.dropLast_concat]
        cases b.snap.prev <;> rfl
      cold := ⟨s.cold, forall₂_transfer h.cold hall, rfl⟩ }
  checkpoint := h.checkpointPos
  counted tok clean := by
    have hn : b.snap.n ≤ maxSafeInteger :=
      hh.counted.named b.man.hotN (by simp) _ hh.files.hotN
    constructor
    · intro v hv k hk
      subst hk
      simp only [List.mem_cons, List.not_mem_nil, or_false] at hv
      rcases hv with hv | hv | hv | hv | hv
      · rw [Option.some.inj (hv.trans (congrArg some h.checkpointN))]
        exact hn
      · rw [Option.some.inj (hv.trans (congrArg some h.checkpointN))]
        exact hn
      · change some k = s.receiptCkpts.dropLast.getLast? at hv
        rw [h.receiptCkpts, List.dropLast_concat] at hv
        refine hh.counted.named b.man.receiptsPrev (by simp) k ?_
        rw [hh.files.receiptsPrev, hv]
        cases b.snap.prev <;> rfl
      · rw [Option.some.inj (hv.trans (congrArg some h.checkpointN))]
        exact hn
      · exact h.lastCheckpoint k hv.symm
    · intro ref href
      obtain ⟨c, hc, rfl⟩ := List.mem_map.mp href
      have hcn : c.n ∈ b.snap.gens.map Gen.n := by
        rw [← forall₂_numbers h.cold]
        exact List.mem_map_of_mem hc
      obtain ⟨g, hg, hgn⟩ := List.mem_map.mp hcn
      change c.n ≤ maxSafeInteger
      rw [← hgn]
      exact hh.gensCounted g hg

/-- **The memory that was recovered** is that of an owner that serves, at the start of an epoch. -/
theorem live (h : Recovered o fs b s) (hh : Holds o fs' b) (hend : AtEnd s b)
    (hcommitted : s.seqCommitted = 0) (hnext : s.seqNext = 1)
    (hcheckpoint : b.man.checkpoint.epoch < s.epoch) (hlog : ∀ f ∈ b.log, f.epoch < s.epoch) :
    Live o s fs' b b.snap.gens where
  atEnd := hend
  checkpoint := comparePos_nonpos_iff.mpr (.inl hcheckpoint)
  seqs := by omega
  log f hf := comparePos_nonpos_iff.mpr (.inl (hlog f hf))
  cold := by
    obtain ⟨metas, hall, -⟩ := hh.files.cold
    exact forall₂_transfer h.cold hall
  ascending := hh.files.ascending
  tier := by rw [h.core]; exact hh.tier
  sub := by rw [h.core]; exact .refl _
  actions k a ha := hh.recoveredKeys.actions k a (by rw [← h.core]; exact ha)
  pending k p hp := hh.recoveredKeys.pending k p (by rw [← h.core]; exact hp)
  receipts := h.receipts
  saved n hn := by
    rw [h.receiptCkpts] at hn
    rcases List.mem_append.mp hn with hn | hn
    · have hp : b.snap.prev = some n := Option.mem_toList.mp hn
      exact ⟨hh.files.prevPos n hp,
        hh.counted.named b.man.receiptsPrev (by simp) n (hh.files.receiptsPrev.trans hp),
        b.snap.prevReceipts, hh.files.prevReceipts n hp, fun e he =>
          hh.receipts e (List.mem_append_right _ he)⟩
    · rw [List.mem_singleton.mp hn]
      exact ⟨hh.files.pos, hh.counted.named b.man.hotN (by simp) _ hh.files.hotN,
        b.snap.receipts, hh.files.receipts, fun e he => hh.receipts e (List.mem_append_left _ he)⟩
  counted := hh.gensCounted
  lastCheckpoint := h.lastCheckpoint
  synced _ := ⟨h.core, rfl⟩

end Recovered

/-! ## The copy of the last group -/

/-- Nothing is cut off in the segment that a recovery copies the last group into. -/
def Book.CopyReady (b : Book) : Prop := ∀ v ∈ b.segs, v.epoch = b.man.epoch + 1 → v.Clean

/-- Bytes that copy a group of the log. -/
def CopyOf (o : Options) (b : Book) (bytes : Bytes) : Prop :=
  ∃ g : LogGroup, g.Ok ∧ (∀ f ∈ g.frames, f ∈ b.log) ∧ bytes = encodeFrames o.digests g.objs

theorem Holds.copyOf_lastGroup (h : Holds o fs b) {bytes : Bytes}
    (hb : lastGroup o.digests b.segs = some bytes) : CopyOf o b bytes := by
  obtain ⟨g, hg, rfl⟩ := Option.map_eq_some_iff.mp hb
  obtain ⟨v, hv, hgv⟩ := List.mem_flatMap.mp (List.mem_of_getLast? hg)
  refine ⟨g, (h.shows.ok v hv).groups g hgv, fun f hf => h.logOk.coherent f ?_, rfl⟩
  exact List.mem_flatMap.mpr ⟨v, hv, List.mem_flatMap.mpr ⟨g, hgv, hf⟩⟩

/-- **The copy** adds nothing to the log, and a copy that is cut off takes nothing from it. -/
theorem wp_copyLast {name : Text} {init : List SegView} {v : SegView} {last : Option Bytes}
    {Q : Ensures State Post Unit} (hs : o.env.NoShort) (hh : Holds o m.disk b)
    (hsegs : b.segs = init ++ [v]) (hv : v.Clean) (hname : v.name = name)
    (hlast : ∀ bytes, last = some bytes → CopyOf o b bytes)
    (hd : ∀ k m' w, w.epoch = v.epoch → w.n = v.n → w.Clean → m'.sent = m.sent →
      m'.mem = { m.mem with seg := m.mem.seg.map fun seg => { seg with bytes := seg.bytes + k } } →
      Holds o m'.disk { b with segs := init ++ [w] } → Q.done () m')
    (hr : ∀ e m' segs, ¬ o.env.Calm → m'.sent = m.sent → Holds o m'.disk { b with segs := segs } →
      Q.raised e m')
    (hc : ∀ m' segs, m'.sent = m.sent → Holds o m'.disk { b with segs := segs } → Q.crashed m') :
    wp (copyLast o name last) Q m := by
  cases last with
  | none =>
    refine hd 0 m v rfl rfl hv rfl ?_ (by rw [← hsegs]; exact hh)
    have hseg : m.mem.seg.map (fun seg => { seg with bytes := seg.bytes + 0 }) = m.mem.seg :=
      Option.map_id' ..
    rw [hseg]
  | some bytes =>
    obtain ⟨g, hg, hin, rfl⟩ := hlast _ rfl
    have hgrow := hh.growsCopy hin
    subst hname
    have hcut : ∀ k, ∃ segs, Holds o
        (m.disk.append (segmentFile v.name) ((encodeFrames o.digests g.objs).take k))
        { b with segs := segs } := by
      intro k
      rcases hh.writeCut hsegs hv hg hgrow k with hw | ⟨w, -, -, -, hw⟩
      · exact ⟨_, hw⟩
      · exact ⟨_, hw⟩
    simp only [copyLast, wp_bind, wp_modify]
    refine wp_sys hs ?_ ?_ ?_ ?_
    · intro fs hrun
      cases hrun
      have hw := hh.writeAll hsegs hg hgrow (SegView.bytes_add hv)
      refine wp_sys_quiet hs (harmless_fsync _) ?_ ?_ ?_
      · intro m' hq
        refine hd (encodeFrames o.digests g.objs).length _ (v.add g) rfl rfl (hv.add g) hq.sent ?_
          (by rw [hq.disk]; exact hw)
        rw [hq.mem]
      · intro e m' hq hx
        refine hr e m' _ (fun hcalm => ?_) hq.sent (by rw [hq.disk]; exact hw)
        obtain ⟨err, herr⟩ := hx hcalm
        cases herr
      · intro m' hq
        exact hc m' _ hq.sent (by rw [hq.disk]; exact hw)
    · intro hcalm e kept
      obtain ⟨segs, hw⟩ := hcut kept
      exact hr _ _ segs hcalm rfl hw
    · intro e hrun
      cases hrun
    · intro kept
      obtain ⟨segs, hw⟩ := hcut kept
      exact hc _ segs rfl hw

/-! ## The recovery -/

theorem sameRest_load (x : Snap) (cold : List ColdMeta) (s : State) :
    SameRest s (x.load cold s) := by
  unfold Snap.load Snap.withReceipts Snap.withPrev
  cases x.prev <;> exact ⟨rfl, rfl, rfl, rfl, rfl, rfl, rfl, rfl, rfl, rfl, rfl, rfl, rfl, rfl⟩

theorem receiptCkpts_load (x : Snap) (cold : List ColdMeta) (s : State) :
    (x.load cold s).receiptCkpts = s.receiptCkpts ++ (x.prev.toList ++ [x.n]) := by
  unfold Snap.load Snap.withReceipts Snap.withPrev
  cases x.prev with
  | none => rfl
  | some p => simp [Snap.withReceipts, Snap.withHot]

theorem remembers_load {D : Digests} {seen : List Frame} {x : Snap} (cold : List ColdMeta)
    (h : Remembers D seen s) : Remembers D seen (x.load cold s) := by
  refine h.congr ?_ ?_ <;>
  · unfold Snap.load Snap.withReceipts Snap.withPrev
    cases x.prev <;> rfl

/-- Another disk that holds the same log, with the same meaning and for the same recovery. -/
theorem Rest.same (h : Rest o I b₀ m b) (hsent : m'.sent = m.sent) (hh : Holds o m'.disk b')
    (ht : SameTale b b') (hrec : b'.recovered = b.recovered) : Rest o I b₀ m' b' where
  grew := h.grew.trans ht.grew
  holds := hh
  inv hc := by rw [hrec]; exact h.inv hc
  known f hf := h.known f (by rw [← ht.log]; exact hf)
  sent x hx := (h.sent x (by rw [← hsent]; exact hx)).mono ht.grew

/-- The first segment of the next epoch is the last one, or there is none. -/
theorem Holds.nextEpoch (h : Holds o fs b) :
    (∃ init v, b.segs = init ++ [v] ∧ v.epoch = b.man.epoch + 1 ∧ v.n = 1) ∨
      ∀ v ∈ b.segs, v.Before (emptySegment (b.man.epoch + 1) 1) := by
  rcases List.eq_nil_or_concat b.segs with hnil | ⟨init, v, hsegs⟩
  · exact .inr fun v hv => by rw [hnil] at hv; cases hv
  · rw [List.concat_eq_append] at hsegs
    rcases h.epochs v (by rw [hsegs]; simp) with hv | ⟨hv, hn⟩
    · refine .inr fun u hu => .inl ?_
      have hsorted := h.shows.sorted
      rw [hsegs, List.pairwise_append] at hsorted
      rw [hsegs] at hu
      change u.epoch < b.man.epoch + 1
      rcases List.mem_append.mp hu with hu | hu
      · have hbefore := hsorted.2.2 u hu v (List.mem_singleton_self v)
        unfold SegView.Before at hbefore
        omega
      · rw [List.mem_singleton.mp hu]
        omega
    · exact .inl ⟨init, v, hsegs, hv, hn⟩

theorem Holds.mkdirp_segments (h : Holds o fs b) : fs.mkdirp segmentsDir = .ok fs := by
  refine FS.mkdirp_of_dirs fun q hq => ?_
  have hq' : q ∈ segmentsDir.inits := (List.mem_inits q segmentsDir).mpr hq
  rw [show segmentsDir.inits = [parentPath, storeDir, segmentsDir] from rfl] at hq'
  simp only [List.mem_cons, List.not_mem_nil, or_false] at hq'
  rcases hq' with rfl | rfl | rfl
  · exact h.layout.root
  · exact h.layout.store
  · exact h.shows.dir

/-- The segment that was opened has nothing cut off. -/
theorem OpenedAs.clean {segs init : List SegView} {v : SegView}
    (h : OpenedAs b.segs (b.man.epoch + 1) 1 segs) (hready : b.CopyReady) (hsegs : segs = init ++ [v]) :
    v.Clean := by
  cases h with
  | @last init' v' hs he hn =>
    rw [hsegs] at hs
    obtain rfl : v = v' := by simpa using (List.append_inj' hs rfl).2
    exact hready v (by rw [hsegs]; simp) he
  | new hb =>
    obtain rfl : emptySegment (b.man.epoch + 1) 1 = v := by simpa using (List.append_inj' hsegs rfl).2
    exact ⟨rfl, rfl⟩

/-- **The manifest of a new epoch** makes the memory that of an owner that serves. -/
theorem wp_publishEpoch {init : List SegView} {w : SegView} {Q : Ensures State Post Unit}
    (hs : o.env.NoShort) (h : Rest o I b₀ m b) (hrecovered : Recovered o fs b m.mem)
    (hepoch : m.mem.epoch = b.man.epoch + 1) (hcommitted : m.mem.seqCommitted = 0)
    (hnext : m.mem.seqNext = 1) (hsegs : b.segs = init ++ [w]) (hwe : w.epoch = b.man.epoch + 1)
    (hwn : w.n = 1) (hwc : w.Clean) (hseg : ∀ x, m.mem.seg = some x → x.name = w.name)
    (hmem : ∃ x ∈ m.mem.segments, x.epoch = w.epoch ∧ x.n = w.n)
    (hd : ∀ m' b', Rest o I b₀ m' b' → SameTale b b' →
      Live o m'.mem m'.disk b' b'.snap.gens → Q.done () m')
    (hr : ∀ e m' b', ¬ o.env.Calm → Rest o I b₀ m' b' → Q.raised e m')
    (hc : ∀ m' b', Rest o I b₀ m' b' → Q.crashed m') : wp (writeManifest o false none) Q m := by
  have hdesc := hrecovered.describes h.holds
  refine wp_writeManifest b.snap b.recovered hs h.holds
    (fun tok => hdesc.publishes h.holds (.inr hepoch) tok false) ?_ ?_ ?_
  · intro tok m' hmem' hsent' _ hh'
    refine hd m' _ (h.same hsent' hh' ⟨rfl, rfl⟩ rfl) ⟨rfl, rfl⟩ ?_
    have hrecovered' : Recovered o fs (b.publish (manifestOf m.mem tok false none) b.snap b.recovered)
        m'.mem := by
      rw [hmem']
      exact { hrecovered with
        checkpointPos := rfl
        lastCheckpoint := hrecovered.lastCheckpoint }
    have hepoch' : m'.mem.epoch = m.mem.epoch := by rw [hmem']
    refine hrecovered'.live hh' ⟨⟨hepoch', fun v hv => ?_⟩, fun x hx => ?_⟩ (by rw [hmem']; exact hcommitted)
      (by rw [hmem']; exact hnext) ?_ fun f hf => ?_
    · rw [hepoch', hepoch]
      rcases h.holds.epochs v hv with hve | ⟨hve, hvn⟩
      · exact ⟨by omega, fun he => by omega⟩
      · obtain ⟨x, hx, hxe, hxn⟩ := hmem
        refine ⟨by omega, fun _ => ⟨x, by rw [hmem']; exact hx, by omega, by omega⟩⟩
    · rw [hmem'] at hx
      refine ⟨init, w, hsegs, hwc, by rw [hepoch', hepoch, hwe], hseg x hx⟩
    · have hcheckpoint := h.holds.checkpoint
      rw [hepoch', hepoch]
      change m.mem.checkpointPos.epoch < _
      rw [hrecovered.checkpointPos]
      omega
    · have hfe := h.holds.logEpochs f hf
      rw [hepoch', hepoch]
      omega
  · intro tok e m' hcalm hsm _ hends
    rcases hends with hh' | hh'
    · exact hr e m' b hcalm (h.same hsm.sent hh' (.refl b) rfl)
    · exact hr e m' _ hcalm (h.same hsm.sent hh' ⟨rfl, rfl⟩ rfl)
  · intro tok m' hsent' hends
    rcases hends with hh' | hh'
    · exact hc m' b (h.same hsent' hh' (.refl b) rfl)
    · exact hc m' _ (h.same hsent' hh' ⟨rfl, rfl⟩ rfl)

/-- **The writes of a recovery**: the first segment of the new epoch is opened, the last group is
copied into it and the manifest of the new epoch is published. -/
theorem wp_beginEpoch {last : Option Bytes} {Q : Ensures State Post Unit} (hs : o.env.NoShort)
    (h : Rest o I b₀ m b) (hready : b.CopyReady) (hrecovered : Recovered o fs b m.mem)
    (hepoch : m.mem.epoch = b.man.epoch + 1) (hcommitted : m.mem.seqCommitted = 0)
    (hnext : m.mem.seqNext = 1) (hlast : ∀ bytes, last = some bytes → CopyOf o b bytes)
    (hd : ∀ m' b', Rest o I b₀ m' b' → SameTale b b' →
      Live o m'.mem m'.disk b' b'.snap.gens → Q.done () m')
    (hr : ∀ e m' b', ¬ o.env.Calm → Rest o I b₀ m' b' → Q.raised e m')
    (hc : ∀ m' b', Rest o I b₀ m' b' → Q.crashed m') :
    wp (do
      let _ ← sys o.env (.mkdirp segmentsDir)
      openSegment o (b.man.epoch + 1) 1
      copyLast o (segmentName (b.man.epoch + 1) 1) last
      writeManifest o false none) Q m := by
  have hh := h.holds
  simp only [wp_bind]
  refine wp_sys hs ?_ ?_ ?_ ?_
  · intro fs hrun
    change m.disk.mkdirp segmentsDir = _ at hrun
    rw [hh.mkdirp_segments] at hrun
    cases hrun
    refine wp_openSegment hs hh hh.nextEpoch (.inr ⟨rfl, rfl⟩) ?_ ?_ ?_
    · intro m₁ segs hmem₁ hsent₁ hopened hh₁
      obtain ⟨init, v, hsegs, hve, hvn⟩ := hopened.last_eq
      refine wp_copyLast hs hh₁ hsegs (hopened.clean hready hsegs) (by rw [SegView.name, hve, hvn])
        hlast ?_ ?_ ?_
      · intro k m₂ w hwe hwn hwc hsent₂ hmem₂ hh₂
        have hrecovered₂ : Recovered o fs { b with segs := init ++ [w] } m₂.mem := by
          rw [hmem₂, hmem₁]
          exact { hrecovered with }
        refine wp_publishEpoch hs (h.same (hsent₂.trans hsent₁) hh₂ ⟨rfl, rfl⟩ rfl) hrecovered₂
          (by rw [hmem₂, hmem₁]; exact hepoch) (by rw [hmem₂, hmem₁]; exact hcommitted)
          (by rw [hmem₂, hmem₁]; exact hnext) rfl (hwe.trans hve) (hwn.trans hvn) hwc ?_ ?_
          (fun m₃ b₃ hrest ht hlive => hd m₃ b₃ hrest ⟨ht.base, ht.log⟩ hlive) hr hc
        · intro x hx
          rw [hmem₂, hmem₁] at hx
          cases hx
          rw [SegView.name, hwe, hwn, hve, hvn]
        · refine ⟨⟨segmentName (b.man.epoch + 1) 1, b.man.epoch + 1, 1, false, 0⟩, ?_,
            (hwe.trans hve).symm, (hwn.trans hvn).symm⟩
          rw [hmem₂, hmem₁]
          exact List.mem_append_right _ (List.mem_singleton_self _)
      · intro e m₂ segs₂ hcalm hsent₂ hh₂
        exact hr e m₂ _ hcalm (h.same (hsent₂.trans hsent₁) hh₂ ⟨rfl, rfl⟩ rfl)
      · intro m₂ segs₂ hsent₂ hh₂
        exact hc m₂ _ (h.same (hsent₂.trans hsent₁) hh₂ ⟨rfl, rfl⟩ rfl)
    · intro e m₁ hcalm hsent₁ hends
      rcases hends with ⟨-, hh₁⟩ | ⟨-, segs, -, hh₁⟩
      · exact hr e m₁ _ hcalm (h.same hsent₁ hh₁ (.refl b) rfl)
      · exact hr e m₁ _ hcalm (h.same hsent₁ hh₁ ⟨rfl, rfl⟩ rfl)
    · intro m₁ hsent₁ hends
      rcases hends with hh₁ | ⟨segs, -, hh₁⟩
      · exact hc m₁ _ (h.same hsent₁ hh₁ (.refl b) rfl)
      · exact hc m₁ _ (h.same hsent₁ hh₁ ⟨rfl, rfl⟩ rfl)
  · exact fun hcalm e kept => hr e _ b hcalm (h.same rfl hh (.refl b) rfl)
  · intro e hrun
    change m.disk.mkdirp segmentsDir = _ at hrun
    rw [hh.mkdirp_segments] at hrun
    cases hrun
  · exact fun kept => hc _ b (h.same rfl hh (.refl b) rfl)

/-- **A recovery comes to an owner that can serve the log of the disk**, at the start of a new epoch;
it throws only after a failing operation. -/
theorem wp_recoverBook {Q : Ensures State Post Unit} (hs : o.env.NoShort) (h : Rest o I b₀ m b)
    (hu : Unopened o.digests m.mem) (hready : b.CopyReady)
    (hd : ∀ m' b', Rest o I b₀ m' b' → SameTale b b' →
      Live o m'.mem m'.disk b' b'.snap.gens → Q.done () m')
    (hr : ∀ e m' b', ¬ o.env.Calm → Rest o I b₀ m' b' → Q.raised e m')
    (hc : ∀ m' b', Rest o I b₀ m' b' → Q.crashed m') : wp (recover o b.man) Q m := by
  have hh := h.holds
  unfold recover
  rw [wp_bind, wp_modify]
  dsimp only
  generalize hs₀ : ({ m.mem with
    manifest := some b.man, legacy := b.man.legacy, checkpointPos := b.man.checkpoint } : State) = s₀
  have hcore₀ : coreOf s₀ = .empty := by rw [← hs₀]; exact hu.core
  have hpos₀ : s₀.checkpointPos = b.man.checkpoint := by rw [← hs₀]
  have hman₀ : s₀.manifest = some b.man := by rw [← hs₀]
  have hckpts₀ : s₀.receiptCkpts = [] := by rw [← hs₀]; exact hu.receiptCkpts
  have hreceipts₀ : s₀.receipts = .empty := by rw [← hs₀]; exact hu.receipts
  have hremembers₀ : Remembers o.digests [] s₀ := by
    refine hu.remembers.congr ?_ ?_ <;> rw [← hs₀]
  -- the checkpoint
  obtain ⟨cold, hload, hstored⟩ := loadCheckpoint_done (m := { m with mem := s₀ }) hh.files
    (congrArg Core.facts hcore₀)
  rw [wp_bind]
  refine wp_of_done hload ?_
  have hrest := sameRest_load b.snap cold s₀
  obtain ⟨alloc, halloc⟩ := hh.layout.recoverGenerations hh.counted
  dsimp only
  rw [wp_bind, wp_disk]
  dsimp only
  rw [wp_bind, wp_ofExcept, halloc]
  dsimp only
  rw [wp_bind, wp_modify]
  dsimp only
  rw [hh.shows.segmentFiles_eq, wp_bind]
  -- the log
  have hsteps : Core.Steps ((news [] (allFrames b.segs)).filter
      (isAfter (b.snap.load cold s₀).checkpointPos)) (coreOf (b.snap.load cold s₀)) b.recovered := by
    rw [hh.logOk.read, hrest.checkpointPos, hpos₀, coreOf_load cold hcore₀]
    exact hh.recovered
  have hreplayed := @replaySegments_shows o b.man _
    { m with mem := { b.snap.load cold s₀ with allocHot := alloc.1, allocCold := alloc.2 } } _ _ none
    hh.shows.ok hh.shows.file hh.logOk.replayable
    ((remembers_load cold hremembers₀).congr rfl rfl) hsteps
  obtain ⟨t, ht, htt, hts, htc⟩ := hreplayed
  refine wp_of_done ht ?_
  have hrecovered : Recovered o m.disk b t := {
    core := htc
    cold := by
      have hcold : t.cold = (b.snap.load cold s₀).cold := htt.same.cold
      rw [hcold]
      exact hstored
    receipts := by
      have hreceipts : t.receipts = _ := htt.receipts
      rw [hreceipts]
      refine receipts_setAll (receiptOf_load cold hreceipts₀ hh.receipts) fun e he => ?_
      obtain ⟨f, hf, rfl⟩ := List.mem_map.mp he
      rw [hh.logOk.read] at hf
      exact ⟨f, (List.mem_filter.mp hf).1, rfl, rfl, rfl, rfl⟩
    receiptCkpts := by
      have hckpts : t.receiptCkpts = (b.snap.load cold s₀).receiptCkpts := htt.same.receiptCkpts
      rw [hckpts, receiptCkpts_load, hckpts₀, List.nil_append]
    checkpointN := by
      have hn : t.checkpointN = (b.snap.load cold s₀).checkpointN := htt.same.checkpointN
      rw [hn]
      rfl
    checkpointPos := by
      have hp : t.checkpointPos = (b.snap.load cold s₀).checkpointPos := htt.same.checkpointPos
      rw [hp, hrest.checkpointPos, hpos₀]
    lastCheckpoint := by
      have hm : t.manifest = (b.snap.load cold s₀).manifest := htt.same.manifest
      rw [hm, hrest.manifest, hman₀]
      exact fun n hn => hh.counted.named b.man.lastCheckpointN (by simp) n hn }
  dsimp only
  rw [wp_bind, wp_modify]
  dsimp only
  refine wp_beginEpoch hs (h.same rfl hh (.refl b) rfl) hready { hrecovered with } rfl rfl rfl
    (fun bytes hbytes => ?_) hd hr hc
  rw [Option.or_none] at hbytes
  exact hh.copyOf_lastGroup hbytes

/-! ## The open -/

/-- A message that acknowledges nothing, from whatever memory. -/
theorem Rest.idle (h : Rest o I b₀ m b) {p : Post} (hp : Idle.Post p) (hdisk : m'.disk = m.disk)
    (hsent : m'.sent = m.sent ++ [(p, m.disk)]) : Rest o I b₀ m' b where
  grew := h.grew
  holds := by rw [hdisk]; exact h.holds
  inv := h.inv
  known := h.known
  sent := by rw [hsent]; exact sent_post h.sent (.of_idle hp)

/-- A memory that serves the book of the disk, with no group open. -/
theorem Rest.good (h : Rest o I b₀ m b) (hlive : Live o m.mem m.disk b b.snap.gens)
    (hstate : m.mem.state = .available) (hnone : m.mem.group = none) :
    Good o I m b b.snap.gens where
  state := hstate
  holds := h.holds
  live := hlive
  group g hg := by rw [hnone] at hg; cases hg
  inv hc := ⟨by rw [(hlive.synced hc).1]; exact h.inv hc, fun g hg => by rw [hnone] at hg; cases hg⟩
  known f hf := by
    rw [openFrames, hnone] at hf
    exact h.known f (by simpa using hf)
  sent := h.sent

theorem idle_state (store : StoreState) (reason detail : Text) (epoch : Nat) :
    Idle.Post (.state store reason detail epoch) := fun _ ha => by cases ha

/-- **How an open ends**: the owner serves the log of the disk, or it has refused to, for a lock that
is not its own or after a failing operation. -/
inductive Opened (o : Options) (I : Regime) (b₀ b : Book) (locked : Bool) (m : Machine State Post) :
    Prop where
  | serves {b' : Book} (rest : Rest o I b₀ m b') (tale : SameTale b b')
      (good : Good o I m b' b'.snap.gens)
  | parked {b' : Book} (rest : Rest o I b₀ m b') (state : m.mem.state ≠ .available)
      (why : o.env.Calm → locked = false)

/-- The owner has refused. -/
theorem wp_refuseOpen {store : StoreState} {reason detail : Text} {Q : Ensures State Post Unit}
    (h : Rest o I b₀ m b) (hstore : store ≠ .available)
    (hd : ∀ m', Rest o I b₀ m' b → m'.mem.state ≠ .available → Q.done () m') :
    wp (postState store reason detail) Q m := by
  unfold postState
  simp only [wp_bind, wp_modify, wp_get, wp_post]
  exact hd _ (h.idle (idle_state _ _ _ _) rfl rfl) hstore

theorem wp_refuseError {e : Failure} {Q : Ensures State Post Unit} (h : Rest o I b₀ m b)
    (hd : ∀ m', Rest o I b₀ m' b → m'.mem.state ≠ .available → Q.done () m') :
    wp (postOpenError e) Q m := by
  unfold postOpenError
  repeat' split
  all_goals
    refine wp_refuseOpen h ?_ hd
    decide

/-- **The open of a published store.** -/
theorem wp_openBody {Q : Ensures State Post Bool} (hs : o.env.NoShort) (h : Rest o I b₀ m b)
    (hu : Unopened o.digests m.mem) (hready : b.CopyReady)
    (hd : ∀ m' b', Rest o I b₀ m' b' → SameTale b b' →
      Live o m'.mem m'.disk b' b'.snap.gens → Q.done true m')
    (hp : ∀ m' b', Rest o I b₀ m' b' → m'.mem.state ≠ .available →
      verifyLock m.disk m.mem.pid m.mem.token = false → Q.done false m')
    (hr : ∀ e m' b', ¬ o.env.Calm → Rest o I b₀ m' b' → Q.raised e m')
    (hc : ∀ m' b', Rest o I b₀ m' b' → Q.crashed m') : wp (openBody o) Q m := by
  unfold openBody
  simp only [wp_bind, wp_get, wp_disk]
  split
  · next hlock =>
    simp only [wp_bind, wp_pure]
    refine wp_refuseOpen h ?_ fun m' hrest hstate => hp m' b hrest hstate hlock
    decide
  · simp only [wp_bind, wp_ofExcept, h.holds.classifyPath, openPath, wp_pure]
    exact wp_recoverBook hs h hu hready hd hr hc

theorem Unopened.congr {D : Digests} (h : Unopened D s) (hc : coreOf t = coreOf s)
    (hr : t.receipts = s.receipts) (hn : t.receiptCkpts = s.receiptCkpts)
    (hp : t.appliedPos = s.appliedPos) (ht : t.txnHash = s.txnHash) : Unopened D t :=
  ⟨hc.trans h.core, hr.trans h.receipts, hn.trans h.receiptCkpts, h.remembers.congr hp ht⟩

/-- **An open of a store that a crash has left** comes to an owner that serves the same log, unless
the lock is another's or an operation fails. -/
theorem wp_reopen (liveSids : List Text) (hs : o.env.NoShort) (h : Rest o I b₀ m b)
    (hu : Unopened o.digests m.mem) (hg : m.mem.group = none) (hready : b.CopyReady) :
    wp (openStore o liveSids)
      ⟨fun _ m' => Opened o I b₀ b (verifyLock m.disk m.mem.pid m.mem.token) m' ∧
          m'.mem.group = none, fun _ _ => False, fun m' => ∃ b', Rest o I b₀ m' b'⟩ m := by
  refine wp_of_keeps (fixesGroup_openStore liveSids) ?_
  unfold openStore
  simp only [wp_bind, wp_modify, wp_catching]
  unfold postState
  simp only [wp_bind, wp_modify, wp_get, wp_post]
  refine wp_openBody hs (h.idle (idle_state _ _ _ _) rfl rfl) (hu.congr rfl rfl rfl rfl rfl) hready
    ?_ ?_ ?_ fun m' b' hrest _ => ⟨b', hrest⟩
  · intro m₁ b₁ hrest ht hlive
    dsimp only
    rw [if_pos rfl]
    simp only [wp_bind, wp_modify, wp_get, wp_post]
    intro hgroup
    have hnone : m₁.mem.group = none := hgroup.trans hg
    have hserving : Rest o I b₀ { m₁ with
        mem := { m₁.mem with state := .available, reason := [] },
        sent := m₁.sent ++ [(.state .available [] [] m₁.mem.epoch, m₁.disk)] } b₁ :=
      hrest.idle (idle_state _ _ _ _) rfl rfl
    have hposted : Rest o I b₀ { m₁ with
        mem := { m₁.mem with state := .available, reason := [] },
        sent := m₁.sent ++ [(.state .available [] [] m₁.mem.epoch, m₁.disk)] ++
          [(.snapshotChunk (snapshotItems { m₁.mem with state := .available, reason := [] }),
            m₁.disk)] } b₁ := hserving.idle (fun _ ha => by cases ha) rfl rfl
    exact ⟨.serves hposted ht (hposted.good { hlive with
      atEnd := ⟨⟨hlive.atEnd.epoch, hlive.atEnd.segments⟩, hlive.atEnd.seg⟩ } rfl hnone), hnone⟩
  · intro m₁ b₁ hrest hstate hlock
    dsimp only
    rw [if_neg (by decide), wp_pure]
    intro hgroup
    exact ⟨.parked hrest hstate fun _ => hlock, hgroup.trans hg⟩
  · intro e m₁ b₁ hcalm hrest
    refine wp_refuseError hrest fun m₂ hrest₂ hstate => ?_
    simp only [wp_pure]
    rw [if_neg (by decide), wp_pure]
    intro hgroup
    exact ⟨.parked hrest₂ hstate fun hc => absurd hc hcalm, hgroup.trans hg⟩

end

end Telepty.Ledger
