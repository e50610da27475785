import Telepty.Ledger.Reopen

/-!
# The store through a whole run

`Sys.Sound` says that the disk of a system holds a book of one store, and that the owner, when there
is one, serves it or has given up serving. Every step of a run keeps it, crashes and reopens
included, as long as the submissions keep to what the owner does not check (`Message.Fair`) and no
recovery finds the copy of an earlier one cut off (`copyReady`).
-/

namespace Telepty.Ledger

open Infra Prog

/-! ## The segment that is copied into -/

/-- Nothing is cut off in the segment that the next recovery copies the last group into. -/
def copyReady (D : Digests) (fs : FS) : Bool :=
  match readJson fs manifestPath with
  | .error _ => true
  | .ok j =>
    match fs.readFile (segmentFile (segmentName ((Manifest.ofJson j).epoch + 1) 1)) with
    | .error _ => true
    | .ok buf =>
      let d := decodeFrames D buf
      d.tail.isNone && (groupFrames d.frames).open_.isEmpty

section

variable {o : Options} {I : Regime} {b b₀ : Book} {fs : FS} {sys : Sys}

theorem SegView.clean_of_decoded {D : Digests} {v : SegView} (hv : v.Ok)
    (ht : (decodeFrames D (v.bytes D)).tail = none)
    (hopen : (groupFrames (decodeFrames D (v.bytes D)).frames).open_ = []) : v.Clean where
  torn := by
    obtain ⟨Γ, offset, hg, -⟩ := SegView.grouped (D := D) hv
    rw [hg] at hopen
    have hlen := congrArg (fun l => l.map DecodedFrame.obj) hopen
    simpa [map_obj_decodedFrom] using hlen
  rest := by
    rw [SegView.decoded hv] at ht
    by_contra hne
    simp [hne] at ht

theorem Holds.copyReady (h : Holds o fs b) (hr : copyReady o.digests fs = true) : b.CopyReady := by
  intro v hv he
  have hn : v.n = 1 := by
    rcases h.epochs v hv with hle | ⟨-, hn⟩
    · omega
    · exact hn
  have hname : segmentName (b.man.epoch + 1) 1 = v.name := by rw [SegView.name, he, hn]
  unfold Ledger.copyReady at hr
  rw [h.readManifest] at hr
  simp only [Manifest.ofJson_toJson, hname, FS.readFile_of_get? (h.shows.file v hv),
    Bool.and_eq_true, Option.isNone_iff_eq_none, List.isEmpty_iff] at hr
  exact SegView.clean_of_decoded (h.shows.ok v hv) hr.1 hr.2

/-- The log that a run keeps to is the one that the disk shows. -/
theorem Holds.committedLog_eq (h : Holds o fs b) : committedLog o.digests fs = b.log :=
  h.shows.committedLog_eq h.logOk

/-! ## One step -/

/-- The disk holds a book of the store that began as `b₀`; the owner, if there is one, serves it or
has given up serving. -/
def Sys.Sound (o : Options) (I : Regime) (b₀ : Book) (sys : Sys) : Prop :=
  match sys.owner with
  | none => ∃ b, ∀ s, Rest o I b₀ (sys.machine s) b
  | some s => After o I b₀ (sys.machine s)

/-- What a step of a run keeps to. -/
def Act.Fair (o : Options) (I : Regime) (sys : Sys) : Act → Prop
  | .send msg => ∀ s, sys.owner = some s → msg.Fair o I s (committedLog o.digests sys.disk)
  | .start _ _ _ => sys.owner = none → copyReady o.digests sys.disk = true
  | _ => True

/-- The lock file is none of the store's. -/
theorem apart_lock (fs : FS) (body : Bytes) : Apart fs (fs.set lockPath (.file body)) := by
  have hother : ∀ q, q ≠ lockPath → (fs.set lockPath (.file body)).get? q = fs.get? q := fun q hq =>
    OrdMap.get?_set_of_ne _ hq
  have hlock : ∀ d name, joinPath (joinPath storeDir d) name ≠ lockPath := by
    intro d name
    simp [joinPath, storeDir, lockPath]
  have hstore : ∀ name, joinPath storeDir name ≠ lockPath := by
    intro name
    simp [joinPath, storeDir, lockPath]
  have htier : ∀ d ∈ tierDirs, ∀ name, joinPath d name ≠ lockPath := by
    intro d hd name
    simp only [tierDirs, List.mem_cons, List.not_mem_nil, or_false] at hd
    rcases hd with rfl | rfl | rfl <;> exact hlock _ name
  have hours : ∀ q, Ours q → q ≠ lockPath := by
    rintro q (hq | ⟨d, hd, name, rfl⟩)
    · rintro rfl
      revert hq
      decide
    · exact htier d hd name
  refine ⟨⟨fun p n hp hn => by rw [hother p (hours p hp), hn], fun hl => ?_⟩, fun name =>
    hother _ (hlock _ name)⟩
  exact {
    root := by rw [hother _ (by decide)]; exact hl.root
    store := by rw [hother _ (by decide)]; exact hl.store
    tiers := fun d hd => by rw [hother d (hours d (.inl (List.mem_append_right _ hd)))]; exact hl.tiers d hd
    plain := fun name hd => by rw [hother _ (hstore name)] at hd; exact hl.plain name hd
    numbers := fun d hd name node hn => by
      rw [hother _ (htier d hd name)] at hn
      exact hl.numbers d hd name node hn }

theorem Opened.after {b₀ b : Book} {locked : Bool} {m : Machine State Post}
    (h : Opened o I b₀ b locked m) (hg : m.mem.group = none) : After o I b₀ m := by
  cases h with
  | serves rest _ good => exact .serves rest.grew good
  | parked rest state _ => exact .parked rest state hg

/-- A crash leaves the disk and what was posted. -/
theorem After.crashed {s : State} (h : After o I b₀ (sys.machine s)) :
    ∃ b, ∀ t, Rest o I b₀ (sys.machine t) b := by
  obtain ⟨b, hb⟩ := h.rest
  exact ⟨b, fun _ => ⟨hb.grew, hb.holds, hb.inv, hb.known, hb.sent⟩⟩

namespace Sys.Sound

theorem start (hs : o.env.NoShort) (h : ∀ s, Rest o I b₀ (sys.machine s) b)
    (hready : copyReady o.digests sys.disk = true) (pid : Nat) (token : Text)
    (liveSids : List Text) : (sys.start o pid token liveSids).Sound o I b₀ := by
  have hrest := h (.initial pid token liveSids)
  refine Sys.of_wp (P := fun sys => sys.Sound o I b₀) (wp_reopen liveSids hs hrest
    (unopened_initial _ pid token liveSids) rfl (hrest.holds.copyReady hready)) ?_ ?_ ?_
  · rintro m' ⟨hopened, hg⟩
    exact hopened.after hg
  · rintro e m' hm
    exact hm.elim
  · rintro m' ⟨b', hb⟩
    exact ⟨b', fun _ => ⟨hb.grew, hb.holds, hb.inv, hb.known, hb.sent⟩⟩

theorem send {s : State} {msg : Message} (hs : o.env.NoShort) (hI : Downward I)
    (h : After o I b₀ (sys.machine s)) (hf : msg.Fair o I s (committedLog o.digests sys.disk)) :
    (sys.send o s msg).Sound o I b₀ := by
  have hend : wp (handle o msg) ⟨fun _ => After o I b₀, fun _ _ => False,
      fun m' => ∃ b', Rest o I b₀ m' b'⟩ (sys.machine s) := by
    cases h with
    | serves grew good =>
      have hlog := good.holds.committedLog_eq
      change committedLog o.digests sys.disk = _ at hlog
      rw [hlog] at hf
      exact wp_mono (good.handle hs hI hf) (fun _ _ ha => ha.from grew) (fun _ _ hr => hr)
        fun _ ⟨b', hb⟩ => ⟨b', hb.from grew⟩
    | parked rest state group =>
      have hlog := rest.holds.committedLog_eq
      change committedLog o.digests sys.disk = _ at hlog
      rw [hlog] at hf
      exact rest.handle hs state group hf
  refine Sys.of_wp (P := fun sys => sys.Sound o I b₀) hend ?_ ?_ ?_
  · exact fun m' hm => hm
  · rintro e m' hm
    exact hm.elim
  · rintro m' ⟨b', hb⟩
    exact ⟨b', fun _ => ⟨hb.grew, hb.holds, hb.inv, hb.known, hb.sent⟩⟩

/-- **One step keeps the store.** -/
theorem step (hs : o.env.NoShort) (hI : Downward I) (h : sys.Sound o I b₀) {act : Act}
    (hf : act.Fair o I sys) : (Ledger.step o sys act).Sound o I b₀ := by
  cases hown : sys.owner with
  | none =>
    unfold Sys.Sound at h
    rw [hown] at h
    obtain ⟨b, hb⟩ := h
    cases act with
    | lock pid token =>
      simp only [Ledger.step, hown, Sys.Sound]
      refine ⟨b, fun s => ?_⟩
      exact { hb s with holds := (hb s).holds.apart (apart_lock _ _) }
    | start pid token liveSids =>
      simp only [Ledger.step, hown]
      exact start hs hb (hf hown) pid token liveSids
    | send msg =>
      simp only [Ledger.step, hown, Sys.Sound]
      exact ⟨b, hb⟩
    | crash =>
      simp only [Ledger.step, hown, Sys.Sound]
      exact ⟨b, hb⟩
  | some s =>
    have hafter : After o I b₀ (sys.machine s) := by
      unfold Sys.Sound at h
      rw [hown] at h
      exact h
    cases act with
    | send msg =>
      simp only [Ledger.step, hown]
      exact send hs hI hafter (hf s hown)
    | crash =>
      simp only [Ledger.step, hown, Sys.Sound]
      exact hafter.crashed
    | lock pid token =>
      simp only [Ledger.step, hown]
      exact h
    | start pid token liveSids =>
      simp only [Ledger.step, hown]
      exact h

end Sys.Sound

/-! ## Runs -/

/-- Every step of the run keeps to what is asked of it. -/
def FairRun (o : Options) (I : Regime) : Sys → List Act → Prop
  | _, [] => True
  | sys, act :: acts => act.Fair o I sys ∧ FairRun o I (step o sys act) acts

/-- **A run keeps the store.** -/
theorem Sys.Sound.run (hs : o.env.NoShort) (hI : Downward I) {acts : List Act}
    (h : sys.Sound o I b₀) (hf : FairRun o I sys acts) : (Ledger.run o sys acts).Sound o I b₀ := by
  induction acts generalizing sys with
  | nil => exact h
  | cons act acts ih => exact ih (h.step hs hI hf.1) hf.2

end

end Telepty.Ledger
