import Telepty.Ledger.Core

/-!
# The log on the disk

A segment file that the owner wrote holds whole groups, then perhaps the frames of a group whose
write was cut off, then perhaps a piece of a line (`SegView`). `Shows` says that the segment files of
a disk are those of a list of such views; what recovery reads of the disk is then a function of the
list (`Shows.segmentFiles_eq`, `SegView.grouped`).

The log is the frames of the whole groups in file order, each position taken once (`committedLog`):
the last group is copied into the first segment of the next epoch, and a group whose write failed
is written a second time.
-/

namespace Telepty.Ledger

open Infra

/-! ## Segments as the owner writes them -/

/-- A group as it stands in a segment. -/
structure LogGroup where
  frames : List Frame
  commit : Commit

/-- The lines of a group. -/
def LogGroup.objs (g : LogGroup) : List Json := g.frames.map Frame.toJson ++ [g.commit.toJson]

/-- Its commit frame counts its frames, and each frame is one that the owner makes. -/
structure LogGroup.Ok (g : LogGroup) : Prop where
  count : g.commit.n = g.frames.length
  sound : ∀ f ∈ g.frames, f.Sound

structure SegView where
  epoch : Nat
  n : Nat
  groups : List LogGroup
  /-- the frames of a group that was cut off -/
  torn : List Frame
  /-- a piece of a line -/
  rest : Bytes

namespace SegView

def name (v : SegView) : Text := segmentName v.epoch v.n

def ref (v : SegView) : SegmentRef := ⟨v.name, v.epoch, v.n⟩

def frames (v : SegView) : List Frame := v.groups.flatMap LogGroup.frames

def objs (v : SegView) : List Json := v.groups.flatMap LogGroup.objs ++ v.torn.map Frame.toJson

def bytes (D : Digests) (v : SegView) : Bytes := encodeFrames D v.objs ++ v.rest

/-- Nothing is cut off. -/
structure Clean (v : SegView) : Prop where
  torn : v.torn = []
  rest : v.rest = []

structure Ok (v : SegView) : Prop where
  groups : ∀ g ∈ v.groups, g.Ok
  torn : ∀ f ∈ v.torn, f.Sound
  rest : Unbroken v.rest

end SegView

theorem isCommit_frame {f : Frame} (h : f.WellFormed) : isCommit f.toJson = false := by
  obtain ⟨epoch, seq, txn, body⟩ := f
  cases body with
  | other t => exact h.elim
  | _ => rfl

/-! ## What is read of a segment -/

section

variable {D : Digests}

/-- What replay looks at in a frame that was read. -/
def readFrame (fr : DecodedFrame) : Json × Text := (fr.obj, fr.hash)

def frameLine (D : Digests) (f : Frame) : Json × Text := (f.toJson, D.frameHash f.toJson.stringify)

theorem map_readFrame_decodedFrom (offset : Nat) (fs : List Frame) :
    (decodedFrom D offset (fs.map Frame.toJson)).map readFrame = fs.map (frameLine D) := by
  induction fs generalizing offset with
  | nil => rfl
  | cons f fs ih => rw [List.map_cons, decodedFrom, List.map_cons, ih]; rfl

theorem decodedFrom_append (offset : Nat) (a b : List Json) :
    decodedFrom D offset (a ++ b)
      = decodedFrom D offset a ++ decodedFrom D (offset + (encodeFrames D a).length) b := by
  induction a generalizing offset with
  | nil => rfl
  | cons o a ih =>
    rw [List.cons_append, decodedFrom, decodedFrom, ih, encodeFrames, encodeFrames,
      List.flatMap_cons, List.length_append, Nat.add_assoc]
    rfl

theorem not_commit_decodedFrom {offset : Nat} {fs : List Frame} (h : ∀ f ∈ fs, f.Sound) :
    ∀ fr ∈ decodedFrom D offset (fs.map Frame.toJson), isCommit fr.obj = false := by
  intro fr hfr
  have hm : fr.obj ∈ (decodedFrom D offset (fs.map Frame.toJson)).map DecodedFrame.obj :=
    List.mem_map_of_mem hfr
  rw [map_obj_decodedFrom] at hm
  obtain ⟨f, hf, he⟩ := List.mem_map.mp hm
  rw [← he]
  exact isCommit_frame (h f hf).wellFormed

/-- A group that was read is the group that was written. -/
structure ReadAs (D : Digests) (G : FrameGroup) (g : LogGroup) : Prop where
  frames : G.frames.map readFrame = g.frames.map (frameLine D)
  bytes : G.bytes = encodeFrames D g.objs

/-- **The groups of written lines** are read as they were written, and the frames after the last
commit frame are left open. -/
theorem groupFrom_groups (offset : Nat) (groups : List LogGroup) (torn : List Frame)
    (hg : ∀ g ∈ groups, g.Ok) (ht : ∀ f ∈ torn, f.Sound) :
    ∃ Γ offset', groupFrom [] (decodedFrom D offset
        (groups.flatMap LogGroup.objs ++ torn.map Frame.toJson))
      = ⟨Γ, decodedFrom D offset' (torn.map Frame.toJson), none⟩ ∧
        List.Forall₂ (ReadAs D) Γ groups := by
  induction groups generalizing offset with
  | nil =>
    refine ⟨[], offset, ?_, .nil⟩
    rw [List.flatMap_nil, List.nil_append, groupFrom_of_no_commit (not_commit_decodedFrom ht)]
    rfl
  | cons g groups ih =>
    have hok := hg g List.mem_cons_self
    obtain ⟨Γ, offset', hΓ, hall⟩ := ih (offset + (encodeFrames D g.objs).length) fun g' hg' =>
      hg g' (List.mem_cons_of_mem _ hg')
    have hlen : (decodedFrom D offset (g.frames.map Frame.toJson)).length = g.frames.length := by
      rw [← List.length_map (f := DecodedFrame.obj), map_obj_decodedFrom, List.length_map]
    refine ⟨⟨decodedFrom D offset (g.frames.map Frame.toJson),
      decodedAt D (offset + (encodeFrames D (g.frames.map Frame.toJson)).length) g.commit.toJson⟩ :: Γ,
      offset', ?_, .cons ⟨?_, ?_⟩ hall⟩
    · rw [List.flatMap_cons, List.append_assoc, decodedFrom_append, LogGroup.objs,
        decodedFrom_append, List.append_assoc]
      rw [show decodedFrom D (offset + (encodeFrames D (g.frames.map Frame.toJson)).length)
        [g.commit.toJson] = [decodedAt D (offset + (encodeFrames D
          (g.frames.map Frame.toJson)).length) g.commit.toJson] from rfl, List.singleton_append]
      rw [groupFrom_group (not_commit_decodedFrom hok.sound) (isCommit_toJson g.commit) (by
        rw [decodedAt, commitCount_toJson, hok.count, List.length_nil, Nat.zero_add, hlen]),
        List.nil_append]
      rw [← LogGroup.objs, hΓ]
    · exact map_readFrame_decodedFrom _ _
    · rw [FrameGroup.bytes, flatMap_line_decodedFrom, LogGroup.objs, encodeFrames_append]
      simp [decodedAt, encodeFrames]

variable {v : SegView}

theorem SegView.decoded (hv : v.Ok) : decodeFrames D (v.bytes D) =
    ⟨decodedFrom D 0 v.objs, if v.rest = [] then none
      else some ⟨(encodeFrames D v.objs).length, v.rest.length, .noNewline⟩⟩ :=
  decodeFrames_encodeFrames v.objs hv.rest

/-- **What a segment is read as.** -/
theorem SegView.grouped (hv : v.Ok) : ∃ Γ offset,
    groupFrames (decodeFrames D (v.bytes D)).frames
      = ⟨Γ, decodedFrom D offset (v.torn.map Frame.toJson), none⟩ ∧
        List.Forall₂ (ReadAs D) Γ v.groups := by
  rw [SegView.decoded hv]
  exact groupFrom_groups 0 v.groups v.torn hv.groups hv.torn

theorem readAs_frames {Γ : List FrameGroup} {groups : List LogGroup}
    (h : List.Forall₂ (ReadAs D) Γ groups) : (Γ.flatMap FrameGroup.frames).map readFrame
      = (groups.flatMap LogGroup.frames).map (frameLine D) := by
  induction h with
  | nil => rfl
  | cons hg _ ih => rw [List.flatMap_cons, List.flatMap_cons, List.map_append, List.map_append,
      hg.frames, ih]

theorem readAs_last {Γ : List FrameGroup} {groups : List LogGroup}
    (h : List.Forall₂ (ReadAs D) Γ groups) : Γ.getLast?.map FrameGroup.bytes
      = groups.getLast?.map fun g => encodeFrames D g.objs := by
  induction h with
  | nil => rfl
  | @cons G g Γ' groups' hg hall ih =>
    cases hall with
    | nil => simp [hg.bytes]
    | cons _ _ => simpa only [List.getLast?_cons_cons] using ih

end

/-! ## The files of the segments directory -/

theorem parseSegmentName_segmentName (e n : Nat) :
    parseSegmentName (segmentName e n) = some (e, n) := by
  have h1 : Json.spanDigits (segmentName e n) = (natText e, '-' :: (natText n ++ ".jsonl".toList)) := by
    rw [segmentName, List.append_assoc, List.cons_append]
    exact Json.spanDigits_append (fun _ => isDigit_of_mem_natText) (Json.noDigit_cons _ (by decide))
  have h2 : Json.spanDigits (natText n ++ ".jsonl".toList) = (natText n, ".jsonl".toList) :=
    Json.spanDigits_append (fun _ => isDigit_of_mem_natText) (Json.noDigit_cons _ (by decide))
  rw [parseSegmentName, h1]
  simp only [h2, if_true, parseNat_natText, Option.bind_some, Option.map_some]

theorem segmentName_injective {e n e' n' : Nat} (h : segmentName e n = segmentName e' n') :
    e = e' ∧ n = n' := by
  have h1 := parseSegmentName_segmentName e n
  rw [h, parseSegmentName_segmentName] at h1
  cases h1
  exact ⟨rfl, rfl⟩

theorem segmentFile_injective {a b : Text} (h : segmentFile a = segmentFile b) : a = b := by
  simpa [segmentFile, joinPath] using h

/-- Later in the log. -/
def SegView.Before (a b : SegView) : Prop := a.epoch < b.epoch ∨ a.epoch = b.epoch ∧ a.n < b.n

instance : Std.Total SegmentRef.le where
  total a b := by
    simp only [SegmentRef.le]
    omega

instance : IsTrans SegmentRef SegmentRef.le where
  trans a b c := by
    simp only [SegmentRef.le]
    omega

/-- The segment files of a disk are those of the views, in log order. -/
structure Shows (D : Digests) (fs : FS) (segs : List SegView) : Prop where
  dir : fs.get? segmentsDir = some .dir
  file : ∀ v ∈ segs, fs.get? (segmentFile v.name) = some (.file (v.bytes D))
  only : ∀ name node, fs.get? (segmentFile name) = some node → ∃ v ∈ segs, v.name = name
  sorted : segs.Pairwise SegView.Before
  ok : ∀ v ∈ segs, v.Ok

namespace Shows

variable {D : Digests} {fs fs' : FS} {segs : List SegView} {v : SegView}

theorem nodup_names (h : Shows D fs segs) : (segs.map SegView.name).Nodup := by
  rw [List.Nodup, List.pairwise_map]
  refine h.sorted.imp ?_
  rintro a b hab he
  obtain ⟨h1, h2⟩ := segmentName_injective he
  unfold SegView.Before at hab
  omega

/-- **Recovery lists the segments in log order.** -/
theorem segmentFiles_eq (h : Shows D fs segs) : segmentFiles fs = segs.map SegView.ref := by
  have hlist : listDir fs segmentsDir = fs.names segmentsDir := by
    rw [listDir, FS.readdir, h.dir]
  have hmem : ∀ name, name ∈ fs.names segmentsDir ↔ name ∈ segs.map SegView.name := by
    intro name
    rw [FS.mem_names_iff, List.mem_map]
    constructor
    · rintro ⟨node, hn⟩
      exact h.only name node hn
    · rintro ⟨v, hv, rfl⟩
      exact ⟨_, h.file v hv⟩
  have hperm : (fs.names segmentsDir).Perm (segs.map SegView.name) :=
    (List.perm_ext_iff_of_nodup (FS.nodup_names fs segmentsDir) h.nodup_names).mpr hmem
  have hrefs : (segs.map SegView.name).filterMap (fun name =>
      (parseSegmentName name).map fun p => (⟨name, p.1, p.2⟩ : SegmentRef)) = segs.map SegView.ref := by
    rw [List.filterMap_map, ← List.filterMap_eq_map]
    refine List.filterMap_congr fun v _ => ?_
    rw [Function.comp, SegView.name, parseSegmentName_segmentName]
    rfl
  have hsorted : (segs.map SegView.ref).Pairwise SegmentRef.le := by
    rw [List.pairwise_map]
    refine h.sorted.imp ?_
    intro a b hab
    rcases hab with hab | ⟨he, hn⟩
    · exact .inl hab
    · exact .inr ⟨he, Nat.le_of_lt hn⟩
  have hall : ((fs.names segmentsDir).filterMap fun name =>
      (parseSegmentName name).map fun p => (⟨name, p.1, p.2⟩ : SegmentRef)).Perm
        (segs.map SegView.ref) := hrefs ▸ hperm.filterMap _
  have hsort := (List.perm_insertionSort SegmentRef.le _).trans hall
  rw [segmentFiles, hlist]
  refine List.Perm.eq_of_pairwise ?_ (List.pairwise_insertionSort _ _) hsorted hsort
  intro a b ha hb hab hba
  obtain ⟨x, -, rfl⟩ := List.mem_map.mp (hsort.mem_iff.mp ha)
  obtain ⟨y, -, rfl⟩ := List.mem_map.mp hb
  have he : x.epoch = y.epoch ∧ x.n = y.n := by
    simp only [SegmentRef.le, SegView.ref] at hab hba
    omega
  rw [SegView.ref, SegView.ref, SegView.name, SegView.name, he.1, he.2]

theorem segmentFile_ne_dir (name : Text) : segmentFile name ≠ segmentsDir := by
  simp [segmentFile, joinPath]

/-- Only the segments directory and its files matter. -/
theorem congr (h : Shows D fs segs) (hd : fs'.get? segmentsDir = fs.get? segmentsDir)
    (hf : ∀ name, fs'.get? (segmentFile name) = fs.get? (segmentFile name)) : Shows D fs' segs where
  dir := hd.trans h.dir
  file v hv := (hf _).trans (h.file v hv)
  only name node hn := h.only name node ((hf name).symm.trans hn)
  sorted := h.sorted
  ok := h.ok

/-- A new segment, after all others. -/
theorem create (h : Shows D fs segs) {e n : Nat} (hlast : ∀ u ∈ segs, u.Before ⟨e, n, [], [], []⟩) :
    Shows D (fs.set (segmentFile (segmentName e n)) (.file [])) (segs ++ [⟨e, n, [], [], []⟩]) := by
  have hne : ∀ u ∈ segs, u.name ≠ segmentName e n := by
    intro u hu he
    obtain ⟨h1, h2⟩ := segmentName_injective he
    have := hlast u hu
    simp only [SegView.Before] at this
    omega
  refine ⟨?_, ?_, ?_, ?_, ?_⟩
  · rw [OrdMap.get?_set_of_ne _ (segmentFile_ne_dir _).symm]
    exact h.dir
  · intro u hu
    rcases List.mem_append.mp hu with hu | hu
    · rw [OrdMap.get?_set_of_ne _ fun he => hne u hu (segmentFile_injective he)]
      exact h.file u hu
    · rw [List.mem_singleton.mp hu]
      exact OrdMap.get?_set_self _
  · intro name node hn
    by_cases he : name = segmentName e n
    · exact ⟨_, List.mem_append_right _ (List.mem_singleton_self _), he.symm⟩
    · rw [OrdMap.get?_set_of_ne _ fun h => he (segmentFile_injective h)] at hn
      obtain ⟨u, hu, hname⟩ := h.only name node hn
      exact ⟨u, List.mem_append_left _ hu, hname⟩
  · rw [List.pairwise_append]
    exact ⟨h.sorted, List.pairwise_singleton _ _, fun u hu w hw => by
      rw [List.mem_singleton.mp hw]; exact hlast u hu⟩
  · intro u hu
    rcases List.mem_append.mp hu with hu | hu
    · exact h.ok u hu
    · rw [List.mem_singleton.mp hu]
      exact ⟨fun g hg => (by cases hg), fun f hf => (by cases hf), fun hm => (by cases hm)⟩

/-- Bytes at the end of the last segment. -/
theorem write {init : List SegView} (h : Shows D fs (init ++ [v])) {w : SegView} {b : Bytes}
    (he : w.epoch = v.epoch) (hn : w.n = v.n) (hb : w.bytes D = v.bytes D ++ b) (hw : w.Ok) :
    Shows D (fs.append (segmentFile v.name) b) (init ++ [w]) := by
  have hname : w.name = v.name := by rw [SegView.name, SegView.name, he, hn]
  have hv : v ∈ init ++ [v] := List.mem_append_right _ (List.mem_singleton_self v)
  have hnodup := h.nodup_names
  rw [List.map_append, List.nodup_append] at hnodup
  have hne : ∀ u ∈ init, u.name ≠ v.name := fun u hu => hnodup.2.2 _ (List.mem_map_of_mem hu) _
    (List.mem_singleton_self _)
  refine ⟨?_, ?_, ?_, ?_, ?_⟩
  · rw [FS.append_get?_of_ne (segmentFile_ne_dir _).symm]
    exact h.dir
  · intro u hu
    rcases List.mem_append.mp hu with hu | hu
    · rw [FS.append_get?_of_ne fun he => hne u hu (segmentFile_injective he)]
      exact h.file u (List.mem_append_left _ hu)
    · rw [List.mem_singleton.mp hu, hname, hb]
      exact FS.append_get?_self (h.file v hv)
  · intro name node hn
    have hn' : ∃ node, fs.get? (segmentFile name) = some node := by
      by_cases hp : segmentFile name = segmentFile v.name
      · exact ⟨_, by rw [hp]; exact h.file v hv⟩
      · rw [FS.append_get?_of_ne hp] at hn
        exact ⟨node, hn⟩
    obtain ⟨node', hn'⟩ := hn'
    obtain ⟨u, hu, hun⟩ := h.only name node' hn'
    rcases List.mem_append.mp hu with hu | hu
    · exact ⟨u, List.mem_append_left _ hu, hun⟩
    · rw [List.mem_singleton.mp hu] at hun
      exact ⟨w, List.mem_append_right _ (List.mem_singleton_self w), hname.trans hun⟩
  · have hs := h.sorted
    rw [List.pairwise_append] at hs ⊢
    refine ⟨hs.1, List.pairwise_singleton _ _, fun u hu x hx => ?_⟩
    have hb := hs.2.2 u hu v (List.mem_singleton_self v)
    rw [List.mem_singleton.mp hx]
    simpa only [SegView.Before, he, hn] using hb
  · intro u hu
    rcases List.mem_append.mp hu with hu | hu
    · exact h.ok u (List.mem_append_left _ hu)
    · rw [List.mem_singleton.mp hu]
      exact hw

end Shows

/-! ## Writing a group to a clean segment -/

/-- The segment with one more group. -/
def SegView.add (v : SegView) (g : LogGroup) : SegView := { v with groups := v.groups ++ [g] }

/-- The segment with a group that was cut off. -/
def SegView.tear (v : SegView) (fs : List Frame) (rest : Bytes) : SegView :=
  { v with torn := fs, rest := rest }

section

variable {D : Digests} {v : SegView} {g : LogGroup}

theorem SegView.bytes_add (hc : v.Clean) :
    (v.add g).bytes D = v.bytes D ++ encodeFrames D g.objs := by
  obtain ⟨epoch, n, groups, torn, rest⟩ := v
  obtain ⟨rfl, rfl⟩ : torn = [] ∧ rest = [] := ⟨hc.torn, hc.rest⟩
  simp [SegView.bytes, SegView.objs, SegView.add]

theorem SegView.ok_add (hv : v.Ok) (hg : g.Ok) : (v.add g).Ok where
  groups g' hg' := by
    rcases List.mem_append.mp hg' with h | h
    · exact hv.groups g' h
    · rw [List.mem_singleton.mp h]
      exact hg
  torn := hv.torn
  rest := hv.rest

theorem SegView.clean_add (hc : v.Clean) : (v.add g).Clean := ⟨hc.torn, hc.rest⟩

/-- **A group written up to any byte** is there whole, or some frames and a piece of a line are. -/
theorem SegView.write_cut (hv : v.Ok) (hc : v.Clean) (hg : g.Ok) (k : Nat) :
    ∃ w : SegView, (w = v.add g ∨ ∃ j rest, w = v.tear (g.frames.take j) rest) ∧ w.Ok ∧
      w.bytes D = v.bytes D ++ (encodeFrames D g.objs).take k := by
  obtain ⟨j, rest, hj, htake, hu, hlast⟩ := take_encodeFrames (D := D) g.objs k
  rcases Nat.lt_or_ge j g.objs.length with hlt | hge
  · refine ⟨v.tear (g.frames.take j) rest, .inr ⟨j, rest, rfl⟩, ?_, ?_⟩
    · exact ⟨hv.groups, fun f hf => hg.sound f (List.mem_of_mem_take hf), hu⟩
    · have hobjs : g.objs.take j = (g.frames.take j).map Frame.toJson := by
        rw [LogGroup.objs, List.length_append, List.length_map, List.length_singleton] at hlt
        rw [LogGroup.objs, List.take_append_of_le_length (by rw [List.length_map]; omega),
          List.map_take]
      obtain ⟨epoch, n, groups, torn, rest'⟩ := v
      obtain ⟨rfl, rfl⟩ : torn = [] ∧ rest' = [] := ⟨hc.torn, hc.rest⟩
      rw [htake, hobjs]
      simp [SegView.bytes, SegView.objs, SegView.tear]
  · have hjeq : j = g.objs.length := Nat.le_antisymm hj hge
    refine ⟨v.add g, .inl rfl, SegView.ok_add hv hg, ?_⟩
    rw [SegView.bytes_add hc, htake, hlast hjeq, hjeq, List.take_length, List.append_nil]

end

/-! ## The log -/

/-- The frames at positions that were not seen, in order. -/
def news : List Frame → List Frame → List Frame
  | _, [] => []
  | seen, f :: fs =>
    if seen.any fun g => g.pos = f.pos then news seen fs else f :: news (seen ++ [f]) fs

theorem news_append (seen a b : List Frame) :
    news seen (a ++ b) = news seen a ++ news (seen ++ news seen a) b := by
  induction a generalizing seen with
  | nil => simp [news]
  | cons f a ih =>
    rw [List.cons_append, news, news]
    split
    · exact ih seen
    · rw [ih, List.cons_append, List.append_assoc, List.singleton_append]

theorem news_of_seen {seen fs : List Frame} (h : ∀ f ∈ fs, ∃ g ∈ seen, g.pos = f.pos) :
    news seen fs = [] := by
  induction fs with
  | nil => rfl
  | cons f fs ih =>
    rw [news, if_pos (by simpa using h f List.mem_cons_self)]
    exact ih fun f' hf' => h f' (List.mem_cons_of_mem _ hf')

theorem news_of_new {seen fs : List Frame} (h : ∀ f ∈ fs, ∀ g ∈ seen, g.pos ≠ f.pos)
    (hd : fs.Pairwise fun a b => a.pos ≠ b.pos) : news seen fs = fs := by
  induction fs generalizing seen with
  | nil => rfl
  | cons f fs ih =>
    rw [List.pairwise_cons] at hd
    have hn : ¬ (seen.any fun g => g.pos = f.pos) = true := by
      simpa using h f List.mem_cons_self
    rw [news, if_neg hn, ih ?_ hd.2]
    intro f' hf' g hg
    rcases List.mem_append.mp hg with hg | hg
    · exact h f' (List.mem_cons_of_mem _ hf') g hg
    · rw [List.mem_singleton.mp hg]
      exact hd.1 f' hf'

def allFrames (segs : List SegView) : List Frame := segs.flatMap SegView.frames

/-- The frames of the committed groups of a segment's bytes. -/
def segmentFrames (D : Digests) (buf : Bytes) : List Frame :=
  ((groupFrames (decodeFrames D buf).frames).groups.flatMap FrameGroup.frames).map fun fr =>
    Frame.ofJson fr.obj

/-- The frames of the committed groups on a disk, in file order. -/
def committedFrames (D : Digests) (fs : FS) : List Frame :=
  (segmentFiles fs).flatMap fun f =>
    match fs.readFile (segmentFile f.name) with
    | .ok buf => segmentFrames D buf
    | .error _ => []

/-- **The log of a disk**: the committed frames, each position once. -/
def committedLog (D : Digests) (fs : FS) : List Frame := news [] (committedFrames D fs)

theorem map_ofJson_toJson {fs : List Frame} (h : ∀ f ∈ fs, f.Sound) :
    fs.map (fun f => Frame.ofJson f.toJson) = fs := by
  conv => rhs; rw [← List.map_id fs]
  exact List.map_congr_left fun f hf => Frame.ofJson_toJson (h f hf).wellFormed

theorem segmentFrames_bytes {D : Digests} {v : SegView} (hv : v.Ok) :
    segmentFrames D (v.bytes D) = v.frames := by
  obtain ⟨Γ, offset, hg, hall⟩ := SegView.grouped (D := D) hv
  have hframes := readAs_frames hall
  have hsound : ∀ f ∈ v.frames, f.Sound := by
    intro f hf
    obtain ⟨g, hg, hfg⟩ := List.mem_flatMap.mp hf
    exact (hv.groups g hg).sound f hfg
  have hmap : ∀ l : List DecodedFrame, l.map (fun fr => Frame.ofJson fr.obj)
      = (l.map readFrame).map fun x => Frame.ofJson x.1 := fun l => by
    rw [List.map_map]
    rfl
  rw [segmentFrames, hg, hmap, hframes, List.map_map]
  exact map_ofJson_toJson hsound

theorem Shows.committedFrames_eq {D : Digests} {fs : FS} {segs : List SegView}
    (h : Shows D fs segs) : committedFrames D fs = allFrames segs := by
  rw [committedFrames, h.segmentFiles_eq, List.flatMap_map, allFrames]
  refine List.flatMap_congr fun v hv => ?_
  rw [SegView.ref, FS.readFile_of_get? (h.file v hv)]
  exact segmentFrames_bytes (h.ok v hv)

/-- The frames on a disk and the log they make. -/
structure LogOk (all log : List Frame) : Prop where
  read : news [] all = log
  coherent : ∀ f ∈ all, f ∈ log
  sorted : log.Pairwise fun a b => comparePos a.pos b.pos < 0
  txns : (log.map Frame.txn).Nodup
  plain : ∀ f ∈ log, f.txn ≠ [] ∧ ':' ∉ f.txn
  sound : ∀ f ∈ log, f.Sound

theorem Shows.committedLog_eq {D : Digests} {fs : FS} {segs : List SegView} {log : List Frame}
    (h : Shows D fs segs) (hl : LogOk (allFrames segs) log) : committedLog D fs = log := by
  rw [committedLog, h.committedFrames_eq, hl.read]

namespace LogOk

variable {all log fs : List Frame}

theorem empty : LogOk [] [] :=
  ⟨rfl, by simp, .nil, .nil, by simp, by simp⟩

/-- Copies of frames of the log add nothing. -/
theorem copy (h : LogOk all log) (hf : ∀ f ∈ fs, f ∈ log) : LogOk (all ++ fs) log where
  read := by
    rw [news_append, h.read, List.nil_append, news_of_seen, List.append_nil]
    exact fun f hf' => ⟨f, hf f hf', rfl⟩
  coherent f hf' := by
    rcases List.mem_append.mp hf' with h' | h'
    · exact h.coherent f h'
    · exact hf f h'
  sorted := h.sorted
  txns := h.txns
  plain := h.plain
  sound := h.sound

/-- New frames, at later positions and of other transactions, make the log longer. -/
theorem extend (h : LogOk all log)
    (hpos : (log ++ fs).Pairwise fun a b => comparePos a.pos b.pos < 0)
    (htxns : ((log ++ fs).map Frame.txn).Nodup) (hplain : ∀ f ∈ fs, f.txn ≠ [] ∧ ':' ∉ f.txn)
    (hsound : ∀ f ∈ fs, f.Sound) : LogOk (all ++ fs) (log ++ fs) where
  read := by
    have hne : ∀ a b : Frame, comparePos a.pos b.pos < 0 → a.pos ≠ b.pos := by
      intro a b hab he
      rw [comparePos_neg_iff, he] at hab
      omega
    obtain ⟨-, hfs, hlog⟩ := List.pairwise_append.mp hpos
    rw [news_append, h.read, List.nil_append, news_of_new]
    · exact fun f hf g hg => hne g f (hlog g hg f hf)
    · exact hfs.imp fun {a b} hab => hne a b hab
  coherent f hf := by
    rcases List.mem_append.mp hf with h' | h'
    · exact List.mem_append_left _ (h.coherent f h')
    · exact List.mem_append_right _ h'
  sorted := hpos
  txns := htxns
  plain f hf := by
    rcases List.mem_append.mp hf with h' | h'
    · exact h.plain f h'
    · exact hplain f h'
  sound f hf := by
    rcases List.mem_append.mp hf with h' | h'
    · exact h.sound f h'
    · exact hsound f h'

end LogOk

end Telepty.Ledger
