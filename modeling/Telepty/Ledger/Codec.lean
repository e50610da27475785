import Telepty.Infra.JsonRoundtrip
import Telepty.Infra.Lines
import Telepty.Ledger.Format

/-!
# The frame codec

A segment is a sequence of lines `<json>\t<hash>\n`; a commit frame closes the frames before it
into a group. `decodeFrames` reads the lines up to the first one it cannot trust, `groupFrames`
splits what was read at the commit frames.

`decodeFrames_encodeFrames` and `groupFrames_append` say what a segment that holds whole lines and
a piece of one more decodes to.
-/

namespace Telepty.Ledger

open Infra

/-! ## Encoding -/

/-- The text of a frame's line. -/
def frameText (D : Digests) (obj : Json) : Text :=
  obj.stringify ++ '\t' :: D.frameHash obj.stringify

/-- `<json>\t<sha256(json)[0:16]>\n` -/
def encodeFrame (D : Digests) (obj : Json) : Bytes := encodeText (frameText D obj ++ ['\n'])

/-- The commit frame of a group. -/
structure Commit where
  epoch : Nat
  seqFrom : Nat
  seqTo : Nat
  n : Nat

def Commit.toJson (c : Commit) : Json :=
  .obj [("t", .str "commit"), ("epoch", .num c.epoch), ("seq_from", .num c.seqFrom),
    ("seq_to", .num c.seqTo), ("n", .num c.n)]

/-! ## Decoding -/

/-- One line that was read: its object, where it stands, its bytes with the newline, its hash. -/
structure DecodedFrame where
  obj : Json
  offset : Nat
  line : Bytes
  hash : Text

inductive TailReason where
  | noNewline
  | noHash
  | hashMismatch
  | unparseable
  deriving DecidableEq

structure Tail where
  offset : Nat
  bytes : Nat
  reason : TailReason
  deriving DecidableEq

structure Decoded where
  frames : List DecodedFrame
  tail : Option Tail

/-- The text before and after the last tab. -/
def splitLastTab : Text → Option (Text × Text)
  | [] => none
  | c :: t =>
    match splitLastTab t with
    | some (a, b) => some (c :: a, b)
    | none => if c = '\t' then some ([], t) else none

def decodeLine (D : Digests) (offset : Nat) (line : Bytes) : Except TailReason DecodedFrame :=
  match splitLastTab (decodeText line) with
  | none => .error .noHash
  | some (json, hash) =>
    if hash.length ≠ frameHashChars ∨ D.frameHash json ≠ hash then .error .hashMismatch
    else
      match Json.parse json with
      | none => .error .unparseable
      | some obj => .ok ⟨obj, offset, line ++ [newline], hash⟩

/-- The lines from `offset` on, up to the first one that cannot be applied; `total` is the length
of the buffer. -/
def decodeLines (D : Digests) (total : Nat) (rest : Bytes) : Nat → List Bytes → Decoded
  | offset, [] =>
    ⟨[], if rest = [] then none else some ⟨offset, total - offset, .noNewline⟩⟩
  | offset, line :: lines =>
    match decodeLine D offset line with
    | .error reason => ⟨[], some ⟨offset, total - offset, reason⟩⟩
    | .ok frame =>
      let next := decodeLines D total rest (offset + line.length + 1) lines
      ⟨frame :: next.frames, next.tail⟩

def decodeFrames (D : Digests) (buf : Bytes) : Decoded :=
  decodeLines D buf.length (splitLines buf).2 0 (splitLines buf).1

/-! ## Groups -/

structure FrameGroup where
  frames : List DecodedFrame
  commit : DecodedFrame

/-- `buf.subarray(first frame, end of the commit frame)`: the lines of a group follow one
another. -/
def FrameGroup.bytes (g : FrameGroup) : Bytes :=
  g.frames.flatMap DecodedFrame.line ++ g.commit.line

structure InvalidCommit where
  offset : Nat
  expected : Option Int
  actual : Nat

structure Grouped where
  groups : List FrameGroup
  open_ : List DecodedFrame
  invalidCommit : Option InvalidCommit

def isCommit (obj : Json) : Bool := obj.textField "t" = "commit"

/-- `Number(obj.n)` -/
def commitCount (obj : Json) : Option Int := (obj.field "n").map Json.toNumber

def groupFrom : List DecodedFrame → List DecodedFrame → Grouped
  | current, [] => ⟨[], current, none⟩
  | current, f :: fs =>
    if isCommit f.obj then
      if commitCount f.obj ≠ some (current.length : Int) then
        ⟨[], current ++ [f], some ⟨f.offset, commitCount f.obj, current.length⟩⟩
      else
        let next := groupFrom [] fs
        ⟨⟨current, f⟩ :: next.groups, next.open_, next.invalidCommit⟩
    else groupFrom (current ++ [f]) fs

def groupFrames (frames : List DecodedFrame) : Grouped := groupFrom [] frames

/-! ## What was written is read -/

variable {D : Digests} {obj : Json}

theorem splitLastTab_append {json hash : Text} (h : '\t' ∉ hash) :
    splitLastTab (json ++ '\t' :: hash) = some (json, hash) := by
  induction json with
  | nil =>
    have hnone : ∀ t : Text, '\t' ∉ t → splitLastTab t = none := by
      intro t ht
      induction t with
      | nil => rfl
      | cons c t ih =>
        rw [List.mem_cons, not_or] at ht
        rw [splitLastTab, ih ht.2]
        exact if_neg (Ne.symm ht.1)
    rw [List.nil_append, splitLastTab, hnone hash h]
    rfl
  | cons c json ih => rw [List.cons_append, splitLastTab, ih]

theorem le_of_isSome_hexValue {c : Char} (h : (Json.hexValue c).isSome) : 0x20 ≤ c.toNat := by
  unfold Json.hexValue at h
  split at h
  · next hc => exact Nat.le_trans (by decide) (UInt32.le_iff_toNat_le.mp hc.1)
  split at h
  · next hc => exact Nat.le_trans (by decide) (UInt32.le_iff_toNat_le.mp hc.1)
  split at h
  · next hc => exact Nat.le_trans (by decide) (UInt32.le_iff_toNat_le.mp hc.1)
  · cases h

theorem tab_not_mem_frameHash (t : Text) : '\t' ∉ D.frameHash t := fun h =>
  absurd (le_of_isSome_hexValue (D.frameHash_hex t _ h)) (by decide)

/-- A frame's line holds no newline. -/
theorem unbroken_frameText (D : Digests) (obj : Json) : Unbroken (encodeText (frameText D obj)) := by
  intro h
  have hc := mem_of_mem_encodeText h (by decide)
  rw [frameText, List.mem_append, List.mem_cons] at hc
  rcases hc with hc | hc | hc
  · exact absurd (Json.le_of_mem_stringify obj hc) (by decide)
  · exact absurd hc (by decide)
  · exact absurd (le_of_isSome_hexValue (D.frameHash_hex _ _ hc)) (by decide)

theorem encodeFrame_eq (D : Digests) (obj : Json) :
    encodeFrame D obj = encodeText (frameText D obj) ++ [newline] := by
  rw [encodeFrame, encodeText_append]
  rfl

/-- The frame that a written line is read as. -/
def decodedAt (D : Digests) (offset : Nat) (obj : Json) : DecodedFrame :=
  ⟨obj, offset, encodeFrame D obj, D.frameHash obj.stringify⟩

theorem decodeLine_frameText (offset : Nat) :
    decodeLine D offset (encodeText (frameText D obj)) = .ok (decodedAt D offset obj) := by
  rw [decodeLine, decodeText_encodeText, frameText, splitLastTab_append (tab_not_mem_frameHash _)]
  simp only
  rw [if_neg (by simp [D.frameHash_length]), Json.parse_stringify]
  simp only [decodedAt, encodeFrame_eq, frameText]

/-- The lines of some objects, one after another. -/
def encodeFrames (D : Digests) (objs : List Json) : Bytes := objs.flatMap (encodeFrame D)

@[simp] theorem encodeFrames_append (a b : List Json) :
    encodeFrames D (a ++ b) = encodeFrames D a ++ encodeFrames D b := List.flatMap_append

theorem encodeFrames_eq_joinLines (objs : List Json) :
    encodeFrames D objs = joinLines (objs.map fun o => encodeText (frameText D o)) := by
  induction objs with
  | nil => rfl
  | cons o objs ih =>
    rw [List.map_cons, joinLines_cons, ← ih, encodeFrames, List.flatMap_cons, encodeFrame_eq,
      List.append_assoc]
    rfl

theorem unbroken_lines (objs : List Json) :
    ∀ l ∈ objs.map fun o => encodeText (frameText D o), Unbroken l := by
  intro l hl
  obtain ⟨o, -, rfl⟩ := List.mem_map.mp hl
  exact unbroken_frameText D o

/-- The frames that written lines are read as, from an offset on. -/
def decodedFrom (D : Digests) : Nat → List Json → List DecodedFrame
  | _, [] => []
  | offset, o :: objs =>
    decodedAt D offset o :: decodedFrom D (offset + (encodeFrame D o).length) objs

@[simp] theorem map_obj_decodedFrom (offset : Nat) (objs : List Json) :
    (decodedFrom D offset objs).map DecodedFrame.obj = objs := by
  induction objs generalizing offset with
  | nil => rfl
  | cons o objs ih => rw [decodedFrom, List.map_cons, ih]; rfl

@[simp] theorem flatMap_line_decodedFrom (offset : Nat) (objs : List Json) :
    (decodedFrom D offset objs).flatMap DecodedFrame.line = encodeFrames D objs := by
  induction objs generalizing offset with
  | nil => rfl
  | cons o objs ih => rw [decodedFrom, List.flatMap_cons, ih]; rfl

/-- **Whole lines and a piece of one more are read as the lines**, and the piece is the tail. -/
theorem decodeFrames_encodeFrames (objs : List Json) {rest : Bytes} (hr : Unbroken rest) :
    decodeFrames D (encodeFrames D objs ++ rest) =
      ⟨decodedFrom D 0 objs,
        if rest = [] then none
        else some ⟨(encodeFrames D objs).length, rest.length, .noNewline⟩⟩ := by
  have key : ∀ (total offset : Nat),
      decodeLines D total rest offset (objs.map fun o => encodeText (frameText D o))
        = ⟨decodedFrom D offset objs,
            if rest = [] then none
            else some ⟨offset + (encodeFrames D objs).length,
              total - (offset + (encodeFrames D objs).length), .noNewline⟩⟩ := by
    intro total offset
    induction objs generalizing offset with
    | nil => rfl
    | cons o objs ih =>
      rw [List.map_cons, decodeLines, decodeLine_frameText]
      have hlen : (encodeFrame D o).length = (encodeText (frameText D o)).length + 1 := by
        rw [encodeFrame_eq, List.length_append]
        rfl
      have hs : (encodeFrames D (o :: objs)).length
          = (encodeFrame D o).length + (encodeFrames D objs).length := by
        rw [encodeFrames, List.flatMap_cons, List.length_append]
        rfl
      simp only [ih, decodedFrom, hs, hlen, Nat.add_assoc]
  have hsplit : splitLines (encodeFrames D objs ++ rest)
      = (objs.map fun o => encodeText (frameText D o), rest) := by
    rw [encodeFrames_eq_joinLines, splitLines_joinLines (unbroken_lines objs) hr]
  rw [decodeFrames, hsplit, key, List.length_append, Nat.zero_add, Nat.add_sub_cancel_left]

/-- **A prefix of written lines is fewer lines and a piece of the next one.** -/
theorem take_encodeFrames (objs : List Json) (k : Nat) :
    ∃ j rest, j ≤ objs.length ∧ (encodeFrames D objs).take k = encodeFrames D (objs.take j) ++ rest ∧
      Unbroken rest ∧ (j = objs.length → rest = []) := by
  obtain ⟨j, rest, hj, ht, hu, hl⟩ := take_joinLines _ k (unbroken_lines (D := D) objs)
  rw [List.length_map] at hj hl
  refine ⟨j, rest, hj, ?_, hu, hl⟩
  rw [encodeFrames_eq_joinLines, ht, encodeFrames_eq_joinLines, List.map_take]

/-! ## Groups of written lines -/

theorem isCommit_toJson (c : Commit) : isCommit c.toJson = true := by
  simp [isCommit, Commit.toJson, Json.textField, Json.field, Json.lookup, Json.asText]

theorem commitCount_toJson (c : Commit) : commitCount c.toJson = some (c.n : Int) := by
  simp [commitCount, Commit.toJson, Json.field, Json.lookup, Json.toNumber]

theorem groupFrom_of_no_commit {current fs : List DecodedFrame}
    (h : ∀ f ∈ fs, isCommit f.obj = false) : groupFrom current fs = ⟨[], current ++ fs, none⟩ := by
  induction fs generalizing current with
  | nil => rw [groupFrom, List.append_nil]
  | cons f fs ih =>
    rw [groupFrom, h f List.mem_cons_self, if_neg (by decide),
      ih fun f' hf' => h f' (List.mem_cons_of_mem _ hf'), List.append_assoc]
    rfl

theorem groupFrom_group {current fs rest : List DecodedFrame} {c : DecodedFrame}
    (h : ∀ f ∈ fs, isCommit f.obj = false) (hc : isCommit c.obj = true)
    (hn : commitCount c.obj = some ((current.length + fs.length : Nat) : Int)) :
    groupFrom current (fs ++ c :: rest) =
      ⟨⟨current ++ fs, c⟩ :: (groupFrom [] rest).groups, (groupFrom [] rest).open_,
        (groupFrom [] rest).invalidCommit⟩ := by
  induction fs generalizing current with
  | nil =>
    rw [List.nil_append, groupFrom, if_pos hc, if_neg (by rw [hn]; simp), List.append_nil]
  | cons f fs ih =>
    rw [List.cons_append, groupFrom, h f List.mem_cons_self, if_neg (by decide),
      ih (fun f' hf' => h f' (List.mem_cons_of_mem _ hf')) (by
        rw [hn, List.length_append, List.length_cons, List.length_singleton]
        congr 2
        omega), List.append_assoc]
    rfl

end Telepty.Ledger
