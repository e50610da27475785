import Telepty.Ledger.Codec

/-!
# A log that was cut off

After a crash a segment ends anywhere: in the middle of a character, in front of a newline, between
two frames. The codec is read here over any kind of payload, of which it knows how the payload is
written as text and read back and how a commit frame is told from other frames.
`decodeFrames_groups_take` says what the first `n` bytes of a log of groups decode to;
`decodeFrames_jsonPayloads` and `groupFrames_jsonPayloads` say that this is the codec of the ledger.
-/

namespace Telepty.Ledger

open Infra

/-- `JSON.stringify` and `JSON.parse` on what frames carry, and the two members of a payload that
`groupFrames` looks at. -/
structure Payloads (P : Type) where
  stringify : P → Text
  parse : Text → Option P
  /-- `f.obj && f.obj.t === 'commit'` -/
  isCommit : P → Bool
  /-- `Number(f.obj.n)`, where that is a whole number -/
  commitCount : P → Option Int
  parse_stringify : ∀ p, parse (stringify p) = some p
  /-- control characters are escaped -/
  le_of_mem_stringify : ∀ p, ∀ c ∈ stringify p, 0x20 ≤ c.toNat

/-- One frame that was read. -/
structure ReadFrame (P : Type) where
  obj : P
  offset : Nat
  length : Nat
  hash : Text

structure ReadFrames (P : Type) where
  frames : List (ReadFrame P)
  tail : Option Tail

structure ReadGroup (P : Type) where
  frames : List (ReadFrame P)
  commit : ReadFrame P

structure ReadGroups (P : Type) where
  groups : List (ReadGroup P)
  open_ : List (ReadFrame P)
  invalidCommit : Option InvalidCommit

namespace Payloads

variable {P : Type} (J : Payloads P) (D : Digests)

/-! ## The codec -/

/-- The text of a frame's line. -/
def frameText (obj : P) : Text := J.stringify obj ++ '\t' :: D.frameHash (J.stringify obj)

/-- `<json>\t<sha256(json)[0:16]>\n` -/
def encodeFrame (obj : P) : Bytes := encodeText (J.frameText D obj ++ ['\n'])

def encodeFrames (objs : List P) : Bytes := objs.flatMap (J.encodeFrame D)

def decodeLine (offset : Nat) (line : Bytes) : Except TailReason (ReadFrame P) :=
  match splitLastTab (decodeText line) with
  | none => .error .noHash
  | some (json, hash) =>
    if hash.length ≠ frameHashChars ∨ D.frameHash json ≠ hash then .error .hashMismatch
    else
      match J.parse json with
      | none => .error .unparseable
      | some obj => .ok ⟨obj, offset, line.length + 1, hash⟩

/-- The lines from `offset` on, up to the first one that cannot be applied; `total` is the length
of the buffer. -/
def decodeLines (total : Nat) (rest : Bytes) : Nat → List Bytes → ReadFrames P
  | offset, [] => ⟨[], if rest = [] then none else some ⟨offset, total - offset, .noNewline⟩⟩
  | offset, line :: lines =>
    match J.decodeLine D offset line with
    | .error reason => ⟨[], some ⟨offset, total - offset, reason⟩⟩
    | .ok frame =>
      let next := decodeLines total rest (offset + line.length + 1) lines
      ⟨frame :: next.frames, next.tail⟩

def decodeFrames (buf : Bytes) : ReadFrames P :=
  J.decodeLines D buf.length (splitLines buf).2 0 (splitLines buf).1

def groupFrom : List (ReadFrame P) → List (ReadFrame P) → ReadGroups P
  | current, [] => ⟨[], current, none⟩
  | current, f :: fs =>
    if J.isCommit f.obj then
      if J.commitCount f.obj ≠ some (current.length : Int) then
        ⟨[], current ++ [f], some ⟨f.offset, J.commitCount f.obj, current.length⟩⟩
      else
        let next := groupFrom [] fs
        ⟨⟨current, f⟩ :: next.groups, next.open_, next.invalidCommit⟩
    else groupFrom (current ++ [f]) fs

def groupFrames (frames : List (ReadFrame P)) : ReadGroups P := J.groupFrom [] frames

/-! ## Frames -/

variable {J D}

theorem unbroken_frameText (obj : P) : Unbroken (encodeText (J.frameText D obj)) := by
  intro h
  have hc := mem_of_mem_encodeText h (by decide)
  rw [frameText, List.mem_append, List.mem_cons] at hc
  rcases hc with hc | hc | hc
  · exact absurd (J.le_of_mem_stringify obj _ hc) (by decide)
  · exact absurd hc (by decide)
  · exact absurd (le_of_isSome_hexValue (D.frameHash_hex _ _ hc)) (by decide)

theorem encodeFrame_eq (obj : P) :
    J.encodeFrame D obj = encodeText (J.frameText D obj) ++ [newline] := by
  rw [encodeFrame, encodeText_append]
  rfl

theorem length_encodeFrames (objs : List P) :
    (J.encodeFrames D objs).length = totalSize (fun o => (J.encodeFrame D o).length) objs := by
  rw [encodeFrames, List.length_flatMap, totalSize]

theorem encodeFrames_eq_joinLines (objs : List P) :
    J.encodeFrames D objs = joinLines (objs.map fun o => encodeText (J.frameText D o)) := by
  induction objs with
  | nil => rfl
  | cons o objs ih =>
    rw [List.map_cons, joinLines_cons, ← ih, encodeFrames, List.flatMap_cons, encodeFrame_eq,
      List.append_assoc]
    rfl

variable (J D)

/-- The frame that a written line is read as. -/
def readAt (offset : Nat) (obj : P) : ReadFrame P :=
  ⟨obj, offset, (J.encodeFrame D obj).length, D.frameHash (J.stringify obj)⟩

/-- The frames that written lines are read as, from an offset on. -/
def readFrom : Nat → List P → List (ReadFrame P)
  | _, [] => []
  | offset, o :: objs =>
    J.readAt D offset o :: readFrom (offset + (J.encodeFrame D o).length) objs

variable {J D}

theorem decodeLine_frameText (offset : Nat) (obj : P) :
    J.decodeLine D offset (encodeText (J.frameText D obj)) = .ok (J.readAt D offset obj) := by
  rw [decodeLine, decodeText_encodeText, frameText, splitLastTab_append (tab_not_mem_frameHash _)]
  simp only
  rw [if_neg (by simp [D.frameHash_length]), J.parse_stringify]
  simp only [readAt, encodeFrame_eq, frameText, List.length_append, List.length_singleton]

/-- Whole lines and a piece of one more are read as the lines, and the piece is the tail. -/
theorem decodeFrames_encodeFrames (objs : List P) {rest : Bytes} (hr : Unbroken rest) :
    J.decodeFrames D (J.encodeFrames D objs ++ rest) =
      ⟨J.readFrom D 0 objs,
        if rest = [] then none
        else some ⟨(J.encodeFrames D objs).length, rest.length, .noNewline⟩⟩ := by
  have key : ∀ (total offset : Nat),
      J.decodeLines D total rest offset (objs.map fun o => encodeText (J.frameText D o))
        = ⟨J.readFrom D offset objs,
            if rest = [] then none
            else some ⟨offset + (J.encodeFrames D objs).length,
              total - (offset + (J.encodeFrames D objs).length), .noNewline⟩⟩ := by
    intro total offset
    induction objs generalizing offset with
    | nil => rfl
    | cons o objs ih =>
      rw [List.map_cons, decodeLines, decodeLine_frameText]
      have hlen : (J.encodeFrame D o).length = (encodeText (J.frameText D o)).length + 1 := by
        rw [encodeFrame_eq, List.length_append]
        rfl
      have hs : (J.encodeFrames D (o :: objs)).length
          = (J.encodeFrame D o).length + (J.encodeFrames D objs).length := by
        rw [encodeFrames, List.flatMap_cons, List.length_append]
        rfl
      simp only [ih, readFrom, hs, hlen, Nat.add_assoc]
  have hlines : ∀ l ∈ objs.map fun o => encodeText (J.frameText D o), Unbroken l := by
    intro l hl
    obtain ⟨o, -, rfl⟩ := List.mem_map.mp hl
    exact unbroken_frameText o
  have hsplit : splitLines (J.encodeFrames D objs ++ rest)
      = (objs.map fun o => encodeText (J.frameText D o), rest) := by
    rw [encodeFrames_eq_joinLines, splitLines_joinLines hlines hr]
  rw [decodeFrames, hsplit, key, List.length_append, Nat.zero_add, Nat.add_sub_cancel_left]

/-- A prefix of written lines is the lines that lie within it and a piece of the next one. -/
theorem take_encodeFrames (objs : List P) (n : Nat) :
    ∃ rest, (J.encodeFrames D objs).take n
        = J.encodeFrames D (within (fun o => (J.encodeFrame D o).length) n objs) ++ rest ∧
      Unbroken rest := by
  induction objs generalizing n with
  | nil => exact ⟨[], by simp [encodeFrames, within], by simp [Unbroken]⟩
  | cons o objs ih =>
    rw [within, encodeFrames, List.flatMap_cons]
    by_cases hn : (J.encodeFrame D o).length ≤ n
    · obtain ⟨rest, hrest, hu⟩ := ih (n - (J.encodeFrame D o).length)
      refine ⟨rest, ?_, hu⟩
      rw [if_pos hn, List.take_append, List.take_of_length_le hn, encodeFrames, List.flatMap_cons,
        List.append_assoc]
      exact congrArg _ hrest
    · -- the cut is in front of the newline of the line
      refine ⟨(encodeText (J.frameText D o)).take n, ?_, fun h =>
        unbroken_frameText o (List.mem_of_mem_take h)⟩
      have hlen : n ≤ (encodeText (J.frameText D o)).length := by
        rw [encodeFrame_eq, List.length_append, List.length_singleton] at hn
        omega
      rw [if_neg hn, List.take_append_of_le_length (by omega), encodeFrame_eq,
        List.take_append_of_le_length hlen]
      rfl

/-- **The frames read from a cut log** are those that lie within it, and the tail begins where the
first incomplete one does. -/
theorem decodeFrames_take (objs : List P) (n : Nat) :
    J.decodeFrames D ((J.encodeFrames D objs).take n) =
      ⟨J.readFrom D 0 (within (fun o => (J.encodeFrame D o).length) n objs),
        let whole := totalSize (fun o => (J.encodeFrame D o).length)
          (within (fun o => (J.encodeFrame D o).length) n objs)
        let length := ((J.encodeFrames D objs).take n).length
        if whole = length then none else some ⟨whole, length - whole, .noNewline⟩⟩ := by
  obtain ⟨rest, hrest, hu⟩ := take_encodeFrames (J := J) (D := D) objs n
  rw [hrest, decodeFrames_encodeFrames _ hu, List.length_append, length_encodeFrames]
  simp only [ReadFrames.mk.injEq, true_and]
  cases rest with
  | nil => simp
  | cons b rest => simp

/-! ## Groups -/

/-- The frames of a group and the commit frame that closes it. -/
abbrev Group (P : Type) := List P × P

/-- The lines of a group. -/
def groupLines (g : Group P) : List P := g.1 ++ [g.2]

variable (J D)

/-- A commit frame closes the group, and no frame in it is one. -/
structure Closed (g : Group P) : Prop where
  members : ∀ m ∈ g.1, J.isCommit m = false
  commit : J.isCommit g.2 = true
  count : J.commitCount g.2 = some (g.1.length : Int)

/-- How long a frame is, and how long a group. -/
def frameLength (obj : P) : Nat := (J.encodeFrame D obj).length

def groupLength (g : Group P) : Nat := totalSize (J.frameLength D) (groupLines g)

/-- The payloads of a group that was read. -/
def payloads (g : ReadGroup P) : Group P := (g.frames.map ReadFrame.obj, g.commit.obj)

variable {J D}

@[simp] theorem map_obj_readFrom (offset : Nat) (objs : List P) :
    (J.readFrom D offset objs).map ReadFrame.obj = objs := by
  induction objs generalizing offset with
  | nil => rfl
  | cons o objs ih => rw [readFrom, List.map_cons, ih]; rfl

theorem readFrom_append (offset : Nat) (a b : List P) :
    J.readFrom D offset (a ++ b)
      = J.readFrom D offset a ++ J.readFrom D (offset + totalSize (J.frameLength D) a) b := by
  induction a generalizing offset with
  | nil => rfl
  | cons o a ih =>
    rw [List.cons_append, readFrom, ih, readFrom, List.cons_append, totalSize_cons, frameLength,
      Nat.add_assoc]

theorem not_commit_readFrom {objs : List P} (h : ∀ o ∈ objs, J.isCommit o = false) (offset : Nat) :
    ∀ f ∈ J.readFrom D offset objs, J.isCommit f.obj = false := fun f hf =>
  h f.obj (by rw [← map_obj_readFrom (J := J) (D := D) offset objs]; exact List.mem_map_of_mem hf)

theorem groupFrom_of_no_commit {current fs : List (ReadFrame P)}
    (h : ∀ f ∈ fs, J.isCommit f.obj = false) : J.groupFrom current fs = ⟨[], current ++ fs, none⟩ := by
  induction fs generalizing current with
  | nil => rw [groupFrom, List.append_nil]
  | cons f fs ih =>
    rw [groupFrom, h f List.mem_cons_self, if_neg (by decide),
      ih fun f' hf' => h f' (List.mem_cons_of_mem _ hf'), List.append_assoc]
    rfl

theorem groupFrom_group {current fs rest : List (ReadFrame P)} {c : ReadFrame P}
    (h : ∀ f ∈ fs, J.isCommit f.obj = false) (hc : J.isCommit c.obj = true)
    (hn : J.commitCount c.obj = some ((current.length + fs.length : Nat) : Int)) :
    J.groupFrom current (fs ++ c :: rest) =
      ⟨⟨current ++ fs, c⟩ :: (J.groupFrom [] rest).groups, (J.groupFrom [] rest).open_,
        (J.groupFrom [] rest).invalidCommit⟩ := by
  induction fs generalizing current with
  | nil => rw [List.nil_append, groupFrom, if_pos hc, if_neg (by rw [hn]; simp), List.append_nil]
  | cons f fs ih =>
    rw [List.cons_append, groupFrom, h f List.mem_cons_self, if_neg (by decide),
      ih (fun f' hf' => h f' (List.mem_cons_of_mem _ hf')) (by
        rw [hn, List.length_append, List.length_cons, List.length_singleton]
        congr 2
        omega), List.append_assoc]
    rfl

/-- The lines of a closed group make up one group. -/
theorem groupFrames_closed {g : Group P} (h : J.Closed g) (offset : Nat) (rest : List (ReadFrame P)) :
    ∃ r : ReadGroup P, payloads r = g ∧
      J.groupFrames (J.readFrom D offset (groupLines g) ++ rest) =
        ⟨r :: (J.groupFrames rest).groups, (J.groupFrames rest).open_,
          (J.groupFrames rest).invalidCommit⟩ := by
  refine ⟨⟨J.readFrom D offset g.1, J.readAt D (offset + totalSize (J.frameLength D) g.1) g.2⟩,
    by rw [payloads, map_obj_readFrom]; rfl, ?_⟩
  have hlen : (J.readFrom D offset g.1).length = g.1.length := by
    rw [← List.length_map ReadFrame.obj, map_obj_readFrom]
  rw [groupLines, readFrom_append, readFrom, readFrom, List.append_assoc, List.singleton_append,
    groupFrames, groupFrom_group (not_commit_readFrom h.members offset) h.commit (by
      rw [List.length_nil, Nat.zero_add, hlen]
      exact h.count), List.nil_append, groupFrames]

/-- The lines that lie within the first `n` bytes of a log of groups are the groups within and
frames of the next one that do not close it. -/
theorem within_lines (groups : List (Group P)) (n : Nat) (h : ∀ g ∈ groups, J.Closed g) :
    ∃ rest, within (J.frameLength D) n (groups.flatMap groupLines)
        = (within (J.groupLength D) n groups).flatMap groupLines ++ rest ∧
      ∀ o ∈ rest, J.isCommit o = false := by
  induction groups generalizing n with
  | nil => exact ⟨[], rfl, by simp⟩
  | cons g groups ih =>
    rw [List.flatMap_cons, within_append]
    have hlen : totalSize (J.frameLength D) (groupLines g) = J.groupLength D g := rfl
    by_cases hn : J.groupLength D g ≤ n
    · obtain ⟨rest, hrest, hopen⟩ := ih (n - J.groupLength D g) fun g' hg' =>
        h g' (List.mem_cons_of_mem _ hg')
      refine ⟨rest, ?_, hopen⟩
      rw [hlen, if_pos hn, hrest, within, if_pos hn, List.flatMap_cons, List.append_assoc]
    · refine ⟨within (J.frameLength D) n (groupLines g), ?_, ?_⟩
      · rw [hlen, if_neg hn, within, if_neg hn]
        rfl
      · -- the commit frame is the last line of the group, so it is the one that does not fit
        intro o ho
        rw [groupLines, within_append] at ho
        split at ho
        · next hmembers =>
          have hcommit : ¬ J.frameLength D g.2 ≤ n - totalSize (J.frameLength D) g.1 := by
            rw [groupLength, groupLines, totalSize_append, totalSize_cons, totalSize_nil] at hn
            omega
          rw [within, if_neg hcommit, List.append_nil] at ho
          exact (h g List.mem_cons_self).members o ho
        · exact (h g List.mem_cons_self).members o (mem_of_mem_within _ ho)

theorem groupFrames_lines {groups : List (Group P)} (h : ∀ g ∈ groups, J.Closed g) {rest : List P}
    (hrest : ∀ o ∈ rest, J.isCommit o = false) (offset : Nat) :
    (J.groupFrames (J.readFrom D offset (groups.flatMap groupLines ++ rest))).groups.map payloads
        = groups ∧
      (J.groupFrames (J.readFrom D offset (groups.flatMap groupLines ++ rest))).open_.map
        ReadFrame.obj = rest ∧
      (J.groupFrames (J.readFrom D offset (groups.flatMap groupLines ++ rest))).invalidCommit
        = none := by
  induction groups generalizing offset with
  | nil =>
    rw [List.flatMap_nil, List.nil_append, groupFrames,
      groupFrom_of_no_commit (not_commit_readFrom hrest offset), List.nil_append]
    exact ⟨rfl, map_obj_readFrom offset rest, rfl⟩
  | cons g groups ih =>
    rw [List.flatMap_cons, List.append_assoc, readFrom_append]
    obtain ⟨r, hr, hgroups⟩ := groupFrames_closed (D := D) (h g List.mem_cons_self) offset
      (J.readFrom D (offset + totalSize (J.frameLength D) (groupLines g))
        (groups.flatMap groupLines ++ rest))
    obtain ⟨h1, h2, h3⟩ := ih (fun g' hg' => h g' (List.mem_cons_of_mem _ hg'))
      (offset + totalSize (J.frameLength D) (groupLines g))
    rw [hgroups]
    exact ⟨by rw [List.map_cons, hr, h1], h2, h3⟩

/-- **A log that is cut off anywhere is read as what lies whole within it.** The frames are the
complete ones, the tail begins at the first incomplete one and is no damage, the groups are those
whose commit frame is complete; the whole log is read as its groups. -/
theorem decodeFrames_groups_take {groups : List (Group P)} (h : ∀ g ∈ groups, J.Closed g) (n : Nat) :
    let lines := groups.flatMap groupLines
    let read := J.decodeFrames D ((J.encodeFrames D lines).take n)
    let whole := within (J.frameLength D) n lines
    let length := ((J.encodeFrames D lines).take n).length
    read.frames = J.readFrom D 0 whole ∧
      read.tail = (if totalSize (J.frameLength D) whole = length then none
        else some ⟨totalSize (J.frameLength D) whole, length - totalSize (J.frameLength D) whole,
          .noNewline⟩) ∧
      (J.groupFrames read.frames).groups.map payloads = within (J.groupLength D) n groups ∧
      (J.groupFrames read.frames).invalidCommit = none ∧
      ((J.encodeFrames D lines).length ≤ n →
        read.tail = none ∧ (J.groupFrames read.frames).groups.map payloads = groups ∧
          (J.groupFrames read.frames).open_ = []) := by
  intro lines read whole length
  have hread : read = ⟨J.readFrom D 0 whole, _⟩ := decodeFrames_take lines n
  have hframes : read.frames = J.readFrom D 0 whole := by rw [hread]
  have htail : read.tail = if totalSize (J.frameLength D) whole = length then none
      else some ⟨totalSize (J.frameLength D) whole, length - totalSize (J.frameLength D) whole,
        .noNewline⟩ := by
    rw [hread]
    rfl
  obtain ⟨rest, hrest, hopen⟩ := within_lines (D := D) groups n h
  have hwithin : ∀ g ∈ within (J.groupLength D) n groups, J.Closed g := fun g hg =>
    h g (mem_of_mem_within _ hg)
  obtain ⟨h1, h2, h3⟩ := groupFrames_lines (D := D) hwithin hopen 0
  rw [← hrest] at h1 h2 h3
  refine ⟨hframes, htail, by rw [hframes]; exact h1, by rw [hframes]; exact h3, fun hn => ?_⟩
  have hsize : totalSize (J.frameLength D) lines = (J.encodeFrames D lines).length :=
    (length_encodeFrames lines).symm
  have hall : whole = lines := within_of_le _ (by rw [hsize]; exact hn)
  have hgroups : within (J.groupLength D) n groups = groups := by
    refine within_of_le _ (Nat.le_trans (Nat.le_of_eq ?_) hn)
    rw [← hsize]
    exact (totalSize_flatMap _ groupLines groups).symm
  have hnone : rest = [] := by
    rw [hgroups] at hrest
    have : lines = lines ++ rest := by rw [← hrest]; exact hall.symm
    simpa using this
  refine ⟨?_, by rw [hframes, h1, hgroups], ?_⟩
  · rw [htail, if_pos]
    rw [hall, hsize]
    exact congrArg List.length (List.take_of_length_le hn).symm
  · rw [hframes]
    rw [hnone] at h2
    exact List.map_eq_nil_iff.mp h2

end Payloads

/-! ## The payloads of the ledger -/

/-- The payloads that the model of the ledger has. -/
def jsonPayloads : Payloads Json where
  stringify := Json.stringify
  parse := Json.parse
  isCommit := isCommit
  commitCount := commitCount
  parse_stringify := Json.parse_stringify
  le_of_mem_stringify obj _ hc := Json.le_of_mem_stringify obj hc

def DecodedFrame.read (f : DecodedFrame) : ReadFrame Json := ⟨f.obj, f.offset, f.line.length, f.hash⟩

def FrameGroup.read (g : FrameGroup) : ReadGroup Json :=
  ⟨g.frames.map DecodedFrame.read, g.commit.read⟩

theorem decodeLine_jsonPayloads (D : Digests) (offset : Nat) (line : Bytes) :
    jsonPayloads.decodeLine D offset line = (decodeLine D offset line).map DecodedFrame.read := by
  rw [Payloads.decodeLine, decodeLine]
  cases splitLastTab (decodeText line) with
  | none => rfl
  | some parts =>
    obtain ⟨json, hash⟩ := parts
    simp only
    by_cases hhash : hash.length ≠ frameHashChars ∨ D.frameHash json ≠ hash
    · rw [if_pos hhash, if_pos hhash]
      rfl
    · rw [if_neg hhash, if_neg hhash, show jsonPayloads.parse json = Json.parse json from rfl]
      cases Json.parse json with
      | none => rfl
      | some obj => simp [Except.map, DecodedFrame.read]

/-- **The frames of the ledger are decoded in this way.** -/
theorem decodeFrames_jsonPayloads (D : Digests) (buf : Bytes) :
    jsonPayloads.decodeFrames D buf
      = ⟨(decodeFrames D buf).frames.map DecodedFrame.read, (decodeFrames D buf).tail⟩ := by
  have hlines : ∀ (total : Nat) (rest : Bytes) (lines : List Bytes) (offset : Nat),
      jsonPayloads.decodeLines D total rest offset lines
        = ⟨(decodeLines D total rest offset lines).frames.map DecodedFrame.read,
            (decodeLines D total rest offset lines).tail⟩ := by
    intro total rest lines
    induction lines with
    | nil => exact fun _ => rfl
    | cons line lines ih =>
      intro offset
      rw [Payloads.decodeLines, decodeLines, decodeLine_jsonPayloads]
      cases decodeLine D offset line with
      | error reason => rfl
      | ok frame =>
        simp only [Except.map, ih]
        rfl
  exact hlines _ _ _ _

/-- **The frames of the ledger are grouped in this way.** -/
theorem groupFrames_jsonPayloads (frames : List DecodedFrame) :
    jsonPayloads.groupFrames (frames.map DecodedFrame.read)
      = ⟨(groupFrames frames).groups.map FrameGroup.read,
          (groupFrames frames).open_.map DecodedFrame.read, (groupFrames frames).invalidCommit⟩ := by
  have hfrom : ∀ (fs current : List DecodedFrame),
      jsonPayloads.groupFrom (current.map DecodedFrame.read) (fs.map DecodedFrame.read)
        = ⟨(groupFrom current fs).groups.map FrameGroup.read,
            (groupFrom current fs).open_.map DecodedFrame.read,
            (groupFrom current fs).invalidCommit⟩ := by
    intro fs
    induction fs with
    | nil => exact fun _ => rfl
    | cons f fs ih =>
      intro current
      rw [List.map_cons, Payloads.groupFrom, groupFrom, List.length_map]
      have hlast := ih (current ++ [f])
      rw [List.map_append] at hlast
      by_cases hc : isCommit f.obj = true
      · rw [if_pos (show jsonPayloads.isCommit f.read.obj = true from hc), if_pos hc]
        by_cases hn : commitCount f.obj = some (current.length : Int)
        · rw [if_neg (not_not.mpr (show jsonPayloads.commitCount f.read.obj
            = some (current.length : Int) from hn)), if_neg (not_not.mpr hn)]
          simp only
          have hnil := ih []
          rw [List.map_nil] at hnil
          rw [hnil]
          rfl
        · rw [if_pos (show jsonPayloads.commitCount f.read.obj
            ≠ some (current.length : Int) from hn), if_pos hn, List.map_append]
          rfl
      · rw [if_neg (show ¬ jsonPayloads.isCommit f.read.obj = true from hc), if_neg hc]
        exact hlast
  exact hfrom frames []

/-! ## Two logs -/

/-- A group of one observation. -/
def oneObservation (n : Nat) : Payloads.Group Json :=
  ([.obj [("t", .str "obs"), ("seq", .num n)]], (Commit.mk 1 n n 1).toJson)

theorem closed_oneObservation (n : Nat) : jsonPayloads.Closed (oneObservation n) where
  members m hm := by
    rw [List.mem_singleton.mp hm]
    simp [jsonPayloads, isCommit, Json.textField, Json.field, Json.lookup, Json.asText]
  commit := isCommit_toJson ⟨1, n, n, 1⟩
  count := commitCount_toJson ⟨1, n, n, 1⟩

/-- Two groups, cut in the second. -/
theorem decodeFrames_groups_take_two :
    let groups := [oneObservation 1, oneObservation 2]
    let lines := groups.flatMap Payloads.groupLines
    let read := jsonPayloads.decodeFrames nodeCrypto
      ((jsonPayloads.encodeFrames nodeCrypto lines).take 150)
    let whole := within (jsonPayloads.frameLength nodeCrypto) 150 lines
    let length := ((jsonPayloads.encodeFrames nodeCrypto lines).take 150).length
    read.frames = jsonPayloads.readFrom nodeCrypto 0 whole ∧
      read.tail = (if totalSize (jsonPayloads.frameLength nodeCrypto) whole = length then none
        else some ⟨totalSize (jsonPayloads.frameLength nodeCrypto) whole,
          length - totalSize (jsonPayloads.frameLength nodeCrypto) whole, .noNewline⟩) ∧
      (jsonPayloads.groupFrames read.frames).groups.map Payloads.payloads
        = within (jsonPayloads.groupLength nodeCrypto) 150 groups ∧
      (jsonPayloads.groupFrames read.frames).invalidCommit = none ∧
      ((jsonPayloads.encodeFrames nodeCrypto lines).length ≤ 150 →
        read.tail = none ∧
          (jsonPayloads.groupFrames read.frames).groups.map Payloads.payloads = groups ∧
          (jsonPayloads.groupFrames read.frames).open_ = []) :=
  Payloads.decodeFrames_groups_take (by
    intro g hg
    simp only [List.mem_cons, List.not_mem_nil, or_false] at hg
    rcases hg with rfl | rfl
    · exact closed_oneObservation 1
    · exact closed_oneObservation 2) 150

/-- A frame in a group whose payload looks like a commit frame: the group is not read back, although
nothing of the log is missing. -/
theorem member_taken_for_commit :
    let lines : List Json := [.obj [("t", .str "commit"), ("n", .num 5)], (Commit.mk 1 1 1 1).toJson]
    let read := jsonPayloads.decodeFrames nodeCrypto (jsonPayloads.encodeFrames nodeCrypto lines)
    read.tail = none ∧ (jsonPayloads.groupFrames read.frames).groups = [] ∧
      (jsonPayloads.groupFrames read.frames).invalidCommit.isSome = true := by
  intro lines read
  have hread : read = ⟨jsonPayloads.readFrom nodeCrypto 0 lines, none⟩ := by
    have hnone : Unbroken ([] : Bytes) := by simp [Unbroken]
    have := Payloads.decodeFrames_encodeFrames (J := jsonPayloads) (D := nodeCrypto) lines hnone
    rw [List.append_nil] at this
    exact this
  have hcommit : jsonPayloads.isCommit (.obj [("t", .str "commit"), ("n", .num 5)]) = true := by
    simp [jsonPayloads, isCommit, Json.textField, Json.field, Json.lookup, Json.asText]
  have hcount : jsonPayloads.commitCount (.obj [("t", .str "commit"), ("n", .num 5)]) = some 5 := by
    simp [jsonPayloads, commitCount, Json.field, Json.lookup, Json.toNumber]
  have hgroup : jsonPayloads.groupFrames (jsonPayloads.readFrom nodeCrypto 0 lines)
      = ⟨[], [jsonPayloads.readAt nodeCrypto 0 (.obj [("t", .str "commit"), ("n", .num 5)])],
          some ⟨0, some 5, 0⟩⟩ := by
    rw [Payloads.readFrom, Payloads.groupFrames, Payloads.groupFrom]
    simp only [Payloads.readAt, hcommit, hcount, if_true, List.nil_append, List.length_nil]
    rw [if_pos (by decide)]
  rw [hread]
  refine ⟨rfl, ?_, ?_⟩
  · rw [hgroup]
  · rw [hgroup]
    rfl

end Telepty.Ledger
