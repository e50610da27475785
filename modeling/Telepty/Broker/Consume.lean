import Telepty.Infra.Ascii
import Telepty.Infra.Delimited
import Telepty.Infra.Jsonl
import Telepty.Infra.Lines

/-!
# The event stream of a broker node

`consume` of `createBrokerNode`: the node reads the stream of its hub in the chunks the network gives
it, cuts what it holds at each blank line and hands the data frames over. A stream is read to its end
here, by a node that is not stopped.

The frames do not depend on the chunks, but the limit does: it is tested on what is held together with
the chunk, before the frames that are complete are cut off.
-/

namespace Telepty.Broker.Node

open Infra

/-- `'\n\n'` -/
def blankLine : Delimiter UInt8 := ⟨[newline, newline], by decide⟩

/-- `128 * 1024` -/
def frameLimit : Nat := 131072

/-- Why a stream is no longer read: the node rejects it, or `handle` throws. -/
inductive Stop (ε : Type) where
  | rejected (code : Text)
  | thrown (e : ε)
  deriving DecidableEq

section

variable {σ ε : Type} (handle : Text → σ → Except ε σ)

/-- One frame: a comment is skipped, and the data of a data frame is handled. -/
def takeFrame (frame : Text) (s : σ) : Except (Stop ε) σ :=
  if [':'] <+: frame then .ok s
  else if ¬"data: ".toList <+: frame ∨ '\n' ∈ frame then .error (.rejected "BROKER_FRAME_INVALID")
  else
    match handle (frame.drop 6) s with
    | .ok s => .ok s
    | .error e => .error (.thrown e)

/-- `while ((end = pending.indexOf('\n\n')) !== -1)` -/
def takeFrames (pending : Bytes) (s : σ) : Except (Stop ε) (Bytes × σ) :=
  match _h : cutFirst blankLine pending with
  | none => .ok (pending, s)
  | some (frame, rest) =>
    match takeFrame handle (decodeText frame) s with
    | .ok s => takeFrames rest s
    | .error e => .error e
termination_by pending.length
decreasing_by exact length_lt_of_cutFirst ‹_›

/-- One chunk that the reader gives. -/
def takeChunk (held : Bytes × σ) (value : Bytes) : Except (Stop ε) (Bytes × σ) :=
  if frameLimit < held.1.length + value.length then .error (.rejected "BROKER_FRAME_TOO_LARGE")
  else takeFrames handle (held.1 ++ value) held.2

/-- `consume(response)`: the state that `handle` leaves. -/
def consume (chunks : List Bytes) (s : σ) : Except (Stop ε) σ := do
  let (pending, s) ← chunks.foldlM (takeChunk handle) ([], s)
  if pending ≠ [] then .error (.rejected "BROKER_FRAME_TRUNCATED") else .ok s

end

/-! ## Streams of frames -/

/-- What the hub sends before a blank line. -/
inductive Frame where
  | comment (text : Bytes)
  | data (body : Bytes)

def Frame.bytes : Frame → Bytes
  | .comment text => encodeText [':'] ++ text
  | .data body => encodeText "data: ".toList ++ body

/-- The data frames, as they are handed over. -/
def bodies (frames : List Frame) : List Text :=
  frames.filterMap fun
    | .comment _ => none
    | .data body => some (decodeText body)

/-- No blank line inside: the first one ends the frame. -/
def Whole (frames : List Frame) : Prop := ∀ f ∈ frames, blankLine.Ends f.bytes

def stream (frames : List Frame) : Bytes := blankLine.join (frames.map Frame.bytes)

/-- What is held of a stream: the bytes behind the last blank line. -/
def heldOf (read : Bytes) : Bytes := (pieces blankLine read).2

/-- Each chunk, together with what is held of the stream before it, is within the limit. -/
def Fits (chunks : List Bytes) : Prop :=
  ∀ before chunk after, chunks = before ++ chunk :: after →
    (heldOf before.flatten).length + chunk.length ≤ frameLimit

/-- The data frames are handed over one after another, and nothing else ends the reading. -/
def Hands (frames : List Frame) (chunks : List Bytes) : Prop :=
  ∀ (σ ε : Type) (handle : Text → σ → Except ε σ) (s : σ),
    consume handle chunks s =
      ((bodies frames).foldlM (fun s body => handle body s) s).mapError Stop.thrown

/-! ## Chunks -/

section

variable {σ ε : Type} {handle : Text → σ → Except ε σ} {s : σ} {held : Bytes} {chunks : List Bytes}

/-- The frames one after another, without what is held. -/
def takeAll (handle : Text → σ → Except ε σ) (frames : List Bytes) (s : σ) : Except (Stop ε) σ :=
  frames.foldlM (fun s frame => takeFrame handle (decodeText frame) s) s

theorem takeAll_cons (frame : Bytes) (frames : List Bytes) (s : σ) :
    takeAll handle (frame :: frames) s =
      (takeFrame handle (decodeText frame) s).bind (takeAll handle frames) := rfl

theorem takeAll_append (frames frames' : List Bytes) (s : σ) :
    takeAll handle (frames ++ frames') s = (takeAll handle frames s).bind (takeAll handle frames') :=
  List.foldlM_append

theorem takeFrames_eq (pending : Bytes) (s : σ) :
    takeFrames handle pending s =
      (takeAll handle (pieces blankLine pending).1 s).map ((pieces blankLine pending).2, ·) := by
  induction pending using pieces.induct blankLine generalizing s with
  | case1 pending h =>
    rw [takeFrames, pieces_of_none h]
    split
    · rfl
    · next hs =>
      rw [h] at hs
      cases hs
  | case2 pending frame rest h ih =>
    rw [takeFrames, pieces_of_some h, takeAll_cons]
    split
    · next hn =>
      rw [h] at hn
      cases hn
    · next hs =>
      rw [h] at hs
      cases hs
      cases takeFrame handle (decodeText frame) s with
      | ok s => exact ih s
      | error e => rfl

/-- The condition on the chunks behind what is held. -/
def FitsFrom : Bytes → List Bytes → Prop
  | _, [] => True
  | held, chunk :: chunks =>
    held.length + chunk.length ≤ frameLimit ∧
      FitsFrom (heldOf (held ++ chunk)) chunks

theorem fitsFrom_iff (seen : Bytes) (chunks : List Bytes) :
    FitsFrom (heldOf seen) chunks ↔
      ∀ before chunk after, chunks = before ++ chunk :: after →
        (heldOf (seen ++ before.flatten)).length + chunk.length ≤ frameLimit := by
  induction chunks generalizing seen with
  | nil =>
    refine iff_of_true trivial fun before chunk after h => ?_
    cases before <;> cases h
  | cons c chunks ih =>
    have hread : heldOf (heldOf seen ++ c) = heldOf (seen ++ c) := by
      rw [heldOf, heldOf, heldOf, pieces_append blankLine seen c]
    rw [FitsFrom, hread, ih]
    constructor
    · rintro ⟨hc, hrest⟩ before chunk after heq
      cases before with
      | nil =>
        cases heq
        rw [List.flatten_nil, List.append_nil]
        exact hc
      | cons b before =>
        cases heq
        rw [List.flatten_cons, ← List.append_assoc]
        exact hrest before chunk after rfl
    · intro h
      refine ⟨?_, fun before chunk after heq => ?_⟩
      · have := h [] c chunks rfl
        rwa [List.flatten_nil, List.append_nil] at this
      · have := h (c :: before) chunk after (by rw [heq, List.cons_append])
        rwa [List.flatten_cons, ← List.append_assoc] at this

theorem heldOf_nil : heldOf [] = [] := congrArg Prod.snd (pieces_of_none rfl)

theorem fits_iff (chunks : List Bytes) : Fits chunks ↔ FitsFrom [] chunks := by
  have h := fitsFrom_iff [] chunks
  rw [heldOf_nil] at h
  exact h.symm

/-- **Chunks that fit give the frames of the stream.** -/
theorem foldlM_takeChunk (hfits : FitsFrom held chunks) (hheld : heldOf held = held) :
    chunks.foldlM (takeChunk handle) (held, s) =
      (takeAll handle (pieces blankLine (held ++ chunks.flatten)).1 s).map
        (heldOf (held ++ chunks.flatten), ·) := by
  induction chunks generalizing held s with
  | nil =>
    have hp := pieces_rest blankLine held
    rw [heldOf] at hheld
    rw [hheld] at hp
    rw [List.flatten_nil, List.append_nil, heldOf, hp]
    rfl
  | cons c chunks ih =>
    obtain ⟨hc, hrest⟩ := hfits
    have hheld' : heldOf (heldOf (held ++ c)) = heldOf (held ++ c) := by
      rw [heldOf, heldOf, pieces_rest]
    have hread := pieces_append blankLine (held ++ c) chunks.flatten
    rw [List.foldlM_cons, takeChunk, if_neg (Nat.not_lt.mpr hc), takeFrames_eq, List.flatten_cons,
      ← List.append_assoc, heldOf, hread, takeAll_append]
    cases takeAll handle (pieces blankLine (held ++ c)).1 s with
    | error e => rfl
    | ok s => exact ih hrest hheld'

/-- Chunks that do not fit end with an error. -/
theorem foldlM_takeChunk_error (hfits : ¬FitsFrom held chunks) :
    ∃ e, chunks.foldlM (takeChunk handle) (held, s) = .error e := by
  induction chunks generalizing held s with
  | nil => exact absurd trivial hfits
  | cons c chunks ih =>
    rw [List.foldlM_cons, takeChunk]
    by_cases hc : held.length + c.length ≤ frameLimit
    · rw [if_neg (Nat.not_lt.mpr hc), takeFrames_eq]
      cases takeAll handle (pieces blankLine (held ++ c)).1 s with
      | error e => exact ⟨e, rfl⟩
      | ok s => exact ih fun h => hfits ⟨hc, h⟩
    · exact ⟨_, by rw [if_pos (Nat.lt_of_not_le hc)]; rfl⟩

end

/-! ## Frames -/

section

variable {σ ε : Type} {handle : Text → σ → Except ε σ} {frames : List Frame} {chunks : List Bytes}

theorem takeFrame_comment (text : Bytes) (s : σ) :
    takeFrame handle (decodeText (Frame.comment text).bytes) s = .ok s := by
  rw [Frame.bytes, decodeText_append, takeFrame, if_pos (List.prefix_append _ _)]

theorem takeFrame_data (body : Bytes) (s : σ) :
    takeFrame handle (decodeText (Frame.data body).bytes) s =
      if newline ∈ body then .error (.rejected "BROKER_FRAME_INVALID")
      else (handle (decodeText body) s).mapError .thrown := by
  have hnewline : '\n' ∈ "data: ".toList ++ decodeText body ↔ newline ∈ body := by
    rw [List.mem_append, mem_decodeText (by decide) (by decide)]
    exact or_iff_right (by decide)
  rw [Frame.bytes, decodeText_append, takeFrame, if_neg fun h => by simp at h]
  by_cases hb : newline ∈ body
  · rw [if_pos (.inr (hnewline.mpr hb)), if_pos hb]
  · rw [if_neg (not_or.mpr ⟨not_not_intro (List.prefix_append _ _), mt hnewline.mp hb⟩), if_neg hb]
    show (match handle (decodeText body) s with | .ok s => _ | .error e => _) = _
    cases handle (decodeText body) s <;> rfl

/-- **Frames of one line** are handed over in order. -/
theorem takeAll_frames (hline : ∀ body, Frame.data body ∈ frames → newline ∉ body) (s : σ) :
    takeAll handle (frames.map Frame.bytes) s =
      ((bodies frames).foldlM (fun s body => handle body s) s).mapError Stop.thrown := by
  induction frames generalizing s with
  | nil => rfl
  | cons f frames ih =>
    have ih := fun s => ih (fun body hb => hline body (List.mem_cons_of_mem _ hb)) s
    rw [List.map_cons, takeAll_cons]
    cases f with
    | comment text =>
      rw [takeFrame_comment]
      exact ih s
    | data body =>
      have hcons : bodies (.data body :: frames) = decodeText body :: bodies frames := rfl
      rw [takeFrame_data, if_neg (hline body List.mem_cons_self), hcons, List.foldlM_cons]
      cases handle (decodeText body) s with
      | error e => rfl
      | ok s => exact ih s

/-- A data frame of two lines ends with an error. -/
theorem takeAll_two_lines {body : Bytes} (hmem : Frame.data body ∈ frames) (hline : newline ∈ body)
    (s : σ) : ∃ e, takeAll handle (frames.map Frame.bytes) s = .error e := by
  induction frames generalizing s with
  | nil => cases hmem
  | cons f frames ih =>
    rw [List.map_cons, takeAll_cons]
    cases hf : takeFrame handle (decodeText f.bytes) s with
    | error e => exact ⟨e, rfl⟩
    | ok s' =>
      rcases List.mem_cons.mp hmem with rfl | hmem
      · rw [takeFrame_data, if_pos hline] at hf
        cases hf
      · exact ih hmem s'

/-- The whole stream, in chunks that fit. -/
theorem consume_eq (hwhole : Whole frames) (hcut : chunks.flatten = stream frames)
    (hfits : Fits chunks) (s : σ) :
    consume handle chunks s = takeAll handle (frames.map Frame.bytes) s := by
  have hpieces : pieces blankLine chunks.flatten = (frames.map Frame.bytes, []) := by
    rw [hcut]
    refine pieces_join _ fun p hp => ?_
    obtain ⟨f, hf, rfl⟩ := List.mem_map.mp hp
    exact hwhole f hf
  have hall : chunks.foldlM (takeChunk handle) ([], s) =
      (takeAll handle (pieces blankLine ([] ++ chunks.flatten)).1 s).map
        (heldOf ([] ++ chunks.flatten), ·) :=
    foldlM_takeChunk ((fits_iff chunks).mp hfits) heldOf_nil
  rw [List.nil_append, heldOf, hpieces] at hall
  rw [consume, hall]
  cases takeAll handle (frames.map Frame.bytes) s <;> rfl

end

/-- The handler that notes what it is given. -/
def noted (body : Text) (s : List Text) : Except Empty (List Text) := .ok (s ++ [body])

theorem foldlM_noted (bodies s : List Text) :
    bodies.foldlM (fun s body => noted body s) s = .ok (s ++ bodies) := by
  induction bodies generalizing s with
  | nil => rw [List.append_nil]; rfl
  | cons b bodies ih =>
    rw [List.foldlM_cons, noted]
    exact (ih _).trans (by rw [List.append_assoc]; rfl)

/-- **Decoding does not depend on the chunks that fit.** A stream of whole frames is handed over, data
frame after data frame, just where each data frame is one line and each chunk is within the limit
together with what is held before it. -/
theorem hands_iff (frames : List Frame) (chunks : List Bytes) (hwhole : Whole frames)
    (hcut : chunks.flatten = stream frames) :
    Hands frames chunks ↔ Fits chunks ∧ ∀ body, Frame.data body ∈ frames → newline ∉ body := by
  constructor
  · intro hhands
    have hnoted := hhands (List Text) Empty noted []
    rw [foldlM_noted] at hnoted
    have hfits : Fits chunks := by
      by_contra hno
      obtain ⟨e, he⟩ : ∃ e, chunks.foldlM (takeChunk noted) ([], []) = .error e :=
        foldlM_takeChunk_error (mt (fits_iff chunks).mpr hno)
      rw [consume, he] at hnoted
      cases hnoted
    refine ⟨hfits, fun body hmem hline => ?_⟩
    obtain ⟨e, he⟩ : ∃ e, takeAll noted (frames.map Frame.bytes) [] = .error e :=
      takeAll_two_lines hmem hline []
    rw [consume_eq hwhole hcut hfits, he] at hnoted
    cases hnoted
  · rintro ⟨hfits, hline⟩ σ ε handle s
    rw [consume_eq hwhole hcut hfits, takeAll_frames hline]

/-- A stream that is within the limit as a whole. -/
theorem fits_of_length_le {chunks : List Bytes} (h : chunks.flatten.length ≤ frameLimit) : Fits chunks := by
  rintro before chunk after rfl
  have hheld : (heldOf before.flatten).length ≤ before.flatten.length := length_rest_le _ _
  simp only [List.flatten_append, List.flatten_cons, List.length_append] at h
  omega

theorem whole_of_lines {frames : List Frame} (h : ∀ f ∈ frames, newline ∉ f.bytes) : Whole frames := fun f hf =>
  Delimiter.ends_of_not_mem rfl (h f hf)

/-- A data frame of one line with `size` bytes. -/
def sized (size : Nat) : Frame := .data (List.replicate size 0x61)

theorem sized_line (size : Nat) : newline ∉ (sized size).bytes := by
  rw [sized, Frame.bytes, List.mem_append]
  rintro (h | h)
  · exact absurd h (by decide)
  · exact absurd (List.eq_of_mem_replicate h) (by decide)

theorem length_sized (size : Nat) :
    ((sized size).bytes ++ blankLine.marks).length = size + 8 := by
  rw [sized, Frame.bytes, List.length_append, List.length_append, List.length_replicate]
  show 6 + size + 2 = size + 8
  omega

theorem consume_too_large {σ ε : Type} {handle : Text → σ → Except ε σ} {chunk : Bytes} {s : σ}
    (h : frameLimit < chunk.length) :
    consume handle [chunk] s = .error (.rejected "BROKER_FRAME_TOO_LARGE") := by
  rw [consume, List.foldlM_cons, takeChunk, if_pos (by rwa [List.length_nil, Nat.zero_add])]
  rfl

/-- **Two frames in one chunk.** Each is within the limit, and the stream is rejected. -/
theorem grouped_frames_rejected :
    ((sized 70000).bytes ++ blankLine.marks).length ≤ frameLimit ∧
      Whole [sized 70000, sized 70000] ∧
      ¬Hands [sized 70000, sized 70000] [stream [sized 70000, sized 70000]] := by
  refine ⟨by rw [length_sized]; decide, whole_of_lines fun f hf => ?_, fun h => ?_⟩
  · rw [List.mem_pair.mp hf |>.elim id id]
    exact sized_line _
  · have hstream : stream [sized 70000, sized 70000] =
        ((sized 70000).bytes ++ blankLine.marks) ++ ((sized 70000).bytes ++ blankLine.marks) := by
      rw [stream, List.map_cons, List.map_cons, List.map_nil, Delimiter.join, List.flatMap_cons,
        List.flatMap_cons, List.flatMap_nil, List.append_nil]
    have hlong : frameLimit < (stream [sized 70000, sized 70000]).length := by
      rw [hstream, List.length_append, length_sized]
      decide
    have hnoted := h (List Text) Empty noted []
    rw [foldlM_noted, consume_too_large hlong] at hnoted
    generalize [] ++ bodies _ = bs at hnoted
    cases hnoted

/-- A comment and a frame whose text and whose blank line are cut by the chunks. -/
def cutFrames : List Frame := [.comment (encodeText "ok".toList), .data (encodeText "é".toList)]

def cutChunks : List Bytes :=
  [[0x3A, 0x6F, 0x6B, 0x0A], [0x0A, 0x64, 0x61, 0x74, 0x61, 0x3A, 0x20, 0xC3], [0xA9, 0x0A], [],
    [0x0A]]

theorem hands_iff_cut : Hands cutFrames cutChunks := by
  refine (hands_iff cutFrames cutChunks (whole_of_lines (by decide)) (by decide)).mpr
    ⟨fits_of_length_le (by decide), fun body hbody => ?_⟩
  have hmem : ∀ f ∈ cutFrames, ∀ body, f = .data body → newline ∉ body := by
    intro f hf body hb
    rcases List.mem_pair.mp hf with rfl | rfl
    · cases hb
    · cases hb
      decide
  exact hmem _ hbody body rfl

end Telepty.Broker.Node
