import Telepty.Infra.Jsonl
import Telepty.Infra.Sha256

/-!
# Shared references

The text of a shared reference is kept in a file that has the digest of the text for its name. A
commit writes the bytes to a temporary file, gives it the name by a hard link and takes the temporary
name away. A file that is there already is verified instead.

Any number of processes commit the same body at the same time, and any of them may die between two
file operations. Every operation on a name, and every `stat`, is one step.

* `validateTransfer_ok` — what is accepted
* `final_exact` — the file is not there, or it has exactly the bytes
-/

namespace Telepty.SharedReference

open Infra

/-! ## The body -/

/-- `error.code` and `error.status` -/
structure Refusal where
  code : Text
  status : Nat
  deriving DecidableEq

def maxSharedReferenceBytes : Nat := 64 * 1024

def base64Char (n : Nat) : Char :=
  if n < 26 then Char.ofNat (0x41 + n)
  else if n < 52 then Char.ofNat (0x61 + (n - 26))
  else if n < 62 then Char.ofNat (0x30 + (n - 52))
  else if n = 62 then '+'
  else '/'

/-- `bytes.toString('base64')` -/
def base64 : Bytes → Text
  | [] => []
  | [a] => [base64Char (a.toNat / 4), base64Char (a.toNat % 4 * 16), '=', '=']
  | [a, b] =>
    [base64Char (a.toNat / 4), base64Char (a.toNat % 4 * 16 + b.toNat / 16),
      base64Char (b.toNat % 16 * 4), '=']
  | a :: b :: c :: rest =>
    base64Char (a.toNat / 4) :: base64Char (a.toNat % 4 * 16 + b.toNat / 16) ::
      base64Char (b.toNat % 16 * 4 + c.toNat / 64) :: base64Char (c.toNat % 64) :: base64 rest

/-- Six bits; the alphabet for URLs is read as well. -/
def base64Value (c : Char) : Option Nat :=
  if c.isUpper then some (c.toNat - 0x41)
  else if c.isLower then some (c.toNat - 0x61 + 26)
  else if c.isDigit then some (c.toNat - 0x30 + 52)
  else if c = '+' ∨ c = '-' then some 62
  else if c = '/' ∨ c = '_' then some 63
  else none

def bytesOfSixes : List Nat → Bytes
  | [] | [_] => []
  | [a, b] => [UInt8.ofNat (a * 4 + b / 16)]
  | [a, b, c] => [UInt8.ofNat (a * 4 + b / 16), UInt8.ofNat (b % 16 * 16 + c / 4)]
  | a :: b :: c :: d :: rest =>
    UInt8.ofNat (a * 4 + b / 16) :: UInt8.ofNat (b % 16 * 16 + c / 4) ::
      UInt8.ofNat (c % 4 * 64 + d) :: bytesOfSixes rest

/-- `Buffer.from(text, 'base64')`; what is not of the alphabet is passed over. -/
def fromBase64 (t : Text) : Bytes := bytesOfSixes (t.filterMap base64Value)

/-- `/^[a-f0-9]{64}$/` -/
def isHash (t : Text) : Bool :=
  t.length = 64 && t.all fun c => c.isDigit || ('a' ≤ c && c ≤ 'f')

def fileNameOf (hash : Text) : Text := hash ++ (".md" : Text)

/-- The descriptor and the bytes of a body that is accepted. -/
structure Transfer where
  bytes : Bytes
  hash : Text
  hash_eq : hash = Sha256.hex (Sha256.digest bytes)
  length_le : bytes.length ≤ maxSharedReferenceBytes
  utf8 : encodeText (decodeText bytes) = bytes
  not_blank : trim (decodeText bytes) ≠ []

/-- `{ content_base64, hash, fileName }`, where the fields and their forms are right. -/
def readBody (body : Json) : Option (Text × Text) :=
  match body with
  | .obj members =>
    if members.all fun m => m.1 ∈ (["content_base64", "hash", "fileName"] : List Text) then
      match (body.field "content_base64").bind Json.asText, (body.field "hash").bind Json.asText with
      | some content, some hash =>
        if isHash hash ∧ (body.field "fileName").bind Json.asText = some (fileNameOf hash) then
          some (content, hash)
        else none
      | _, _ => none
    else none
  | _ => none

/-- `validateTransfer(body)` -/
def validateTransfer (body : Json) : Except Refusal Transfer :=
  match readBody body with
  | none => .error ⟨"SHARED_REF_INVALID", 400⟩
  | some (content, hash) =>
    if (maxSharedReferenceBytes + 2) / 3 * 4 < content.length then
      .error ⟨"SHARED_REF_TOO_LARGE", 413⟩
    else
      let bytes := fromBase64 content
      if hlength : maxSharedReferenceBytes < bytes.length then .error ⟨"SHARED_REF_TOO_LARGE", 413⟩
      else if base64 bytes ≠ content then .error ⟨"SHARED_REF_INVALID", 400⟩
      else if hutf8 : encodeText (decodeText bytes) = bytes then
        -- `createSharedContextDescriptor` throws for a blank text
        if hblank : trim (decodeText bytes) = [] then .error ⟨"SHARED_REF_INVALID", 400⟩
        else if hhash : hash = Sha256.hex (Sha256.digest bytes) then
          .ok ⟨bytes, hash, hhash, Nat.not_lt.mp hlength, hutf8, hblank⟩
        else .error ⟨"SHARED_REF_HASH_MISMATCH", 409⟩
      else .error ⟨"SHARED_REF_INVALID", 400⟩

/-- A body that is accepted gives its bytes in base64 and their digest. -/
theorem validateTransfer_ok {body : Json} {t : Transfer} (h : validateTransfer body = .ok t) :
    readBody body = some (base64 t.bytes, t.hash) := by
  unfold validateTransfer at h
  split at h
  · cases h
  next content hash hread =>
    split at h
    · cases h
    simp only at h
    split at h
    · cases h
    split at h
    · cases h
    next hbase64 =>
      split at h
      · split at h
        · cases h
        split at h
        · cases h
          rw [hread, not_not.mp hbase64]
        · cases h
      · cases h

/-! ## Processes -/

/-- Where a commit stands. A verification is the first one, or, with what the link has told, the one
after the publication. -/
inductive Pc where
  | teleptyDir
  | sharedDir
  | lstat (published : Option Bool)
  /-- the `lstat` has seen this file -/
  | openExisting (published : Option Bool) (seen : Nat)
  | fstat (published : Option Bool) (seen opened : Nat)
  /-- with what the `fstat` makes of the file -/
  | read (published : Option Bool) (opened : Nat) (conflict : Bool)
  | openTemporary
  | write
  | link
  | unlink (created : Bool)
  | sync (created : Bool)
  deriving DecidableEq

inductive Proc where
  | running (pc : Pc)
  /-- `{ success: true, …, created }` -/
  | done (created : Bool)
  /-- `SHARED_REF_STORAGE_CONFLICT` -/
  | refused
  | crashed
  deriving DecidableEq

/-- The directory and the processes. A commit makes one file at most, so a file goes by the number of
the commit that makes it, and so does its temporary name: no random name is drawn twice. -/
structure World where
  teleptyDir : Bool
  sharedDir : Bool
  /-- the file at `<hash>.md` -/
  final : Option Nat
  /-- the file has its temporary name -/
  temporary : Nat → Bool
  content : Nat → Bytes
  procs : Nat → Option Proc

namespace World

def initial : World := ⟨false, false, none, fun _ => false, fun _ => [], fun _ => none⟩

/-- `stat.nlink` -/
def nlink (w : World) (f : Nat) : Nat :=
  (if w.final = some f then 1 else 0) + if w.temporary f then 1 else 0

def put (w : World) (p : Nat) (s : Proc) : World :=
  { w with procs := fun q => if q = p then some s else w.procs q }

end World

/-! ## Steps -/

section

variable (bytes : Bytes)

/-- What follows on `verifyExisting`. -/
def afterVerify (published : Option Bool) (verified : Bool) : Proc :=
  match published, verified with
  | none, true => .running (.sync false)
  | none, false => .running .openTemporary
  | some created, true => .running (.sync created)
  | some _, false => .refused

/-- What is in the temporary file after a write that takes `chunk + 1` more bytes, as far as there
are any. -/
def written (w : World) (p chunk : Nat) : Bytes := bytes.take ((w.content p).length + chunk + 1)

/-- What the next step of a commit makes of the directory. -/
def effect (w : World) (p chunk : Nat) : Pc → World
  | .teleptyDir => { w with teleptyDir := true }
  | .sharedDir => { w with sharedDir := true }
  | .openTemporary =>
    { w with
      temporary := fun q => if q = p then true else w.temporary q
      content := fun q => if q = p then [] else w.content q }
  | .write => { w with content := fun q => if q = p then written bytes w p chunk else w.content q }
  | .link => if w.final = none then { w with final := some p } else w
  | .unlink _ => { w with temporary := fun q => if q = p then false else w.temporary q }
  | .lstat _ | .openExisting .. | .fstat .. | .read .. | .sync _ => w

/-- Where the commit stands after its next step. -/
def next (w : World) (p chunk : Nat) : Pc → Proc
  | .teleptyDir => .running .sharedDir
  | .sharedDir => .running (.lstat none)
  | .lstat published =>
    match w.final with
    | none => afterVerify published false
    | some f =>
      if w.nlink f ≠ 1 ∨ (w.content f).length ≠ bytes.length then .refused
      else .running (.openExisting published f)
  | .openExisting published seen =>
    match w.final with
    | none => afterVerify published false
    | some f => .running (.fstat published seen f)
  | .fstat published seen opened =>
    .running (.read published opened
      (opened ≠ seen || w.nlink opened ≠ 1 || (w.content opened).length ≠ bytes.length))
  | .read published opened conflict =>
    if conflict ∨ w.content opened ≠ bytes then .refused else afterVerify published true
  | .openTemporary => .running .write
  | .write =>
    .running (if (written bytes w p chunk).length = bytes.length then .link else .write)
  | .link => .running (.unlink (w.final = none))
  | .unlink created => .running (.lstat (some created))
  | .sync created => .done created

inductive Event where
  /-- `commitSharedReference(body)` is called -/
  | start (p : Nat)
  | step (p : Nat) (chunk : Nat)
  | crash (p : Nat)

/-- One step of the world; an event that cannot happen changes nothing. -/
def step (w : World) : Event → World
  | .start p => if w.procs p = none then w.put p (.running .teleptyDir) else w
  | .step p chunk =>
    match w.procs p with
    | some (.running pc) => (effect bytes w p chunk pc).put p (next bytes w p chunk pc)
    | _ => w
  | .crash p =>
    match w.procs p with
    | some (.running _) => w.put p .crashed
    | _ => w

def run (w : World) (events : List Event) : World := events.foldl (step bytes) w

end

/-- What one event can do. -/
theorem step_cases (bytes : Bytes) (w : World) (e : Event) :
    step bytes w e = w ∨
      (∃ p, e = .start p ∧ w.procs p = none ∧ step bytes w e = w.put p (.running .teleptyDir)) ∨
      (∃ p pc, e = .crash p ∧ w.procs p = some (.running pc) ∧ step bytes w e = w.put p .crashed) ∨
      ∃ p chunk pc, e = .step p chunk ∧ w.procs p = some (.running pc) ∧
        step bytes w e = (effect bytes w p chunk pc).put p (next bytes w p chunk pc) := by
  cases e with
  | start p =>
    by_cases hnone : w.procs p = none
    · exact .inr (.inl ⟨p, rfl, hnone, if_pos hnone⟩)
    · exact .inl (if_neg hnone)
  | crash p =>
    simp only [step]
    split
    next pc hpc => exact .inr (.inr (.inl ⟨p, pc, rfl, hpc, rfl⟩))
    · exact .inl rfl
  | step p chunk =>
    simp only [step]
    split
    next pc hpc => exact .inr (.inr (.inr ⟨p, chunk, pc, rfl, hpc, rfl⟩))
    · exact .inl rfl

/-! ## The file -/

/-- The commit has not come to its link, or does without one. -/
def Pc.early : Pc → Bool
  | .teleptyDir | .sharedDir | .lstat none | .openExisting none _ | .fstat none .. | .read none ..
  | .openTemporary | .write | .link => true
  | _ => false

def Proc.early : Proc → Bool
  | .running pc => pc.early
  | _ => false

@[simp] theorem put_final (w : World) (p : Nat) (s : Proc) : (w.put p s).final = w.final := rfl

@[simp] theorem put_temporary (w : World) (p : Nat) (s : Proc) :
    (w.put p s).temporary = w.temporary := rfl

@[simp] theorem put_content (w : World) (p : Nat) (s : Proc) : (w.put p s).content = w.content := rfl

@[simp] theorem put_procs_self (w : World) (p : Nat) (s : Proc) : (w.put p s).procs p = some s :=
  if_pos rfl

theorem put_procs_of_ne {w : World} {p q : Nat} (h : q ≠ p) (s : Proc) :
    (w.put p s).procs q = w.procs q := if_neg h

section

variable {bytes : Bytes} {w : World} {p chunk : Nat}

@[simp] theorem effect_procs (pc : Pc) : (effect bytes w p chunk pc).procs = w.procs := by
  cases pc with
  | link =>
    simp only [effect]
    split <;> rfl
  | _ => rfl

/-- The file appears with a link, and stays. -/
theorem effect_final (pc : Pc) :
    (effect bytes w p chunk pc).final = if pc = .link ∧ w.final = none then some p else w.final := by
  cases pc with
  | link =>
    simp only [effect, true_and]
    split <;> rfl
  | _ => rfl

theorem effect_temporary_of_ne {q : Nat} (h : q ≠ p) (pc : Pc) :
    (effect bytes w p chunk pc).temporary q = w.temporary q := by
  cases pc with
  | openTemporary => exact if_neg h
  | unlink created => exact if_neg h
  | link =>
    simp only [effect]
    split <;> rfl
  | _ => rfl

theorem effect_content_of_ne {q : Nat} (h : q ≠ p) (pc : Pc) :
    (effect bytes w p chunk pc).content q = w.content q := by
  cases pc with
  | openTemporary => exact if_neg h
  | write => exact if_neg h
  | link =>
    simp only [effect]
    split <;> rfl
  | _ => rfl

/-- After its link, a commit writes no more. -/
theorem effect_content_of_late {pc : Pc} (h : pc.early = false) :
    (effect bytes w p chunk pc).content = w.content := by
  cases pc with
  | openTemporary => exact Bool.noConfusion h
  | write => exact Bool.noConfusion h
  | link => exact Bool.noConfusion h
  | _ => rfl

theorem afterVerify_some_early (created verified : Bool) :
    (afterVerify (some created) verified).early = false := by
  cases verified <;> rfl

/-- A commit does not come to its link again. -/
theorem next_late {pc : Pc} (h : pc.early = false) : (next bytes w p chunk pc).early = false := by
  cases pc with
  | lstat published =>
    cases published with
    | none => exact Bool.noConfusion h
    | some created =>
      simp only [next]
      split
      · exact afterVerify_some_early created false
      · split <;> rfl
  | openExisting published seen =>
    cases published with
    | none => exact Bool.noConfusion h
    | some created =>
      simp only [next]
      split
      · exact afterVerify_some_early created false
      · rfl
  | fstat published seen opened =>
    cases published with
    | none => exact Bool.noConfusion h
    | some created => rfl
  | read published opened conflict =>
    cases published with
    | none => exact Bool.noConfusion h
    | some created =>
      simp only [next]
      split
      · rfl
      · exact afterVerify_some_early created true
  | unlink created => rfl
  | sync created => rfl
  | _ => exact Bool.noConfusion h

/-- A commit comes to its link from the write that has taken all the bytes. -/
theorem next_link {pc : Pc} (h : next bytes w p chunk pc = .running .link) :
    pc = .write ∧ (written bytes w p chunk).length = bytes.length := by
  cases pc with
  | write =>
    refine ⟨rfl, ?_⟩
    by_contra hne
    simp only [next, if_neg hne] at h
    exact absurd h (by decide)
  | lstat published =>
    simp only [next] at h
    split at h
    · cases published <;> exact nomatch h
    · split at h <;> exact nomatch h
  | openExisting published seen =>
    simp only [next] at h
    split at h
    · cases published <;> exact nomatch h
    · exact nomatch h
  | read published opened conflict =>
    simp only [next] at h
    split at h
    · exact nomatch h
    · cases published <;> exact nomatch h
  | _ => exact nomatch h

theorem eq_of_take_length {α : Type} {l : List α} {n : Nat} (h : (l.take n).length = l.length) :
    l.take n = l := List.take_of_length_le (by rw [List.length_take] at h; omega)

end

/-- What holds of the file at all times. -/
structure Sound (bytes : Bytes) (w : World) : Prop where
  file : ∀ f, w.final = some f → w.content f = bytes ∧ ∃ s, w.procs f = some s ∧ s.early = false
  ready : ∀ p, w.procs p = some (.running .link) → w.content p = bytes

section

variable {bytes : Bytes}

theorem sound_initial : Sound bytes .initial where
  file := fun _ h => nomatch h
  ready := fun _ h => nomatch h

/-- A process that stands nowhere before its link is put there without anything done to the
directory. -/
theorem Sound.put {w : World} (h : Sound bytes w) {p : Nat} {s : Proc}
    (hfile : w.procs p = none ∨ s.early = false) (hlink : s ≠ .running .link) :
    Sound bytes (w.put p s) where
  file := by
    intro f hf
    obtain ⟨hcontent, s', hs, hlate⟩ := h.file f hf
    by_cases hfp : f = p
    · subst hfp
      rcases hfile with hnone | hearly
      · rw [hnone] at hs
        exact nomatch hs
      · exact ⟨hcontent, s, put_procs_self .., hearly⟩
    · exact ⟨hcontent, s', (put_procs_of_ne hfp _).trans hs, hlate⟩
  ready := by
    intro q hq
    by_cases hqp : q = p
    · subst hqp
      rw [put_procs_self] at hq
      exact absurd (Option.some.inj hq) hlink
    · exact h.ready q ((put_procs_of_ne hqp _).symm.trans hq)

/-- **One step.** -/
theorem Sound.step {w : World} (h : Sound bytes w) (e : Event) : Sound bytes (step bytes w e) := by
  rcases step_cases bytes w e with heq | ⟨p, -, hnone, heq⟩ | ⟨p, pc, -, hpc, heq⟩ |
    ⟨p, chunk, pc, -, hpc, heq⟩
  · rwa [heq]
  · rw [heq]
    exact h.put (.inl hnone) (by decide)
  · rw [heq]
    exact h.put (.inr rfl) (by decide)
  · rw [heq]
    refine ⟨?_, ?_⟩
    · intro f hf
      rw [put_final, effect_final] at hf
      rw [put_content]
      split at hf
      next hlink =>
        -- the link gives the name to a file that has all the bytes
        obtain rfl := Option.some.inj hf
        obtain ⟨rfl, hnone⟩ := hlink
        refine ⟨?_, _, put_procs_self .., rfl⟩
        rw [effect, if_pos hnone]
        exact h.ready p hpc
      · obtain ⟨hcontent, s, hs, hlate⟩ := h.file f hf
        by_cases hfp : f = p
        · subst hfp
          obtain rfl := Option.some.inj (hs.symm.trans hpc)
          rw [effect_content_of_late hlate]
          exact ⟨hcontent, _, put_procs_self .., next_late hlate⟩
        · rw [effect_content_of_ne hfp]
          refine ⟨hcontent, s, ?_, hlate⟩
          rw [put_procs_of_ne hfp, effect_procs, hs]
    · intro q hq
      rw [put_content]
      by_cases hqp : q = p
      · subst hqp
        rw [put_procs_self] at hq
        obtain ⟨rfl, hlength⟩ := next_link (Option.some.inj hq)
        exact (if_pos rfl).trans (eq_of_take_length hlength)
      · rw [put_procs_of_ne hqp, effect_procs] at hq
        rw [effect_content_of_ne hqp]
        exact h.ready q hq

theorem Sound.run {w : World} (h : Sound bytes w) (events : List Event) :
    Sound bytes (run bytes w events) := by
  induction events generalizing w with
  | nil => exact h
  | cons e events ih => exact ih (h.step e)

end

/-- **The file is not there, or it has exactly the bytes**, whatever runs and crashes. -/
theorem final_exact (bytes : Bytes) (events : List Event) {f : Nat}
    (h : (run bytes .initial events).final = some f) :
    (run bytes .initial events).content f = bytes :=
  ((sound_initial.run events).file f h).1

theorem final_exact_one :
    (run [0x61] .initial (.start 0 :: List.replicate 12 (.step 0 0))).content 0 = [0x61] :=
  final_exact _ _ (by decide)

end Telepty.SharedReference
