import Mathlib.Data.List.Infix
import Telepty.Infra.OrdMap
import Telepty.Infra.Text

/-!
# A file system of byte files

A path is the list of its components below some root; a file system maps paths to directories and
byte files. Every operation is total and answers the POSIX error that node reports by name. File
descriptors are not modelled: a file opened by name is written through that name, and a write
appends, because every writer here opens with `w`, `wx` or `a` and writes front to back.
-/

namespace Telepty.Infra

abbrev Path := List Text

/-- `path.join(dir, name)` -/
def joinPath (dir : Path) (name : Text) : Path := dir ++ [name]

inductive Errno where
  | ENOENT
  | EEXIST
  | ENOTDIR
  | EISDIR
  | ENOTEMPTY
  | EPERM
  | other (code : Text)
  deriving DecidableEq, Repr

/-- The text of `error.code`. -/
def Errno.text : Errno → Text
  | .ENOENT => "ENOENT"
  | .EEXIST => "EEXIST"
  | .ENOTDIR => "ENOTDIR"
  | .EISDIR => "EISDIR"
  | .ENOTEMPTY => "ENOTEMPTY"
  | .EPERM => "EPERM"
  | .other code => code

inductive Node where
  | dir
  | file (bytes : Bytes)
  deriving DecidableEq, Repr

abbrev FS := OrdMap Path Node

namespace FS

/-- `lstat`: the node at a path. -/
def lstat (fs : FS) (p : Path) : Option Node := fs.get? p

def isDir (fs : FS) (p : Path) : Bool := fs.get? p = some .dir

/-- The name of `q` when `q` is a direct child of `d`. -/
def childName (d q : Path) : Option Text :=
  if q.dropLast = d then q.getLast? else none

/-- The names directly below a directory. -/
def names (fs : FS) (d : Path) : List Text := fs.keys.filterMap (childName d)

def readdir (fs : FS) (d : Path) : Except Errno (List Text) :=
  match fs.get? d with
  | none => .error .ENOENT
  | some (.file _) => .error .ENOTDIR
  | some .dir => .ok (fs.names d)

def readFile (fs : FS) (p : Path) : Except Errno Bytes :=
  match fs.get? p with
  | none => .error .ENOENT
  | some .dir => .error .EISDIR
  | some (.file b) => .ok b

/-- The directory a new entry at `p` would be made in. -/
def parentDir (fs : FS) (p : Path) : Except Errno Unit :=
  match fs.get? p.dropLast with
  | none => .error .ENOENT
  | some (.file _) => .error .ENOTDIR
  | some .dir => .ok ()

inductive OpenFlag where
  | r
  | w
  | wx
  | a
  deriving DecidableEq, Repr

/-- `open`: `w` truncates, `wx` refuses an occupied name, `a` keeps what is there. -/
def openFile (fs : FS) (flag : OpenFlag) (p : Path) : Except Errno FS :=
  match fs.get? p with
  | none =>
    if flag = .r then .error .ENOENT
    else (fs.parentDir p).map fun _ => fs.set p (.file [])
  | some .dir =>
    match flag with
    | .r => .ok fs
    | .wx => .error .EEXIST
    | _ => .error .EISDIR
  | some (.file _) =>
    match flag with
    | .r | .a => .ok fs
    | .wx => .error .EEXIST
    | .w => .ok (fs.set p (.file []))

/-- `write`: bytes at the end of a file. -/
def append (fs : FS) (p : Path) (b : Bytes) : FS :=
  match fs.get? p with
  | some (.file old) => fs.set p (.file (old ++ b))
  | _ => fs

def mkdir (fs : FS) (p : Path) : Except Errno FS :=
  match fs.get? p with
  | some _ => .error .EEXIST
  | none => (fs.parentDir p).map fun _ => fs.set p .dir

/-- The recursive `mkdir`: every missing ancestor is made, a file on the way is refused. -/
def mkdirp (fs : FS) (p : Path) : Except Errno FS :=
  p.inits.foldlM (fun fs q =>
    match fs.get? q with
    | none => .ok (fs.set q .dir)
    | some .dir => .ok fs
    | some (.file _) => .error (if q = p then .EEXIST else .ENOTDIR)) fs

/-- `q` with the leading `src` replaced by `dst`, when `q` lies at or below `src`. -/
def rebase (src dst q : Path) : Option Path :=
  if src <+: q then some (dst ++ q.drop src.length) else none

/-- Everything at or below `src`, moved to `dst`. -/
def moveTree (fs : FS) (src dst : Path) : FS :=
  OrdMap.setAll (fs.filter fun e => ¬ src <+: e.1)
    (fs.entries.filterMap fun e => (rebase src dst e.1).map fun q => (q, e.2))

def rename (fs : FS) (src dst : Path) : Except Errno FS :=
  match fs.get? src with
  | none => .error .ENOENT
  | some (.file b) =>
    match fs.get? dst with
    | some .dir => .error .EISDIR
    | _ => (fs.parentDir dst).map fun _ =>
      if src = dst then fs else (fs.delete src).set dst (.file b)
  | some .dir =>
    match fs.get? dst with
    | some (.file _) => .error .ENOTDIR
    | some .dir =>
      if (fs.names dst).isEmpty then (fs.parentDir dst).map fun _ => fs.moveTree src dst
      else .error .ENOTEMPTY
    | none => (fs.parentDir dst).map fun _ => fs.moveTree src dst

def rmdir (fs : FS) (p : Path) : Except Errno FS :=
  match fs.get? p with
  | none => .error .ENOENT
  | some (.file _) => .error .ENOTDIR
  | some .dir => if (fs.names p).isEmpty then .ok (fs.delete p) else .error .ENOTEMPTY

def unlink (fs : FS) (p : Path) : Except Errno FS :=
  match fs.get? p with
  | none => .error .ENOENT
  | some .dir => .error .EISDIR
  | some (.file _) => .ok (fs.delete p)

/-! ## Reading back -/

variable {fs fs' : FS} {p q d src dst : Path} {b old : Bytes} {name : Text}

theorem childName_eq_some : childName d q = some name ↔ q = d ++ [name] := by
  unfold childName
  constructor
  · intro h
    split at h
    · next hd =>
      obtain ⟨l, rfl⟩ := List.getLast?_eq_some_iff.mp h
      rw [List.dropLast_concat] at hd
      rw [hd]
    · exact absurd h (by simp)
  · rintro rfl
    simp

theorem mem_names_iff : name ∈ fs.names d ↔ ∃ n, fs.get? (d ++ [name]) = some n := by
  rw [names, List.mem_filterMap]
  constructor
  · rintro ⟨q, hq, hc⟩
    rw [childName_eq_some.mp hc] at hq
    exact fs.mem_keys_iff.mp hq
  · intro h
    exact ⟨d ++ [name], fs.mem_keys_iff.mpr h, childName_eq_some.mpr rfl⟩

theorem nodup_names (fs : FS) (d : Path) : (fs.names d).Nodup := by
  refine List.Nodup.filterMap ?_ fs.nodup
  intro a b n ha hb
  rw [Option.mem_def, childName_eq_some] at ha hb
  rw [ha, hb]

theorem readFile_of_get? (h : fs.get? p = some (.file b)) : fs.readFile p = .ok b := by
  rw [readFile, h]

theorem append_get?_self (h : fs.get? p = some (.file old)) :
    (fs.append p b).get? p = some (.file (old ++ b)) := by
  rw [append, h]
  simp

theorem append_get?_of_ne (h : q ≠ p) : (fs.append p b).get? q = fs.get? q := by
  rw [append]
  split
  · exact OrdMap.get?_set_of_ne _ h
  · rfl

/-- An open for reading changes nothing. -/
theorem openFile_r (h : fs.openFile .r p = .ok fs') : fs' = fs := by
  unfold openFile at h
  split at h
  · exact absurd h (by simp)
  · cases h; rfl
  · cases h; rfl

/-- An exclusive open that answers found nothing at the name and left an empty file there. -/
theorem openFile_wx (h : fs.openFile .wx p = .ok fs') :
    fs.get? p = none ∧ fs' = fs.set p (.file []) := by
  unfold openFile at h
  split at h
  · next hp =>
    rw [if_neg (by decide)] at h
    cases hd : fs.parentDir p with
    | error e => rw [hd] at h; cases h
    | ok u => rw [hd] at h; cases h; exact ⟨hp, rfl⟩
  · cases h
  · cases h

/-- A truncating open that answers left an empty file at the name. -/
theorem openFile_w (h : fs.openFile .w p = .ok fs') : fs' = fs.set p (.file []) := by
  unfold openFile at h
  split at h
  · rw [if_neg (by decide)] at h
    cases hd : fs.parentDir p with
    | error e => rw [hd] at h; cases h
    | ok u => rw [hd] at h; cases h; rfl
  · cases h
  · cases h; rfl

/-- An open for appending that answers kept the file at the name, or made an empty one. -/
theorem openFile_a (h : fs.openFile .a p = .ok fs') :
    (∃ b, fs.get? p = some (.file b) ∧ fs' = fs)
      ∨ fs.get? p = none ∧ fs' = fs.set p (.file []) := by
  unfold openFile at h
  split at h
  · next hp =>
    rw [if_neg (by decide)] at h
    cases hd : fs.parentDir p with
    | error e => rw [hd] at h; cases h
    | ok u => rw [hd] at h; cases h; exact .inr ⟨hp, rfl⟩
  · cases h
  · next b hp => cases h; exact .inl ⟨b, hp, rfl⟩

/-- Renaming a file moves its bytes and nothing else. -/
theorem rename_file (hsrc : fs.get? src = some (.file b)) (hne : src ≠ dst)
    (h : fs.rename src dst = .ok fs') : fs' = (fs.delete src).set dst (.file b) := by
  rw [rename, hsrc] at h
  simp only at h
  split at h
  · cases h
  · cases hd : fs.parentDir dst with
    | error e => rw [hd] at h; cases h
    | ok u =>
      rw [hd] at h
      simp only [Except.map, if_neg hne] at h
      cases h
      rfl

/-- A recursive `mkdir` of a directory whose ancestors all exist does nothing. -/
theorem mkdirp_of_dirs (h : ∀ q, q <+: p → fs.get? q = some .dir) : fs.mkdirp p = .ok fs := by
  rw [mkdirp]
  have hall : ∀ q ∈ p.inits, fs.get? q = some .dir := fun q hq => h q ((List.mem_inits q p).mp hq)
  generalize p.inits = l at hall
  induction l with
  | nil => rfl
  | cons q rest ih =>
    rw [List.foldlM_cons, hall q List.mem_cons_self]
    exact ih fun q' hq' => hall q' (List.mem_cons_of_mem _ hq')

end FS

end Telepty.Infra
