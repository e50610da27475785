import Telepty.Forward.Routes
import Telepty.Forward.Receipts
import Telepty.Infra.FileTree

/-!
# What the directory of the ledger holds

The ledger makes its directories, and in the last of them files of two kinds of names: those of its
records and those of temporary files. No operation on a file touches the directories above it.
-/

namespace Telepty.Forward

open Infra Infra.Prog Mailbox Principal

variable {σ μ α β : Type} {home : Path} {env : Env} {net : Addresses} {fs fs' fs'' : FS} {p q : Path}

/-! ## Frames -/

/-- The ending of a temporary file. -/
def isTemporary (name : Text) : Bool := (".tmp" : Text).isSuffixOf name

/-- A file that the ledger may make. -/
def Entry (home p : Path) : Prop :=
  ∃ name, p = joinPath (dir home) name ∧ (isRecordName name = true ∨ isTemporary name = true)

theorem Entry.length (h : Entry home p) : p.length = home.length + 3 := by
  obtain ⟨name, rfl, -⟩ := h
  simp [dir, base, joinPath]

theorem entry_recordFile {k : Text} (hk : digestText k = true) : Entry home (recordFile home k) := by
  refine ⟨_, rfl, .inl ?_⟩
  have hlen := length_of_digestText hk
  rw [isRecordName, ← hlen, List.take_left, List.drop_left, hk, decide_eq_true rfl]
  rfl

theorem entry_temporaryFile (k suffix : Text) :
    Entry home (temporaryFile (recordFile home k) suffix) := by
  refine ⟨(recordFile home k).getLastD [] ++ ('.' :: suffix ++ (".tmp" : Text)), ?_, .inr ?_⟩
  · have hdir : (recordFile home k).dropLast = dir home := List.dropLast_concat
    rw [temporaryFile, hdir]
  · rw [isTemporary, List.isSuffixOf_iff_suffix, ← List.append_assoc]
    exact List.suffix_append _ _

/-- Above the files of the ledger, directories are made at most; and what is new in its directory has
a name of its own. -/
structure Framed (home : Path) (fs fs' : FS) : Prop where
  dirs : ∀ q, q.length ≤ home.length + 2 → fs'.get? q = fs.get? q ∨
    (fs.get? q = none ∧ fs'.get? q = some .dir)
  names : ∀ name, fs'.get? (joinPath (dir home) name) ≠ none →
    fs.get? (joinPath (dir home) name) ≠ none ∨ isRecordName name = true ∨ isTemporary name = true

theorem Framed.refl (fs : FS) : Framed home fs fs := ⟨fun _ _ => .inl rfl, fun _ h => .inl h⟩

theorem Framed.trans (h : Framed home fs fs') (h' : Framed home fs' fs'') : Framed home fs fs'' := by
  refine ⟨fun q hq => ?_, fun name hname => ?_⟩
  · rcases h'.dirs q hq with hs | ⟨hnone, hdir⟩
    · rcases h.dirs q hq with ht | ⟨hnone, hdir⟩
      · exact .inl (hs.trans ht)
      · exact .inr ⟨hnone, hs.trans hdir⟩
    · rcases h.dirs q hq with ht | ⟨-, hdir'⟩
      · exact .inr ⟨ht ▸ hnone, hdir⟩
      · rw [hdir'] at hnone
        cases hnone
  · rcases h'.names name hname with hold | hnew
    · exact h.names name hold
    · exact .inr hnew

/-- What changes at or below a file of the ledger, or is removed far enough below its home. -/
theorem framed_of_entry (hp : Entry home p) (h : ∀ q, ¬ p <+: q → fs'.get? q = fs.get? q ∨
    (fs'.get? q = none ∧ home.length + 2 < q.length)) : Framed home fs fs' := by
  refine ⟨fun q hq => ?_, fun name hname => ?_⟩
  · have hout : ¬ p <+: q := fun hpre => by
      have hle := hpre.length_le
      rw [hp.length] at hle
      omega
    rcases h q hout with hs | ⟨-, hlt⟩
    · exact .inl hs
    · omega
  · by_cases hpre : p <+: joinPath (dir home) name
    · have heq : p = joinPath (dir home) name := hpre.eq_of_length (by
        rw [hp.length]
        simp [dir, base, joinPath])
      obtain ⟨name', hname', hkind⟩ := hp
      obtain rfl : name' = name := List.singleton_inj.mp (List.append_cancel_left (hname'.symm.trans heq))
      exact .inr hkind
    · rcases h _ hpre with hs | ⟨hnone, -⟩
      · exact .inl (hs ▸ hname)
      · exact absurd hnone hname

/-! ## Operations -/

/-- What is neither moved nor moved to stays. -/
theorem get?_rename_of_not_prefix {src dst : Path} (h : fs.rename src dst = .ok fs')
    (hq : ¬ dst <+: q) : fs'.get? q = fs.get? q ∨ (src <+: q ∧ fs'.get? q = none) := by
  have hne : q ≠ dst := by
    rintro rfl
    exact hq List.prefix_rfl
  have hmove : (fs.moveTree src dst).get? q = fs.get? q ∨
      (src <+: q ∧ (fs.moveTree src dst).get? q = none) := by
    rw [FS.moveTree_get?_kept fun rest hr => absurd ⟨rest, hr.symm⟩ hq]
    split
    · next hsrc => exact .inr ⟨hsrc, rfl⟩
    · exact .inl rfl
  have hmap : ∀ {x : FS}, (fs.parentDir dst).map (fun _ => x) = .ok fs' → x = fs' := by
    intro x hx
    cases hd : fs.parentDir dst with
    | error e =>
      rw [hd] at hx
      cases hx
    | ok u =>
      rw [hd] at hx
      exact Except.ok.inj hx
  unfold FS.rename at h
  split at h
  · cases h
  · split at h
    · cases h
    · have hfs := hmap h
      split at hfs
      · exact .inl (hfs ▸ rfl)
      · subst hfs
        rw [OrdMap.get?_set_of_ne _ hne, OrdMap.get?_delete]
        split
        · next heq => exact .inr ⟨heq ▸ List.prefix_rfl, rfl⟩
        · exact .inl rfl
  · split at h
    · cases h
    · split at h
      · exact hmap h ▸ hmove
      · cases h
    · exact hmap h ▸ hmove

/-- An operation of the ledger. -/
def Confined (home : Path) : FileOp → Prop
  | .open .r _ | .fsync _ | .close _ => True
  | .open .wx p | .write p _ | .unlink p => Entry home p
  | .mkdir p => p.length ≤ home.length + 2
  | .rename src dst => Entry home src ∧ Entry home dst
  | _ => False

theorem framed_mkdir (hp : p.length ≤ home.length + 2) (h : fs.mkdir p = .ok fs') :
    Framed home fs fs' := by
  rw [FS.mkdir] at h
  split at h
  · cases h
  · next hnone =>
    cases hd : fs.parentDir p with
    | error e =>
      rw [hd] at h
      cases h
    | ok u =>
      rw [hd] at h
      obtain rfl := Except.ok.inj h
      refine ⟨fun q _ => ?_, fun name hname => .inl ?_⟩
      · by_cases hq : q = p
        · subst hq
          exact .inr ⟨hnone, OrdMap.get?_set_self _⟩
        · exact .inl (OrdMap.get?_set_of_ne _ hq)
      · have hne : joinPath (dir home) name ≠ p := by
          rintro rfl
          simp [dir, base, joinPath] at hp
        rwa [OrdMap.get?_set_of_ne _ hne] at hname

theorem framed_append (b : Bytes) (hp : Entry home p) : Framed home fs (fs.append p b) :=
  framed_of_entry hp fun _ hq => .inl (FS.append_get?_of_ne fun heq => hq (heq ▸ List.prefix_rfl))

theorem framed_run {op : FileOp} (hc : Confined home op) (h : op.run fs = .ok fs') :
    Framed home fs fs' := by
  cases op with
  | «open» flag p =>
    cases flag with
    | r =>
      obtain rfl := FS.openFile_r h
      exact .refl _
    | wx =>
      obtain ⟨-, rfl⟩ := FS.openFile_wx h
      exact framed_of_entry hc fun _ hq =>
        .inl (OrdMap.get?_set_of_ne _ fun heq => hq (heq ▸ List.prefix_rfl))
    | w | a => exact hc.elim
  | write p b =>
    obtain rfl := Except.ok.inj h
    exact framed_append b hc
  | fsync p | close p =>
    obtain rfl := Except.ok.inj h
    exact .refl _
  | mkdir p => exact framed_mkdir hc h
  | mkdirp p | rmdir p => exact hc.elim
  | rename src dst =>
    refine framed_of_entry hc.2 fun q hq => ?_
    rcases get?_rename_of_not_prefix h hq with hs | ⟨hpre, hnone⟩
    · exact .inl hs
    · have hle := hpre.length_le
      rw [hc.1.length] at hle
      exact .inr ⟨hnone, by omega⟩
  | unlink p =>
    simp only [FileOp.run, FS.unlink] at h
    split at h
    · cases h
    · cases h
    · obtain rfl := Except.ok.inj h
      refine framed_of_entry hc fun q hq => .inl ?_
      rw [OrdMap.get?_delete, if_neg]
      rintro rfl
      exact hq List.prefix_rfl

theorem framed_cut {op : FileOp} (hc : Confined home op) (kept : Nat) :
    Framed home fs (op.cut fs kept) := by
  cases op with
  | write p b => exact framed_append _ hc
  | _ => exact .refl _

/-- The relation of a program that is framed. -/
def FramedOn (home : Path) (m m' : Machine σ μ) : Prop := Framed home m.disk m'.disk

theorem framed_sys {op : FileOp} (hc : Confined home op) :
    Keeps (FramedOn home) (sys env op : Prog σ μ Nat) := by
  intro m
  have hperform : wp (Prog.perform op) ⟨fun _ m' => FramedOn home m m',
      fun _ m' => FramedOn home m m', fun m' => FramedOn home m m'⟩ m := by
    unfold wp Prog.perform
    cases h : op.run m.disk with
    | ok fs => exact framed_run hc h
    | error e => exact .refl _
  unfold wp sys
  cases env.fate m.tick with
  | perform => exact hperform
  | short count =>
    cases op with
    | write p b => exact framed_append _ hc
    | _ => exact hperform
  | fail kept code => exact framed_cut hc kept
  | crash kept => exact framed_cut hc kept

/-! ## Programs -/

theorem framed_bind {x : Prog σ μ α} {f : α → Prog σ μ β} (hx : Keeps (FramedOn home) x)
    (hf : ∀ a, Keeps (FramedOn home) (f a)) : Keeps (FramedOn home) (x >>= f) :=
  Keeps.bind (R := FramedOn home) (fun _ _ _ h h' => Framed.trans h h') hx hf

theorem framed_catching {x : Prog σ μ α} {h : Failure → Prog σ μ α}
    (hx : Keeps (FramedOn home) x) (hh : ∀ e, Keeps (FramedOn home) (h e)) :
    Keeps (FramedOn home) (x.catching h) :=
  Keeps.catching (R := FramedOn home) (fun _ _ _ h h' => Framed.trans h h') hx hh

theorem framed_finallyDo {x : Prog σ μ α} {y : Prog σ μ Unit} (hx : Keeps (FramedOn home) x)
    (hy : Keeps (FramedOn home) y) : Keeps (FramedOn home) (x.finallyDo y) :=
  Keeps.finallyDo (R := FramedOn home) (fun _ => Framed.refl _) (fun _ _ _ h h' => Framed.trans h h')
    hx hy

theorem framed_pure (a : α) : Keeps (FramedOn home) (pure a : Prog σ μ α) := fun _ => Framed.refl _

theorem framed_raise (e : Failure) : Keeps (FramedOn home) (raise e : Prog σ μ α) := fun _ =>
  Framed.refl _

theorem framed_get : Keeps (FramedOn home) (get : Prog σ μ σ) := fun _ => Framed.refl _

theorem framed_disk : Keeps (FramedOn home) (disk : Prog σ μ FS) := fun _ => Framed.refl _

theorem framed_modify (f : σ → σ) : Keeps (FramedOn home) (modify f : Prog σ μ Unit) := fun _ =>
  Framed.refl _

theorem framed_post (x : μ) : Keeps (FramedOn home) (post x : Prog σ μ Unit) := fun _ =>
  Framed.refl _

theorem framed_now : Keeps (FramedOn home) (now env : Prog σ μ Nat) := fun _ => Framed.refl _

theorem framed_ofExcept (r : Except Failure α) :
    Keeps (FramedOn home) (ofExcept r : Prog σ μ α) :=
  Keeps.ofExcept (R := FramedOn home) (fun _ => Framed.refl _) r

/-- An operation whose value is not used. -/
theorem framed_sys_unit {op : FileOp} (hc : Confined home op) :
    Keeps (FramedOn home) (sys env op >>= fun _ => pure () : Prog σ μ Unit) :=
  framed_bind (framed_sys hc) fun _ => framed_pure _

theorem framed_prepareDir (hp : p.length ≤ home.length + 2) :
    Keeps (FramedOn home) (prepareDir env p : Prog σ μ Unit) := by
  refine framed_bind (framed_catching (framed_sys_unit hp) fun e => ?_) fun _ =>
    framed_bind framed_disk fun fs => ?_
  · split
    · exact framed_pure _
    · exact framed_raise _
  · split
    · exact framed_pure _
    · exact framed_raise _
    · exact framed_raise _

theorem framed_prepare : Keeps (FramedOn home) (prepare home env : Prog σ μ Unit) := by
  refine framed_bind (framed_prepareDir ?_) fun _ => framed_prepareDir ?_
  · simp [base, joinPath]
  · simp [dir, base, joinPath]

theorem framed_read (key : Text) : Keeps (FramedOn home) (read home env key : Prog σ μ _) :=
  framed_bind framed_prepare fun _ => framed_bind (framed_ofExcept _) fun _ =>
    framed_bind framed_disk fun _ => framed_ofExcept _

theorem framed_readAll (names : List Text) :
    Keeps (FramedOn home) (readAll home env names : Prog σ μ _) := by
  induction names with
  | nil => exact framed_pure _
  | cons name names ih =>
    refine framed_bind (framed_read _) fun found => ?_
    cases found with
    | none => exact framed_raise _
    | some record => exact framed_bind ih fun _ => framed_pure _

theorem framed_all : Keeps (FramedOn home) (all home env : Prog σ μ (List Json)) := by
  refine framed_bind framed_prepare fun _ => framed_bind framed_disk fun fs => ?_
  split
  · exact framed_raise _
  · split
    · exact framed_raise _
    · split
      · exact framed_readAll _
      · exact framed_raise _

theorem framed_writeFileSync (hp : Entry home p) (n : Nat) (bytes : Bytes) :
    Keeps (FramedOn home) (writeFileSync env p n bytes : Prog σ μ Unit) := by
  induction n generalizing bytes with
  | zero =>
    rw [writeFileSync]
    split
    · exact framed_pure _
    · exact fun _ => Framed.refl _
  | succ n ih =>
    rw [writeFileSync]
    split
    · exact framed_pure _
    · exact framed_bind (framed_sys hp) fun count => ih _

theorem framed_syncDir (p : Path) : Keeps (FramedOn home) (syncDir env p : Prog σ μ Unit) :=
  framed_bind (framed_sys trivial) fun _ =>
    framed_finallyDo (framed_sys_unit trivial) (framed_sys_unit trivial)

theorem framed_fsyncAll : Keeps (FramedOn home) (fsyncAll home env : Prog σ μ Unit) :=
  framed_bind (framed_syncDir _) fun _ => framed_bind (framed_syncDir _) fun _ => framed_syncDir _

theorem framed_unlinkQuiet (hp : Entry home p) :
    Keeps (FramedOn home) (unlinkQuiet env p : Prog σ μ Unit) := by
  refine framed_catching (framed_sys_unit hp) fun e => ?_
  split
  · exact framed_pure _
  · exact framed_raise _

theorem framed_create {cleanup : Prog σ μ Unit} (hp : Entry home p) (bytes : Bytes)
    (hc : Keeps (FramedOn home) cleanup) :
    Keeps (FramedOn home) (create env p bytes cleanup : Prog σ μ Unit) := by
  have hfill : Keeps (FramedOn home) (fill env p bytes : Prog σ μ Unit) :=
    framed_bind (framed_writeFileSync hp _ _) fun _ => framed_bind (framed_sys trivial) fun _ =>
      framed_sys_unit trivial
  exact framed_bind (framed_catching (framed_sys_unit hp) fun e => framed_bind hc fun _ =>
    framed_raise e) fun _ => framed_catching hfill fun e => framed_bind (framed_sys trivial) fun _ =>
      framed_bind hc fun _ => framed_raise e

theorem recordPath_eq_ok {k : Text} (h : recordPath home k = .ok p) :
    digestText k = true ∧ p = recordFile home k := by
  rw [recordPath] at h
  split at h
  · next hk => exact ⟨hk, (Except.ok.inj h).symm⟩
  · cases h

theorem framed_writeFirst (hp : Entry home p) (bytes : Bytes) :
    Keeps (FramedOn home) (writeFirst home env p bytes : Prog σ μ Unit) :=
  framed_bind (framed_create hp _ (framed_pure ())) fun _ => framed_fsyncAll

theorem framed_writeOver (hp : Entry home p) (hq : Entry home q) (bytes : Bytes) :
    Keeps (FramedOn home) (writeOver home env p q bytes : Prog σ μ Unit) := by
  refine framed_bind (framed_create hq _ (framed_unlinkQuiet hq)) fun _ =>
    framed_finallyDo (framed_bind (framed_sys ?_) fun _ => framed_fsyncAll) (framed_unlinkQuiet hq)
  exact ⟨hq, hp⟩

theorem framed_write (record : Json) (first : Bool) :
    Keeps (FramedOn home) (write home env record first : Prog σ μ Unit) := by
  refine framed_bind framed_prepare fun _ => ?_
  dsimp only
  split
  · exact framed_raise _
  · cases hpath : recordPath home (record.textField "receipt_id") with
    | error e => exact fun m => by rw [wp_bind, wp_ofExcept]; exact Framed.refl _
    | ok target =>
      obtain ⟨hk, rfl⟩ := recordPath_eq_ok hpath
      intro m
      rw [wp_bind, wp_ofExcept]
      dsimp only
      rw [wp_bind, wp_random]
      dsimp only
      split
      · exact framed_writeFirst (entry_recordFile hk) _ m
      · exact framed_writeOver (entry_recordFile hk) (entry_temporaryFile _ _) _ m

theorem framed_reserve (key fingerprint : Text) (metadata : List (Text × Json)) :
    Keeps (FramedOn home) (reserve home env key fingerprint metadata : Prog σ μ Reserved) := by
  refine framed_bind (framed_read _) fun found => ?_
  cases found with
  | some existing =>
    dsimp only
    split
    · exact framed_pure _
    · exact framed_raise _
  | none =>
    refine framed_bind framed_all fun records => ?_
    split
    · exact framed_raise _
    · exact framed_bind framed_now fun _ => framed_bind (framed_write _ _) fun _ => framed_pure _

/-! ## Routes -/

theorem framed_send (req : SendRequest) : Keeps (FramedOn home) (send home env net req) := by
  refine framed_catching (framed_bind (framed_ofExcept _) fun granted => ?_) fun _ => framed_post _
  refine framed_bind (framed_read _) fun existing => framed_bind ?_ fun _ =>
    framed_bind (framed_reserve _ _ _) fun reserved => ?_
  · rw [spend]
    split
    · refine framed_bind framed_all fun _ => framed_bind framed_now fun _ => ?_
      split
      · exact framed_raise _
      · exact framed_pure _
    · exact framed_pure _
  · split
    · exact framed_bind (framed_modify _) fun _ => framed_bind framed_now fun _ =>
        framed_bind (framed_post _) fun _ => framed_modify _
    · exact framed_bind framed_get fun _ => framed_post _

theorem framed_stored (record : Json) :
    Keeps (FramedOn home) (stored home env record : Prog Memory Effect Bool) :=
  framed_catching (framed_bind (framed_write _ _) fun _ => framed_pure _) fun _ => framed_pure _

theorem framed_answered (i : Nat) (answer : Answer) :
    Keeps (FramedOn home) (answered home env i answer) := by
  refine framed_bind framed_get fun memory => ?_
  split
  · exact framed_pure _
  · refine framed_bind (framed_modify _) fun _ => framed_bind (framed_stored _) fun done =>
      framed_bind framed_get fun _ => ?_
    cases done with
    | true => exact framed_bind (framed_post _) fun _ => framed_modify _
    | false => exact framed_bind (framed_post _) fun _ => framed_modify _

theorem framed_query (key : Text) : Keeps (FramedOn home) (query home env key) := by
  refine framed_catching ?_ fun _ => framed_post _
  split
  · refine framed_bind framed_get fun _ => framed_bind (framed_read _) fun found => ?_
    split
    · split
      · exact framed_post _
      · exact framed_raise _
    · exact framed_raise _
  · exact framed_raise _

theorem framed_forwarded (req : ForwardedRequest) :
    Keeps (FramedOn home) (forwarded home env req) := by
  refine framed_catching (framed_bind (framed_ofExcept _) fun _ =>
    framed_bind (framed_reserve _ _ _) fun reserved => ?_) fun _ => framed_post _
  split
  · exact framed_bind (framed_modify _) fun _ => framed_post _
  · exact framed_bind framed_get fun _ => framed_post _

theorem framed_answeredLocally (i statusCode : Nat) (body : Json) :
    Keeps (FramedOn home) (answeredLocally home env i statusCode body) := by
  refine framed_bind framed_get fun memory => ?_
  split
  · exact framed_pure _
  · refine framed_bind (framed_stored _) fun done => ?_
    cases done with
    | true => exact framed_post _
    | false => exact framed_post _

theorem framed_handle (e : Event) : Keeps (FramedOn home) (handle home env net e) := by
  cases e with
  | send req => exact framed_send req
  | answered i answer => exact framed_answered i answer
  | query key => exact framed_query key
  | forwarded req => exact framed_forwarded req
  | answeredLocally i statusCode body => exact framed_answeredLocally i statusCode body
  | restart => exact framed_modify (fun _ => ({} : Memory))

theorem framed_step (env : Env) (net : Addresses) (m : Node) (e : Event) :
    Framed home m.disk (step home env net m e).disk := by
  have hw : wp (handle home env net e) ⟨fun _ m' => FramedOn home m m',
      fun _ m' => FramedOn home m m', fun m' => FramedOn home m m'⟩ m := framed_handle e m
  unfold wp at hw
  unfold step
  split
  · next heq => rw [heq] at hw; exact hw
  · next heq => rw [heq] at hw; exact hw
  · next heq => rw [heq] at hw; exact hw

/-- **A run** makes directories, record files and temporary files, and nothing else. -/
theorem framed_run_events (env : Env) (net : Addresses) (m : Node) (es : List Event) :
    Framed home m.disk (run home env net m es).disk := by
  induction es generalizing m with
  | nil => exact .refl _
  | cons e es ih => exact (framed_step env net m e).trans (ih _)

end Telepty.Forward
