import Mathlib.Data.List.Infix
import Telepty.Infra.Process

/-!
# File systems that are trees

Whatever exists stands in a directory. Every operation on files keeps that; a rename of a directory
into itself would not, and is refused by an operating system.
-/

namespace Telepty.Infra

namespace FS

/-- **Whatever exists stands in a directory.** -/
def Tree (fs : FS) : Prop :=
  ∀ p name node, fs.get? (joinPath p name) = some node → fs.get? p = some .dir

variable {fs fs' : FS} {p q src dst : Path} {b : Bytes}

theorem parent_of_parentDir (h : fs.parentDir p = .ok ()) : fs.get? p.dropLast = some .dir := by
  unfold parentDir at h
  split at h
  · cases h
  · cases h
  · next hd => exact hd

theorem parent_of_openFile_wx (h : fs.openFile .wx p = .ok fs') : fs.get? p.dropLast = some .dir := by
  unfold openFile at h
  split at h
  · rw [if_neg (by decide)] at h
    cases hd : fs.parentDir p with
    | error e => rw [hd] at h; cases h
    | ok u => exact parent_of_parentDir hd
  · cases h
  · cases h

/-- A node that is set where no directory was stands in a directory again. -/
theorem Tree.set (h : fs.Tree) (n : Node) (hp : ∀ q name, p = joinPath q name → fs.get? q = some .dir)
    (hn : n = .dir ∨ fs.get? p ≠ some .dir) : Tree (OrdMap.set fs p n) := by
  intro q name node hq
  rw [OrdMap.get?_set] at hq
  have hdir : fs.get? q = some .dir := by
    split at hq
    · next he => exact hp q name he.symm
    · exact h q name node hq
  rw [OrdMap.get?_set]
  split
  · next he =>
    rcases hn with rfl | hn
    · rfl
    · rw [← he] at hn
      exact absurd hdir hn
  · exact hdir

/-- What has nothing in it can be removed. -/
theorem Tree.delete (h : fs.Tree) (hp : ∀ name, fs.get? (joinPath p name) = none) :
    Tree (OrdMap.delete fs p) := by
  intro q name node hq
  rw [OrdMap.get?_delete] at hq ⊢
  split at hq
  · cases hq
  · split
    · next he =>
      rw [he, hp name] at hq
      cases hq
    · exact h q name node hq

theorem Tree.nothing_in_file (h : fs.Tree) (hp : fs.get? p = some (.file b)) (name : Text) :
    fs.get? (joinPath p name) = none := by
  cases hc : fs.get? (joinPath p name) with
  | none => rfl
  | some n =>
    rw [h p name n hc] at hp
    cases hp

theorem nothing_in_empty (h : (fs.names p).isEmpty = true) (name : Text) :
    fs.get? (joinPath p name) = none := by
  cases hc : fs.get? (joinPath p name) with
  | none => rfl
  | some n =>
    have hm : name ∈ fs.names p := mem_names_iff.mpr ⟨n, hc⟩
    rw [List.isEmpty_iff.mp h] at hm
    cases hm

/-- Where nothing stands directly below a path, nothing stands below it. -/
theorem Tree.nothing_below (h : fs.Tree) (hp : ∀ name, fs.get? (joinPath p name) = none)
    {rest : Path} (hr : rest ≠ []) : fs.get? (p ++ rest) = none := by
  induction rest using List.reverseRecOn with
  | nil => exact absurd rfl hr
  | append_singleton rest name ih =>
    by_cases he : rest = []
    · rw [he]
      exact hp name
    · cases hc : fs.get? (p ++ (rest ++ [name])) with
      | none => rfl
      | some n =>
        have hd := h (p ++ rest) name n (by rw [joinPath, List.append_assoc]; exact hc)
        rw [ih he] at hd
        cases hd

theorem Tree.openFile {flag : OpenFlag} (h : fs.Tree) (ho : fs.openFile flag p = .ok fs') :
    fs'.Tree := by
  have hnew : fs.get? p = none → (fs.parentDir p).map (fun _ => OrdMap.set fs p (.file [])) = .ok fs' →
      fs'.Tree := by
    intro hp hm
    cases hd : fs.parentDir p with
    | error e => rw [hd] at hm; cases hm
    | ok u =>
      rw [hd] at hm
      cases hm
      refine h.set _ (fun q name he => ?_) (.inr (by rw [hp]; exact nofun))
      have hpar := parent_of_parentDir hd
      rwa [he, joinPath, List.dropLast_concat] at hpar
  unfold FS.openFile at ho
  split at ho
  · next hp =>
    split at ho
    · cases ho
    · exact hnew hp ho
  · cases flag <;> cases ho
    exact h
  · next b hp =>
    cases flag <;> cases ho
    · exact h
    · refine h.set _ (fun q name he => ?_) (.inr (by rw [hp]; exact nofun))
      exact h q name _ (he ▸ hp)
    · exact h

theorem Tree.append (h : fs.Tree) (p : Path) (b : Bytes) : (fs.append p b).Tree := by
  unfold FS.append
  split
  · next old hp =>
    exact h.set _ (fun q name he => h q name _ (he ▸ hp)) (.inr (by rw [hp]; exact nofun))
  · exact h

theorem Tree.mkdir (h : fs.Tree) (hm : fs.mkdir p = .ok fs') : fs'.Tree := by
  unfold FS.mkdir at hm
  split at hm
  · cases hm
  · cases hd : fs.parentDir p with
    | error e => rw [hd] at hm; cases hm
    | ok u =>
      rw [hd] at hm
      cases hm
      refine h.set _ (fun q name he => ?_) (.inl rfl)
      have hpar := parent_of_parentDir hd
      rwa [he, joinPath, List.dropLast_concat] at hpar

/-- One ancestor of a recursive `mkdir`. -/
def mkdirStep (err : Path → Errno) (fs : FS) (q : Path) : Except Errno FS :=
  match fs.get? q with
  | none => .ok (OrdMap.set fs q .dir)
  | some .dir => .ok fs
  | some (.file _) => .error (err q)

theorem Tree.mkdirStep {err : Path → Errno} (h : fs.Tree)
    (hp : ∀ q name, p = joinPath q name → fs.get? q = some .dir)
    (hm : mkdirStep err fs p = .ok fs') : fs'.Tree ∧ fs'.get? p = some .dir := by
  unfold FS.mkdirStep at hm
  split at hm
  · cases hm
    exact ⟨h.set _ hp (.inl rfl), OrdMap.get?_set_self _⟩
  · next hd =>
    cases hm
    exact ⟨h, hd⟩
  · cases hm

theorem Tree.mkdirSteps {err : Path → Errno} (h : fs.Tree)
    (hm : p.inits.foldlM (FS.mkdirStep err) fs = .ok fs') : fs'.Tree ∧ fs'.get? p = some .dir := by
  induction p using List.reverseRecOn generalizing fs' with
  | nil =>
    have hroot : FS.mkdirStep err fs [] = .ok fs' := by
      cases hs : FS.mkdirStep err fs [] with
      | error e => simp [hs, Bind.bind, Except.bind] at hm
      | ok a => simpa [hs, Bind.bind, Except.bind, pure, Except.pure] using hm
    refine h.mkdirStep (fun q name he => ?_) hroot
    simp [joinPath] at he
  | append_singleton p x ih =>
    rw [List.inits_append, show [x].inits.tail.map (p ++ ·) = [p ++ [x]] from rfl,
      List.foldlM_append] at hm
    cases hfold : p.inits.foldlM (FS.mkdirStep err) fs with
    | error e => rw [hfold] at hm; cases hm
    | ok fs₁ =>
      rw [hfold] at hm
      replace hm : (FS.mkdirStep err fs₁ (p ++ [x]) >>= pure) = .ok fs' := hm
      rw [bind_pure] at hm
      obtain ⟨htree, hdir⟩ := ih hfold
      refine htree.mkdirStep (fun q name he => ?_) hm
      obtain ⟨rfl, -⟩ := List.append_inj' he rfl
      exact hdir

theorem Tree.mkdirp (h : fs.Tree) (hm : fs.mkdirp p = .ok fs') : fs'.Tree :=
  (Tree.mkdirSteps h hm).1

/-- A recursive `mkdir` makes directories at free prefixes of its path and changes nothing else. -/
theorem mkdirp_get? (h : fs.mkdirp p = .ok fs') (q : Path) :
    fs'.get? q = fs.get? q ∨ q <+: p ∧ fs.get? q = none ∧ fs'.get? q = some .dir := by
  have hfold : ∀ (l : List Path) (fs : FS), (∀ r ∈ l, r <+: p) →
      l.foldlM (mkdirStep fun q => if q = p then .EEXIST else .ENOTDIR) fs = .ok fs' →
      fs'.get? q = fs.get? q ∨ q <+: p ∧ fs.get? q = none ∧ fs'.get? q = some .dir := by
    intro l
    induction l with
    | nil =>
      intro fs _ hm
      cases hm
      exact .inl rfl
    | cons r l ih =>
      intro fs hl hm
      rw [List.foldlM_cons] at hm
      cases hs : mkdirStep (fun q => if q = p then .EEXIST else .ENOTDIR) fs r with
      | error e => rw [hs] at hm; cases hm
      | ok fs₁ =>
        rw [hs] at hm
        have hrest := ih fs₁ (fun r' hr' => hl r' (List.mem_cons_of_mem _ hr')) hm
        unfold mkdirStep at hs
        split at hs
        · next hnone =>
          cases hs
          rw [OrdMap.get?_set] at hrest
          by_cases hq : q = r
          · rw [if_pos hq] at hrest
            subst hq
            refine .inr ⟨hl q List.mem_cons_self, hnone, ?_⟩
            rcases hrest with h | h
            · exact h
            · exact h.2.2
          · rw [if_neg hq] at hrest
            exact hrest
        · cases hs
          exact hrest
        · cases hs
  exact hfold p.inits fs (fun r hr => (List.mem_inits r p).mp hr) h

/-! ## Moving -/

/-- A place that something is moved to stands in a directory. -/
theorem parent_of_rename (h : fs.rename src dst = .ok fs') : fs.get? dst.dropLast = some .dir := by
  have hparent : ∀ {g : FS}, (fs.parentDir dst).map (fun _ => g) = .ok fs' →
      fs.get? dst.dropLast = some .dir := by
    intro g hm
    cases hd : fs.parentDir dst with
    | error e => rw [hd] at hm; cases hm
    | ok u => exact parent_of_parentDir hd
  unfold FS.rename at h
  repeat' split at h
  all_goals first
    | exact hparent h
    | cases h

theorem mem_moved {n : Node} :
    (q, n) ∈ fs.entries.filterMap (fun e => (rebase src dst e.1).map fun q => (q, e.2)) ↔
      ∃ rest, q = dst ++ rest ∧ fs.get? (src ++ rest) = some n := by
  rw [List.mem_filterMap]
  constructor
  · rintro ⟨⟨k, n'⟩, hm, he⟩
    obtain ⟨q', hq', he⟩ := Option.map_eq_some_iff.mp he
    cases he
    unfold rebase at hq'
    split at hq'
    · next hpre =>
      obtain ⟨rest, rfl⟩ := hpre
      cases hq'
      exact ⟨rest, by rw [List.drop_left], fs.mem_entries_iff.mp hm⟩
    · cases hq'
  · rintro ⟨rest, rfl, hn⟩
    refine ⟨(src ++ rest, n), fs.mem_entries_iff.mpr hn, ?_⟩
    rw [rebase, if_pos (List.prefix_append _ _), List.drop_left]
    rfl

/-- What stood below the source stands below the destination. -/
theorem moveTree_get?_moved {rest : Path} {n : Node} (h : fs.get? (src ++ rest) = some n) :
    (fs.moveTree src dst).get? (dst ++ rest) = some n := by
  have hm : (dst ++ rest, n) ∈ _ := mem_moved.mpr ⟨rest, rfl, h⟩
  rw [moveTree, OrdMap.get?_setAll]
  obtain ⟨n', hn'⟩ := Option.isSome_iff_exists.mp
    (assoc_isSome_iff.mpr (List.mem_map.mpr ⟨_, List.mem_reverse.mpr hm, rfl⟩))
  obtain ⟨rest', he, hr⟩ := mem_moved.mp (List.mem_reverse.mp (mem_of_assoc hn'))
  rw [← List.append_cancel_left he, h] at hr
  rw [hn', hr]
  rfl

/-- Where nothing is moved to, what was not moved away stays. -/
theorem moveTree_get?_kept (hq : ∀ rest, q = dst ++ rest → fs.get? (src ++ rest) = none) :
    (fs.moveTree src dst).get? q = if src <+: q then none else fs.get? q := by
  rw [moveTree, OrdMap.get?_setAll, assoc_eq_none_iff.mpr, Option.none_or, OrdMap.get?_filter]
  · by_cases hpre : src <+: q
    · rw [if_pos hpre]
      cases fs.get? q with
      | none => rfl
      | some n => simp [Option.filter, hpre]
    · rw [if_neg hpre]
      cases fs.get? q with
      | none => rfl
      | some n => simp [Option.filter, hpre]
  · intro hm
    obtain ⟨⟨k, n⟩, hk, rfl⟩ := List.mem_map.mp hm
    obtain ⟨rest, he, hn⟩ := mem_moved.mp (List.mem_reverse.mp hk)
    rw [hq rest he] at hn
    cases hn

/-- A directory that moves to a free or empty place outside itself. -/
theorem Tree.moveTree (h : fs.Tree) (hout : ¬ src <+: dst)
    (hfree : ∀ name, fs.get? (joinPath dst name) = none)
    (hparent : fs.get? dst.dropLast = some .dir) : (fs.moveTree src dst).Tree := by
  intro q name node hq
  by_cases hmoved : ∃ rest, joinPath q name = dst ++ rest ∧ (fs.get? (src ++ rest)).isSome = true
  · obtain ⟨rest, he, hn⟩ := hmoved
    obtain ⟨n, hn⟩ := Option.isSome_iff_exists.mp hn
    rcases List.eq_nil_or_concat rest with rfl | ⟨rest, last, rfl⟩
    · -- the moved directory itself: its new parent was there and is not moved
      rw [List.append_nil] at he
      have hqd : q = dst.dropLast := by rw [← he, joinPath, List.dropLast_concat]
      rw [moveTree_get?_kept, if_neg, hqd, hparent]
      · rintro hpre
        exact hout (hpre.trans (by rw [← he]; exact List.prefix_append _ _))
      · intro rest hr
        have hlen := congrArg List.length hr
        rw [← he, joinPath] at hlen
        simp at hlen
    · rw [List.concat_eq_append, ← List.append_assoc] at he hn
      obtain ⟨rfl, -⟩ := List.append_inj' he rfl
      exact moveTree_get?_moved (h _ last n hn)
  · have hkept : ∀ rest, joinPath q name = dst ++ rest → fs.get? (src ++ rest) = none := by
      intro rest hr
      cases hn : fs.get? (src ++ rest) with
      | none => rfl
      | some n => exact absurd ⟨rest, hr, by rw [hn]; rfl⟩ hmoved
    rw [moveTree_get?_kept hkept] at hq
    split at hq
    · cases hq
    · next hpre =>
      have hdir := h q name node hq
      have hq' : ¬ src <+: q := fun hp => hpre (hp.trans (List.prefix_append _ _))
      by_cases hqd : ∃ rest, q = dst ++ rest
      · -- nothing stood at the destination
        obtain ⟨rest, rfl⟩ := hqd
        rw [joinPath, List.append_assoc, h.nothing_below hfree (by simp)] at hq
        cases hq
      · rw [moveTree_get?_kept (fun rest hr => absurd ⟨rest, hr⟩ hqd), if_neg hq', hdir]

/-- A move to the place itself. -/
theorem moveTree_self (fs : FS) (p q : Path) : (fs.moveTree p p).get? q = fs.get? q := by
  by_cases hmoved : ∃ rest, q = p ++ rest ∧ (fs.get? (p ++ rest)).isSome = true
  · obtain ⟨rest, rfl, hn⟩ := hmoved
    obtain ⟨n, hn⟩ := Option.isSome_iff_exists.mp hn
    rw [moveTree_get?_moved hn, hn]
  · have hnone : ∀ rest, q = p ++ rest → fs.get? (p ++ rest) = none := by
      intro rest hr
      cases hn : fs.get? (p ++ rest) with
      | none => rfl
      | some n => exact absurd ⟨rest, hr, by rw [hn]; rfl⟩ hmoved
    rw [moveTree_get?_kept hnone]
    split
    · next hpre =>
      obtain ⟨rest, rfl⟩ := hpre
      exact (hnone rest rfl).symm
    · rfl

theorem Tree.congr (h : fs.Tree) (hq : ∀ q, fs'.get? q = fs.get? q) : fs'.Tree := by
  intro p name n hn
  rw [hq] at hn ⊢
  exact h p name n hn

theorem Tree.rename_self (h : fs.Tree) (hr : fs.rename p p = .ok fs') : fs'.Tree := by
  have hsame : ∀ {g : FS}, (fs.parentDir p).map (fun _ => g) = .ok fs' → g = fs' := by
    intro g hm
    cases hd : fs.parentDir p with
    | error e => rw [hd] at hm; cases hm
    | ok u => rw [hd] at hm; cases hm; rfl
  unfold FS.rename at hr
  split at hr
  · cases hr
  · split at hr
    · cases hr
    · rw [← hsame hr, if_pos rfl]
      exact h
  · next hp =>
    rw [hp] at hr
    simp only at hr
    split at hr
    · rw [← hsame hr]
      exact h.congr (moveTree_self fs p)
    · cases hr

theorem Tree.rename (h : fs.Tree) (hout : ¬ src <+: dst) (hr : fs.rename src dst = .ok fs') :
    fs'.Tree := by
  have hne : src ≠ dst := fun he => hout (he ▸ List.prefix_refl _)
  have hparent : ∀ {g : FS}, (fs.parentDir dst).map (fun _ => g) = .ok fs' →
      fs.get? dst.dropLast = some .dir ∧ g = fs' := by
    intro g hm
    cases hd : fs.parentDir dst with
    | error e => rw [hd] at hm; cases hm
    | ok u =>
      rw [hd] at hm
      cases hm
      exact ⟨parent_of_parentDir hd, rfl⟩
  unfold FS.rename at hr
  split at hr
  · cases hr
  · next b hsrc =>
    split at hr
    · cases hr
    · next hdst =>
      obtain ⟨hdir, rfl⟩ := hparent hr
      rw [if_neg hne]
      refine (h.delete (h.nothing_in_file hsrc)).set _ (fun q name he => ?_) (.inr fun hd => ?_)
      · rw [he, joinPath, List.dropLast_concat] at hdir
        rw [OrdMap.get?_delete, if_neg, hdir]
        rintro rfl
        rw [hsrc] at hdir
        cases hdir
      · rw [OrdMap.get?_delete, if_neg hne.symm] at hd
        exact hdst hd
  · next hsrc =>
    split at hr
    · cases hr
    · split at hr
      · next hempty =>
        obtain ⟨hdir, rfl⟩ := hparent hr
        exact h.moveTree hout (nothing_in_empty hempty) hdir
      · cases hr
    · next hnone =>
      obtain ⟨hdir, rfl⟩ := hparent hr
      refine h.moveTree hout (fun name => ?_) hdir
      cases hc : fs.get? (joinPath dst name) with
      | none => rfl
      | some n =>
        rw [h dst name n hc] at hnone
        cases hnone

end FS

/-! ## The operations -/

/-- No directory is moved into itself. -/
def FileOp.Tame : FileOp → Prop
  | .rename src dst => src = dst ∨ ¬ src <+: dst
  | _ => True

theorem FileOp.tame_rename {src dst : Path} (h : dst.length ≤ src.length) :
    (FileOp.rename src dst).Tame := by
  by_cases hp : src <+: dst
  · exact .inl (hp.eq_of_length_le h)
  · exact .inr hp

/-- **A file operation keeps a tree.** -/
theorem FileOp.tree_run {op : FileOp} {fs fs' : FS} (ho : op.Tame) (h : fs.Tree)
    (hr : op.run fs = .ok fs') : fs'.Tree := by
  cases op with
  | «open» flag p => exact h.openFile hr
  | write p b => cases hr; exact h.append p b
  | fsync p => cases hr; exact h
  | close p => cases hr; exact h
  | mkdir p => exact h.mkdir hr
  | mkdirp p => exact h.mkdirp hr
  | rename src dst =>
    rcases ho with rfl | hout
    · exact h.rename_self hr
    · exact h.rename hout hr
  | rmdir p =>
    change fs.rmdir p = _ at hr
    unfold FS.rmdir at hr
    split at hr
    · cases hr
    · cases hr
    · split at hr
      · next hempty =>
        cases hr
        exact h.delete (FS.nothing_in_empty hempty)
      · cases hr
  | unlink p =>
    change fs.unlink p = _ at hr
    unfold FS.unlink at hr
    split at hr
    · cases hr
    · cases hr
    · next b hp =>
      cases hr
      exact h.delete (h.nothing_in_file hp)

theorem FileOp.tree_cut {op : FileOp} {fs : FS} (h : fs.Tree) (kept : Nat) : (op.cut fs kept).Tree := by
  cases op with
  | write p b => exact h.append p (b.take kept)
  | _ => exact h

end Telepty.Infra
