import Telepty.Shared.Transfer

/-!
# Committing a shared reference

Between the link and the unlink the file has two names, and a verification takes a file with two
names for a link that somebody else has made.

* `refused_of_linked`, `never_done_of_crash` — a verification that falls there is refused, and after
  a crash there every later one
* `commits` — without either every commit succeeds
-/

namespace Telepty.SharedReference

open Infra

/-! ## Between the link and the unlink -/

/-- The file has its temporary name as well. -/
def World.linked (w : World) : Prop := ∃ f, w.final = some f ∧ w.temporary f = true

instance (w : World) : Decidable w.linked :=
  decidable_of_iff (w.final.any w.temporary = true) (by rw [Option.any_eq_true]; rfl)

theorem World.nlink_of_linked {w : World} {f : Nat} (hfinal : w.final = some f)
    (htemporary : w.temporary f = true) : w.nlink f = 2 := by
  rw [World.nlink, if_pos hfinal, if_pos htemporary]

theorem World.nlink_of_not_linked {w : World} {f : Nat} (hfinal : w.final = some f)
    (h : ¬ w.linked) : w.nlink f = 1 := by
  have htemporary : ¬ w.temporary f = true := fun htemporary => h ⟨f, hfinal, htemporary⟩
  rw [World.nlink, if_pos hfinal, if_neg htemporary]

/-- A verification that falls there is refused. -/
theorem refused_of_linked {bytes : Bytes} {w : World} (h : w.linked) {p : Nat} {published : Option Bool}
    (hp : w.procs p = some (.running (.lstat published))) (chunk : Nat) :
    (step bytes w (.step p chunk)).procs p = some .refused := by
  obtain ⟨f, hfinal, htemporary⟩ := h
  have hnlink := World.nlink_of_linked hfinal htemporary
  simp only [step, hp, next, hfinal, hnlink]
  simp

/-- Where a commit can stand that starts while a file has two names for good. -/
def Barred (s : Option Proc) : Prop :=
  s = none ∨ s = some (.running .teleptyDir) ∨ s = some (.running .sharedDir) ∨
    s = some (.running (.lstat none)) ∨ s = some .refused ∨ s = some .crashed

/-- **A crash there.** The file keeps its two names, and no commit that starts later succeeds. -/
theorem never_done_of_crash {bytes : Bytes} {w : World} {f q : Nat} (hfinal : w.final = some f)
    (htemporary : w.temporary f = true) (hcrashed : w.procs f = some .crashed)
    (hq : Barred (w.procs q)) (events : List Event) :
    Barred ((run bytes w events).procs q) := by
  induction events generalizing w with
  | nil => exact hq
  | cons e events ih =>
    change Barred ((run bytes (step bytes w e) events).procs q)
    have hlinked : w.linked := ⟨f, hfinal, htemporary⟩
    rcases step_cases bytes w e with heq | ⟨p, -, hp, heq⟩ | ⟨p, pc, -, hp, heq⟩ |
      ⟨p, chunk, pc, rfl, hp, heq⟩
    · rw [heq]
      exact ih hfinal htemporary hcrashed hq
    · have hfp : f ≠ p := by
        rintro rfl
        cases hcrashed.symm.trans hp
      rw [heq]
      refine ih hfinal htemporary ((put_procs_of_ne hfp _).trans hcrashed) ?_
      by_cases hqp : q = p
      · subst hqp
        rw [put_procs_self]
        exact .inr (.inl rfl)
      · rwa [put_procs_of_ne hqp]
    · have hfp : f ≠ p := by
        rintro rfl
        cases hcrashed.symm.trans hp
      rw [heq]
      refine ih hfinal htemporary ((put_procs_of_ne hfp _).trans hcrashed) ?_
      by_cases hqp : q = p
      · subst hqp
        rw [put_procs_self]
        exact .inr (.inr (.inr (.inr (.inr rfl))))
      · rwa [put_procs_of_ne hqp]
    · have hfp : f ≠ p := by
        rintro rfl
        cases hcrashed.symm.trans hp
      have hfinal' : (step bytes w (.step p chunk)).final = some f := by
        rw [heq, put_final, effect_final, if_neg (by simp [hfinal]), hfinal]
      have htemporary' : (step bytes w (.step p chunk)).temporary f = true := by
        rw [heq, put_temporary, effect_temporary_of_ne hfp, htemporary]
      have hcrashed' : (step bytes w (.step p chunk)).procs f = some .crashed := by
        rw [heq, put_procs_of_ne hfp, effect_procs, hcrashed]
      refine ih hfinal' htemporary' hcrashed' ?_
      by_cases hqp : q = p
      · subst hqp
        rcases hq with hq | hq | hq | hq | hq | hq
        · cases hp.symm.trans hq
        · rw [step, hq]
          exact .inr (.inr (.inl (put_procs_self ..)))
        · rw [step, hq]
          exact .inr (.inr (.inr (.inl (put_procs_self ..))))
        · exact .inr (.inr (.inr (.inr (.inl (refused_of_linked hlinked hq chunk)))))
        · cases hp.symm.trans hq
        · cases hp.symm.trans hq
      · rwa [heq, put_procs_of_ne hqp, effect_procs]

/-! ## Calm runs -/

/-- The step is a `stat` of a verification. -/
def Pc.stats : Pc → Bool
  | .lstat _ | .fstat .. => true
  | _ => false

def Proc.stats : Proc → Bool
  | .running pc => pc.stats
  | _ => false

/-- No verification looks at a file that has two names, and no commit dies between its link and its
unlink. -/
def Calm (w : World) : Event → Prop
  | .start _ => True
  | .step p _ => (w.procs p).any Proc.stats = true → ¬ w.linked
  | .crash p => w.procs p ≠ some (.running (.unlink true))

def CalmRun (bytes : Bytes) (w : World) : List Event → Prop
  | [] => True
  | e :: events => Calm w e ∧ CalmRun bytes (step bytes w e) events

instance (w : World) : (e : Event) → Decidable (Calm w e)
  | .start _ => .isTrue trivial
  | .step p _ => inferInstanceAs (Decidable ((w.procs p).any Proc.stats = true → ¬ w.linked))
  | .crash p => inferInstanceAs (Decidable (w.procs p ≠ some (.running (.unlink true))))

instance decidableCalmRun (bytes : Bytes) :
    (w : World) → (events : List Event) → Decidable (CalmRun bytes w events)
  | _, [] => .isTrue trivial
  | w, e :: events =>
    @instDecidableAnd _ _ (inferInstanceAs (Decidable (Calm w e))) (decidableCalmRun bytes _ events)

/-- What a commit knows of the file where it stands. -/
def Pc.Fits (final : Option Nat) : Pc → Prop
  | .lstat (some _) | .unlink _ | .sync _ => final ≠ none
  | .openExisting _ seen => final = some seen
  | .fstat _ seen opened => final = some seen ∧ opened = seen
  | .read _ opened conflict => final = some opened ∧ conflict = false
  | _ => True

/-- The file does not go away again. -/
theorem Pc.Fits.mono {final final' : Option Nat} {pc : Pc} (h : pc.Fits final)
    (hfinal : ∀ f, final = some f → final' = some f) : pc.Fits final' := by
  have hsome : final ≠ none → final' ≠ none := by
    intro hne
    obtain ⟨f, hf⟩ := Option.ne_none_iff_exists'.mp hne
    rw [hfinal f hf]
    exact nofun
  cases pc with
  | lstat published =>
    cases published with
    | none => trivial
    | some created => exact hsome h
  | openExisting published seen => exact hfinal seen h
  | fstat published seen opened => exact ⟨hfinal seen h.1, h.2⟩
  | read published opened conflict => exact ⟨hfinal opened h.1, h.2⟩
  | unlink created => exact hsome h
  | sync created => exact hsome h
  | _ => trivial

def Proc.Fits (final : Option Nat) : Proc → Prop
  | .running pc => pc.Fits final
  | .refused => False
  | .done _ | .crashed => True

/-- What calm runs keep. -/
structure Clean (bytes : Bytes) (w : World) : Prop where
  sound : Sound bytes w
  /-- only a commit that is about to take it away leaves a second name -/
  linked : ∀ f, w.final = some f → w.temporary f = true →
    w.procs f = some (.running (.unlink true))
  fits : ∀ p s, w.procs p = some s → s.Fits w.final

section

variable {bytes : Bytes} {w : World} {p chunk : Nat} {pc : Pc}

theorem clean_initial : Clean bytes .initial where
  sound := sound_initial
  linked := fun _ h => nomatch h
  fits := fun _ _ h => nomatch h

theorem final_of_effect {f : Nat} (h : w.final = some f) :
    (effect bytes w p chunk pc).final = some f := by
  rw [effect_final, if_neg (by simp [h]), h]

/-- A step that no `stat` of a second name spoils fits the file. -/
theorem Clean.next_fits (h : Clean bytes w) (hpc : w.procs p = some (.running pc))
    (hcalm : pc.stats = true → ¬ w.linked) :
    (next bytes w p chunk pc).Fits (effect bytes w p chunk pc).final := by
  have hfits : pc.Fits w.final := h.fits p _ hpc
  have hfinal : ∀ {f}, w.final = some f → (effect bytes w p chunk pc).final = some f :=
    final_of_effect
  cases pc with
  | lstat published =>
    simp only [next]
    split
    next hnone =>
      cases published with
      | none => trivial
      | some created => exact absurd hnone hfits
    next f hf =>
      rw [if_neg]
      · exact hfinal hf
      · rw [World.nlink_of_not_linked hf (hcalm rfl), (h.sound.file f hf).1]
        simp
  | openExisting published seen =>
    have hseen : w.final = some seen := hfits
    simp only [next, hseen]
    exact ⟨hfinal hseen, rfl⟩
  | fstat published seen opened =>
    obtain ⟨hseen, rfl⟩ := hfits
    refine ⟨hfinal hseen, ?_⟩
    rw [World.nlink_of_not_linked hseen (hcalm rfl), (h.sound.file opened hseen).1]
    simp
  | read published opened conflict =>
    obtain ⟨hopened, rfl⟩ := hfits
    simp only [next]
    rw [if_neg]
    · have hne : (effect bytes w p chunk (.read published opened false)).final ≠ none := by
        rw [hfinal hopened]
        rintro ⟨⟩
      cases published with
      | none => exact hne
      | some created => exact hne
    · rw [(h.sound.file opened hopened).1]
      simp
  | link =>
    change (effect bytes w p chunk .link).final ≠ none
    rw [effect_final]
    split
    · rintro ⟨⟩
    next hne => exact fun hnone => hne ⟨rfl, hnone⟩
  | write =>
    simp only [next]
    split <;> trivial
  | unlink created =>
    obtain ⟨f, hf⟩ := Option.ne_none_iff_exists'.mp (show w.final ≠ none from hfits)
    change (effect bytes w p chunk (.unlink created)).final ≠ none
    rw [hfinal hf]
    rintro ⟨⟩
  | _ => trivial

/-- A process other than one before its unlink is put somewhere, without anything done to the
directory. -/
theorem Clean.put (h : Clean bytes w) {s : Proc} (hsound : Sound bytes (w.put p s))
    (hp : w.procs p ≠ some (.running (.unlink true))) (hs : s.Fits w.final) :
    Clean bytes (w.put p s) where
  sound := hsound
  linked := by
    intro f hf htemporary
    have hprocs := h.linked f hf htemporary
    have hfp : f ≠ p := by
      rintro rfl
      exact hp hprocs
    rw [put_procs_of_ne hfp, hprocs]
  fits := by
    intro q s' hq
    by_cases hqp : q = p
    · subst hqp
      rw [put_procs_self] at hq
      exact Option.some.inj hq ▸ hs
    · exact h.fits q s' ((put_procs_of_ne hqp _).symm.trans hq)

/-- **One calm step.** -/
theorem Clean.step (h : Clean bytes w) {e : Event} (hcalm : Calm w e) :
    Clean bytes (step bytes w e) := by
  have hsound := h.sound.step e
  rcases step_cases bytes w e with heq | ⟨p, -, hnone, heq⟩ | ⟨p, pc, rfl, hpc, heq⟩ |
    ⟨p, chunk, pc, rfl, hpc, heq⟩
  · rwa [heq]
  · rw [heq] at hsound ⊢
    refine h.put hsound ?_ trivial
    rw [hnone]
    rintro ⟨⟩
  · rw [heq] at hsound ⊢
    exact h.put hsound hcalm trivial
  · rw [heq] at hsound ⊢
    have hnext : (next bytes w p chunk pc).Fits _ :=
      h.next_fits hpc fun hstats => hcalm (by rw [hpc]; exact hstats)
    refine ⟨hsound, ?_, ?_⟩
    · intro f hf htemporary
      rw [put_final, effect_final] at hf
      rw [put_temporary] at htemporary
      split at hf
      next hlink =>
        obtain rfl := Option.some.inj hf
        obtain ⟨rfl, hnone⟩ := hlink
        rw [put_procs_self, next, decide_eq_true hnone]
      · by_cases hfp : f = p
        · -- the temporary name of a file that is there goes with the unlink
          subst hfp
          have htemporary' : w.temporary f = true ∧ pc ≠ .unlink true := by
            obtain ⟨-, s, hs, hlate⟩ := h.sound.file f hf
            obtain rfl := Option.some.inj (hs.symm.trans hpc)
            cases pc with
            | openTemporary => exact Bool.noConfusion hlate
            | unlink created =>
              have hgone : (effect bytes w f chunk (.unlink created)).temporary f = false :=
                if_pos rfl
              exact Bool.noConfusion (hgone.symm.trans htemporary)
            | link => exact Bool.noConfusion hlate
            | _ => exact ⟨htemporary, by rintro ⟨⟩⟩
          have hprocs := h.linked f hf htemporary'.1
          rw [hpc] at hprocs
          exact absurd (Proc.running.inj (Option.some.inj hprocs)) htemporary'.2
        · rw [effect_temporary_of_ne hfp] at htemporary
          rw [put_procs_of_ne hfp, effect_procs]
          exact h.linked f hf htemporary
    · intro q s hq
      rw [put_final]
      by_cases hqp : q = p
      · subst hqp
        rw [put_procs_self] at hq
        exact Option.some.inj hq ▸ hnext
      · rw [put_procs_of_ne hqp, effect_procs] at hq
        have hfits := h.fits q s hq
        cases s with
        | running pc' => exact Pc.Fits.mono hfits fun f => final_of_effect
        | refused => exact hfits
        | done created => trivial
        | crashed => trivial

theorem Clean.run (h : Clean bytes w) {events : List Event} (hcalm : CalmRun bytes w events) :
    Clean bytes (run bytes w events) := by
  induction events generalizing w with
  | nil => exact h
  | cons e events ih => exact ih (h.step hcalm.1) hcalm.2

/-! ## A commit by itself -/

/-- How many steps a commit still takes at most, if nothing else moves. -/
def Pc.left (total have_ : Nat) : Pc → Nat
  | .teleptyDir => total + 12
  | .sharedDir => total + 11
  | .lstat none => total + 10
  | .openTemporary => total + 9
  | .write => total - have_ + 8
  | .link => 7
  | .unlink _ => 6
  | .lstat (some _) => 5
  | .openExisting .. => 4
  | .fstat .. => 3
  | .read .. => 2
  | .sync _ => 1

/-- Nobody else is between its link and its unlink. -/
def Alone (w : World) (p : Nat) : Prop := ∀ f, w.final = some f → w.temporary f = true → f = p

/-- A step brings a commit nearer to its end. -/
theorem Clean.left_lt (h : Clean bytes w) (hpc : w.procs p = some (.running pc)) {pc' : Pc}
    (hnext : next bytes w p chunk pc = .running pc') :
    pc'.left bytes.length ((effect bytes w p chunk pc).content p).length <
      pc.left bytes.length (w.content p).length := by
  have hfits : pc.Fits w.final := h.fits p _ hpc
  cases pc with
  | teleptyDir =>
    cases hnext
    exact Nat.lt_succ_self _
  | sharedDir =>
    cases hnext
    exact Nat.lt_succ_self _
  | lstat published =>
    simp only [next] at hnext
    split at hnext
    next hnone =>
      cases published with
      | none =>
        cases hnext
        exact Nat.lt_succ_self _
      | some created => exact absurd hnone hfits
    · split at hnext
      · cases hnext
      · cases hnext
        cases published with
        | none => exact Nat.lt_of_lt_of_le (by decide : 4 < 10) (Nat.le_add_left _ _)
        | some created => exact (by decide : 4 < 5)
  | openExisting published seen =>
    have hseen : w.final = some seen := hfits
    simp only [next, hseen] at hnext
    cases hnext
    exact (by decide : 3 < 4)
  | fstat published seen opened =>
    cases hnext
    exact (by decide : 2 < 3)
  | read published opened conflict =>
    simp only [next] at hnext
    split at hnext
    · cases hnext
    · cases published with
      | none =>
        cases hnext
        exact (by decide : 1 < 2)
      | some created =>
        cases hnext
        exact (by decide : 1 < 2)
  | openTemporary =>
    cases hnext
    exact Nat.add_lt_add_of_le_of_lt (Nat.sub_le _ _) (by decide)
  | write =>
    have hwritten : (effect bytes w p chunk .write).content p = written bytes w p chunk := if_pos rfl
    have hlength : (written bytes w p chunk).length =
        min ((w.content p).length + chunk + 1) bytes.length := List.length_take
    rw [hwritten]
    simp only [next] at hnext
    split at hnext
    · cases hnext
      exact Nat.lt_of_lt_of_le (by decide : 7 < 8) (Nat.le_add_left _ _)
    next hne =>
      cases hnext
      simp only [Pc.left]
      omega
  | link =>
    cases hnext
    exact (by decide : 6 < 7)
  | unlink created =>
    cases hnext
    exact (by decide : 5 < 6)
  | sync created => cases hnext

/-- Its `stat`s find one name. -/
theorem Clean.not_linked (h : Clean bytes w) (halone : Alone w p)
    (hpc : w.procs p = some (.running pc)) (hstats : pc.stats = true) : ¬ w.linked := by
  rintro ⟨f, hf, htemporary⟩
  have hprocs := h.linked f hf htemporary
  rw [halone f hf htemporary, hpc] at hprocs
  obtain rfl := Proc.running.inj (Option.some.inj hprocs)
  exact Bool.noConfusion hstats

theorem Alone.step (halone : Alone w p) :
    Alone ((effect bytes w p chunk pc).put p (next bytes w p chunk pc)) p := by
  intro f hf htemporary
  by_contra hfp
  rw [put_temporary, effect_temporary_of_ne hfp] at htemporary
  rw [put_final, effect_final] at hf
  split at hf
  · exact hfp (Option.some.inj hf).symm
  · exact hfp (halone f hf htemporary)

theorem next_ne_crashed (w : World) : next bytes w p chunk pc ≠ .crashed := by
  have hafter : ∀ published verified, afterVerify published verified ≠ .crashed := by
    intro published verified
    cases published <;> cases verified <;> rintro ⟨⟩
  cases pc with
  | lstat published =>
    simp only [next]
    split
    · exact hafter _ _
    · split <;> rintro ⟨⟩
  | openExisting published seen =>
    simp only [next]
    split
    · exact hafter _ _
    · rintro ⟨⟩
  | read published opened conflict =>
    simp only [next]
    split
    · rintro ⟨⟩
    · exact hafter _ _
  | _ => rintro ⟨⟩

/-- A commit that has succeeded stays so. -/
theorem done_run {w : World} {created : Bool} (h : w.procs p = some (.done created))
    (events : List Event) : (SharedReference.run bytes w events).procs p = some (.done created) := by
  induction events generalizing w with
  | nil => exact h
  | cons e events ih =>
    refine ih ?_
    have hne : ∀ {q pc'}, w.procs q = some (.running pc') → p ≠ q := by
      rintro q pc' hq rfl
      exact nomatch h.symm.trans hq
    rcases step_cases bytes w e with heq | ⟨q, -, hq, heq⟩ | ⟨q, pc', -, hq, heq⟩ |
      ⟨q, chunk, pc', -, hq, heq⟩
    · rw [heq, h]
    · have hpq : p ≠ q := by
        rintro rfl
        exact nomatch h.symm.trans hq
      rw [heq, put_procs_of_ne hpq, h]
    · rw [heq, put_procs_of_ne (hne hq), h]
    · rw [heq, put_procs_of_ne (hne hq), effect_procs, h]

/-- **A commit by itself succeeds**, however its writes are cut. -/
theorem Clean.commit_ends : ∀ (chunks : List Nat) {w : World} {pc : Pc}, Clean bytes w → Alone w p →
    w.procs p = some (.running pc) → pc.left bytes.length (w.content p).length ≤ chunks.length →
      ∃ created, (SharedReference.run bytes w (chunks.map (.step p))).procs p = some (.done created)
  | [], w, pc, _, _, _, hleft => by
    have hpos : 0 < pc.left bytes.length (w.content p).length := by
      cases pc with
      | lstat published => cases published <;> exact Nat.succ_pos _
      | _ => exact Nat.succ_pos _
    exact absurd hleft (Nat.not_le.mpr hpos)
  | chunk :: chunks, w, pc, h, halone, hpc, hleft => by
    have hcalm : Calm w (.step p chunk) := by
      intro hstats
      rw [hpc] at hstats
      exact h.not_linked halone hpc hstats
    have hclean := h.step hcalm
    have heq : SharedReference.step bytes w (.step p chunk) =
        (effect bytes w p chunk pc).put p (next bytes w p chunk pc) := by
      simp only [SharedReference.step, hpc]
    have hself : (SharedReference.step bytes w (.step p chunk)).procs p =
        some (next bytes w p chunk pc) := by
      rw [heq, put_procs_self]
    have hfits := hclean.fits p _ hself
    change ∃ created, (SharedReference.run bytes (SharedReference.step bytes w (.step p chunk))
      (chunks.map (.step p))).procs p = some (.done created)
    cases hnext : next bytes w p chunk pc with
    | running pc' =>
      have hlt := h.left_lt hpc hnext
      have halone' : Alone (SharedReference.step bytes w (.step p chunk)) p := by
        rw [heq]
        exact halone.step
      rw [hnext] at hself
      refine Clean.commit_ends chunks hclean halone' hself ?_
      rw [heq, put_content]
      exact Nat.le_of_lt_succ (Nat.lt_of_lt_of_le hlt hleft)
    | refused =>
      rw [hnext] at hfits
      exact hfits.elim
    | done created =>
      rw [hnext] at hself
      exact ⟨created, done_run hself _⟩
    | crashed => exact absurd hnext (next_ne_crashed w)

end

/-- **Commits.** In every run from an empty directory in which no verification looks at the file
between a link and its unlink, and no commit dies there: the file is not there or has exactly the
bytes, no commit is refused, and a commit that is started when nobody is between the two succeeds by
itself, however its writes are cut. -/
theorem commits (t : Transfer) {events : List Event} (h : CalmRun t.bytes .initial events) :
    (∀ f, (run t.bytes .initial events).final = some f →
        (run t.bytes .initial events).content f = t.bytes) ∧
      (∀ p, (run t.bytes .initial events).procs p ≠ some .refused) ∧
      ∀ p, (run t.bytes .initial events).procs p = none →
        ¬ (run t.bytes .initial events).linked →
          ∀ chunks : List Nat, t.bytes.length + 12 ≤ chunks.length →
            ∃ created, (run t.bytes (run t.bytes .initial events)
              (.start p :: chunks.map (.step p))).procs p = some (.done created) := by
  have hclean := clean_initial.run h
  generalize run t.bytes .initial events = w at hclean
  refine ⟨fun f hf => (hclean.sound.file f hf).1, ?_, ?_⟩
  · intro p hp
    exact hclean.fits p _ hp
  · intro p hnone hlinked chunks hchunks
    have hstart : step t.bytes w (.start p) = w.put p (.running .teleptyDir) := if_pos hnone
    have hself : (step t.bytes w (.start p)).procs p = some (.running .teleptyDir) := by
      rw [hstart, put_procs_self]
    have halone : Alone (step t.bytes w (.start p)) p := by
      rw [hstart]
      exact fun f hf htemporary => absurd ⟨f, hf, htemporary⟩ hlinked
    exact Clean.commit_ends chunks (hclean.step trivial) halone hself hchunks

/-- A reference of one letter. -/
def sampleTransfer : Transfer where
  bytes := [0x61]
  hash := Sha256.hex (Sha256.digest [0x61])
  hash_eq := rfl
  length_le := by decide
  utf8 := by decide
  not_blank := by decide

/-- One commit is through when another dies before its link; a third one succeeds. -/
theorem commits_sample : ∃ created, (run sampleTransfer.bytes (run sampleTransfer.bytes .initial
    (.start 0 :: (List.replicate 12 (.step 0 0) ++ [.start 1, .step 1 0, .crash 1])))
      (.start 2 :: (List.replicate 13 0).map (.step 2))).procs 2 = some (.done created) := by
  exact (commits sampleTransfer (by decide)).2.2 2 (by decide) (by decide) _ (by decide)

/-- The process dies between the link and the unlink; the same body committed again is refused. -/
theorem crash_refuses : ¬ ∀ events : List Event,
    ∀ p, (run sampleTransfer.bytes .initial events).procs p ≠ some .refused := by
  intro h
  refine h (.start 0 :: (List.replicate 6 (.step 0 0) ++ [.crash 0, .start 1, .step 1 0, .step 1 0,
    .step 1 0])) 1 ?_
  decide

theorem never_done_of_crash_one : Barred ((run [0x61] (run [0x61] .initial
    (.start 0 :: (List.replicate 6 (.step 0 0) ++ [.crash 0])))
      [.start 1, .step 1 0, .step 1 0, .step 1 0]).procs 1) :=
  never_done_of_crash (f := 0) (by decide) (by decide) (by decide) (.inl (by decide)) _

end Telepty.SharedReference
