import Telepty.Screen.Visible

/-!
# Verdicts on the text alone

Normalizing brings every run of line breaks down to one line feed. So the verdict on a stream is the
verdict on its text exactly when the text that the stripper hides consists of line breaks, each in a
run of which some other break is left.
-/

namespace Telepty.Screen

open Infra Infra.Regex

/-! ## Line breaks -/

def isBreak (u : CodeUnit) : Bool := u = cr || u = lf

/-- Every run of line breaks as one line feed; the flag says that a run has begun. -/
def joinBreaks : Bool → Units → Units
  | _, [] => []
  | inRun, u :: t =>
    if isBreak u then (if inRun then joinBreaks true t else lf :: joinBreaks true t)
    else u :: joinBreaks false t

variable {u : CodeUnit} {t : Units} {before : List CodeUnit} {inRun : Bool}

theorem joinBreaks_break (h : isBreak u = true) :
    joinBreaks inRun (u :: t) = if inRun then joinBreaks true t else lf :: joinBreaks true t := by
  rw [joinBreaks, if_pos h]

theorem joinBreaks_other (h : isBreak u = false) :
    joinBreaks inRun (u :: t) = u :: joinBreaks false t := by
  rw [joinBreaks, if_neg (by simp [h])]

theorem isBreak_eq_false (hcr : u ≠ cr) (hlf : u ≠ lf) : isBreak u = false := by
  simp [isBreak, hcr, hlf]

/-- At the end of a run it does not matter that a run has begun. -/
theorem joinBreaks_of_head (h : ∀ u ∈ t.head?, isBreak u = false) :
    joinBreaks true t = joinBreaks false t := by
  cases t with
  | nil => rfl
  | cons u t => rw [joinBreaks_other (h u rfl), joinBreaks_other (h u rfl)]

def crlfRe : Regex CodeUnit := chain [sym (· = cr), sym (· = lf)]

theorem matchAt_crlf : crlfRe.matchAt ⟨before, cr :: lf :: t⟩ = some ⟨lf :: cr :: before, t⟩ := by
  simp [crlfRe, chain, matchAt_seq_sym, matchAt_sym_cons]

theorem matchAt_crlf_of_ne (h : u = cr → t.head? ≠ some lf) :
    crlfRe.matchAt ⟨before, u :: t⟩ = none := by
  simp only [crlfRe, chain, matchAt_seq_sym]
  split
  · next hu =>
    cases t with
    | nil => rfl
    | cons v t =>
      have hv : v ≠ lf := fun hv => h (of_decide_eq_true hu) (congrArg some hv)
      rw [matchAt_sym_cons, if_neg (by simpa using hv)]
  · rfl

/-- A line break of two units is one, and no two breaks are joined by it that were apart. -/
theorem joinBreaks_crlf (t : Units) (before : List CodeUnit) (inRun : Bool) :
    joinBreaks inRun (crlfRe.replaceRest [lf] ⟨before, t⟩) = joinBreaks inRun t := by
  induction hn : t.length using Nat.strongRecOn generalizing t before inRun with
  | _ n ih =>
    subst hn
    cases t with
    | nil => rw [replaceRest_nil rfl]
    | cons u t =>
      by_cases h : u = cr ∧ t.head? = some lf
      · obtain ⟨rfl, hlf⟩ := h
        cases t with
        | nil => cases hlf
        | cons v t =>
          obtain rfl := Option.some.inj hlf
          have hbreak : isBreak lf = true := by decide
          have hcr : isBreak cr = true := by decide
          have hlt : t.length < (cr :: lf :: t).length :=
            Nat.lt_trans (Nat.lt_succ_self _) (Nat.lt_succ_self _)
          rw [replaceRest_match matchAt_crlf hlt, List.singleton_append, joinBreaks_break hbreak,
            joinBreaks_break hcr, joinBreaks_break hbreak, if_pos rfl, ih _ hlt t _ true rfl]
      · rw [replaceRest_skip (matchAt_crlf_of_ne fun hu hlf => h ⟨hu, hlf⟩), joinBreaks, joinBreaks,
          ih _ (Nat.lt_succ_self _) t _ true rfl, ih _ (Nat.lt_succ_self _) t _ false rfl]

/-- Carriage returns become line feeds. -/
theorem replace_cr (t : Units) (before : List CodeUnit) :
    (sym (· = cr)).replaceRest [lf] ⟨before, t⟩ = t.map fun u => if u = cr then lf else u := by
  induction t generalizing before with
  | nil => exact replaceRest_nil rfl
  | cons u t ih =>
    rw [List.map_cons]
    by_cases hu : u = cr
    · rw [replaceRest_match (by rw [matchAt_sym_cons, if_pos (by simpa using hu)]) (by simp), ih,
        if_pos hu, List.singleton_append]
    · rw [replaceRest_skip (by rw [matchAt_sym_cons, if_neg (by simpa using hu)]), ih, if_neg hu]

theorem joinBreaks_cr (inRun : Bool) (t : Units) :
    joinBreaks inRun (t.map fun u => if u = cr then lf else u) = joinBreaks inRun t := by
  induction t generalizing inRun with
  | nil => rfl
  | cons u t ih =>
    have hlf : isBreak lf = true := by decide
    have hcr : isBreak cr = true := by decide
    rw [List.map_cons]
    by_cases hu : u = cr
    · rw [if_pos hu, hu, joinBreaks_break hlf, joinBreaks_break hcr, ih]
    · rw [if_neg hu, joinBreaks, joinBreaks, ih, ih]

theorem cr_not_mem (t : Units) : cr ∉ t.map fun u => if u = cr then lf else u := by
  intro h
  obtain ⟨u, _, hu⟩ := List.mem_map.mp h
  split at hu
  · exact absurd hu (by decide)
  · next hne => exact hne hu

/-- Two line feeds or more. -/
def lfRunRe : Regex CodeUnit := atLeast (sym (· = lf)) 2

theorem matchAt_lfRun (before t : Units) :
    ∃ b, lfRunRe.matchAt ⟨before, lf :: lf :: t⟩ = some ⟨b, t.dropWhile (· = lf)⟩ := by
  have htimes : (times (sym (· = lf)) 2).ends ⟨before, lf :: lf :: t⟩
      = [⟨lf :: lf :: before, t⟩] := by
    simp [times, ends]
  refine ⟨((t.take (run (· = lf) t)).reverse ++ lf :: lf :: before), ?_⟩
  rw [lfRunRe, atLeast, matchAt_seq, htimes, List.findSome?_singleton, matchAt, ends_star_sym,
    List.range_succ, List.reverse_append, List.reverse_singleton, List.singleton_append,
    List.map_cons, List.head?_cons, Cursor.advance, drop_run]

theorem matchAt_lfRun_of_ne (before : Units) (h : u = lf → t.head? ≠ some lf) :
    lfRunRe.matchAt ⟨before, u :: t⟩ = none := by
  have htimes : (times (sym (· = lf)) 2).ends ⟨before, u :: t⟩ = [] := by
    rw [times, times, times, ends, ends_sym_cons]
    split
    · next hu =>
      cases t with
      | nil => rfl
      | cons v t =>
        have hv : ¬decide (v = lf) = true := fun hv =>
          h (of_decide_eq_true hu) (congrArg some (of_decide_eq_true hv))
        rw [List.flatMap_singleton, ends, ends_sym_cons, if_neg hv]
        rfl
    · rfl
  rw [lfRunRe, atLeast, matchAt_seq, htimes]
  rfl

theorem joinBreaks_dropWhile (t : Units) :
    joinBreaks true t = joinBreaks true (t.dropWhile (· = lf)) := by
  induction t with
  | nil => rfl
  | cons u t ih =>
    by_cases hu : u = lf
    · rw [List.dropWhile_cons_of_pos (by simpa using hu), hu, joinBreaks_break (by decide),
        if_pos rfl, ih]
    · rw [List.dropWhile_cons_of_neg (by simpa using hu)]

/-- Without carriage returns, taking runs of line feeds together is joining line breaks. -/
theorem replace_lf (t : Units) (before : List CodeUnit) (h : cr ∉ t) :
    lfRunRe.replaceRest [lf] ⟨before, t⟩ = joinBreaks false t := by
  induction hn : t.length using Nat.strongRecOn generalizing t before with
  | _ n ih =>
    subst hn
    cases t with
    | nil => exact replaceRest_nil rfl
    | cons u t =>
      have hcr : ∀ v ∈ t, v ≠ cr := fun v hv hvcr => h (hvcr ▸ List.mem_cons_of_mem _ hv)
      by_cases hlf : u = lf ∧ t.head? = some lf
      · obtain ⟨rfl, hhead⟩ := hlf
        cases t with
        | nil => cases hhead
        | cons v t =>
          obtain rfl := Option.some.inj hhead
          obtain ⟨b, hb⟩ := matchAt_lfRun before t
          have hle : (t.dropWhile (· = lf)).length ≤ t.length :=
            (List.dropWhile_suffix _).length_le
          have hlt : (t.dropWhile (· = lf)).length < (lf :: lf :: t).length := by
            simp only [List.length_cons]
            omega
          have hrest : ∀ v ∈ t.dropWhile (· = lf), v ≠ cr := fun v hv =>
            hcr v (List.mem_cons_of_mem _ ((List.dropWhile_suffix _).mem hv))
          have hhead : ∀ v ∈ (t.dropWhile (· = lf)).head?, isBreak v = false := by
            intro v hv
            have hne := List.head?_dropWhile_not (· = lf) t
            rw [hv] at hne
            exact isBreak_eq_false (hrest v (List.mem_of_mem_head? hv)) (of_decide_eq_false hne)
          rw [replaceRest_match hb hlt, List.singleton_append, joinBreaks_break (by decide),
            joinBreaks_break (by decide), if_neg Bool.false_ne_true, if_pos rfl,
            joinBreaks_dropWhile, joinBreaks_of_head hhead,
            ih _ hlt _ _ (fun hm => hrest cr hm rfl) rfl]
      · have hnone := matchAt_lfRun_of_ne before fun hu ht => hlf ⟨hu, ht⟩
        rw [replaceRest_skip hnone, ih _ (Nat.lt_succ_self _) t _ (fun hm => hcr cr hm rfl) rfl]
        by_cases hu : u = lf
        · have hhead : ∀ v ∈ t.head?, isBreak v = false := fun v hv =>
            isBreak_eq_false (hcr v (List.mem_of_mem_head? hv)) fun hvlf =>
              hlf ⟨hu, hv.trans (congrArg some hvlf)⟩
          rw [hu, joinBreaks_break (by decide), if_neg Bool.false_ne_true,
            joinBreaks_of_head hhead]
        · rw [joinBreaks_other (isBreak_eq_false (fun hu => h (hu ▸ List.mem_cons_self)) hu)]

/-- **Normalizing strips, and joins the line breaks.** -/
theorem normalize_eq (output : Units) :
    normalizeOutputForDetection output = joinBreaks false (stripAnsi output) := by
  rw [normalizeOutputForDetection, replace_eq, Cursor.start]
  refine (replace_lf _ _ ?_).trans ?_
  · rw [replace_eq, Cursor.start, replace_cr]
    exact cr_not_mem _
  · rw [replace_eq, Cursor.start, replace_cr, joinBreaks_cr, replace_eq]
    exact joinBreaks_crlf _ _ _

/-! ## Hidden line breaks -/

/-- Nothing is hidden but line breaks, each in a run of which another one is left. The first
argument says, inside a run, whether one was. -/
def harmless : Option Bool → List (CodeUnit × Bool) → Bool
  | none, [] => true
  | some left, [] => left
  | run, (u, hidden) :: t =>
    if isBreak u then harmless (some (run.getD false || !hidden)) t
    else !hidden && run.getD true && harmless none t

theorem filter_joinBreaks (inRun : Bool) (t : Units) :
    (joinBreaks inRun t).filter (fun u => !isBreak u) = t.filter fun u => !isBreak u := by
  have hlf : isBreak lf = true := by decide
  induction t generalizing inRun with
  | nil => rfl
  | cons u t ih =>
    cases hu : isBreak u with
    | true =>
      rw [joinBreaks_break hu, List.filter_cons_of_neg (by simp [hu])]
      split
      · exact ih true
      · rw [List.filter_cons_of_neg (by simp [hlf]), ih]
    | false =>
      rw [joinBreaks_other hu, List.filter_cons_of_pos (by simp [hu]),
        List.filter_cons_of_pos (by simp [hu]), ih]

/-- Text that is hidden and is no line break is missed, whatever breaks stand before it. -/
theorem kept_ne_of_hidden {a b : Bool} {t : List (CodeUnit × Bool)} (hu : isBreak u = false)
    (breaks : Units) (hbreaks : breaks.all isBreak = true) :
    joinBreaks a (kept t) ≠ breaks ++ u :: joinBreaks b (t.map Prod.fst) := by
  intro h
  have hnone : breaks.filter (fun u => !isBreak u) = [] := by
    rw [List.filter_eq_nil_iff]
    intro v hv
    simp [List.all_eq_true.mp hbreaks v hv]
  have hf := congrArg (List.filter fun u => !isBreak u) h
  rw [List.filter_append, hnone, List.nil_append, filter_joinBreaks,
    List.filter_cons_of_pos (by simp [hu]), filter_joinBreaks] at hf
  have hsub : (kept t).Sublist (t.map Prod.fst) := List.filter_sublist.map _
  have hle := (hsub.filter fun u => !isBreak u).length_le
  rw [hf, List.length_cons] at hle
  omega

/-- **Joining the line breaks hides what was hidden exactly when it was harmless.** The three states
are: outside a run, in a run with a break left, in a run with none left so far. -/
theorem joinBreaks_kept_iff (t : List (CodeUnit × Bool)) :
    (joinBreaks false (kept t) = joinBreaks false (t.map Prod.fst) ↔ harmless none t = true) ∧
    (joinBreaks true (kept t) = joinBreaks true (t.map Prod.fst)
      ↔ harmless (some true) t = true) ∧
    (joinBreaks false (kept t) = lf :: joinBreaks true (t.map Prod.fst)
      ↔ harmless (some false) t = true) := by
  induction t with
  | nil => simp [kept, joinBreaks, harmless]
  | cons p t ih =>
    obtain ⟨u, hidden⟩ := p
    obtain ⟨ihout, ihleft, ihnone⟩ := ih
    have hcons : kept ((u, hidden) :: t) = if hidden then kept t else u :: kept t := by
      cases hidden <;> rfl
    rw [hcons, List.map_cons]
    cases hu : isBreak u with
    | true =>
      cases hidden with
      | true =>
        refine ⟨?_, ?_, ?_⟩
        · simpa [joinBreaks_break hu, harmless, hu] using ihnone
        · simpa [joinBreaks_break hu, harmless, hu] using ihleft
        · simpa [joinBreaks_break hu, harmless, hu] using ihnone
      | false =>
        refine ⟨?_, ?_, ?_⟩
        · simpa [joinBreaks_break hu, harmless, hu] using ihleft
        · simpa [joinBreaks_break hu, harmless, hu] using ihleft
        · simpa [joinBreaks_break hu, harmless, hu] using ihleft
    | false =>
      have hlf : u ≠ lf := by
        rintro rfl
        exact absurd hu (by decide)
      cases hidden with
      | true =>
        refine ⟨?_, ?_, ?_⟩
        · simpa [joinBreaks_other hu, harmless, hu] using kept_ne_of_hidden hu [] rfl
        · simpa [joinBreaks_other hu, harmless, hu] using kept_ne_of_hidden hu [] rfl
        · simpa [joinBreaks_other hu, harmless, hu] using kept_ne_of_hidden hu [lf] (by decide)
      | false =>
        refine ⟨?_, ?_, ?_⟩
        · simpa [joinBreaks_other hu, harmless, hu] using ihout
        · simpa [joinBreaks_other hu, harmless, hu] using ihout
        · simp [joinBreaks_other hu, harmless, hu, hlf]

/-! ## The verdicts -/

theorem esc_not_mem_bareText (ps : List Piece) : esc ∉ bareText ps := by
  intro h
  obtain ⟨p, _, hp⟩ := List.mem_flatMap.mp h
  cases p with
  | text t ht => exact isPlain_esc_not_mem ht hp
  | csi params intermediates final hc => cases hp
  | osc payload terminator hc => cases hp
  | charset mark name hc => cases hp
  | short u hu => cases hp

theorem stripAnsi_bareText (ps : List Piece) : stripAnsi (bareText ps) = bareText ps := by
  have hnone : ∀ u ∈ bareText ps, ∀ before rest, ansiRe.matchAt ⟨before, u :: rest⟩ = none :=
    fun u hu _ _ => matchAt_ansiRe_of_ne fun he => esc_not_mem_bareText ps (he ▸ hu)
  rw [stripAnsi, replace_eq, Cursor.start, ← List.append_nil (bareText ps), replaceRest_copy,
    replaceRest_nil rfl]
  exact hnone

theorem stripAnsi_renderAll (ps : List Piece) :
    stripAnsi (renderAll ps) = kept (marked false ps) := strip_renderAll ps []

/-- The verdicts on a stream are those on its text. -/
structure SameVerdicts (ps : List Piece) : Prop where
  normalized : normalizeOutputForDetection (renderAll ps)
    = normalizeOutputForDetection (bareText ps)
  modal : ∀ command,
    detectSurfaceModal command (renderAll ps) = detectSurfaceModal command (bareText ps)
  error : ∀ command,
    detectSurfaceError command (renderAll ps) = detectSurfaceError command (bareText ps)
  output : ∀ command, detectOutput command (renderAll ps) = detectOutput command (bareText ps)

/-- The verdicts read the normalized stream only. -/
theorem sameVerdicts_of_normalized {ps : List Piece} (h : normalizeOutputForDetection (renderAll ps)
    = normalizeOutputForDetection (bareText ps)) : SameVerdicts ps where
  normalized := h
  modal command := by rw [detectSurfaceModal, detectSurfaceModal, h]
  error command := by rw [detectSurfaceError, detectSurfaceError, h]
  output command := by rw [detectOutput, detectOutput, h]

/-- **The verdicts are those on the text alone exactly when what is hidden is harmless.** -/
theorem sameVerdicts_iff (ps : List Piece) :
    SameVerdicts ps ↔ harmless none (marked false ps) = true := by
  have hiff : normalizeOutputForDetection (renderAll ps)
      = normalizeOutputForDetection (bareText ps) ↔ harmless none (marked false ps) = true := by
    rw [normalize_eq, normalize_eq, stripAnsi_renderAll, stripAnsi_bareText,
      ← map_fst_marked false ps]
    exact (joinBreaks_kept_iff _).1
  exact ⟨fun h => hiff.mp h.normalized, fun h => sameVerdicts_of_normalized (hiff.mpr h)⟩

/-- A title that ends in `ESC \`, a dialog, a title that ends in `BEL`. -/
def dialogBetweenTitles : List Piece :=
  [.osc (codeUnits "0;a") .st (by decide), .text (codeUnits "Press enter to continue") (by decide),
    .osc (codeUnits "0;b") .bel (by decide)]

/-- The dialog between the two titles is not seen. -/
theorem dialog_hidden : ¬∀ ps, SameVerdicts ps := by
  intro h
  have hmodal := (h dialogBetweenTitles).modal (codeUnits "codex")
  revert hmodal
  decide +kernel

end Telepty.Screen
