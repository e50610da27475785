import Telepty.Screen.Registry

/-!
# What the stripper leaves

Terminal output is a sequence of text pieces and control sequences. The verdicts are meant to depend
on the text alone. They do, but for one thing: an operating system command that ends in `ESC \` is
not closed there by the stripper when another one follows. The text between the two is taken out
with them.
-/

namespace Telepty.Screen

open Infra Infra.Regex

/-! ## Pieces -/

inductive Terminator where
  | bel
  | st
  deriving DecidableEq

def Terminator.render : Terminator → Units
  | .bel => [Screen.bel]
  | .st => [esc, 0x5C]

def isPlain (u : CodeUnit) : Bool := u ≠ esc && u ≠ bel

def isParam (u : CodeUnit) : Bool := 0x30 ≤ u && u ≤ 0x3F

def isIntermediate (u : CodeUnit) : Bool := 0x20 ≤ u && u ≤ 0x2F

def isFinal (u : CodeUnit) : Bool := 0x40 ≤ u && u ≤ 0x7E

/-- A stretch of text, or one well-formed control sequence. -/
inductive Piece where
  | text (t : Units) (h : t.all isPlain)
  | csi (params intermediates : Units) (final : CodeUnit)
      (h : params.all isParam && intermediates.all isIntermediate && isFinal final)
  | osc (payload : Units) (terminator : Terminator) (h : payload.all isPlain)
  | charset (mark name : CodeUnit)
      (h : (charsetMarks.map unit).contains mark && (charsetNames.map unit).contains name)
  | short (u : CodeUnit) (h : (shortEscapes.map unit).contains u)

namespace Piece

def render : Piece → Units
  | text t _ => t
  | csi params intermediates final _ => esc :: 0x5B :: (params ++ (intermediates ++ [final]))
  | osc payload terminator _ => esc :: 0x5D :: (payload ++ terminator.render)
  | charset mark name _ => [esc, mark, name]
  | short u _ => [esc, u]

/-- The text of a piece. -/
def bare : Piece → Units
  | text t _ => t
  | _ => []

/-- How an operating system command ends, `none` for every other piece. -/
def terminator? : Piece → Option Terminator
  | osc _ terminator _ => some terminator
  | _ => none

end Piece

/-- The stream itself. -/
def renderAll (ps : List Piece) : Units := ps.flatMap Piece.render

/-- The text pieces of a stream alone. -/
def bareText (ps : List Piece) : Units := ps.flatMap Piece.bare

/-! ## The control sequences -/

variable {before rest : Units} {u : CodeUnit}

theorem matchAt_ansiRe_of_ne (h : u ≠ esc) : ansiRe.matchAt ⟨before, u :: rest⟩ = none := by
  simp [ansiRe, choice, csiRe, oscRe, charsetRe, shortRe, chain, matchAt_alt, matchAt_seq_sym, h]

theorem isParam_eq_false (h : isIntermediate u = true ∨ isFinal u = true) : isParam u = false := by
  simp only [isIntermediate, isFinal, isParam, Bool.and_eq_true, decide_eq_true_iff,
    Bool.and_eq_false_iff, decide_eq_false_iff_not, UInt16.le_iff_toNat_le] at h ⊢
  simp only [UInt16.reduceToNat] at h ⊢
  omega

theorem isIntermediate_eq_false (h : isFinal u = true) : isIntermediate u = false := by
  simp only [isIntermediate, isFinal, Bool.and_eq_true, decide_eq_true_iff,
    Bool.and_eq_false_iff, decide_eq_false_iff_not, UInt16.le_iff_toNat_le] at h ⊢
  simp only [UInt16.reduceToNat] at h ⊢
  omega

theorem matchAt_csi (before rest : Units) {params intermediates : Units} {final : CodeUnit}
    (hp : params.all isParam = true) (hi : intermediates.all isIntermediate = true)
    (hf : isFinal final = true) :
    ansiRe.matchAt ⟨before, esc :: 0x5B :: (params ++ (intermediates ++ final :: rest))⟩
      = some ⟨final :: (intermediates.reverse ++ (params.reverse ++ 0x5B :: esc :: before)),
        rest⟩ := by
  have hfinal : (range 0x40 0x7E).matchAt
      ⟨intermediates.reverse ++ (params.reverse ++ 0x5B :: esc :: before), final :: rest⟩
        = some ⟨final :: (intermediates.reverse ++ (params.reverse ++ 0x5B :: esc :: before)),
          rest⟩ := by
    rw [range, matchAt_sym_cons]
    exact if_pos hf
  have hinter := matchAt_star_seq (p := isIntermediate) (List.all_eq_true.mp hi)
    (by
      rintro u hu
      obtain rfl := Option.some.inj hu
      exact isIntermediate_eq_false hf) hfinal
  have hparams := matchAt_star_seq (p := isParam) (List.all_eq_true.mp hp)
    (by
      rintro u hu
      refine isParam_eq_false ?_
      cases intermediates with
      | nil =>
        obtain rfl := Option.some.inj hu
        exact .inr hf
      | cons v t =>
        obtain rfl := Option.some.inj hu
        exact .inl (List.all_eq_true.mp hi v List.mem_cons_self)) hinter
  have hcsi : csiRe.matchAt ⟨before, esc :: 0x5B :: (params ++ (intermediates ++ final :: rest))⟩
      = some ⟨final :: (intermediates.reverse ++ (params.reverse ++ 0x5B :: esc :: before)),
        rest⟩ := by
    simp only [csiRe, chain, matchAt_seq_sym, decide_true, if_true]
    exact hparams
  simp only [ansiRe, choice, matchAt_alt, hcsi, Option.some_or]

theorem ne_of_contains {l : List CodeUnit} {v : CodeUnit} (h : l.contains u = true)
    (hv : l.contains v = false) : u ≠ v := by
  rintro rfl
  rw [h] at hv
  cases hv

theorem matchAt_charset {mark name : CodeUnit}
    (hm : (charsetMarks.map unit).contains mark = true)
    (hn : (charsetNames.map unit).contains name = true) :
    ansiRe.matchAt ⟨before, esc :: mark :: name :: rest⟩
      = some ⟨name :: mark :: esc :: before, rest⟩ := by
  have hcsi : mark ≠ 0x5B := ne_of_contains hm (by decide)
  have hosc : mark ≠ 0x5D := ne_of_contains hm (by decide)
  simp only [ansiRe, choice, csiRe, oscRe, charsetRe, shortRe, chain, matchAt_alt,
    matchAt_seq_sym, oneOf, matchAt_sym_cons, hm, hn, decide_true, if_true, hcsi, hosc,
    decide_false, Bool.false_eq_true, if_false, Option.none_or, Option.some_or]

theorem charsetMarks_map : charsetMarks.map unit = [0x28, 0x29] := by decide

theorem matchAt_short (h : (shortEscapes.map unit).contains u = true) :
    ansiRe.matchAt ⟨before, esc :: u :: rest⟩ = some ⟨u :: esc :: before, rest⟩ := by
  have hcsi : u ≠ 0x5B := ne_of_contains h (by decide)
  have hosc : u ≠ 0x5D := ne_of_contains h (by decide)
  have hopen : u ≠ 0x28 := ne_of_contains h (by decide)
  have hclose : u ≠ 0x29 := ne_of_contains h (by decide)
  have hmark : (charsetMarks.map unit).contains u = false := by
    rw [charsetMarks_map]
    simp [hopen, hclose]
  simp only [ansiRe, choice, csiRe, oscRe, charsetRe, shortRe, chain, matchAt_alt,
    matchAt_seq_sym, oneOf, matchAt_sym_cons, h, hmark, decide_true, if_true, hcsi, hosc,
    decide_false, Bool.false_eq_true, if_false, Option.none_or]

/-! ## Operating system commands -/

/-- What closes an operating system command. -/
def oscClose : Regex CodeUnit :=
  alt (sym (· = bel)) (chain [sym (· = esc), sym (· = 0x5C)])

/-- `ESC \` stands somewhere in the stream. -/
def hasSt : Units → Bool
  | a :: b :: t => (a = esc && b = 0x5C) || hasSt (b :: t)
  | _ => false

theorem hasSt_cons_of_ne {t : Units} (h : u ≠ esc) : hasSt (u :: t) = hasSt t := by
  cases t with
  | nil => rfl
  | cons b t => simp [hasSt, h]

theorem hasSt_append {t : Units} (h : esc ∉ t) : hasSt (t ++ rest) = hasSt rest := by
  induction t with
  | nil => rfl
  | cons u t ih =>
    rw [List.cons_append, hasSt_cons_of_ne fun hu => h (hu ▸ List.mem_cons_self),
      ih fun ht => h (List.mem_cons_of_mem _ ht)]

/-- A control sequence that is no command holds no `ESC \`. -/
theorem hasSt_esc {t : Units} (hu : u ≠ 0x5C) (he : u ≠ esc) (h : esc ∉ t) :
    hasSt (esc :: u :: t ++ rest) = hasSt rest := by
  rw [List.cons_append, List.cons_append, hasSt, hasSt_cons_of_ne he, hasSt_append h]
  simp [hu]

theorem hasSt_drop {t : Units} (h : hasSt t = false) (n : Nat) : hasSt (t.drop n) = false := by
  induction n generalizing t with
  | zero => exact h
  | succ n ih =>
    cases t with
    | nil => rfl
    | cons a t =>
      rw [List.drop_succ_cons]
      refine ih ?_
      cases t with
      | nil => rfl
      | cons b t =>
        rw [hasSt, Bool.or_eq_false_iff] at h
        exact h.2

theorem oscClose_bel : oscClose.matchAt ⟨before, bel :: rest⟩ = some ⟨bel :: before, rest⟩ := by
  simp [oscClose, matchAt_alt, matchAt_sym_cons]

theorem oscClose_st :
    oscClose.matchAt ⟨before, esc :: 0x5C :: rest⟩ = some ⟨0x5C :: esc :: before, rest⟩ := by
  have hne : esc ≠ bel := by decide
  simp [oscClose, matchAt_alt, matchAt_sym_cons, chain, matchAt_seq_sym, hne]

theorem oscClose_none (hb : bel ∉ rest) (hs : hasSt rest = false) :
    oscClose.matchAt ⟨before, rest⟩ = none := by
  cases rest with
  | nil => rfl
  | cons a t =>
    have ha : a ≠ bel := fun h => hb (h ▸ List.mem_cons_self)
    cases t with
    | nil =>
      simp [oscClose, matchAt_alt, matchAt_sym_cons, chain, matchAt_seq_sym, ha, matchAt_sym_nil]
    | cons b t =>
      rw [hasSt, Bool.or_eq_false_iff] at hs
      have hab := hs.1
      simp [oscClose, matchAt_alt, matchAt_sym_cons, chain, matchAt_seq_sym, ha] at hab ⊢
      exact hab

/-- A match of the command itself is the match. -/
theorem matchAt_ansiRe_osc {d : Cursor CodeUnit}
    (h : (seq (star (sym (· ≠ bel))) oscClose).matchAt ⟨0x5D :: esc :: before, rest⟩ = some d) :
    ansiRe.matchAt ⟨before, esc :: 0x5D :: rest⟩ = some d := by
  have hosc : oscRe.matchAt ⟨before, esc :: 0x5D :: rest⟩ = some d := by
    simp only [oscRe, chain, matchAt_seq_sym, decide_true, if_true]
    exact h
  have hcsi : csiRe.matchAt ⟨before, esc :: 0x5D :: rest⟩ = none := by
    simp [csiRe, chain, matchAt_seq_sym]
  simp only [ansiRe, choice, matchAt_alt, hosc, hcsi, Option.none_or, Option.some_or]

/-- A command is closed by the next `BEL`, when there is one. -/
theorem matchAt_osc_bel (before rest : Units) {x : Units} (hx : bel ∉ x) :
    ∃ b, ansiRe.matchAt ⟨before, esc :: 0x5D :: (x ++ bel :: rest)⟩ = some ⟨b, rest⟩ := by
  refine ⟨_, matchAt_ansiRe_osc (matchAt_star_seq (fun u hu => ?_) ?_ oscClose_bel)⟩
  · exact decide_eq_true fun h => hx (h ▸ hu)
  · rintro u hu
    obtain rfl := Option.some.inj hu
    exact decide_eq_false (not_not_intro rfl)

/-- Without a `BEL` it is closed by the last `ESC \`. -/
theorem matchAt_osc_st (before : Units) {x : Units} (hx : bel ∉ x) (hr : bel ∉ rest) (hs : hasSt rest = false) :
    ∃ b, ansiRe.matchAt ⟨before, esc :: 0x5D :: (x ++ esc :: 0x5C :: rest)⟩ = some ⟨b, rest⟩ := by
  have hclear : ∀ u ∈ x ++ esc :: 0x5C :: rest, decide (u ≠ bel) = true := by
    intro u hu
    refine decide_eq_true ?_
    rintro rfl
    rcases List.mem_append.mp hu with hu | hu
    · exact hx hu
    · rcases List.mem_cons.mp hu with hu | hu
      · exact absurd hu (by decide)
      · rcases List.mem_cons.mp hu with hu | hu
        · exact absurd hu (by decide)
        · exact hr hu
  have hrun : run (fun u => decide (u ≠ bel)) (x ++ esc :: 0x5C :: rest)
      = (x ++ esc :: 0x5C :: rest).length := by
    have := run_append (u := []) hclear (by simp)
    rwa [List.append_nil] at this
  refine ⟨0x5C :: esc :: (x.reverse ++ 0x5D :: esc :: before),
    matchAt_ansiRe_osc (matchAt_star_last x.length ?_ ?_ fun j hj hle => ?_)⟩
  · rw [hrun, List.length_append]
    omega
  · rw [Cursor.advance_append]
    exact oscClose_st
  · obtain ⟨i, rfl⟩ : ∃ i, j = x.length + (i + 1) := ⟨j - x.length - 1, by omega⟩
    have hdrop : (x ++ esc :: 0x5C :: rest).drop (x.length + (i + 1)) = (0x5C :: rest).drop i := by
      rw [← List.drop_drop, List.drop_left, List.drop_succ_cons]
    rw [Cursor.advance, hdrop]
    refine oscClose_none (fun hb => ?_) (hasSt_drop ?_ i)
    · rcases List.mem_cons.mp (List.mem_of_mem_drop hb) with hb | hb
      · exact absurd hb (by decide)
      · exact hr hb
    · rwa [hasSt_cons_of_ne (by decide)]

/-! ## The rest of a stream -/

theorem renderAll_cons (p : Piece) (ps : List Piece) :
    renderAll (p :: ps) = p.render ++ renderAll ps := List.flatMap_cons

/-- What follows the first command that ends in `BEL`. -/
def afterBel : List Piece → Option (List Piece)
  | [] => none
  | p :: ps => if p.terminator? = some .bel then some ps else afterBel ps

/-- What follows the last command that ends in `ESC \`. -/
def afterLastSt : List Piece → Option (List Piece)
  | [] => none
  | p :: ps => (afterLastSt ps).or (if p.terminator? = some .st then some ps else none)

/-- Where the match ends that starts with a command whose own end is `ESC \`. -/
def afterOsc (ps : List Piece) : List Piece := ((afterBel ps).or (afterLastSt ps)).getD ps

theorem isPlain_esc_not_mem {t : Units} (h : t.all isPlain = true) : esc ∉ t := fun hm =>
  absurd (List.all_eq_true.mp h esc hm) (by decide)

theorem isPlain_bel_not_mem {t : Units} (h : t.all isPlain = true) : bel ∉ t := fun hm =>
  absurd (List.all_eq_true.mp h bel hm) (by decide)

theorem not_mem_of_all {t : Units} {q : CodeUnit → Bool} (h : t.all q = true) (hu : q u = false) :
    u ∉ t := fun hm => by
  rw [List.all_eq_true.mp h u hm] at hu
  cases hu

/-- The only `BEL` is the end of a command. -/
theorem bel_not_mem_render {p : Piece} (h : p.terminator? ≠ some .bel) : bel ∉ p.render := by
  have hesc : bel ≠ esc := by decide
  cases p with
  | text t ht => exact isPlain_bel_not_mem ht
  | csi params intermediates final hp =>
    simp only [Bool.and_eq_true] at hp
    have hfinal : bel ≠ final := by
      rintro rfl
      exact absurd hp.2 (by decide)
    simp only [Piece.render, List.mem_cons, List.mem_append, hesc, List.not_mem_nil, hfinal,
      not_mem_of_all hp.1.1 (u := bel) (by decide), not_mem_of_all hp.1.2 (u := bel) (by decide)]
    decide
  | osc payload terminator hp =>
    cases terminator with
    | bel => exact absurd rfl h
    | st =>
      simp only [Piece.render, Terminator.render, List.mem_cons, List.mem_append, hesc,
        List.not_mem_nil, isPlain_bel_not_mem hp]
      decide
  | charset mark name hp =>
    simp only [Bool.and_eq_true] at hp
    have hmark : bel ≠ mark := (ne_of_contains hp.1 (by decide)).symm
    have hname : bel ≠ name := (ne_of_contains hp.2 (by decide)).symm
    simp [Piece.render, hesc, hmark, hname]
  | short u hu =>
    have hne : bel ≠ u := (ne_of_contains hu (by decide)).symm
    simp [Piece.render, hesc, hne]

/-- The only `ESC \` is the end of a command. -/
theorem hasSt_render {p : Piece} (h : p.terminator? = none) :
    hasSt (p.render ++ rest) = hasSt rest := by
  cases p with
  | text t ht => exact hasSt_append (isPlain_esc_not_mem ht)
  | csi params intermediates final hp =>
    simp only [Bool.and_eq_true] at hp
    have hfinal : esc ≠ final := by
      rintro rfl
      exact absurd hp.2 (by decide)
    refine hasSt_esc (by decide) (by decide) ?_
    simp only [List.mem_append, List.mem_singleton, hfinal, or_false,
      not_mem_of_all hp.1.1 (u := esc) (by decide), not_mem_of_all hp.1.2 (u := esc) (by decide)]
    exact not_false
  | osc payload terminator hp => cases h
  | charset mark name hp =>
    simp only [Bool.and_eq_true] at hp
    refine hasSt_esc (t := [name]) (ne_of_contains hp.1 (by decide))
      (ne_of_contains hp.1 (by decide)) ?_
    rw [List.mem_singleton]
    exact (ne_of_contains hp.2 (by decide)).symm
  | short u hu =>
    exact hasSt_esc (t := []) (ne_of_contains hu (by decide)) (ne_of_contains hu (by decide))
      List.not_mem_nil

theorem bel_not_mem_renderAll {ps : List Piece} (h : afterBel ps = none) :
    bel ∉ renderAll ps := by
  induction ps with
  | nil => exact List.not_mem_nil
  | cons p ps ih =>
    rw [afterBel] at h
    split at h
    · cases h
    · next hp =>
      rw [renderAll_cons, List.mem_append]
      exact fun hm => hm.elim (bel_not_mem_render hp) (ih h)

theorem renderAll_of_afterBel {ps qs : List Piece} (h : afterBel ps = some qs) :
    ∃ x, renderAll ps = x ++ bel :: renderAll qs ∧ bel ∉ x := by
  induction ps with
  | nil => cases h
  | cons p ps ih =>
    rw [afterBel] at h
    split at h
    · next hp =>
      obtain rfl := Option.some.inj h
      cases p with
      | osc payload terminator hplain =>
        obtain rfl : terminator = .bel := Option.some.inj hp
        refine ⟨esc :: 0x5D :: payload, ?_, ?_⟩
        · simp [renderAll_cons, Piece.render, Terminator.render]
        · simp only [List.mem_cons, isPlain_bel_not_mem hplain]
          decide
      | text t ht => cases hp
      | csi params intermediates final hc => cases hp
      | charset mark name hc => cases hp
      | short u hu => cases hp
    · next hp =>
      obtain ⟨x, hx, hbel⟩ := ih h
      refine ⟨p.render ++ x, ?_, ?_⟩
      · rw [renderAll_cons, hx, List.append_assoc]
      · rw [List.mem_append]
        exact fun hm => hm.elim (bel_not_mem_render hp) hbel

theorem hasSt_renderAll {ps : List Piece} (hb : afterBel ps = none)
    (h : afterLastSt ps = none) : hasSt (renderAll ps) = false := by
  induction ps with
  | nil => rfl
  | cons p ps ih =>
    rw [afterBel] at hb
    split at hb
    · cases hb
    · next hbel =>
      rw [afterLastSt, Option.or_eq_none_iff] at h
      have hst : p.terminator? ≠ some .st := fun hp => by
        rw [if_pos hp] at h
        cases h.2
      have hnone : p.terminator? = none := by
        cases ht : p.terminator? with
        | none => rfl
        | some t =>
          cases t with
          | bel => exact absurd ht hbel
          | st => exact absurd ht hst
      rw [renderAll_cons, hasSt_render hnone]
      exact ih hb h.1

theorem renderAll_of_afterLastSt {ps qs : List Piece} (hb : afterBel ps = none)
    (h : afterLastSt ps = some qs) :
    ∃ x, renderAll ps = x ++ esc :: 0x5C :: renderAll qs ∧ hasSt (renderAll qs) = false := by
  induction ps with
  | nil => cases h
  | cons p ps ih =>
    have hb' : afterBel ps = none := by
      rw [afterBel] at hb
      split at hb
      · cases hb
      · exact hb
    rw [afterLastSt] at h
    cases hlast : afterLastSt ps with
    | some qs' =>
      rw [hlast, Option.some_or] at h
      obtain rfl := Option.some.inj h
      obtain ⟨x, hx, hclear⟩ := ih hb' hlast
      exact ⟨p.render ++ x, by rw [renderAll_cons, hx, List.append_assoc], hclear⟩
    | none =>
      rw [hlast, Option.none_or] at h
      split at h
      · next hp =>
        obtain rfl := Option.some.inj h
        cases p with
        | osc payload terminator hplain =>
          obtain rfl : terminator = .st := Option.some.inj hp
          refine ⟨esc :: 0x5D :: payload, ?_, hasSt_renderAll hb' hlast⟩
          simp [renderAll_cons, Piece.render, Terminator.render]
        | text t ht => cases hp
        | csi params intermediates final hc => cases hp
        | charset mark name hc => cases hp
        | short u hu => cases hp
      · cases h

/-- **A command that ends in `ESC \` takes everything up to the end of a later one with it.** -/
theorem matchAt_osc (before : Units) (ps : List Piece) {payload : Units}
    (hplain : payload.all isPlain = true) :
    ∃ b, ansiRe.matchAt ⟨before, esc :: 0x5D :: (payload ++ esc :: 0x5C :: renderAll ps)⟩
      = some ⟨b, renderAll (afterOsc ps)⟩ := by
  have hpayload := isPlain_bel_not_mem hplain
  have hopen : ∀ x, bel ∉ x → bel ∉ payload ++ esc :: 0x5C :: x := by
    intro x hx hm
    simp only [List.mem_append, List.mem_cons, hpayload, hx] at hm
    revert hm
    decide
  rw [afterOsc]
  cases hb : afterBel ps with
  | some qs =>
    obtain ⟨x, hx, hbel⟩ := renderAll_of_afterBel hb
    have hmatch := matchAt_osc_bel before (renderAll qs) (hopen x hbel)
    rw [Option.some_or, Option.getD_some, hx]
    simpa using hmatch
  | none =>
    have hclear := bel_not_mem_renderAll hb
    cases hst : afterLastSt ps with
    | some qs =>
      obtain ⟨x, hx, hlast⟩ := renderAll_of_afterLastSt hb hst
      rw [hx, List.mem_append] at hclear
      have hmatch := matchAt_osc_st before
        (hopen x fun h => hclear (.inl h))
        (fun h => hclear (.inr (List.mem_cons_of_mem _ (List.mem_cons_of_mem _ h)))) hlast
      rw [Option.none_or, Option.getD_some, hx]
      simpa using hmatch
    | none =>
      exact matchAt_osc_st before hpayload hclear (hasSt_renderAll hb hst)

/-! ## What is taken out with the commands -/

/-- An operating system command stands in the stream. -/
def hasOsc (ps : List Piece) : Bool := ps.any fun p => p.terminator?.isSome

/-- Whether the text behind a piece is hidden: it is, from a command that ends in `ESC \` up to the
next command. -/
def hiddenBehind (hidden : Bool) (p : Piece) (ps : List Piece) : Bool :=
  match p.terminator? with
  | some .st => hasOsc ps
  | some .bel => false
  | none => hidden

/-- The text of a stream, each unit with whether it is hidden. -/
def marked : Bool → List Piece → List (CodeUnit × Bool)
  | _, [] => []
  | hidden, p :: ps => p.bare.map (·, hidden) ++ marked (hiddenBehind hidden p ps) ps

/-- The units that are not hidden. -/
def kept (t : List (CodeUnit × Bool)) : Units := (t.filter fun u => !u.2).map Prod.fst

theorem kept_append (a b : List (CodeUnit × Bool)) : kept (a ++ b) = kept a ++ kept b := by
  rw [kept, List.filter_append, List.map_append]
  rfl

theorem kept_map (t : Units) (hidden : Bool) :
    kept (t.map (·, hidden)) = if hidden then [] else t := by
  induction t with
  | nil => cases hidden <;> rfl
  | cons u t ih =>
    rw [List.map_cons, ← List.singleton_append, kept_append, ih]
    cases hidden <;> rfl

theorem map_fst_marked (hidden : Bool) (ps : List Piece) :
    (marked hidden ps).map Prod.fst = bareText ps := by
  induction ps generalizing hidden with
  | nil => rfl
  | cons p ps ih =>
    rw [marked, List.map_append, ih, List.map_map, bareText, bareText, List.flatMap_cons]
    exact congrArg (· ++ _) (List.map_id _)

theorem afterLastSt_of_hasOsc {ps : List Piece} (h : hasOsc ps = true) (hb : afterBel ps = none) :
    ∃ qs, afterLastSt ps = some qs := by
  induction ps with
  | nil => cases h
  | cons p ps ih =>
    rw [afterBel] at hb
    split at hb
    · cases hb
    · next hp =>
      rw [afterLastSt]
      cases hs : afterLastSt ps with
      | some qs => exact ⟨qs, rfl⟩
      | none =>
        have hps : hasOsc ps = false := by
          rw [Bool.eq_false_iff]
          intro ht
          obtain ⟨qs, hqs⟩ := ih ht hb
          rw [hs] at hqs
          cases hqs
        rw [hasOsc, List.any_cons, ← hasOsc, hps, Bool.or_false] at h
        obtain ⟨t, ht⟩ := Option.isSome_iff_exists.mp h
        cases t with
        | bel => exact absurd ht hp
        | st => exact ⟨ps, by rw [ht, if_pos rfl, Option.none_or]⟩

theorem after_of_not_hasOsc {ps : List Piece} (h : hasOsc ps = false) :
    afterBel ps = none ∧ afterLastSt ps = none := by
  induction ps with
  | nil => exact ⟨rfl, rfl⟩
  | cons p ps ih =>
    rw [hasOsc, List.any_cons, ← hasOsc, Bool.or_eq_false_iff] at h
    have hp : p.terminator? = none := by simpa using h.1
    obtain ⟨hb, hs⟩ := ih h.2
    simp [afterBel, afterLastSt, hp, hb, hs]

theorem afterOsc_cons {p : Piece} {ps : List Piece} (h : hasOsc ps = true)
    (hp : p.terminator? ≠ some .bel) : afterOsc (p :: ps) = afterOsc ps := by
  rw [afterOsc, afterOsc, afterBel, if_neg hp, afterLastSt]
  cases hb : afterBel ps with
  | some qs => rfl
  | none =>
    obtain ⟨qs, hqs⟩ := afterLastSt_of_hasOsc h hb
    rw [hqs]
    rfl

theorem afterOsc_cons_last {p : Piece} {ps : List Piece}
    (h : p.terminator? = some .bel ∨ (p.terminator? = some .st ∧ hasOsc ps = false)) :
    afterOsc (p :: ps) = ps := by
  rcases h with hp | ⟨hp, h⟩
  · rw [afterOsc, afterBel, if_pos hp]
    rfl
  · obtain ⟨hb, hs⟩ := after_of_not_hasOsc h
    simp [afterOsc, afterBel, afterLastSt, hp, hb, hs]

theorem afterOsc_of_not_hasOsc {ps : List Piece} (h : hasOsc ps = false) : afterOsc ps = ps := by
  obtain ⟨hb, hs⟩ := after_of_not_hasOsc h
  rw [afterOsc, hb, hs]
  rfl

theorem suffix_of_afterBel {ps qs : List Piece} (h : afterBel ps = some qs) : qs <:+ ps := by
  induction ps with
  | nil => cases h
  | cons p ps ih =>
    rw [afterBel] at h
    split at h
    · obtain rfl := Option.some.inj h
      exact List.suffix_cons p ps
    · exact (ih h).trans (List.suffix_cons p ps)

theorem suffix_of_afterLastSt {ps qs : List Piece} (h : afterLastSt ps = some qs) : qs <:+ ps := by
  induction ps with
  | nil => cases h
  | cons p ps ih =>
    rw [afterLastSt, Option.or_eq_some_iff] at h
    rcases h with h | ⟨_, h⟩
    · exact (ih h).trans (List.suffix_cons p ps)
    · split at h
      · obtain rfl := Option.some.inj h
        exact List.suffix_cons p ps
      · cases h

theorem suffix_afterOsc (ps : List Piece) : afterOsc ps <:+ ps := by
  rw [afterOsc]
  cases hb : afterBel ps with
  | some qs => exact suffix_of_afterBel hb
  | none =>
    cases hs : afterLastSt ps with
    | some qs => exact suffix_of_afterLastSt hs
    | none => exact List.suffix_rfl

theorem length_renderAll_afterOsc (ps : List Piece) :
    (renderAll (afterOsc ps)).length ≤ (renderAll ps).length := by
  obtain ⟨l, hl⟩ := suffix_afterOsc ps
  have happ : renderAll ps = renderAll l ++ renderAll (afterOsc ps) := by
    rw [renderAll, renderAll, renderAll, ← List.flatMap_append, hl]
  rw [happ, List.length_append]
  omega

/-- The text that is hidden up to the next command is what the match skips. -/
theorem kept_marked_true {ps : List Piece} (h : hasOsc ps = true) :
    kept (marked true ps) = kept (marked false (afterOsc ps)) := by
  induction ps with
  | nil => cases h
  | cons p ps ih =>
    rw [marked, kept_append, kept_map, if_pos rfl, List.nil_append, hiddenBehind]
    cases ht : p.terminator? with
    | none =>
      have hps : hasOsc ps = true := by
        rw [hasOsc, List.any_cons, ht] at h
        exact h
      rw [afterOsc_cons hps (by rw [ht]; exact nofun)]
      exact ih hps
    | some t =>
      cases t with
      | bel => rw [afterOsc_cons_last (.inl ht)]
      | st =>
        cases hps : hasOsc ps with
        | false => rw [afterOsc_cons_last (.inr ⟨ht, hps⟩)]
        | true =>
          rw [afterOsc_cons hps (by rw [ht]; exact nofun)]
          exact ih hps

/-- The text behind a command that ends in `ESC \`. -/
theorem kept_marked_hasOsc (ps : List Piece) :
    kept (marked (hasOsc ps) ps) = kept (marked false (afterOsc ps)) := by
  cases h : hasOsc ps with
  | true => exact kept_marked_true h
  | false => rw [afterOsc_of_not_hasOsc h]

/-- A piece that is matched as a whole is taken out. -/
theorem strip_piece {t : Units} {b : List CodeUnit}
    (h : ansiRe.matchAt ⟨before, t ++ rest⟩ = some ⟨b, rest⟩) (ht : t ≠ []) :
    ansiRe.replaceRest [] ⟨before, t ++ rest⟩ = ansiRe.replaceRest [] ⟨b, rest⟩ := by
  have hpos := List.length_pos_iff.mpr ht
  rw [replaceRest_match h, List.nil_append]
  dsimp only
  rw [List.length_append]
  omega

/-- **The stripper leaves the text that is not hidden.** -/
theorem strip_renderAll (ps : List Piece) (before : List CodeUnit) :
    ansiRe.replaceRest [] ⟨before, renderAll ps⟩ = kept (marked false ps) := by
  induction hn : ps.length using Nat.strongRecOn generalizing ps before with
  | _ n ih =>
    cases ps with
    | nil => exact replaceRest_nil rfl
    | cons p ps =>
      subst hn
      have hps : ps.length < (p :: ps).length := Nat.lt_succ_self _
      rw [renderAll_cons, marked, kept_append, kept_map]
      cases p with
      | text t ht =>
        have hesc := isPlain_esc_not_mem ht
        rw [Piece.render, replaceRest_copy fun u hu _ _ =>
          matchAt_ansiRe_of_ne fun he => hesc (he ▸ hu), ih _ hps ps _ rfl]
        rfl
      | csi params intermediates final hc =>
        have hc' := hc
        simp only [Bool.and_eq_true] at hc'
        have hmatch := matchAt_csi before (renderAll ps)
          hc'.1.1 hc'.1.2 hc'.2
        have hrender : (Piece.csi params intermediates final hc).render ++ renderAll ps
            = esc :: 0x5B :: (params ++ (intermediates ++ final :: renderAll ps)) := by
          simp [Piece.render]
        rw [← hrender] at hmatch
        exact (strip_piece hmatch nofun).trans (ih _ hps ps _ rfl)
      | osc payload terminator hplain =>
        cases terminator with
        | bel =>
          obtain ⟨b, hb⟩ := matchAt_osc_bel before (renderAll ps)
            (isPlain_bel_not_mem hplain)
          have hrender : (Piece.osc payload .bel hplain).render ++ renderAll ps
              = esc :: 0x5D :: (payload ++ bel :: renderAll ps) := by
            simp [Piece.render, Terminator.render]
          rw [← hrender] at hb
          exact (strip_piece hb nofun).trans (ih _ hps ps _ rfl)
        | st =>
          obtain ⟨b, hb⟩ := matchAt_osc before ps hplain
          have hrender : (Piece.osc payload .st hplain).render ++ renderAll ps
              = esc :: 0x5D :: (payload ++ esc :: 0x5C :: renderAll ps) := by
            simp [Piece.render, Terminator.render]
          have hlen := length_renderAll_afterOsc ps
          rw [hrender, replaceRest_match hb (by
            simp only [List.length_cons, List.length_append]
            omega), List.nil_append, ih _ ?_ (afterOsc ps) _ rfl]
          · exact (kept_marked_hasOsc ps).symm
          · exact Nat.lt_of_le_of_lt (suffix_afterOsc ps).length_le hps
      | charset mark name hc =>
        have hc' := hc
        simp only [Bool.and_eq_true] at hc'
        exact (strip_piece (t := [esc, mark, name]) (matchAt_charset hc'.1 hc'.2) nofun).trans
          (ih _ hps ps _ rfl)
      | short u hu =>
        exact (strip_piece (t := [esc, u]) (matchAt_short hu) nofun).trans (ih _ hps ps _ rfl)

end Telepty.Screen
