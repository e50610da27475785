import Telepty.Infra.Text

/-!
# The words of a shell script

How a POSIX shell reads a list of simple commands that are joined by `&&`: quotes, blanks and the
expansion of `"$HOME"`. What else an unquoted character, a dollar or a backquote may start is not
read; the reading is `none` there.

* `read_quote` — a quoted text is read as that text, whatever it is
-/

namespace Telepty.Infra.Shell

/-- In single quotes, with `'"'"'` for a single quote. -/
def quoteBody : Text → Text
  | [] => []
  | c :: t => if c = '\'' then "'\"'\"'".toList ++ quoteBody t else c :: quoteBody t

def quote (t : Text) : Text := '\'' :: (quoteBody t ++ ['\''])

inductive Mode where
  | plain
  | single
  | double
  deriving DecidableEq

/-- An unquoted character that stands for itself everywhere. -/
def isOrdinary (c : Char) : Bool := c.isAlphanum || c = '_' || c = '-' || c = '.' || c = '/'

/-- A character of a parameter name. -/
def isName (c : Char) : Bool := c.isAlphanum || c = '_'

def isBlank (c : Char) : Bool := c = ' ' || c = '\t'

/-- A character that a backslash quotes within double quotes. -/
def isEscaped (c : Char) : Bool := c = '$' || c = '`' || c = '"' || c = '\\'

/-- The words of a command, with the one that is being read. -/
def close (word : Option Text) (words : List Text) : List Text := words ++ word.toList

/-- The word that is being read, with more text. -/
def more (word : Option Text) (t : Text) : Option Text := some (word.getD [] ++ t)

/-- The commands of a script and their words, `home` being the value of `HOME`. -/
def read (home : Text) : Mode → Option Text → List Text → Text → Option (List (List Text))
  | .plain, word, words, [] => some [close word words]
  | .single, _, _, [] => none
  | .double, _, _, [] => none
  | .single, word, words, c :: t =>
    if c = '\'' then read home .plain word words t else read home .single (more word [c]) words t
  | .double, word, words, c :: t =>
    if c = '"' then read home .plain word words t
    else if c = '`' then none
    else if c = '\\' then
      match t with
      | [] => none
      | d :: t' =>
        if isEscaped d then read home .double (more word [d]) words t'
        else if d = '\n' then read home .double word words t'
        else read home .double (more word [c, d]) words t'
    else if c = '$' then
      match t with
      | 'H' :: 'O' :: 'M' :: 'E' :: d :: t' =>
        if isName d then none
        else read home .double (more word home) words (d :: t')
      | _ => none
    else read home .double (more word [c]) words t
  | .plain, word, words, c :: t =>
    if c = '\'' then read home .single (more word []) words t
    else if c = '"' then read home .double (more word []) words t
    else if isBlank c then read home .plain none (close word words) t
    else if c = '&' then
      match t with
      | '&' :: t' => (read home .plain none [] t').map (close word words :: ·)
      | _ => none
    else if c = '\\' then
      match t with
      | [] => none
      | d :: t' =>
        if d = '\n' then read home .plain word words t'
        else read home .plain (more word [d]) words t'
    else if isOrdinary c then read home .plain (more word [c]) words t
    else none

/-! ## Quoted texts -/

section

variable {home : Text}

theorem more_more (word : Option Text) (s t : Text) : more (more word s) t = more word (s ++ t) := by
  simp only [more, Option.getD_some, List.append_assoc]

theorem read_plain (word : Option Text) (words : List Text) (c : Char) (t : Text) :
    read home .plain word words (c :: t) =
      if c = '\'' then read home .single (more word []) words t
      else if c = '"' then read home .double (more word []) words t
      else if isBlank c then read home .plain none (close word words) t
      else if c = '&' then
        match t with
        | '&' :: t' => (read home .plain none [] t').map (close word words :: ·)
        | _ => none
      else if c = '\\' then
        match t with
        | [] => none
        | d :: t' =>
          if d = '\n' then read home .plain word words t'
          else read home .plain (more word [d]) words t'
      else if isOrdinary c then read home .plain (more word [c]) words t
      else none := by
  rw [read.eq_def]
  rfl

theorem read_double (word : Option Text) (words : List Text) (c : Char) (t : Text) :
    read home .double word words (c :: t) =
      if c = '"' then read home .plain word words t
      else if c = '`' then none
      else if c = '\\' then
        match t with
        | [] => none
        | d :: t' =>
          if isEscaped d then read home .double (more word [d]) words t'
          else if d = '\n' then read home .double word words t'
          else read home .double (more word [c, d]) words t'
      else if c = '$' then
        match t with
        | 'H' :: 'O' :: 'M' :: 'E' :: d :: t' =>
          if isName d then none
          else read home .double (more word home) words (d :: t')
        | _ => none
      else read home .double (more word [c]) words t := by
  rw [read.eq_def]
  rfl

theorem read_double_close (word : Option Text) (words : List Text) (rest : Text) :
    read home .double word words ('"' :: rest) = read home .plain word words rest := by
  rw [read_double, if_pos rfl]

theorem read_open_single (word : Option Text) (words : List Text) (rest : Text) :
    read home .plain word words ('\'' :: rest) = read home .single (more word []) words rest := by
  rw [read_plain, if_pos rfl]

theorem read_open_double (word : Option Text) (words : List Text) (rest : Text) :
    read home .plain word words ('"' :: rest) = read home .double (more word []) words rest := by
  rw [read_plain, if_neg (by decide), if_pos rfl]

theorem read_single_close (word : Option Text) (words : List Text) (rest : Text) :
    read home .single word words ('\'' :: rest) = read home .plain word words rest := by
  rw [read, if_pos rfl]

theorem read_single_of_ne {c : Char} (h : c ≠ '\'') (word : Option Text) (words : List Text)
    (rest : Text) :
    read home .single word words (c :: rest) = read home .single (more word [c]) words rest := by
  rw [read, if_neg h]

/-- A single quote: the quotes are closed, and opened again behind a quoted one. -/
theorem read_single_quote (word : Option Text) (words : List Text) (rest : Text) :
    read home .single word words ("'\"'\"'".toList ++ rest) =
      read home .single (more word ['\'']) words rest := by
  change read home .single word words ('\'' :: '"' :: '\'' :: '"' :: '\'' :: rest) = _
  rw [read_single_close, read_open_double, read_double, if_neg (by decide), if_neg (by decide),
    if_neg (by decide), if_neg (by decide), read_double_close, read_open_single, more_more, more_more]
  rfl

theorem read_quoteBody (t : Text) (word : Option Text) (words : List Text) (rest : Text) :
    read home .single (more word []) words (quoteBody t ++ '\'' :: rest) =
      read home .plain (more word t) words rest := by
  induction t generalizing word with
  | nil => exact read_single_close _ _ _
  | cons c t ih =>
    have ih := ih (more word [c])
    rw [more_more, more_more, List.append_nil, List.singleton_append] at ih
    rw [quoteBody]
    split
    next hc =>
      rw [hc] at ih ⊢
      rw [List.append_assoc, read_single_quote, more_more, List.nil_append, ih]
    next hc =>
      rw [List.cons_append, read_single_of_ne hc, more_more, List.nil_append, ih]

/-- **A quoted text is read as that text.** -/
theorem read_quote (t : Text) (word : Option Text) (words : List Text) (rest : Text) :
    read home .plain word words (quote t ++ rest) = read home .plain (more word t) words rest := by
  rw [quote, List.cons_append, List.append_assoc, read_open_single]
  exact read_quoteBody t word words rest

theorem read_blank (word : Option Text) (words : List Text) (rest : Text) :
    read home .plain word words (' ' :: rest) = read home .plain none (close word words) rest := by
  rw [read_plain, if_neg (by decide), if_neg (by decide), if_pos (by decide)]

theorem read_ordinary {c : Char} (h : isOrdinary c = true) (word : Option Text) (words : List Text)
    (rest : Text) :
    read home .plain word words (c :: rest) = read home .plain (more word [c]) words rest := by
  have hne : ∀ d : Char, isOrdinary d = false → c ≠ d := by
    rintro d hd rfl
    rw [h] at hd
    exact Bool.noConfusion hd
  have hblank : ¬ isBlank c = true := by
    intro hb
    rcases (by simpa [isBlank] using hb) with rfl | rfl
    · exact absurd h (by decide)
    · exact absurd h (by decide)
  rw [read_plain, if_neg (hne _ (by decide)), if_neg (hne _ (by decide)), if_neg hblank,
    if_neg (hne _ (by decide)), if_neg (hne _ (by decide)), if_pos h]

theorem read_ordinaries {t : Text} (h : t.all isOrdinary = true) (hne : t ≠ []) (word : Option Text)
    (words : List Text) (rest : Text) :
    read home .plain word words (t ++ rest) = read home .plain (more word t) words rest := by
  induction t generalizing word with
  | nil => exact absurd rfl hne
  | cons c t ih =>
    rw [List.all_cons, Bool.and_eq_true] at h
    rw [List.cons_append, read_ordinary h.1]
    cases t with
    | nil => rfl
    | cons d t => rw [ih h.2 (List.cons_ne_nil _ _), more_more, List.singleton_append]

/-- `"$HOME"` -/
theorem read_home (word : Option Text) (words : List Text) (rest : Text) :
    read home .plain word words ("\"$HOME\"".toList ++ rest) =
      read home .plain (more word home) words rest := by
  change read home .plain word words ('"' :: '$' :: 'H' :: 'O' :: 'M' :: 'E' :: '"' :: rest) = _
  rw [read_open_double, read_double, if_neg (by decide), if_neg (by decide), if_neg (by decide),
    if_pos rfl]
  simp only
  rw [if_neg (by decide), read_double_close, more_more, List.nil_append]

/-- Two commands. -/
theorem read_and (word : Option Text) (words : List Text) (rest : Text) :
    read home .plain word words (" && ".toList ++ rest) =
      (read home .plain none [] rest).map (close word words :: ·) := by
  change read home .plain word words (' ' :: '&' :: '&' :: ' ' :: rest) = _
  rw [read_blank, read_plain, if_neg (by decide), if_neg (by decide), if_neg (by decide),
    if_pos rfl]
  simp only
  rw [read_blank]
  simp only [close, Option.toList_none, List.append_nil]

end

end Telepty.Infra.Shell
