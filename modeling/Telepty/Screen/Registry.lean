import Telepty.Infra.Regex
import Telepty.Infra.Utf16

/-!
# The prompt symbol registry

What a stretch of terminal output says about the CLI that wrote it: whether a modal owns the
surface, whether the turn ended in an error, whether the prompt is there. All of it is decided on
the output without its control sequences, which one regular expression takes out.
-/

namespace Telepty.Screen

open Infra Infra.Regex

/-! ## Expressions -/

/-- The symbols of a set, `[...]`. -/
def oneOf (t : Text) : Regex CodeUnit := sym fun u => (t.map unit).contains u

/-- `[^...]` -/
def noneOf (t : Text) : Regex CodeUnit := sym fun u => !(t.map unit).contains u

/-- `[a-b]` -/
def range (a b : CodeUnit) : Regex CodeUnit := sym fun u => a ≤ u && u ≤ b

/-- The text as it stands. -/
def text (t : Text) : Regex CodeUnit := literal (t.map unit)

/-- The text under the flag `i`. -/
def textI (t : Text) : Regex CodeUnit :=
  chain (t.map fun c => sym fun u => CodeUnit.lower u = CodeUnit.lower (unit c))

def space : Regex CodeUnit := sym CodeUnit.isSpace

def nonSpace : Regex CodeUnit := sym fun u => !u.isSpace

def digit : Regex CodeUnit := sym CodeUnit.isDigit

/-- `^` with the flag `m` -/
def lineStart : Regex CodeUnit := between fun a _ => a.all CodeUnit.isLineTerminator

/-- `^` -/
def textStart : Regex CodeUnit := between fun a _ => a.isNone

/-- Texts with `\s*` between them. -/
def spaced (ts : List Text) : Regex CodeUnit := chain ((ts.map text).intersperse (star space))

/-! ## Control sequences -/

def esc : CodeUnit := 0x1B

def bel : CodeUnit := 0x07

/-- `\x1b\[[\x30-\x3f]*[\x20-\x2f]*[\x40-\x7e]` -/
def csiRe : Regex CodeUnit :=
  chain [sym (· = esc), sym (· = 0x5B), star (range 0x30 0x3F), star (range 0x20 0x2F),
    range 0x40 0x7E]

/-- `\x1b\][^\x07]*(?:\x07|\x1b\\)` -/
def oscRe : Regex CodeUnit :=
  chain [sym (· = esc), sym (· = 0x5D), star (sym (· ≠ bel)),
    alt (sym (· = bel)) (chain [sym (· = esc), sym (· = 0x5C)])]

def charsetMarks : Text := "()"

def charsetNames : Text := "AB012"

/-- `\x1b[()][AB012]` -/
def charsetRe : Regex CodeUnit := chain [sym (· = esc), oneOf charsetMarks, oneOf charsetNames]

def shortEscapes : Text := ">=<78DMEHcNOZ~\x7d|"

/-- `\x1b[>=<78DMEHcNOZ~}|]` -/
def shortRe : Regex CodeUnit := chain [sym (· = esc), oneOf shortEscapes]

/-- `ANSI_RE` -/
def ansiRe : Regex CodeUnit := choice [csiRe, oscRe, charsetRe, shortRe]

/-- `stripAnsi(value)` -/
def stripAnsi (value : Units) : Units := ansiRe.replace [] value

def cr : CodeUnit := 0x0D

def lf : CodeUnit := 0x0A

/-- `normalizeOutputForDetection(output)` -/
def normalizeOutputForDetection (output : Units) : Units :=
  (atLeast (sym (· = lf)) 2).replace [lf]
    ((sym (· = cr)).replace [lf] ((chain [sym (· = cr), sym (· = lf)]).replace [lf]
      (stripAnsi output)))

/-! ## Markers -/

/-- `/gpt-\S+\s+\S+(\s+fast|\s*·)/i` -/
def codexComposerFooter : Regex CodeUnit :=
  chain [textI "gpt-", plus nonSpace, plus space, plus nonSpace,
    alt (chain [plus space, textI "fast"]) (chain [star space, text "·"])]

def codexModalPatterns : List (Regex CodeUnit) :=
  [text "Resume a previous session", seq lineStart (text "Filter:"),
    textI "Do you trust the contents", textI "Press enter to continue"]

def claudeModalPatterns : List (Regex CodeUnit) :=
  [spaced ["Enter", "to", "select"], spaced ["Ready", "to", "code?"],
    spaced ["Would", "you", "like", "to", "proceed?"], spaced ["Yes,", "auto-accept", "edits"],
    spaced ["Do", "you", "want", "to", "proceed?"],
    spaced ["Yes,", "and", "don't", "ask", "again"],
    spaced ["Yes,", "I", "trust", "this", "folder"], spaced ["Choose", "the", "text", "style"],
    spaced ["Select", "login", "method"]]

/-- `\d+(\.\d+)?K` -/
def kilo : Regex CodeUnit :=
  chain [plus digit, optional (chain [text ".", plus digit]), text "K"]

def claudeFooterMarkers : List (Regex CodeUnit) :=
  [chain [text "|", star space, text "[",
      star (sym fun u => u = unit '█' || u = unit '░' || u.isSpace), text "]", star space, plus digit, text "%"],
    chain [kilo, star space, text "/", star space, kilo],
    chain [alt (text "⏸") (text "▶"), star space, nonSpace, star (noneOf "\n"), text "mode",
      star space, text "on"]]

/-- The row of a caret between two rules. -/
def composerBox (carets : Text) : Regex CodeUnit :=
  chain [atLeast (text "─") 10, text "\n", oneOf carets, star (noneOf "\n"), text "\n",
    atLeast (text "─") 10]

def claudeComposerMarkers : List (Regex CodeUnit) := claudeFooterMarkers ++ [composerBox "❯>"]

def claudeReadyMarkers : List (Regex CodeUnit) := claudeFooterMarkers ++ [composerBox "❯"]

def claudeErrorPatterns : List (Regex CodeUnit) :=
  [chain [text "⏺", star space, text "API", star space, text "Error", optional (text ":"),
    star space, star digit]]

def codexErrorPatterns : List (Regex CodeUnit) :=
  [chain [text "■", star space, text "\x7b", star (noneOf "\n"), text "\"type\"", star space, text ":",
      star space, text "\"", star (sym fun u => (0x61 ≤ u && u ≤ 0x7A) || u = 0x5F),
      text "error\""],
    chain [text "■", star space, text "\x7b", star (noneOf "\n"), text "\"status\"", star space,
      text ":", star space, oneOf "45", digit, digit]]

/-! ## Commands -/

inductive Cli where
  | claude
  | codex
  | gemini
  deriving DecidableEq

/-- What `ENTRIES[key]` gives: an entry, or what every object inherits under that name. -/
inductive Entry where
  | own (cli : Cli)
  | inherited
  deriving DecidableEq

def entryOf (key : Units) : Option Entry :=
  if key = codeUnits "claude" then some (.own .claude)
  else if key = codeUnits "codex" then some (.own .codex)
  else if key = codeUnits "gemini" then some (.own .gemini)
  else if key = codeUnits "constructor" ∨ key = codeUnits "__proto__" then some .inherited
  else none

/-- `tok.split('/').filter(Boolean).pop() || ''` -/
def baseName (token : Units) : Units :=
  ((token.splitOn (unit '/')).filter (· ≠ [])).getLastD []

/-- `lookup(command)`, for `command` empty where there is none. -/
def lookup (command : Units) : Option Entry :=
  ((command.splitOnP CodeUnit.isSpace).filter (· ≠ [])).findSome? fun token =>
    entryOf ((baseName token).map CodeUnit.lower)

/-- `commandKey(command)` -/
def commandKey (command : Units) : Option Cli :=
  match lookup command with
  | some (.own cli) => some cli
  | _ => none

/-! ## Verdicts -/

/-- The index of the last match from the cursor on, `last` if there is none. -/
def lastMatchFrom (r : Regex CodeUnit) : Nat → Cursor CodeUnit → Int → Int
  | 0, _, last => last
  | n + 1, c, last =>
    match r.exec c.before c.rest with
    | none => last
    | some (s, e) =>
      if s.index = e.index then
        match e.rest with
        | [] => s.index
        | a :: rest => lastMatchFrom r n ⟨a :: e.before, rest⟩ s.index
      else lastMatchFrom r n e s.index

/-- `lastMatchIndex(text, pattern)` -/
def lastMatchIndex (t : Units) (pattern : Regex CodeUnit) : Int :=
  lastMatchFrom pattern (t.length + 2) (.start t) (-1)

/-- `patterns.reduce((max, p) => Math.max(max, lastMatchIndex(text, p)), -1)` -/
def lastOfAll (t : Units) (patterns : List (Regex CodeUnit)) : Int :=
  patterns.foldl (fun last p => max last (lastMatchIndex t p)) (-1)

structure ModalRule where
  modal : List (Regex CodeUnit)
  composer : List (Regex CodeUnit)
  reason : Text

/-- `SURFACE_MODAL_RULES` -/
def surfaceModalRules : Cli → Option ModalRule
  | .codex => some ⟨codexModalPatterns, [codexComposerFooter], "codex_modal_ui"⟩
  | .claude => some ⟨claudeModalPatterns, claudeComposerMarkers, "claude_modal_ui"⟩
  | .gemini => none

/-- The positions are those of the last markers, where they were looked up. -/
structure ModalVerdict where
  blocked : Bool
  reason : Text
  at? : Option (Int × Int)
  deriving DecidableEq

/-- `detectSurfaceModal(command, output)` -/
def detectSurfaceModal (command output : Units) : ModalVerdict :=
  match (commandKey command).bind surfaceModalRules with
  | none => ⟨false, "not_applicable", none⟩
  | some rule =>
    let t := normalizeOutputForDetection output
    let modalAt := lastOfAll t rule.modal
    if modalAt = -1 then ⟨false, "no_modal_seen", none⟩
    else
      let readyAt := lastOfAll t rule.composer
      if readyAt < modalAt then ⟨true, rule.reason, some (modalAt, readyAt)⟩
      else ⟨false, "composer_after_modal", some (modalAt, readyAt)⟩

structure ErrorRule where
  error : List (Regex CodeUnit)
  reason : Text

/-- `SURFACE_ERROR_RULES` -/
def surfaceErrorRules : Cli → Option ErrorRule
  | .claude => some ⟨claudeErrorPatterns, "claude_api_error"⟩
  | .codex => some ⟨codexErrorPatterns, "codex_api_error"⟩
  | .gemini => none

structure ErrorVerdict where
  errored : Bool
  reason : Text
  detail? : Option (Int × Units)
  deriving DecidableEq

def errorDetailMaxChars : Nat := 120

/-- The line of the error without its bullet, cut short. -/
def errorDetail (t : Units) (errorAt : Int) : Units :=
  let line := ((t.drop errorAt.toNat).take (errorDetailMaxChars + 40)).takeWhile (· ≠ lf)
  (trimUnits (line.dropWhile fun u =>
    u = unit '⏺' || u = unit '■' || u = unit '•' || u.isSpace)).take errorDetailMaxChars

/-- `detectSurfaceError(command, output)` -/
def detectSurfaceError (command output : Units) : ErrorVerdict :=
  match (commandKey command).bind surfaceErrorRules with
  | none => ⟨false, "not_applicable", none⟩
  | some rule =>
    let t := normalizeOutputForDetection output
    let errorAt := lastOfAll t rule.error
    if errorAt = -1 then ⟨false, "no_error_seen", none⟩
    else ⟨true, rule.reason, some (errorAt, errorDetail t errorAt)⟩

structure Detection where
  found : Bool
  reason : Option Text
  lineIndex : Option Nat
  col : Option Nat
  deriving DecidableEq

/-- The last line that satisfies `p`, which is given the line, the one above and those below. -/
def lastLine (lines : List Units) (p : Nat → Units → Units → Units → Units → Bool) : Option Nat :=
  (List.range lines.length).reverse.find? fun i =>
    p i (lines.getD i []) (if i = 0 then [] else lines.getD (i - 1) []) (lines.getD (i + 1) [])
      (lines.getD (i + 2) [])

/-- `/^([❯>])\s*$/.test(line)` -/
def caretLine : Units → Bool
  | [] => false
  | u :: rest => (u = unit '❯' || u = unit '>') && rest.all CodeUnit.isSpace

/-- `ENTRIES.claude.detect(screen)` -/
def detectClaude (screen : Units) : Detection :=
  let composerAt := lastOfAll screen claudeReadyMarkers
  let modalAt := lastOfAll screen claudeModalPatterns
  if composerAt < modalAt then ⟨false, some "claude_modal_ui", none, none⟩
  else
    match lastLine (screen.splitOn lf) fun i line above below _ =>
      1 ≤ i && caretLine line && (above.contains (unit '─') || below.contains (unit '─')) with
    | some i => ⟨true, some "claude_empty_caret", some i, some 1⟩
    | none =>
      if 0 ≤ composerAt then ⟨true, some "claude_composer_marker", none, none⟩
      else ⟨false, none, none, none⟩

/-- `/^ ?› /` -/
def codexPromptLine : Regex CodeUnit :=
  chain [textStart, optional (text " "), text "› "]

/-- `ENTRIES.codex.detect(screen)` -/
def detectCodex (screen : Units) : Detection :=
  if codexModalPatterns.any fun p => p.test screen then ⟨false, some "codex_modal_ui", none, none⟩
  else if (text "OpenAI Codex (v").test screen ∧ codexComposerFooter.test screen then
    ⟨true, some "codex_multi_signal", none, none⟩
  else
    match lastLine (screen.splitOn lf) fun _ line _ below below' =>
      codexPromptLine.test line && (seq (textI "gpt-") digit).test (below ++ lf :: below') with
    | some i => ⟨true, some "codex_strict_line", some i, some 2⟩
    | none => ⟨false, none, none, none⟩

/-- `/^ \* {2,}/` -/
def geminiPromptLine : Regex CodeUnit :=
  chain [textStart, text " *", atLeast (text " ") 2]

/-- `ENTRIES.gemini.detect(screen)` -/
def detectGemini (screen : Units) : Detection :=
  match lastLine (screen.splitOn lf) fun i line above below _ =>
    1 ≤ i && geminiPromptLine.test line &&
      (above.contains (unit '▀') || below.contains (unit '▄')) with
  | some i => ⟨true, none, some i, some 2⟩
  | none => ⟨false, none, none, none⟩

def Cli.detect : Cli → Units → Detection
  | .claude => detectClaude
  | .codex => detectCodex
  | .gemini => detectGemini

/-- `detectOutput(command, output)`, `none` where it throws: an inherited member detects nothing. -/
def detectOutput (command output : Units) : Option Detection :=
  match lookup command with
  | none => some ⟨false, some "unknown_cli", none, none⟩
  | some (.own cli) => some (cli.detect (normalizeOutputForDetection output))
  | some .inherited => none

end Telepty.Screen
