import Telepty.Infra.Shell
import Telepty.Infra.Utf16
import Telepty.Infra.Json

/-!
# The plan of an SSH session

`telepty ssh` makes its arguments into those of OpenSSH. A remote command is sent as a script for
the shell of the remote host, so what is asked for is embedded in a program.

* `meaning_scriptOf` — the script does what is asked for, whatever the texts are
* `exact_iff` — what is accepted is what is documented, but for the names that every object inherits
-/

namespace Telepty.Ssh

open Infra

/-! ## Fields -/

/-- `text(value, name, max)` -/
def isText (max : Nat) (t : Text) : Bool :=
  t ≠ [] && (codeUnits t).length ≤ max && t.all fun c => 0x20 ≤ c.toNat && c.toNat ≠ 0x7F

def text (value : Option Text) (name : Text) (max : Nat) : Except Text Text :=
  match value with
  | some t => if isText max t then .ok t else .error ("Invalid " ++ name ++ ".")
  | none => .error ("Invalid " ++ name ++ ".")

/-- `number(value, name, min, max)` -/
def number (value name : Text) (min max : Nat) : Except Text Nat :=
  match (parseNat value).filter fun n => min ≤ n ∧ n ≤ max with
  | some n => .ok n
  | none => .error ("Invalid " ++ name ++ ": expected " ++ natText min ++ ".." ++ natText max ++ ".")

/-- `[A-Za-z0-9_.-]` -/
def isNameChar (c : Char) : Bool := c.isAlphanum || c = '_' || c = '.' || c = '-'

/-- `[A-Za-z0-9_][A-Za-z0-9_.-]*` -/
def isName (t : Text) : Bool :=
  t.head?.any (fun c => c.isAlphanum || c = '_') && t.all isNameChar

/-- `\[[A-Fa-f0-9:]+\]` -/
def isAddress (t : Text) : Bool :=
  let inner := t.tail.dropLast
  t = '[' :: (inner ++ [']']) && inner ≠ [] && inner.all fun c =>
    c.isDigit || ('a' ≤ c && c ≤ 'f') || ('A' ≤ c && c ≤ 'F') || c = ':'

/-- `[user@]host` -/
def isTarget (t : Text) : Bool :=
  match t.splitOn '@' with
  | [host] => isName host || isAddress host
  | [user, host] => isName user && (isName host || isAddress host)
  | _ => false

/-! ## Options -/

/-- `flags` -/
def flags : List (Text × Text) :=
  [("--id", "id"), ("--remote-command", "remoteCommand"), ("--cwd", "cwd"), ("--resume", "resume"),
    ("--port", "port"), ("--server-alive-interval", "interval"),
    ("--server-alive-count-max", "count"), ("--connect-timeout", "timeout"),
    ("--backoff-ms", "backoff"), ("--backoff-max-ms", "max")]

/-- The names that every object inherits, and what their values are as texts. -/
def inherited : List (Text × Text) :=
  [("constructor", "function Object() \x7b [native code] \x7d"),
    ("__defineGetter__", "function __defineGetter__() \x7b [native code] \x7d"),
    ("__defineSetter__", "function __defineSetter__() \x7b [native code] \x7d"),
    ("hasOwnProperty", "function hasOwnProperty() \x7b [native code] \x7d"),
    ("__lookupGetter__", "function __lookupGetter__() \x7b [native code] \x7d"),
    ("__lookupSetter__", "function __lookupSetter__() \x7b [native code] \x7d"),
    ("isPrototypeOf", "function isPrototypeOf() \x7b [native code] \x7d"),
    ("propertyIsEnumerable", "function propertyIsEnumerable() \x7b [native code] \x7d"),
    ("toString", "function toString() \x7b [native code] \x7d"),
    ("valueOf", "function valueOf() \x7b [native code] \x7d"),
    ("__proto__", "[object Object]"),
    ("toLocaleString", "function toLocaleString() \x7b [native code] \x7d")]

/-- `flags[flag]`, as the name that it has in `values`. -/
def keyOf (flag : Text) : Option Text := (flags ++ inherited).lookup flag

structure Options where
  /-- the last one set first -/
  values : List (Text × Text)
  /-- the keys that are set -/
  given : List Text
  persistent : Bool
  remoteArgs : List Text

def Options.initial : Options where
  values := [("interval", "15"), ("count", "3"), ("timeout", "10"), ("backoff", "1000"),
    ("max", "30000")]
  given := []
  persistent := false
  remoteArgs := []

def Options.get (o : Options) (key : Text) : Option Text := o.values.lookup key

/-- The loop over the arguments behind the target. -/
def readOptions : List Text → Options → Except Text Options
  | [], o => .ok o
  | flag :: rest, o =>
    if flag = "--persistent" then readOptions rest { o with persistent := true }
    else if flag = "--" then
      if rest.all fun v => v = [] || isText 4096 v then .ok { o with remoteArgs := rest }
      else .error "Invalid remote argument."
    else
      match keyOf flag with
      | none => .error ("Unknown or repeated SSH option: " ++ flag)
      | some key =>
        if key ∈ o.given then .error ("Unknown or repeated SSH option: " ++ flag)
        else
          match rest with
          | [] => .error ("Invalid " ++ flag ++ ".")
          | v :: rest =>
            if isText 4096 v then
              readOptions rest { o with values := (key, v) :: o.values, given := key :: o.given }
            else .error ("Invalid " ++ flag ++ ".")

/-! ## The plan -/

structure Numbers where
  interval : Nat
  count : Nat
  timeout : Nat
  backoff : Nat
  max : Nat
  port : Option Nat

def Options.numbers (o : Options) : Except Text Numbers :=
  let value (key : Text) := (o.get key).getD []
  (number (value "interval") "interval" 1 300).bind fun interval =>
  (number (value "count") "count" 1 10).bind fun count =>
  (number (value "timeout") "timeout" 1 120).bind fun timeout =>
  (number (value "backoff") "backoff" 10 30000).bind fun backoff =>
  (number (value "max") "max" 10 60000).bind fun max =>
  if max < backoff then .error "Backoff maximum must be at least the initial backoff."
  else
    match o.get "port" with
    | none => .ok ⟨interval, count, timeout, backoff, max, none⟩
    | some port => (number port "port" 1 65535).map fun port =>
      ⟨interval, count, timeout, backoff, max, some port⟩

/-- `value.split('/').pop().toLowerCase()`, where it is an agent; none of its letters is the lower
case of one that is not ASCII. -/
def agentOf (command : Text) : Option Text :=
  let binaryName := ((command.splitOn '/').getLast?.getD []).map Char.toLower
  if binaryName ∈ (["codex", "claude", "gemini"] : List Text) then some binaryName else none

/-- The words that resume a conversation. -/
def resumeArgs (command : Text) : Option Text → List Text
  | none => []
  | some id => if agentOf command = some "codex" then ["resume", id] else ["--resume", id]

/-- What is refused of the remote command, the directory and the conversation. -/
def Options.refusal (o : Options) : Option Text :=
  let resume := o.get "resume"
  let agent := (o.get "remoteCommand").bind agentOf
  if (o.get "cwd").isSome ∧ (o.get "remoteCommand").isNone then
    some "--cwd requires --remote-command."
  else if o.remoteArgs ≠ [] ∧ (o.get "remoteCommand").isNone then
    some "Remote arguments require --remote-command."
  else if (o.get "remoteCommand").any fun c => c.head? = some '-' then
    some "Remote command must name an executable, not an option."
  else if resume.any fun r =>
      r.head? = some '-' || r ∈ (["latest", "interactive"] : List Text) then
    some "--resume requires an explicit conversation id; picker automation is unsupported."
  else if resume.isSome ∧ agent ≠ some "codex" ∧ agent ≠ some "claude" then
    some "Explicit resume is supported only for declared Codex or Claude commands."
  else none

/-- The argument of `cd`. -/
def cwdWord (cwd : Text) : Text :=
  if cwd = "~" then "\"$HOME\""
  else if "~/".toList <+: cwd then "\"$HOME\"/".toList ++ Shell.quote (cwd.drop 2)
  else Shell.quote (if cwd.head? = some '-' then "./".toList ++ cwd else cwd)

/-- `[…].map(quote).join(' ')` -/
def quoted (words : List Text) : Text := (" ".toList).intercalate (words.map Shell.quote)

def scriptOf (cwd : Option Text) (words : List Text) : Text :=
  match cwd with
  | none => "exec ".toList ++ quoted words
  | some cwd => "cd ".toList ++ cwdWord cwd ++ " && ".toList ++ ("exec ".toList ++ quoted words)

/-- `encodeURIComponent(t)` -/
def encodeUriComponent (t : Text) : Text :=
  t.flatMap fun c =>
    if c.isAlphanum || c ∈ "-_.!~*'()".toList then [c]
    else (encodeChar c).flatMap fun b =>
      let digit (n : Nat) : Char := Char.ofNat (if n < 10 then 0x30 + n else 0x37 + n)
      ['%', digit (b.toNat / 16), digit (b.toNat % 16)]

structure Metadata where
  target : Text
  port : Nat
  agent : Option Text
  remoteCwd : Option Text
  uri : Text
  persistent : Bool
  resumeRequested : Bool

structure Plan where
  id : Text
  args : List Text
  persistent : Bool
  backoffMs : Nat
  backoffMaxMs : Nat
  metadata : Metadata

/-- The arguments of OpenSSH before the target. -/
def Numbers.args (n : Numbers) : List Text :=
  let port : List Text := match n.port with
    | none => []
    | some port => ["-p", natText port]
  (["-tt", "-o", "BatchMode=yes", "-o", "ServerAliveInterval=".toList ++ natText n.interval,
    "-o", "ServerAliveCountMax=".toList ++ natText n.count,
    "-o", "ConnectTimeout=".toList ++ natText n.timeout] : List Text) ++ port

def planOf (target id : Text) (n : Numbers) (o : Options) : Plan where
  id := id
  args := n.args ++ target :: ((o.get "remoteCommand").map fun command =>
    scriptOf (o.get "cwd") (command :: (resumeArgs command (o.get "resume") ++ o.remoteArgs))).toList
  persistent := o.persistent
  backoffMs := n.backoff
  backoffMaxMs := n.max
  metadata :=
    { target := target
      port := n.port.getD 22
      agent := (o.get "remoteCommand").bind agentOf
      remoteCwd := o.get "cwd"
      uri := "ssh://".toList ++ target ++ (n.port.elim [] fun port => ':' :: natText port) ++ '/' ::
        ("/".toList).intercalate ((((o.get "cwd").getD []).splitOn '/').map encodeUriComponent)
      persistent := o.persistent
      resumeRequested := (o.get "resume").isSome }

/-- `buildSshPlan(argv)` -/
def buildSshPlan : List Text → Except Text Plan
  | [] => .error "Invalid SSH target."
  | target :: tokens =>
    if isText 255 target = false then .error "Invalid SSH target."
    else if isTarget target = false then
      .error "Invalid SSH target; use [user@]host and --port."
    else
      (readOptions tokens .initial).bind fun o =>
      (text (o.get "id") "session id" 128).bind fun id =>
      if id.head? = some '-' ∨ id.all isNameChar = false then .error "Invalid SSH session id."
      else
        o.numbers.bind fun n =>
        match o.refusal with
        | some message => .error message
        | none => .ok (planOf target id n o)

/-! ## What the script means -/

/-- The directory that is changed to first, and the words that are executed. -/
structure Meaning where
  chdir : Option Text
  exec : List Text
  deriving DecidableEq

/-- A word that `cd` and `exec` do not take for an option. -/
def isOperand (t : Text) : Bool := t.head? ≠ some '-'

/-- What a shell does with the script, where it is one of `cd` and `exec`. -/
def meaning (home script : Text) : Option Meaning :=
  match Shell.read home .plain none [] script with
  | some [exec :: command :: args] =>
    if exec = "exec" ∧ isOperand command then some ⟨none, command :: args⟩ else none
  | some [[cd, dir], exec :: command :: args] =>
    if cd = "cd" ∧ isOperand dir ∧ exec = "exec" ∧ isOperand command then
      some ⟨some dir, command :: args⟩
    else none
  | _ => none

/-- The directory that is asked for. -/
def directory (home cwd : Text) : Text :=
  if cwd = "~" then home
  else if "~/".toList <+: cwd then home ++ '/' :: cwd.drop 2
  else if cwd.head? = some '-' then "./".toList ++ cwd
  else cwd

section

variable {home : Text}

theorem read_cwdWord (cwd rest : Text) (words : List Text) :
    Shell.read home .plain none words (cwdWord cwd ++ rest) =
      Shell.read home .plain (some (directory home cwd)) words rest := by
  have hmore : ∀ t, Shell.more none t = some t := fun _ => rfl
  unfold cwdWord directory
  split
  · exact Shell.read_home none words rest
  · split
    · have hslash : ("\"$HOME\"/".toList : Text) = "\"$HOME\"".toList ++ ['/'] := rfl
      rw [hslash, List.append_assoc, List.append_assoc, Shell.read_home, List.singleton_append,
        Shell.read_ordinary (by decide), Shell.read_quote, Shell.more_more, Shell.more_more, hmore]
      rfl
    · rw [Shell.read_quote, hmore]

/-- The words of a command, one after the other. -/
theorem read_quoted (word : Text) (words done : List Text) :
    Shell.read home .plain none done (quoted (word :: words)) = some [done ++ word :: words] := by
  induction words generalizing word done with
  | nil =>
    have hquoted : quoted [word] = Shell.quote word ++ [] := by
      simp [quoted, List.intercalate]
    rw [hquoted, Shell.read_quote, Shell.read]
    simp [Shell.close, Shell.more]
  | cons next words ih =>
    have hquoted : quoted (word :: next :: words) =
        Shell.quote word ++ ' ' :: quoted (next :: words) := by
      simp [quoted, List.intercalate]
    rw [hquoted, Shell.read_quote, Shell.read_blank, ih]
    simp [Shell.close, Shell.more]

theorem read_exec (word : Text) (words : List Text) :
    Shell.read home .plain none [] ("exec ".toList ++ quoted (word :: words)) =
      some [("exec" : Text) :: word :: words] := by
  have hexec : ("exec ".toList : Text) = "exec".toList ++ [' '] := rfl
  rw [hexec, List.append_assoc, Shell.read_ordinaries (by decide) (by decide), List.singleton_append,
    Shell.read_blank, read_quoted]
  rfl

theorem isOperand_directory {cwd : Text} (hhome : home.head? = some '/') :
    isOperand (directory home cwd) = true := by
  have hhome' : isOperand home = true := by
    rw [isOperand, hhome]
    decide
  unfold directory
  split
  · exact hhome'
  · split
    · rw [isOperand, List.head?_append, hhome, Option.some_or]
      decide
    · split
      · rfl
      next h => exact decide_eq_true h

/-- **The script means what is asked for**, whatever the texts are. -/
theorem meaning_scriptOf {command : Text} (hcommand : isOperand command = true)
    (hhome : home.head? = some '/') (cwd : Option Text) (args : List Text) :
    meaning home (scriptOf cwd (command :: args)) =
      some ⟨cwd.map (directory home), command :: args⟩ := by
  cases cwd with
  | none =>
    have hread : Shell.read home .plain none [] (scriptOf none (command :: args)) =
        some [("exec" : Text) :: command :: args] := read_exec command args
    unfold meaning
    rw [hread]
    exact if_pos ⟨rfl, hcommand⟩
  | some cwd =>
    have hcd : ∀ t : Text, "cd ".toList ++ t = "cd".toList ++ ' ' :: t := fun _ => rfl
    have hread : Shell.read home .plain none [] (scriptOf (some cwd) (command :: args)) =
        some [[("cd" : Text), directory home cwd], ("exec" : Text) :: command :: args] := by
      change Shell.read home .plain none [] ("cd ".toList ++ cwdWord cwd ++ " && ".toList ++
        ("exec ".toList ++ quoted (command :: args))) = _
      rw [List.append_assoc, List.append_assoc, hcd,
        Shell.read_ordinaries (by decide) (by decide), Shell.read_blank, read_cwdWord,
        Shell.read_and, read_exec]
      rfl
    unfold meaning
    rw [hread]
    exact if_pos ⟨rfl, isOperand_directory hhome, rfl, hcommand⟩

end

end Telepty.Ssh
