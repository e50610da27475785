import Telepty.Infra.JsonRoundtrip
import Mathlib.Data.List.DropRight

/-!
# Files of JSON lines

A value a line, each line ended by a newline. The reader is tolerant: a line it cannot parse is
skipped. Reading back what was written goes in two stages, one line (`trim` leaves the text of an
object alone, and the parser gives the object back) and then the split into lines (a rendered value
has no newline).
-/

namespace Telepty.Infra

open Json

/-! ## Reading -/

/-- The characters `String.prototype.trim` removes: white space and line ends. -/
def isSpace (c : Char) : Bool :=
  let n := c.toNat
  (0x09 ≤ n && n ≤ 0x0D) || (0x2000 ≤ n && n ≤ 0x200A) ||
    [0x20, 0xA0, 0x1680, 0x2028, 0x2029, 0x202F, 0x205F, 0x3000, 0xFEFF].contains n

def trim (t : Text) : Text := (t.dropWhile isSpace).rdropWhile isSpace

/-- One line, `none` where it is empty or no JSON. -/
def parseLine (line : Text) : Option Json := if trim line = [] then none else parse (trim line)

def parseLines (t : Text) : List Json := (t.splitOn '\n').filterMap parseLine

/-- The values of the lines of a file that parse. -/
def readJsonl (b : Bytes) : List Json := parseLines (decodeText b)

/-! ## Writing -/

/-- `JSON.stringify(j) + '\n'` -/
def lineText (j : Json) : Text := j.stringify ++ ['\n']

def linesText (js : List Json) : Text := js.flatMap lineText

/-- The bytes of the file that holds the values `js`. -/
def jsonlBytes (js : List Json) : Bytes := encodeText (linesText js)

theorem jsonlBytes_append (js js' : List Json) :
    jsonlBytes (js ++ js') = jsonlBytes js ++ jsonlBytes js' := by
  rw [jsonlBytes, linesText, List.flatMap_append, encodeText_append]
  rfl

/-! ## One line -/

theorem stringifyMembers_concat (ms : List (Text × Json)) :
    ∃ body, stringifyMembers ms = body ++ ['}'] := by
  induction ms with
  | nil => exact ⟨[], rfl⟩
  | cons e ms ih =>
    obtain ⟨k, v⟩ := e
    obtain ⟨body, hb⟩ := ih
    exact ⟨',' :: quote k ++ ':' :: stringify v ++ body, by rw [stringifyMembers, hb]; simp⟩

/-- The text of an object begins and ends with its braces. -/
theorem stringify_obj (ms : List (Text × Json)) :
    ∃ body, (Json.obj ms).stringify = '{' :: (body ++ ['}']) := by
  cases ms with
  | nil => exact ⟨[], rfl⟩
  | cons e ms =>
    obtain ⟨k, v⟩ := e
    obtain ⟨body, hb⟩ := stringifyMembers_concat ms
    exact ⟨quote k ++ ':' :: stringify v ++ body, by rw [stringify, hb]; simp⟩

theorem trim_braces (body : Text) : trim ('{' :: (body ++ ['}'])) = '{' :: (body ++ ['}']) := by
  rw [trim, List.dropWhile_cons_of_neg (by decide), ← List.cons_append,
    List.rdropWhile_concat_neg _ _ _ (by decide)]

theorem parseLine_stringify {j : Json} (h : j.isObject) : parseLine j.stringify = some j := by
  cases j with
  | obj ms =>
    obtain ⟨body, hb⟩ := stringify_obj ms
    have ht : trim (Json.obj ms).stringify = (Json.obj ms).stringify := by rw [hb, trim_braces]
    rw [parseLine, ht, if_neg (by rw [hb]; exact List.cons_ne_nil _ _), parse_stringify]
  | _ => cases h

/-! ## Reading back -/

theorem newline_not_mem_stringify (j : Json) : '\n' ∉ j.stringify := fun h =>
  absurd (le_of_mem_stringify j h) (by decide)

theorem splitOn_lineText (j : Json) (t : Text) :
    (lineText j ++ t).splitOn '\n' = j.stringify :: t.splitOn '\n' := by
  rw [lineText, List.append_assoc]
  exact List.splitOn_append_cons_self_of_not_mem (newline_not_mem_stringify j) t

theorem parseLines_linesText {js : List Json} (h : ∀ j ∈ js, j.isObject) (t : Text) :
    parseLines (linesText js ++ t) = js ++ parseLines t := by
  induction js with
  | nil => rfl
  | cons j js ih =>
    have ih := ih fun x hx => h x (List.mem_cons_of_mem _ hx)
    rw [linesText, List.flatMap_cons, List.append_assoc, parseLines, splitOn_lineText,
      List.filterMap_cons, parseLine_stringify (h j List.mem_cons_self), List.cons_append]
    exact congrArg (j :: ·) ih

theorem decodeText_append (t : Text) (b : Bytes) :
    decodeText (encodeText t ++ b) = t ++ decodeText b := by
  induction t with
  | nil => rfl
  | cons c t ih =>
    rw [encodeText, List.flatMap_cons, List.append_assoc, decodeText, decodeFrom_encodeChar]
    exact congrArg (c :: ·) ih

/-- What stands after whole lines is read as if it stood alone. -/
theorem readJsonl_append {js : List Json} (h : ∀ j ∈ js, j.isObject) (tail : Bytes) :
    readJsonl (jsonlBytes js ++ tail) = js ++ readJsonl tail := by
  rw [readJsonl, jsonlBytes, decodeText_append, parseLines_linesText h]
  rfl

@[simp] theorem readJsonl_nil : readJsonl [] = [] := by decide

/-- **Objects written a line each are read back.** -/
theorem readJsonl_jsonlBytes {js : List Json} (h : ∀ j ∈ js, j.isObject) :
    readJsonl (jsonlBytes js) = js := by
  have := readJsonl_append h []
  rwa [List.append_nil, readJsonl_nil, List.append_nil] at this

end Telepty.Infra
