import Patchbay.Toml.Number
import Patchbay.Toml.Text

/-!
# TOML documents

A document is read line by line.  A line gives a key of the current table its value, or opens the
next table with a header, or is blank; any line may end in a comment.

* `Toml.value?`: a value.
* `Toml.Builder`: the tables read so far, the current one apart.
* `Toml.parse?`: the fields of a whole document.
-/

namespace Patchbay.Toml

/-! ## Values -/

/-- Characters without blanks, line ends and comments in front.  The first argument says whether a
comment is being read; a comment that is not ended properly is left standing. -/
def skipTrivia : Bool → List Char → List Char
  | _, [] => []
  | _, '\r' :: '\n' :: rest => skipTrivia false rest
  | false, c :: rest =>
    if isBlank c || c = '\n' then skipTrivia false rest
    else if c = '#' then skipTrivia true rest
    else c :: rest
  | true, c :: rest =>
    if c = '\n' then skipTrivia false rest
    else if isPlain c then skipTrivia true rest
    else c :: rest

/-- The rest of an array behind its bracket or behind a comma. -/
def arrayRest (item : Reader Value) : Nat → Reader (List Value)
  | 0, _ => none
  | fuel + 1, s =>
    match skipTrivia false s with
    | ']' :: rest => some ([], rest)
    | s => do
      let (value, rest) ← item s
      match skipTrivia false rest with
      | ',' :: rest =>
        let (values, rest) ← arrayRest item fuel rest
        return (value :: values, rest)
      | ']' :: rest => return ([value], rest)
      | _ => none

/-- A key, the sign of equality and a value. -/
def pair? (item : Reader Value) : Reader ((List String × String) × Value) := fun s => do
  let (key, rest) ← key? s
  match rest with
  | '=' :: rest =>
    let (value, rest) ← item (skipBlanks rest)
    return ((key, value), rest)
  | _ => none

/-- The rest of a table in braces from its first key or from a comma on, given the fields so far. -/
def bracesRest (item : Reader Value) : Nat → Fields → Reader Fields
  | 0, _, _ => none
  | fuel + 1, fields, s => do
    let (((path, key), value), rest) ← pair? item s
    let fields ← assign path key value fields
    match skipBlanks rest with
    | ',' :: rest => bracesRest item fuel fields rest
    | '\x7d' :: rest => return (fields, rest)
    | _ => none

/-- A value, in which arrays and tables nest at most as deep as the first argument says. -/
def value? : Nat → Reader Value
  | depth, s =>
    match s with
    | 't' :: 'r' :: 'u' :: 'e' :: rest => some (.boolean true, rest)
    | 'f' :: 'a' :: 'l' :: 's' :: 'e' :: rest => some (.boolean false, rest)
    | '[' :: rest =>
      match depth with
      | 0 => none
      | depth + 1 => do
        let (items, rest) ← arrayRest (value? depth) (rest.length + 1) rest
        return (.array items, rest)
    | '\x7b' :: rest =>
      match depth with
      | 0 => none
      | depth + 1 =>
        match skipBlanks rest with
        | '\x7d' :: rest => some (.table .braces [], rest)
        | _ => do
          let (fields, rest) ← bracesRest (value? depth) (rest.length + 1) [] rest
          return (.table .braces fields, rest)
    | c :: _ =>
      if c = '"' ∨ c = apostrophe then
        (string? s).map fun (text, rest) => (.string text, rest)
      else dateTime? s <|> number? s
    | [] => none

/-! ## Tables -/

/-- The tables read so far.  The current table is kept apart until the next header. -/
structure Builder where
  root : Fields
  /-- The name of the current table: nothing for the document itself, and otherwise whether its
  header is in double brackets, the path, and the last part of the name. -/
  header : Option (Bool × List String × String)
  current : Fields

namespace Builder

def empty : Builder := ⟨[], none, []⟩

/-- Puts the current table in its place. -/
def close (b : Builder) : Option Fields :=
  match b.header with
  | none => some b.current
  | some (isElement, path, key) =>
    let act (_ : Origin) (fields : Fields) : Option (Fields × Unit) :=
      match isElement, fields.lookup key with
      | true, some (.tables elements) =>
        some (replaceField key (.tables (elements ++ [b.current])) fields, ())
      | false, none => some (fields ++ [(key, .table .header b.current)], ())
      | _, _ => none
    (descend false act path .header b.root).map (·.1)

/-- Opens the table of a header in single brackets.  A table that was only implied so far is taken
up with the fields it has. -/
def openTable (b : Builder) (path : List String) (key : String) : Option Builder := do
  let root ← b.close
  let act (_ : Origin) (fields : Fields) : Option (Fields × Fields) :=
    match fields.lookup key with
    | none => some (fields, [])
    | some (.table .implied inner) => some (eraseField key fields, inner)
    | some _ => none
  let (root, current) ← descend false act path .header root
  return ⟨root, some (false, path, key), current⟩

/-- Opens the next table of a header in double brackets. -/
def openElement (b : Builder) (path : List String) (key : String) : Option Builder := do
  let root ← b.close
  let act (_ : Origin) (fields : Fields) : Option (Fields × Unit) :=
    match fields.lookup key with
    | none => some (fields ++ [(key, .tables [])], ())
    | some (.tables _) => some (fields, ())
    | some _ => none
  let (root, _) ← descend false act path .header root
  return ⟨root, some (true, path, key), []⟩

/-- Gives a key of the current table its value. -/
def assign (b : Builder) (path : List String) (key : String) (value : Value) : Option Builder :=
  (Toml.assign path key value b.current).map fun current => { b with current := current }

end Builder

/-! ## Lines -/

/-- What follows the end of a line, with a comment or without.  The end of the document ends a line
as well. -/
def restOfLine? (s : List Char) : Option (List Char) :=
  let s := skipBlanks s
  let s :=
    match s with
    | '#' :: rest => rest.dropWhile isPlain
    | _ => s
  if s = [] then some [] else lineEnd? s

/-- What a header in brackets does to the tables, and what follows its line. -/
def header? (b : Builder) : Reader Builder
  | '[' :: '[' :: rest => do
    let ((path, key), rest) ← key? rest
    match rest with
    | ']' :: ']' :: rest => return (← b.openElement path key, ← restOfLine? rest)
    | _ => none
  | '[' :: rest => do
    let ((path, key), rest) ← key? rest
    match rest with
    | ']' :: rest => return (← b.openTable path key, ← restOfLine? rest)
    | _ => none
  | _ => none

/-- What a key with its value does to the tables, and what follows its line. -/
def assignment? (b : Builder) : Reader Builder := fun s => do
  let (((path, key), value), rest) ← pair? (value? (depthLimit - 1)) s
  return (← b.assign path key value, ← restOfLine? rest)

/-- Reads the lines that are left. -/
def lines? : Nat → Builder → List Char → Option Builder
  | 0, _, _ => none
  | fuel + 1, b, s =>
    match skipBlanks s with
    | [] => some b
    | '[' :: rest => do
      let (b, rest) ← header? b ('[' :: rest)
      lines? fuel b rest
    | c :: rest =>
      if c = '#' ∨ c = '\n' ∨ c = '\r' then do
        let rest ← restOfLine? (c :: rest)
        lines? fuel b rest
      else do
        let (b, rest) ← assignment? b (c :: rest)
        lines? fuel b rest

/-- The characters of a text without the byte order mark. -/
def skipMark : List Char → List Char
  | '\uFEFF' :: rest => rest
  | s => s

/-- **The fields of a document**, or nothing if the text is none. -/
def parse? (text : String) : Option Fields :=
  let s := skipMark text.toList
  (lines? (s.length + 1) .empty s).bind Builder.close

end Patchbay.Toml
