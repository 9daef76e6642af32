import Patchbay.Text.Reader

/-!
# TOML strings and keys

A string is *basic*, in double quotes and with escapes, or *literal*, in single quotes and taken as
it stands; either may extend over several lines when its quotes are tripled.  A key is a bare word
or a string on one line, and dots join several to a path.

Line ends are a line feed, with or without a carriage return before it, and read as a line feed.
-/

namespace Patchbay.Toml

def apostrophe : Char := '\x27'

/-- Whether a character may stand in a comment, a string or a key in quotes: any but the control
characters, of which only the tabulator is one of them. -/
def isPlain (c : Char) : Bool := c = '\t' || (0x20 ≤ c.toNat && c.toNat ≠ 0x7F)

/-- Whether a character is a blank inside a line. -/
def isBlank (c : Char) : Bool := c = ' ' || c = '\t'

/-- Characters without the blanks in front. -/
def skipBlanks : List Char → List Char := List.dropWhile isBlank

def lineEnd? : List Char → Option (List Char)
  | '\n' :: rest => some rest
  | '\r' :: '\n' :: rest => some rest
  | _ => none

/-- Characters without blanks and line ends in front. -/
def skipBlankLines : List Char → List Char
  | '\r' :: '\n' :: rest => skipBlankLines rest
  | c :: rest => if isBlank c || c = '\n' then skipBlankLines rest else c :: rest
  | [] => []

/-! ## Escapes -/

/-- The character that a one-letter escape stands for. -/
def shortEscape? : Char → Option Char
  | '"' => some '"'
  | '\\' => some '\\'
  | 'b' => some '\x08'
  | 'f' => some '\x0c'
  | 'n' => some '\n'
  | 'r' => some '\r'
  | 't' => some '\t'
  | _ => none

/-- The character whose code stands in `width` hexadecimal digits. -/
def codeEscape? (width : Nat) : Reader Char := fun s =>
  let digits := s.take width
  if digits.length = width then do
    let c ← (hexNumber? digits).bind charOfCode?
    return (c, s.drop width)
  else none

/-- The character of an escape behind its backslash. -/
def escape? : Reader Char
  | 'u' :: rest => codeEscape? 4 rest
  | 'U' :: rest => codeEscape? 8 rest
  | c :: rest => (shortEscape? c).map (·, rest)
  | [] => none

/-! ## Strings -/

/-- The rest of a basic string behind its opening quote, given the characters read so far in
reverse.  The first argument bounds the number of characters still to be read, as it does below. -/
def basicRest : Nat → List Char → Reader String
  | 0, _, _ => none
  | fuel + 1, read, s =>
    match s with
    | '"' :: rest => some (String.ofList read.reverse, rest)
    | '\\' :: rest => do
      let (c, rest) ← escape? rest
      basicRest fuel (c :: read) rest
    | c :: rest => if isPlain c then basicRest fuel (c :: read) rest else none
    | [] => none

/-- The rest of a literal string behind its opening quote. -/
def literalRest : Reader String := fun s =>
  let (text, rest) := s.span fun c => isPlain c && c ≠ apostrophe
  match rest with
  | c :: rest => if c = apostrophe then some (String.ofList text, rest) else none
  | [] => none

/-- The end of a string over several lines, behind the three quotes that close it: up to two more
quotes before them belong to the text. -/
def closeTripled (quote : Char) (read : List Char) (s : List Char) : String × List Char :=
  let extra := (s.takeWhile (· = quote)).take 2
  (String.ofList (read.reverse ++ extra), s.drop extra.length)

/-- The rest of a basic string over several lines.  A backslash at the end of a line joins the lines
and drops the blanks that follow. -/
def basicLinesRest : Nat → List Char → Reader String
  | 0, _, _ => none
  | fuel + 1, read, s =>
    match s with
    | '"' :: '"' :: '"' :: rest => some (closeTripled '"' read rest)
    | '\\' :: rest =>
      match lineEnd? (skipBlanks rest) with
      | some rest => basicLinesRest fuel read (skipBlankLines rest)
      | none => do
        let (c, rest) ← escape? rest
        basicLinesRest fuel (c :: read) rest
    | '\r' :: '\n' :: rest => basicLinesRest fuel ('\n' :: read) rest
    | c :: rest =>
      if isPlain c || c = '\n' then basicLinesRest fuel (c :: read) rest else none
    | [] => none

/-- The rest of a literal string over several lines. -/
def literalLinesRest : List Char → Reader String
  | _, [] => none
  | read, '\r' :: '\n' :: rest => literalLinesRest ('\n' :: read) rest
  | read, c :: rest =>
    if c = apostrophe ∧ rest.take 2 = [apostrophe, apostrophe] then
      some (closeTripled apostrophe read (rest.drop 2))
    else if isPlain c || c = '\n' then literalLinesRest (c :: read) rest
    else none

/-- The characters behind an opening that may be followed by a line end. -/
def skipLineEnd (s : List Char) : List Char := (lineEnd? s).getD s

/-- A string of any of the four kinds. -/
def string? : Reader String
  | '"' :: '"' :: '"' :: rest => basicLinesRest (rest.length + 1) [] (skipLineEnd rest)
  | '"' :: rest => basicRest (rest.length + 1) [] rest
  | c :: rest =>
    if c = apostrophe then
      if rest.take 2 = [apostrophe, apostrophe] then
        literalLinesRest [] (skipLineEnd (rest.drop 2))
      else literalRest rest
    else none
  | [] => none

/-! ## Keys -/

/-- Whether a character may stand in a bare key. -/
def isBare (c : Char) : Bool := c.isAlphanum || c = '-' || c = '_'

def keyPart? : Reader String
  | '"' :: rest => basicRest (rest.length + 1) [] rest
  | c :: rest =>
    if c = apostrophe then literalRest rest
    else if isBare c then
      let (word, rest) := rest.span isBare
      some (String.ofList (c :: word), rest)
    else none
  | [] => none

/-- The parts of a key, joined by dots, with blanks around each. -/
def keyParts? : Nat → Reader (List String)
  | 0, _ => none
  | fuel + 1, s => do
    let (part, rest) ← keyPart? (skipBlanks s)
    match skipBlanks rest with
    | '.' :: rest =>
      let (parts, rest) ← keyParts? fuel rest
      return (part :: parts, rest)
    | rest => return ([part], rest)

/-- How deep keys and values may nest. -/
def depthLimit : Nat := 80

/-- A key as the path to it and its last part. -/
def key? : Reader (List String × String) := fun s => do
  let (parts, rest) ← keyParts? (s.length + 1) s
  let last ← parts.getLast?
  if parts.length < depthLimit then return ((parts.dropLast, last), rest) else none

end Patchbay.Toml
