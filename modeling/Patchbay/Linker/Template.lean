/-!
# Templates

A template is a text with two markers in it, each of which is replaced by a text of its own.  Both
are looked for in the template before anything is put in, so a text put in is never searched.

* `occurrence?`: where a marker occurs first.
* `Span.overlaps`: whether two occurrences share a character.
* `splice`: a text with two spans replaced.
-/

namespace Patchbay

/-- The place of the first occurrence of a marker, which is not empty, in a text. -/
def occurrence? (marker : List Char) : List Char → Option Nat
  | [] => none
  | c :: text =>
    if marker.isPrefixOf (c :: text) then some 0 else (occurrence? marker text).map (· + 1)

/-- A span of characters of a text. -/
structure Span where
  start : Nat
  stop : Nat
  deriving DecidableEq, Repr

/-- Whether two spans share a character, for spans that are not empty. -/
def Span.overlaps (a b : Span) : Bool := a.start < b.stop && b.start < a.stop

/-- The span of the first occurrence of a marker.  An empty marker occurs nowhere. -/
def locate? (template marker : List Char) : Option Span :=
  if marker = [] then none
  else (occurrence? marker template).map fun start => ⟨start, start + marker.length⟩

/-- A text with two spans replaced, the first of which ends before the second starts. -/
def splice (template : List Char) (first : Span) (firstText : List Char) (second : Span)
    (secondText : List Char) : List Char :=
  template.take first.start ++ firstText ++
    (template.drop first.stop).take (second.start - first.stop) ++ secondText ++
    template.drop second.stop

end Patchbay
