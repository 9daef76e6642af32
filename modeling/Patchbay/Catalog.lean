import Patchbay.Call

/-!
# Catalogs

A catalog holds definitions under their names, in ascending order of the names and each name once.
It is filled before graphs are built on it: `Catalog.register` takes a definition without flaws and
replaces an earlier one of the same name.

* `Definition.validate`: refuses a definition with a flaw.
* `Catalog.register`, `Catalog.registerAll`: filling a catalog, with `Catalog.registering`, the call
  on a catalog in place.
* `Catalog.get?`, `Catalog.lookup`: the definition under a name.
-/

namespace Patchbay

/-- Passes a definition without flaws, and otherwise names the definition and its first flaw. -/
def Definition.validate (d : Definition) : Except GraphError Unit :=
  match d.flaw? with
  | some flaw => .error (.invalidDefinition d.name flaw)
  | none => .ok ()

/-- Definitions in ascending order of their names. -/
structure Catalog where
  definitions : List Definition
  deriving DecidableEq, Repr, Inhabited

namespace Catalog

def empty : Catalog := ⟨[]⟩

/-- The catalog that holds the stereo sink and nothing else. -/
def withSink : Catalog := ⟨[Definition.sink]⟩

def size (c : Catalog) : Nat := c.definitions.length

def names (c : Catalog) : List String := c.definitions.map (·.name)

/-- The definition of a name, if there is one. -/
def get? (c : Catalog) (name : String) : Option Definition :=
  c.definitions.find? (·.name = name)

/-- Whether there is a definition of a name. -/
def contains (c : Catalog) (name : String) : Bool := (c.get? name).isSome

/-- The definition of a name, which has to be there. -/
def lookup (c : Catalog) (name : String) : Except GraphError Definition :=
  match c.get? name with
  | some d => .ok d
  | none => .error (.notFound name)

/-- An ordered list of definitions with one more in its place, or in the place of its namesake. -/
def insertSorted (d : Definition) : List Definition → List Definition
  | [] => [d]
  | e :: es =>
    if d.name < e.name then d :: e :: es
    else if d.name = e.name then d :: es
    else e :: insertSorted d es

/-- The catalog with a definition put in, whatever it is. -/
def insert (c : Catalog) (d : Definition) : Catalog := ⟨insertSorted d c.definitions⟩

/-- Putting in a definition changes what is found under its own name and under no other. -/
theorem get?_insert (c : Catalog) (d : Definition) (name : String) :
    (c.insert d).get? name = if d.name = name then some d else c.get? name := by
  obtain ⟨ds⟩ := c
  simp only [insert, get?]
  induction ds with
  | nil => by_cases h : d.name = name <;> simp [insertSorted, h]
  | cons e es ih =>
    rw [insertSorted]
    split
    · by_cases h : d.name = name <;> simp [h]
    · split
      · rename_i same
        by_cases h : d.name = name
        · simp [h]
        · have he : e.name ≠ name := fun he => h (same.trans he)
          simp [h, he]
      · rename_i other
        by_cases he : e.name = name
        · have h : d.name ≠ name := fun h => other (h.trans he.symm)
          simp [h, he]
        · simp only [List.find?_cons, he, decide_false]
          exact ih

/-- The catalog with a definition put in, if it has no flaw. -/
def register (c : Catalog) (d : Definition) : Except GraphError Catalog := do
  d.validate
  return c.insert d

/-- Registering as a call: the definition is checked, and then it is put in. -/
def registering (d : Definition) : Call Catalog GraphError Unit := do
  Call.check d.validate
  let c ← get
  set (c.insert d)

/-- Registers definitions one after the other up to the first with a flaw.  Those before it stay
registered. -/
def registerAll (c : Catalog) : List Definition → Catalog × Except GraphError Unit
  | [] => (c, .ok ())
  | d :: ds =>
    match (registering d).perform c with
    | (.ok (), c) => c.registerAll ds
    | (.error e, c) => (c, .error e)

/-- The definitions of a list that registering it takes: those before the first with a flaw. -/
def accepted (ds : List Definition) : List Definition := ds.takeWhile (·.flaw?.isNone)

end Catalog

end Patchbay
