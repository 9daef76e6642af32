import Patchbay.Proofs.Guarded

/-!
# Catalogs and graphs that can come about

Statements about "every graph" are about the graphs that the operations of the library can lead to:
a catalog is filled by registering definitions, a graph is opened on it, and edits are applied to
the graph.  This file makes runs of these operations data.

* `Catalog.Filling`, `Catalog.fillAll` — a run of registrations, refused ones changing nothing.
* `Graph.Reachable` — **the graphs that can come about**, from any catalog and by any edits.
* `Graph.applyAll_induction` — what every successful edit keeps, every run of edits keeps.
-/

namespace Patchbay

/-! ## Filling a catalog -/

namespace Catalog

/-- A call that fills a catalog. -/
inductive Filling where
  | register (definition : Definition)
  | registerAll (definitions : List Definition)
  deriving DecidableEq, Repr

/-- The catalog that a call leaves behind. -/
def fill (c : Catalog) : Filling → Catalog
  | .register d => ((registering d).perform c).2
  | .registerAll ds => (c.registerAll ds).1

def fillAll (c : Catalog) (fillings : List Filling) : Catalog := fillings.foldl fill c

/-- A catalog that calls can lead to, from the empty one or from the one with the stereo sink. -/
def Reachable (c : Catalog) : Prop :=
  ∃ start fillings, (start = empty ∨ start = withSink) ∧ c = start.fillAll fillings

/-- **A definition is checked before it is put in**, so that refusing it changes nothing. -/
lemma perform_registering (c : Catalog) (d : Definition) : (registering d).perform c =
    match c.register d with
    | .ok c' => (.ok (), c')
    | .error e => (.error e, c) := by
  rw [registering, register, Call.perform_check_bind]
  cases d.validate <;> rfl

lemma fill_register (c : Catalog) (d : Definition) :
    c.fill (.register d) = (c.register d).toOption.getD c := by
  rw [fill, perform_registering]
  cases c.register d <;> rfl

lemma registerAll_cons (c : Catalog) (d : Definition) (ds : List Definition) :
    c.registerAll (d :: ds) =
      match c.register d with
      | .ok c' => c'.registerAll ds
      | .error e => (c, .error e) := by
  rw [registerAll, perform_registering]
  cases c.register d <;> rfl

/-- What registering one flawless definition keeps, registering a list keeps. -/
lemma registerAll_induction {P : Catalog → Prop}
    (step : ∀ (c : Catalog) (d : Definition), P c → d.flaw? = none → P (c.insert d)) :
    ∀ (ds : List Definition) (c : Catalog), P c → P (c.registerAll ds).1
  | [], _, hc => hc
  | d :: ds, c, hc => by
      rw [registerAll_cons]
      cases hd : c.register d with
      | error e => exact hc
      | ok c' =>
          obtain ⟨hflaw, rfl⟩ := register_eq_ok_iff.mp hd
          exact registerAll_induction step ds _ (step c d hc hflaw)

/-- **Induction over the catalogs that can come about.**  What holds of the two initial ones and is
kept by putting in a flawless definition holds of all of them. -/
theorem Reachable.induction {P : Catalog → Prop} (hempty : P empty) (hsink : P withSink)
    (step : ∀ (c : Catalog) (d : Definition), P c → d.flaw? = none → P (c.insert d))
    {c : Catalog} (hc : c.Reachable) : P c := by
  obtain ⟨start, fillings, hstart, rfl⟩ := hc
  have h0 : P start := by
    rcases hstart with rfl | rfl
    · exact hempty
    · exact hsink
  clear hstart
  induction fillings generalizing start with
  | nil => exact h0
  | cons f fillings ih =>
      refine ih (start.fill f) ?_
      cases f with
      | registerAll ds => exact registerAll_induction step ds start h0
      | register d =>
          rw [fill_register]
          cases hd : start.register d with
          | error e => exact h0
          | ok c' =>
              obtain ⟨hflaw, rfl⟩ := register_eq_ok_iff.mp hd
              exact step start d h0 hflaw

end Catalog

namespace Graph

variable {g : Graph}

/-! ## Runs of edits -/

/-- **Induction over runs of edits.**  What every successful edit keeps, every run keeps, whatever
edits of it are refused. -/
theorem applyAll_induction {P : Graph → Prop}
    (step : ∀ (g : Graph) (e : Edit) (h : Graph), P g → g.apply e = .ok h → P h) {g : Graph}
    (hg : P g) (edits : List Edit) : P (g.applyAll edits) := by
  rw [applyAll]
  induction edits generalizing g with
  | nil => exact hg
  | cons e edits ih =>
      rw [List.foldl_cons]
      refine ih ?_
      cases he : g.apply e with
      | error _ =>
          rw [next_of_error he]
          exact hg
      | ok h =>
          rw [next_of_ok he]
          exact step g e h hg he

/-- **A graph that can come about**: it is opened on a catalog that can come about, and a run of
edits leads to it. -/
def Reachable (g : Graph) : Prop :=
  ∃ c g₀ edits, Catalog.Reachable c ∧ Graph.new c = .ok g₀ ∧ g = g₀.applyAll edits

/-- Edits lead from a graph that can come about to another one. -/
lemma Reachable.applyAll (hg : g.Reachable) (edits : List Edit) : (g.applyAll edits).Reachable := by
  obtain ⟨c, g₀, earlier, hc, hnew, rfl⟩ := hg
  exact ⟨c, g₀, earlier ++ edits, hc, hnew, List.foldl_append.symm⟩

/-! ## A patch that can come about

An oscillator is panned and then scaled by a second oscillator.  The pan runs before the second
oscillator and its consumer after it, so that the patch needs every kind of statement. -/

def demoSawtooth : Definition :=
  { name := "Oscillator/Sawtooth", inChannels := 0, outChannels := 1, paramNames := ["freq"],
    workspaceSize := 1, code := "l=v[i+1]=(v[i+1]+v[i])%1;i+=2;" }

def demoPan : Definition :=
  { name := "Pan", inChannels := 1, outChannels := 2, paramNames := ["pos"],
    code := "p=v[i++];r=l*p;l=l*(1-p);" }

def demoMul : Definition :=
  { name := "Mul", inChannels := 2, outChannels := 2, paramNames := ["gain"],
    code := "g=v[i++];l*=g;r*=g;" }

/-- A catalog with an oscillator, a pan and a stereo amplifier.  The last definition is refused. -/
def demoFillings : List Catalog.Filling :=
  [.registerAll [demoSawtooth, demoPan, demoMul],
   .register { name := "Surround", inChannels := 1, outChannels := 6 }]

/-- The edits, two of which are refused and one of which takes another back. -/
def demoEdits : List Edit :=
  [.add "Oscillator/Sawtooth", .add "Pan", .add "Oscillator/Sawtooth", .add "Mul", .add "Surround",
   .connect ⟨1⟩ ⟨2⟩, .connect ⟨2⟩ ⟨4⟩, .connect ⟨4⟩ .sink, .connectParam ⟨3⟩ ⟨4⟩ "gain",
   .connect ⟨3⟩ ⟨2⟩, .add "Pan", .connect ⟨1⟩ ⟨5⟩, .remove ⟨5⟩]

def demoStart : Graph :=
  ⟨"", Catalog.withSink.fillAll demoFillings,
    #[some ((Module.instantiate .sink .sink).setName sinkDisplayName)]⟩

def demo : Graph := demoStart.applyAll demoEdits

lemma new_demo : Graph.new (Catalog.withSink.fillAll demoFillings) = .ok demoStart := by
  rfl

lemma demo_definitions : demo.arena.map (Option.map (·.definition)) =
    #[some .sink, some demoSawtooth, some demoPan, some demoSawtooth, some demoMul, none] := by
  decide +kernel

theorem demo_reachable : demo.Reachable :=
  ⟨_, demoStart, demoEdits, ⟨.withSink, demoFillings, Or.inr rfl, rfl⟩, new_demo, rfl⟩

end Graph

end Patchbay
