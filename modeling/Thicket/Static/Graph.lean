import Thicket.Static.Imports
import Thicket.Stop
import Thicket.Table
/-!
# The import graph

The graph leads from a module to the modules that import it.  A cycle in it is a cycle of imports, walked backwards.

The search for a cycle goes depth first.  A module is on the path, done, or not met yet; done means that no cycle can be
reached from it.  Each module is put on the path once and taken off once, which is why the search ends.
-/
namespace Thicket

/-- For each module, in the order of the program, the modules that import it. -/
structure Graph where
  edges : Table (List String)

namespace Graph

def nodes (g : Graph) : List String := Table.names g.edges

def importersOf (g : Graph) (name : String) : List String := (Table.get? g.edges name).getD []

/-- The modules without their imports. -/
def discrete (modules : List Module) : Graph :=
  ⟨Table.ofPairs (modules.map fun m => (m.name, []))⟩

def addEdge (g : Graph) (importer imported : String) : Except Fault Graph :=
  match Table.get? g.edges imported with
  | none => .error (.unresolvedImport importer imported)
  | some importers => .ok ⟨Table.insert g.edges imported (addName importers importer)⟩

def addImports (importer : String) : List String → Graph → Except Fault Graph
  | [], g => .ok g
  | imported :: rest, g =>
    match g.addEdge importer imported with
    | .ok g => addImports importer rest g
    | .error e => .error e

def addModules : List Module → Graph → Except Fault Graph
  | [], g => .ok g
  | m :: rest, g =>
    match addImports m.name (collectImports m.body) g with
    | .ok g => addModules rest g
    | .error e => .error e

/-- The graph of a program.  The first import of a module that is not there is an error. -/
def build (modules : List Module) : Except Fault Graph := addModules modules (discrete modules)

/-- How a search ends. -/
inductive Search where
  | found (cycle : List String)
  | clear (done : List String)

/-- The importers that a search has not met: neither on its path nor done. -/
def unmet (g : Graph) (path done : List String) : List String :=
  (g.edges.flatMap Prod.snd).filter fun t => decide (t ∉ path ∧ t ∉ done)

theorem mem_flatMap_of_mem_importersOf (g : Graph) {name t : String} (h : t ∈ g.importersOf name) :
    t ∈ g.edges.flatMap Prod.snd := by
  unfold importersOf at h
  cases hg : Table.get? g.edges name with
  | none => simp [hg] at h
  | some importers =>
    rw [hg] at h
    exact List.mem_flatMap.2 ⟨(name, importers), Table.mem_of_get? hg, h⟩

/-- Meeting an importer leaves fewer to meet. -/
theorem unmet_lt (g : Graph) {path done : List String} {name t : String} (ht : t ∈ g.importersOf name)
    (hpath : t ∉ path) (hdone : t ∉ done) : (g.unmet (t :: path) done).length < (g.unmet path done).length := by
  have hsub : g.unmet (t :: path) done = (g.unmet path done).filter fun a => decide (a ≠ t) := by
    unfold unmet
    rw [List.filter_filter]
    apply List.filter_congr
    intro a _
    by_cases ha : a = t <;> simp [ha]
  have hmem : t ∈ g.unmet path done :=
    List.mem_filter.2 ⟨g.mem_flatMap_of_mem_importersOf ht, by simp [hpath, hdone]⟩
  rw [hsub]
  exact List.length_filter_lt_length_iff_exists.2 ⟨t, hmem, by simp⟩

/-- Taking the end of the path off it, as done, leaves as many. -/
theorem unmet_back (g : Graph) (top : String) (below done : List String) :
    g.unmet below (top :: done) = g.unmet (top :: below) done := by
  unfold unmet
  apply List.filter_congr
  intro a _
  by_cases ha : a = top <;> simp [ha]

/-- Goes on with the search from the end of a path, to its own end.  The path is written from its end; a step back to a
module on it closes a cycle, which is read off in the direction of the imports. -/
def search (g : Graph) (path done : List String) : Search :=
  match path with
  | [] => .clear done
  | top :: below =>
    match _hback : (g.importersOf top).find? fun t => decide (t ∈ top :: below) with
    | some t => .found ((top :: below).takeWhile (fun a => decide (a ≠ t)) ++ [t])
    | none =>
      match _hnext : (g.importersOf top).find? fun t => decide (t ∉ done) with
      | some t => g.search (t :: top :: below) done
      | none => g.search below (top :: done)
termination_by 2 * (g.unmet path done).length + path.length
decreasing_by
  · have ht := List.mem_of_find?_eq_some _hnext
    have hpath : t ∉ top :: below := by simpa using List.find?_eq_none.1 _hback t ht
    have hlt := g.unmet_lt ht hpath (by simpa using List.find?_some _hnext)
    simp only [List.length_cons]
    omega
  · rw [unmet_back]
    simp

/-- Searches from each of the given modules that is not done. -/
def searchFrom (g : Graph) : List String → List String → Search
  | [], done => .clear done
  | start :: rest, done =>
    if start ∈ done then g.searchFrom rest done
    else
      match g.search [start] done with
      | .found cycle => .found cycle
      | .clear done => g.searchFrom rest done

/-- A cycle of imports, each module importing the next and the last one the first. -/
def cycle? (g : Graph) : Option (List String) :=
  match g.searchFrom g.nodes [] with
  | .found cycle => some cycle
  | .clear _ => none

end Graph

/-- A cycle of imports among the modules, if there is one. -/
def findCycle (modules : List Module) : Except Fault (Option (List String)) :=
  match Graph.build modules with
  | .ok g => .ok g.cycle?
  | .error e => .error e

end Thicket
