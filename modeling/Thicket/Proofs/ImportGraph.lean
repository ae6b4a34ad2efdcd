import Mathlib.Data.List.Nodup
import Thicket.Proofs.Cycle
/-!
# The import graph and the check for missing imports

The check for missing imports and the construction of the graph go through the same imports, each with a loop of its
own.  The check lists every import that names no module.  The construction enters each import on the side of the module
that is imported, and gives up at the first that names no module.

Both agree.  The graph cannot be built exactly if the check lists anything, and then it says the first entry of that
list (`build_of_missing`).  Otherwise the graph has the names of the modules, and of each name those that import from
it, all of them in the order in which they are first met, also where modules share a name (`build_agrees_with_check`).
-/
namespace Thicket

/-! ## Names in the order in which they are first met -/

/-- Among the modules that fit, one of the first name stands before all of the second. -/
def Precedes (modules : List Module) (fits : Module → Prop) (a b : String) : Prop :=
  ∃ before m after, modules = before ++ m :: after ∧ m.name = a ∧ fits m ∧ ∀ m' ∈ before, fits m' → m'.name ≠ b

/-- The names of the modules that fit, each once, in the order of the first module of the name that does. -/
structure FirstMet (modules : List Module) (fits : Module → Prop) (names : List String) : Prop where
  nodup : names.Nodup
  mem_iff : ∀ name, name ∈ names ↔ ∃ m ∈ modules, m.name = name ∧ fits m
  order : names.Pairwise (Precedes modules fits)

section

variable {modules : List Module} {fits : Module → Prop} {names names' : List String} {a b : String} {m : Module}

theorem Precedes.concat (h : Precedes modules fits a b) (m : Module) : Precedes (modules ++ [m]) fits a b := by
  obtain ⟨before, m', after, rfl, hname, hfits, hbefore⟩ := h
  exact ⟨before, m', after ++ [m], by simp, hname, hfits, hbefore⟩

/-- Of two places in one list, one stands before the other, unless they are the same. -/
theorem same_or_before {before after before' after' : List Module} {m m' : Module}
    (h : before ++ m :: after = before' ++ m' :: after') : m = m' ∨ m ∈ before' ∨ m' ∈ before := by
  rcases List.append_eq_append_iff.1 h with ⟨between, rfl, hsplit⟩ | ⟨between, rfl, hsplit⟩ <;>
    cases between <;> simp_all

theorem Precedes.eq_of_precedes (h : Precedes modules fits a b) (h' : Precedes modules fits b a) : a = b := by
  obtain ⟨before, m, after, rfl, rfl, hfits, hbefore⟩ := h
  obtain ⟨before', m', after', heq, rfl, hfits', hbefore'⟩ := h'
  rcases same_or_before heq with rfl | hmem | hmem
  · rfl
  · exact absurd rfl (hbefore' m hmem hfits)
  · exact absurd rfl (hbefore m' hmem hfits')

namespace FirstMet

theorem nil (fits : Module → Prop) : FirstMet [] fits [] := ⟨List.nodup_nil, by simp, .nil⟩

/-- There is one such list of names. -/
theorem unique (h : FirstMet modules fits names) (h' : FirstMet modules fits names') : names = names' := by
  have hperm := (List.perm_ext_iff_of_nodup h.nodup h'.nodup).2 fun name =>
    (h.mem_iff name).trans (h'.mem_iff name).symm
  exact hperm.eq_of_pairwise (fun _ _ _ _ => Precedes.eq_of_precedes) h.order h'.order

/-- A further module that does not fit changes nothing. -/
theorem skip (h : FirstMet modules fits names) (hm : ¬ fits m) : FirstMet (modules ++ [m]) fits names where
  nodup := h.nodup
  mem_iff name := by
    rw [h.mem_iff]
    constructor
    · rintro ⟨m', hm', hfits⟩
      exact ⟨m', List.mem_append_left _ hm', hfits⟩
    · rintro ⟨m', hm', hname, hfits⟩
      rcases List.mem_append.1 hm' with hm' | hm'
      · exact ⟨m', hm', hname, hfits⟩
      · exact absurd (List.mem_singleton.1 hm' ▸ hfits) hm
  order := h.order.imp fun hab => hab.concat m

/-- The name of a further module that fits goes to the end, unless it is there. -/
theorem add (h : FirstMet modules fits names) (hm : fits m) :
    FirstMet (modules ++ [m]) fits (addName names m.name) where
  nodup := by
    unfold addName
    split
    · exact h.nodup
    · rename_i hnew
      exact List.nodup_append.2 ⟨h.nodup, List.nodup_singleton _, fun x hx y hy heq =>
        hnew (List.mem_singleton.1 hy ▸ heq ▸ hx)⟩
  mem_iff name := by
    rw [mem_addName, h.mem_iff]
    constructor
    · rintro (⟨m', hm', hfits⟩ | rfl)
      · exact ⟨m', List.mem_append_left _ hm', hfits⟩
      · exact ⟨m, by simp, rfl, hm⟩
    · rintro ⟨m', hm', hname, hfits⟩
      rcases List.mem_append.1 hm' with hm' | hm'
      · exact .inl ⟨m', hm', hname, hfits⟩
      · exact .inr (List.mem_singleton.1 hm' ▸ hname).symm
  order := by
    have hold := h.order.imp fun hab => hab.concat m
    unfold addName
    split
    · exact hold
    · rename_i hnew
      refine List.pairwise_append.2 ⟨hold, List.pairwise_singleton _ _, fun a ha b hb => ?_⟩
      rw [List.mem_singleton.1 hb]
      -- the old name has a module, and no module there has the new one
      obtain ⟨m', hm', hname, hfits⟩ := (h.mem_iff a).1 ha
      obtain ⟨before, after, rfl⟩ := List.append_of_mem hm'
      refine ⟨before, m', after ++ [m], by simp, hname, hfits, fun m₂ hm₂ hfits₂ hname₂ => hnew ?_⟩
      exact (h.mem_iff m.name).2 ⟨m₂, List.mem_append_left _ hm₂, hname₂, hfits₂⟩

end FirstMet

theorem firstMet_foldl_addName (fits : Module → Prop) [DecidablePred fits] (modules : List Module) :
    FirstMet modules fits (((modules.filter fun m => decide (fits m)).map Module.name).foldl addName []) := by
  induction modules using List.reverseRecOn with
  | nil => exact .nil fits
  | append_singleton modules m ih =>
    rw [List.filter_append, List.map_append, List.foldl_append]
    by_cases hm : fits m
    · rw [List.filter_cons_of_pos (by simpa using hm)]
      exact ih.add hm
    · rw [List.filter_cons_of_neg (by simpa using hm)]
      exact ih.skip hm

end

/-! ## The first import that cannot be entered -/

namespace Graph

/-- The imports of the modules that name no node, each with the module it stands in. -/
def unresolved (g : Graph) (modules : List Module) : List (String × String) :=
  modules.flatMap fun m => ((collectImports m.body).filter (· ∉ g.nodes)).map fun i => (m.name, i)

theorem addEdge_of_notMem (g : Graph) {importer imported : String} (h : imported ∉ g.nodes) :
    g.addEdge importer imported = .error (.unresolvedImport importer imported) := by
  have hnone : Table.get? g.edges imported = none := by
    rw [← Option.not_isSome_iff_eq_none, Table.get?_isSome_iff]
    exact h
  rw [addEdge, hnone]

theorem addImports_of_unresolved (importer : String) {i : String} : ∀ (imported : List String) (g : Graph)
    (more : List String), imported.filter (· ∉ g.nodes) = i :: more →
    addImports importer imported g = .error (.unresolvedImport importer i)
  | [], _, _, h => by cases h
  | first :: rest, g, more, h => by
    by_cases hfirst : first ∈ g.nodes
    · obtain ⟨g₁, hg₁, hnodes, -⟩ := g.addEdge_spec importer first hfirst
      rw [List.filter_cons_of_neg (by simpa using hfirst), ← hnodes] at h
      rw [addImports, hg₁]
      exact addImports_of_unresolved importer rest g₁ more h
    · rw [List.filter_cons_of_pos (by simpa using hfirst), List.cons.injEq] at h
      rw [addImports, g.addEdge_of_notMem hfirst, h.1]

theorem addModules_of_unresolved {importer imported : String} : ∀ (modules : List Module) (g : Graph)
    (more : List (String × String)), g.unresolved modules = (importer, imported) :: more →
    addModules modules g = .error (.unresolvedImport importer imported)
  | [], _, _, h => by cases h
  | m :: rest, g, more, h => by
    rw [unresolved, List.flatMap_cons] at h
    cases hown : (collectImports m.body).filter (· ∉ g.nodes) with
    | nil =>
      have hknown : ∀ i ∈ collectImports m.body, i ∈ g.nodes := by
        simpa using List.filter_eq_nil_iff.1 hown
      obtain ⟨g₁, hg₁, hnodes, -⟩ := addImports_spec m.name (collectImports m.body) g hknown
      rw [hown, List.map_nil, List.nil_append, ← hnodes] at h
      rw [addModules, hg₁]
      exact addModules_of_unresolved rest g₁ more h
    | cons i others =>
      rw [hown, List.map_cons, List.cons_append, List.cons.injEq, Prod.mk.injEq] at h
      obtain ⟨⟨rfl, rfl⟩, -⟩ := h
      rw [addModules, addImports_of_unresolved m.name _ g others hown]

/-- The nodes are there before the first import is entered, so that what cannot be entered is what is missing. -/
theorem unresolved_discrete (modules : List Module) :
    (discrete modules).unresolved modules = missingImports modules := by
  unfold unresolved missingImports
  congr 1
  funext m
  congr 1
  refine List.filter_congr fun i _ => ?_
  rw [nodes_discrete, Bool.eq_iff_iff, decide_eq_true_eq, Option.isNone_iff_eq_none, ← Option.not_isSome_iff_eq_none,
    findModule?_isSome_iff, mem_foldl_addName, List.mem_map]
  simp

/-- **Where an import is missing, the graph cannot be built**, and what is said is the first entry of the check. -/
theorem build_of_missing {modules : List Module} {importer imported : String} {more : List (String × String)}
    (h : missingImports modules = (importer, imported) :: more) :
    build modules = .error (.unresolvedImport importer imported) :=
  addModules_of_unresolved modules (discrete modules) more ((unresolved_discrete modules).trans h)

/-- **Where none is, it has the names of the modules and their importers, in the order in which they are first met.** -/
theorem build_firstMet {modules : List Module} (h : missingImports modules = []) :
    ∃ g, build modules = .ok g ∧ FirstMet modules (fun _ => True) g.nodes ∧
      ∀ n, FirstMet modules (fun m => n ∈ collectImports m.body) (g.importersOf n) := by
  obtain ⟨g, hg, hnodes, himporters⟩ := build_spec modules h
  refine ⟨g, hg, ?_, fun n => ?_⟩
  · have hall := firstMet_foldl_addName (fun _ => True) modules
    rwa [List.filter_eq_self.2 (by simp), ← hnodes] at hall
  · rw [himporters]
    exact firstMet_foldl_addName (fun m => n ∈ collectImports m.body) modules

end Graph

/-- **Building the graph and checking for missing imports agree.**  The graph cannot be built exactly if the check lists
something, and what is then said names the first pair of that list.  Otherwise its nodes are the names of the modules
and the importers of a name are the names of the modules that import from it; both are the one list that has each of
these names once, in the order of the first module to which it is due. -/
theorem build_agrees_with_check (modules : List Module) :
    ((∃ fault, Graph.build modules = .error fault) ↔ missingImports modules ≠ []) ∧
    (∀ fault, Graph.build modules = .error fault → ∃ importer imported more,
      missingImports modules = (importer, imported) :: more ∧ fault = .unresolvedImport importer imported ∧
      fault.message? = some ("Module " ++ importer ++ " imports " ++ imported ++ ", which is not in the module list")) ∧
    (missingImports modules = [] → ∃ g, Graph.build modules = .ok g ∧
      (∀ names, g.nodes = names ↔ FirstMet modules (fun _ => True) names) ∧
      ∀ n names, g.importersOf n = names ↔ FirstMet modules (fun m => n ∈ collectImports m.body) names) := by
  cases hmissing : missingImports modules with
  | nil =>
    obtain ⟨g, hg, hnodes, himporters⟩ := Graph.build_firstMet hmissing
    refine ⟨⟨?_, fun h => absurd rfl h⟩, ?_, fun _ => ⟨g, hg, fun names => ⟨fun h => h ▸ hnodes, hnodes.unique⟩,
      fun n names => ⟨fun h => h ▸ himporters n, (himporters n).unique⟩⟩⟩
    · rintro ⟨fault, hfault⟩
      cases hg.symm.trans hfault
    · intro fault hfault
      cases hg.symm.trans hfault
  | cons pair more =>
    have hbuild := Graph.build_of_missing hmissing
    refine ⟨⟨fun _ => List.cons_ne_nil _ _, fun _ => ⟨_, hbuild⟩⟩, fun fault hfault => ?_, fun h => by cases h⟩
    rw [hbuild, Except.error.injEq] at hfault
    exact ⟨pair.1, pair.2, more, rfl, hfault.symm, hfault ▸ rfl⟩

/-- A quarry with two modules of one name, each with imports of its own, and one module that imports twice from the same
place. -/
def quarry : List Module :=
  [⟨"Main", [.importFrom "Pit" ["stone"], .importFrom "Native" ["print"]], []⟩,
   ⟨"Yard", [.function "load" [] [.importFrom "Pit" ["stone"]], .importFrom "Pit" ["sand"]], ["load"]⟩,
   ⟨"Pit", [], ["stone", "sand"]⟩,
   ⟨"Main", [.importFrom "Yard" ["load"], .importFrom "Pit" ["sand"]], []⟩]

theorem quarry_graph :
    missingImports quarry = [] ∧ FirstMet quarry (fun _ => True) ["Main", "Yard", "Pit"] ∧
      FirstMet quarry (fun m => "Pit" ∈ collectImports m.body) ["Main", "Yard"] ∧
      missingImports (quarry.take 2) = [("Main", "Pit"), ("Yard", "Pit")] ∧
      ∃ fault, Graph.build (quarry.take 2) = .error fault ∧
        fault.message? = some "Module Main imports Pit, which is not in the module list" := by
  have hmissing : missingImports quarry = [] := by decide
  have hpairs : missingImports (quarry.take 2) = [("Main", "Pit"), ("Yard", "Pit")] := by decide
  obtain ⟨g, hg, hnodes, himporters⟩ := (build_agrees_with_check quarry).2.2 hmissing
  have hviews : (Graph.build quarry).toOption.map (fun g => (g.nodes, g.importersOf "Pit")) =
      some (["Main", "Yard", "Pit"], ["Main", "Yard"]) := by decide
  rw [hg, Except.toOption, Option.map_some, Option.some.injEq, Prod.mk.injEq] at hviews
  refine ⟨hmissing, (hnodes _).1 hviews.1, (himporters "Pit" _).1 hviews.2, hpairs, ?_⟩
  obtain ⟨hiff, hsays, -⟩ := build_agrees_with_check (quarry.take 2)
  obtain ⟨fault, hfault⟩ := hiff.2 (by rw [hpairs]; exact List.cons_ne_nil _ _)
  obtain ⟨importer, imported, more, hlist, -, hmessage⟩ := hsays fault hfault
  rw [hpairs, List.cons.injEq, Prod.mk.injEq] at hlist
  obtain ⟨⟨rfl, rfl⟩, -⟩ := hlist
  exact ⟨fault, hfault, hmessage⟩

end Thicket
