import Mathlib.Data.List.Chain
import Mathlib.Logic.Relation
import Thicket.Proofs.Colours
import Thicket.Proofs.Imports
/-!
# The search for a cycle of imports is right

`Graph.build` gives the graph whose edges are the imports (`build_spec`), and `Graph.search` keeps two facts: the path
is a chain of imports without repetition, and from a module that is done every chain of importers ends (`Acc`).  When
the search closes a cycle, the first fact makes it one; when it runs out of modules, the second makes all chains end, so
that there is none.  The loop in three colours comes to the same end (`ColourWalk.ends_iff`).
-/
namespace Thicket

/-- Some module of the name `m` imports from `n`. -/
def Imports (modules : List Module) (m n : String) : Prop :=
  ∃ mod ∈ modules, mod.name = m ∧ n ∈ collectImports mod.body

/-- A list of names, none twice, each related to the next and the last to the first. -/
structure IsCycle (R : String → String → Prop) (names : List String) : Prop where
  nonempty : names ≠ []
  nodup : names.Nodup
  chain : names.IsChain R
  closes : R (names.getLast nonempty) (names.head nonempty)

theorem IsCycle.transGen {R : String → String → Prop} {names : List String} (h : IsCycle R names) :
    Relation.TransGen R (names.head h.nonempty) (names.head h.nonempty) :=
  Relation.TransGen.tail' (List.relationReflTransGen_of_exists_isChain names h.chain h.nonempty) h.closes

theorem findModule?_isSome_iff (modules : List Module) (name : String) :
    (findModule? modules name).isSome ↔ ∃ m ∈ modules, m.name = name := by
  simp [findModule?]

theorem missingImports_eq_nil_iff (modules : List Module) :
    missingImports modules = [] ↔ ∀ m ∈ modules, ∀ i ∈ collectImports m.body, (findModule? modules i).isSome := by
  simp only [missingImports, List.flatMap_eq_nil_iff, List.map_eq_nil_iff, List.filter_eq_nil_iff,
    Bool.not_eq_true, Option.isNone_eq_false_iff]

/-! ## The graph that is built -/

theorem names_insert_eq_addName {α : Type} (t : Table α) (name : String) (v : α) :
    Table.names (Table.insert t name v) = addName (Table.names t) name := Table.names_insert t name v

theorem addName_addName (names : List String) (name : String) :
    addName (addName names name) name = addName names name :=
  if_pos ((mem_addName names name name).2 (.inr rfl))

namespace Graph

theorem importersOf_insert (g : Graph) (imported n : String) (importers : List String) :
    importersOf ⟨Table.insert g.edges imported importers⟩ n = if imported = n then importers else g.importersOf n := by
  unfold importersOf
  rw [Table.get?_insert]
  by_cases h : imported = n <;> simp [h]

theorem addEdge_spec (g : Graph) (importer imported : String) (h : imported ∈ g.nodes) :
    ∃ g', g.addEdge importer imported = .ok g' ∧ g'.nodes = g.nodes ∧
      ∀ n, g'.importersOf n = if imported = n then addName (g.importersOf n) importer else g.importersOf n := by
  obtain ⟨importers, hi⟩ := Option.isSome_iff_exists.1 ((Table.get?_isSome_iff g.edges imported).2 h)
  refine ⟨⟨Table.insert g.edges imported (addName importers importer)⟩, ?_, ?_, fun n => ?_⟩
  · rw [addEdge, hi]
  · unfold nodes at h ⊢
    rw [Table.names_insert, if_pos h]
  · rw [importersOf_insert]
    by_cases hn : imported = n
    · subst hn
      simp [importersOf, hi]
    · simp [hn]

theorem addImports_spec (importer : String) : ∀ (imported : List String) (g : Graph), (∀ i ∈ imported, i ∈ g.nodes) →
    ∃ g', addImports importer imported g = .ok g' ∧ g'.nodes = g.nodes ∧
      ∀ n, g'.importersOf n = if n ∈ imported then addName (g.importersOf n) importer else g.importersOf n
  | [], g, _ => ⟨g, rfl, rfl, fun n => by simp⟩
  | i :: rest, g, h => by
    obtain ⟨g₁, hg₁, hnodes₁, himp₁⟩ := g.addEdge_spec importer i (h i List.mem_cons_self)
    obtain ⟨g₂, hg₂, hnodes₂, himp₂⟩ := addImports_spec importer rest g₁ (fun j hj => by
      rw [hnodes₁]; exact h j (List.mem_cons_of_mem i hj))
    refine ⟨g₂, by rw [addImports, hg₁]; exact hg₂, hnodes₂.trans hnodes₁, fun n => ?_⟩
    rw [himp₂, himp₁]
    by_cases hi : i = n
    · subst hi
      by_cases hr : i ∈ rest <;> simp [hr, addName_addName]
    · have hi' : ¬ n = i := fun h => hi h.symm
      simp [hi, hi']

/-- The names of the modules that import from `n`, one after the other. -/
def importing (modules : List Module) (n : String) : List String :=
  (modules.filter fun m => decide (n ∈ collectImports m.body)).map Module.name

theorem addModules_spec : ∀ (modules : List Module) (g : Graph),
    (∀ m ∈ modules, ∀ i ∈ collectImports m.body, i ∈ g.nodes) →
    ∃ g', addModules modules g = .ok g' ∧ g'.nodes = g.nodes ∧
      ∀ n, g'.importersOf n = (importing modules n).foldl addName (g.importersOf n)
  | [], g, _ => ⟨g, rfl, rfl, fun _ => rfl⟩
  | m :: rest, g, h => by
    obtain ⟨g₁, hg₁, hnodes₁, himp₁⟩ := addImports_spec m.name (collectImports m.body) g (h m List.mem_cons_self)
    obtain ⟨g₂, hg₂, hnodes₂, himp₂⟩ := addModules_spec rest g₁ (fun m' hm' i hi => by
      rw [hnodes₁]; exact h m' (List.mem_cons_of_mem m hm') i hi)
    refine ⟨g₂, by rw [addModules, hg₁]; exact hg₂, hnodes₂.trans hnodes₁, fun n => ?_⟩
    rw [himp₂, himp₁]
    by_cases hn : n ∈ collectImports m.body <;> simp [importing, hn]

theorem nodes_foldl_insert : ∀ (pairs : List (String × List String)) (t : Table (List String)),
    Table.names (pairs.foldl (fun t p => Table.insert t p.1 p.2) t) = (pairs.map Prod.fst).foldl addName (Table.names t)
  | [], _ => rfl
  | p :: rest, t => by
    rw [List.foldl_cons, nodes_foldl_insert rest, List.map_cons, List.foldl_cons, names_insert_eq_addName]

theorem nodes_discrete (modules : List Module) :
    (discrete modules).nodes = (modules.map Module.name).foldl addName [] := by
  unfold discrete nodes Table.ofPairs
  rw [nodes_foldl_insert, List.map_map]
  rfl

theorem importersOf_foldl_insert (n : String) : ∀ (modules : List Module) (t : Table (List String)),
    importersOf ⟨t⟩ n = [] →
    importersOf ⟨(modules.map fun m => (m.name, ([] : List String))).foldl (fun t p => Table.insert t p.1 p.2) t⟩ n = []
  | [], _, h => h
  | m :: rest, t, h => by
    rw [List.map_cons, List.foldl_cons]
    refine importersOf_foldl_insert n rest _ ?_
    rw [importersOf_insert ⟨t⟩ m.name n [], h]
    simp

/-- **Without a missing import the graph is built**, over the names of the modules in order, and the importers of a name
are the names of the modules that import from it, each in its first place. -/
theorem build_spec (modules : List Module) (h : missingImports modules = []) :
    ∃ g, build modules = .ok g ∧ g.nodes = (modules.map Module.name).foldl addName [] ∧
      ∀ n, g.importersOf n = (importing modules n).foldl addName [] := by
  obtain ⟨g, hg, hnodes, himp⟩ := addModules_spec modules (discrete modules) (fun m hm i hi => by
    obtain ⟨m', hm', rfl⟩ := (findModule?_isSome_iff modules i).1 ((missingImports_eq_nil_iff modules).1 h m hm i hi)
    rw [nodes_discrete, mem_foldl_addName]
    exact .inr (List.mem_map_of_mem hm'))
  refine ⟨g, hg, hnodes.trans (nodes_discrete modules), fun n => ?_⟩
  rw [himp, show (discrete modules).importersOf n = [] from importersOf_foldl_insert n modules [] rfl]

theorem mem_importing (modules : List Module) (m n : String) : m ∈ importing modules n ↔ Imports modules m n := by
  simp only [importing, Imports, List.mem_map, List.mem_filter, decide_eq_true_eq]
  constructor
  · rintro ⟨mod, ⟨hmod, hn⟩, rfl⟩
    exact ⟨mod, hmod, rfl, hn⟩
  · rintro ⟨mod, hmod, rfl, hn⟩
    exact ⟨mod, ⟨hmod, hn⟩, rfl⟩

/-! ## The search -/

/-- `a` imports from `b`, by the graph. -/
def Edge (g : Graph) (a b : String) : Prop := a ∈ g.importersOf b

/-- What the end of a search says about the modules it was given: a cycle, or that all it has met are done, with every
chain of importers of a module that is done coming to an end. -/
def Answers (g : Graph) (path done : List String) : Search → Prop
  | .found cycle => IsCycle g.Edge cycle
  | .clear done' => (∀ d ∈ done', Acc g.Edge d) ∧ path ⊆ done' ∧ done ⊆ done'

/-- The part of a path down to the first `t`, which stands on it. -/
theorem takeWhile_append_initial : ∀ (path : List String) (t : String), t ∈ path →
    path.takeWhile (fun a => decide (a ≠ t)) ++ [t] <+: path
  | [], _, h => by cases h
  | a :: path, t, h => by
    by_cases ha : a = t
    · subst ha
      simp
    · have ht : t ∈ path := (List.mem_cons.1 h).resolve_left (fun h => ha h.symm)
      rw [List.takeWhile_cons_of_pos (by simpa using ha), List.cons_append]
      exact List.cons_prefix_cons.2 ⟨rfl, takeWhile_append_initial path t ht⟩

theorem head_of_initial {top : String} {below names : List String} (h : names <+: top :: below) (hne : names ≠ []) :
    names.head hne = top := by
  cases names with
  | nil => exact absurd rfl hne
  | cons a rest => exact (List.cons_prefix_cons.1 h).1

/-- **A step back to a module on the path closes a cycle.** -/
theorem isCycle_of_back (g : Graph) {top t : String} {below : List String} (hnodup : (top :: below).Nodup)
    (hchain : (top :: below).IsChain g.Edge) (ht : t ∈ g.importersOf top) (hmem : t ∈ top :: below) :
    IsCycle g.Edge ((top :: below).takeWhile (fun a => decide (a ≠ t)) ++ [t]) := by
  have hpre := takeWhile_append_initial (top :: below) t hmem
  have hne : (top :: below).takeWhile (fun a => decide (a ≠ t)) ++ [t] ≠ [] := by simp
  refine ⟨hne, hpre.sublist.nodup hnodup, ?_, ?_⟩
  · obtain ⟨rest, hrest⟩ := hpre
    rw [← hrest] at hchain
    exact hchain.left_of_append
  · rw [head_of_initial hpre hne, List.getLast_append_singleton]
    exact ht

/-- **The search answers rightly**, from a path that is a chain of imports without repetition. -/
theorem search_answers (g : Graph) (path done : List String) (hnodup : path.Nodup) (hchain : path.IsChain g.Edge)
    (hdone : ∀ d ∈ done, Acc g.Edge d) : g.Answers path done (g.search path done) := by
  fun_induction g.search path done with
  | case1 done => exact ⟨hdone, List.nil_subset _, List.Subset.refl _⟩
  | case2 done top below t hback =>
    exact g.isCycle_of_back hnodup hchain (List.mem_of_find?_eq_some hback) (by simpa using List.find?_some hback)
  | case3 done top below hback t hnext ih =>
    have ht := List.mem_of_find?_eq_some hnext
    have hpath : t ∉ top :: below := by simpa using List.find?_eq_none.1 hback t ht
    have hrec := ih (List.nodup_cons.2 ⟨hpath, hnodup⟩) (List.isChain_cons_cons.2 ⟨ht, hchain⟩) hdone
    generalize g.search (t :: top :: below) done = r at hrec ⊢
    cases r with
    | found cycle => exact hrec
    | clear done' => exact ⟨hrec.1, fun a ha => hrec.2.1 (List.mem_cons_of_mem t ha), hrec.2.2⟩
  | case4 done top below hback hnext ih =>
    -- every importer of `top` is done, so every chain of its importers ends too
    have htop : Acc g.Edge top := Acc.intro top (fun t ht => hdone t (by simpa using List.find?_eq_none.1 hnext t ht))
    have hrec := ih (List.nodup_cons.1 hnodup).2 hchain.tail (fun d hd => by
      rcases List.mem_cons.1 hd with rfl | hd
      · exact htop
      · exact hdone d hd)
    generalize g.search below (top :: done) = r at hrec ⊢
    cases r with
    | found cycle => exact hrec
    | clear done' =>
      refine ⟨hrec.1, fun a ha => ?_, fun a ha => hrec.2.2 (List.mem_cons_of_mem top ha)⟩
      rcases List.mem_cons.1 ha with rfl | ha
      · exact hrec.2.2 List.mem_cons_self
      · exact hrec.2.1 ha

theorem searchFrom_answers (g : Graph) : ∀ (starts done : List String), (∀ d ∈ done, Acc g.Edge d) →
    g.Answers starts done (g.searchFrom starts done)
  | [], done, hdone => ⟨hdone, List.nil_subset _, List.Subset.refl _⟩
  | start :: rest, done, hdone => by
    rw [searchFrom]
    split
    · rename_i hmem
      have hrec := searchFrom_answers g rest done hdone
      generalize g.searchFrom rest done = r at hrec ⊢
      cases r with
      | found cycle => exact hrec
      | clear done' =>
        refine ⟨hrec.1, fun a ha => ?_, hrec.2.2⟩
        rcases List.mem_cons.1 ha with rfl | ha
        · exact hrec.2.2 hmem
        · exact hrec.2.1 ha
    · have hone := g.search_answers [start] done (by simp) (List.isChain_singleton start) hdone
      cases hs : g.search [start] done with
      | found cycle => rw [hs] at hone; exact hone
      | clear done₁ =>
        rw [hs] at hone
        have hrec := searchFrom_answers g rest done₁ hone.1
        simp only
        generalize g.searchFrom rest done₁ = r at hrec ⊢
        cases r with
        | found cycle => exact hrec
        | clear done' =>
          refine ⟨hrec.1, fun a ha => ?_, fun a ha => hrec.2.2 (hone.2.2 ha)⟩
          rcases List.mem_cons.1 ha with rfl | ha
          · exact hrec.2.2 (hone.2.1 List.mem_cons_self)
          · exact hrec.2.1 ha

theorem not_transGen_of_acc {R : String → String → Prop} {a : String} (h : Acc R a) : ¬ Relation.TransGen R a a := by
  intro hloop
  induction h with
  | intro a _ ih =>
    obtain ⟨b, hba, hab⟩ := Relation.TransGen.tail'_iff.1 hloop
    exact ih b hab (Relation.TransGen.head' hab hba)

/-- **No answer means no cycle.** -/
theorem acyclic_of_cycle?_eq_none (g : Graph) (h : g.cycle? = none) (a : String) : ¬ Relation.TransGen g.Edge a a := by
  have hall := g.searchFrom_answers g.nodes [] (fun _ hd => by cases hd)
  unfold cycle? at h
  generalize g.searchFrom g.nodes [] = r at hall h
  cases r with
  | found cycle => cases h
  | clear done =>
    intro hloop
    refine not_transGen_of_acc (hall.1 a (hall.2.1 ?_)) hloop
    -- what has an importer is a node
    obtain ⟨b, _, hba⟩ := Relation.TransGen.tail'_iff.1 hloop
    unfold Edge importersOf at hba
    refine (Table.get?_isSome_iff g.edges a).1 ?_
    cases hg : Table.get? g.edges a with
    | none => simp [hg] at hba
    | some _ => rfl

theorem isCycle_of_cycle? (g : Graph) {cycle : List String} (h : g.cycle? = some cycle) : IsCycle g.Edge cycle := by
  have hall := g.searchFrom_answers g.nodes [] (fun _ hd => by cases hd)
  unfold cycle? at h
  generalize g.searchFrom g.nodes [] = r at hall h
  cases r with
  | found c =>
    simp only [Option.some.injEq] at h
    exact h ▸ hall
  | clear done => cases h

end Graph

/-- Without a missing import the search answers, and what it says is about the imports. -/
theorem findCycle_eq (modules : List Module) (h : missingImports modules = []) :
    ∃ g : Graph, findCycle modules = .ok g.cycle? ∧ g.Edge = Imports modules ∧ Graph.build modules = .ok g := by
  obtain ⟨g, hg, -, himp⟩ := Graph.build_spec modules h
  refine ⟨g, by rw [findCycle, hg], ?_, hg⟩
  funext m n
  rw [Graph.Edge, himp, mem_foldl_addName, Graph.mem_importing]
  simp

/-- The importers in the graph of a program are among its modules. -/
theorem importersOf_subset_nodes (modules : List Module) (h : missingImports modules = []) {g : Graph}
    (hg : Graph.build modules = .ok g) (n : String) : g.importersOf n ⊆ g.nodes := by
  obtain ⟨g', hg', hnodes, himp⟩ := Graph.build_spec modules h
  obtain rfl : g' = g := Except.ok.inj (hg'.symm.trans hg)
  intro m hm
  rw [himp, mem_foldl_addName, Graph.mem_importing] at hm
  obtain ⟨mod, hmod, rfl, -⟩ := hm.resolve_left List.not_mem_nil
  rw [hnodes, mem_foldl_addName]
  exact .inr (List.mem_map_of_mem hmod)

theorem acyclic_of_findCycle (modules : List Module) (hmissing : missingImports modules = [])
    (h : findCycle modules = .ok none) (m : String) : ¬ Relation.TransGen (Imports modules) m m := by
  obtain ⟨g, hg, hedge, -⟩ := findCycle_eq modules hmissing
  rw [h, Except.ok.injEq] at hg
  rw [← hedge]
  exact g.acyclic_of_cycle?_eq_none hg.symm m

theorem findCycle_eq_none (modules : List Module) (hmissing : missingImports modules = [])
    (h : ∀ m, ¬ Relation.TransGen (Imports modules) m m) : findCycle modules = .ok none := by
  obtain ⟨g, hg, hedge, -⟩ := findCycle_eq modules hmissing
  rw [← hedge] at h
  cases hc : g.cycle? with
  | none => rw [hg, hc]
  | some cycle => exact absurd (g.isCycle_of_cycle? hc).transGen (h _)

/-- **The cycle check is right.**  Without a missing import the search for a cycle ends with an answer.  It is `none`
exactly when no chain of imports leads back to where it started; a list is one such chain, without repetition.  The
answer is the one with which the loop in three colours comes to its end, over the graph that is built. -/
theorem findCycle_correct (modules : List Module) (h : missingImports modules = []) :
    ∃ answer, findCycle modules = .ok answer ∧
      (answer = none ↔ ∀ m, ¬ Relation.TransGen (Imports modules) m m) ∧
      (∀ cycle, answer = some cycle → IsCycle (Imports modules) cycle) ∧
      ∃ g, Graph.build modules = .ok g ∧ ∀ r, ColourWalk.Ends g (.fresh g) r ↔ r = answer := by
  obtain ⟨g, hg, hedge, hbuild⟩ := findCycle_eq modules h
  refine ⟨g.cycle?, hg, ⟨fun hnone m => ?_, fun hacyclic => ?_⟩, fun cycle hcycle => ?_, g, hbuild,
    ColourWalk.ends_iff (importersOf_subset_nodes modules h hbuild)⟩
  · rw [← hedge]
    exact g.acyclic_of_cycle?_eq_none hnone m
  · cases hc : g.cycle? with
    | none => rfl
    | some cycle =>
      have hcycle := g.isCycle_of_cycle? hc
      rw [hedge] at hcycle
      exact absurd hcycle.transGen (hacyclic _)
  · rw [← hedge]
    exact g.isCycle_of_cycle? hcycle

/-- Two modules that import from each other, one of them only when a function of its is called, beside a later module of
a name that is there already. -/
def entangled : List Module :=
  [⟨"Main", [.importFrom "Left" ["x"]], []⟩,
   ⟨"Left", [.function "x" [] [.importFrom "Right" ["y"]]], ["x"]⟩,
   ⟨"Right", [.loop (.boolean false) [.importFrom "Left" ["x"]]], ["y"]⟩,
   ⟨"Left", [.importFrom "Native" ["print"]], []⟩]

theorem entangled_cycle_found :
    missingImports entangled = [] ∧
      ∃ cycle, findCycle entangled = .ok (some cycle) ∧ IsCycle (Imports entangled) cycle := by
  have hmissing : missingImports entangled = [] := by decide
  refine ⟨hmissing, ?_⟩
  obtain ⟨answer, hanswer, hnone, hsome, -⟩ := findCycle_correct entangled hmissing
  have hlr : Imports entangled "Left" "Right" := ⟨_, List.mem_cons_of_mem _ List.mem_cons_self, by decide, by decide⟩
  have hrl : Imports entangled "Right" "Left" :=
    ⟨_, List.mem_cons_of_mem _ (List.mem_cons_of_mem _ List.mem_cons_self), by decide, by decide⟩
  cases answer with
  | none => exact absurd (Relation.TransGen.tail (.single hlr) hrl) (hnone.1 rfl "Left")
  | some cycle => exact ⟨cycle, hanswer, hsome cycle rfl⟩

end Thicket
