import Thicket.Proofs.Kept
import Thicket.Proofs.Nesting
/-!
# What a failed import leaves behind

An import runs a module, which may run others, some of them to their end and some not.  When one of them fails, all that
are being run fail with it, one after the other and for the same cause, and nothing is kept of them.  What was kept of
modules that had ended by then stays.  So an import that is tried again does not run those again.

The modules that are run are those in the course of the import, each in the state in which it is begun there.  What is
new among the kept exports at the end comes from such a run that has ended (`origin_along`), and an import whose module
has ended has kept its exports (`stateOf_exportedValue`).  These are the same run if no module is run twice, and that
needs imports that are made as bodies run, and no cycle among them: then the modules that are being run are all
different (`Underway`).  The states from which the import is made are those in which nothing is being run
(`Program.Rested`).  All functions in them come from the modules of the program, and so import nothing.
-/
namespace Thicket

/-! ## States between calls -/

/-- No function that comes with the call imports from a module. -/
def Call.Prompt : Call → Prop
  | .evaluate _ _ | .exportedValue _ _ => True
  | .apply f args => f.Runs (importsOf · = []) ∧ ∀ v ∈ args, v.Runs (importsOf · = [])
  | .statement _ st => st.prompt = true
  | .block _ body => prompt body = true
  | .runModule m => prompt m.body = true

/-- The states in which nothing is being run: before anything has been asked of the evaluator, and after each call.
What was read or written may be different from one call to the next. -/
inductive Program.Rested (p : Program) : State → Prop
  | fresh {s : State} : s.store = Store.empty → s.memo = [] → Rested p s
  | called {s : State} (n : Nat) (c : Call) : c.Prompt → Rested p s → Rested p (stateOf (c.run p n s))
  | aside {s s' : State} : Rested p s → s'.store = s.store → s'.memo = s.memo → Rested p s'

/-- No function imports from a module. -/
def flat : Watch where
  World := Unit
  Body body := importsOf body = []
  Allowed _ st := st.prompt = true
  Holds _ _ _ := True
  Stopped _ _ _ := True

theorem flat_lawful {p : Program} (h : ∀ m ∈ p.modules, prompt m.body = true) : flat.Lawful p where
  stop _ _ := trivial
  fault _ _ := trivial
  empty := rfl
  body hbody st hst := st.prompt_of_imports (imports_eq_nil_of_mem hbody hst)
  function hst := List.isEmpty_iff.1 hst
  branch := by
    intro w condition whenTrue whenFalse hst
    have hboth : prompt whenTrue = true ∧ prompt whenFalse = true := (Bool.and_eq_true _ _).mp hst
    exact ⟨(prompt_iff whenTrue).1 hboth.1, (prompt_iff whenFalse).1 hboth.2⟩
  loop {w condition body} hst := (prompt_iff body).1 hst
  missing _ _ _ _ := trivial
  enters := by
    intro w m names s _ _ _ hm _
    exact ⟨(), trivial, (prompt_iff m.body).1 (h m (List.mem_of_find?_eq_some hm)), fun _ _ _ _ => trivial,
      fun _ _ _ _ _ => trivial⟩

theorem flat_of_inStep {α : Type} {G : Unit → α → Prop} {f : Run α} {s : State} (h : flat.Clean s)
    (hf : flat.pairing.InStep () G f f) : flat.Clean (stateOf (f s)) := by
  have hends := hf s s ⟨.refl s, h.1, h.2, trivial⟩
  generalize f s = r at hends
  cases hends with
  | done _ hsim _ => exact hsim.2.clean
  | stopped hx => exact hx.2.1

theorem flat_of_moduleEnds {m : Module} {s : State} (h : flat.Clean s) {r r' : EStateM.Result Stop State Finished}
    (hends : flat.pairing.ModuleEnds () m s s r r') : flat.Clean (stateOf r) := by
  cases hends with
  | finished _ hst _ _ => exact hst.2.clean
  | stopped hx => exact hx.2.1
  | unstarted => exact h

theorem flat_of_runModule {p : Program} (hprompt : ∀ m ∈ p.modules, prompt m.body = true) {m : Module}
    (hm : prompt m.body = true) {s : State} (h : flat.Clean s) (n : Nat) :
    flat.Clean (stateOf (runModule p n m s)) := by
  have hcode : flat.pairing.Code () m.body := (prompt_iff m.body).1 hm
  have hstart : flat.pairing.Sim () (s.started m) (s.started m) := ⟨.refl _, h.1.newScope none, h.2, trivial⟩
  exact flat_of_moduleEnds h ((flat_lawful hprompt).runs.runModule_ends hstart (fun _ => Watch.Lawful.room) hcode n)

/-- **No function that is there between calls imports from a module.** -/
theorem Program.Rested.clean {p : Program} (hprompt : ∀ m ∈ p.modules, prompt m.body = true) {s : State}
    (h : p.Rested s) : flat.Clean s := by
  induction h with
  | fresh hstore hmemo =>
    rw [Watch.Clean, hstore, hmemo]
    exact ⟨Store.All.empty, fun _ hx => by cases hx⟩
  | @called s n c hc _ ih =>
    have R := (flat_lawful hprompt).runs
    have hcall (hadmits : flat.pairing.Admits () c) : flat.Clean (stateOf (c.run p n s)) :=
      flat_of_inStep ih (R.call_inStep hadmits n)
    cases c with
    | evaluate e expr => exact hcall ⟨trivial, fun x _ => (flat_lawful hprompt).hostLawful.mayMeet x⟩
    | apply f args => exact hcall hc
    | statement e st => exact hcall ⟨Watch.Lawful.room, hc⟩
    | block e body => exact hcall ⟨Watch.Lawful.room, (prompt_iff body).1 hc⟩
    | exportedValue source name => exact hcall ⟨[], rfl⟩
    | runModule m =>
      rw [Call.run, stateOf_map]
      exact flat_of_runModule hprompt hc ih n
  | aside _ hstore hmemo ih =>
    rw [Watch.Clean, hstore, hmemo]
    exact ih

/-! ## No module is run twice -/

/-- What holds at every point of an import, if the modules of `chain` are being run and the log has grown by `rest`
since it began. -/
structure Underway (p : Program) (chain : List String) (memo : Table (Table Value)) (rest : List Event) : Prop where
  linked : Linked (ImportsFrom p.modules) chain
  once : (started rest).Nodup
  /-- What was started is being run or was kept. -/
  accounted : ∀ a ∈ started rest, a ∈ chain ∨ (Table.get? memo a).isSome

namespace Underway

variable {p : Program} {memo : Table (Table Value)} {rest : List Event} {chain : List String} {m : Module}

theorem nil (p : Program) (memo : Table (Table Value)) : Underway p [] memo [] where
  linked := ⟨.nil, List.nodup_nil⟩
  once := List.nodup_nil
  accounted _ ha := by cases ha

theorem start (h : Underway p chain memo rest) (hk : Table.get? memo m.name = none)
    (hlinked : Linked (ImportsFrom p.modules) (m.name :: chain)) :
    Underway p (m.name :: chain) memo (rest ++ [.moduleStarted m.name]) := by
  have hstarted : started (rest ++ [.moduleStarted m.name]) = started rest ++ [m.name] := started_concat _ _
  have hfirst : m.name ∉ started rest := by
    intro hmem
    rcases h.accounted m.name hmem with hchain | hsome
    · exact (List.nodup_cons.1 hlinked.2).1 hchain
    · rw [hk] at hsome
      cases hsome
  refine ⟨hlinked, ?_, fun a ha => ?_⟩
  · rw [hstarted]
    exact List.Nodup.append h.once (List.nodup_singleton _) (List.disjoint_singleton.2 hfirst)
  · rw [hstarted, List.mem_append, List.mem_singleton] at ha
    rcases ha with ha | rfl
    · exact (h.accounted a ha).imp_left (List.mem_cons_of_mem _)
    · exact .inl List.mem_cons_self

theorem keep (h : Underway p (m.name :: chain) memo rest) (exports : Table Value) (k : Nat) (names : List String) :
    Underway p chain (Table.insert memo m.name exports)
      (rest ++ [.moduleFinished m.name k] ++ [.exportsKept m.name names]) := by
  have hstarted : started (rest ++ [.moduleFinished m.name k] ++ [.exportsKept m.name names]) = started rest := by
    rw [started_concat, started_concat]
    exact (List.append_nil _).trans (List.append_nil _)
  refine ⟨⟨h.linked.1.tail, (List.nodup_cons.1 h.linked.2).2⟩, hstarted ▸ h.once, fun a ha => ?_⟩
  rw [hstarted] at ha
  rw [Table.get?_insert]
  rcases h.accounted a ha with hchain | hsome
  · rcases List.mem_cons.1 hchain with rfl | hchain
    · simp
    · exact .inl hchain
  · right
    split
    · rfl
    · exact hsome

end Underway

/-- An import, watched from where the log was `log₀`. -/
def underway (p : Program) (log₀ : List Event) : Watch where
  World := List String
  Body := (orderly (fun _ => True) (ImportsFrom p.modules)).Body
  Allowed := (orderly (fun _ => True) (ImportsFrom p.modules)).Allowed
  Holds chain memo log := ∃ rest, log.toList = log₀ ++ rest ∧ Underway p chain memo rest
  Stopped _ _ s := ∃ rest, s.log.toList = log₀ ++ rest ∧ (started rest).Nodup

theorem underway_lawful {p : Program} (hmissing : missingImports p.modules = [])
    (hcycle : findCycle p.modules = .ok none) (hprompt : ∀ m ∈ p.modules, prompt m.body = true) (log₀ : List Event) :
    (underway p log₀).Lawful p := by
  have hacyclic : ∀ a, ¬ Relation.TransGen (ImportsFrom p.modules) a a := fun a ha =>
    acyclic_of_findCycle p.modules hmissing hcycle a (ha.lift id fun _ _ => ImportsFrom.imports)
  have hfollows : ∀ {name m}, findModule? p.modules name = some m → m.Follows (ImportsFrom p.modules) :=
    fun hm => ⟨hprompt _ (List.mem_of_find?_eq_some hm), fun i hi => ⟨_, (findModule?_name hm).symm ▸ hm, hi⟩⟩
  have horderly := orderly_lawful (p := p) (C := fun _ => True) (fun _ _ _ => trivial) hfollows
  have hstop : ∀ {chain : List String} {x : Stop} {s : State}, (underway p log₀).Holds chain s.memo s.log →
      (underway p log₀).Stopped chain x s :=
    fun ⟨rest, hlog, h⟩ => ⟨rest, hlog, h.once⟩
  refine ⟨fun h _ => hstop h, fun _ h => hstop h, horderly.empty, horderly.body, horderly.function, horderly.branch,
    horderly.loop, fun h _ _ _ => hstop h, ?_⟩
  rintro (chain : List String) m names s ⟨rest, hlog, h⟩ ⟨-, himp⟩ hs hm hk
  obtain ⟨a, ha, him⟩ := himp m.name (by simp [Stmt.imports, hs])
  refine ⟨m.name :: chain, ⟨_, ?_, h.start hk (h.linked.cons hacyclic ha him)⟩,
    orderly_allowed (C := fun _ => True) (hfollows hm) chain, fun _ _ _ hx => hx, ?_⟩
  · rw [Array.toList_push, hlog, List.append_assoc]
  · rintro s' exports - ⟨rest', hlog', h'⟩ -
    refine ⟨_, ?_, h'.keep exports exports.length (Table.names (Table.sorted exports))⟩
    simp only [Array.toList_push, hlog', List.append_assoc]

theorem started_append (log rest : List Event) : started (log ++ rest) = started log ++ started rest :=
  List.filterMap_append

section

variable {p : Program} {s s' : State} {m : Module}

/-- **While a module is run that is not kept, none is run twice.** -/
theorem nodup_course (hmissing : missingImports p.modules = []) (hcycle : findCycle p.modules = .ok none)
    (hprompt : ∀ m ∈ p.modules, prompt m.body = true) (hs : p.Rested s) (hm : findModule? p.modules m.name = some m)
    (hk : Table.get? s.memo m.name = none) {n : Nat} {x : Stop} (h : runModule p n m s = .error x s')
    (hx : x ≠ .exhausted) : (((Job.runModule m).course p n s).filterMap Begun.module?).Nodup := by
  have L := underway_lawful hmissing hcycle hprompt s.log.toList
  have hclean := hs.clean hprompt
  have hlinked : Linked (ImportsFrom p.modules) [m.name] := ⟨.singleton _, List.nodup_singleton _⟩
  have hfollows : m.Follows (ImportsFrom p.modules) :=
    ⟨hprompt m (List.mem_of_find?_eq_some hm), fun i hi => ⟨m, hm, hi⟩⟩
  have hat : (underway p s.log.toList).At [m.name] (s.started m) :=
    ⟨hclean.1.newScope none, hclean.2, [.moduleStarted m.name], Array.toList_push,
      (Underway.nil p s.memo).start hk hlinked⟩
  have hended := L.runModule_ended hat (orderly_allowed (C := fun _ => True) hfollows []) n
  rw [h] at hended
  obtain ⟨rest, hlog, hnodup⟩ := hended.resolve_left fun hend => hx hend.1
  have hcourse := (started_along p).course n (.runModule m) s
  rw [Job.run, stateOf_map, h] at hcourse
  have hrest : started rest = ((Job.runModule m).course p n s).filterMap Begun.module? := by
    refine (List.append_right_inj (started s.log.toList)).1 ?_
    rw [← started_append, ← hlog]
    exact hcourse
  exact hrest ▸ hnodup

end

/-! ## Who runs a module -/

/-- The module is one of the program, and nothing is kept of it. -/
structure Awaits (p : Program) (m : Module) (s : State) : Prop where
  notNative : m.name ≠ nativeName
  found : findModule? p.modules m.name = some m
  unkept : Table.get? s.memo m.name = none

section

variable {p : Program} {n : Nat} {s s₁ : State} {m : Module}

theorem Job.mem_after {α β : Type} {r : EStateM.Result Stop State α} {next : α → State → List β} {b : β} :
    b ∈ Job.after r next ↔ ∃ a s, r = .ok a s ∧ b ∈ next a s := by
  cases r <;> simp [Job.after]

/-- A job that has a module run is an import from it. -/
theorem Job.asked_of_mem_parts {j : Job} (h : (.runModule m, s₁) ∈ j.parts p n s) :
    s₁ = s ∧ Awaits p m s ∧ ∃ name, j = .exportedValue m.name name := by
  cases j with
  | exportedValue source name =>
    rw [parts, exportParts] at h
    split at h
    · cases h
    · next hsource =>
      split at h
      · next m' hfound hkept =>
        cases List.mem_singleton.1 h
        obtain rfl := findModule?_name hfound
        exact ⟨rfl, ⟨hsource, hfound, hkept⟩, name, rfl⟩
      · cases h
  | evaluate e expr => cases expr <;> simp [parts, exprParts, mem_after] at h
  | fields e rest done => cases rest <;> simp [parts, mem_after] at h
  | all e exprs => cases exprs <;> simp [parts, mem_after] at h
  | apply f args => cases f <;> simp [parts] at h
  | execute e body =>
    cases body with
    | nil => cases h
    | cons st rest =>
      simp only [parts, List.mem_cons, Prod.mk.injEq, reduceCtorEq, false_and, false_or, mem_after] at h
      obtain ⟨outcome, s₂, -, h⟩ := h
      cases outcome <;> simp at h
  | one e st =>
    cases st with
    | giveBack value => cases value <;> simp [parts, stmtParts] at h
    | _ => simp [parts, stmtParts, mem_after] at h
  | loop e condition body =>
    simp only [parts, loopParts, List.mem_cons, Prod.mk.injEq, reduceCtorEq, false_and, false_or, mem_after] at h
    obtain ⟨v, s₂, -, b, s₃, -, h⟩ := h
    cases b with
    | false => cases h
    | true =>
      simp only [if_true, List.mem_cons, Prod.mk.injEq, reduceCtorEq, false_and, false_or, mem_after] at h
      obtain ⟨outcome, s₄, -, h⟩ := h
      cases outcome <;> simp at h
  | importNames e source names => cases names <;> simp [parts, mem_after] at h
  | runModule m' => simp [parts] at h

/-- A module that is run on the way is run for an import from it, and was not kept by then. -/
theorem asked_of_mem_course : ∀ (n : Nat) {j : Job} {s s₁ : State} {m : Module} {k : Nat},
    ⟨.runModule m, s₁, k⟩ ∈ j.course p n s → (⟨j, s, n⟩ : Begun) = ⟨.runModule m, s₁, k⟩ ∨
      Awaits p m s₁ ∧ ∃ name, ⟨.exportedValue m.name name, s₁, k + 1⟩ ∈ j.course p n s
  -- on the fuel: it is the job itself, or one of its parts, or is run in the course of one
  | 0, _, _, _, _, _, hx => by cases hx
  | n + 1, j, s, s₁, m, k, hx => by
    rcases List.mem_cons.1 hx with heq | hx
    · exact .inl heq.symm
    obtain ⟨part, hpart, hx⟩ := List.mem_flatMap.1 hx
    rcases asked_of_mem_course n hx with heq | ⟨hawaits, name, hmem⟩
    · obtain ⟨j', s₂⟩ := part
      cases heq
      obtain ⟨rfl, hawaits, name, rfl⟩ := Job.asked_of_mem_parts hpart
      exact .inr ⟨hawaits, name, List.mem_cons_self⟩
    · exact .inr ⟨hawaits, name, List.mem_cons_of_mem _ (List.mem_flatMap.2 ⟨part, hpart, hmem⟩)⟩

end

/-! ## What is kept, and from which run -/

/-- **What is kept anew was exported by a module that was run to its end on the way.** -/
theorem origin_along (p : Program) :
    Along p fun s jobs s' => ∀ a, Table.get? s'.memo a = Table.get? s.memo a ∨
      ∃ m s₁ k r s₂, ⟨.runModule m, s₁, k⟩ ∈ jobs ∧ m.name = a ∧ runModule p k m s₁ = .ok r s₂ ∧
        Table.get? s'.memo a = some r.exports where
  still h _ := by
    obtain ⟨store, rfl⟩ := h
    exact .inl rfl
  append h h' a := by
    rcases h' a with hsame | ⟨m, s₁, k, r, s₂, hmem, hrun⟩
    · rw [hsame]
      exact (h a).imp_right fun ⟨m, s₁, k, r, s₂, hmem, hrun⟩ =>
        ⟨m, s₁, k, r, s₂, List.mem_append_left _ hmem, hrun⟩
    · exact .inr ⟨m, s₁, k, r, s₂, List.mem_append_right _ hmem, hrun⟩
  noted _ _ := .inl rfl
  host f args s n a := by rw [(call_leaves f args s).1]; exact .inl rfl
  opened {x} _ _ := by cases x.job <;> exact .inl rfl
  kept {m name r n s s' jobs} _ _ _ hr hmem h a := by
    show Table.get? (Table.insert s'.memo m.name r.exports) a = _ ∨ _
    rw [State.remembered, Table.get?_insert]
    by_cases ha : m.name = a
    · rw [if_pos ha]
      exact .inr ⟨m, s, n, r, s', List.mem_cons_of_mem _ hmem, ha, hr, rfl⟩
    · rw [if_neg ha]
      exact h a

theorem eq_of_nodup_modules {jobs : List Begun} (hnodup : (jobs.filterMap Begun.module?).Nodup) {x y : Begun}
    (hx : x ∈ jobs) (hy : y ∈ jobs) {a : String} (hxa : x.module? = some a) (hya : y.module? = some a) : x = y := by
  have hpairs := List.pairwise_filterMap.1 hnodup
  have : Std.Symm fun x y : Begun => ∀ b, x.module? = some b → ∀ b', y.module? = some b' → b ≠ b' :=
    ⟨fun x y h b hb b' hb' => (h b' hb' b hb).symm⟩
  by_contra hne
  exact hpairs.forall hx hy hne a hxa a hya rfl

theorem Program.entry?_eq_notEvaluated {p : Program} {s : State} {name : String} {m : Module} :
    p.entry? s name = some (.notEvaluated m) ↔
      findModule? p.modules name = some m ∧ Table.get? s.memo name = none := by
  unfold Program.entry?
  cases findModule? p.modules name with
  | none => simp
  | some a => cases Table.get? s.memo name <;> simp

theorem Program.entry?_congr {p : Program} {s s' : State} {name : String}
    (h : Table.get? s'.memo name = Table.get? s.memo name) : p.entry? s' name = p.entry? s name := by
  rw [Program.entry?, h, ← Program.entry?]

section

variable {p : Program} {n : Nat} {j : Job} {s s₁ : State} {m : Module} {k : Nat}

/-- What is kept when a job is begun on the way is kept in the end; what is not kept then was not kept at first. -/
theorem unkept_of_mem_course {x : Begun} (hx : x ∈ j.course p n s) {a : String} (h : Table.get? x.state.memo a = none) :
    Table.get? s.memo a = none := by
  obtain ⟨pre, post, hcourse⟩ := List.append_of_mem hx
  have hgrows : s.Grows x.state := (grows_along p).upTo hcourse
  by_contra hsome
  have hlater := hgrows.memo a (Option.isSome_iff_ne_none.2 hsome)
  rw [h] at hlater
  cases hlater

/-- **A module that has ended on the way is kept, with the exports of that very run.** -/
theorem kept_of_ended (hnodup : ((j.course p n s).filterMap Begun.module?).Nodup)
    (hx : ⟨.runModule m, s₁, k⟩ ∈ j.course p n s) (hj : ∀ m, j ≠ .runModule m) {r : Finished} {s₂ : State}
    (hr : runModule p k m s₁ = .ok r s₂) :
    Table.get? (stateOf (j.run p n s)).memo m.name = some r.exports := by
  obtain ⟨hawaits, name, hasked⟩ := (asked_of_mem_course n hx).resolve_left fun heq => hj m (congrArg Begun.job heq)
  have hsome : (Table.get? (stateOf (j.run p n s)).memo m.name).isSome := by
    refine ((grows_along p).after State.Grows.remembered n hasked).memo m.name ?_
    rw [Begun.run, Job.run, stateOf_map, stateOf_exportedValue _ hawaits.notNative hawaits.found hawaits.unkept hr]
    show (Table.get? (Table.insert s₂.memo m.name r.exports) m.name).isSome
    rw [Table.get?_insert_self]
    rfl
  rcases (origin_along p).course n j s m.name with hsame | ⟨m', s₁', k', r', s₂', hx', hname, hr', hkept⟩
  · rw [hsame, unkept_of_mem_course hx hawaits.unkept] at hsome
    cases hsome
  · cases eq_of_nodup_modules hnodup hx' hx (congrArg some hname) rfl
    cases hr.symm.trans hr'
    exact hkept

/-- **Of a module that was broken off nothing is kept.** -/
theorem unkept_of_stopped (hnodup : ((j.course p n s).filterMap Begun.module?).Nodup)
    (hx : ⟨.runModule m, s₁, k⟩ ∈ j.course p n s) (hawaits : Awaits p m s₁) {y : Stop} {s₂ : State}
    (hr : runModule p k m s₁ = .error y s₂) : Table.get? (stateOf (j.run p n s)).memo m.name = none := by
  rcases (origin_along p).course n j s m.name with hsame | ⟨m', s₁', k', r', s₂', hx', hname, hr', -⟩
  · rw [hsame, unkept_of_mem_course hx hawaits.unkept]
  · cases eq_of_nodup_modules hnodup hx' hx (congrArg some hname) rfl
    cases hr.symm.trans hr'

/-- **What a job that stops short leaves of a module it has had run.**  The module was not evaluated before.  It came to
its end and is evaluated now, with the exports of that very run; or it was broken off just as the job was. -/
theorem ended_or_broken (hnodup : ((j.course p n s).filterMap Begun.module?).Nodup)
    (hx : ⟨.runModule m, s₁, k⟩ ∈ j.course p n s) (hj : ∀ m, j ≠ .runModule m) {y : Stop} {s' : State}
    (hrun : j.run p n s = .error y s') :
    p.entry? s m.name = some (.notEvaluated m) ∧
      ((∃ r s₂, runModule p k m s₁ = .ok r s₂ ∧ p.entry? s' m.name = some (.evaluated m r.exports)) ∨
        runModule p k m s₁ = .error y s' ∧ p.entry? s' m.name = some (.notEvaluated m)) := by
  obtain ⟨hawaits, -⟩ := (asked_of_mem_course n hx).resolve_left fun heq => hj m (congrArg Begun.job heq)
  refine ⟨Program.entry?_eq_notEvaluated.2 ⟨hawaits.found, unkept_of_mem_course hx hawaits.unkept⟩, ?_⟩
  cases hr : runModule p k m s₁ with
  | ok r s₂ =>
    have hkept := kept_of_ended hnodup hx hj hr
    rw [hrun] at hkept
    exact .inl ⟨r, s₂, rfl, Program.entry?_eq_evaluated.2 ⟨hawaits.found, hkept⟩⟩
  | error z s₂ =>
    -- it has stopped the job too, so that was for this cause and in this state
    have hbroken : endOf ((⟨.runModule m, s₁, k⟩ : Begun).run p) = (some z, s₂) := by
      rw [Begun.run, Job.run, endOf_map, hr]
      rfl
    have hstops := course_stops p n hx hbroken
    rw [hrun] at hstops
    obtain ⟨hz, rfl⟩ := Prod.mk.inj hstops
    cases hz
    have hunkept := unkept_of_stopped hnodup hx hawaits hr
    rw [hrun] at hunkept
    exact .inr ⟨rfl, Program.entry?_eq_notEvaluated.2 ⟨hawaits.found, hunkept⟩⟩

theorem course_import (h : Awaits p m s) (name : String) (n : Nat) :
    (Job.exportedValue m.name name).course p (n + 1) s =
      ⟨.exportedValue m.name name, s, n + 1⟩ :: (Job.runModule m).course p n s := by
  have hparts : (Job.exportedValue m.name name).parts p n s = [(.runModule m, s)] := by
    simp only [Job.parts, Job.exportParts, if_neg h.notNative, h.found, h.unkept]
  rw [Job.course, hparts, List.flatMap_singleton]

end

/-! ## The import -/

theorem exists_run_of_mem {jobs : List Begun} {a : String} (h : a ∈ jobs.filterMap Begun.module?) :
    ∃ m s k, m.name = a ∧ ⟨.runModule m, s, k⟩ ∈ jobs := by
  obtain ⟨⟨j, s, k⟩, hx, ha⟩ := List.mem_filterMap.1 h
  cases j with
  | runModule m => exact ⟨m, s, k, Option.some.inj ha, hx⟩
  | _ => cases ha

theorem exportedValue_of_stop {p : Program} {s s' : State} {m : Module} {x : Stop} {n : Nat} (h : Awaits p m s)
    (hx : runModule p n m s = .error x s') (name : String) : exportedValue p (n + 1) m.name name s = .error x s' := by
  rw [exportedValue_unkept h.notNative h.found h.unkept, Run.bind_of_error hx]

/-- **A failed import leaves the modules that have ended, and nothing else.**  Let nothing that is imported be missing,
no imports form a cycle and no function import from a module, and let an import be made, with nothing being run, from a
module that is not evaluated.  If the module fails, the import fails for just that cause, whatever name was asked for.
In the course of the import that module was run, and perhaps others, each at most once, and none that was evaluated
before.  Each of them came to its end, and is now evaluated with the exports of that very run; or was broken off by this
failure, and is not evaluated.  Of all others the same is known as before.  An import that is made later, in any state
in which what is evaluated now still is, runs no evaluated module, and again only such as were broken off. -/
theorem failed_import_leaves (p : Program) (hmissing : missingImports p.modules = [])
    (hcycle : findCycle p.modules = .ok none) (hprompt : ∀ m ∈ p.modules, prompt m.body = true) {s : State}
    (hs : p.Rested s) {source : String} {m : Module} (hsource : source ≠ nativeName)
    (hentry : p.entry? s source = some (.notEvaluated m)) {n : Nat} {f : Failure} {s' : State}
    (hfails : runModule p n m s = .error (.failure f) s') (name : String) :
    let jobs := (Job.exportedValue source name).course p (n + 1) s
    exportedValue p (n + 1) source name s = .error (.failure f) s' ∧
      ⟨.runModule m, s, n⟩ ∈ jobs ∧ (jobs.filterMap Begun.module?).Nodup ∧
      (∀ m' s₁ k, ⟨.runModule m', s₁, k⟩ ∈ jobs → p.entry? s m'.name = some (.notEvaluated m') ∧
        ((∃ r s₂, runModule p k m' s₁ = .ok r s₂ ∧ p.entry? s' m'.name = some (.evaluated m' r.exports)) ∨
          runModule p k m' s₁ = .error (.failure f) s' ∧ p.entry? s' m'.name = some (.notEvaluated m'))) ∧
      (∀ a ∉ jobs.filterMap Begun.module?, p.entry? s' a = p.entry? s a) ∧
      ∀ t, (∀ a m exports, p.entry? s' a = some (.evaluated m exports) → p.entry? t a = some (.evaluated m exports)) →
        ∀ n' other x m' t₁ k', ⟨.runModule m', t₁, k'⟩ ∈ (Job.exportedValue other x).course p n' t →
          p.entry? t m'.name = some (.notEvaluated m') ∧
            ∀ s₁ k, ⟨.runModule m', s₁, k⟩ ∈ jobs → runModule p k m' s₁ = .error (.failure f) s' := by
  intro jobs
  obtain ⟨hm, hk⟩ := Program.entry?_eq_notEvaluated.1 hentry
  obtain rfl := findModule?_name hm
  have hawaits : Awaits p m s := ⟨hsource, hm, hk⟩
  have himport := exportedValue_of_stop hawaits hfails name
  have hjobs : jobs = _ := course_import hawaits name n
  have hnodup : (jobs.filterMap Begun.module?).Nodup := by
    rw [hjobs]
    exact nodup_course hmissing hcycle hprompt hs hm hk hfails fun hx => by cases hx
  have hrun : (Job.exportedValue m.name name).run p (n + 1) s = .error (.failure f) s' := Run.bind_of_error himport _
  have hmodules := fun m' s₁ k (hx : ⟨.runModule m', s₁, k⟩ ∈ jobs) =>
    ended_or_broken hnodup hx (fun m heq => by cases heq) hrun
  refine ⟨himport, ?_, hnodup, hmodules, fun a ha => ?_, fun t hretains n' other x m' t₁ k' hx => ?_⟩
  · cases n with
    | zero => cases hfails
    | succ n =>
      rw [hjobs]
      exact List.mem_cons_of_mem _ List.mem_cons_self
  · have horigin := (origin_along p).course (n + 1) (.exportedValue m.name name) s a
    rw [hrun] at horigin
    refine Program.entry?_congr (horigin.resolve_right ?_)
    rintro ⟨m', s₁, k, r, s₂, hx, rfl, -⟩
    exact ha (List.mem_filterMap.2 ⟨_, hx, rfl⟩)
  · obtain ⟨hawaits', -⟩ := (asked_of_mem_course n' hx).resolve_left fun heq => (by cases heq)
    have hnow := Program.entry?_eq_notEvaluated.2 ⟨hawaits'.found, unkept_of_mem_course hx hawaits'.unkept⟩
    refine ⟨hnow, fun s₁ k hx' => ?_⟩
    rcases (hmodules m' s₁ k hx').2 with ⟨r, s₂, -, hentry'⟩ | ⟨hbroken, -⟩
    · have hlater := hretains m'.name m' r.exports hentry'
      rw [hnow] at hlater
      cases hlater
    · exact hbroken

def workshopTop : Module := ⟨"Top", [.importFrom "Done" ["x"], .importFrom "Mid" ["y"]], []⟩

def workshopDone : Module := ⟨"Done", [.declare "x", .assign "x" (.boolean true)], ["x"]⟩

/-- `Deep` fails, after `Done` has come to its end and while `Mid` and `Top` are being run. -/
def workshop : Program where
  modules :=
    [workshopTop, workshopDone,
     ⟨"Mid", [.importFrom "Deep" ["z"], .function "y" [] []], ["y"]⟩,
     ⟨"Deep", [.importFrom "Done" ["x"], .run (.ref "nothing")], ["z"]⟩,
     ⟨"Spare", [], []⟩]
  natives := []

theorem workshop_failed_import :
    let s := State.initial (.queue []) (.steady 0)
    let jobs := (Job.exportedValue "Top" "y").course workshop 21 s
    missingImports workshop.modules = [] ∧ findCycle workshop.modules = .ok none ∧
      (∀ m ∈ workshop.modules, prompt m.body = true) ∧ workshop.Rested s ∧
      ∃ s', runModule workshop 20 workshopTop s = .error (.failure (.notInScope "nothing")) s' ∧
        exportedValue workshop 21 "Top" "y" s = .error (.failure (.notInScope "nothing")) s' ∧
        jobs.filterMap Begun.module? = ["Top", "Done", "Mid", "Deep"] ∧
        (∃ s₁ k r s₂, ⟨.runModule workshopDone, s₁, k⟩ ∈ jobs ∧ runModule workshop k workshopDone s₁ = .ok r s₂ ∧
          workshop.entry? s' "Done" = some (.evaluated workshopDone r.exports)) ∧
        (∀ a ∈ ["Top", "Mid", "Deep"], ∃ m, workshop.entry? s' a = some (.notEvaluated m)) ∧
        "Done" ∉ ((Job.exportedValue "Top" "y").course workshop 21 s').filterMap Begun.module? := by
  intro s jobs
  have hmissing : missingImports workshop.modules = [] := by decide
  have hcycle : findCycle workshop.modules = .ok none := by decide +kernel
  have hprompt : ∀ m ∈ workshop.modules, prompt m.body = true := by decide
  have hrested : workshop.Rested s := .fresh rfl rfl
  have hentry : workshop.entry? s "Top" = some (.notEvaluated workshopTop) := rfl
  have hstop : stopOf (runModule workshop 20 workshopTop s) = some (.failure (.notInScope "nothing")) := by
    decide +kernel
  have hnames : jobs.filterMap Begun.module? = ["Top", "Done", "Mid", "Deep"] := by decide +kernel
  have hdone : workshop.isEvaluated (stateOf (runModule workshop 20 workshopTop s)) "Done" = true := by decide +kernel
  have hopen : ∀ a ∈ ["Top", "Mid", "Deep"],
      workshop.isEvaluated (stateOf (runModule workshop 20 workshopTop s)) a = false := by decide +kernel
  obtain ⟨s', hfails⟩ := eq_error_of_stopOf hstop
  rw [hfails] at hdone hopen
  obtain ⟨himport, -, -, hmodules, -, hlater⟩ :=
    failed_import_leaves workshop hmissing hcycle hprompt hrested (by decide) hentry hfails "y"
  have hevaluated : ∀ {a m}, workshop.entry? s' a = some (.notEvaluated m) → workshop.isEvaluated s' a = false := by
    intro a m h
    rw [Program.isEvaluated, h]
  refine ⟨hmissing, hcycle, hprompt, hrested, s', hfails, himport, hnames, ?_, fun a ha => ?_, fun hagain => ?_⟩
  · have hmem : "Done" ∈ jobs.filterMap Begun.module? := by rw [hnames]; decide
    obtain ⟨m, s₁, k, hname, hx⟩ := exists_run_of_mem hmem
    obtain ⟨hbefore, hafter⟩ := hmodules m s₁ k hx
    rw [hname] at hbefore hafter
    cases hbefore
    rcases hafter with ⟨r, s₂, hr, hnow⟩ | ⟨-, hnow⟩
    · exact ⟨s₁, k, r, s₂, hx, hr, hnow⟩
    · cases hdone.symm.trans (hevaluated hnow)
  · have hmem : a ∈ jobs.filterMap Begun.module? := by
      rw [hnames]
      revert a
      decide
    obtain ⟨m, s₁, k, rfl, hx⟩ := exists_run_of_mem hmem
    rcases (hmodules m s₁ k hx).2 with ⟨r, s₂, -, hnow⟩ | ⟨-, hnow⟩
    · have hno := hopen m.name ha
      change workshop.isEvaluated s' m.name = false at hno
      rw [Program.isEvaluated, hnow] at hno
      cases hno
    · exact ⟨m, hnow⟩
  · obtain ⟨m, s₁, k, hname, hx⟩ := exists_run_of_mem hagain
    obtain ⟨hnow, -⟩ := hlater s' (fun _ _ _ h => h) 21 "Top" "y" m s₁ k hx
    rw [hname] at hnow
    cases hdone.symm.trans (hevaluated hnow)

end Thicket
