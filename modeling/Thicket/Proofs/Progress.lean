import Thicket.Proofs.Watch
/-!
# Which modules are being run

The log tells when the body of a module is started, when it is finished, and when its exports are kept.  From that one
reads off which modules are being run at any point, innermost first (`running`), and how often each was started and
kept.  Two things are watched along a run:

* the books are kept (`Ledger`): a module that was started is being run or was kept, and what is kept is what the log
  says, so a module is started a second time only while it is still being run;
* where no function imports anything, the modules being run follow the imports, all along the log (`Orderly`), so where
  these have no cycle that never happens.
-/
namespace Thicket

/-! ## What the log tells -/

def Event.after (chain : List String) : Event → List String
  | .moduleStarted m => m :: chain
  | .moduleFinished _ _ => chain.tail
  | _ => chain

/-- The modules whose bodies are being run, innermost first. -/
def running (log : List Event) : List String := log.foldl Event.after []

def starts (m : String) (log : List Event) : Nat := log.count (.moduleStarted m)

/-- The module that an event says is started. -/
def Event.started? : Event → Option String
  | .moduleStarted m => some m
  | _ => none

/-- The modules that were started, in order. -/
def started (log : List Event) : List String := log.filterMap Event.started?

/-- The module whose exports an event says are kept from now on, with their names. -/
def Event.kept? : Event → Option (String × List String)
  | .exportsKept m names => some (m, names)
  | _ => none

def recorded (log : List Event) : List (String × List String) := log.filterMap Event.kept?

def keeps (m : String) (log : List Event) : Nat := ((recorded log).map Prod.fst).count m

/-- Some module was started while it was being run. -/
def Reenters (log : List Event) : Prop := ∃ pre m post, log = pre ++ .moduleStarted m :: post ∧ m ∈ running pre

/-- The event neither starts a module nor keeps exports. -/
def Event.Quiet : Event → Prop
  | .moduleStarted _ | .exportsKept _ _ => False
  | _ => True

theorem running_concat (log : List Event) (e : Event) : running (log ++ [e]) = Event.after (running log) e := by
  simp [running]

theorem starts_concat (m : String) (log : List Event) (e : Event) :
    starts m (log ++ [e]) = starts m log + if e = .moduleStarted m then 1 else 0 := by
  simp [starts, List.count_singleton]

theorem started_concat (log : List Event) (e : Event) : started (log ++ [e]) = started log ++ e.started?.toList := by
  cases h : e.started? <;> simp [started, h]

theorem recorded_concat (log : List Event) (e : Event) : recorded (log ++ [e]) = recorded log ++ e.kept?.toList := by
  cases h : e.kept? <;> simp [recorded, h]

theorem keeps_concat (m : String) (log : List Event) (e : Event) :
    keeps m (log ++ [e]) = keeps m log + (e.kept?.toList.map Prod.fst).count m := by
  simp only [keeps, recorded_concat, List.map_append, List.count_append]

/-- A place in a longer log is its end or a place in the log before. -/
theorem place_concat {log pre post : List Event} {e x : Event} (h : log ++ [e] = pre ++ x :: post) :
    (pre = log ∧ x = e) ∨ ∃ rest, log = pre ++ x :: rest := by
  rcases List.eq_nil_or_concat post with rfl | ⟨rest, e', rfl⟩
  · obtain ⟨rfl, hlast⟩ := List.append_inj' h rfl
    exact .inl ⟨rfl, (List.cons.inj hlast).1.symm⟩
  · rw [List.concat_eq_append, ← List.cons_append, ← List.append_assoc] at h
    exact .inr ⟨rest, (List.append_inj' h rfl).1⟩

theorem reenters_concat (log : List Event) (e : Event) :
    Reenters (log ++ [e]) ↔ Reenters log ∨ ∃ m, e = .moduleStarted m ∧ m ∈ running log := by
  constructor
  · rintro ⟨pre, m, post, heq, hm⟩
    rcases place_concat heq with ⟨rfl, rfl⟩ | ⟨rest, rfl⟩
    · exact .inr ⟨m, rfl, hm⟩
    · exact .inl ⟨pre, m, rest, rfl, hm⟩
  · rintro (⟨pre, m, post, rfl, hm⟩ | ⟨m, rfl, hm⟩)
    · exact ⟨pre, m, post ++ [e], by simp, hm⟩
    · exact ⟨log, m, [], rfl, hm⟩

/-! Of a quiet event neither the starts nor what is kept take notice. -/

theorem Event.Quiet.kept? {e : Event} (h : e.Quiet) : e.kept? = none := by
  cases e <;> first | rfl | exact absurd h id

theorem Event.Quiet.started? {e : Event} (h : e.Quiet) : e.started? = none := by
  cases e <;> first | rfl | exact absurd h id

theorem Event.Quiet.ne_started {e : Event} (h : e.Quiet) (m : String) : e ≠ .moduleStarted m :=
  fun he => by rw [he] at h; exact h

theorem starts_concat_quiet {e : Event} (h : e.Quiet) (m : String) (log : List Event) :
    starts m (log ++ [e]) = starts m log := by
  rw [starts_concat, if_neg (h.ne_started m), Nat.add_zero]

theorem recorded_concat_quiet {e : Event} (h : e.Quiet) (log : List Event) : recorded (log ++ [e]) = recorded log := by
  rw [recorded_concat, h.kept?, Option.toList_none, List.append_nil]

theorem keeps_concat_quiet {e : Event} (h : e.Quiet) (m : String) (log : List Event) :
    keeps m (log ++ [e]) = keeps m log := by
  rw [keeps, recorded_concat_quiet h, ← keeps]

theorem reenters_concat_quiet {e : Event} (h : e.Quiet) (log : List Event) : Reenters (log ++ [e]) ↔ Reenters log := by
  rw [reenters_concat, or_iff_left]
  rintro ⟨m, he, -⟩
  exact h.ne_started m he

theorem starts_pos_of_mem_running {m : String} {log : List Event} (h : m ∈ running log) : 0 < starts m log := by
  induction log using List.reverseRecOn with
  | nil => cases h
  | append_singleton log e ih =>
    rw [running_concat] at h
    rw [starts_concat]
    cases e with
    | moduleStarted a =>
      rcases List.mem_cons.1 h with rfl | h
      · simp
      · exact Nat.add_pos_left (ih h) _
    | moduleFinished a k => exact Nat.add_pos_left (ih (List.mem_of_mem_tail h)) _
    | unknownImport _ _ | cycleFound _ | noCycle _ | programStarted _ | exportsKept _ _ | programFailed _ =>
      exact Nat.add_pos_left (ih h) _

theorem two_starts_of_reenters {log : List Event} (h : Reenters log) : ∃ m, 2 ≤ starts m log := by
  obtain ⟨pre, m, post, rfl, hm⟩ := h
  refine ⟨m, ?_⟩
  have hpre := starts_pos_of_mem_running hm
  simp only [starts, List.count_append, List.count_cons_self] at hpre ⊢
  omega

/-! ## The books -/

/-- What is kept is what has been written, and each writing is on record. -/
def Recorded (memo : Table (Table Value)) (log : List Event) : Prop :=
  ∃ writes : List (String × Table Value), memo = Table.ofPairs writes ∧
    recorded log = writes.map fun x => (x.1, Table.names (Table.sorted x.2))

theorem keeps_eq_zero {memo : Table (Table Value)} {log : List Event} {m : String}
    (hfound : 0 < keeps m log → (Table.get? memo m).isSome) (hk : Table.get? memo m = none) : keeps m log = 0 := by
  by_contra hne
  have hsome := hfound (Nat.pos_of_ne_zero hne)
  rw [hk] at hsome
  cases hsome

/-- What the log and the kept exports say together, while the modules of `chain` are being run. -/
structure Ledger (chain : List String) (memo : Table (Table Value)) (log : List Event) : Prop where
  running : running log = chain
  /-- A module that was started is being run or was kept, once for each start. -/
  balance : ∀ m, starts m log = chain.count m + keeps m log
  found : ∀ m, 0 < keeps m log → (Table.get? memo m).isSome
  once : ¬ Reenters log → ∀ m, starts m log ≤ 1
  writes : Recorded memo log

namespace Ledger

variable {chain : List String} {memo : Table (Table Value)} {log : List Event} {m : String}

theorem empty : Ledger [] [] [] :=
  ⟨rfl, fun _ => rfl, fun _ h => absurd h (Nat.lt_irrefl 0), fun _ _ => Nat.zero_le 1, [], rfl, rfl⟩

theorem idle (h : Ledger chain memo log) {e : Event} (he : e.Quiet) (hafter : Event.after chain e = chain) :
    Ledger chain memo (log ++ [e]) where
  running := by rw [running_concat, h.running, hafter]
  balance m := by rw [starts_concat_quiet he, keeps_concat_quiet he]; exact h.balance m
  found m hm := h.found m (by rwa [keeps_concat_quiet he] at hm)
  once hno m := by rw [starts_concat_quiet he]; exact h.once (fun hre => hno ((reenters_concat_quiet he log).2 hre)) m
  writes := by rw [Recorded, recorded_concat_quiet he]; exact h.writes

theorem start (h : Ledger chain memo log) (hk : Table.get? memo m = none) :
    Ledger (m :: chain) memo (log ++ [.moduleStarted m]) := by
  -- nothing was kept for `m`, so each of its starts stands on the chain
  have hnone : keeps m log = 0 := keeps_eq_zero (h.found m) hk
  have hkeeps : ∀ a, keeps a (log ++ [.moduleStarted m]) = keeps a log := fun a => by rw [keeps_concat]; rfl
  refine ⟨by rw [running_concat, h.running]; rfl, fun a => ?_, fun a ha => h.found a (hkeeps a ▸ ha),
    fun hno a => ?_, ?_⟩
  · rw [starts_concat, hkeeps, h.balance, List.count_cons]
    by_cases hma : m = a
    · simp [hma]
      omega
    · simp [hma]
  · rw [reenters_concat, not_or] at hno
    have hfree : m ∉ chain := fun hm => hno.2 ⟨m, rfl, h.running ▸ hm⟩
    have ha := h.once hno.1 a
    have hb := h.balance m
    rw [List.count_eq_zero.2 hfree, hnone] at hb
    rw [starts_concat]
    by_cases hma : m = a
    · subst hma
      simp [hb]
    · simp [hma, ha]
  · obtain ⟨writes, hmemo, hrec⟩ := h.writes
    exact ⟨writes, hmemo, by rw [recorded_concat, hrec]; simp [Event.kept?]⟩

theorem keep (h : Ledger (m :: chain) memo log) (k : Nat) (exports : Table Value) :
    Ledger chain (Table.insert memo m exports)
      (log ++ [.moduleFinished m k] ++ [.exportsKept m (Table.names (Table.sorted exports))]) := by
  have hquiet : Event.Quiet (.moduleFinished m k) := trivial
  have hkeeps : ∀ a, keeps a (log ++ [.moduleFinished m k] ++ [.exportsKept m (Table.names (Table.sorted exports))]) =
      keeps a log + if m = a then 1 else 0 := by
    intro a
    rw [keeps_concat, keeps_concat_quiet hquiet]
    simp [Event.kept?, List.count_singleton]
  have hstarts : ∀ a, starts a (log ++ [.moduleFinished m k] ++ [.exportsKept m (Table.names (Table.sorted exports))]) =
      starts a log := by
    intro a
    rw [starts_concat, starts_concat_quiet hquiet]
    simp
  refine ⟨by rw [running_concat, running_concat, h.running]; rfl, fun a => ?_, fun a ha => ?_, fun hno a => ?_, ?_⟩
  · rw [hstarts, hkeeps, h.balance, List.count_cons]
    by_cases hma : m = a
    · simp [hma]
      omega
    · simp [hma]
  · rw [hkeeps] at ha
    rw [Table.get?_insert]
    by_cases hma : m = a
    · simp [hma]
    · simp only [hma, if_false, Nat.add_zero] at ha ⊢
      exact h.found a ha
  · rw [hstarts]
    refine h.once (fun hre => hno ?_) a
    rw [reenters_concat, reenters_concat_quiet hquiet]
    exact .inl hre
  · obtain ⟨writes, hmemo, hrec⟩ := h.writes
    refine ⟨writes ++ [(m, exports)], ?_, ?_⟩
    · rw [hmemo, Table.ofPairs, Table.ofPairs, List.foldl_append]
      rfl
    · rw [recorded_concat, recorded_concat_quiet hquiet, hrec]
      simp [Event.kept?]

/-- **A module is started again exactly if that happens while it is being run**, and it is not kept more often than it
is started. -/
theorem once_iff (h : Ledger chain memo log) :
    (∀ m, starts m log ≤ 1 ∧ keeps m log ≤ 1) ↔ ¬ Reenters log := by
  constructor
  · intro hall hre
    obtain ⟨m, hm⟩ := two_starts_of_reenters hre
    have := (hall m).1
    omega
  · intro hno m
    have hs := h.once hno m
    have hb := h.balance m
    exact ⟨hs, by omega⟩

end Ledger

def ledger : Watch where
  World := List String
  Body _ := True
  Allowed _ _ := True
  Holds chain memo log := Ledger chain memo log.toList
  Stopped _ _ s := ∃ chain, Ledger chain s.memo s.log.toList

theorem ledger_lawful (p : Program) : ledger.Lawful p where
  stop h _ := ⟨_, h⟩
  fault _ h := ⟨_, h⟩
  empty := trivial
  body _ _ _ := trivial
  function _ := trivial
  branch _ := ⟨fun _ _ => trivial, fun _ _ => trivial⟩
  loop _ _ _ := trivial
  missing h _ _ _ := ⟨_, h⟩
  enters := by
    intro chain m names s h _ _ _ hk
    refine ⟨m.name :: chain, ?_, fun _ _ => trivial, fun _ _ _ hx => hx, fun s' exports _ h' _ => ?_⟩
    · show Ledger (m.name :: chain) s.memo _
      rw [Array.toList_push]
      exact h.start hk
    · show Ledger chain _ _
      rw [Array.toList_push, Array.toList_push]
      exact h'.keep _ exports

/-! ## Following the imports -/

mutual

/-- No function in the statement, at any depth, imports from a module. -/
def Stmt.prompt : Stmt → Bool
  | .function _ _ body => (importsOf body).isEmpty
  | .branch _ whenTrue whenFalse => prompt whenTrue && prompt whenFalse
  | .loop _ body => prompt body
  | _ => true

/-- All imports from modules stand outside functions, so that they are made as the body runs. -/
def prompt : List Stmt → Bool
  | [] => true
  | s :: rest => s.prompt && prompt rest

end

theorem prompt_iff (body : List Stmt) : prompt body = true ↔ ∀ st ∈ body, st.prompt = true := by
  induction body with
  | nil => simp [prompt]
  | cons s rest ih => simp [prompt, ih]

mutual

theorem Stmt.prompt_of_imports : ∀ st : Stmt, st.imports = [] → st.prompt = true
  | .function _ _ body, h => by simpa [Stmt.prompt, Stmt.imports] using h
  | .branch _ whenTrue whenFalse, h => by
    rw [Stmt.imports, List.append_eq_nil_iff] at h
    rw [Stmt.prompt, prompt_of_importsOf whenTrue h.1, prompt_of_importsOf whenFalse h.2]
    rfl
  | .loop _ body, h => prompt_of_importsOf body h
  | .giveBack _, _ | .declare _, _ | .assign _ _, _ | .setField _ _ _, _ | .run _, _ | .importFrom _ _, _
  | .other _ _, _ => rfl

theorem prompt_of_importsOf : ∀ body : List Stmt, importsOf body = [] → prompt body = true
  | [], _ => rfl
  | s :: rest, h => by
    rw [importsOf, List.append_eq_nil_iff] at h
    rw [prompt, s.prompt_of_imports h.1, prompt_of_importsOf rest h.2]
    rfl

end

theorem imports_eq_nil_of_mem {body : List Stmt} (h : importsOf body = []) {st : Stmt} (hst : st ∈ body) :
    st.imports = [] :=
  List.eq_nil_iff_forall_not_mem.2 fun i hi => by
    have hmem := (mem_importsOf body i).2 ⟨st, hst, hi⟩
    rw [h] at hmem
    cases hmem

/-- Each module was imported by the next, in the sense of `R`, and none is there twice. -/
def Linked (R : String → String → Prop) (chain : List String) : Prop :=
  chain.IsChain (fun a b => R b a) ∧ chain.Nodup

/-- At every point of the log, this holds of the modules being run. -/
def Orderly (C : List String → Prop) (log : List Event) : Prop :=
  ∀ pre post, log = pre ++ post → C (running pre)

variable {C : List String → Prop} {R : String → String → Prop}

theorem Orderly.nil (h : C []) : Orderly C [] := by
  intro pre post heq
  rw [(List.append_eq_nil_iff.1 heq.symm).1]
  exact h

theorem Orderly.concat {log : List Event} {e : Event} (h : Orderly C log) (he : C (Event.after (running log) e)) :
    Orderly C (log ++ [e]) := by
  intro pre post heq
  rcases List.eq_nil_or_concat post with rfl | ⟨post, e', rfl⟩
  · rw [← heq.trans (List.append_nil pre), running_concat]
    exact he
  · rw [List.concat_eq_append, ← List.append_assoc] at heq
    exact h pre post (List.append_inj' heq rfl).1

theorem Orderly.not_reenters {log : List Event} (h : Orderly (Linked R) log) : ¬ Reenters log := by
  rintro ⟨pre, m, post, rfl, hm⟩
  have hlinked := (h (pre ++ [.moduleStarted m]) post (by simp)).2
  rw [running_concat] at hlinked
  exact (List.nodup_cons.1 hlinked).1 hm

/-- Without a cycle of imports, a module that the innermost one imports is not being run. -/
theorem Linked.cons (hacyclic : ∀ m, ¬ Relation.TransGen R m m) {m a : String} {chain : List String}
    (h : Linked R chain) (ha : a ∈ chain.head?) (him : R a m) : Linked R (m :: chain) := by
  have hchain : (m :: chain).IsChain fun a b => R b a := by
    cases chain with
    | nil => cases ha
    | cons b rest =>
      cases ha
      exact List.isChain_cons_cons.2 ⟨him, h.1⟩
  -- every module of the chain leads to those before it, so `m` further down would lead to itself
  have htrans : IsTrans String fun a b => Relation.TransGen R b a := ⟨fun _ _ _ h h' => h'.trans h⟩
  have hall := List.isChain_iff_pairwise.1 (hchain.imp fun _ _ => Relation.TransGen.single)
  exact ⟨hchain, List.nodup_cons.2 ⟨fun hm => hacyclic m ((List.pairwise_cons.1 hall).1 m hm), h.2⟩⟩

/-- The imports of the module are made as its body runs, and are imports in the sense of `R`. -/
def Module.Follows (R : String → String → Prop) (m : Module) : Prop :=
  prompt m.body = true ∧ ∀ i ∈ collectImports m.body, R m.name i

/-- Imports are made as bodies run, and by the module that is being run. -/
def orderly (C : List String → Prop) (R : String → String → Prop) : Watch where
  World := List String
  Body body := importsOf body = []
  Allowed chain st := st.prompt = true ∧ ∀ i ∈ st.imports, ∃ a ∈ chain.head?, R a i
  Holds chain _ log := running log.toList = chain ∧ Orderly C log.toList
  Stopped _ _ s := Orderly C s.log.toList

theorem orderly_allowed {m : Module} (hm : m.Follows R) (chain : List String) :
    ∀ st ∈ m.body, (orderly C R).Allowed (m.name :: chain) st := by
  intro st hst
  refine ⟨(prompt_iff m.body).1 hm.1 st hst, fun i hi => ⟨m.name, rfl, hm.2 i ?_⟩⟩
  rw [mem_collectImports, mem_importsOf]
  exact ⟨st, hst, hi⟩

theorem orderly_lawful {p : Program} (hstep : ∀ {chain a b}, C chain → a ∈ chain.head? → R a b → C (b :: chain))
    (hmodules : ∀ {name m}, findModule? p.modules name = some m → m.Follows R) : (orderly C R).Lawful p where
  stop h _ := h.2
  fault _ h := h.2
  empty := rfl
  body := by
    intro chain body hbody st hst
    have hnone := imports_eq_nil_of_mem hbody hst
    exact ⟨st.prompt_of_imports hnone, fun i hi => by rw [hnone] at hi; cases hi⟩
  function h := List.isEmpty_iff.1 h.1
  branch := by
    rintro chain condition whenTrue whenFalse ⟨hp, himp⟩
    rw [Stmt.prompt, Bool.and_eq_true, prompt_iff, prompt_iff] at hp
    refine ⟨fun st hst => ⟨hp.1 st hst, fun i hi => himp i ?_⟩, fun st hst => ⟨hp.2 st hst, fun i hi => himp i ?_⟩⟩
    · exact List.mem_append_left _ ((mem_importsOf whenTrue i).2 ⟨st, hst, hi⟩)
    · exact List.mem_append_right _ ((mem_importsOf whenFalse i).2 ⟨st, hst, hi⟩)
  loop := by
    rintro chain condition body ⟨hp, himp⟩ st hst
    exact ⟨(prompt_iff body).1 hp st hst, fun i hi => himp i ((mem_importsOf body i).2 ⟨st, hst, hi⟩)⟩
  missing h _ _ _ := h.2
  enters := by
    rintro chain m names s ⟨hrun, hord⟩ ⟨-, himp⟩ hs hm -
    obtain ⟨a, ha, him⟩ := himp m.name (by simp [Stmt.imports, hs])
    have hchain : C chain := hrun ▸ hord s.log.toList [] (List.append_nil _).symm
    refine ⟨m.name :: chain, ?_, orderly_allowed (hmodules hm) chain, fun _ _ _ hx => hx, ?_⟩
    · show running _ = _ ∧ Orderly _ _
      rw [Array.toList_push, running_concat, hrun]
      exact ⟨rfl, hord.concat (hrun ▸ hstep hchain ha him)⟩
    · rintro s' exports - ⟨hrun', hord'⟩ -
      show running _ = _ ∧ Orderly _ _
      rw [Array.toList_push, Array.toList_push, running_concat, running_concat, hrun']
      refine ⟨rfl, (hord'.concat ?_).concat ?_⟩
      · rw [hrun']
        exact hchain
      · rw [running_concat, hrun']
        exact hchain

end Thicket
