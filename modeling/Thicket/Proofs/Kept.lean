import Thicket.Proofs.Along
/-!
# Kept exports are final

What is kept of a module is written after its body has ended, in the middle of other bodies that are still running.  It
is written over what may have been kept in the meantime, so within a call the exports of a module can change.  From
where a call begins to where it ends they cannot: a module whose exports are kept is neither started nor written again,
whatever the call runs and however it ends.

The states meant are those that calls can lead to (`Program.Reached`).  Those in the middle of a call are among them: a
call that is made in the course of another begins in such a state too (`Program.Reached.amid`).  All that has to be
known of these states is that what is kept belongs to modules of the program and has the names that these export
(`Program.Faithful`).
-/
namespace Thicket

/-! ## What is known of a module -/

namespace Program

variable {p : Program} {s : State} {name : String} {m : Module} {exports : Table Value}

def Entry.module : Entry → Module
  | .notEvaluated m => m
  | .evaluated m _ => m

theorem module_entry? (p : Program) (s : State) (name : String) :
    (p.entry? s name).map Entry.module = findModule? p.modules name := by
  unfold entry?
  cases findModule? p.modules name with
  | none => rfl
  | some m => cases Table.get? s.memo name <;> rfl

theorem entry?_eq_evaluated :
    p.entry? s name = some (.evaluated m exports) ↔
      findModule? p.modules name = some m ∧ Table.get? s.memo name = some exports := by
  unfold entry?
  cases findModule? p.modules name with
  | none => simp
  | some a => cases Table.get? s.memo name <;> simp

/-- What is kept is kept of modules of the program, with the names that they export. -/
def Faithful (p : Program) (memo : Table (Table Value)) : Prop :=
  ∀ name exports, Table.get? memo name = some exports →
    name ≠ nativeName ∧ ∃ m, findModule? p.modules name = some m ∧ m.Offers exports

theorem Faithful.nil (p : Program) : p.Faithful [] := fun _ _ h => by cases h

theorem Faithful.insert {memo : Table (Table Value)} (h : p.Faithful memo) (hs : m.name ≠ nativeName)
    (hm : findModule? p.modules m.name = some m) (hoffers : m.Offers exports) :
    p.Faithful (Table.insert memo m.name exports) := by
  intro name found hfound
  rw [Table.get?_insert] at hfound
  split at hfound
  · rename_i heq
    cases hfound
    exact heq ▸ ⟨hs, m, hm, hoffers⟩
  · exact h name found hfound

theorem Faithful.isEvaluated (h : p.Faithful s.memo) (hk : (Table.get? s.memo name).isSome) :
    p.isEvaluated s name = true := by
  obtain ⟨exports, hk⟩ := Option.isSome_iff_exists.1 hk
  obtain ⟨-, m, hm, -⟩ := h name exports hk
  rw [Program.isEvaluated, entry?_eq_evaluated.2 ⟨hm, hk⟩]

/-- The states in which something may be asked of the evaluator: to begin with nothing is kept, and what is kept changes
by calls only.  Everything else may be different from one call to the next. -/
inductive Reached (p : Program) : State → Prop
  | fresh {s : State} : s.memo = [] → Reached p s
  | called {s : State} (n : Nat) (c : Call) : Reached p s → Reached p (stateOf (c.run p n s))
  | aside {s s' : State} : Reached p s → s'.memo = s.memo → Reached p s'

/-- Only keeping exports changes what is kept, and that is the end of an import. -/
theorem reached_along (p : Program) :
    Along p fun s jobs s' => p.Reached s → (∀ x ∈ jobs, p.Reached x.state) ∧ p.Reached s' where
  still h hs := by
    obtain ⟨store, rfl⟩ := h
    exact ⟨fun _ hx => (by cases hx), .aside hs rfl⟩
  append h h' hs := by
    obtain ⟨hjobs, hs₁⟩ := h hs
    obtain ⟨hjobs', hs'⟩ := h' hs₁
    exact ⟨List.forall_mem_append.2 ⟨hjobs, hjobs'⟩, hs'⟩
  noted _ hs := ⟨fun _ hx => (by cases hx), .aside hs rfl⟩
  host f args s n hs := ⟨List.forall_mem_singleton.2 hs, .aside hs (call_leaves f args s).1⟩
  opened {x} _ hs := by
    refine ⟨List.forall_mem_singleton.2 hs, .aside hs ?_⟩
    cases x.job <;> rfl
  kept {m name r n s s' jobs} hnative hm hk hr _ h hs := by
    have hcalled := Reached.called (n + 1) (.exportedValue m.name name) hs
    rw [Call.run, stateOf_map, stateOf_exportedValue _ hnative hm hk hr] at hcalled
    exact ⟨(h hs).1, hcalled⟩

/-- **What is begun in the course of a job is begun in such a state.** -/
theorem Reached.amid (h : p.Reached s) (n : Nat) (j : Job) : ∀ x ∈ j.course p n s, p.Reached x.state :=
  ((reached_along p).course n j s h).1

end Program

/-! ## What a call leaves alone -/

/-- Where `memo` was kept at first, this part of the log keeps nothing in its place and starts no module that is kept by
then. -/
structure Settled (memo : Table (Table Value)) (rest : List Event) : Prop where
  unstarted : ∀ pre m post, rest = pre ++ .moduleStarted m :: post → Table.get? memo m = none ∧ keeps m pre = 0
  unwritten : ∀ m, (Table.get? memo m).isSome → keeps m rest = 0

namespace Settled

variable {memo : Table (Table Value)} {rest : List Event}

theorem nil (memo : Table (Table Value)) : Settled memo [] :=
  ⟨fun pre m post h => by simp at h, fun _ _ => rfl⟩

theorem concat (h : Settled memo rest) {e : Event}
    (hstart : ∀ m, e = .moduleStarted m → Table.get? memo m = none ∧ keeps m rest = 0)
    (hkeep : ∀ x ∈ e.kept?, Table.get? memo x.1 = none) : Settled memo (rest ++ [e]) where
  unstarted pre a post heq := by
    rcases place_concat heq with ⟨rfl, ha⟩ | ⟨post', heq⟩
    · exact hstart a ha.symm
    · exact h.unstarted pre a post' heq
  unwritten a ha := by
    rw [keeps_concat, h.unwritten a ha, Nat.zero_add, List.count_eq_zero]
    intro hmem
    obtain ⟨x, hx, rfl⟩ := List.mem_map.1 hmem
    rw [hkeep x (Option.mem_toList.1 hx)] at ha
    cases ha

end Settled

/-- What holds at every point of a call: `memo₀` was kept when it began, and the log has grown by `rest` since. -/
structure Keeping (p : Program) (memo₀ memo : Table (Table Value)) (rest : List Event) : Prop where
  faithful : p.Faithful memo
  same : ∀ name exports, Table.get? memo₀ name = some exports → Table.get? memo name = some exports
  settled : Settled memo₀ rest
  found : ∀ m, 0 < keeps m rest → (Table.get? memo m).isSome

namespace Keeping

variable {p : Program} {memo₀ memo : Table (Table Value)} {rest : List Event} {m : Module}

theorem refl (h : p.Faithful memo) : Keeping p memo memo [] :=
  ⟨h, fun _ _ h => h, .nil memo, fun _ h => absurd h (Nat.lt_irrefl 0)⟩

/-- Of what is not kept now, nothing was kept before. -/
theorem unkept (h : Keeping p memo₀ memo rest) {name : String} (hk : Table.get? memo name = none) :
    Table.get? memo₀ name = none := by
  cases h₀ : Table.get? memo₀ name with
  | none => rfl
  | some exports =>
    rw [h.same name exports h₀] at hk
    cases hk

theorem start (h : Keeping p memo₀ memo rest) {name : String} (hk : Table.get? memo name = none) :
    Keeping p memo₀ memo (rest ++ [.moduleStarted name]) := by
  have hnone : keeps name rest = 0 := keeps_eq_zero (h.found name) hk
  refine ⟨h.faithful, h.same, h.settled.concat (fun a ha => ?_) fun x hx => (by cases hx), fun a ha => h.found a ?_⟩
  · cases ha
    exact ⟨h.unkept hk, hnone⟩
  · rwa [keeps_concat] at ha

theorem quiet (h : Keeping p memo₀ memo rest) {e : Event} (he : e.Quiet) : Keeping p memo₀ memo (rest ++ [e]) := by
  refine ⟨h.faithful, h.same, h.settled.concat (fun a ha => absurd ha (he.ne_started a)) fun x hx => ?_,
    fun a ha => h.found a ?_⟩
  · rw [he.kept?] at hx
    cases hx
  · rwa [keeps_concat_quiet he] at ha

/-- Keeping the exports of a module of which nothing was kept when the call began. -/
theorem keep (h : Keeping p memo₀ memo rest) (h₀ : Table.get? memo₀ m.name = none) (hs : m.name ≠ nativeName)
    (hm : findModule? p.modules m.name = some m) {exports : Table Value} (hoffers : m.Offers exports)
    (names : List String) :
    Keeping p memo₀ (Table.insert memo m.name exports) (rest ++ [.exportsKept m.name names]) where
  faithful := h.faithful.insert hs hm hoffers
  same name found hfound := by
    have hne : m.name ≠ name := fun heq => by
      rw [← heq, h₀] at hfound
      cases hfound
    rw [Table.get?_insert, if_neg hne]
    exact h.same name found hfound
  settled := h.settled.concat (fun _ ha => (by cases ha)) fun x hx => (by cases hx; exact h₀)
  found a ha := by
    rw [Table.get?_insert]
    split
    · rfl
    · rename_i hne
      refine h.found a ?_
      rw [keeps_concat] at ha
      simpa [Event.kept?, hne] using ha

end Keeping

/-- A call, watched from where `memo₀` was kept and the log was `log₀`. -/
def keeping (p : Program) (memo₀ : Table (Table Value)) (log₀ : List Event) : Watch where
  World := Unit
  Body _ := True
  Allowed _ _ := True
  Holds _ memo log := ∃ rest, log.toList = log₀ ++ rest ∧ Keeping p memo₀ memo rest
  Stopped _ _ s := ∃ rest, s.log.toList = log₀ ++ rest ∧ Keeping p memo₀ s.memo rest

theorem keeping_lawful (p : Program) (memo₀ : Table (Table Value)) (log₀ : List Event) :
    (keeping p memo₀ log₀).Lawful p where
  stop h _ := h
  fault _ h := h
  empty := trivial
  body _ _ _ := trivial
  function _ := trivial
  branch _ := ⟨fun _ _ => trivial, fun _ _ => trivial⟩
  loop _ _ _ := trivial
  missing h _ _ _ := h
  enters := by
    rintro w m names s ⟨rest, hlog, h⟩ - hs hm hk
    refine ⟨(), ⟨rest ++ [.moduleStarted m.name], ?_, h.start hk⟩, fun _ _ => trivial, fun _ _ _ hx => hx, ?_⟩
    · rw [Array.toList_push, hlog, List.append_assoc]
    · -- nothing was kept of the module when it was entered, so nothing was when the call began
      rintro s' exports - ⟨rest', hlog', h'⟩ hoffers
      have hquiet : Event.Quiet (.moduleFinished m.name exports.length) := trivial
      refine ⟨_, ?_, (h'.quiet hquiet).keep (h.unkept hk) hs hm hoffers (Table.names (Table.sorted exports))⟩
      simp only [Array.toList_push, hlog', List.append_assoc]

/-- The start of a module that a call is itself, and no import. -/
def Call.opening : Call → List Event
  | .runModule m => [.moduleStarted m.name]
  | _ => []

theorem keeping_of_inStep {α : Type} {p : Program} {s : State} {G : Unit → α → Prop} {f : Run α} (h : p.Faithful s.memo)
    (hf : (keeping p s.memo s.log.toList).pairing.InStep () G f f) :
    ∃ rest, (stateOf (f s)).log.toList = s.log.toList ++ rest ∧ Keeping p s.memo (stateOf (f s)).memo rest := by
  have hends := hf s s ⟨.refl s, .of_holds (fun _ => trivial) ⟨[], (List.append_nil _).symm, .refl h⟩⟩
  generalize f s = r at hends
  cases hends with
  | done _ hsim _ => exact hsim.2.holds
  | stopped hx => exact hx.2.2

theorem keeping_of_runModule {p : Program} {s : State} (h : p.Faithful s.memo) (n : Nat) (m : Module) :
    ∃ own rest, own <+: [.moduleStarted m.name] ∧
      (stateOf (runModule p n m s)).log.toList = s.log.toList ++ own ++ rest ∧
      Keeping p s.memo (stateOf (runModule p n m s)).memo rest := by
  have hstart : (keeping p s.memo (s.log.toList ++ [.moduleStarted m.name])).At () (s.started m) :=
    .of_holds (fun _ => trivial) ⟨[], by simp [State.started], .refl h⟩
  have hended := (keeping_lawful p s.memo _).runModule_ended hstart (fun _ _ => trivial) n
  generalize runModule p n m s = r at hended
  cases r with
  | ok r s' =>
    obtain ⟨s₁, hat, rfl⟩ := hended
    obtain ⟨rest, hlog, hrest⟩ := hat.holds
    have hquiet : Event.Quiet (.moduleFinished m.name r.exports.length) := trivial
    refine ⟨[.moduleStarted m.name], _, List.prefix_rfl, ?_, hrest.quiet hquiet⟩
    show (s₁.log.push _).toList = _
    rw [Array.toList_push, hlog, List.append_assoc]
  | error x s' =>
    rcases hended with ⟨-, rfl⟩ | ⟨rest, hlog, hrest⟩
    · exact ⟨[], [], List.nil_prefix, by simp [stateOf], .refl h⟩
    · exact ⟨[.moduleStarted m.name], rest, List.prefix_rfl, hlog, hrest⟩

/-- **A call leaves what is kept as it was**, up to its end or to the point at which it stops. -/
theorem call_keeping {p : Program} {s : State} (h : p.Faithful s.memo) (n : Nat) (c : Call) :
    ∃ own rest, own <+: c.opening ∧ (stateOf (c.run p n s)).log.toList = s.log.toList ++ own ++ rest ∧
      Keeping p s.memo (stateOf (c.run p n s)).memo rest := by
  have R := (keeping_lawful p s.memo s.log.toList).runs
  have hcall (hc : (keeping p s.memo s.log.toList).pairing.Admits () c) :
      ∃ own rest, own <+: c.opening ∧ (stateOf (c.run p n s)).log.toList = s.log.toList ++ own ++ rest ∧
        Keeping p s.memo (stateOf (c.run p n s)).memo rest := by
    obtain ⟨rest, hlog, hrest⟩ := keeping_of_inStep h (R.call_inStep hc n)
    exact ⟨[], rest, List.nil_prefix, by rw [hlog, List.append_nil], hrest⟩
  have hany : ∀ v : Value, (keeping p s.memo s.log.toList).pairing.Fine () v := fun v => by cases v <;> exact trivial
  cases c with
  | evaluate e expr => exact hcall ⟨trivial, fun x _ => (keeping_lawful p s.memo s.log.toList).hostLawful.mayMeet x⟩
  | apply f args => exact hcall ⟨hany f, fun v _ => hany v⟩
  | statement e st => exact hcall ⟨Watch.Lawful.room, trivial⟩
  | block e body => exact hcall ⟨Watch.Lawful.room, fun _ _ => trivial⟩
  | exportedValue source name => exact hcall ⟨[], trivial⟩
  | runModule m =>
    rw [Call.run, stateOf_map]
    exact keeping_of_runModule h n m

theorem Program.Reached.faithful {p : Program} {s : State} (h : p.Reached s) : p.Faithful s.memo := by
  induction h with
  | fresh hs =>
    rw [hs]
    exact .nil p
  | called n c _ ih =>
    obtain ⟨_, _, -, -, hkeeping⟩ := call_keeping ih n c
    exact hkeeping.faithful
  | aside _ hs ih =>
    rw [hs]
    exact ih

/-- While the exports of a module are kept, an import answers from them and does nothing else. -/
theorem exportedValue_of_kept {p : Program} {s : State} {name : String} {m : Module} {exports : Table Value}
    (h : p.Faithful s.memo) (hentry : p.entry? s name = some (.evaluated m exports)) (n : Nat) (x : String) :
    (x ∈ m.exports → ∃ v, Table.get? exports x = some v ∧ exportedValue p (n + 1) name x s = .ok v s) ∧
      (x ∉ m.exports → exportedValue p (n + 1) name x s = .error (.failure (.noSuchExport name x)) s) := by
  obtain ⟨hm, hk⟩ := Program.entry?_eq_evaluated.1 hentry
  obtain ⟨hs, m', hm', hoffers⟩ := h name exports hk
  obtain rfl : m = m' := Option.some.inj (hm.symm.trans hm')
  obtain rfl := findModule?_name hm
  rw [exportedValue_kept hs hm hk, ← hoffers x, ← Table.get?_isSome_iff]
  unfold pickExport
  cases Table.get? exports x with
  | none => exact ⟨fun hx => (by cases hx), fun _ => rfl⟩
  | some v => exact ⟨fun _ => ⟨v, rfl, rfl⟩, fun hx => absurd rfl hx⟩

/-- **Kept exports are final.**  Whatever is asked of the evaluator, in any state that calls can lead to, and however it
ends: every name means the same module as before; a module whose exports were kept has the same exports kept; apart from
the start of a module that the call was to run itself, none is started that is kept at that point, nothing is kept in
place of what was, and what the call keeps stays kept; and the exports kept of a module have exactly the names that it
exports.  So importing from a module whose exports are kept gives the value, or fails for lack of one, and changes
nothing.  The same can be said of every call that is made on the way: whatever a job or a program has done in its course
is begun in such a state. -/
theorem kept_exports_final (p : Program) {s : State} (hs : p.Reached s) (n : Nat) (c : Call) :
    let s' := stateOf (c.run p n s)
    (∀ name, (p.entry? s' name).map Program.Entry.module = (p.entry? s name).map Program.Entry.module) ∧
      (∀ name m exports, p.entry? s name = some (.evaluated m exports) →
        p.entry? s' name = some (.evaluated m exports)) ∧
      (∃ own rest, own <+: c.opening ∧ s'.log.toList = s.log.toList ++ own ++ rest ∧ Settled s.memo rest ∧
        ∀ name, 0 < keeps name rest → p.isEvaluated s' name = true) ∧
      (∀ name m exports, p.entry? s' name = some (.evaluated m exports) → m.Offers exports) ∧
      (∀ name m exports, p.entry? s name = some (.evaluated m exports) → ∀ k x,
        (x ∈ m.exports → ∃ v, Table.get? exports x = some v ∧ exportedValue p (k + 1) name x s = .ok v s) ∧
          (x ∉ m.exports → exportedValue p (k + 1) name x s = .error (.failure (.noSuchExport name x)) s)) ∧
      (∀ k (j : Job), ∀ x ∈ j.course p k s, p.Reached x.state) ∧
      ∀ k check, ∀ x ∈ p.course k check s, p.Reached x.state := by
  intro s'
  obtain ⟨own, rest, hown, hlog, hkeeping⟩ := call_keeping hs.faithful n c
  refine ⟨fun name => ?_, fun name m exports hentry => ?_,
    ⟨own, rest, hown, hlog, hkeeping.settled, fun name hname => ?_⟩,
    fun name m exports hentry => ?_, fun name m exports hentry => exportedValue_of_kept hs.faithful hentry, hs.amid,
    fun k check => ((Program.reached_along p).run k check s hs).1⟩
  · rw [Program.module_entry?, Program.module_entry?]
  · rw [Program.entry?_eq_evaluated] at hentry ⊢
    exact ⟨hentry.1, hkeeping.same name exports hentry.2⟩
  · exact hkeeping.faithful.isEvaluated (hkeeping.found name hname)
  · obtain ⟨hm, hk⟩ := Program.entry?_eq_evaluated.1 hentry
    obtain ⟨-, m', hm', hoffers⟩ := hkeeping.faithful name exports hk
    rw [hm] at hm'
    cases hm'
    exact hoffers

def shelfLib : Module := ⟨"Lib", [.declare "pearl", .assign "pearl" (.boolean true)], ["pearl"]⟩

/-- It imports from `Lib` and then fails. -/
def shelfBroken : Module := ⟨"Broken", [.importFrom "Lib" ["pearl"], .run (.ref "nothing")], []⟩

def shelf : Program := ⟨[shelfLib, shelfBroken], []⟩

/-- The state after an import from `Broken`. -/
def shelfState : State :=
  stateOf ((Call.exportedValue "Broken" "x").run shelf 20 (State.initial (.queue []) (.steady 0)))

theorem shelf_exports_final :
    shelf.Reached shelfState ∧ shelf.entry? shelfState "Broken" = some (.notEvaluated shelfBroken) ∧
      shelf.entry? shelfState "Lib" = some (.evaluated shelfLib [("pearl", .boolean true)]) ∧
      shelf.entry? (stateOf ((Call.exportedValue "Broken" "x").run shelf 20 shelfState)) "Lib" =
        some (.evaluated shelfLib [("pearl", .boolean true)]) ∧
      exportedValue shelf 1 "Lib" "pearl" shelfState = .ok (.boolean true) shelfState ∧
      exportedValue shelf 1 "Lib" "x" shelfState = .error (.failure (.noSuchExport "Lib" "x")) shelfState := by
  have hreached : shelf.Reached shelfState := .called 20 _ (.fresh rfl)
  have hentry : shelf.entry? shelfState "Lib" = some (.evaluated shelfLib [("pearl", .boolean true)]) := rfl
  obtain ⟨-, hsame, -, -, hanswers, -⟩ := kept_exports_final shelf hreached 20 (.exportedValue "Broken" "x")
  obtain ⟨v, hv, hpearl⟩ := (hanswers "Lib" _ _ hentry 0 "pearl").1 (by decide)
  cases hv
  exact ⟨hreached, rfl, hentry, hsame "Lib" _ _ hentry, hpearl, (hanswers "Lib" _ _ hentry 0 "x").2 (by decide)⟩

end Thicket
