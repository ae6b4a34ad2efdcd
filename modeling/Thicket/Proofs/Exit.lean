import Thicket.Cli.Command
import Thicket.Proofs.Answers
import Thicket.Proofs.Grammar
import Thicket.Proofs.Relevance
import Thicket.Proofs.Showing
/-!
# How a command ends

A command that is given files ends with the exit code 0 or 1, whatever the files hold, with a few exceptions.  Four are
met while the files are read: a path that no file can have, bytes that are no text, an integer with more digits than can
be read, and a number beyond the doubles.  The first file that cannot be loaded decides, so that none of them matters
behind a file that is turned down.  The others are met once all files are loaded and a program is to be run: the text of
its input lines can hold too long an integer as well, and the option can be there without a text.

Otherwise nothing else can happen: the check always answers, the standard host never breaks a run off, and a value in
which no object is nested in itself can be shown.

Texts are made of characters here.  So nothing is said of a string that holds half of a surrogate pair, as the escapes
of a document can write it (`PlainText`).
-/
namespace Thicket

namespace Cli

/-! ## What the files come to -/

/-- An integer is met in the text of the file that has more digits than can be read, with nothing malformed before
it. -/
def Overlong (bytes : ByteArray) : Prop :=
  ∃ text, String.fromUTF8? bytes = some text ∧ Json.parse (Text.unifyNewlines text.toList) = .error .tooManyDigits

/-- A number literal beyond the doubles is met in the text of the file, with nothing malformed before it. -/
def Oversized (bytes : ByteArray) : Prop :=
  ∃ text doc before x after, String.fromUTF8? bytes = some text ∧
    Json.parse (Text.unifyNewlines text.toList) = .ok doc ∧ documentLooks doc = before ++ x :: after ∧ x.TooLarge ∧
      Sound before

theorem loadModules_ne {doc : Json} {e : LoadError} (he : e.OfText) : loadModules doc ≠ .error e := by
  rw [ne_eq, ← Load.error?_eq_some_iff, loadModules_error?, firstError_eq_some_iff]
  rintro ⟨before, x, after, -, hx, -⟩
  exact x.error?_ne he hx

theorem loadText_eq_overflow_iff {text : List Char} : loadText text = .error .overflow ↔
    ∃ doc before x after, Json.parse text = .ok doc ∧ documentLooks doc = before ++ x :: after ∧ x.TooLarge ∧
      Sound before := by
  unfold loadText
  cases Json.parse text with
  | error e => cases e <;> simp [Load.fail]
  | ok doc =>
    simp only [← Load.error?_eq_some_iff, loadModules_error?, firstError_eq_overflow_iff, Except.ok.injEq,
      exists_and_left, exists_eq_left']

theorem loadText_eq_tooManyDigits_iff {text : List Char} :
    loadText text = .error .tooManyDigits ↔ Json.parse text = .error .tooManyDigits := by
  unfold loadText
  cases Json.parse text with
  | error e => cases e <;> simp [Load.fail]
  | ok doc => simp [loadModules_ne (e := .tooManyDigits) trivial]

theorem loadText_ne_notText {text : List Char} : loadText text ≠ .error .notText := by
  unfold loadText
  cases Json.parse text with
  | error e => cases e <;> simp [Load.fail]
  | ok doc => exact loadModules_ne trivial

theorem loadFile_eq_overflow_iff {bytes : ByteArray} : loadFile bytes = .error .overflow ↔ Oversized bytes := by
  unfold loadFile Oversized
  cases String.fromUTF8? bytes with
  | none => simp
  | some text => simp only [loadText_eq_overflow_iff, Option.some.injEq, exists_and_left, exists_eq_left']

theorem loadFile_eq_tooManyDigits_iff {bytes : ByteArray} :
    loadFile bytes = .error .tooManyDigits ↔ Overlong bytes := by
  unfold loadFile Overlong
  cases String.fromUTF8? bytes with
  | none => simp
  | some text => simp only [loadText_eq_tooManyDigits_iff, Option.some.injEq, exists_eq_left']

theorem loadFile_eq_notText_iff {bytes : ByteArray} :
    loadFile bytes = .error .notText ↔ String.fromUTF8? bytes = none := by
  unfold loadFile
  cases String.fromUTF8? bytes with
  | none => simp
  | some text => simp [loadText_ne_notText]

theorem written_of_loadFile {bytes : ByteArray} {ms : List Module} (h : loadFile bytes = .ok ms) :
    ∀ m ∈ ms, m.Written := by
  unfold loadFile at h
  cases htext : String.fromUTF8? bytes with
  | none => simp [htext] at h
  | some text =>
    simp only [htext, loadText] at h
    cases hdoc : Json.parse (Text.unifyNewlines text.toList) with
    | error e => cases e <;> simp [hdoc, Load.fail] at h
    | ok doc =>
      simp only [hdoc] at h
      exact written_of_loadModules doc ms h

variable (read : String → Except FileProblem ByteArray)

/-- A file can have this path, and there are these bytes. -/
def Reads (path : String) (bytes : ByteArray) : Prop := Char.ofNat 0 ∉ path.toList ∧ read path = .ok bytes

/-- The files hold these modules, one file after the other. -/
inductive Loads : List String → List Module → Prop
  | nil : Loads [] []
  | cons {path : String} {bytes : ByteArray} {ms ms' : List Module} {rest : List String} : Reads read path bytes →
      loadFile bytes = .ok ms → Loads rest ms' → Loads (path :: rest) (ms ++ ms')

/-- How reading a file breaks off. -/
inductive BreaksAt (path : String) : Ending → Prop
  | path : Char.ofNat 0 ∈ path.toList → BreaksAt path (.fault .nulInPath)
  | text {bytes : ByteArray} : Reads read path bytes → String.fromUTF8? bytes = none → BreaksAt path .notText
  | digits {bytes : ByteArray} : Reads read path bytes → Overlong bytes → BreaksAt path (.fault .tooManyDigits)
  | number {bytes : ByteArray} : Reads read path bytes → Oversized bytes → BreaksAt path (.fault .overflow)

/-- How reading files breaks off: at some file, with all before it loaded. -/
inductive Breaks : List String → Ending → Prop
  | here {path : String} {rest : List String} {e : Ending} : BreaksAt read path e → Breaks (path :: rest) e
  | later {path : String} {bytes : ByteArray} {ms : List Module} {rest : List String} {e : Ending} :
      Reads read path bytes → loadFile bytes = .ok ms → Breaks rest e → Breaks (path :: rest) e

/-- Why there are no input lines for a program: an integer in their text is too long, or the option has no text. -/
inductive LinesBreak (o : Options) : Fault → Prop
  | digits {text : String} : o.inputs = .text text → Json.parse text.toList = .error .tooManyDigits →
      LinesBreak o .tooManyDigits
  | dashes : o.inputs = .dashes → LinesBreak o .unusable

/-- How the whole breaks off: while the files are read, or when there is a program to run and lines for it to be
made. -/
inductive BreaksOff (o : Options) : Ending → Prop
  | files {e : Ending} : Breaks read o.files e → BreaksOff o e
  | lines {ms : List Module} {f : Fault} : Loads read o.files ms → o.checkOnly = false → LinesBreak o f →
      BreaksOff o (.fault f)

/-- No string in what is read holds half of a surrogate pair. -/
structure PlainText (o : Options) : Prop where
  files : ∀ path ∈ o.files, ∀ bytes, Reads read path bytes → loadFile bytes ≠ .error .loneSurrogate
  inputs : ∀ text, o.inputs = .text text → Json.parse text.toList ≠ .error .loneSurrogate

variable {read}

theorem loadFiles_cons_of_ok {path : String} {bytes : ByteArray} {ms : List Module} (hread : Reads read path bytes)
    (hload : loadFile bytes = .ok ms) (rest : List String) (done : List Module) :
    loadFiles read (path :: rest) done = loadFiles read rest (done ++ ms) := by
  simp [loadFiles, hread.1, hread.2, hload]

theorem Loads.loadFiles_eq {paths : List String} {ms : List Module} (h : Loads read paths ms) (done : List Module) :
    loadFiles read paths done = .modules (done ++ ms) := by
  induction h generalizing done with
  | nil => simp [loadFiles]
  | cons hread hload _ ih => rw [loadFiles_cons_of_ok hread hload, ih, List.append_assoc]

theorem BreaksAt.loadFiles_eq {path : String} {e : Ending} (h : BreaksAt read path e) (rest : List String)
    (done : List Module) : loadFiles read (path :: rest) done = .broken e := by
  cases h with
  | path hnul => simp [loadFiles, hnul]
  | text hread htext => simp [loadFiles, hread.1, hread.2, loadFile_eq_notText_iff.2 htext]
  | digits hread hdigits => simp [loadFiles, hread.1, hread.2, loadFile_eq_tooManyDigits_iff.2 hdigits]
  | number hread hnumber => simp [loadFiles, hread.1, hread.2, loadFile_eq_overflow_iff.2 hnumber]

theorem Breaks.loadFiles_eq {paths : List String} {e : Ending} (h : Breaks read paths e) (done : List Module) :
    loadFiles read paths done = .broken e := by
  induction h generalizing done with
  | here hat => exact hat.loadFiles_eq _ done
  | later hread hload _ ih => rw [loadFiles_cons_of_ok hread hload, ih]

theorem Breaks.ne_exit {paths : List String} {e : Ending} (h : Breaks read paths e) (code : Nat) : e ≠ .exit code := by
  induction h with
  | here hat => cases hat <;> (intro h; cases h)
  | later _ _ _ ih => exact ih

theorem Loads.not_breaks {paths : List String} {ms : List Module} (h : Loads read paths ms) :
    ¬ ∃ e, Breaks read paths e := by
  rintro ⟨e, hbreaks⟩
  cases (h.loadFiles_eq []).symm.trans (hbreaks.loadFiles_eq [])

theorem Loads.unique {paths : List String} {ms ms' : List Module} (h : Loads read paths ms)
    (h' : Loads read paths ms') :
    ms' = ms := by
  cases (h.loadFiles_eq []).symm.trans (h'.loadFiles_eq [])
  rfl

theorem Loads.written {paths : List String} {ms : List Module} (h : Loads read paths ms) : ∀ m ∈ ms, m.Written := by
  induction h with
  | nil => exact List.forall_mem_nil _
  | cons _ hload _ ih => exact List.forall_mem_append.2 ⟨written_of_loadFile hload, ih⟩

/-- What a file may come to. -/
theorem file_cases {path : String} (hplain : ∀ bytes, Reads read path bytes → loadFile bytes ≠ .error .loneSurrogate) :
    (∃ bytes ms, Reads read path bytes ∧ loadFile bytes = .ok ms) ∨ (∃ e, BreaksAt read path e) ∨
      ∀ rest done, ∃ report, loadFiles read (path :: rest) done = .refused report := by
  by_cases hnul : Char.ofNat 0 ∈ path.toList
  · exact .inr (.inl ⟨_, .path hnul⟩)
  · cases hread : read path with
    | error problem =>
      refine .inr (.inr fun rest done => ?_)
      simp [loadFiles, hnul, hread]
    | ok bytes =>
      cases hload : loadFile bytes with
      | ok ms => exact .inl ⟨bytes, ms, ⟨hnul, hread⟩, hload⟩
      | error e =>
        cases e with
        | malformed e =>
          refine .inr (.inr fun rest done => ?_)
          simp [loadFiles, hnul, hread, hload]
        | overflow => exact .inr (.inl ⟨_, .number ⟨hnul, hread⟩ (loadFile_eq_overflow_iff.1 hload)⟩)
        | notText => exact .inr (.inl ⟨_, .text ⟨hnul, hread⟩ (loadFile_eq_notText_iff.1 hload)⟩)
        | tooManyDigits => exact .inr (.inl ⟨_, .digits ⟨hnul, hread⟩ (loadFile_eq_tooManyDigits_iff.1 hload)⟩)
        | loneSurrogate => exact absurd hload (hplain bytes ⟨hnul, hread⟩)

/-- **Files are loaded, break reading off, or are turned down.** -/
theorem files_cases : ∀ {paths : List String},
    (∀ path ∈ paths, ∀ bytes, Reads read path bytes → loadFile bytes ≠ .error .loneSurrogate) →
    (∃ ms, Loads read paths ms) ∨ (∃ e, Breaks read paths e) ∨
      ∀ done, ∃ report, loadFiles read paths done = .refused report
  | [], _ => .inl ⟨[], .nil⟩
  | path :: rest, hplain => by
    rw [List.forall_mem_cons] at hplain
    rcases file_cases hplain.1 with ⟨bytes, ms, hread, hload⟩ | ⟨e, hbreaks⟩ | hrefused
    · rcases files_cases hplain.2 with ⟨ms', hrest⟩ | ⟨e, hrest⟩ | hrest
      · exact .inl ⟨_, .cons hread hload hrest⟩
      · exact .inr (.inl ⟨e, .later hread hload hrest⟩)
      · refine .inr (.inr fun done => ?_)
        rw [loadFiles_cons_of_ok hread hload]
        exact hrest _
    · exact .inr (.inl ⟨e, .here hbreaks⟩)
    · exact .inr (.inr (hrefused rest))

theorem inputOf_eq_error_iff {o : Options}
    (hplain : ∀ text, o.inputs = .text text → Json.parse text.toList ≠ .error .loneSurrogate) {around : Surroundings}
    {f : Fault} : inputOf o around = .error f ↔ LinesBreak o f := by
  constructor
  · intro h
    cases hinputs : o.inputs with
    | nothing => simp [inputOf, hinputs] at h
    | dashes =>
      simp only [inputOf, hinputs, Except.error.injEq] at h
      exact h ▸ .dashes hinputs
    | text text =>
      simp only [inputOf, hinputs, inputLines] at h
      cases hparse : Json.parse text.toList with
      | ok doc => cases doc <;> simp [hparse, Except.map] at h
      | error e =>
        cases e with
        | malformed problem rest => simp [hparse, Except.map] at h
        | tooManyDigits =>
          simp only [hparse, Except.map, Except.error.injEq] at h
          exact h ▸ .digits hinputs hparse
        | loneSurrogate => exact absurd hparse (hplain text hinputs)
  · rintro (⟨hinputs, hparse⟩ | hinputs)
    · simp [inputOf, hinputs, inputLines, hparse, Except.map]
    · simp [inputOf, hinputs]

/-! ## What the modules come to -/

/-- The check answers, and with 0 exactly if it accepts the modules. -/
theorem check_answers (modules : List Module) (s : State) : ∃ code text s',
    check modules s = .ok (code, text) s' ∧ (code = 0 ∧ Accepted modules ∨ code = 1 ∧ ¬ Accepted modules) := by
  by_cases hmissing : missingImports modules = []
  · obtain ⟨g, hg, -⟩ := findCycle_eq modules hmissing
    cases hcycle : g.cycle? with
    | none =>
      rw [hcycle] at hg
      simp only [check, hmissing, searchCycle, hg]
      exact ⟨_, _, _, rfl, .inl ⟨rfl, hmissing, hg⟩⟩
    | some cycle =>
      rw [hcycle] at hg
      simp only [check, hmissing, searchCycle, hg]
      refine ⟨_, _, _, rfl, .inr ⟨rfl, fun h => ?_⟩⟩
      rw [h.2] at hg
      cases hg
  · obtain ⟨pair, rest, hcons⟩ := List.exists_cons_of_ne_nil hmissing
    simp only [check, hcons]
    exact ⟨_, _, _, rfl, .inr ⟨rfl, fun h => hmissing h.1⟩⟩

/-- Within its bound the run comes to an end, and what it gives can be shown: no object in it is nested in itself. -/
structure Terminates (p : Program) (fuel : Nat) (s : State) : Prop where
  run : stopOf (p.run fuel true s) ≠ some .exhausted
  shown : ∀ v s', p.run fuel true s = .ok v s' → s'.store.Acyclic v

/-- The state in which a program is begun that has these lines to read. -/
def Surroundings.begin (around : Surroundings) (input : Input) : State :=
  State.initial input (.ofReadings around.clock)

variable {o : Options} {around : Surroundings} {input : Input} {modules : List Module}

/-- There are lines to read, and with these the program gives a value. -/
def GivesValue (o : Options) (around : Surroundings) (modules : List Module) : Prop :=
  ∃ input v s, inputOf o around = .ok input ∧
    Program.run ⟨modules, standardNatives⟩ around.fuel true (around.begin input) = .ok v s

/-- What is asked for succeeds: the check accepts the modules or, if there is more to do, the run gives a value. -/
def Succeeds (o : Options) (around : Surroundings) (modules : List Module) : Prop :=
  if o.checkOnly then Accepted modules else GivesValue o around modules

theorem runModules_of_check (hcheck : o.checkOnly = true) :
    (runModules o around modules).ending = .exit 0 ∧ Accepted modules ∨
      (runModules o around modules).ending = .exit 1 ∧ ¬ Accepted modules := by
  obtain ⟨code, text, s, hanswer, hcode⟩ := check_answers modules (State.initial (.queue []) (.ofReadings around.clock))
  have hending : (runModules o around modules).ending = .exit code := by
    simp [runModules, hcheck, hanswer]
  rw [hending]
  rcases hcode with ⟨rfl, h⟩ | ⟨rfl, h⟩
  · exact .inl ⟨rfl, h⟩
  · exact .inr ⟨rfl, h⟩

theorem runModules_of_run (hwritten : ∀ m ∈ modules, m.Written) (hcheck : o.checkOnly = false)
    (hinput : inputOf o around = .ok input)
    (hends : Terminates ⟨modules, standardNatives⟩ around.fuel (around.begin input)) :
    (runModules o around modules).ending = .exit 0 ∧ GivesValue o around modules ∨
      (runModules o around modules).ending = .exit 1 ∧ ¬ GivesValue o around modules := by
  obtain ⟨hstop, hshown⟩ := hends
  have hfaultless := run_faultless (p := ⟨modules, standardNatives⟩) rfl (fun x hx => known_of_modules hwritten hx) true
    around.fuel input (.ofReadings around.clock)
  unfold Surroundings.begin at hstop hshown
  cases hrun :
      Program.run ⟨modules, standardNatives⟩ around.fuel true (State.initial input (.ofReadings around.clock)) with
  | ok v s =>
    obtain ⟨text, htext⟩ := Store.display_ok_iff.2 (hshown v s hrun)
    refine .inl ⟨?_, input, v, s, hinput, hrun⟩
    simp [runModules, hcheck, hinput, hrun, formatValue, htext, Except.map]
  | error x s =>
    rw [hrun] at hstop hfaultless
    refine .inr ⟨?_, fun ⟨input', v, s', hinput', h⟩ => ?_⟩
    · cases x with
      | failure f => simp [runModules, hcheck, hinput, hrun, Ending.ofStop]
      | fault f => exact absurd rfl (hfaultless f)
      | exhausted => exact absurd rfl hstop
    · cases hinput.symm.trans hinput'
      cases hrun.symm.trans h

theorem runModules_ending (hwritten : ∀ m ∈ modules, m.Written)
    (hinput : o.checkOnly = false → inputOf o around = .ok input)
    (hends : o.checkOnly = false → Terminates ⟨modules, standardNatives⟩ around.fuel (around.begin input)) :
    (runModules o around modules).ending = .exit 0 ∧ Succeeds o around modules ∨
      (runModules o around modules).ending = .exit 1 ∧ ¬ Succeeds o around modules := by
  unfold Succeeds
  cases hcheck : o.checkOnly with
  | true => exact runModules_of_check hcheck
  | false => exact runModules_of_run hwritten hcheck (hinput hcheck) (hends hcheck)

theorem runModules_more {more : Nat} (hmore : around.fuel ≤ more)
    (hinput : o.checkOnly = false → inputOf o around = .ok input)
    (hends : o.checkOnly = false → Terminates ⟨modules, standardNatives⟩ around.fuel (around.begin input)) :
    runModules o { around with fuel := more } modules = runModules o around modules := by
  unfold runModules
  cases hcheck : o.checkOnly with
  | true => rfl
  | false =>
    have hinput' : inputOf o { around with fuel := more } = .ok input := hinput hcheck
    have hrun := Program.run_eq_of_le ⟨modules, standardNatives⟩ true (around.begin input) hmore (hends hcheck).run
    unfold Surroundings.begin at hrun
    simp only [hinput hcheck, hinput', hrun]

theorem runModules_of_linesBreak (hcheck : o.checkOnly = false) {f : Fault} (h : inputOf o around = .error f) :
    (runModules o around modules).ending = .fault f ∧
      ∀ more, runModules o { around with fuel := more } modules = runModules o around modules := by
  have h' : ∀ more, inputOf o { around with fuel := more } = .error f := fun _ => h
  simp [runModules, hcheck, h, h']

/-! ## The whole command -/

theorem Loads.runFiles_eq (h : Loads read o.files modules) (around : Surroundings) :
    runFiles o read around = runModules o around modules := by
  rw [runFiles, h.loadFiles_eq []]
  rfl

theorem Breaks.runFiles_eq {e : Ending} (h : Breaks read o.files e) (around : Surroundings) :
    runFiles o read around = ⟨e, "", "", 0⟩ := by
  rw [runFiles, h.loadFiles_eq []]

theorem BreaksOff.ending_eq {e : Ending} (hplain : PlainText read o) (h : BreaksOff read o e) (around : Surroundings) :
    (runFiles o read around).ending = e := by
  cases h with
  | files h => rw [h.runFiles_eq]
  | lines hloads hcheck hlines =>
    rw [hloads.runFiles_eq]
    exact (runModules_of_linesBreak hcheck ((inputOf_eq_error_iff hplain.inputs).2 hlines)).1

theorem BreaksOff.ne_exit {e : Ending} (h : BreaksOff read o e) (code : Nat) : e ≠ .exit code := by
  cases h with
  | files h => exact h.ne_exit code
  | lines => exact fun h => by cases h

/-- If lines are needed there are some, or there is a reason why not. -/
theorem lines_cases (o : Options) (around : Surroundings) :
    (∃ input, o.checkOnly = false → inputOf o around = .ok input) ∨
      o.checkOnly = false ∧ ∃ f, inputOf o around = .error f := by
  cases inputOf o around with
  | ok input => exact .inl ⟨input, fun _ => rfl⟩
  | error f =>
    cases o.checkOnly with
    | true => exact .inl ⟨.queue [], fun h => by cases h⟩
    | false => exact .inr ⟨rfl, f, rfl⟩

/-- What a command comes to: it breaks off; or all files are loaded, and what is asked for decides; or one is turned
down. -/
inductive Comes (o : Options) (read : String → Except FileProblem ByteArray) (around : Surroundings) : Prop
  | broken {e : Ending} : BreaksOff read o e → (∀ ms, Loads read o.files ms → ¬ Succeeds o around ms) →
      Comes o read around
  | loaded {ms : List Module} : Loads read o.files ms →
      (runFiles o read around).ending = .exit 0 ∧ Succeeds o around ms ∨
        (runFiles o read around).ending = .exit 1 ∧ ¬ Succeeds o around ms → Comes o read around
  | refused : (runFiles o read around).ending = .exit 1 → (∀ ms, ¬ Loads read o.files ms) → Comes o read around

section

variable (hplain : PlainText read o)
  (hends : ∀ ms input, Loads read o.files ms → o.checkOnly = false → inputOf o around = .ok input →
    Terminates ⟨ms, standardNatives⟩ around.fuel (around.begin input))
include hplain hends

theorem comes : Comes o read around := by
  rcases files_cases hplain.files with ⟨ms, hloads⟩ | ⟨e, hbreaks⟩ | hrefused
  · rcases lines_cases o around with ⟨input, hinput⟩ | ⟨hcheck, f, hf⟩
    · refine .loaded hloads ?_
      rw [hloads.runFiles_eq]
      exact runModules_ending hloads.written hinput fun hcheck => hends ms input hloads hcheck (hinput hcheck)
    · refine .broken (.lines hloads hcheck ((inputOf_eq_error_iff hplain.inputs).1 hf)) fun ms' _ hsucceeds => ?_
      rw [Succeeds, hcheck, if_neg Bool.false_ne_true] at hsucceeds
      obtain ⟨input, v, s, hinput, -⟩ := hsucceeds
      cases hf.symm.trans hinput
  · exact .broken (.files hbreaks) fun ms hloads => absurd ⟨e, hbreaks⟩ hloads.not_breaks
  · obtain ⟨report, hreport⟩ := hrefused []
    refine .refused (by rw [runFiles, hreport]) fun ms hloads => ?_
    cases (hloads.loadFiles_eq []).symm.trans hreport

theorem runFiles_more {more : Nat} (hmore : around.fuel ≤ more) :
    runFiles o read { around with fuel := more } = runFiles o read around := by
  rcases files_cases hplain.files with ⟨ms, hloads⟩ | ⟨e, hbreaks⟩ | hrefused
  · rw [hloads.runFiles_eq, hloads.runFiles_eq]
    rcases lines_cases o around with ⟨input, hinput⟩ | ⟨hcheck, f, hf⟩
    · exact runModules_more hmore hinput fun hcheck => hends ms input hloads hcheck (hinput hcheck)
    · exact (runModules_of_linesBreak hcheck hf).2 more
  · rw [hbreaks.runFiles_eq, hbreaks.runFiles_eq]
  · obtain ⟨report, hreport⟩ := hrefused []
    rw [runFiles, runFiles, hreport]

end

/-- **A command ends with an exit code unless it breaks off.**  Whatever the files hold, with the check alone or with a
run that ends and gives what can be shown, it ends with 0 or 1 exactly if neither of two things is the case.  Some file,
with all before it loaded, has a path with NUL in it, or bytes that are no text, or too long an integer or too large a
number before anything malformed: then the command ends there and nothing is written.  Or all files are loaded, there is
a program to run, and the text of its input lines has too long an integer or is not there.  The command ends with 0
exactly if all files are loaded and what is asked for succeeds.  More fuel changes nothing. -/
theorem runFiles_ending (o : Options) (read : String → Except FileProblem ByteArray) (around : Surroundings)
    (hplain : PlainText read o)
    (hends : ∀ ms input, Loads read o.files ms → o.checkOnly = false → inputOf o around = .ok input →
      Terminates ⟨ms, standardNatives⟩ around.fuel (around.begin input)) :
    ((runFiles o read around).ending = .exit 0 ∨ (runFiles o read around).ending = .exit 1 ↔
        ¬ ∃ e, BreaksOff read o e) ∧
      (∀ e, BreaksOff read o e → (runFiles o read around).ending = e) ∧
      (∀ e, Breaks read o.files e → runFiles o read around = ⟨e, "", "", 0⟩) ∧
      ((runFiles o read around).ending = .exit 0 ↔ ∃ ms, Loads read o.files ms ∧ Succeeds o around ms) ∧
      ∀ more, around.fuel ≤ more → runFiles o read { around with fuel := more } = runFiles o read around := by
  have hbroken : ∀ e, BreaksOff read o e → (runFiles o read around).ending = e := fun e h => h.ending_eq hplain around
  have hexit : ∀ code, (runFiles o read around).ending = .exit code → ¬ ∃ e, BreaksOff read o e :=
    fun code hcode ⟨e, he⟩ => he.ne_exit code ((hbroken e he).symm.trans hcode)
  refine ⟨?_, hbroken, fun e h => h.runFiles_eq around, ?_, fun more hmore => runFiles_more hplain hends hmore⟩
  · refine ⟨fun h => h.elim (hexit 0) (hexit 1), fun hno => ?_⟩
    cases comes hplain hends with
    | broken h _ => exact absurd ⟨_, h⟩ hno
    | loaded _ h => exact h.imp And.left And.left
    | refused h _ => exact .inr h
  · cases comes hplain hends with
    | broken h hnot =>
      rw [hbroken _ h]
      exact iff_of_false (h.ne_exit 0) fun ⟨ms, hloads, hsucceeds⟩ => hnot ms hloads hsucceeds
    | @loaded ms hloads h =>
      rcases h with ⟨hzero, hsucceeds⟩ | ⟨hone, hfails⟩
      · exact iff_of_true hzero ⟨ms, hloads, hsucceeds⟩
      · refine iff_of_false (fun h => by cases hone.symm.trans h) fun ⟨ms', hloads', hsucceeds⟩ => ?_
        exact hfails (hloads.unique hloads' ▸ hsucceeds)
    | refused hone hno =>
      exact iff_of_false (fun h => by cases hone.symm.trans h) fun ⟨ms, hloads, _⟩ => hno ms hloads

theorem fromUTF8?_toUTF8 (text : String) : String.fromUTF8? text.toUTF8 = some text := by
  simp [String.fromUTF8?, String.fromUTF8, text.isValidUTF8]

/-- The document of a module `Main` without statements. -/
def bareMain : List Char :=
  ['\x7b', '"', 'n', 'a', 'm', 'e', '"', ':', '"', 'M', 'a', 'i', 'n', '"', ',', '"', 'b', 'o', 'd', 'y', '"', ':', '[',
   ']', '\x7d']

/-- One file with that text, and one whose only byte starts no character. -/
def twoFiles (path : String) : Except FileProblem ByteArray :=
  if path = "main.json" then .ok (String.ofList bareMain).toUTF8
  else if path = "noise.json" then .ok ⟨#[0xff]⟩
  else .error .notFound

theorem bareMain_read : Reads twoFiles "main.json" (String.ofList bareMain).toUTF8 := ⟨by decide, rfl⟩

theorem bareMain_load : loadFile (String.ofList bareMain).toUTF8 = .ok [⟨"Main", [], []⟩] := by
  rw [loadFile, fromUTF8?_toUTF8]
  simp only [String.toList_ofList]
  rfl

theorem twoFiles_loads : Loads twoFiles ["main.json"] [⟨"Main", [], []⟩] := .cons bareMain_read bareMain_load .nil

theorem bareMain_runs (input : Input) : ∃ s,
    Program.run ⟨[⟨"Main", [], []⟩], standardNatives⟩ 9 true (State.initial input (.steady 0)) = .ok .null s := by
  have haccepted : Accepted [⟨"Main", [], []⟩] := ⟨by decide, by decide +kernel⟩
  have hselect : selectMain [⟨"Main", [], []⟩] = .ok ⟨"Main", [], []⟩ := rfl
  rw [Program.run_of_checked (p := ⟨[⟨"Main", [], []⟩], standardNatives⟩) hselect fun _ => haccepted]
  exact ⟨_, rfl⟩

/-- The clock shows zero. -/
def quiet : Surroundings := ⟨"", fun _ => some 0, 9⟩

theorem bareMain_exits :
    let o : Options := ⟨["main.json"], false, false, false, .text "yes"⟩
    PlainText twoFiles o ∧ (∃ ms, Loads twoFiles o.files ms) ∧ (runFiles o twoFiles quiet).ending = .exit 0 := by
  intro o
  have hplain : PlainText twoFiles o := by
    refine ⟨fun path hpath bytes hbytes hload => ?_, fun text htext hparse => ?_⟩
    · obtain rfl := List.mem_singleton.1 hpath
      cases bareMain_read.2.symm.trans hbytes.2
      cases bareMain_load.symm.trans hload
    · cases htext
      cases hparse
  have hinput : inputOf o quiet = .ok (.queue ["yes"]) := rfl
  obtain ⟨s, hrun⟩ := bareMain_runs (.queue ["yes"])
  have hends : ∀ ms input, Loads twoFiles o.files ms → o.checkOnly = false → inputOf o quiet = .ok input →
      Terminates ⟨ms, standardNatives⟩ quiet.fuel (quiet.begin input) := by
    intro ms input hloads _ hinput'
    obtain rfl := twoFiles_loads.unique hloads
    cases hinput.symm.trans hinput'
    refine ⟨fun hstop => ?_, fun v s' h => ?_⟩
    · cases (congrArg stopOf hrun).symm.trans hstop
    · cases hrun.symm.trans h
      exact Store.acyclic_of_ne_object fun _ h => by cases h
  obtain ⟨-, -, -, hzero, -⟩ := runFiles_ending o twoFiles quiet hplain hends
  exact ⟨hplain, ⟨_, twoFiles_loads⟩, hzero.2 ⟨_, twoFiles_loads, .queue ["yes"], .null, s, hinput, hrun⟩⟩

/-- A file that is no text breaks the command off, be it for a run or for the check alone. -/
theorem noise_breaks_off :
    (runFiles ⟨["noise.json"], false, false, false, .nothing⟩ twoFiles quiet).ending = .notText ∧
      (runFiles ⟨["noise.json"], false, true, false, .nothing⟩ twoFiles quiet).ending = .notText := by
  have hread : Reads twoFiles "noise.json" ⟨#[0xff]⟩ := ⟨by decide, rfl⟩
  have hbreaks : Breaks twoFiles ["noise.json"] .notText := .here (.text hread (by decide +kernel))
  exact ⟨congrArg Transcript.ending (hbreaks.runFiles_eq _), congrArg Transcript.ending (hbreaks.runFiles_eq _)⟩

end Cli
end Thicket
