import Thicket.Proofs.Along
import Thicket.Proofs.Permanence
import Thicket.Proofs.Standard
/-!
# Reading is one stream

A program reads by calling `readString`, which is a value like any other: any module may import it, pass it on, or keep
it in an object.  Whoever calls it, the calls draw on one stream of lines, in the order in which they are made
(`reading_is_one_stream`).

The calls are those in the course of the run.  With the standard host every function of the host that is called there
is a standard one, so only a call of `readString` takes a line (`reading_along`), and by the time a job is begun the
input lacks as many lines as there were such calls.

Lines that are handed out as they are and lines whose ends are taken off as they are read are the same stream, if the
ends were taken off before (`stream`).
-/
namespace Thicket

/-! ## Lines without their ends -/

/-- The second text is the first without the CR and LF characters at its end. -/
structure Chomped (line text : String) : Prop where
  split : ∃ ends : List Char, line.toList = text.toList ++ ends ∧ ∀ c ∈ ends, c = '\r' ∨ c = '\n'
  clean : ∀ c ∈ text.toList.getLast?, c ≠ '\r' ∧ c ≠ '\n'

theorem chomped (line : String) : Chomped line (Text.chomp line) := by
  have htext : (Text.chomp line).toList = (line.toList.reverse.dropWhile Text.isNewline).reverse := by
    rw [Text.chomp, String.toList_ofList, Text.trimEnd]
  refine ⟨⟨(line.toList.reverse.takeWhile Text.isNewline).reverse, ?_, fun c hc => ?_⟩, fun c hc => ?_⟩
  · rw [htext, ← List.reverse_append, List.takeWhile_append_dropWhile, List.reverse_reverse]
  · have hnewline := List.all_eq_true.1 List.all_takeWhile c (List.mem_reverse.1 hc)
    simpa [Text.isNewline] using hnewline
  · rw [htext, List.getLast?_reverse] at hc
    have hkept := List.head?_dropWhile_not Text.isNewline line.toList.reverse
    rw [Option.mem_def.1 hc] at hkept
    simpa [Text.isNewline] using hkept

/-! ## Two inputs, one stream -/

/-- The line with this number, counted from zero; beyond the end every line is empty. -/
def lineAt (lines : List String) (k : Nat) : String := (lines.map Text.chomp).getD k ""

namespace Input

/-- The input without the first `k` lines. -/
def after : Input → Nat → Input
  | lines rest, k => lines (rest.drop k)
  | queue rest, k => queue (rest.drop k)

@[simp] theorem after_zero (i : Input) : i.after 0 = i := by cases i <;> rfl

theorem after_after (i : Input) (k l : Nat) : (i.after k).after l = i.after (k + l) := by
  cases i <;> simp only [after, List.drop_drop]

theorem after_one (i : Input) : i.after 1 = i.next.2 := by
  cases i with
  | lines rest => cases rest <;> rfl
  | queue rest => cases rest <;> rfl

theorem next_lines_after (rest : List String) (k : Nat) : ((lines rest).after k).next.1 = lineAt rest k := by
  have hhead : (rest.drop k).head? = rest[k]? := List.head?_drop
  rw [lineAt, List.getD_eq_getElem?_getD, List.getElem?_map, ← hhead, after]
  cases rest.drop k <;> rfl

theorem next_queue_after (rest : List String) (k : Nat) :
    ((queue (rest.map Text.chomp)).after k).next.1 = lineAt rest k := by
  have hhead : ((rest.map Text.chomp).drop k).head? = (rest.map Text.chomp)[k]? := List.head?_drop
  rw [lineAt, List.getD_eq_getElem?_getD, ← hhead, after]
  cases (rest.map Text.chomp).drop k <;> rfl

end Input

def stream : Feed where
  Alike i j := ∃ rest, i = .lines rest ∧ j = .queue (rest.map Text.chomp)
  next := by
    rintro _ _ ⟨rest, rfl, rfl⟩
    cases rest with
    | nil => exact ⟨rfl, [], rfl, rfl⟩
    | cons line rest => exact ⟨rfl, rest, rfl, rfl⟩

/-! ## The calls that read -/

namespace Begun

/-- A call of `readString` that passes the check of its arguments. -/
def reads (x : Begun) : Bool :=
  match x.job.host? with
  | some (f, args) => f.name = "readString" && args.length = f.params.length
  | none => false

theorem reads_host {f : NativeFunction} {args : List Value} {s : State} {n : Nat} :
    (reads ⟨.apply (.native f) args, s, n⟩ = true) ↔ f.name = "readString" ∧ args.length = f.params.length := by
  simp [reads, Job.host?]

/-- If a function of the host is called, it is a standard one. -/
def Standard (x : Begun) : Prop := ∀ call ∈ x.job.host?, call.1 ∈ standardNatives

end Begun

/-- Nothing is read. -/
def Run.Silent {α : Type} (f : Run α) : Prop := ∀ s, (stateOf (f s)).input = s.input

namespace Run.Silent

variable {α β : Type}

theorem pure (a : α) : (Pure.pure a : Run α).Silent := fun _ => rfl

theorem fail (f : Failure) : (Run.fail f : Run α).Silent := fun _ => rfl

theorem write (text : String) : (Run.write text).Silent := fun _ => rfl

theorem readClock : Run.readClock.Silent := by
  intro s
  unfold Run.readClock
  cases s.clock.next.1 <;> rfl

theorem consult (f : Store → Except Stop α) : (Run.consult f).Silent := by
  intro s
  show (stateOf (Run.ofExcept (f s.store) s)).input = s.input
  cases f s.store <;> rfl

theorem onStore (f : Store → α × Store) : (Run.onStore f).Silent := fun _ => rfl

theorem bind {f : Run α} {k : α → Run β} (h : f.Silent) (hk : ∀ a, (k a).Silent) : (f >>= k).Silent := by
  intro s
  have hf := h s
  show (stateOf (EStateM.bind f k s)).input = s.input
  unfold EStateM.bind
  cases hr : f s with
  | ok a s' =>
    rw [hr] at hf
    exact (hk a s').trans hf
  | error x s' =>
    rw [hr] at hf
    exact hf

theorem ofFault (r : Except Fault α) : (Run.ofFault r).Silent := by
  intro s
  cases r <;> rfl

theorem wrap (returns : String) (r : HostResult) : (r.wrap returns).Silent := by
  unfold HostResult.wrap
  split
  · exact bind (ofFault _) fun _ => pure _
  · exact pure _
  · exact pure _
  · exact pure _
  · exact bind (ofFault _) fun _ => bind (onStore _) fun _ => pure _
  all_goals exact fun _ => rfl

theorem call {f : NativeFunction} (hf : f ∈ standardNatives) (args : List Value)
    (h : args.length = f.params.length → f.name ≠ "readString") : (f.call args).Silent := by
  unfold NativeFunction.call
  split
  · exact fail _
  · next hlength =>
    split
    · exact fail _
    · refine bind ?_ fun _ => wrap _ _
      have hname := h (not_not.1 hlength)
      simp only [standardNatives, List.mem_cons, List.not_mem_nil, or_false] at hf
      rcases hf with rfl | rfl | rfl | rfl
      · exact bind (consult _) fun _ => bind (write _) fun _ => pure _
      · exact bind readClock fun _ => pure _
      · exact pure _
      · exact absurd rfl hname

end Run.Silent

theorem call_of_reads {f : NativeFunction} (hf : f ∈ standardNatives) {args : List Value}
    (hname : f.name = "readString") (hlength : args.length = f.params.length) (s : State) :
    f.call args s = .ok (.string s.input.next.1) s.told := by
  simp only [standardNatives, List.mem_cons, List.not_mem_nil, or_false] at hf
  rcases hf with rfl | rfl | rfl | rfl
  iterate 3 exact absurd hname (by decide)
  rw [List.eq_nil_of_length_eq_zero hlength]
  rfl

/-- **Each call that reads takes one line, and nothing else takes any.** -/
theorem reading_along (p : Program) :
    Along p fun s jobs s' => (∀ x ∈ jobs, x.Standard) → s'.input = s.input.after (jobs.countP Begun.reads) where
  still h _ := by
    obtain ⟨store, rfl⟩ := h
    exact (Input.after_zero _).symm
  append h h' hjobs := by
    rw [List.forall_mem_append] at hjobs
    rw [h' hjobs.2, h hjobs.1, Input.after_after, List.countP_append]
  noted _ _ := (Input.after_zero _).symm
  host f args s n hjobs := by
    have hf : f ∈ standardNatives := hjobs _ List.mem_cons_self (f, args) rfl
    by_cases hreads : f.name = "readString" ∧ args.length = f.params.length
    · rw [List.countP_singleton, if_pos (Begun.reads_host.2 hreads), call_of_reads hf hreads.1 hreads.2,
        Input.after_one]
      rfl
    · rw [List.countP_singleton, if_neg (mt Begun.reads_host.1 hreads), Input.after_zero]
      exact Run.Silent.call hf args (fun hlength hname => hreads ⟨hname, hlength⟩) s
  opened {x} hx _ := by
    have hreads : x.reads = false := by rw [Begun.reads, hx]
    rw [List.countP_singleton, hreads, if_neg Bool.false_ne_true, Input.after_zero]
    cases x.job <;> rfl
  kept _ _ _ _ _ h hjobs := h hjobs

/-! ## Whole runs -/

theorem hostedBy_standard {p : Program} (h : p.natives = standardNatives) : HostedBy (· ∈ standardNatives) p :=
  ⟨fun _ hf => h ▸ hf, fun hf hargs => wholeness_stream.standard_inStep hf hargs⟩

/-- With the standard host nothing else of the host is ever called. -/
theorem standard_of_mem_course {p : Program} (h : p.natives = standardNatives) {fuel : Nat} {check : Bool}
    {input : Input} {clock : Clock} {x : Begun} (hx : x ∈ p.course fuel check (State.initial input clock)) :
    x.Standard := by
  intro call hcall
  have hgiven := (Program.between_run (hostedBy_standard h) fuel check (.initial input clock)).given x hx
  rw [Job.eq_of_host? hcall] at hgiven
  exact hgiven.1

/-- In the course of the run from here, the input is by the time a job is begun what it was at first without a line for
each call that read before; and a call that reads returns the line with that number and does nothing else.  At the end
the input lacks a line for each call that read, and no other. -/
structure ReadsInOrder (p : Program) (fuel : Nat) (check : Bool) (s : State) (lines : List String) : Prop where
  onTheWay : ∀ pre x post, p.course fuel check s = pre ++ x :: post →
    x.state.input = s.input.after (pre.countP Begun.reads) ∧
      (x.reads = true → x.run p = .ok [.string (lineAt lines (pre.countP Begun.reads))] x.state.told)
  atTheEnd : (stateOf (p.run fuel check s)).input = s.input.after ((p.course fuel check s).countP Begun.reads)

theorem readsInOrder {p : Program} (h : p.natives = standardNatives) (fuel : Nat) (check : Bool) {input : Input}
    {clock : Clock} {lines : List String} (hlines : ∀ k, (input.after k).next.1 = lineAt lines k) :
    ReadsInOrder p fuel check (State.initial input clock) lines := by
  refine ⟨fun pre x post hcourse => ?_, (reading_along p).run fuel check _ fun _ hx => standard_of_mem_course h hx⟩
  have hmem : ∀ y ∈ pre ++ x :: post, y ∈ p.course fuel check (State.initial input clock) := fun y hy => hcourse ▸ hy
  have hstandard : ∀ y ∈ pre ++ x :: post, y.Standard := fun y hy => standard_of_mem_course h (hmem y hy)
  have hinput : x.state.input = input.after (pre.countP Begun.reads) :=
    (reading_along p).upToRun hcourse fun y hy => hstandard y (List.mem_append_left _ hy)
  refine ⟨hinput, fun hreads => ?_⟩
  have hx : x ∈ pre ++ x :: post := List.mem_append_right _ List.mem_cons_self
  have hfuel := Program.fuel_pos_of_mem_course (hmem x hx)
  have hhost := hstandard x hx
  obtain ⟨j, s, n⟩ := x
  cases hj : j.host? with
  | none => rw [Begun.reads, hj] at hreads; cases hreads
  | some call =>
    obtain rfl := Job.eq_of_host? hj
    obtain ⟨hname, hlength⟩ := Begun.reads_host.1 hreads
    obtain ⟨n, rfl⟩ := Nat.exists_eq_succ_of_ne_zero (Nat.pos_iff_ne_zero.1 hfuel)
    have hcall := call_of_reads (hhost _ rfl) hname hlength s
    rw [← hlines, ← hinput]
    exact Run.map_of_ok hcall _

/-- **Reading is one stream, in order.**  A program that is given lines as they come and one that is given them without
their ends, handed out as they are, end with the same value or for the same cause and have written the same.  In the
course of either run, the k-th call that reads, whoever made it, returned the k-th line without the line ends after it,
or the empty text if there are not so many lines; and nothing else has taken a line. -/
theorem reading_is_one_stream (modules : List Module) (clock : Clock) (lines : List String) (check : Bool)
    (fuel : Nat) :
    let p : Program := ⟨modules, standardNatives⟩
    let asTheyCome := State.initial (.lines lines) clock
    let asTheyAre := State.initial (.queue (lines.map Text.chomp)) clock
    (outcomeOf (p.run fuel check asTheyCome) = outcomeOf (p.run fuel check asTheyAre) ∧
        (stateOf (p.run fuel check asTheyCome)).store = (stateOf (p.run fuel check asTheyAre)).store ∧
        (stateOf (p.run fuel check asTheyCome)).output = (stateOf (p.run fuel check asTheyAre)).output) ∧
      ReadsInOrder p fuel check asTheyCome lines ∧ ReadsInOrder p fuel check asTheyAre lines ∧
      ∀ line, Chomped line (Text.chomp line) := by
  intro p asTheyCome asTheyAre
  obtain ⟨houtcome, -, input, hstate, -⟩ :=
    Feed.run_matches (F := stream) (p := p) rfl check fuel clock ⟨lines, rfl, rfl⟩
  refine ⟨⟨houtcome, ?_⟩, readsInOrder rfl fuel check (Input.next_lines_after lines),
    readsInOrder rfl fuel check (Input.next_queue_after lines), chomped⟩
  rw [show stateOf (p.run fuel check asTheyAre) = _ from hstate]
  exact ⟨rfl, rfl⟩

/-- It reads under two names, the second time in a function of another module, and then beyond the end. -/
def echo : List Module :=
  [⟨"Main",
    [.importFrom "Native" ["print", "readString"], .importFrom "Lib" ["ask"],
      .run (.call (.ref "print") [.call (.ref "readString") []]), .run (.call (.ref "print") [.call (.ref "ask") []]),
      .run (.call (.ref "print") [.call (.ref "readString") []])], []⟩,
    ⟨"Lib",
      [.importFrom "Native" ["readString"], .function "ask" [] [.giveBack (some (.call (.ref "readString") []))]],
      ["ask"]⟩]

theorem echo_reads_in_order :
    let p : Program := ⟨echo, standardNatives⟩
    let s := State.initial (.lines ["a\r\n", "b"]) (.steady 0)
    (stateOf (p.run 20 true s)).output = "\"a\"\n\"b\"\n\"\"\n" ∧
      ∀ k line, (k, line) ∈ [(0, "a"), (1, "b"), (2, "")] →
        ∃ pre x post, p.course 20 true s = pre ++ x :: post ∧ pre.countP Begun.reads = k ∧
          x.run p = .ok [.string line] x.state.told := by
  intro p s
  obtain ⟨-, hreads, -⟩ := reading_is_one_stream echo (.steady 0) ["a\r\n", "b"] true 20
  have hat : ∀ i k line, ((p.course 20 true s).take i).countP Begun.reads = k → lineAt ["a\r\n", "b"] k = line →
      ((p.course 20 true s).drop i).head?.map Begun.reads = some true →
      ∃ pre x post, p.course 20 true s = pre ++ x :: post ∧ pre.countP Begun.reads = k ∧
        x.run p = .ok [.string line] x.state.told := by
    rintro i _ _ rfl rfl hhead
    obtain ⟨x, hx, hxreads⟩ := Option.map_eq_some_iff.1 hhead
    obtain ⟨post, hpost⟩ := List.head?_eq_some_iff.1 hx
    have hsplit : p.course 20 true s = (p.course 20 true s).take i ++ x :: post := by
      rw [← hpost, List.take_append_drop]
    exact ⟨_, x, post, hsplit, rfl, (hreads.onTheWay _ x post hsplit).2 hxreads⟩
  refine ⟨by decide +kernel, fun k line hk => ?_⟩
  simp only [List.mem_cons, Prod.mk.injEq, List.not_mem_nil, or_false] at hk
  rcases hk with ⟨rfl, rfl⟩ | ⟨rfl, rfl⟩ | ⟨rfl, rfl⟩
  · exact hat 30 0 "a" (by decide +kernel) (by decide +kernel) (by decide +kernel)
  · exact hat 47 1 "b" (by decide +kernel) (by decide +kernel) (by decide +kernel)
  · exact hat 58 2 "" (by decide +kernel) (by decide +kernel) (by decide +kernel)

end Thicket
