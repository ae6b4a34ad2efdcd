import Thicket.Host.Native
import Thicket.Proofs.Watch
/-!
# Running with the standard host

With the functions that every program is given, the host is at no fault: what each of them answers can be turned into
a value of the kind that it declares (`standard_inStep`).  Functions are values, and go wherever values go, so along a
whole run every function of the host that turns up is one of these.

Nothing but the calls that read looks at the input.  So a run may be compared with one that reads from elsewhere, as
long as both are told the same, line by line (`Feed`): they end alike (`Feed.run_matches`).  And if they are broken off,
then by a label in the program that the evaluator does not know.
-/
namespace Thicket

/-! ## The standard functions -/

/-- The answer can be turned into a value of this kind. -/
def HostResult.Fits (r : HostResult) : Kind → Prop
  | .number => ∃ x, r.toNumber = .ok x
  | .object => ∃ fields, r.toFields = .ok fields
  | .boolean | .string | .null => True
  | .closure | .native => False

namespace Pairing.StreamLawful

variable {P : Pairing} {w : P.World}

theorem wrap_inStep (S : P.StreamLawful) {r : HostResult} {returns : String} {kind : Kind}
    (hkind : Kind.ofLabel? returns = some kind) (hfits : r.Fits kind) (hr : P.FineResult w r) :
    P.InStep w P.Fine (r.wrap returns) (r.wrap returns) := by
  unfold HostResult.wrap
  rw [hkind]
  cases kind with
  | number =>
    obtain ⟨x, hx⟩ := hfits
    dsimp only
    rw [hx]
    exact S.pure_inStep (S.fine_number w x)
  | boolean => exact S.pure_inStep (S.fine_boolean w _)
  | string => exact S.pure_inStep (S.fine_string w _)
  | null => exact S.pure_inStep (S.fine_null w)
  | object =>
    obtain ⟨fields, hfields⟩ := hfits
    dsimp only
    rw [hfields]
    refine S.bind_inStep (G := P.FineTable) (S.pure_inStep (toFields_fine hr hfields)) fun w₁ fields _ hfine => ?_
    exact S.bind_inStep (S.newObject_inStep hfine) fun w₂ o _ ho => S.pure_inStep ho
  | closure | native => exact hfits.elim

/-- What a standard function answers fits what it declares. -/
theorem perform_inStep (S : P.StreamLawful) {f : NativeFunction} (hf : f ∈ standardNatives) {args : List Value}
    (h : P.FineAll w args) :
    P.InStep w (fun w r => P.FineResult w r ∧ ∃ kind, Kind.ofLabel? f.returns = some kind ∧ r.Fits kind)
      (f.action.perform args) (f.action.perform args) := by
  simp only [standardNatives, List.mem_cons, List.not_mem_nil, or_false] at hf
  rcases hf with rfl | rfl | rfl | rfl
  · refine S.bind_inStep (S.display_inStep (S.fine_headD h)) fun w₁ text _ _ => ?_
    exact S.bind_inStep (S.write_inStep _) fun w₂ _ _ _ => S.pure_inStep ⟨trivial, .null, rfl, trivial⟩
  · exact S.bind_inStep S.readClock_inStep fun w₁ x _ _ => S.pure_inStep ⟨trivial, .number, rfl, x, rfl⟩
  · exact S.pure_inStep ⟨S.parsedNumber_fine w _, .object, rfl, _, rfl⟩
  · exact S.bind_inStep S.readLine_inStep fun w₁ line _ _ => S.pure_inStep ⟨trivial, .string, rfl, trivial⟩

/-- **A call of a standard function is in step**, and the host is at no fault in it. -/
theorem standard_inStep (S : P.StreamLawful) {f : NativeFunction} (hf : f ∈ standardNatives) {args : List Value}
    (h : P.FineAll w args) : P.InStep w P.Fine (f.call args) (f.call args) := by
  unfold NativeFunction.call
  split
  · exact S.fail_inStep trivial
  · split
    · exact S.fail_inStep trivial
    · refine S.bind_inStep (S.perform_inStep hf h) fun w₁ answer _ hanswer => ?_
      obtain ⟨hfine, kind, hkind, hfits⟩ := hanswer
      exact S.wrap_inStep hkind hfits hfine

end Pairing.StreamLawful

/-! ## Labels that nobody knows -/

/-- The label stands somewhere in the program. -/
def Program.Has (p : Program) (x : Label) : Prop := ∃ m ∈ p.modules, x ∈ labelsIn m.body

/-- If this is a fault, then because of a label in the program that the evaluator does not know. -/
def Program.AnswersFor (p : Program) : Stop → Prop
  | .fault f => ∃ x, p.Has x ∧ ¬ x.Known ∧ f = .unexpected x.name
  | _ => True

theorem Program.answersFor_of_local (p : Program) {x : Stop} (h : x.Local) : p.AnswersFor x := by
  cases x with
  | fault f => exact h.elim
  | failure | exhausted => exact trivial

/-- A function of the host is a standard one, and a function of the program has the program's labels only. -/
def Value.Standard (p : Program) : Value → Prop
  | .native f => f ∈ standardNatives
  | .closure c => ∀ x ∈ labelsIn c.body, p.Has x
  | _ => True

/-! ## Two inputs that tell the same -/

/-- What two inputs have to do with each other, so that the next line is the same, and the one after it. -/
structure Feed where
  Alike : Input → Input → Prop
  next : ∀ {i j}, Alike i j → i.next.1 = j.next.1 ∧ Alike i.next.2 j.next.2

namespace Feed

variable (F : Feed) (p : Program)

/-- Two states that differ in the inputs only, and these are alike. -/
def Beside (s t : State) : Prop := ∃ input, t = { s with input := input } ∧ F.Alike s.input input

structure At (s t : State) : Prop where
  beside : F.Beside s t
  store : s.store.All (Value.Standard p)
  memo : ∀ x ∈ s.memo, ∀ y ∈ x.2, y.2.Standard p

def pairing : Pairing where
  World := Unit
  Later _ _ := True
  Sim _ := F.At p
  Stopped _ x s t := F.Beside s t ∧ p.AnswersFor x
  Here _ _ := True
  Open _ _ _ := True
  Fine _ v := v.Standard p
  Allowed _ st := ∀ x ∈ st.labels, p.Has x

variable {F p}

theorem room {w : (F.pairing p).World} {e : ScopeId} {names : List String} : (F.pairing p).Room w e names :=
  ⟨trivial, fun _ _ => trivial⟩

theorem At.on {s t : State} (h : F.At p s t) {f : Store → Store} (hf : (f s.store).All (Value.Standard p)) :
    F.At p (s.on f) (t.on f) := by
  obtain ⟨⟨input, rfl, halike⟩, -, hmemo⟩ := h
  exact ⟨⟨input, rfl, halike⟩, hf, hmemo⟩

theorem streamLawful : (F.pairing p).StreamLawful where
  later_refl _ := trivial
  later_trans _ _ := trivial
  stopped_mono _ h := h
  here_mono _ _ := trivial
  open_mono _ _ := trivial
  fine_mono _ h := h
  allowed_mono _ h := h
  fine_number _ _ := trivial
  fine_boolean _ _ := trivial
  fine_string _ _ := trivial
  fine_null _ := trivial
  stop h hx := ⟨h.beside, p.answersFor_of_local hx⟩
  scopes_size h := by
    obtain ⟨⟨input, rfl, -⟩, -, -⟩ := h
    rfl
  objects_size h := by
    obtain ⟨⟨input, rfl, -⟩, -, -⟩ := h
    rfl
  parent h _ := by
    obtain ⟨⟨input, rfl, -⟩, -, -⟩ := h
    exact ⟨rfl, fun _ _ => trivial⟩
  bindings h _ := by
    obtain ⟨⟨input, rfl, -⟩, hstore, -⟩ := h
    exact ⟨rfl, hstore.bindings _⟩
  fields h _ := by
    obtain ⟨⟨input, rfl, -⟩, hstore, -⟩ := h
    exact ⟨rfl, hstore.fields _⟩
  bind name h _ _ hb := h.on (h.store.bind _ name hb)
  setField name h _ hv := h.on (h.store.setField _ name hv)
  newScope h _ := ⟨(), trivial, h.on (h.store.newScope _), fun _ => room⟩
  newObject h hf := ⟨(), trivial, h.on (h.store.newObject hf), trivial⟩
  write text h := by
    obtain ⟨⟨input, rfl, halike⟩, hstore, hmemo⟩ := h
    exact ⟨⟨input, rfl, halike⟩, hstore, hmemo⟩
  readLine h := by
    obtain ⟨⟨input, rfl, halike⟩, hstore, hmemo⟩ := h
    obtain ⟨hline, hnext⟩ := F.next halike
    exact ⟨hline, ⟨input.next.2, rfl, hnext⟩, hstore, hmemo⟩
  readClock h := by
    obtain ⟨⟨input, rfl, halike⟩, hstore, hmemo⟩ := h
    exact ⟨rfl, ⟨input, rfl, halike⟩, hstore, hmemo⟩

theorem mayMeet {x : Label} (hx : p.Has x) : (F.pairing p).MayMeet x := by
  by_cases hknown : x.Known
  · exact .inl hknown
  · exact .inr fun h => ⟨h.beside, x, hx, hknown, rfl⟩

theorem code_of_mem {m : Module} (hm : m ∈ p.modules) (w : (F.pairing p).World) : (F.pairing p).Code w m.body :=
  forall_mem_labelsIn.1 fun _ hx => ⟨m, hm, hx⟩

theorem runs (hnatives : p.natives = standardNatives) : (F.pairing p).Runs p p where
  toLawful := streamLawful.toLawful
  closure_runs h := ⟨trivial, forall_mem_labelsIn.1 h⟩
  closure_made _ h := h
  branch {_ condition whenTrue whenFalse} h := by
    change ∀ x ∈ (Stmt.branch condition whenTrue whenFalse).labels, p.Has x at h
    rw [Stmt.labels, List.forall_mem_append, List.forall_mem_append] at h
    obtain ⟨-, htrue, hfalse⟩ := h
    exact ⟨forall_mem_labelsIn.1 htrue, forall_mem_labelsIn.1 hfalse⟩
  loop {_ condition body} h := by
    change ∀ x ∈ (Stmt.loop condition body).labels, p.Has x at h
    rw [Stmt.labels, List.forall_mem_append] at h
    exact forall_mem_labelsIn.1 h.2
  labels h x hx := mayMeet (h x hx)
  call hf hargs := streamLawful.standard_inStep hf hargs
  native _ name := by
    refine ⟨rfl, fun f hf => ?_⟩
    show f ∈ standardNatives
    rw [← hnatives]
    exact List.mem_of_find?_eq_some hf
  memo h := by
    obtain ⟨⟨input, rfl, -⟩, -, hmemo⟩ := h
    exact ⟨rfl, hmemo⟩
  sameModule _ _ := rfl
  missing h _ _ _ := ⟨h.beside, trivial⟩
  enters := by
    rintro w m s t ⟨⟨input, rfl, halike⟩, hstore, hmemo⟩ - - hm -
    refine ⟨(), ⟨⟨input, rfl, halike⟩, hstore.newScope none, hmemo⟩, fun _ => room,
      code_of_mem (List.mem_of_find?_eq_some hm) _, fun _ _ _ _ hx => hx, ?_⟩
    rintro w' s' t' exports - - ⟨⟨input', rfl, halike'⟩, hstore', hmemo'⟩ hexports -
    refine ⟨(), trivial, ⟨⟨input', rfl, halike'⟩, hstore', fun x hx => ?_⟩, hexports⟩
    rcases Table.mem_insert hx with rfl | hx
    · exact hexports
    · exact hmemo' x hx

/-! ## Whole runs -/

variable (F p) in
/-- The two runs have ended alike, and if by a fault, the program is to blame. -/
structure Matches (r r' : EStateM.Result Stop State Value) : Prop where
  outcome : outcomeOf r = outcomeOf r'
  answersFor : ∀ x, stopOf r = some x → p.AnswersFor x
  beside : F.Beside (stateOf r) (stateOf r')

theorem Beside.logged {s t : State} (h : F.Beside s t) (note : Array Event → Array Event) :
    F.Beside { s with log := note s.log } { t with log := note t.log } := by
  obtain ⟨input, rfl, halike⟩ := h
  exact ⟨input, rfl, halike⟩

theorem Matches.stopped {x : Stop} {s t : State} (h : F.Beside s t) (hx : p.AnswersFor x) :
    F.Matches p (.error x s) (.error x t) :=
  ⟨rfl, fun _ hy => Option.some.inj hy ▸ hx, h⟩

/-- **Runs that are told the same end alike**, and are not broken off but by a label that the evaluator does not
know. -/
theorem run_matches (hnatives : p.natives = standardNatives) (check : Bool) (fuel : Nat) (clock : Clock) {i j : Input}
    (h : F.Alike i j) :
    F.Matches p (p.run fuel check (State.initial i clock)) (p.run fuel check (State.initial j clock)) := by
  have hinitial : F.Beside (State.initial i clock) (State.initial j clock) := ⟨j, rfl, h⟩
  rcases p.refused_or_begun check with ⟨f, note, hrefused⟩ | ⟨main, hmain, hchecked⟩
  · rw [hrefused, hrefused]
    exact .stopped (hinitial.logged note) trivial
  · have hbegun : F.Beside (p.begun check (State.initial i clock)) (p.begun check (State.initial j clock)) := by
      cases check <;> exact hinitial.logged fun log => _
    have hstarted : (F.pairing p).Sim () ((p.begun check (State.initial i clock)).started main)
        ((p.begun check (State.initial j clock)).started main) := by
      cases check <;> exact ⟨⟨j, rfl, h⟩, Store.All.empty.newScope none, fun _ hx => (by cases hx)⟩
    have hmem : main ∈ p.modules := List.mem_of_find?_eq_some (findModule?_of_selectMain hmain)
    have hends := (runs hnatives).runModule_ends hstarted (fun _ => room) (code_of_mem hmem _) fuel
    rw [Program.run_of_checked hmain hchecked, Program.run_of_checked hmain hchecked]
    generalize runModule p fuel main (p.begun check (State.initial i clock)) = r at hends
    generalize runModule p fuel main (p.begun check (State.initial j clock)) = r' at hends
    cases hends with
    | finished _ hst _ _ =>
      exact ⟨rfl, fun _ hx => (by cases hx), hst.beside.logged (·.push (.moduleFinished main.name _))⟩
    | unstarted => exact .stopped hbegun trivial
    | @stopped x s t hx =>
      cases x with
      | failure f => exact .stopped (hx.1.logged (·.push (.programFailed f))) trivial
      | fault | exhausted => exact .stopped hx.1 hx.2

end Feed

end Thicket
