import Mathlib.Data.List.Forall2
import Thicket.Proofs.PathStack
import Thicket.Proofs.RoundTrip
/-!
# A list of documents

A document may be a list, and then each entry of it is decoded to a module.  An entry is decoded as it would be by
itself, whatever stands before it in the list: the list is decoded if all entries are, and otherwise the first that is
not decides.  What is told of it is what would be told of it by itself, with its place in the list put in front of the
path (`loadModules_each`).

The same holds where one decoder goes through the whole list, with the steps from the root on a stack.  Each entry is
decoded with its place on the stack, and the stack is found as it was when the entry is done, so that nothing of it is
in the paths that are told of the next.
-/
namespace Thicket

/-! ## The place in the list, in an error -/

/-- What the first error tells of a document by itself, the second tells of it as entry `i` of a list.  The problem is
the same, and in the text of the path the place comes right after the root.  An error without a path stays what it
is. -/
inductive MovedInto (i : Nat) : LoadError → LoadError → Prop
  | malformed {path path' : Path} {rest : String} (problem : DocumentProblem) : path.text = "$" ++ rest →
      path'.text = "$" ++ ("[" ++ toString i ++ "]") ++ rest →
      MovedInto i (.malformed ⟨path, problem⟩) (.malformed ⟨path', problem⟩)
  | pathless {e : LoadError} : (∀ d, e ≠ .malformed d) → MovedInto i e e

theorem Path.text_index (i : Nat) (path : Path) :
    Path.text (.index i :: path) = "$" ++ ("[" ++ toString i ++ "]") ++ String.join (path.map Segment.text) := by
  rw [Path.text, List.map_cons, String.join_cons, Segment.text, ← String.append_assoc]

theorem movedInto_under (i : Nat) (e : LoadError) : MovedInto i e (e.under (.index i)) := by
  cases e with
  | malformed e => exact .malformed e.problem rfl (Path.text_index i e.path)
  | overflow | notText | tooManyDigits | loneSurrogate => exact .pathless (by rintro _ ⟨⟩)

/-! ## The entries one after the other -/

theorem Load.under_error {α : Type} (step : Segment) (e : LoadError) :
    Load.under step (.error e : Load α) = .error (e.under step) := by
  cases e <;> rfl

theorem Load.error_bind {α β : Type} (e : LoadError) (f : α → Load β) : ((.error e : Load α) >>= f) = .error e := rfl

theorem decodeModules_cons_of_error {d : Json} {e : LoadError} (h : decodeModule d = .error e) (i : Nat)
    (rest : List Json) : decodeModules i (d :: rest) = .error (e.under (.index i)) := by
  rw [decodeModules, h, Load.under_error, Load.error_bind]

/-- Behind a document that is decoded, the rest of the list decides. -/
theorem decodeModules_cons_of_ok {d : Json} {m : Module} (h : decodeModule d = .ok m) (i : Nat) (rest : List Json) :
    decodeModules i (d :: rest) = (decodeModules (i + 1) rest).map (m :: ·) := by
  rw [decodeModules, h, Load.under_ok, Load.ok_bind]
  cases decodeModules (i + 1) rest <;> rfl

theorem decodeModules_eq_ok_iff : ∀ (i : Nat) (items : List Json) (modules : List Module),
    decodeModules i items = .ok modules ↔ List.Forall₂ (fun d m => decodeModule d = .ok m) items modules
  | i, [], modules => by
    rw [List.forall₂_nil_left_iff, decodeModules, Except.ok.injEq]
    exact eq_comm
  | i, d :: rest, modules => by
    rw [List.forall₂_cons_left_iff]
    simp only [← decodeModules_eq_ok_iff (i + 1) rest]
    cases hd : decodeModule d with
    | error e => simp [decodeModules_cons_of_error hd]
    | ok m =>
      rw [decodeModules_cons_of_ok hd]
      cases decodeModules (i + 1) rest with
      | error e => simp [Except.map]
      | ok ms => simp [Except.map, eq_comm]

theorem decodeModules_eq_error_iff : ∀ (i : Nat) (items : List Json) (e : LoadError),
    decodeModules i items = .error e ↔ ∃ before d after e', items = before ++ d :: after ∧
      (∀ d' ∈ before, ∃ m, decodeModule d' = .ok m) ∧ decodeModule d = .error e' ∧
      e = e'.under (.index (i + before.length))
  | i, [], e => by simp [decodeModules]
  | i, d :: rest, e => by
    cases hd : decodeModule d with
    | error e₀ =>
      rw [decodeModules_cons_of_error hd, Except.error.injEq]
      constructor
      · rintro rfl
        exact ⟨[], d, rest, e₀, rfl, List.forall_mem_nil _, hd, rfl⟩
      · rintro ⟨before, d', after, e', hsplit, hbefore, hd', rfl⟩
        cases before with
        | nil =>
          obtain ⟨rfl, -⟩ := List.cons.inj hsplit
          rw [hd, Except.error.injEq] at hd'
          rw [hd']
          rfl
        | cons first before =>
          obtain ⟨rfl, -⟩ := List.cons.inj hsplit
          obtain ⟨m, hm⟩ := hbefore d List.mem_cons_self
          cases hd.symm.trans hm
    | ok m =>
      have hrest : decodeModules i (d :: rest) = .error e ↔ decodeModules (i + 1) rest = .error e := by
        rw [decodeModules_cons_of_ok hd]
        cases decodeModules (i + 1) rest <;> simp [Except.map]
      rw [hrest, decodeModules_eq_error_iff (i + 1) rest e]
      constructor
      · rintro ⟨before, d', after, e', rfl, hbefore, hd', rfl⟩
        refine ⟨d :: before, d', after, e', rfl, List.forall_mem_cons.2 ⟨⟨m, hd⟩, hbefore⟩, hd', ?_⟩
        rw [List.length_cons, Nat.add_assoc, Nat.add_comm 1]
      · rintro ⟨before, d', after, e', hsplit, hbefore, hd', rfl⟩
        cases before with
        | nil =>
          obtain ⟨rfl, -⟩ := List.cons.inj hsplit
          cases hd.symm.trans hd'
        | cons first before =>
          obtain ⟨rfl, rfl⟩ := List.cons.inj hsplit
          refine ⟨before, d', after, e', rfl, (List.forall_mem_cons.1 hbefore).2, hd', ?_⟩
          rw [List.length_cons, Nat.add_assoc, Nat.add_comm 1]

/-- **A list is loaded by loading each document in its place.**  It gives the modules that the documents give, in order,
exactly if each of them gives one.  It gives an error exactly if one of them does, and then the error of the first such,
with its place in the list put into the path.  So does a decoder that goes through the whole list with one stack, which
each document leaves as it was, beside a decoder of its own for each document. -/
theorem loadModules_each (items : List Json) :
    (∀ modules, loadModules (.arr items) = .ok modules ↔
      List.Forall₂ (fun d m => decodeModule d = .ok m) items modules) ∧
    (∀ e, loadModules (.arr items) = .error e ↔ ∃ before d after e', items = before ++ d :: after ∧
      (∀ d' ∈ before, ∃ m, decodeModule d' = .ok m) ∧ decodeModule d = .error e' ∧
      e = e'.under (.index before.length) ∧ MovedInto before.length e' e) ∧
    (Stacked.document (.arr items)).Balanced (loadModules (.arr items)) ∧
    ∀ d, (Stacked.module d).Balanced (decodeModule d) := by
  refine ⟨decodeModules_eq_ok_iff 0 items, fun e => ?_, Stacked.balanced_of_eq (Stacked.document_eq _),
    fun d => Stacked.balanced_of_eq (Stacked.module_eq d)⟩
  rw [loadModules, decodeModules_eq_error_iff]
  constructor
  · rintro ⟨before, d, after, e', hsplit, hbefore, hd, rfl⟩
    rw [Nat.zero_add]
    exact ⟨before, d, after, e', hsplit, hbefore, hd, rfl, movedInto_under _ e'⟩
  · rintro ⟨before, d, after, e', hsplit, hbefore, hd, rfl, -⟩
    exact ⟨before, d, after, e', hsplit, hbefore, hd, by rw [Nat.zero_add]⟩

/-- Three documents.  The first is in order; something is wrong with each of the others. -/
def bundle : List Json :=
  [.obj [("name", .str "Lib"), ("body", .arr [])],
   .obj [("name", .str "Main"), ("body", .arr [.obj [("statementKind", .str "return")],
     .obj [("statementKind", .str "while"), ("condition", .obj [("expressionKind", .str "nullLit")]),
       ("body", .arr [.obj [("statementKind", .str "expression"), ("expression", .null)]])]])],
   .obj [("name", .str "Main")]]

theorem bundle_error :
    ∃ e, loadModules (.arr bundle) = .error (.malformed e) ∧ e.path.text = "$[1].body[1].body[0].expression" ∧
      e.problem.message = "Expression must be an object" := by
  have herror : loadModules (.arr bundle) = .error (.malformed ⟨[.index 1, .item "body" 1, .item "body" 0,
      .key "expression"], .notObject .expression .null⟩) :=
    ((loadModules_each bundle).2.1 _).2 ⟨bundle.take 1, _, _, _, rfl,
      List.forall_mem_singleton.2 ⟨⟨"Lib", [], []⟩, rfl⟩, rfl, rfl, movedInto_under _ _⟩
  exact ⟨_, herror, by decide, by decide⟩

end Thicket
