import Thicket.Proofs.Imports
/-!
# The walk through the imports of a body

The imports of a body are found with a stack.  Each pass takes the statement on top of it away and puts what stands
inside that statement in its place, turned round, so that statements come off the stack in the order in which they are
written.  `collectImports` is that loop with the stack read from the top, and each pass takes one statement away for
good (`pass_spec`).  So the loop comes to its end after as many passes as there are statements, and what it has then is
what the recursion over the statements finds, each name in its first place (`collectImports_walk`).
-/
namespace Thicket

/-! ## First places -/

theorem filter_notMem_concat (seen names : List String) (a : String) :
    names.filter (· ∉ seen ++ [a]) = (names.filter (· ∉ seen)).filter fun b => !b == a := by
  rw [List.filter_filter]
  refine List.filter_congr fun b _ => ?_
  by_cases hb : b = a <;> simp [hb]

/-- Adding names one by one keeps the first place of each. -/
theorem foldl_addName_eq : ∀ (names seen : List String),
    names.foldl addName seen = seen ++ (names.filter (· ∉ seen)).eraseDups
  | [], seen => by simp
  | a :: names, seen => by
    rw [List.foldl_cons, foldl_addName_eq names, addName]
    by_cases ha : a ∈ seen
    · rw [if_pos ha, List.filter_cons_of_neg (by simpa using ha)]
    · rw [if_neg ha, List.filter_cons_of_pos (by simpa using ha), List.eraseDups_cons, filter_notMem_concat,
        List.append_assoc, List.singleton_append]

theorem collectImports_eq_eraseDups (body : List Stmt) : collectImports body = (importsOf body).eraseDups := by
  rw [collectImports_eq, foldl_addName_eq, List.filter_eq_self.2 (by simp), List.nil_append]

/-! ## Statements at any depth -/

/-- The statement stands in the body, at some depth. -/
inductive StandsIn (st : Stmt) : List Stmt → Prop
  | here {body : List Stmt} : st ∈ body → StandsIn st body
  | function {name : String} {params : List String} {inner body : List Stmt} : .function name params inner ∈ body →
      StandsIn st inner → StandsIn st body
  | whenTrue {condition : Expr} {inner other body : List Stmt} : .branch condition inner other ∈ body →
      StandsIn st inner → StandsIn st body
  | whenFalse {condition : Expr} {inner other body : List Stmt} : .branch condition other inner ∈ body →
      StandsIn st inner → StandsIn st body
  | loop {condition : Expr} {inner body : List Stmt} : .loop condition inner ∈ body →
      StandsIn st inner → StandsIn st body

theorem StandsIn.mono {st : Stmt} {body body' : List Stmt} (h : StandsIn st body) (hsub : body ⊆ body') :
    StandsIn st body' := by
  cases h with
  | here hmem => exact .here (hsub hmem)
  | function hmem h => exact .function (hsub hmem) h
  | whenTrue hmem h => exact .whenTrue (hsub hmem) h
  | whenFalse hmem h => exact .whenFalse (hsub hmem) h
  | loop hmem h => exact .loop (hsub hmem) h

mutual

theorem Stmt.standsIn_of_mem_imports {i : String} : ∀ st : Stmt, i ∈ st.imports →
    i ≠ nativeName ∧ ∃ names, StandsIn (.importFrom i names) [st]
  | .importFrom source names, h => by
    rw [Stmt.imports] at h
    split at h
    · cases h
    · rename_i hsource
      rw [List.mem_singleton] at h
      exact ⟨h ▸ hsource, names, .here (h ▸ List.mem_singleton_self _)⟩
  | .function _ _ body, h => by
    obtain ⟨hne, names, hin⟩ := standsIn_of_mem_importsOf body h
    exact ⟨hne, names, .function (List.mem_singleton_self _) hin⟩
  | .branch _ whenTrue whenFalse, h => by
    rcases List.mem_append.1 h with h | h
    · obtain ⟨hne, names, hin⟩ := standsIn_of_mem_importsOf whenTrue h
      exact ⟨hne, names, .whenTrue (List.mem_singleton_self _) hin⟩
    · obtain ⟨hne, names, hin⟩ := standsIn_of_mem_importsOf whenFalse h
      exact ⟨hne, names, .whenFalse (List.mem_singleton_self _) hin⟩
  | .loop _ body, h => by
    obtain ⟨hne, names, hin⟩ := standsIn_of_mem_importsOf body h
    exact ⟨hne, names, .loop (List.mem_singleton_self _) hin⟩
  | .giveBack _, h | .declare _, h | .assign _ _, h | .setField _ _ _, h | .run _, h => by cases h

theorem standsIn_of_mem_importsOf {i : String} : ∀ body : List Stmt, i ∈ importsOf body →
    i ≠ nativeName ∧ ∃ names, StandsIn (.importFrom i names) body
  | st :: rest, h => by
    rcases List.mem_append.1 h with h | h
    · obtain ⟨hne, names, hin⟩ := st.standsIn_of_mem_imports h
      exact ⟨hne, names, hin.mono (List.cons_subset_cons st (List.nil_subset rest))⟩
    · obtain ⟨hne, names, hin⟩ := standsIn_of_mem_importsOf rest h
      exact ⟨hne, names, hin.mono (List.subset_cons_self st rest)⟩

end

theorem StandsIn.mem_importsOf {i : String} {names : List String} {body : List Stmt} (hne : i ≠ nativeName)
    (h : StandsIn (.importFrom i names) body) : i ∈ importsOf body := by
  induction h with
  | here hmem =>
    refine (Thicket.mem_importsOf _ i).2 ⟨_, hmem, ?_⟩
    rw [Stmt.imports, if_neg hne]
    exact List.mem_cons_self
  | function hmem _ ih => exact (Thicket.mem_importsOf _ i).2 ⟨_, hmem, ih⟩
  | whenTrue hmem _ ih => exact (Thicket.mem_importsOf _ i).2 ⟨_, hmem, List.mem_append_left _ ih⟩
  | whenFalse hmem _ ih => exact (Thicket.mem_importsOf _ i).2 ⟨_, hmem, List.mem_append_right _ ih⟩
  | loop hmem _ ih => exact (Thicket.mem_importsOf _ i).2 ⟨_, hmem, ih⟩

/-! ## The loop -/

/-- A walk on its way: the statements that are still to be looked at, the last of them next, and the names met so
far. -/
structure ImportWalk where
  pending : List Stmt
  seen : List String

namespace ImportWalk

/-- The walk after a statement was taken off the stack, from above `rest`.  Of a branch, the second body goes on the
stack before the first. -/
def after (rest : List Stmt) (seen : List String) : Stmt → ImportWalk
  | .importFrom source _ => ⟨rest, if source = nativeName then seen else addName seen source⟩
  | .function _ _ body => ⟨rest ++ body.reverse, seen⟩
  | .branch _ whenTrue whenFalse => ⟨rest ++ whenFalse.reverse ++ whenTrue.reverse, seen⟩
  | .loop _ body => ⟨rest ++ body.reverse, seen⟩
  | _ => ⟨rest, seen⟩

/-- One pass of the loop, if anything is pending. -/
def pass (w : ImportWalk) : Option ImportWalk := w.pending.getLast?.map (after w.pending.dropLast w.seen)

/-- The loop comes to its end after `n` passes, and has found these names. -/
inductive Ends : ImportWalk → Nat → List String → Prop
  | empty {w : ImportWalk} : w.pass = none → Ends w 0 w.seen
  | pass {w w' : ImportWalk} {n : Nat} {names : List String} : w.pass = some w' → Ends w' n names → Ends w (n + 1) names

theorem Ends.unique {w : ImportWalk} {n n' : Nat} {names names' : List String} (h : Ends w n names)
    (h' : Ends w n' names') : n = n' ∧ names = names' := by
  induction h generalizing n' with
  | empty hnone =>
    cases h' with
    | empty => exact ⟨rfl, rfl⟩
    | pass hsome _ => simp [hnone] at hsome
  | pass hsome _ ih =>
    cases h' with
    | empty hnone => simp [hsome] at hnone
    | pass hsome' hrest =>
      rw [hsome, Option.some.injEq] at hsome'
      obtain ⟨hn, hnames⟩ := ih (hsome' ▸ hrest)
      exact ⟨congrArg (· + 1) hn, hnames⟩

theorem countAll_reverse (body : List Stmt) : countAll body.reverse = countAll body := by
  induction body with
  | nil => rfl
  | cons st rest ih =>
    simp only [List.reverse_cons, countAll_append, ih, countAll]
    omega

theorem pending_eq_nil {w : ImportWalk} (h : w.pass = none) : w.pending = [] :=
  List.getLast?_eq_none_iff.1 (Option.map_eq_none_iff.1 h)

/-- **What a pass does.**  It takes one statement away for good, and collecting imports from the top of the stack takes
it in one step. -/
theorem pass_spec {w w' : ImportWalk} (h : w.pass = some w') :
    countAll w.pending = countAll w'.pending + 1 ∧
    ∀ n, importsWithin (n + 1) w.pending.reverse w.seen = importsWithin n w'.pending.reverse w'.seen := by
  obtain ⟨pending, seen⟩ := w
  obtain ⟨st, hlast, rfl⟩ := Option.map_eq_some_iff.1 h
  obtain ⟨rest, rfl⟩ := List.getLast?_eq_some_iff.1 hlast
  rw [List.dropLast_concat, countAll_append, countAll, countAll, List.reverse_concat]
  cases st <;> simp only [after, Stmt.count, countAll_append, countAll_reverse, importsWithin, List.reverse_append,
    List.reverse_reverse, implies_true, and_true] <;> omega

/-- From any stack, the loop comes to its end after as many passes as there are statements on it. -/
theorem ends (w : ImportWalk) :
    Ends w (countAll w.pending) (importsWithin (countAll w.pending) w.pending.reverse w.seen) := by
  cases hpass : w.pass with
  | none =>
    rw [pending_eq_nil hpass]
    exact .empty hpass
  | some w' =>
    obtain ⟨hcount, hloop⟩ := pass_spec hpass
    rw [hcount, hloop]
    exact .pass hpass w'.ends
termination_by countAll w.pending

end ImportWalk

/-- **The walk through a body finds its imports.**  The loop over the stack comes to its end, after as many passes as
there are statements in the body, with the names that are collected.  These are the names that the recursion over the
statements meets, each in its first place, and so just the modules from which a statement imports at some depth. -/
theorem collectImports_walk (body : List Stmt) :
    (∀ n names, ImportWalk.Ends ⟨body.reverse, []⟩ n names ↔ n = countAll body ∧ names = collectImports body) ∧
    collectImports body = (importsOf body).eraseDups ∧
    ∀ i, i ∈ collectImports body ↔ i ≠ nativeName ∧ ∃ names, StandsIn (.importFrom i names) body := by
  refine ⟨fun n names => ?_, collectImports_eq_eraseDups body, fun i => ?_⟩
  · have hends := ImportWalk.ends ⟨body.reverse, []⟩
    rw [List.reverse_reverse, ImportWalk.countAll_reverse, ← collectImports] at hends
    constructor
    · exact fun h => h.unique hends
    · rintro ⟨rfl, rfl⟩
      exact hends
  · rw [mem_collectImports]
    exact ⟨standsIn_of_mem_importsOf body, fun ⟨hne, _, hin⟩ => hin.mem_importsOf hne⟩

end Thicket
