import Thicket.Static.Imports
/-!
# The imports of a body, statement by statement

`collectImports` walks through pending statements on a bound.  `importsOf` is the same list by recursion on the
statements, with repetitions; the walk keeps the first place of each name (`collectImports_eq`).  All that later proofs
need of the walk is that it meets every import at every depth (`mem_collectImports`).
-/
namespace Thicket

/-! ## Names without repetition -/

theorem mem_addName (names : List String) (name a : String) : a ∈ addName names name ↔ a ∈ names ∨ a = name := by
  unfold addName
  split
  · rename_i h
    constructor
    · exact .inl
    · rintro (ha | rfl)
      · exact ha
      · exact h
  · simp

theorem mem_foldl_addName : ∀ (names seen : List String) (a : String),
    a ∈ names.foldl addName seen ↔ a ∈ seen ∨ a ∈ names
  | [], seen, a => by simp
  | name :: names, seen, a => by
    rw [List.foldl_cons, mem_foldl_addName names (addName seen name) a, mem_addName, List.mem_cons, or_assoc]

/-! ## The walk is the recursion -/

mutual

/-- The modules that a statement imports from, at any depth and in order.  The functions of the host do not count. -/
def Stmt.imports : Stmt → List String
  | .importFrom source _ => if source = nativeName then [] else [source]
  | .function _ _ body => importsOf body
  | .branch _ whenTrue whenFalse => importsOf whenTrue ++ importsOf whenFalse
  | .loop _ body => importsOf body
  | _ => []

def importsOf : List Stmt → List String
  | [] => []
  | s :: rest => s.imports ++ importsOf rest

end

theorem importsOf_append : ∀ (a b : List Stmt), importsOf (a ++ b) = importsOf a ++ importsOf b
  | [], b => rfl
  | s :: a, b => by rw [List.cons_append, importsOf, importsOf, importsOf_append a b, List.append_assoc]

theorem mem_importsOf (body : List Stmt) (i : String) : i ∈ importsOf body ↔ ∃ s ∈ body, i ∈ s.imports := by
  induction body with
  | nil => simp [importsOf]
  | cons s rest ih => simp [importsOf, ih]

theorem forall_mem_importsOf {body : List Stmt} {R : String → Prop} :
    (∀ i ∈ importsOf body, R i) ↔ ∀ st ∈ body, ∀ i ∈ st.imports, R i := by
  simp only [mem_importsOf]
  exact ⟨fun h st hst i hi => h i ⟨st, hst, hi⟩, fun h i ⟨st, hst, hi⟩ => h st hst i hi⟩

theorem countAll_append : ∀ (a b : List Stmt), countAll (a ++ b) = countAll a + countAll b
  | [], b => by simp [countAll]
  | s :: a, b => by rw [List.cons_append, countAll, countAll, countAll_append a b, Nat.add_assoc]

/-- **With a bound as large as what is pending, the walk collects the imports of all of it.** -/
theorem importsWithin_eq : ∀ (n : Nat) (pending : List Stmt) (seen : List String), countAll pending ≤ n →
    importsWithin n pending seen = (importsOf pending).foldl addName seen
  | 0, [], seen, _ => rfl
  | 0, s :: rest, seen, h => by
    have hpos : 0 < s.count := by cases s <;> simp [Stmt.count]
    rw [countAll] at h
    omega
  | n + 1, [], seen, _ => rfl
  | n + 1, s :: rest, seen, h => by
    rw [countAll] at h
    cases s with
    | importFrom source names =>
      rw [importsWithin, importsOf, Stmt.imports, List.foldl_append,
        importsWithin_eq n rest _ (by simp only [Stmt.count] at h; omega)]
      by_cases hs : source = nativeName <;> simp [hs]
    | function name params body =>
      rw [importsWithin, importsOf, Stmt.imports, importsWithin_eq n (body ++ rest) seen, importsOf_append]
      rw [countAll_append]
      simp only [Stmt.count] at h
      omega
    | branch condition whenTrue whenFalse =>
      rw [importsWithin, importsOf, Stmt.imports, importsWithin_eq n (whenTrue ++ (whenFalse ++ rest)) seen,
        importsOf_append, importsOf_append, List.append_assoc]
      rw [countAll_append, countAll_append]
      simp only [Stmt.count] at h
      omega
    | loop condition body =>
      rw [importsWithin, importsOf, Stmt.imports, importsWithin_eq n (body ++ rest) seen, importsOf_append]
      rw [countAll_append]
      simp only [Stmt.count] at h
      omega
    | giveBack _ | declare _ | assign _ _ | setField _ _ _ | run _ | other _ _ =>
      simp only [Stmt.count] at h
      simp only [importsWithin, importsOf, Stmt.imports, List.nil_append]
      exact importsWithin_eq n rest seen (by omega)

/-- **The imports of a body are those met by recursion, each in its first place.** -/
theorem collectImports_eq (body : List Stmt) : collectImports body = (importsOf body).foldl addName [] :=
  importsWithin_eq (countAll body) body [] (Nat.le_refl _)

theorem mem_collectImports (body : List Stmt) (i : String) : i ∈ collectImports body ↔ i ∈ importsOf body := by
  rw [collectImports_eq, mem_foldl_addName]
  simp

end Thicket
