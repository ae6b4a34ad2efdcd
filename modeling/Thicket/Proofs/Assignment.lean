import Thicket.Store
/-!
# Assignment and lookup

Looking a name up and assigning to it both walk from a scope outward to the nearest one that declares the name
(`Nearest`).  The walk is on a bound, which is enough because every scope was made after the one around it
(`nearest?_eq_some_iff`).

Scopes are shared: the one that an assignment changes may be on the way outward of many others.  What each of them sees
afterwards is said by `assign_agrees_with_lookup`.
-/
namespace Thicket.Store

/-! ## How scopes come about -/

/-- The scopes were made one after the other, each as a root or inside one that was there, and names were declared,
defined and assigned in them. -/
inductive Forest : Store → Prop
  | bare (objects : Array Record) : Forest ⟨#[], objects⟩
  | root {s : Store} : Forest s → Forest (s.newScope none).2
  | child {s : Store} {e : ScopeId} : Forest s → e < s.scopes.size → Forest (s.newScope (some e)).2
  | declare {s : Store} (e : ScopeId) (name : String) : Forest s → Forest (s.declare e name)
  | define {s : Store} (e : ScopeId) (name : String) (v : Value) : Forest s → Forest (s.define e name v)
  | assign {s : Store} (e : ScopeId) (name : String) (v : Value) : Forest s → Forest (s.assign e name v).2

/-- Every scope was made after the one around it. -/
def Outward (s : Store) : Prop := ∀ e p, s.parent? e = some p → p < e

variable {s s' : Store} {e a p : ScopeId} {name x : String} {v : Value}

theorem Outward.bind (h : s.Outward) (e : ScopeId) (name : String) (b : Binding) : (s.bind e name b).Outward := by
  intro a p hp
  rw [parent?_bind] at hp
  exact h a p hp

theorem Outward.newScope (h : s.Outward) {parent : Option ScopeId} (hparent : ∀ p ∈ parent, p < s.scopes.size) :
    (s.newScope parent).2.Outward := by
  intro a p hp
  rw [parent?_newScope] at hp
  split at hp
  · rename_i ha
    exact ha ▸ hparent p hp
  · exact h a p hp

theorem Outward.assign (h : s.Outward) (e : ScopeId) (name : String) (v : Value) : (s.assign e name v).2.Outward := by
  unfold Store.assign
  cases s.nearest? e name with
  | none => exact h
  | some a => exact h.bind a name (some v)

theorem Forest.outward (h : s.Forest) : s.Outward := by
  induction h with
  | bare objects => exact fun e p hp => by cases hp
  | root _ ih => exact ih.newScope fun p hp => by cases hp
  | child _ he ih => exact ih.newScope fun p hp => by cases hp; exact he
  | declare e name _ ih => exact ih.bind e name none
  | define e name v _ ih => exact ih.bind e name (some v)
  | assign e name v _ ih => exact ih.assign e name v

/-! ## The nearest scope -/

/-- From the first scope outward, the second is the nearest that declares the name. -/
inductive Nearest (s : Store) (name : String) : ScopeId → ScopeId → Prop
  | here {e : ScopeId} : s.declares e name = true → Nearest s name e e
  | outward {e p a : ScopeId} : s.declares e name = false → s.parent? e = some p → Nearest s name p a →
      Nearest s name e a

theorem Nearest.declares (h : s.Nearest name e a) : s.declares a name = true := by
  induction h with
  | here h => exact h
  | outward _ _ _ ih => exact ih

/-- A walk that may take as many steps as there are older scopes finds the nearest. -/
theorem find?_chainWithin_iff (hs : s.Outward) : ∀ {n : Nat} {e : ScopeId}, e < n →
    ((s.chainWithin n e).find? (fun b => s.declares b name) = some a ↔ s.Nearest name e a)
  | n + 1, e, hlt => by
    rw [chainWithin]
    cases hdeclares : s.declares e name with
    | true =>
      rw [List.find?_cons_of_pos (by exact hdeclares), Option.some.injEq]
      constructor
      · rintro rfl
        exact .here hdeclares
      · intro h
        cases h with
        | here _ => rfl
        | outward hnot _ _ => simp [hdeclares] at hnot
    | false =>
      rw [List.find?_cons_of_neg (by simp [hdeclares])]
      cases hp : s.parent? e with
      | none =>
        refine iff_of_false (by simp) fun h => ?_
        cases h with
        | here hhere => simp [hdeclares] at hhere
        | outward _ hparent _ => simp [hp] at hparent
      | some p =>
        have hlt' : p < n := Nat.lt_of_lt_of_le (hs e p hp) (Nat.le_of_lt_succ hlt)
        rw [find?_chainWithin_iff hs hlt']
        constructor
        · exact .outward hdeclares hp
        · intro h
          cases h with
          | here hhere => simp [hdeclares] at hhere
          | outward _ hparent hrest =>
            rw [hp, Option.some.injEq] at hparent
            exact hparent ▸ hrest

theorem nearest?_eq_some_iff (hs : s.Outward) : s.nearest? e name = some a ↔ s.Nearest name e a :=
  find?_chainWithin_iff hs (Nat.lt_succ_self e)

/-! ## One binding -/

/-- The second store is the first one, but that `x` stands for `v` in the scope `a`, where it was declared before. -/
structure Rebound (s s' : Store) (a : ScopeId) (x : String) (v : Value) : Prop where
  objects : s'.objects = s.objects
  size : s'.scopes.size = s.scopes.size
  parent : ∀ b, s'.parent? b = s.parent? b
  names : ∀ b, Table.names (s'.bindings b) = Table.names (s.bindings b)
  binding : ∀ b y, Table.get? (s'.bindings b) y =
    if b = a ∧ y = x then some (some v) else Table.get? (s.bindings b) y

theorem declares_iff : s.declares e name = true ↔ name ∈ Table.names (s.bindings e) := Table.get?_isSome_iff _ name

theorem lt_size_of_declares (h : s.declares e name = true) : e < s.scopes.size := by
  apply Classical.byContradiction
  intro hge
  rw [declares, bindings, Array.getElem?_eq_none (Nat.le_of_not_lt hge)] at h
  cases h

theorem rebound_define (h : s.declares a x = true) (v : Value) : s.Rebound (s.define a x v) a x v where
  objects := rfl
  size := s.size_bind a x (some v)
  parent b := s.parent?_bind a b x (some v)
  names b := by
    rw [define, bindings_bind]
    split
    · rename_i hb
      rw [Table.names_insert, if_pos (declares_iff.1 h), hb.1]
    · rfl
  binding b y := by
    rw [define, bindings_bind]
    by_cases hb : b = a
    · rw [if_pos ⟨hb, lt_size_of_declares h⟩, Table.get?_insert, hb]
      simp only [true_and, eq_comm]
    · rw [if_neg fun hand => hb hand.1, if_neg fun hand => hb hand.1]

/-- No walk outward stops at another scope than before. -/
theorem nearest?_define (h : s.declares a x = true) (v : Value) (e : ScopeId) (y : String) :
    (s.define a x v).nearest? e y = s.nearest? e y := by
  have hdeclares : ∀ b, (s.define a x v).declares b y = s.declares b y := by
    intro b
    rw [Bool.eq_iff_iff, declares_iff, declares_iff, (rebound_define h v).names]
  rw [nearest?, nearest?, define, chain_bind, ← define]
  simp only [hdeclares]

theorem lookup_define (h : s.declares a x = true) (v : Value) (e : ScopeId) (y : String) :
    (s.define a x v).lookup e y = if y = x ∧ s.nearest? e x = some a then some (some v) else s.lookup e y := by
  rw [lookup, lookup, nearest?_define h]
  cases hn : s.nearest? e y with
  | none =>
    have hno : ¬ (y = x ∧ s.nearest? e x = some a) := by
      rintro ⟨rfl, hsome⟩
      rw [hn] at hsome
      cases hsome
    rw [if_neg hno]
  | some b =>
    have hiff : (b = a ∧ y = x) ↔ y = x ∧ s.nearest? e x = some a := by
      constructor
      · rintro ⟨rfl, rfl⟩
        exact ⟨rfl, hn⟩
      · rintro ⟨rfl, hsome⟩
        exact ⟨Option.some.inj (hn.symm.trans hsome), rfl⟩
    simp only [(rebound_define h v).binding b y, hiff]

/-! ## Assignment -/

/-- What an assignment can do: nothing, if no scope on the way outward declares the name, or else to change its binding
in the nearest one that does. -/
theorem assign_cases (hs : s.Outward) (e : ScopeId) (x : String) (v : Value) :
    s.assign e x v = (false, s) ∧ s.lookup e x = none ∧ (∀ a, ¬ s.Nearest x e a) ∨
      ∃ a, s.assign e x v = (true, s.define a x v) ∧ s.lookup e x ≠ none ∧ s.Nearest x e a := by
  have hfst := s.assign_fst e x v
  rw [Store.assign] at hfst ⊢
  cases hn : s.nearest? e x with
  | none =>
    refine .inl ⟨rfl, by rw [lookup, hn], fun a ha => ?_⟩
    rw [(nearest?_eq_some_iff hs).2 ha] at hn
    cases hn
  | some a =>
    rw [hn] at hfst
    exact .inr ⟨a, rfl, Option.isSome_iff_ne_none.1 hfst.symm, (nearest?_eq_some_iff hs).1 hn⟩

/-- **Assignment and lookup agree.**  A name can be assigned exactly if it can be looked up, which is if some scope on
the way outward declares it; what is looked up is its binding in the nearest of them.  If it cannot be assigned, nothing
changes.  If it can, that binding changes and nothing else, and it changes for exactly those scopes from which the same
one is the nearest. -/
theorem assign_agrees_with_lookup (s : Store) (hs : s.Forest) (e : ScopeId) (x : String) (v : Value) :
    ((s.assign e x v).1 = true ↔ s.lookup e x ≠ none) ∧
    (s.lookup e x ≠ none ↔ ∃ a, s.Nearest x e a) ∧
    (∀ a, s.Nearest x e a → s.lookup e x = Table.get? (s.bindings a) x) ∧
    ((s.assign e x v).1 = false → (s.assign e x v).2 = s) ∧
    ((s.assign e x v).1 = true → ∃ a, s.Nearest x e a ∧ s.Rebound (s.assign e x v).2 a x v ∧
      ∀ e' y,
        (y = x ∧ s.Nearest x e' a → (s.assign e x v).2.lookup e' y = some (some v)) ∧
        (¬ (y = x ∧ s.Nearest x e' a) → (s.assign e x v).2.lookup e' y = s.lookup e' y)) := by
  have hout := hs.outward
  have hget : ∀ a, s.Nearest x e a → s.lookup e x = Table.get? (s.bindings a) x := by
    intro a ha
    rw [lookup, (nearest?_eq_some_iff hout).2 ha]
  rcases assign_cases hout e x v with ⟨heq, hlookup, hnone⟩ | ⟨a, heq, hlookup, hnear⟩
  · refine ⟨?_, ?_, hget, fun _ => ?_, fun htrue => ?_⟩
    · exact iff_of_false (by simp [heq]) (not_not_intro hlookup)
    · exact iff_of_false (not_not_intro hlookup) (not_exists.2 hnone)
    · rw [heq]
    · rw [heq] at htrue
      cases htrue
  · rw [heq]
    refine ⟨iff_of_true rfl hlookup, iff_of_true hlookup ⟨a, hnear⟩, hget, fun hfalse => (by cases hfalse), fun _ => ?_⟩
    refine ⟨a, hnear, rebound_define hnear.declares v, fun e' y => ?_⟩
    have hseen := lookup_define hnear.declares v e' y
    simp only [← nearest?_eq_some_iff hout]
    exact ⟨fun h => hseen.trans (if_pos h), fun h => hseen.trans (if_neg h)⟩

/-- A root with `x` and `y`; in it a scope with an `x` of its own, not assigned yet, and a scope in that; and last one
more scope in the root, from which `y` was assigned. -/
def grove : Store :=
  let s := (Store.empty.newScope none).2
  let s := (s.define 0 "x" (.boolean true)).declare 0 "y"
  let s := (s.newScope (some 0)).2.declare 1 "x"
  let s := (s.newScope (some 1)).2
  let s := (s.newScope (some 0)).2
  (s.assign 3 "y" .null).2

theorem grove_forest : grove.Forest := by
  have hroot : ((Store.empty.newScope none).2.define 0 "x" (.boolean true)).Forest := .define _ _ _ (.root (.bare _))
  refine .assign _ _ _ (.child (.child (.declare _ _ (.child (.declare _ _ hroot) ?_)) ?_) ?_)
  all_goals decide

theorem grove_assign :
    grove.Forest ∧ (grove.assign 2 "x" (.string "here")).1 = true ∧
      (grove.assign 2 "x" (.string "here")).2.lookup 1 "x" = some (some (.string "here")) ∧
      (grove.assign 2 "x" (.string "here")).2.lookup 3 "x" = grove.lookup 3 "x" := by
  obtain ⟨-, -, -, -, hdone⟩ := assign_agrees_with_lookup grove grove_forest 2 "x" (.string "here")
  have hnear {e b : ScopeId} : grove.Nearest "x" e b ↔ grove.nearest? e "x" = some b :=
    (nearest?_eq_some_iff grove_forest.outward).symm
  obtain ⟨a, ha, -, hseen⟩ := hdone rfl
  obtain rfl : 1 = a := Option.some.inj (hnear.1 ha)
  refine ⟨grove_forest, rfl, (hseen 1 "x").1 ⟨rfl, hnear.2 rfl⟩, (hseen 3 "x").2 ?_⟩
  rintro ⟨-, h⟩
  cases hnear.1 h

end Thicket.Store
