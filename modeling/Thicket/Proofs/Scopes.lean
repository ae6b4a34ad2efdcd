import Thicket.Proofs.Call
/-!
# Names stay where they were declared

Code that runs makes scopes of its own all the time: for calls, for branches, for each pass of a loop, for the bodies of
modules.  In the scopes that were there before, it may give names other values, but it declares a name only in the one
scope in which it runs, and only where a statement of its own says so.  All other scopes have the names they had, and
every scope stays inside the scope it was made in (`call_keeps_scopes`).
-/
namespace Thicket

namespace Store

theorem declares_bind (s : Store) (e a : ScopeId) (name x : String) (b : Binding) :
    (s.bind e name b).declares a x = true ↔
      s.declares a x = true ∨ (a = e ∧ e < s.scopes.size ∧ name = x) := by
  unfold declares Table.contains
  rw [bindings_bind]
  by_cases h : a = e ∧ e < s.scopes.size
  · obtain ⟨rfl, hlt⟩ := h
    rw [if_pos ⟨rfl, hlt⟩, Table.get?_insert]
    by_cases hx : name = x <;> simp [hx, hlt]
  · rw [if_neg h]
    constructor
    · exact .inl
    · rintro (hd | ⟨ha, hlt, -⟩)
      · exact hd
      · exact absurd ⟨ha, hlt⟩ h

theorem declares_newScope (s : Store) (parent : Option ScopeId) (a : ScopeId) (x : String) :
    (s.newScope parent).2.declares a x = s.declares a x := by
  unfold declares
  rw [bindings_newScope]

/-- The scopes of the first store are there in the second, inside the same scopes and with the names they had.  New
names are only as `D` says. -/
structure Tidy (D : ScopeId → String → Prop) (s₀ s : Store) : Prop where
  size : s₀.scopes.size ≤ s.scopes.size
  parent : ∀ a < s₀.scopes.size, s.parent? a = s₀.parent? a
  kept : ∀ a < s₀.scopes.size, ∀ x, s₀.declares a x = true → s.declares a x = true
  only : ∀ a < s₀.scopes.size, ∀ x, s.declares a x = true → s₀.declares a x = true ∨ D a x

namespace Tidy

variable {D : ScopeId → String → Prop} {s₀ s : Store}

theorem refl (D : ScopeId → String → Prop) (s : Store) : Tidy D s s :=
  ⟨Nat.le_refl _, fun _ _ => rfl, fun _ _ _ h => h, fun _ _ _ h => .inl h⟩

/-- A name may be bound in a scope of its own, where `D` says so, and where it is declared already. -/
theorem bind (h : Tidy D s₀ s) {e : ScopeId} {name : String} (b : Binding)
    (hname : (s₀.scopes.size ≤ e ∨ D e name) ∨ s.declares e name = true) : Tidy D s₀ (s.bind e name b) where
  size := Nat.le_trans h.size (Nat.le_of_eq (s.size_bind e name b).symm)
  parent a ha := by rw [parent?_bind, h.parent a ha]
  kept a ha x hx := (s.declares_bind e a name x b).2 (.inl (h.kept a ha x hx))
  only a ha x hx := by
    rcases (s.declares_bind e a name x b).1 hx with hx | ⟨rfl, -, rfl⟩
    · exact h.only a ha x hx
    · rcases hname with (hnew | hD) | hdeclared
      · omega
      · exact .inr hD
      · exact h.only a ha name hdeclared

theorem newScope (h : Tidy D s₀ s) (parent : Option ScopeId) : Tidy D s₀ (s.newScope parent).2 where
  size := Nat.le_trans h.size (by simp [Store.newScope])
  parent a ha := by
    have hne : a ≠ s.scopes.size := Nat.ne_of_lt (Nat.lt_of_lt_of_le ha h.size)
    rw [parent?_newScope, if_neg hne, h.parent a ha]
  kept a ha x hx := by rw [declares_newScope]; exact h.kept a ha x hx
  only a ha x hx := by rw [declares_newScope] at hx; exact h.only a ha x hx

theorem objects (h : Tidy D s₀ s) (objects : Array Record) : Tidy D s₀ { s with objects := objects } :=
  ⟨h.size, h.parent, h.kept, h.only⟩

end Tidy
end Store

/-! ## A run keeps scopes tidy -/

/-- A run paired with itself, as long as it has left the scopes of the store `s₀` tidy. -/
def tidiness (D : ScopeId → String → Prop) (s₀ : Store) : Pairing where
  World := Unit
  Later _ _ := True
  Sim _ s t := s = t ∧ s₀.Tidy D s.store
  Stopped _ _ s t := s = t ∧ s₀.Tidy D s.store
  Here _ _ := True
  Open _ e name := s₀.scopes.size ≤ e ∨ D e name
  Fine _ _ := True
  Allowed _ _ := True

theorem tidiness_lawful (D : ScopeId → String → Prop) (s₀ : Store) : (tidiness D s₀).HostLawful where
  later_refl _ := trivial
  later_trans _ _ := trivial
  stopped_mono _ h := h
  here_mono _ _ := trivial
  open_mono _ h := h
  fine_mono _ _ := trivial
  allowed_mono _ _ := trivial
  fine_number _ _ := trivial
  fine_boolean _ _ := trivial
  fine_string _ _ := trivial
  fine_null _ := trivial
  stop h _ := h
  scopes_size h := by rw [h.1]
  objects_size h := by rw [h.1]
  parent h _ := ⟨by rw [h.1], fun _ _ => trivial⟩
  bindings h _ := ⟨by rw [h.1], fun _ _ _ _ => trivial⟩
  fields h _ := ⟨by rw [h.1], fun _ _ => trivial⟩
  bind name h _ hname _ := by
    obtain ⟨rfl, h⟩ := h
    exact ⟨rfl, h.bind _ hname⟩
  setField name h _ _ := by
    obtain ⟨rfl, h⟩ := h
    exact ⟨rfl, h.objects _⟩
  newScope h _ := by
    obtain ⟨rfl, h⟩ := h
    exact ⟨(), trivial, ⟨rfl, h.newScope _⟩, fun _ => ⟨trivial, fun _ _ => .inl h.size⟩⟩
  newObject h _ := by
    obtain ⟨rfl, h⟩ := h
    exact ⟨(), trivial, ⟨rfl, h.objects _⟩, trivial⟩
  native _ _ := trivial
  emptyClosure _ _ _ := trivial
  fault _ h := h
  write text h := by
    obtain ⟨rfl, h⟩ := h
    exact ⟨rfl, h⟩
  readLine h := by
    obtain ⟨rfl, h⟩ := h
    exact ⟨rfl, rfl, h⟩
  readClock h := by
    obtain ⟨rfl, h⟩ := h
    exact ⟨rfl, rfl, h⟩
  turn h := by
    obtain ⟨rfl, h⟩ := h
    exact ⟨rfl, rfl, h⟩

theorem tidiness_runs (D : ScopeId → String → Prop) (s₀ : Store) (p : Program) : (tidiness D s₀).Runs p p where
  toLawful := (tidiness_lawful D s₀).toLawful
  closure_runs _ := ⟨trivial, fun _ _ => trivial⟩
  closure_made _ _ := trivial
  branch _ := ⟨fun _ _ => trivial, fun _ _ => trivial⟩
  loop _ := fun _ _ => trivial
  labels _ x _ := (tidiness_lawful D s₀).mayMeet x
  call _ h := (tidiness_lawful D s₀).call_inStep _ h
  native _ _ := ⟨rfl, fun _ _ => trivial⟩
  memo h := ⟨by rw [h.1], fun _ _ _ _ => trivial⟩
  sameModule _ _ := rfl
  missing h _ _ _ := h
  enters := by
    rintro w m s t ⟨rfl, h⟩ - - - -
    refine ⟨(), ⟨rfl, h.newScope none⟩, fun _ => ⟨trivial, fun _ _ => .inl h.size⟩, fun _ _ => trivial,
      fun _ _ _ _ hx => hx, ?_⟩
    rintro w₂ s' t' exports - - ⟨rfl, h'⟩ - -
    exact ⟨(), trivial, ⟨rfl, h'⟩, fun _ _ => trivial⟩

variable {D : ScopeId → String → Prop} {p : Program} {n : Nat} {s : State}

theorem tidy_of_inStep {α : Type} {G : Unit → α → Prop} {f : Run α} (h : (tidiness D s.store).InStep () G f f) :
    s.store.Tidy D (stateOf (f s)).store := by
  have hends := h s s ⟨rfl, .refl D s.store⟩
  generalize f s = r at hends
  cases hends with
  | done _ h _ => exact h.2
  | stopped h => exact h.2

theorem tidy_of_moduleEnds {m : Module} {r r' : EStateM.Result Stop State Finished}
    (h : (tidiness D s.store).ModuleEnds () m s s r r') : s.store.Tidy D (stateOf r).store := by
  cases h with
  | finished _ h _ _ => exact h.2
  | stopped h => exact h.2
  | unstarted => exact .refl D s.store

/-- The names that a call may declare, and where: those of the statements that it is asked to run. -/
def Call.Declares : Call → ScopeId → String → Prop
  | .statement e st, a, x => a = e ∧ x ∈ st.declared
  | .block e body, a, x => a = e ∧ x ∈ declaredIn body
  | .evaluate _ _, _, _ | .apply _ _, _, _ | .exportedValue _ _, _, _ | .runModule _, _, _ => False

/-- **A call leaves the scopes tidy**, whatever is asked for and however it ends. -/
theorem call_tidy (p : Program) (n : Nat) (c : Call) (s : State) :
    s.store.Tidy c.Declares (stateOf (c.run p n s)).store := by
  have R := tidiness_runs c.Declares s.store p
  have hcall (h : (tidiness c.Declares s.store).Admits () c) := tidy_of_inStep (R.call_inStep h n)
  cases c with
  | evaluate e expr => exact hcall ⟨trivial, fun x _ => (tidiness_lawful _ _).mayMeet x⟩
  | apply f args => exact hcall ⟨trivial, fun _ _ => trivial⟩
  | statement e st => exact hcall ⟨⟨trivial, fun _ hx => .inr ⟨rfl, hx⟩⟩, trivial⟩
  | block e body => exact hcall ⟨⟨trivial, fun _ hx => .inr ⟨rfl, hx⟩⟩, fun _ _ => trivial⟩
  | exportedValue source name => exact hcall ⟨[], trivial⟩
  | runModule m =>
    rw [Call.run, stateOf_map]
    exact tidy_of_moduleEnds (R.runModule_ends ⟨rfl, (Store.Tidy.refl _ s.store).newScope none⟩
      (fun _ => ⟨trivial, fun _ _ => .inl (Nat.le_refl _)⟩) (fun _ _ => trivial) n)

/-! ## What a block has declared when it is through -/

/-- Once a name is declared in a scope, nothing that runs takes it away. -/
theorem declared_of_inStep {α : Type} {G : Unit → α → Prop} {f : Run α} {a : α} {s' : State} {e : ScopeId} {x : String}
    (h : (tidiness (fun _ _ => True) s.store).InStep () G f f) (hf : f s = .ok a s') (he : e < s.store.scopes.size) :
    e < s'.store.scopes.size ∧ (s.store.declares e x = true → s'.store.declares e x = true) := by
  have htidy := tidy_of_inStep h
  rw [hf] at htidy
  exact ⟨Nat.lt_of_lt_of_le he htidy.size, htidy.kept e he x⟩

theorem declares_of_bind {store : Store} {e : ScopeId} (he : e < store.scopes.size) (name : String) (b : Binding) :
    (store.bind e name b).declares e name = true :=
  (store.declares_bind e e name name b).2 (.inr ⟨rfl, he, rfl⟩)

theorem importNames_declares (source : String) : ∀ (names : List String) {n : Nat} {s s' : State} {e : ScopeId},
    importNames p n e source names s = .ok () s' → e < s.store.scopes.size → ∀ x ∈ names, s'.store.declares e x = true
  | [], _, _, _, _, _, _, _, hx => by cases hx
  | name :: rest, 0, _, _, _, h, _, _, _ => by cases h
  | name :: rest, n + 1, s, s', e, h, he, x, hx => by
    have hupto := fun store : Store => (tidiness_runs (fun _ _ => True) store p).upto n
    rw [importNames] at h
    obtain ⟨v, s₁, hv, h⟩ := Run.bind_eq_ok h
    obtain ⟨⟨⟩, s₂, hdefine, h⟩ := Run.bind_eq_ok h
    have he₁ := (declared_of_inStep (x := x) ((hupto s.store).exported name ⟨[], trivial⟩) hv he).1
    cases hdefine
    have he₂ : e < (s₁.store.define e name v).scopes.size := by
      rw [Store.define, Store.size_bind]
      exact he₁
    rcases List.mem_cons.1 hx with rfl | hx
    · refine (declared_of_inStep
        ((hupto _).importNames rest ⟨trivial, fun _ _ => .inr trivial⟩ ⟨[], trivial⟩) h he₂).2 ?_
      exact declares_of_bind he₁ x _
    · exact importNames_declares source rest h he₂ x hx

theorem executeOne_declares {st : Stmt} {o : Outcome} {s' : State} {e : ScopeId} (h : executeOne p n e st s = .ok o s')
    (he : e < s.store.scopes.size) {x : String} (hx : x ∈ st.declared) : s'.store.declares e x = true := by
  cases n with
  | zero => cases h
  | succ n =>
    cases st with
    | declare name =>
      rw [List.mem_singleton.1 hx]
      cases h
      exact declares_of_bind he name none
    | function name params body =>
      rw [List.mem_singleton.1 hx]
      cases h
      exact declares_of_bind he name _
    | importFrom source names =>
      rw [executeOne] at h
      obtain ⟨⟨⟩, s₁, himport, hdone⟩ := Run.bind_eq_ok h
      cases hdone
      exact importNames_declares source names himport he x hx
    | giveBack _ | assign _ _ | branch _ _ _ | loop _ _ | setField _ _ _ | run _ | other _ _ => cases hx

/-- **A block that runs to its end has declared all the names it declares.** -/
theorem execute_declares : ∀ (body : List Stmt) {n : Nat} {s s' : State} {e : ScopeId},
    execute p n e body s = .ok .completed s' → e < s.store.scopes.size →
      ∀ x ∈ declaredIn body, s'.store.declares e x = true
  | [], _, _, _, _, _, _, _, hx => by cases hx
  | st :: rest, 0, _, _, _, h, _, _, _ => by cases h
  | st :: rest, n + 1, s, s', e, h, he, x, hx => by
    rw [execute] at h
    obtain ⟨o, s₁, hone, h⟩ := Run.bind_eq_ok h
    cases o with
    | returned v => cases h
    | completed =>
      have hupto := fun store : Store => (tidiness_runs (fun _ _ => True) store p).upto n
      have he₁ := (declared_of_inStep (x := x)
        ((hupto s.store).one ⟨trivial, fun _ _ => .inr trivial⟩ trivial) hone he).1
      rcases List.mem_append.1 hx with hx | hx
      · refine (declared_of_inStep
          ((hupto s₁.store).execute ⟨trivial, fun _ _ => .inr trivial⟩ fun _ _ => trivial) h he₁).2 ?_
        exact executeOne_declares hone he hx
      · exact execute_declares rest h he₁ x hx

/-- **Names stay where they were declared.**  Whatever is asked of the evaluator, in any state, and however it ends:
every scope that was there stays inside the scope it was in, and keeps its names; a name is new in it only if a
statement that was to be run in that very scope declares it.  A block that runs to its end without a `return` has
declared exactly the names that its statements declare. -/
theorem call_keeps_scopes (p : Program) (n : Nat) (c : Call) (s : State) :
    let s' := stateOf (c.run p n s)
    (∀ a < s.store.scopes.size, s'.store.parent? a = s.store.parent? a) ∧
      (∀ a < s.store.scopes.size, ∀ x, s.store.declares a x = true → s'.store.declares a x = true) ∧
      (∀ a < s.store.scopes.size, ∀ x, s'.store.declares a x = true → s.store.declares a x = true ∨ c.Declares a x) ∧
      ∀ e body, c = .block e body → e < s.store.scopes.size → outcomeOf (c.run p n s) = .ok (.outcome .completed) →
        ∀ x, s'.store.declares e x = true ↔ s.store.declares e x = true ∨ x ∈ declaredIn body := by
  intro s'
  have htidy := call_tidy p n c s
  refine ⟨htidy.parent, htidy.kept, htidy.only, ?_⟩
  rintro e body rfl he hdone x
  refine ⟨fun hx => (htidy.only e he x hx).imp_right And.right, ?_⟩
  rintro (hx | hx)
  · exact htidy.kept e he x hx
  · have hrun := ok_of_map (fun _ _ h => Answer.outcome.inj h) hdone
    have hdeclared := execute_declares body hrun he x hx
    show (stateOf ((Answer.outcome <$> execute p n e body) s)).store.declares e x = true
    rw [stateOf_map]
    exact hdeclared

/-- A block that declares names in every way there is, and more of them further inside. -/
def yardBlock : List Stmt :=
  [.declare "x", .function "f" ["it"] [.declare "hidden", .assign "outer" (.ref "it")], .importFrom "Lib" ["pearl"],
   .branch (.boolean true) [.declare "y"] [], .run (.call (.ref "f") [.ref "pearl"])]

def yard : Program := ⟨[⟨"Lib", [.declare "pearl", .assign "pearl" (.boolean true)], ["pearl"]⟩], []⟩

/-- Scope 1, where the block runs, inside scope 0, which declares `outer`. -/
def yardState : State :=
  { State.initial (.queue []) (.steady 0) with store := ⟨#[⟨none, [("outer", none)]⟩, ⟨some 0, []⟩], #[]⟩ }

theorem yard_keeps_scopes :
    outcomeOf ((Call.block 1 yardBlock).run yard 20 yardState) = .ok (.outcome .completed) ∧
      (∀ x, (stateOf ((Call.block 1 yardBlock).run yard 20 yardState)).store.declares 1 x = true ↔
        x ∈ ["x", "f", "pearl"]) ∧
      (∀ x, (stateOf ((Call.block 1 yardBlock).run yard 20 yardState)).store.declares 0 x = true ↔ x = "outer") ∧
      (stateOf ((Call.block 1 yardBlock).run yard 20 yardState)).store.parent? 1 = some 0 := by
  have hdone : outcomeOf ((Call.block 1 yardBlock).run yard 20 yardState) = .ok (.outcome .completed) := rfl
  have houter : ∀ x, yardState.store.declares 0 x = true ↔ x = "outer" := by
    intro x
    rw [@eq_comm _ x]
    simp [yardState, Store.declares, Store.bindings, Table.contains, Table.get?]
  obtain ⟨hparent, hkept, honly, hblock⟩ := call_keeps_scopes yard 20 (.block 1 yardBlock) yardState
  refine ⟨hdone, fun x => ?_, fun x => ?_, hparent 1 (by decide)⟩
  · rw [hblock 1 yardBlock rfl (by decide) hdone x, or_iff_right]
    · rfl
    · exact fun hx => by cases hx
  · refine ⟨fun hx => ?_, fun hx => hkept 0 (by decide) x ((houter x).2 hx)⟩
    rcases honly 0 (by decide) x hx with hx | ⟨h, -⟩
    · exact (houter x).1 hx
    · cases h

end Thicket
