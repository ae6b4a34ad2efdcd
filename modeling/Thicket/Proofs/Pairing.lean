import Mathlib.Data.List.Find
import Thicket.Host.Call
import Thicket.Proofs.Labels
/-!
# Two runs in step

Most of what is said about a run is said about every point of it: of the values that turn up, the scopes that are
entered, the states in between.  A `Pairing` says it once, and of two runs at a time, so that "the second run does the
same" and "a run keeps an invariant" are one kind of statement (the second pairs a run with itself).

What may be said can change as a run goes on.  It is therefore said at a *world*, and a computation may end at a later
one: more scopes exist, say.  `InStep` is the statement about a pair of computations, `bind_inStep` puts two such pairs
one after the other, and `Lawful` lists what a pairing has to know about the store for each single step.
-/
namespace Thicket

/-- Changes the store and nothing else. -/
def State.on (s : State) (f : Store → Store) : State := { s with store := f s.store }

/-! ## How a run ended -/

def outcomeOf {α : Type} : EStateM.Result Stop State α → Except Stop α
  | .ok a _ => .ok a
  | .error x _ => .error x

/-- The state that a run leaves, be it at its end or where it stopped. -/
def stateOf {α : Type} : EStateM.Result Stop State α → State
  | .ok _ s => s
  | .error _ s => s

def stopOf {α : Type} : EStateM.Result Stop State α → Option Stop
  | .ok _ _ => none
  | .error x _ => some x

theorem eq_error_of_stopOf {α : Type} {r : EStateM.Result Stop State α} {x : Stop} (h : stopOf r = some x) :
    ∃ s, r = .error x s := by
  cases r with
  | ok a s => cases h
  | error y s => cases h; exact ⟨s, rfl⟩

/-- The causes that a single step of the evaluator can stop for: any failure of the language but those about which
modules there are, and the end of the fuel. -/
def Stop.Local : Stop → Prop
  | .failure (.noSuchModule _) | .failure .noMain | .failure .multipleMains | .failure (.circularDependency _) => False
  | .fault _ => False
  | _ => True

/-- What is said about two runs. -/
structure Pairing where
  World : Type
  /-- The second world may come after the first. -/
  Later : World → World → Prop
  /-- The states of the two runs belong together. -/
  Sim : World → State → State → Prop
  /-- The two runs may stop short in these states for this cause. -/
  Stopped : World → Stop → State → State → Prop
  /-- Code may run in this scope. -/
  Here : World → ScopeId → Prop
  /-- Code that runs in this scope may declare this name there. -/
  Open : World → ScopeId → String → Prop
  /-- This value may turn up. -/
  Fine : World → Value → Prop
  /-- This statement may run. -/
  Allowed : World → Stmt → Prop

namespace Pairing

variable {P : Pairing} {α β : Type}

def FineAll (P : Pairing) (w : P.World) (values : List Value) : Prop := ∀ v ∈ values, P.Fine w v

def FineTable (P : Pairing) (w : P.World) (t : Table Value) : Prop := ∀ x ∈ t, P.Fine w x.2

def FineResult (P : Pairing) (w : P.World) : HostResult → Prop
  | .data _ => True
  | .fields values => P.FineTable w values

/-- Code that declares these names may run in this scope. -/
def Room (P : Pairing) (w : P.World) (e : ScopeId) (names : List String) : Prop :=
  P.Here w e ∧ ∀ name ∈ names, P.Open w e name

def Code (P : Pairing) (w : P.World) (body : List Stmt) : Prop := ∀ st ∈ body, P.Allowed w st

/-- The two runs may come upon this label: the evaluator knows it, or they may break off there. -/
def MayMeet (P : Pairing) (x : Label) : Prop :=
  x.Known ∨ ∀ {w s t}, P.Sim w s t → P.Stopped w (.fault (.unexpected x.name)) s t

/-- The two runs have ended alike: with the same value at a later world, or for the same cause. -/
inductive Ends (P : Pairing) (w : P.World) (G : P.World → α → Prop) :
    EStateM.Result Stop State α → EStateM.Result Stop State α → Prop
  | done {w' : P.World} {a : α} {s t : State} : P.Later w w' → P.Sim w' s t → G w' a → Ends P w G (.ok a s) (.ok a t)
  | stopped {x : Stop} {s t : State} : P.Stopped w x s t → Ends P w G (.error x s) (.error x t)

/-- From states that belong together, the two computations end alike. -/
def InStep (P : Pairing) (w : P.World) (G : P.World → α → Prop) (f g : Run α) : Prop :=
  ∀ s t, P.Sim w s t → P.Ends w G (f s) (g t)

/-- What a pairing has to know about the store, step by step. -/
structure Lawful (P : Pairing) : Prop where
  later_refl : ∀ w, P.Later w w
  later_trans : ∀ {w w' w''}, P.Later w w' → P.Later w' w'' → P.Later w w''
  stopped_mono : ∀ {w w' x s t}, P.Later w w' → P.Stopped w' x s t → P.Stopped w x s t
  here_mono : ∀ {w w' e}, P.Later w w' → P.Here w e → P.Here w' e
  open_mono : ∀ {w w' e name}, P.Later w w' → P.Open w e name → P.Open w' e name
  fine_mono : ∀ {w w' v}, P.Later w w' → P.Fine w v → P.Fine w' v
  allowed_mono : ∀ {w w' st}, P.Later w w' → P.Allowed w st → P.Allowed w' st
  fine_number : ∀ w x, P.Fine w (.number x)
  fine_boolean : ∀ w b, P.Fine w (.boolean b)
  fine_string : ∀ w t, P.Fine w (.string t)
  fine_null : ∀ w, P.Fine w .null
  stop : ∀ {w x s t}, P.Sim w s t → x.Local → P.Stopped w x s t
  scopes_size : ∀ {w s t}, P.Sim w s t → s.store.scopes.size = t.store.scopes.size
  objects_size : ∀ {w s t}, P.Sim w s t → s.store.objects.size = t.store.objects.size
  parent : ∀ {w s t e}, P.Sim w s t → P.Here w e →
    s.store.parent? e = t.store.parent? e ∧ ∀ a ∈ s.store.parent? e, P.Here w a
  bindings : ∀ {w s t e}, P.Sim w s t → P.Here w e →
    s.store.bindings e = t.store.bindings e ∧ ∀ x ∈ s.store.bindings e, ∀ v ∈ x.2, P.Fine w v
  fields : ∀ {w s t o}, P.Sim w s t → P.Fine w (.object o) →
    s.store.fields o = t.store.fields o ∧ P.FineTable w (s.store.fields o)
  bind : ∀ {w s t e b} (name : String), P.Sim w s t → P.Here w e → P.Open w e name ∨ s.store.declares e name = true →
    (∀ v ∈ b, P.Fine w v) → P.Sim w (s.on (·.bind e name b)) (t.on (·.bind e name b))
  setField : ∀ {w s t o v} (name : String), P.Sim w s t → P.Fine w (.object o) → P.Fine w v →
    P.Sim w (s.on (·.setField o name v)) (t.on (·.setField o name v))
  newScope : ∀ {w s t parent}, P.Sim w s t → (∀ a ∈ parent, P.Here w a) →
    ∃ w', P.Later w w' ∧ P.Sim w' (s.on fun st => (st.newScope parent).2) (t.on fun st => (st.newScope parent).2) ∧
      ∀ names, P.Room w' s.store.scopes.size names
  newObject : ∀ {w s t fields}, P.Sim w s t → P.FineTable w fields →
    ∃ w', P.Later w w' ∧ P.Sim w' (s.on fun st => (st.newObject fields).2) (t.on fun st => (st.newObject fields).2) ∧
      P.Fine w' (.object s.store.objects.size)

theorem Room.mono (L : P.Lawful) {w w' : P.World} {e : ScopeId} {names : List String} (hw : P.Later w w')
    (h : P.Room w e names) : P.Room w' e names :=
  ⟨L.here_mono hw h.1, fun name hname => L.open_mono hw (h.2 name hname)⟩

theorem Ends.mono (L : P.Lawful) {w w' : P.World} {G : P.World → α → Prop} {r r' : EStateM.Result Stop State α}
    (hw : P.Later w w') (h : P.Ends w' G r r') : P.Ends w G r r' := by
  cases h with
  | done hl hs hg => exact .done (L.later_trans hw hl) hs hg
  | stopped hs => exact .stopped (L.stopped_mono hw hs)

theorem Ends.outcomeOf_eq {w : P.World} {G : P.World → α → Prop} {r r' : EStateM.Result Stop State α}
    (h : P.Ends w G r r') : outcomeOf r = outcomeOf r' := by
  cases h <;> rfl

/-- What follows goes on from where the first computations ended, be it at a world of their own. -/
theorem Ends.andThen {w w₁ : P.World} {G : P.World → α → Prop} {H : P.World → β → Prop} {f g : Run α} {k l : α → Run β}
    {s t : State} (h : P.Ends w₁ G (f s) (g t))
    (hstop : ∀ x s' t', f s = .error x s' → P.Stopped w₁ x s' t' → P.Stopped w x s' t')
    (hk : ∀ w₂ a s' t', f s = .ok a s' → P.Later w₁ w₂ → P.Sim w₂ s' t' → G w₂ a → P.Ends w H (k a s') (l a t')) :
    P.Ends w H ((f >>= k) s) ((g >>= l) t) := by
  show P.Ends w H (EStateM.bind f k s) (EStateM.bind g l t)
  unfold EStateM.bind
  generalize hr : f s = r at h
  generalize g t = r' at h
  cases h with
  | done hw hst ha => exact hk _ _ _ _ hr hw hst ha
  | stopped hx => exact .stopped (hstop _ _ _ hr hx)

namespace Lawful

/-! ## One computation after another -/

theorem pure_inStep (L : P.Lawful) {w : P.World} {G : P.World → α → Prop} {a : α} (h : G w a) :
    P.InStep w G (pure a) (pure a) :=
  fun _ _ hst => .done (L.later_refl w) hst h

theorem bind_inStep (L : P.Lawful) {w : P.World} {G : P.World → α → Prop} {H : P.World → β → Prop} {f g : Run α}
    {k l : α → Run β} (h : P.InStep w G f g)
    (hk : ∀ w' a, P.Later w w' → G w' a → P.InStep w' H (k a) (l a)) : P.InStep w H (f >>= k) (g >>= l) :=
  fun s t hst => (h s t hst).andThen (fun _ _ _ _ hx => hx)
    fun w' a s' t' _ hw hst' ha => (hk w' a hw ha s' t' hst').mono L hw

theorem throw_inStep (L : P.Lawful) {w : P.World} {G : P.World → α → Prop} {x : Stop} (h : x.Local) :
    P.InStep w G (throw x : Run α) (throw x) :=
  fun _ _ hst => .stopped (L.stop hst h)

theorem fail_inStep (L : P.Lawful) {w : P.World} {G : P.World → α → Prop} {f : Failure} (h : (Stop.failure f).Local) :
    P.InStep w G (Run.fail f : Run α) (Run.fail f) :=
  L.throw_inStep h

theorem ask_inStep (L : P.Lawful) {w : P.World} {G : P.World → α → Prop} {f : Store → α}
    (h : ∀ s t, P.Sim w s t → f s.store = f t.store ∧ G w (f s.store)) : P.InStep w G (Run.ask f) (Run.ask f) := by
  intro s t hst
  obtain ⟨heq, hg⟩ := h s t hst
  show P.Ends w G (.ok (f s.store) s) (.ok (f t.store) t)
  rw [← heq]
  exact .done (L.later_refl w) hst hg

theorem consult_inStep (L : P.Lawful) {w : P.World} {G : P.World → α → Prop} {f : Store → Except Stop α}
    (h : ∀ s t, P.Sim w s t → f s.store = f t.store) (hok : ∀ s a, f s = .ok a → G w a)
    (herr : ∀ s t x, P.Sim w s t → f s.store = .error x → P.Stopped w x s t) :
    P.InStep w G (Run.consult f) (Run.consult f) := by
  intro s t hst
  show P.Ends w G (Run.ofExcept (f s.store) s) (Run.ofExcept (f t.store) t)
  rw [← h s t hst]
  cases hr : f s.store with
  | ok a => exact .done (L.later_refl w) hst (hok _ a hr)
  | error x => exact .stopped (herr s t x hst hr)

theorem change_inStep (L : P.Lawful) {w : P.World} {G : P.World → Unit → Prop} {f : Store → Store}
    (h : ∀ s t, P.Sim w s t → P.Sim w (s.on f) (t.on f)) (hg : G w ()) : P.InStep w G (Run.change f) (Run.change f) :=
  fun s t hst => .done (L.later_refl w) (h s t hst) hg

/-! ## The views of the store

What the walk from a scope outward meets is the same on both sides, and it meets only scopes that code may run in. -/

theorem chainWithin_eq (L : P.Lawful) {w : P.World} {s t : State} (hst : P.Sim w s t) :
    ∀ (n : Nat) (e : ScopeId), P.Here w e →
      s.store.chainWithin n e = t.store.chainWithin n e ∧ ∀ a ∈ s.store.chainWithin n e, P.Here w a
  | 0, _, _ => ⟨rfl, fun _ ha => by cases ha⟩
  | n + 1, e, he => by
    obtain ⟨hpar, hhere⟩ := L.parent hst he
    unfold Store.chainWithin
    rw [← hpar]
    cases hp : s.store.parent? e with
    | none => exact ⟨rfl, fun a ha => by rw [List.mem_singleton.1 ha]; exact he⟩
    | some a =>
      obtain ⟨heq, hall⟩ := L.chainWithin_eq hst n a (hhere a hp)
      refine ⟨congrArg (e :: ·) heq, fun b hb => ?_⟩
      rcases List.mem_cons.1 hb with rfl | hb
      · exact he
      · exact hall b hb

theorem nearest_eq (L : P.Lawful) {w : P.World} {s t : State} {e : ScopeId} (name : String) (hst : P.Sim w s t)
    (he : P.Here w e) :
    s.store.nearest? e name = t.store.nearest? e name ∧ ∀ a ∈ s.store.nearest? e name, P.Here w a := by
  obtain ⟨hchain, hall⟩ := L.chainWithin_eq hst (e + 1) e he
  unfold Store.nearest? Store.chain
  rw [← hchain]
  refine ⟨List.find?_congr fun a ha => ?_, fun a ha => hall a (List.mem_of_find?_eq_some ha)⟩
  unfold Store.declares
  rw [(L.bindings hst (hall a ha)).1]

theorem lookup_eq (L : P.Lawful) {w : P.World} {s t : State} {e : ScopeId} (name : String) (hst : P.Sim w s t)
    (he : P.Here w e) :
    s.store.lookup e name = t.store.lookup e name ∧ ∀ b ∈ s.store.lookup e name, ∀ v ∈ b, P.Fine w v := by
  obtain ⟨hnear, hhere⟩ := L.nearest_eq name hst he
  unfold Store.lookup
  rw [← hnear]
  cases hn : s.store.nearest? e name with
  | none => exact ⟨rfl, fun _ hb => by cases hb⟩
  | some a =>
    obtain ⟨hbind, hfine⟩ := L.bindings hst (hhere a hn)
    exact ⟨by simp only; rw [hbind], fun b hb => hfine (name, b) (Table.mem_of_get? hb)⟩

theorem valueOf_inStep (L : P.Lawful) {w : P.World} {e : ScopeId} (name : String) (he : P.Here w e) :
    P.InStep w P.Fine (Run.valueOf e name) (Run.valueOf e name) := by
  unfold Run.valueOf
  refine L.bind_inStep (G := fun w b => ∀ b' ∈ b, ∀ v ∈ b', P.Fine w v)
    (L.ask_inStep fun s t hst => L.lookup_eq name hst he) fun w' b _ hb => ?_
  match b, hb with
  | none, _ => exact L.fail_inStep trivial
  | some none, _ => exact L.fail_inStep trivial
  | some (some v), hb => exact L.pure_inStep (hb _ rfl v rfl)

theorem assign_inStep (L : P.Lawful) {w : P.World} {e : ScopeId} {v : Value} (name : String) (he : P.Here w e)
    (hv : P.Fine w v) : P.InStep w (fun _ _ => True) (Run.assign e name v) (Run.assign e name v) := by
  unfold Run.assign
  have hassign : P.InStep w (fun _ _ => True) (Run.onStore (·.assign e name v)) (Run.onStore (·.assign e name v)) := by
    intro s t hst
    obtain ⟨hnear, hhere⟩ := L.nearest_eq name hst he
    show P.Ends w _ (.ok (s.store.assign e name v).1 { s with store := (s.store.assign e name v).2 })
      (.ok (t.store.assign e name v).1 { t with store := (t.store.assign e name v).2 })
    cases hn : s.store.nearest? e name with
    | none =>
      simp only [Store.assign, ← hnear, hn]
      exact .done (L.later_refl w) hst trivial
    | some a =>
      simp only [Store.assign, ← hnear, hn]
      have hdeclared : s.store.declares a name = true := by simpa using List.find?_some hn
      refine .done (L.later_refl w) (L.bind name hst (hhere a hn) (.inr hdeclared) fun u hu => ?_) trivial
      rw [Option.mem_some_iff] at hu
      exact hu ▸ hv
  refine L.bind_inStep hassign fun w' b _ _ => ?_
  cases b with
  | true => exact L.pure_inStep trivial
  | false => exact L.fail_inStep trivial

theorem object_inStep (L : P.Lawful) {w : P.World} {v : Value} (hv : P.Fine w v) :
    P.InStep w (fun w o => P.Fine w (.object o)) (Run.object v) (Run.object v) := by
  cases v with
  | object o => exact L.pure_inStep hv
  | number _ | boolean _ | string _ | null | closure _ | native _ => exact L.fail_inStep trivial

theorem condition_inStep (L : P.Lawful) {w : P.World} (v : Value) :
    P.InStep w (fun _ _ => True) (Run.condition v) (Run.condition v) := by
  cases v with
  | boolean b => exact L.pure_inStep trivial
  | number _ | object _ | string _ | null | closure _ | native _ => exact L.fail_inStep trivial

theorem newScope_inStep (L : P.Lawful) {w : P.World} {parent : Option ScopeId} (h : ∀ a ∈ parent, P.Here w a) :
    P.InStep w (fun w e => ∀ names, P.Room w e names) (Run.onStore (·.newScope parent))
      (Run.onStore (·.newScope parent)) := by
  intro s t hst
  obtain ⟨w', hw, hst', hroom⟩ := L.newScope hst h
  show P.Ends w _ (.ok s.store.scopes.size _) (.ok t.store.scopes.size _)
  rw [← L.scopes_size hst]
  exact .done hw hst' hroom

theorem newObject_inStep (L : P.Lawful) {w : P.World} {fields : Table Value} (h : P.FineTable w fields) :
    P.InStep w (fun w o => P.Fine w (.object o)) (Run.onStore (·.newObject fields))
      (Run.onStore (·.newObject fields)) := by
  intro s t hst
  obtain ⟨w', hw, hst', hfine⟩ := L.newObject hst h
  show P.Ends w _ (.ok s.store.objects.size _) (.ok t.store.objects.size _)
  rw [← L.objects_size hst]
  exact .done hw hst' hfine

end Lawful
end Pairing
end Thicket
