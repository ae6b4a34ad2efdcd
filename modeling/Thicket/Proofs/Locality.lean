import Mathlib.Logic.Relation
import Thicket.Proofs.Lockstep
/-!
# A call keeps to what it can reach

A call starts from a function, its arguments and the kept exports, and can only go where what is written in the store
leads from there: to the scope around a scope, to what a name or a field holds, to the scope of a function.  It may read
and write all of that and whatever it makes itself, and nothing else (`apply_local`).

The proof follows two calls at once, in stores that have the same at every place within reach.  They stay confined to
that: what they find there is the same, and neither touches a place outside.
-/
namespace Thicket

/-- A place in the store: a scope or an object. -/
inductive Place where
  | scope (e : ScopeId)
  | object (o : ObjectId)
  deriving DecidableEq

def Value.place? : Value → Option Place
  | .object o => some (.object o)
  | .closure c => some (.scope c.scope)
  | .number _ | .boolean _ | .string _ | .null | .native _ => none

namespace Store

/-- What is written at one place names the other. -/
inductive PointsTo (s : Store) : Place → Place → Prop
  | parent {e a : ScopeId} : s.parent? e = some a → PointsTo s (.scope e) (.scope a)
  | binding {e : ScopeId} {b : String × Binding} {v : Value} {y : Place} :
      b ∈ s.bindings e → v ∈ b.2 → v.place? = some y → PointsTo s (.scope e) y
  | field {o : ObjectId} {f : String × Value} {y : Place} :
      f ∈ s.fields o → f.2.place? = some y → PointsTo s (.object o) y

def SameAt (s t : Store) : Place → Prop
  | .scope e => s.scopes[e]? = t.scopes[e]?
  | .object o => s.objects[o]? = t.objects[o]?

/-- There is nothing yet at this place. -/
def Free (s : Store) : Place → Prop
  | .scope e => s.scopes.size ≤ e
  | .object o => s.objects.size ≤ o

def SameSize (s t : Store) : Prop := s.scopes.size = t.scopes.size ∧ s.objects.size = t.objects.size

variable {s t : Store} {x y : Place}

theorem SameAt.refl (s : Store) (x : Place) : s.SameAt s x := by
  cases x <;> rfl

theorem SameAt.trans {u : Store} (h : s.SameAt t x) (h' : t.SameAt u x) : s.SameAt u x := by
  cases x with
  | scope e => exact Eq.trans h h'
  | object o => exact Eq.trans h h'

theorem SameAt.parent? {e : ScopeId} (h : s.SameAt t (.scope e)) : s.parent? e = t.parent? e := by
  have h : s.scopes[e]? = t.scopes[e]? := h
  rw [Store.parent?, Store.parent?, h]

theorem SameAt.bindings {e : ScopeId} (h : s.SameAt t (.scope e)) : s.bindings e = t.bindings e := by
  have h : s.scopes[e]? = t.scopes[e]? := h
  rw [Store.bindings, Store.bindings, h]

theorem SameAt.fields {o : ObjectId} (h : s.SameAt t (.object o)) : s.fields o = t.fields o := by
  have h : s.objects[o]? = t.objects[o]? := h
  rw [Store.fields, Store.fields, h]

theorem Free.of_le (h : t.Free x) (hs : s.scopes.size ≤ t.scopes.size) (ho : s.objects.size ≤ t.objects.size) :
    s.Free x := by
  cases x with
  | scope e => exact Nat.le_trans hs h
  | object o => exact Nat.le_trans ho h

theorem not_pointsTo_of_free (h : s.Free x) : ¬ s.PointsTo x y := by
  intro hl
  cases hl with
  | parent hp => simp [Store.parent?, Array.getElem?_eq_none h] at hp
  | binding hb => simp [Store.bindings, Array.getElem?_eq_none h] at hb
  | field hf => simp [Store.fields, Array.getElem?_eq_none h] at hf

theorem sameAt_of_free (hs : s.Free x) (ht : t.Free x) : s.SameAt t x := by
  cases x with
  | scope e => exact (Array.getElem?_eq_none hs).trans (Array.getElem?_eq_none ht).symm
  | object o => exact (Array.getElem?_eq_none hs).trans (Array.getElem?_eq_none ht).symm

/-! ## What each operation writes, and where -/

theorem sameAt_bind (e : ScopeId) (name : String) (b : Binding) (h : x ≠ .scope e) : (s.bind e name b).SameAt s x := by
  cases x with
  | scope a =>
    have hne : ¬ e = a := fun he => h (by rw [he])
    simp [SameAt, Store.bind, Array.getElem?_modify, hne]
  | object o => rfl

theorem SameAt.bind (h : s.SameAt t x) (e : ScopeId) (name : String) (b : Binding) :
    (s.bind e name b).SameAt (t.bind e name b) x := by
  cases x with
  | scope a =>
    have h : s.scopes[a]? = t.scopes[a]? := h
    simp only [SameAt, Store.bind, Array.getElem?_modify, h]
  | object o => exact h

theorem pointsTo_of_bind {e : ScopeId} {name : String} {b : Binding} (h : (s.bind e name b).PointsTo x y) :
    s.PointsTo x y ∨ ∃ v ∈ b, v.place? = some y := by
  cases h with
  | parent hp => exact .inl (.parent (by rwa [parent?_bind] at hp))
  | binding hb hv hy =>
    rw [bindings_bind] at hb
    split at hb
    · rename_i heq
      rcases Table.mem_insert hb with rfl | hb
      · exact .inr ⟨_, hv, hy⟩
      · exact .inl (heq.1 ▸ .binding hb hv hy)
    · exact .inl (.binding hb hv hy)
  | field hf hv => exact .inl (.field hf hv)

theorem sameAt_setField (o : ObjectId) (name : String) (v : Value) (h : x ≠ .object o) :
    (s.setField o name v).SameAt s x := by
  cases x with
  | scope e => rfl
  | object a =>
    have hne : ¬ o = a := fun he => h (by rw [he])
    simp [SameAt, Store.setField, Array.getElem?_modify, hne]

theorem SameAt.setField (h : s.SameAt t x) (o : ObjectId) (name : String) (v : Value) :
    (s.setField o name v).SameAt (t.setField o name v) x := by
  cases x with
  | scope e => exact h
  | object a =>
    have h : s.objects[a]? = t.objects[a]? := h
    simp only [SameAt, Store.setField, Array.getElem?_modify, h]

theorem pointsTo_of_setField {o : ObjectId} {name : String} {v : Value} (h : (s.setField o name v).PointsTo x y) :
    s.PointsTo x y ∨ v.place? = some y := by
  cases h with
  | parent hp => exact .inl (.parent hp)
  | binding hb hv hy => exact .inl (.binding hb hv hy)
  | field hf hv =>
    rw [fields_setField] at hf
    split at hf
    · rename_i heq
      rcases Table.mem_insert hf with rfl | hf
      · exact .inr hv
      · exact .inl (heq.1 ▸ .field hf hv)
    · exact .inl (.field hf hv)

theorem sameAt_newScope (parent : Option ScopeId) (h : ¬ s.Free x) : (s.newScope parent).2.SameAt s x := by
  cases x with
  | scope e =>
    have hne : e ≠ s.scopes.size := fun he => h (Nat.le_of_eq he.symm)
    simp [SameAt, Store.newScope, Array.getElem?_push, hne]
  | object o => rfl

theorem SameAt.newScope (h : s.SameAt t x) (hsize : s.SameSize t) (parent : Option ScopeId) :
    (s.newScope parent).2.SameAt (t.newScope parent).2 x := by
  cases x with
  | scope e =>
    have h : s.scopes[e]? = t.scopes[e]? := h
    simp only [SameAt, Store.newScope, Array.getElem?_push, hsize.1, h]
  | object o => exact h

theorem pointsTo_of_newScope {parent : Option ScopeId} (h : (s.newScope parent).2.PointsTo x y) :
    s.PointsTo x y ∨ ∃ a ∈ parent, y = .scope a := by
  cases h with
  | parent hp =>
    rw [parent?_newScope] at hp
    split at hp
    · exact .inr ⟨_, hp, rfl⟩
    · exact .inl (.parent hp)
  | binding hb hv hy => exact .inl (.binding (by rwa [bindings_newScope] at hb) hv hy)
  | field hf hv => exact .inl (.field hf hv)

theorem sameAt_newObject (fields : List (String × Value)) (h : ¬ s.Free x) : (s.newObject fields).2.SameAt s x := by
  cases x with
  | scope e => rfl
  | object o =>
    have hne : o ≠ s.objects.size := fun he => h (Nat.le_of_eq he.symm)
    simp [SameAt, Store.newObject, Array.getElem?_push, hne]

theorem SameAt.newObject (h : s.SameAt t x) (hsize : s.SameSize t) (fields : List (String × Value)) :
    (s.newObject fields).2.SameAt (t.newObject fields).2 x := by
  cases x with
  | scope e => exact h
  | object o =>
    have h : s.objects[o]? = t.objects[o]? := h
    simp only [SameAt, Store.newObject, Array.getElem?_push, hsize.2, h]

theorem pointsTo_of_newObject {fields : List (String × Value)} (h : (s.newObject fields).2.PointsTo x y) :
    s.PointsTo x y ∨ ∃ f ∈ fields, f.2.place? = some y := by
  cases h with
  | parent hp => exact .inl (.parent hp)
  | binding hb hv hy => exact .inl (.binding hb hv hy)
  | field hf hv =>
    rw [fields_newObject] at hf
    split at hf
    · exact .inr ⟨_, Table.mem_of_mem_ofPairs hf, hv⟩
    · exact .inl (.field hf hv)

end Store

/-! ## Two runs within the same reach -/

def Value.Within (K : Place → Prop) (v : Value) : Prop := ∀ x ∈ v.place?, K x

/-- Two runs that began in the stores `s₀` and `t₀` and have kept to the places in `K`: they have the same there, it
leads nowhere else, and all other places are as they were. -/
structure Confined (K : Place → Prop) (s₀ t₀ : Store) (s t : State) : Prop where
  sizes : s.store.SameSize t.store
  grown : ∀ x, s.store.Free x → s₀.Free x
  same : ∀ x, K x → s.store.SameAt t.store x
  closed : ∀ x y, K x → s.store.PointsTo x y → K y
  left : ∀ x, ¬ K x → s.store.SameAt s₀ x
  right : ∀ x, ¬ K x → t.store.SameAt t₀ x
  memo : s.memo = t.memo
  exports : ∀ x ∈ s.memo, ∀ y ∈ x.2, y.2.Within K
  input : s.input = t.input
  clock : s.clock = t.clock
  output : s.output = t.output
  log : s.log = t.log
  turns : s.turns = t.turns

def confinement (K : Place → Prop) (s₀ t₀ : Store) : Pairing where
  World := Unit
  Later _ _ := True
  Sim _ := Confined K s₀ t₀
  Stopped _ _ := Confined K s₀ t₀
  Here _ e := K (.scope e)
  Open _ _ _ := True
  Fine _ := Value.Within K
  Allowed _ _ := True

namespace Confined

variable {K : Place → Prop} {s₀ t₀ : Store} {s t : State}

/-- A change of the store keeps two runs confined if it writes in `K` only, the same on both sides, and what leads to
`K`. -/
theorem on (h : Confined K s₀ t₀ s t) {g : Store → Store} (hsizes : (g s.store).SameSize (g t.store))
    (hscopes : s.store.scopes.size ≤ (g s.store).scopes.size)
    (hobjects : s.store.objects.size ≤ (g s.store).objects.size)
    (hsame : ∀ x, K x → (g s.store).SameAt (g t.store) x)
    (hleads : ∀ x y, K x → (g s.store).PointsTo x y → s.store.PointsTo x y ∨ K y)
    (hleft : ∀ x, ¬ K x → (g s.store).SameAt s.store x) (hright : ∀ x, ¬ K x → (g t.store).SameAt t.store x) :
    Confined K s₀ t₀ (s.on g) (t.on g) where
  sizes := hsizes
  grown x hx := h.grown x (hx.of_le hscopes hobjects)
  same := hsame
  closed x y hx hl := (hleads x y hx hl).elim (h.closed x y hx) id
  left x hx := (hleft x hx).trans (h.left x hx)
  right x hx := (hright x hx).trans (h.right x hx)
  memo := h.memo
  exports := h.exports
  input := h.input
  clock := h.clock
  output := h.output
  log := h.log
  turns := h.turns

theorem bind (h : Confined K s₀ t₀ s t) {e : ScopeId} (name : String) {b : Binding} (he : K (.scope e))
    (hb : ∀ v ∈ b, v.Within K) : Confined K s₀ t₀ (s.on (·.bind e name b)) (t.on (·.bind e name b)) := by
  have hne : ∀ x, ¬ K x → x ≠ .scope e := fun x hx hxe => hx (hxe ▸ he)
  have hsize : ∀ st : Store, (st.bind e name b).scopes.size = st.scopes.size := fun st => st.size_bind e name b
  refine h.on ⟨by simp only [hsize, h.sizes.1], h.sizes.2⟩ (Nat.le_of_eq (hsize _).symm) (Nat.le_refl _)
    (fun x hx => (h.same x hx).bind e name b) (fun x y _ hl => ?_) (fun x hx => Store.sameAt_bind e name b (hne x hx))
    fun x hx => Store.sameAt_bind e name b (hne x hx)
  exact (Store.pointsTo_of_bind hl).imp_right fun ⟨v, hv, hy⟩ => hb v hv y hy

theorem setField (h : Confined K s₀ t₀ s t) {o : ObjectId} (name : String) {v : Value} (ho : K (.object o))
    (hv : v.Within K) : Confined K s₀ t₀ (s.on (·.setField o name v)) (t.on (·.setField o name v)) := by
  have hne : ∀ x, ¬ K x → x ≠ .object o := fun x hx hxo => hx (hxo ▸ ho)
  have hsize : ∀ st : Store, (st.setField o name v).objects.size = st.objects.size := fun st => by simp [Store.setField]
  refine h.on ⟨h.sizes.1, by simp only [hsize, h.sizes.2]⟩ (Nat.le_refl _) (Nat.le_of_eq (hsize _).symm)
    (fun x hx => (h.same x hx).setField o name v) (fun x y _ hl => ?_)
    (fun x hx => Store.sameAt_setField o name v (hne x hx)) fun x hx => Store.sameAt_setField o name v (hne x hx)
  exact (Store.pointsTo_of_setField hl).imp_right fun hy => hv y hy

/-- A place outside `K` was there from the beginning, on both sides. -/
theorem not_free (h : Confined K s₀ t₀ s t) (hK : ∀ x, s₀.Free x → K x) {x : Place} (hx : ¬ K x) :
    ¬ s.store.Free x ∧ ¬ t.store.Free x := by
  have hs : ¬ s.store.Free x := fun hf => hx (hK x (h.grown x hf))
  exact ⟨hs, fun hf => hs (hf.of_le (Nat.le_of_eq h.sizes.1) (Nat.le_of_eq h.sizes.2))⟩

theorem newScope (h : Confined K s₀ t₀ s t) (hK : ∀ x, s₀.Free x → K x) {parent : Option ScopeId}
    (hp : ∀ a ∈ parent, K (.scope a)) :
    Confined K s₀ t₀ (s.on fun st => (st.newScope parent).2) (t.on fun st => (st.newScope parent).2) := by
  refine h.on ⟨by simp [Store.newScope, h.sizes.1], h.sizes.2⟩ (by simp [Store.newScope]) (Nat.le_refl _)
    (fun x hx => (h.same x hx).newScope h.sizes parent) (fun x y _ hl => ?_)
    (fun x hx => Store.sameAt_newScope parent (h.not_free hK hx).1)
    fun x hx => Store.sameAt_newScope parent (h.not_free hK hx).2
  refine (Store.pointsTo_of_newScope hl).imp_right ?_
  rintro ⟨a, ha, hy⟩
  exact hy ▸ hp a ha

theorem newObject (h : Confined K s₀ t₀ s t) (hK : ∀ x, s₀.Free x → K x) {fields : List (String × Value)}
    (hf : ∀ x ∈ fields, x.2.Within K) :
    Confined K s₀ t₀ (s.on fun st => (st.newObject fields).2) (t.on fun st => (st.newObject fields).2) := by
  refine h.on ⟨h.sizes.1, by simp [Store.newObject, h.sizes.2]⟩ (Nat.le_refl _) (by simp [Store.newObject])
    (fun x hx => (h.same x hx).newObject h.sizes fields) (fun x y _ hl => ?_)
    (fun x hx => Store.sameAt_newObject fields (h.not_free hK hx).1)
    fun x hx => Store.sameAt_newObject fields (h.not_free hK hx).2
  exact (Store.pointsTo_of_newObject hl).imp_right fun ⟨x, hx, hy⟩ => hf x hx y hy

theorem started (h : Confined K s₀ t₀ s t) (hK : ∀ x, s₀.Free x → K x) (m : Module) :
    Confined K s₀ t₀ (s.started m) (t.started m) := by
  have hroot : ∀ a ∈ (none : Option ScopeId), K (.scope a) := fun _ ha => by cases ha
  exact { h.newScope hK hroot with log := by simp only [State.started, h.log] }

theorem kept (h : Confined K s₀ t₀ s t) (m : Module) {exports : Table Value} (hx : ∀ x ∈ exports, x.2.Within K) :
    Confined K s₀ t₀ (s.kept m exports) (t.kept m exports) :=
  { h with
    memo := by simp only [State.kept, h.memo]
    exports := fun x hmem => by
      rcases Table.mem_insert hmem with rfl | hmem
      · exact hx
      · exact h.exports x hmem
    log := by simp only [State.kept, State.finished, h.log] }

end Confined

theorem confinement_lawful {K : Place → Prop} {s₀ t₀ : Store} (hK : ∀ x, s₀.Free x → K x) :
    (confinement K s₀ t₀).HostLawful where
  later_refl _ := trivial
  later_trans _ _ := trivial
  stopped_mono _ h := h
  here_mono _ h := h
  open_mono _ h := h
  fine_mono _ h := h
  allowed_mono _ h := h
  fine_number _ _ := fun _ hx => by cases hx
  fine_boolean _ _ := fun _ hx => by cases hx
  fine_string _ _ := fun _ hx => by cases hx
  fine_null _ := fun _ hx => by cases hx
  stop h _ := h
  scopes_size h := h.sizes.1
  objects_size h := h.sizes.2
  parent h he := ⟨(h.same _ he).parent?, fun _ ha => h.closed _ _ he (.parent ha)⟩
  bindings h he := ⟨(h.same _ he).bindings, fun _ hx _ hv y hy => h.closed _ y he (.binding hx hv hy)⟩
  fields h ho := ⟨(h.same _ (ho _ rfl)).fields, fun _ hx y hy => h.closed _ y (ho _ rfl) (.field hx hy)⟩
  bind name h he _ hb := h.bind name he hb
  setField name h ho hv := h.setField name (ho _ rfl) hv
  newScope h hp := ⟨(), trivial, h.newScope hK hp, fun _ => ⟨hK _ (h.grown _ (Nat.le_refl _)), fun _ _ => trivial⟩⟩
  newObject h hf := ⟨(), trivial, h.newObject hK hf, fun y hy => by cases hy; exact hK _ (h.grown _ (Nat.le_refl _))⟩
  native _ _ := fun _ hx => by cases hx
  emptyClosure _ _ he := fun y hy => by cases hy; exact he
  fault _ h := h
  write text h := { h with output := by simp only [h.output] }
  readLine h := ⟨by rw [h.input], { h with input := by simp only [State.told, h.input] }⟩
  readClock h := ⟨by rw [h.clock], { h with clock := by simp only [State.ticked, h.clock] }⟩
  turn h := ⟨h.turns, { h with turns := by simp only [State.turned, h.turns] }⟩

theorem confinement_runs {K : Place → Prop} {s₀ t₀ : Store} (hK : ∀ x, s₀.Free x → K x) (p : Program) :
    (confinement K s₀ t₀).Runs p p where
  toLawful := (confinement_lawful hK).toLawful
  closure_runs h := ⟨h _ rfl, fun _ _ => trivial⟩
  closure_made he _ := fun y hy => by cases hy; exact he
  branch _ := ⟨fun _ _ => trivial, fun _ _ => trivial⟩
  loop _ := fun _ _ => trivial
  labels _ x _ := (confinement_lawful hK).mayMeet x
  call _ h := (confinement_lawful hK).call_inStep _ h
  native _ _ := ⟨rfl, fun _ _ _ hx => by cases hx⟩
  memo h := ⟨h.memo, h.exports⟩
  sameModule _ _ := rfl
  missing h _ _ _ := h
  enters h _ _ _ _ :=
    ⟨(), h.started hK _, fun _ => ⟨hK _ (h.grown _ (Nat.le_refl _)), fun _ _ => trivial⟩, fun _ _ => trivial,
      fun _ _ _ _ hx => hx, fun _ _ _ _ _ _ h' hx _ => ⟨(), trivial, h'.kept _ hx, hx⟩⟩

/-! ## Calls -/

/-- A call can get to this place, starting from the function, an argument or a kept export. -/
def State.InReach (s : State) (f : Value) (args : List Value) (x : Place) : Prop :=
  ∃ v root, (v = f ∨ v ∈ args ∨ ∃ kept ∈ s.memo, ∃ offered ∈ kept.2, v = offered.2) ∧ v.place? = some root ∧
    Relation.ReflTransGen s.store.PointsTo root x

theorem confined_of_ends {K : Place → Prop} {s₀ t₀ : Store} {α : Type} {G : Unit → α → Prop}
    {r r' : EStateM.Result Stop State α} (h : (confinement K s₀ t₀).Ends () G r r') :
    Confined K s₀ t₀ (stateOf r) (stateOf r') := by
  cases h with
  | done _ h _ => exact h
  | stopped h => exact h

/-- Two stores that have the same within reach are confined to it, together with all that is still free. -/
theorem confined_reach {s : State} {f : Value} {args : List Value} {store : Store} (hsize : s.store.SameSize store)
    (hsame : ∀ x, s.InReach f args x → s.store.SameAt store x) :
    Confined (fun x => s.InReach f args x ∨ s.store.Free x) s.store store s { s with store := store } where
  sizes := hsize
  grown _ hx := hx
  same x hx := hx.elim (hsame x) fun hfree =>
    Store.sameAt_of_free hfree (hfree.of_le (Nat.le_of_eq hsize.1.symm) (Nat.le_of_eq hsize.2.symm))
  closed x y hx hl := by
    rcases hx with ⟨v, root, hv, hroot, hreach⟩ | hfree
    · exact .inl ⟨v, root, hv, hroot, hreach.tail hl⟩
    · exact absurd hl (Store.not_pointsTo_of_free hfree)
  left x _ := Store.SameAt.refl _ x
  right x _ := Store.SameAt.refl _ x
  memo := rfl
  exports kept hkept offered hoffered y hy := .inl ⟨_, y, .inr (.inr ⟨kept, hkept, offered, hoffered, rfl⟩), hy, .refl⟩
  input := rfl
  clock := rfl
  output := rfl
  log := rfl
  turns := rfl

/-- **A call keeps to what it can reach.**  Let the contents of every place out of its reach be replaced by any others.
The call then comes to the same, value, failure or neither on this fuel, with the same output, input, clock, kept
exports and log, and leaves the same at every place within reach and at every new one; and in both stores, all that was
there out of reach is left as it was. -/
theorem apply_local (p : Program) (n : Nat) (f : Value) (args : List Value) (s : State) (store : Store)
    (hsize : s.store.SameSize store) (hsame : ∀ x, s.InReach f args x → s.store.SameAt store x) :
    let r := apply p n f args s
    let r' := apply p n f args { s with store := store }
    outcomeOf r = outcomeOf r' ∧ (stateOf r).output = (stateOf r').output ∧ (stateOf r).input = (stateOf r').input ∧
      (stateOf r).clock = (stateOf r').clock ∧ (stateOf r).memo = (stateOf r').memo ∧
      (stateOf r).log = (stateOf r').log ∧
      (stateOf r).store.SameSize (stateOf r').store ∧
      (∀ x, s.InReach f args x ∨ s.store.Free x → (stateOf r).store.SameAt (stateOf r').store x) ∧
      ∀ x, ¬ s.InReach f args x → ¬ s.store.Free x →
        (stateOf r).store.SameAt s.store x ∧ (stateOf r').store.SameAt store x := by
  intro r r'
  -- what is still free counts as within reach, since the call may make scopes and objects there
  have hreach : ∀ v, v = f ∨ v ∈ args → v.Within fun x => s.InReach f args x ∨ s.store.Free x :=
    fun v hv y hy => .inl ⟨v, y, hv.imp_right .inl, hy, .refl⟩
  have hruns : (confinement (fun x => s.InReach f args x ∨ s.store.Free x) s.store store).Runs p p :=
    confinement_runs (fun x hx => .inr hx) p
  have hends := (hruns.upto n).apply (w := ()) (hreach f (.inl rfl)) (fun v hv => hreach v (.inr hv)) s
    { s with store := store } (confined_reach hsize hsame)
  have hconf := confined_of_ends hends
  refine ⟨hends.outcomeOf_eq, hconf.output, hconf.input, hconf.clock, hconf.memo, hconf.log, hconf.sizes, hconf.same,
    fun x hx hfree => ?_⟩
  have hout : ¬ (s.InReach f args x ∨ s.store.Free x) := fun h => h.elim hx hfree
  exact ⟨hconf.left x hout, hconf.right x hout⟩

/-- The function `tick`, declared in scope 1, writes to that scope and to its argument. -/
def tick : Value :=
  .closure ⟨"tick", ["it"], [.assign "last" (.ref "it"), .setField (.ref "it") "seen" (.boolean true)], 1⟩

/-- Scope 1 with `tick` in it, and object 0 for its argument; scope 0 and object 1 are its caller's own. -/
def atTick (own : Scope) (ownFields : List (String × Value)) : State :=
  { State.initial (.queue []) (.steady 0) with
    store := ⟨#[own, ⟨none, [("last", none), ("tick", some tick)]⟩],
      #[.ofPairs [("seen", .null)], .ofPairs ownFields]⟩ }

theorem tick_inReach {own : Scope} {ownFields : List (String × Value)} {x : Place}
    (h : (atTick own ownFields).InReach tick [.object 0] x) : x = .scope 1 ∨ x = .object 0 := by
  obtain ⟨v, root, hv, hroot, hreach⟩ := h
  induction hreach with
  | refl =>
    rcases hv with rfl | hv | ⟨kept, hkept, -⟩
    · cases hroot
      exact .inl rfl
    · rw [List.mem_singleton.1 hv] at hroot
      cases hroot
      exact .inr rfl
    · cases hkept
  | tail _ hl ih =>
    rcases ih with rfl | rfl
    · cases hl with
      | parent hp => simp [atTick, Store.parent?] at hp
      | binding hb hv hy =>
        simp only [atTick, Store.bindings, List.getElem?_toArray, List.getElem?_cons_succ, List.getElem?_cons_zero,
          List.mem_cons, List.not_mem_nil, or_false] at hb
        rcases hb with rfl | rfl
        · cases hv
        · cases hv
          cases hy
          exact .inl rfl
    · cases hl with
      | field hf hy =>
        cases List.mem_singleton.1 (Table.mem_of_mem_ofPairs hf)
        cases hy

def tickCaller : State := atTick ⟨none, [("secret", some .null)]⟩ [("kept", .null)]

def otherCaller : State := atTick ⟨some 1, []⟩ []

theorem tick_local :
    tickCaller.store.SameSize otherCaller.store ∧
      (∀ x, tickCaller.InReach tick [.object 0] x → tickCaller.store.SameAt otherCaller.store x) ∧
      stopOf (apply ⟨[], []⟩ 20 tick [.object 0] tickCaller) = none ∧
      outcomeOf (apply ⟨[], []⟩ 20 tick [.object 0] tickCaller) =
        outcomeOf (apply ⟨[], []⟩ 20 tick [.object 0] otherCaller) ∧
      (stateOf (apply ⟨[], []⟩ 20 tick [.object 0] tickCaller)).store.SameAt tickCaller.store (.scope 0) := by
  have hsize : tickCaller.store.SameSize otherCaller.store := ⟨rfl, rfl⟩
  have hsame : ∀ x, tickCaller.InReach tick [.object 0] x → tickCaller.store.SameAt otherCaller.store x := by
    intro x hx
    rcases tick_inReach hx with rfl | rfl <;> rfl
  obtain ⟨hout, -, -, -, -, -, -, -, hleft⟩ :=
    apply_local ⟨[], []⟩ 20 tick [.object 0] tickCaller otherCaller.store hsize hsame
  refine ⟨hsize, hsame, by decide +kernel, hout, (hleft (.scope 0) (fun hx => ?_) (Nat.not_succ_le_zero 1)).1⟩
  rcases tick_inReach hx with h | h <;> cases h

end Thicket
