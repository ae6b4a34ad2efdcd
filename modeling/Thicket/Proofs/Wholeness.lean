import Thicket.Proofs.Assignment
import Thicket.Proofs.Course
import Thicket.Proofs.Scopes
import Thicket.Proofs.Watch
/-!
# The store stays whole

A state is whole if its scopes lie in older ones and every value that is written in it names something that is there
(`State.Whole`).  A later store has all that an earlier one has (`Store.Grown`).  Both are said of one run, paired with
itself at the store it has come to (`wholeness`), so whatever the evaluator does leads from a whole state to a whole one
with nothing lost, and what it gives is there (`Keeps`).

Functions of the host are there without being written anywhere.  Of these it can be said that all that turn up are of
some kind `N`, if those that the program was given are, and if they make no others (`HostedBy`).
-/
namespace Thicket

variable {N : NativeFunction → Prop}

/-! ## What is there -/

/-- The scope or the object that the value names is there; a function of the host is of the kind `N`. -/
def Value.ExistsIn (N : NativeFunction → Prop) (s : Store) : Value → Prop
  | .object o => o < s.objects.size
  | .closure c => c.scope < s.scopes.size
  | .native f => N f
  | .number _ | .boolean _ | .string _ | .null => True

/-- Functions of the host of any kind. -/
def anyHost : NativeFunction → Prop := fun _ => True

namespace Store

/-- Nothing of the first store is missing from the second: no scope, no object, no name and no field.  Each scope is
still inside the one it was made in. -/
structure Grown (s s' : Store) : Prop where
  scopes : s.scopes.size ≤ s'.scopes.size
  objects : s.objects.size ≤ s'.objects.size
  parent : ∀ e < s.scopes.size, s'.parent? e = s.parent? e
  names : ∀ e x, s.declares e x = true → s'.declares e x = true
  fields : ∀ o, ∀ x ∈ Table.names (s.fields o), x ∈ Table.names (s'.fields o)

namespace Grown

variable {s s' s'' : Store}

theorem refl (s : Store) : s.Grown s :=
  ⟨Nat.le_refl _, Nat.le_refl _, fun _ _ => rfl, fun _ _ h => h, fun _ _ h => h⟩

theorem trans (h : s.Grown s') (h' : s'.Grown s'') : s.Grown s'' where
  scopes := Nat.le_trans h.scopes h'.scopes
  objects := Nat.le_trans h.objects h'.objects
  parent e he := (h'.parent e (Nat.lt_of_lt_of_le he h.scopes)).trans (h.parent e he)
  names e x hx := h'.names e x (h.names e x hx)
  fields o x hx := h'.fields o x (h.fields o x hx)

theorem lt_size (h : s.Grown s') {e : ScopeId} (he : e < s.scopes.size) : e < s'.scopes.size :=
  Nat.lt_of_lt_of_le he h.scopes

theorem bind (s : Store) (e : ScopeId) (name : String) (b : Binding) : s.Grown (s.bind e name b) where
  scopes := Nat.le_of_eq (s.size_bind e name b).symm
  objects := Nat.le_refl _
  parent a _ := s.parent?_bind e a name b
  names a x hx := (s.declares_bind e a name x b).2 (.inl hx)
  fields _ _ hx := hx

theorem setField (s : Store) (o : ObjectId) (name : String) (v : Value) : s.Grown (s.setField o name v) where
  scopes := Nat.le_refl _
  objects := by simp [Store.setField]
  parent _ _ := rfl
  names _ _ hx := hx
  fields a x hx := by
    rw [fields_setField]
    split
    · rename_i ha
      exact (Table.mem_names_insert _ _ _ _).2 (.inl (ha.1 ▸ hx))
    · exact hx

theorem newScope (s : Store) (parent : Option ScopeId) : s.Grown (s.newScope parent).2 where
  scopes := by simp [Store.newScope]
  objects := Nat.le_refl _
  parent e he := by rw [parent?_newScope, if_neg (Nat.ne_of_lt he)]
  names e x hx := by rwa [declares_newScope]
  fields _ _ hx := hx

theorem newObject (s : Store) (fields : List (String × Value)) : s.Grown (s.newObject fields).2 where
  scopes := Nat.le_refl _
  objects := by simp [Store.newObject]
  parent _ _ := rfl
  names _ _ hx := hx
  fields o x hx := by
    rw [fields_newObject, if_neg]
    · exact hx
    · rintro rfl
      simp [Store.fields, Table.names] at hx

end Grown
end Store

theorem Value.ExistsIn.later {s s' : Store} {v : Value} (h : v.ExistsIn N s) (hs : s.Grown s') : v.ExistsIn N s' := by
  cases v with
  | object o => exact Nat.lt_of_lt_of_le h hs.objects
  | closure c => exact hs.lt_size h
  | native f => exact h
  | number _ | boolean _ | string _ | null => exact trivial

theorem Store.All.mono {F G : Value → Prop} {s : Store} (h : s.All F) (hFG : ∀ v, F v → G v) : s.All G :=
  ⟨fun e x hx v hv => hFG v (h.bindings e x hx v hv), fun o x hx => hFG x.2 (h.fields o x hx)⟩

/-- Every scope lies in an older one, and whatever is bound to a name, held in a field or kept as an export is there. -/
structure State.Whole (N : NativeFunction → Prop) (s : State) : Prop where
  outward : s.store.Outward
  values : s.store.All (Value.ExistsIn N s.store)
  memo : ∀ x ∈ s.memo, ∀ y ∈ x.2, y.2.ExistsIn N s.store

namespace State.Whole

variable {s : State}

theorem initial (input : Input) (clock : Clock) : (State.initial input clock).Whole N where
  outward e p hp := by simp [State.initial, Store.empty, Store.parent?] at hp
  values := .empty
  memo _ hx := by cases hx

/-- What was there stays there. -/
theorem memo_later {store : Store} (h : s.Whole N) (hs : s.store.Grown store) :
    ∀ x ∈ s.memo, ∀ y ∈ x.2, y.2.ExistsIn N store :=
  fun x hx y hy => (h.memo x hx y hy).later hs

theorem bind (h : s.Whole N) (e : ScopeId) (name : String) {b : Binding} (hb : ∀ v ∈ b, v.ExistsIn N s.store) :
    (s.on (·.bind e name b)).Whole N where
  outward := h.outward.bind e name b
  values := (h.values.bind e name hb).mono fun _ hv => hv.later (.bind s.store e name b)
  memo := h.memo_later (.bind s.store e name b)

theorem setField (h : s.Whole N) (o : ObjectId) (name : String) {v : Value} (hv : v.ExistsIn N s.store) :
    (s.on (·.setField o name v)).Whole N where
  outward := h.outward
  values := (h.values.setField o name hv).mono fun _ hu => hu.later (.setField s.store o name v)
  memo := h.memo_later (.setField s.store o name v)

theorem newScope (h : s.Whole N) {parent : Option ScopeId} (hparent : ∀ a ∈ parent, a < s.store.scopes.size) :
    (s.on fun store => (store.newScope parent).2).Whole N where
  outward := h.outward.newScope hparent
  values := (h.values.newScope parent).mono fun _ hv => hv.later (.newScope s.store parent)
  memo := h.memo_later (.newScope s.store parent)

theorem newObject (h : s.Whole N) {fields : List (String × Value)} (hf : ∀ x ∈ fields, x.2.ExistsIn N s.store) :
    (s.on fun store => (store.newObject fields).2).Whole N where
  outward := h.outward
  values := (h.values.newObject hf).mono fun _ hv => hv.later (.newObject s.store fields)
  memo := h.memo_later (.newObject s.store fields)

/-- Only the store and the kept exports count, and these may be forgotten. -/
theorem aside {s' : State} (h : s.Whole N) (hstore : s'.store = s.store) (hmemo : ∀ x ∈ s'.memo, x ∈ s.memo) :
    s'.Whole N where
  outward := hstore ▸ h.outward
  values := hstore ▸ h.values
  memo x hx := hstore ▸ h.memo x (hmemo x hx)

theorem memoize (h : s.Whole N) (name : String) {exports : Table Value} (he : ∀ x ∈ exports, x.2.ExistsIn N s.store) :
    State.Whole N { s with memo := Table.insert s.memo name exports } where
  outward := h.outward
  values := h.values
  memo x hx := by
    rcases Table.mem_insert hx with rfl | hx
    · exact he
    · exact h.memo x hx

end State.Whole

/-! ## A run keeps the state whole -/

/-- The state is whole, and all that was done since the store was `w` was done to what is there. -/
structure Since (N : NativeFunction → Prop) (w : Store) (s : State) : Prop where
  whole : s.Whole N
  grown : w.Grown s.store
  -- a name may hold the newest object there is, so `w` must not be behind
  scopes : s.store.scopes.size = w.scopes.size
  objects : s.store.objects.size = w.objects.size

namespace Since

variable {w : Store} {s : State}

theorem now (h : s.Whole N) : Since N s.store s := ⟨h, .refl _, rfl, rfl⟩

theorem exists_iff (h : Since N w s) (v : Value) : v.ExistsIn N s.store ↔ v.ExistsIn N w := by
  cases v with
  | object o => exact iff_of_eq (congrArg (o < ·) h.objects)
  | closure c => exact iff_of_eq (congrArg (c.scope < ·) h.scopes)
  | number _ | boolean _ | string _ | null | native _ => exact Iff.rfl

theorem bind (h : Since N w s) (e : ScopeId) (name : String) {b : Binding} (hb : ∀ v ∈ b, v.ExistsIn N w) :
    Since N w (s.on (·.bind e name b)) where
  whole := h.whole.bind e name fun v hv => (h.exists_iff v).2 (hb v hv)
  grown := h.grown.trans (.bind s.store e name b)
  scopes := (s.store.size_bind e name b).trans h.scopes
  objects := h.objects

theorem setField (h : Since N w s) (o : ObjectId) (name : String) {v : Value} (hv : v.ExistsIn N w) :
    Since N w (s.on (·.setField o name v)) where
  whole := h.whole.setField o name ((h.exists_iff v).2 hv)
  grown := h.grown.trans (.setField s.store o name v)
  scopes := h.scopes
  objects := Eq.trans (by simp [State.on, Store.setField]) h.objects

theorem aside {s' : State} (h : Since N w s) (hstore : s'.store = s.store) (hmemo : ∀ x ∈ s'.memo, x ∈ s.memo) :
    Since N w s' :=
  ⟨h.whole.aside hstore hmemo, hstore ▸ h.grown, hstore ▸ h.scopes, hstore ▸ h.objects⟩

theorem kept (h : Since N w s) (m : Module) {exports : Table Value} (he : ∀ x ∈ exports, x.2.ExistsIn N w) :
    Since N w (s.kept m exports) :=
  ⟨(h.whole.memoize m.name fun x hx => (h.exists_iff x.2).2 (he x hx)).aside rfl fun _ hx => hx, h.grown, h.scopes,
    h.objects⟩

end Since

/-- A run paired with itself.  The world is the store as it was when the last scope or object was made. -/
def wholeness (N : NativeFunction → Prop) : Pairing where
  World := Store
  Later := Store.Grown
  Sim w s t := s = t ∧ Since N w s
  Stopped w _ s t := s = t ∧ s.Whole N ∧ w.Grown s.store
  Here w e := e < w.scopes.size
  Open _ _ _ := True
  Fine w v := v.ExistsIn N w
  Allowed _ _ := True

theorem wholeness_stream : (wholeness N).StreamLawful where
  later_refl := .refl
  later_trans := .trans
  stopped_mono h hx := ⟨hx.1, hx.2.1, h.trans hx.2.2⟩
  here_mono h he := h.lt_size he
  open_mono _ _ := trivial
  fine_mono h hv := hv.later h
  allowed_mono _ _ := trivial
  fine_number _ _ := trivial
  fine_boolean _ _ := trivial
  fine_string _ _ := trivial
  fine_null _ := trivial
  stop h _ := ⟨h.1, h.2.whole, h.2.grown⟩
  scopes_size h := by rw [h.1]
  objects_size h := by rw [h.1]
  parent h he := ⟨by rw [h.1], fun a ha => Nat.lt_trans (h.2.whole.outward _ a ha) he⟩
  bindings h _ := ⟨by rw [h.1], fun x hx v hv => (h.2.exists_iff v).1 (h.2.whole.values.bindings _ x hx v hv)⟩
  fields h _ := ⟨by rw [h.1], fun x hx => (h.2.exists_iff x.2).1 (h.2.whole.values.fields _ x hx)⟩
  bind name h _ _ hb := by
    obtain ⟨rfl, h⟩ := h
    exact ⟨rfl, h.bind _ name hb⟩
  setField name h _ hv := by
    obtain ⟨rfl, h⟩ := h
    exact ⟨rfl, h.setField _ name hv⟩
  newScope h hparent := by
    obtain ⟨rfl, h⟩ := h
    have hwhole := h.whole.newScope fun a ha => Nat.lt_of_lt_of_eq (hparent a ha) h.scopes.symm
    refine ⟨_, h.grown.trans (.newScope _ _), ⟨rfl, .now hwhole⟩, fun _ => ⟨?_, fun _ _ => trivial⟩⟩
    simp [wholeness, Store.newScope]
  newObject h hf := by
    obtain ⟨rfl, h⟩ := h
    have hwhole := h.whole.newObject fun x hx => (h.exists_iff x.2).2 (hf x hx)
    refine ⟨_, h.grown.trans (.newObject _ _), ⟨rfl, .now hwhole⟩, ?_⟩
    simp [wholeness, Value.ExistsIn, Store.newObject]
  write text h := by
    obtain ⟨rfl, h⟩ := h
    exact ⟨rfl, h.aside rfl fun _ hx => hx⟩
  readLine h := by
    obtain ⟨rfl, h⟩ := h
    exact ⟨rfl, rfl, h.aside rfl fun _ hx => hx⟩
  readClock h := by
    obtain ⟨rfl, h⟩ := h
    exact ⟨rfl, rfl, h.aside rfl fun _ hx => hx⟩

theorem wholeness_lawful : (wholeness anyHost).HostLawful where
  toStreamLawful := wholeness_stream
  native _ _ := trivial
  emptyClosure _ _ he := he
  fault _ h := ⟨h.1, h.2.whole, h.2.grown⟩
  turn h := by
    obtain ⟨rfl, h⟩ := h
    exact ⟨rfl, rfl, h.aside rfl fun _ hx => hx⟩

theorem wholeness_mayMeet (x : Label) : (wholeness N).MayMeet x := .inr fun h => ⟨h.1, h.2.whole, h.2.grown⟩

/-- The host of the program has functions of the kind `N` only, and these make no others. -/
structure HostedBy (N : NativeFunction → Prop) (p : Program) : Prop where
  natives : ∀ f ∈ p.natives, N f
  call : ∀ {w f args}, N f → (wholeness N).FineAll w args →
    (wholeness N).InStep w (wholeness N).Fine (f.call args) (f.call args)

theorem hostedBy_any (p : Program) : HostedBy anyHost p :=
  ⟨fun _ _ => trivial, fun _ h => wholeness_lawful.call_inStep _ h⟩

theorem State.Whole.started {s : State} (h : s.Whole N) (m : Module) : (s.started m).Whole N :=
  (h.newScope fun _ ha => by cases ha).aside rfl fun _ hx => hx

theorem room_started (s : State) (m : Module) (names : List String) :
    (wholeness N).Room (s.started m).store s.store.scopes.size names :=
  ⟨by simp [wholeness, State.started, Store.newScope], fun _ _ => trivial⟩

theorem wholeness_runs {p : Program} (H : HostedBy N p) : (wholeness N).Runs p p where
  toLawful := wholeness_stream.toLawful
  closure_runs h := ⟨h, fun _ _ => trivial⟩
  closure_made h _ := h
  branch _ := ⟨fun _ _ => trivial, fun _ _ => trivial⟩
  loop _ := fun _ _ => trivial
  labels _ x _ := wholeness_mayMeet x
  call hf h := H.call hf h
  native _ _ := ⟨rfl, fun f hf => H.natives f (List.mem_of_find?_eq_some hf)⟩
  memo h := ⟨by rw [h.1], fun x hx y hy => (h.2.exists_iff y.2).1 (h.2.whole.memo x hx y hy)⟩
  sameModule _ _ := rfl
  missing h _ _ _ := ⟨h.1, h.2.whole, h.2.grown⟩
  enters := by
    rintro w m s t ⟨rfl, h⟩ - - - -
    have hw : w.Grown (s.started m).store := h.grown.trans (.newScope s.store none)
    refine ⟨(s.started m).store, ⟨rfl, .now (h.whole.started m)⟩, room_started s m, fun _ _ => trivial,
      fun _ _ _ _ hx => ⟨hx.1, hx.2.1, hw.trans hx.2.2⟩, ?_⟩
    rintro w₂ s' t' exports - hw₂ ⟨rfl, h'⟩ hexports -
    exact ⟨w₂, hw.trans hw₂, ⟨rfl, h'.kept m hexports⟩, hexports⟩

/-! ## What the evaluator gives is there -/

/-- The second state is whole, and nothing of the first is missing from it. -/
structure Onward (N : NativeFunction → Prop) (s s' : State) : Prop where
  whole : s'.Whole N
  grown : s.store.Grown s'.store

namespace Onward

variable {s s' s'' : State}

theorem refl (h : s.Whole N) : Onward N s s := ⟨h, .refl _⟩

theorem trans (h : Onward N s s') (h' : Onward N s' s'') : Onward N s s'' := ⟨h'.whole, h.grown.trans h'.grown⟩

theorem aside (h : s.Whole N) (hstore : s'.store = s.store) (hmemo : ∀ x ∈ s'.memo, x ∈ s.memo) : Onward N s s' :=
  ⟨h.aside hstore hmemo, hstore ▸ .refl s.store⟩

end Onward

/-- From this state the computation leads onward, and what it gives is there. -/
structure Keeps (N : NativeFunction → Prop) {α : Type} (G : Store → α → Prop) (f : Run α) (s : State) : Prop where
  onward : Onward N s (stateOf (f s))
  gives : ∀ a s', f s = .ok a s' → G s'.store a

namespace Keeps

variable {α β : Type} {G : Store → α → Prop} {H : Store → β → Prop} {f : Run α} {s : State}

theorem of_inStep (h : (wholeness N).InStep s.store G f f) (hs : s.Whole N)
    (hG : ∀ {w w' a}, w.Grown w' → G w a → G w' a) :
    Keeps N G f s := by
  have hends := h s s ⟨rfl, .now hs⟩
  generalize hr : f s = r at hends
  cases hends with
  | done hw hsim ha =>
    refine ⟨?_, ?_⟩ <;> rw [hr]
    · exact ⟨hsim.2.whole, hw.trans hsim.2.grown⟩
    · rintro _ _ ⟨⟩
      exact hG hsim.2.grown ha
  | stopped hx =>
    refine ⟨?_, ?_⟩ <;> rw [hr]
    · exact ⟨hx.2.1, hx.2.2⟩
    · rintro _ _ ⟨⟩

theorem map (h : Keeps N G f s) {k : α → β} (hk : ∀ store a, G store a → H store (k a)) : Keeps N H (k <$> f) s where
  onward := by rw [stateOf_map]; exact h.onward
  gives b s' hb := by
    obtain ⟨a, s₁, ha, hb⟩ := Run.bind_eq_ok (f := f) (k := fun a => pure (k a)) (by rwa [bind_pure_comp])
    cases hb
    exact hk _ a (h.gives a _ ha)

end Keeps

/-- All that the job is given is there: the scope it is to run in, and the values. -/
def Job.Given (N : NativeFunction → Prop) (store : Store) : Job → Prop
  | evaluate e _ | all e _ | execute e _ | one e _ | loop e _ _ | importNames e _ _ => e < store.scopes.size
  | fields e _ done => e < store.scopes.size ∧ ∀ x ∈ done, x.2.ExistsIn N store
  | apply f args => f.ExistsIn N store ∧ ∀ v ∈ args, v.ExistsIn N store
  | exportedValue _ _ | runModule _ => True

theorem existsIn_of_outcome {store : Store} {o : Outcome} (h : (wholeness N).FineOutcome store o) :
    ∀ v ∈ o.result?, v.ExistsIn N store := by
  cases o with
  | completed => exact fun _ hv => by cases hv
  | returned u => exact fun v hv => by cases hv; exact h

theorem fineOutcome_later {store store' : Store} {o : Outcome} (hs : store.Grown store')
    (h : (wholeness N).FineOutcome store o) : (wholeness N).FineOutcome store' o := by
  cases o with
  | completed => exact trivial
  | returned v => exact Value.ExistsIn.later h hs

theorem record_inStep (w : Store) (x : Event) :
    (wholeness N).InStep w (fun _ _ => True) (Run.record x) (Run.record x) := by
  rintro s t ⟨rfl, h⟩
  exact .done (.refl w) ⟨rfl, h.aside rfl fun _ hx => hx⟩ trivial

theorem runModule_inStep {p : Program} (H : HostedBy N p) (n : Nat) (w : Store) (m : Module) :
    (wholeness N).InStep w (fun w r => (∀ v ∈ r.result, v.ExistsIn N w) ∧ ∀ x ∈ r.exports, x.2.ExistsIn N w)
      (runModule p n m)
      (runModule p n m) := by
  have R := wholeness_runs H
  cases n with
  | zero => exact R.throw_inStep trivial
  | succ n =>
    rw [runModule_eq]
    refine R.bind_inStep (record_inStep w _) fun w₁ _ _ _ => ?_
    refine R.bind_inStep (R.newScope_inStep fun _ ha => by cases ha) fun w₂ root _ hroot => ?_
    refine R.bind_inStep (R.runBody_inStep (R.upto n) hroot fun _ _ => trivial) fun w₃ r _ hr => ?_
    refine R.bind_inStep (record_inStep w₃ _) fun w₄ _ hw _ => R.pure_inStep ⟨?_, ?_⟩
    · exact existsIn_of_outcome (fineOutcome_later hw hr.1)
    · exact R.fineTable_mono hw hr.2.1

theorem existsIn_of_mem_toList {store : Store} {o : Option Value} (h : ∀ v ∈ o, v.ExistsIn N store) :
    ∀ v ∈ o.toList, v.ExistsIn N store :=
  fun v hv => h v (Option.mem_toList.1 hv)

theorem existsIn_of_mem_entries {store : Store} {t : Table Value} (h : ∀ x ∈ t, x.2.ExistsIn N store) :
    ∀ v ∈ t.map Prod.snd, v.ExistsIn N store := by
  intro v hv
  obtain ⟨x, hx, rfl⟩ := List.mem_map.1 hv
  exact h x hx

/-- **A job that is given what is there leads onward**, and all it gives is there. -/
theorem Job.keeps {p : Program} (H : HostedBy N p) (n : Nat) {j : Job} {s : State} (hs : s.Whole N)
    (hj : j.Given N s.store) :
    Keeps N (fun store vs => ∀ v ∈ vs, v.ExistsIn N store) (j.run p n) s := by
  have h := (wholeness_runs H).upto n
  have hlabels : ∀ labels, (wholeness N).MayMeetAll labels := fun _ x _ => wholeness_mayMeet x
  have hvalue {f : Run Value} (hf : (wholeness N).InStep s.store (wholeness N).Fine f f) :
      Keeps N (fun store vs => ∀ v ∈ vs, v.ExistsIn N store) ((fun v => [v]) <$> f) s := by
    refine (Keeps.of_inStep hf hs fun hw hv => hv.later hw).map fun _ v hv u hu => ?_
    rw [List.mem_singleton.1 hu]
    exact hv
  have houtcome {f : Run Outcome} (hf : (wholeness N).InStep s.store (wholeness N).FineOutcome f f) :
      Keeps N (fun store vs => ∀ v ∈ vs, v.ExistsIn N store) ((fun o => o.result?.toList) <$> f) s :=
    (Keeps.of_inStep hf hs fineOutcome_later).map fun _ _ ho => existsIn_of_mem_toList (existsIn_of_outcome ho)
  cases j with
  | evaluate e expr => exact hvalue (h.evaluate hj (hlabels _))
  | fields e rest done =>
    have hfields := Keeps.of_inStep (h.fields hj.1 (hlabels (fieldLabels rest)) hj.2) hs fun hw ht x hx =>
      (ht x hx).later hw
    exact hfields.map fun _ _ => existsIn_of_mem_entries
  | all e exprs => exact .of_inStep (h.all hj (hlabels _)) hs fun hw hvs v hv => (hvs v hv).later hw
  | apply f args => exact hvalue (h.apply hj.1 hj.2)
  | execute e body => exact houtcome (h.execute ⟨hj, fun _ _ => trivial⟩ fun _ _ => trivial)
  | one e st => exact houtcome (h.one ⟨hj, fun _ _ => trivial⟩ trivial)
  | loop e condition body => exact houtcome (h.loop hj (hlabels _) fun _ _ => trivial)
  | importNames e source names =>
    have himport : (wholeness N).InStep s.store (fun _ _ => True) (Thicket.importNames p n e source names) _ :=
      h.importNames names ⟨hj, fun _ _ => trivial⟩ ⟨[], trivial⟩
    exact (Keeps.of_inStep himport hs fun _ _ => trivial).map fun _ _ _ v hv => by cases hv
  | exportedValue source name => exact hvalue (h.exported name ⟨[], trivial⟩)
  | runModule m =>
    have hmodule := Keeps.of_inStep (runModule_inStep H n s.store m) hs fun hw hr =>
      ⟨fun v hv => (hr.1 v hv).later hw, fun x hx => (hr.2 x hx).later hw⟩
    refine hmodule.map fun _ r hr v hv => ?_
    rcases List.mem_append.1 hv with hv | hv
    · exact existsIn_of_mem_toList hr.1 v hv
    · exact existsIn_of_mem_entries hr.2 v hv

end Thicket
