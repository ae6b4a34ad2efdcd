import Thicket.Proofs.Pairing
/-!
# Operators and the host, in step

Operators, `display` and the functions of the host look into the store only through the fields of objects that they are
handed.  So where these agree, they agree.
-/
namespace Thicket

/-! ## What an operator can give -/

/-- A step that stops, if it does, for a cause of its own. -/
def OnlyLocal {α : Type} : Except Stop α → Prop
  | .ok _ => True
  | .error x => x.Local

theorem OnlyLocal.of_error {α : Type} {r : Except Stop α} {x : Stop} (h : OnlyLocal r) (hx : r = .error x) :
    x.Local := by
  rw [hx] at h
  exact h

theorem OnlyLocal.map {α β : Type} {r : Except Stop α} {f : α → β} (h : OnlyLocal r) : OnlyLocal (r.map f) := by
  cases r with
  | ok a => exact trivial
  | error x => exact h

theorem fieldsEqual_onlyLocal {equal : Value → Value → Except Stop Bool} (h : ∀ v w, OnlyLocal (equal v w))
    (right : Table Value) : ∀ left : Table Value, OnlyLocal (fieldsEqual equal right left)
  | [] => trivial
  | (name, v) :: rest => by
    unfold fieldsEqual
    cases Table.get? right name with
    | none => exact trivial
    | some u =>
      have hvu := h v u
      simp only
      cases hr : equal v u with
      | ok b =>
        cases b with
        | true => exact fieldsEqual_onlyLocal h right rest
        | false => exact trivial
      | error x => rw [hr] at hvu; exact hvu

theorem Store.equalWithin_onlyLocal (s : Store) : ∀ (n : Nat) (l r : Value), OnlyLocal (s.equalWithin n l r)
  | 0, _, _ => trivial
  | n + 1, l, r => by
    cases l with
    | object a =>
      cases r with
      | object b =>
        show OnlyLocal (if (s.fields a).length ≠ (s.fields b).length then .ok false
          else fieldsEqual (s.equalWithin n) (s.fields b) (s.fields a))
        split
        · exact trivial
        · exact fieldsEqual_onlyLocal (s.equalWithin_onlyLocal n) _ _
      | number _ | boolean _ | string _ | null | closure _ | native _ => exact trivial
    | number _ | boolean _ | string _ | null | closure _ | native _ => cases r <;> exact trivial

theorem bothNumbers_ok {α : Type} {f : Float → Float → α} {l r : Value} {a : α} (h : bothNumbers f l r = .ok a) :
    ∃ x y, a = f x y := by
  cases l <;> cases r <;> cases h
  exact ⟨_, _, rfl⟩

theorem bothBooleans_ok {α : Type} {f : Bool → Bool → α} {l r : Value} {a : α} (h : bothBooleans f l r = .ok a) :
    ∃ x y, a = f x y := by
  cases l <;> cases r <;> cases h
  exact ⟨_, _, rfl⟩

theorem bothNumbers_onlyLocal {α : Type} (f : Float → Float → α) (l r : Value) : OnlyLocal (bothNumbers f l r) := by
  cases l <;> cases r <;> exact trivial

theorem bothBooleans_onlyLocal {α : Type} (f : Bool → Bool → α) (l r : Value) : OnlyLocal (bothBooleans f l r) := by
  cases l <;> cases r <;> exact trivial

/-- A binary operator gives a number or a truth value. -/
theorem BinaryOp.apply_ok {s : Store} {op : BinaryOp} {l r v : Value} (h : op.apply s l r = .ok v) :
    (∃ x, v = .number x) ∨ ∃ b, v = .boolean b := by
  cases op.means with
  | number f hf =>
    rw [hf] at h
    obtain ⟨x, y, rfl⟩ := bothNumbers_ok h
    exact .inl ⟨_, rfl⟩
  | relation f hf =>
    rw [hf] at h
    obtain ⟨x, y, rfl⟩ := bothNumbers_ok h
    exact .inr ⟨_, rfl⟩
  | logic f hf =>
    rw [hf] at h
    obtain ⟨x, y, rfl⟩ := bothBooleans_ok h
    exact .inr ⟨_, rfl⟩
  | equality f hf =>
    rw [hf] at h
    cases he : s.equal l r with
    | error x => rw [he] at h; cases h
    | ok b => rw [he] at h; cases h; exact .inr ⟨_, rfl⟩
  | nothing _ hf => rw [hf] at h; cases h

/-- Where an operator does not answer, it stops for a cause of its own or is one that nothing is known about. -/
theorem BinaryOp.stop_of_apply {s : Store} {op : BinaryOp} {l r : Value} {x : Stop} (h : op.apply s l r = .error x) :
    x.Local ∨ ¬ (Label.binary op).Known ∧ x = .fault (.unexpected op.name) := by
  cases op.means with
  | number f hf | relation f hf => exact .inl ((bothNumbers_onlyLocal _ l r).of_error (hf s l r ▸ h))
  | logic f hf => exact .inl ((bothBooleans_onlyLocal _ l r).of_error (hf s l r ▸ h))
  | equality f hf => exact .inl ((s.equalWithin_onlyLocal _ l r).map.of_error (hf s l r ▸ h))
  | nothing hname hf =>
    rw [hf] at h
    cases h
    exact .inr ⟨hname, rfl⟩

theorem UnaryOp.apply_ok {op : UnaryOp} {v u : Value} (h : op.apply v = .ok u) :
    (∃ x, u = .number x) ∨ ∃ b, u = .boolean b := by
  cases op.means with
  | complement hf =>
    rw [hf] at h
    cases v <;> cases h
    exact .inr ⟨_, rfl⟩
  | negation hf =>
    rw [hf] at h
    cases v <;> cases h
    exact .inl ⟨_, rfl⟩
  | nothing _ hf => rw [hf] at h; cases h

theorem UnaryOp.stop_of_apply {op : UnaryOp} {v : Value} {x : Stop} (h : op.apply v = .error x) :
    x.Local ∨ ¬ (Label.unary op).Known ∧ x = .fault (.unexpected op.name) := by
  cases op.means with
  | complement hf | negation hf =>
    rw [hf] at h
    cases v <;> cases h <;> exact .inl trivial
  | nothing hname hf =>
    rw [hf] at h
    cases h
    exact .inr ⟨hname, rfl⟩

theorem fieldTexts_onlyLocal {render : Value → Except Stop String} (h : ∀ v, OnlyLocal (render v)) :
    ∀ t : Table Value, OnlyLocal (fieldTexts render t)
  | [] => trivial
  | (name, v) :: rest => by
    have hv := h v
    have hrest := fieldTexts_onlyLocal h rest
    unfold fieldTexts
    cases hr : render v with
    | error x => rw [hr] at hv; exact hv
    | ok text =>
      simp only
      cases hf : fieldTexts render rest with
      | error x => rw [hf] at hrest; exact hrest
      | ok texts => exact trivial

theorem Store.displayWithin_onlyLocal (s : Store) : ∀ (n : Nat) (v : Value), OnlyLocal (s.displayWithin n v)
  | 0, _ => trivial
  | n + 1, v => by
    cases v with
    | object o => exact (fieldTexts_onlyLocal (s.displayWithin_onlyLocal n) _).map
    | number _ | boolean _ | string _ | null | closure _ | native _ => exact trivial

/-! ## Operators in step -/

theorem Table.mem_insert {α : Type} : ∀ {t : Table α} {name : String} {v : α} {x : String × α},
    x ∈ Table.insert t name v → x = (name, v) ∨ x ∈ t
  | [], _, _, _, h => .inl (List.mem_singleton.1 h)
  | (k, u) :: rest, name, v, x, h => by
    rw [Table.insert] at h
    split at h
    · rename_i hk
      subst hk
      exact (List.mem_cons.1 h).imp_right (List.mem_cons_of_mem _)
    · rcases List.mem_cons.1 h with rfl | h
      · exact .inr List.mem_cons_self
      · exact (Table.mem_insert h).imp_right (List.mem_cons_of_mem _)

theorem Table.mem_of_mem_ofPairs {α : Type} {pairs : List (String × α)} {x : String × α}
    (h : x ∈ Table.ofPairs pairs) : x ∈ pairs := by
  have hfold : ∀ (pairs : List (String × α)) (t : Table α),
      x ∈ pairs.foldl (fun t p => Table.insert t p.1 p.2) t → x ∈ t ∨ x ∈ pairs := by
    intro pairs
    induction pairs with
    | nil => exact fun t h => .inl h
    | cons p rest ih =>
      intro t h
      rcases ih _ h with h | h
      · rcases Table.mem_insert h with rfl | h
        · exact .inr List.mem_cons_self
        · exact .inl h
      · exact .inr (List.mem_cons_of_mem p h)
  exact (hfold pairs [] h).resolve_left fun h => by cases h

theorem Table.mem_sorted {α : Type} {t : Table α} {x : String × α} : x ∈ Table.sorted t ↔ x ∈ t := List.mem_mergeSort

theorem fieldsEqual_congr {equal equal' : Value → Value → Except Stop Bool} {right : Table Value} :
    ∀ left : Table Value, (∀ x ∈ left, ∀ y ∈ right, equal x.2 y.2 = equal' x.2 y.2) →
      fieldsEqual equal right left = fieldsEqual equal' right left
  | [], _ => rfl
  | (name, v) :: rest, h => by
    unfold fieldsEqual
    rw [fieldsEqual_congr rest fun x hx => h x (List.mem_cons_of_mem _ hx)]
    cases hg : Table.get? right name with
    | none => rfl
    | some u => simp only [h (name, v) List.mem_cons_self (name, u) (Table.mem_of_get? hg)]

theorem fieldTexts_congr {render render' : Value → Except Stop String} :
    ∀ t : Table Value, (∀ x ∈ t, render x.2 = render' x.2) → fieldTexts render t = fieldTexts render' t
  | [], _ => rfl
  | (name, v) :: rest, h => by
    unfold fieldTexts
    rw [h (name, v) List.mem_cons_self, fieldTexts_congr rest fun x hx => h x (List.mem_cons_of_mem _ hx)]

namespace Pairing

variable {P : Pairing}

namespace Lawful

theorem equalWithin_eq (L : P.Lawful) {w : P.World} {s t : State} (hst : P.Sim w s t) :
    ∀ (n : Nat) (l r : Value), P.Fine w l → P.Fine w r → s.store.equalWithin n l r = t.store.equalWithin n l r
  | 0, _, _, _, _ => rfl
  | n + 1, l, r, hl, hr => by
    cases l with
    | object a =>
      cases r with
      | object b =>
        obtain ⟨hfa, hna⟩ := L.fields hst hl
        obtain ⟨hfb, hnb⟩ := L.fields hst hr
        show (if (s.store.fields a).length ≠ (s.store.fields b).length then Except.ok false
            else fieldsEqual (s.store.equalWithin n) (s.store.fields b) (s.store.fields a)) =
          (if (t.store.fields a).length ≠ (t.store.fields b).length then Except.ok false
            else fieldsEqual (t.store.equalWithin n) (t.store.fields b) (t.store.fields a))
        rw [← hfa, ← hfb, fieldsEqual_congr (s.store.fields a) fun x hx y hy =>
          L.equalWithin_eq hst n x.2 y.2 (hna x hx) (hnb y hy)]
      | number _ | boolean _ | string _ | null | closure _ | native _ => rfl
    | number _ | boolean _ | string _ | null | closure _ | native _ => cases r <;> rfl

theorem binary_eq (L : P.Lawful) {w : P.World} {s t : State} {l r : Value} (op : BinaryOp) (hst : P.Sim w s t)
    (hl : P.Fine w l) (hr : P.Fine w r) : op.apply s.store l r = op.apply t.store l r := by
  cases op.means with
  | equality f hf =>
    rw [hf, hf, Store.equal, Store.equal, ← L.objects_size hst, L.equalWithin_eq hst _ l r hl hr]
  | number f hf | relation f hf | logic f hf => rw [hf, hf]
  | nothing _ hf => rw [hf, hf]

theorem binary_inStep (L : P.Lawful) {w : P.World} {l r : Value} {op : BinaryOp} (hop : P.MayMeet (.binary op))
    (hl : P.Fine w l) (hr : P.Fine w r) :
    P.InStep w P.Fine (Run.consult (op.apply · l r)) (Run.consult (op.apply · l r)) := by
  refine L.consult_inStep (fun s t hst => L.binary_eq op hst hl hr) (fun s v hv => ?_) fun s t x hst hx => ?_
  · rcases BinaryOp.apply_ok hv with ⟨x, rfl⟩ | ⟨b, rfl⟩
    · exact L.fine_number w x
    · exact L.fine_boolean w b
  · rcases BinaryOp.stop_of_apply hx with hlocal | ⟨hunknown, rfl⟩
    · exact L.stop hst hlocal
    · exact hop.resolve_left hunknown hst

theorem unary_inStep (L : P.Lawful) {w : P.World} {op : UnaryOp} (hop : P.MayMeet (.unary op)) (v : Value) :
    P.InStep w P.Fine (Run.ofExcept (op.apply v)) (Run.ofExcept (op.apply v)) := by
  cases h : op.apply v with
  | ok u =>
    rcases UnaryOp.apply_ok h with ⟨x, rfl⟩ | ⟨b, rfl⟩
    · exact L.pure_inStep (L.fine_number w x)
    · exact L.pure_inStep (L.fine_boolean w b)
  | error x =>
    rcases UnaryOp.stop_of_apply h with hlocal | ⟨hunknown, rfl⟩
    · exact L.throw_inStep hlocal
    · exact fun s t hst => .stopped (hop.resolve_left hunknown hst)

theorem displayWithin_eq (L : P.Lawful) {w : P.World} {s t : State} (hst : P.Sim w s t) :
    ∀ (n : Nat) (v : Value), P.Fine w v → s.store.displayWithin n v = t.store.displayWithin n v
  | 0, _, _ => rfl
  | n + 1, v, hv => by
    cases v with
    | object o =>
      obtain ⟨hfields, hfine⟩ := L.fields hst hv
      unfold Store.displayWithin
      rw [← hfields, fieldTexts_congr _ fun x hx => L.displayWithin_eq hst n x.2 (hfine x (Table.mem_sorted.1 hx))]
    | number _ | boolean _ | string _ | null | closure _ | native _ => rfl

theorem display_inStep (L : P.Lawful) {w : P.World} {v : Value} (hv : P.Fine w v) :
    P.InStep w (fun _ _ => True) (Run.consult (·.display v)) (Run.consult (·.display v)) := by
  refine L.consult_inStep (fun s t hst => ?_) (fun _ _ _ => trivial)
    fun s t x hst hx => L.stop hst ((s.store.displayWithin_onlyLocal _ v).of_error hx)
  unfold Store.display
  rw [← L.objects_size hst, L.displayWithin_eq hst _ v hv]

theorem fine_headD (L : P.Lawful) {w : P.World} {args : List Value} (h : P.FineAll w args) :
    P.Fine w (args.headD .null) := by
  cases args with
  | nil => exact L.fine_null w
  | cons v rest => exact h v List.mem_cons_self

theorem fine_getD (L : P.Lawful) {w : P.World} {args : List Value} (i : Nat) (h : P.FineAll w args) :
    P.Fine w (args.getD i .null) := by
  rw [List.getD_eq_getElem?_getD]
  cases hi : args[i]? with
  | none => exact L.fine_null w
  | some v => exact h v (List.mem_of_getElem? hi)

theorem parsedNumber_fine (L : P.Lawful) (w : P.World) (v : Value) : P.FineTable w (parsedNumber v) := by
  have hany : ∀ x : Float, P.FineTable w
      (if x.isNaN then [("isValid", .boolean false)] else [("isValid", .boolean true), ("value", .number x)]) := by
    intro x a ha
    split at ha
    · rw [List.mem_singleton.1 ha]
      exact L.fine_boolean w false
    · rcases List.mem_cons.1 ha with rfl | ha
      · exact L.fine_boolean w true
      · rw [List.mem_singleton.1 ha]
        exact L.fine_number w x
  exact hany _

end Lawful

/-! ## Tables of fine values -/

theorem FineTable.insert {w : P.World} {t : Table Value} {v : Value} (name : String) (ht : P.FineTable w t)
    (hv : P.Fine w v) : P.FineTable w (Table.insert t name v) := by
  intro x hx
  rcases Table.mem_insert hx with rfl | hx
  · exact hv
  · exact ht x hx

theorem FineTable.ofPairs {w : P.World} {pairs : List (String × Value)} (h : P.FineTable w pairs) :
    P.FineTable w (Table.ofPairs pairs) :=
  fun x hx => h x (Table.mem_of_mem_ofPairs hx)

theorem toFields_fine {w : P.World} {r : HostResult} {fields : Table Value} (h : P.FineResult w r)
    (hf : r.toFields = .ok fields) : P.FineTable w fields := by
  have hempty : P.FineTable w [] := fun _ hx => by cases hx
  unfold HostResult.toFields at hf
  split at hf
  · cases hf; exact h
  · cases hf; exact hempty
  · cases hf; exact hempty
  · cases hf; exact hempty
  · split at hf
    · cases hf; exact hempty
    · cases hf
  · cases hf

/-! ## The host in step -/

/-- What a pairing has to know, besides, about reading, writing and the clock. -/
structure StreamLawful (P : Pairing) : Prop extends P.Lawful where
  write : ∀ {w s t} (text : String), P.Sim w s t →
    P.Sim w { s with output := s.output ++ text } { t with output := t.output ++ text }
  readLine : ∀ {w s t}, P.Sim w s t → s.input.next.1 = t.input.next.1 ∧ P.Sim w s.told t.told
  readClock : ∀ {w s t}, P.Sim w s t → s.clock.next.1 = t.clock.next.1 ∧ P.Sim w s.ticked t.ticked

namespace StreamLawful

theorem write_inStep (S : P.StreamLawful) {w : P.World} (text : String) :
    P.InStep w (fun _ _ => True) (Run.write text) (Run.write text) :=
  fun _ _ hst => .done (S.later_refl w) (S.write text hst) trivial

theorem readLine_inStep (S : P.StreamLawful) {w : P.World} :
    P.InStep w (fun _ _ => True) Run.readLine Run.readLine := by
  intro s t hst
  obtain ⟨hline, hst'⟩ := S.readLine hst
  show P.Ends w _ (.ok s.input.next.1 s.told) (.ok t.input.next.1 t.told)
  rw [← hline]
  exact .done (S.later_refl w) hst' trivial

theorem readClock_inStep (S : P.StreamLawful) {w : P.World} :
    P.InStep w (fun _ _ => True) Run.readClock Run.readClock := by
  intro s t hst
  obtain ⟨hreading, hst'⟩ := S.readClock hst
  unfold Run.readClock
  rw [← hreading]
  cases s.clock.next.1 with
  | some x => exact .done (S.later_refl w) hst' trivial
  | none => exact .stopped (S.stop hst' trivial)

end StreamLawful

/-- What it has to know when the host may do anything it can. -/
structure HostLawful (P : Pairing) : Prop extends P.StreamLawful where
  native : ∀ w f, P.Fine w (.native f)
  emptyClosure : ∀ {w e} (name : String) (params : List String), P.Here w e → P.Fine w (.closure ⟨name, params, [], e⟩)
  fault : ∀ {w s t} (f : Fault), P.Sim w s t → P.Stopped w (.fault f) s t
  turn : ∀ {w s t}, P.Sim w s t → s.turns = t.turns ∧ P.Sim w s.turned t.turned

namespace HostLawful

theorem mayMeet (H : P.HostLawful) (x : Label) : P.MayMeet x := .inr fun hst => H.fault _ hst

theorem takeTurn_inStep (H : P.HostLawful) {w : P.World} :
    P.InStep w (fun _ _ => True) Run.takeTurn Run.takeTurn := by
  intro s t hst
  obtain ⟨hturn, hst'⟩ := H.turn hst
  show P.Ends w _ (.ok s.turns s.turned) (.ok t.turns t.turned)
  rw [← hturn]
  exact .done (H.later_refl w) hst' trivial

theorem ofFault_inStep {α : Type} (H : P.HostLawful) {w : P.World} {G : P.World → α → Prop} {r : Except Fault α}
    (h : ∀ a, r = .ok a → G w a) : P.InStep w G (Run.ofFault r) (Run.ofFault r) := by
  cases r with
  | ok a => exact H.pure_inStep (h a rfl)
  | error f => exact fun s t hst => .stopped (H.fault f hst)

theorem onStore_build_object (fields : List (String × Blueprint)) :
    Run.onStore (Blueprint.build (.object fields)) = (do
      let values ← Run.onStore (Blueprint.buildFields fields)
      return .object (← Run.onStore (·.newObject values))) := rfl

theorem onStore_build_closure (name : String) (params : List String) :
    Run.onStore (Blueprint.build (.closure name params)) = (do
      return .closure ⟨name, params, [], ← Run.onStore (·.newScope none)⟩) := rfl

theorem onStore_buildFields_cons (name : String) (b : Blueprint) (rest : List (String × Blueprint)) :
    Run.onStore (Blueprint.buildFields ((name, b) :: rest)) = (do
      let v ← Run.onStore b.build
      return (name, v) :: (← Run.onStore (Blueprint.buildFields rest))) := rfl

mutual

theorem build_inStep (H : P.HostLawful) (w : P.World) :
    ∀ b : Blueprint, P.InStep w P.Fine (Run.onStore b.build) (Run.onStore b.build)
  | .number x => H.pure_inStep (H.fine_number w x)
  | .boolean b => H.pure_inStep (H.fine_boolean w b)
  | .string s => H.pure_inStep (H.fine_string w s)
  | .null => H.pure_inStep (H.fine_null w)
  | .object fields => by
    rw [onStore_build_object]
    refine H.bind_inStep (H.buildFields_inStep w fields) fun w₁ values _ hvalues => ?_
    exact H.bind_inStep (H.newObject_inStep hvalues) fun w₂ o _ ho => H.pure_inStep ho
  | .closure name params => by
    rw [onStore_build_closure]
    exact H.bind_inStep (H.newScope_inStep fun a ha => by cases ha) fun w₁ e _ he =>
      H.pure_inStep (H.emptyClosure name params (he []).1)
  | .native name params returns => H.pure_inStep (H.native w _)

theorem buildFields_inStep (H : P.HostLawful) (w : P.World) : ∀ fields : List (String × Blueprint),
    P.InStep w P.FineTable (Run.onStore (Blueprint.buildFields fields)) (Run.onStore (Blueprint.buildFields fields))
  | [] => H.pure_inStep (G := P.FineTable) fun _ h => by cases h
  | (name, b) :: rest => by
    rw [onStore_buildFields_cons]
    refine H.bind_inStep (H.build_inStep w b) fun w₁ v _ hv => ?_
    refine H.bind_inStep (H.buildFields_inStep w₁ rest) fun w₂ values hw hvalues => ?_
    refine H.pure_inStep fun x hx => ?_
    rcases List.mem_cons.1 hx with rfl | hx
    · exact H.fine_mono hw hv
    · exact hvalues x hx

end

/-- What the host sees of a value is the same on both sides, and what comes to hand with it may turn up. -/
theorem look_inStep (H : P.HostLawful) {w : P.World} {v : Value} (hv : P.Fine w v) :
    P.InStep w (fun w seen => P.FineAll w seen.2) (Run.ask fun s => (Deed.sight s v, Deed.within s v))
      (Run.ask fun s => (Deed.sight s v, Deed.within s v)) := by
  refine H.ask_inStep fun s t hst => ?_
  cases v with
  | object o =>
    obtain ⟨heq, hfine⟩ := H.fields hst hv
    refine ⟨by simp only [Deed.sight, Deed.within, heq], fun u hu => ?_⟩
    obtain ⟨x, hx, rfl⟩ := List.mem_map.1 hu
    exact hfine x hx
  | number _ | boolean _ | string _ | null | closure _ | native _ => exact ⟨rfl, fun _ hu => by cases hu⟩

theorem fineAll_append {w : P.World} {hand more : List Value} (h : P.FineAll w hand) (hmore : P.FineAll w more) :
    P.FineAll w (hand ++ more) :=
  List.forall_mem_append.2 ⟨h, hmore⟩

/-- **Whatever deed an embedding program does, it does on both sides.** -/
theorem deed_inStep (H : P.HostLawful) : ∀ (deed : Deed) {w : P.World} {hand : List Value}, P.FineAll w hand →
    P.InStep w P.FineResult (deed.perform hand) (deed.perform hand)
  | .answer _, _, _, _ => H.pure_inStep trivial
  | .answerFields fields, w, hand, h => by
    refine H.pure_inStep (FineTable.ofPairs fun x hx => ?_)
    obtain ⟨f, -, rfl⟩ := List.mem_map.1 hx
    exact H.fine_getD f.2 h
  | .abort _, _, _, _ => fun s t hst => .stopped (H.fault _ hst)
  | .write text next, _, _, h => H.bind_inStep (H.write_inStep text) fun w₁ _ hw _ =>
    H.deed_inStep next fun v hv => H.fine_mono hw (h v hv)
  | .readLine next, _, _, h => H.bind_inStep H.readLine_inStep fun w₁ line hw _ =>
    H.deed_inStep (next line) fun v hv => H.fine_mono hw (h v hv)
  | .look i next, _, _, h => H.bind_inStep (H.look_inStep (H.fine_getD i h)) fun w₁ seen hw hseen =>
    H.deed_inStep (next seen.1) (fineAll_append (fun v hv => H.fine_mono hw (h v hv)) hseen)
  | .compare _ _ next, _, _, h => H.deed_inStep (next _) h
  | .make b next, w, _, h => H.bind_inStep (H.build_inStep w b) fun w₁ v hw hv =>
    H.deed_inStep next (fineAll_append (fun u hu => H.fine_mono hw (h u hu)) (List.forall_mem_singleton.2 hv))
  | .makeNative _ _ _ _ next, w, _, h =>
    H.deed_inStep next (fineAll_append h (List.forall_mem_singleton.2 (H.native w _)))
  | .setField i name j next, w, hand, h => by
    have hv := H.fine_getD i h
    simp only [Deed.perform]
    cases hi : hand.getD i .null with
    | object o =>
      rw [hi] at hv
      refine H.bind_inStep (H.change_inStep (G := fun _ _ => True) (fun s t hst => ?_) trivial) fun w₁ _ hw _ =>
        H.deed_inStep next fun v hv => H.fine_mono hw (h v hv)
      exact H.setField name hst hv (H.fine_getD j h)
    | number _ | boolean _ | string _ | null | closure _ | native _ => exact fun s t hst => .stopped (H.fault _ hst)

/-- **Whatever the host does, it does on both sides.** -/
theorem perform_inStep (H : P.HostLawful) {w : P.World} {args : List Value} (h : P.FineAll w args)
    (action : HostAction) : P.InStep w P.FineResult (action.perform args) (action.perform args) := by
  cases action with
  | print =>
    refine H.bind_inStep (H.display_inStep (H.fine_headD h)) fun w₁ text _ _ => ?_
    exact H.bind_inStep (H.write_inStep _) fun w₂ _ _ _ => H.pure_inStep trivial
  | clock => exact H.bind_inStep H.readClock_inStep fun w₁ reading _ _ => H.pure_inStep trivial
  | parseNumber => exact H.pure_inStep (H.parsedNumber_fine w _)
  | readLine => exact H.bind_inStep H.readLine_inStep fun w₁ line _ _ => H.pure_inStep trivial
  | own act =>
    exact H.bind_inStep H.takeTurn_inStep fun w₁ turn hw _ =>
      H.deed_inStep (act turn) fun v hv => H.fine_mono hw (h v hv)

theorem wrap_inStep (H : P.HostLawful) {w : P.World} {r : HostResult} (returns : String) (h : P.FineResult w r) :
    P.InStep w P.Fine (r.wrap returns) (r.wrap returns) := by
  unfold HostResult.wrap
  cases Kind.ofLabel? returns with
  | none => exact fun s t hst => .stopped (H.fault _ hst)
  | some kind =>
    cases kind with
    | number => exact H.bind_inStep (G := fun _ _ => True) (H.ofFault_inStep fun _ _ => trivial) fun w₁ x _ _ =>
        H.pure_inStep (H.fine_number w₁ x)
    | boolean => exact H.pure_inStep (H.fine_boolean w _)
    | string => exact H.pure_inStep (H.fine_string w _)
    | null => exact H.pure_inStep (H.fine_null w)
    | object =>
      refine H.bind_inStep (G := P.FineTable) (H.ofFault_inStep fun fields hf => ?_) fun w₁ fields _ hfields => ?_
      · exact toFields_fine h hf
      · exact H.bind_inStep (H.newObject_inStep hfields) fun w₂ o _ ho => H.pure_inStep ho
    | closure | native => exact fun s t hst => .stopped (H.fault _ hst)

/-- **A call of the host is in step.** -/
theorem call_inStep (H : P.HostLawful) {w : P.World} {args : List Value} (f : NativeFunction)
    (h : P.FineAll w args) : P.InStep w P.Fine (f.call args) (f.call args) := by
  unfold NativeFunction.call
  split
  · exact H.fail_inStep trivial
  · split
    · exact H.fail_inStep trivial
    · exact H.bind_inStep (H.perform_inStep h f.action) fun w₁ answer _ ha => H.wrap_inStep f.returns ha

end HostLawful
end Pairing
end Thicket
