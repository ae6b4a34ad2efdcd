import Thicket.Proofs.Equality
import Thicket.Proofs.PairedHost
/-!
# Equality and the order of fields

Objects are compared in the order of the fields of the left one, and the first field that is not equal decides.  So the
order does not matter to whether two values are equal.  It does matter where they are not: if one field differs and
another cannot be compared, the comparison says "different" or fails, whichever comes first (`verdict_by_order`).  That
is the only way in which order matters: the answer is the same in every order exactly if the values do not both differ
and clash (`equal_ignores_order_iff`).
-/
namespace Thicket

/-! ## Values in another order -/

/-- The second value, in the second store, is the first one with the fields of any of its objects in any order. -/
inductive Rearranged (s s' : Store) : Value → Value → Prop
  | atom {v : Value} : (∀ o, v ≠ .object o) → Rearranged s s' v v
  | object {a a' : ObjectId} : (Table.names (s'.fields a')).Perm (Table.names (s.fields a)) →
      (∀ name v v', Table.get? (s.fields a) name = some v → Table.get? (s'.fields a') name = some v' →
        Rearranged s s' v v') → Rearranged s s' (.object a) (.object a')

/-- The fields of the two objects are the same but for their order, there and further down. -/
structure FieldsRearranged (s s' : Store) (a a' : ObjectId) : Prop where
  length : (s'.fields a').length = (s.fields a).length
  missing : ∀ {name}, Table.get? (s.fields a) name = none → Table.get? (s'.fields a') name = none
  found : ∀ {name v}, Table.get? (s.fields a) name = some v →
    ∃ v', Table.get? (s'.fields a') name = some v' ∧ Rearranged s s' v v'

namespace Rearranged

variable {s s' : Store} {v v' w w' : Value} {a b : ObjectId}

theorem symm (h : Rearranged s s' v v') : Rearranged s' s v' v := by
  induction h with
  | atom h => exact .atom h
  | object hperm _ ih => exact .object hperm.symm fun name u' u hu' hu => ih name u u' hu hu'

theorem kind_eq (h : Rearranged s s' v v') : v'.kind = v.kind := by cases h <;> rfl

theorem isCallable_eq (h : Rearranged s s' v v') : v'.isCallable = v.isCallable := by cases h <;> rfl

theorem ne_null (h : Rearranged s s' v v') (hv : v ≠ .null) : v' ≠ .null := by
  cases h with
  | atom => exact hv
  | object => exact fun h => by cases h

theorem of_object (h : Rearranged s s' (.object a) v') : ∃ a', v' = .object a' ∧ FieldsRearranged s s' a a' := by
  cases h with
  | atom h => exact absurd rfl (h a)
  | @object _ a' hperm hfields =>
    refine ⟨a', rfl, ?_, fun {name} hnone => ?_, fun {name u} hu => ?_⟩
    · rw [← Table.length_names, ← Table.length_names]
      exact hperm.length_eq
    · rw [Table.get?_eq_none_iff] at hnone ⊢
      exact fun hmem => hnone (hperm.mem_iff.1 hmem)
    · have hmem := hperm.mem_iff.2 (Table.mem_names_of_mem (Table.mem_of_get? hu))
      obtain ⟨u', hu'⟩ := Option.isSome_iff_exists.1 ((Table.get?_isSome_iff _ _).2 hmem)
      exact ⟨u', hu', hfields name u u' hu hu'⟩

/-- What stands under one name in two objects of the same size does so in another order of both. -/
theorem of_field (hv : Rearranged s s' (.object a) v') (hw : Rearranged s s' (.object b) w') {name : String}
    {u x : Value} (hsize : (s.fields a).length = (s.fields b).length) (hmem : (name, u) ∈ s.fields a)
    (hget : Table.get? (s.fields b) name = some x) :
    ∃ a' b' u' x', v' = .object a' ∧ w' = .object b' ∧ (s'.fields a').length = (s'.fields b').length ∧
      (name, u') ∈ s'.fields a' ∧ Table.get? (s'.fields b') name = some x' ∧
        Rearranged s s' u u' ∧ Rearranged s s' x x' := by
  obtain ⟨a', rfl, ha⟩ := hv.of_object
  obtain ⟨b', rfl, hb⟩ := hw.of_object
  obtain ⟨u', hu', hu⟩ := ha.found ((Table.get?_eq_some_iff (s.nodup_names_fields _)).2 hmem)
  obtain ⟨x', hx', hx⟩ := hb.found hget
  exact ⟨a', b', u', x', rfl, rfl, by rw [ha.length, hb.length, hsize], Table.mem_of_get? hu', hx', hu, hx⟩

/-- A value that has another order at all is not nested in itself. -/
theorem acyclic (h : Rearranged s s' v v') : s.Acyclic v := by
  induction h with
  | atom h => exact Store.acyclic_of_ne_object h
  | @object a a' hperm hfields ih =>
    refine Store.acyclic_of_fields fun x hx => ?_
    obtain ⟨_, ⟨⟩, hfound⟩ := (Rearranged.object hperm hfields).of_object
    have hget := (Table.get?_eq_some_iff (s.nodup_names_fields a)).2 hx
    obtain ⟨u', hu', -⟩ := hfound.found hget
    exact ih x.1 x.2 u' hget hu'

/-! Neither differing nor clashing depends on an order. -/

theorem differs (h : Differs s v w) (hv : Rearranged s s' v v') (hw : Rearranged s s' w w') :
    Differs s' v' w' := by
  induction h generalizing v' w' with
  | nullLeft hne hcall =>
    cases hv
    exact .nullLeft (hw.ne_null hne) (hw.isCallable_eq.trans hcall)
  | nullRight hne hcall =>
    cases hw
    exact .nullRight (hv.ne_null hne) (hv.isCallable_eq.trans hcall)
  | booleans hne =>
    cases hv
    cases hw
    exact .booleans hne
  | numbers hne =>
    cases hv
    cases hw
    exact .numbers hne
  | sizes hsize =>
    obtain ⟨a', rfl, ha⟩ := hv.of_object
    obtain ⟨b', rfl, hb⟩ := hw.of_object
    exact .sizes (by rwa [ha.length, hb.length])
  | missing hsize hmem hnone =>
    obtain ⟨a', rfl, ha⟩ := hv.of_object
    obtain ⟨b', rfl, hb⟩ := hw.of_object
    obtain ⟨u', hu', -⟩ := ha.found ((Table.get?_eq_some_iff (s.nodup_names_fields _)).2 hmem)
    exact .missing (by rw [ha.length, hb.length, hsize]) (Table.mem_of_get? hu') (hb.missing hnone)
  | field hsize hmem hget _ ih =>
    obtain ⟨a', b', u', x', rfl, rfl, hsize', hmem', hget', hu, hx⟩ := hv.of_field hw hsize hmem hget
    exact .field hsize' hmem' hget' (ih hu hx)

theorem clashes (h : Clashes s v w) (hv : Rearranged s s' v v') (hw : Rearranged s s' w w') :
    Clashes s' v' w' := by
  induction h generalizing v' w' with
  | functionLeft hcall => exact .functionLeft (hv.isCallable_eq.trans hcall)
  | functionRight hcall => exact .functionRight (hw.isCallable_eq.trans hcall)
  | kinds hnv hnw hkind => exact .kinds (hv.ne_null hnv) (hw.ne_null hnw) (by rwa [hv.kind_eq, hw.kind_eq])
  | field hsize hmem hget _ ih =>
    obtain ⟨a', b', u', x', rfl, rfl, hsize', hmem', hget', hu, hx⟩ := hv.of_field hw hsize hmem hget
    exact .field hsize' hmem' hget' (ih hu hx)

theorem differs_iff (hv : Rearranged s s' v v') (hw : Rearranged s s' w w') :
    Differs s' v' w' ↔ Differs s v w :=
  ⟨fun h => differs h hv.symm hw.symm, fun h => differs h hv hw⟩

theorem clashes_iff (hv : Rearranged s s' v v') (hw : Rearranged s s' w w') :
    Clashes s' v' w' ↔ Clashes s v w :=
  ⟨fun h => clashes h hv.symm hw.symm, fun h => clashes h hv hw⟩

end Rearranged

/-! ## The field that comes first

To see that an order matters one has to find that order.  In it, on the way down to the pair that decides, each object
of the left value has the field that leads there in the first place. -/

/-- The same objects, each with its fields in any order. -/
structure Reordered (s s' : Store) : Prop where
  size : s'.objects.size = s.objects.size
  perm : ∀ o, (s'.fields o).Perm (s.fields o)

def Store.withFields (s : Store) (o : ObjectId) (record : Record) : Store :=
  { s with objects := s.objects.modify o fun _ => record }

theorem Store.fields_withFields (s : Store) {o : ObjectId} (ho : o < s.objects.size) (record : Record) (a : ObjectId) :
    (s.withFields o record).fields a = if a = o then record.table else s.fields a := by
  unfold fields withFields
  by_cases h : a = o
  · subst h
    simp [ho, Array.getElem_modify]
  · have hne : ¬ o = a := fun heq => h heq.symm
    simp [Array.getElem?_modify, h, hne]

namespace Reordered

variable {s s' : Store} {v w : Value} {a b : ObjectId} {n : Nat}

theorem refl (s : Store) : Reordered s s := ⟨rfl, fun _ => .refl _⟩

theorem holds_eq (h : Reordered s s') : s'.Holds = s.Holds := by
  funext a b
  unfold Store.Holds
  simp only [(h.perm a).mem_iff]

theorem rearranged (h : Reordered s s') : ∀ {n : Nat} {v : Value}, s.NestedWithin n v → Rearranged s s' v v
  | n + 1, v, hn => by
    cases v with
    | object a =>
      refine .object ((h.perm a).map Prod.fst) fun name u u' hu hu' => ?_
      rw [Table.get?_perm (h.perm a) (s.nodup_names_fields a), hu] at hu'
      cases hu'
      exact h.rearranged (hn.field (Table.mem_of_get? hu))
    | number _ | boolean _ | string _ | null | closure _ | native _ => exact .atom fun _ ho => by cases ho

/-- One field of one object is moved to the first place. -/
theorem exists_front (h : Reordered s s') {x : String × Value} (hx : x ∈ s.fields a) :
    ∃ s₂ rest, Reordered s s₂ ∧ s₂.fields a = x :: rest ∧ ∀ o, o ≠ a → s₂.fields o = s'.fields o := by
  obtain ⟨before, after, hsplit⟩ := List.append_of_mem ((h.perm a).mem_iff.2 hx)
  have ha : a < s'.objects.size := h.size ▸ Store.lt_size_of_mem_fields hx
  have hperm : (x :: (before ++ after)).Perm (s'.fields a) := List.perm_middle.symm.trans (.of_eq hsplit.symm)
  let front : Record := ⟨x :: (before ++ after), Table.nodup_names_of_perm hperm (s'.nodup_names_fields a)⟩
  have hfields := s'.fields_withFields ha front
  refine ⟨s'.withFields a front, before ++ after, ⟨?_, fun o => ?_⟩, ?_, fun o ho => ?_⟩
  · rw [← h.size]
    simp [Store.withFields]
  · rw [hfields]
    split
    · rename_i ho
      rw [ho]
      exact hperm.trans (h.perm a)
    · exact h.perm o
  · rw [hfields, if_pos rfl]
  · rw [hfields, if_neg ho]

end Reordered

theorem fieldsEqual_congr_right {equal : Value → Value → Except Stop Bool} {right right' : Table Value}
    (h : ∀ name, Table.get? right' name = Table.get? right name) : ∀ left : Table Value,
    fieldsEqual equal right' left = fieldsEqual equal right left
  | [] => rfl
  | (name, v) :: rest => by
    unfold fieldsEqual
    rw [h name, fieldsEqual_congr_right h rest]

theorem equalWithin_objects (s : Store) (n : Nat) (a b : ObjectId) :
    s.equalWithin (n + 1) (.object a) (.object b) =
      if (s.fields a).length ≠ (s.fields b).length then .ok false
      else fieldsEqual (s.equalWithin n) (s.fields b) (s.fields a) := rfl

/-- In another order of the objects, a comparison begins with another field. -/
theorem equalWithin_front {s s' : Store} (h : Reordered s s') {a b : ObjectId} {first : String × Value}
    {rest : Table Value} (hsize : (s.fields a).length = (s.fields b).length) (hfront : s'.fields a = first :: rest)
    (n : Nat) :
    s'.equalWithin (n + 1) (.object a) (.object b) = fieldsEqual (s'.equalWithin n) (s.fields b) (first :: rest) := by
  rw [equalWithin_objects, (h.perm a).length_eq, (h.perm b).length_eq, if_neg (not_not_intro hsize), hfront,
    fieldsEqual_congr_right (Table.get?_perm (h.perm b) (s.nodup_names_fields b))]

/-- Of the order of fields, only that in the left value is looked at. -/
theorem equalWithin_reordered {s s' : Store} (h : Reordered s s') : ∀ (n : Nat) (v w : Value),
    (∀ o, s.Reaches v o → s'.fields o = s.fields o) → s'.equalWithin n v w = s.equalWithin n v w
  | 0, _, _, _ => rfl
  | n + 1, v, w, hsame => by
    cases v with
    | object a =>
      cases w with
      | object b =>
        have ha := hsame a (s.reaches_self a)
        rw [equalWithin_objects, equalWithin_objects, ha, (h.perm b).length_eq,
          fieldsEqual_congr_right (Table.get?_perm (h.perm b) (s.nodup_names_fields b)),
          fieldsEqual_congr (s.fields a) fun x hx y _ => equalWithin_reordered h n x.2 y.2 fun o ho =>
            hsame o (ho.of_field hx)]
      | number _ | boolean _ | string _ | null | closure _ | native _ => rfl
    | number _ | boolean _ | string _ | null | closure _ | native _ => cases w <;> rfl

/-- An ending of the comparison under one name, other than "equal", becomes that of the objects, in some order. -/
theorem exists_order_of_field {s s₁ : Store} {a b : ObjectId} {x : String × Value} {w : Value} {r : Except Stop Bool}
    (ha : s.Acyclic (.object a)) (hsize : (s.fields a).length = (s.fields b).length)
    (hx : x ∈ s.fields a) (hw : Table.get? (s.fields b) x.1 = some w) (h₁ : Reordered s s₁) (hr : r ≠ .ok true)
    (heq : ∀ n, s.NestedWithin n x.2 → s₁.equalWithin n x.2 w = r) :
    ∃ s₂, Reordered s s₂ ∧ ∀ n, s.NestedWithin n (.object a) → s₂.equalWithin n (.object a) (.object b) = r := by
  obtain ⟨s₂, rest, h₂, hfront, hother⟩ := h₁.exists_front hx
  refine ⟨s₂, h₂, fun n hn => ?_⟩
  cases n with
  | zero => exact absurd hn id
  | succ n =>
    -- the object itself is not met again on the way down from its own field
    have hbelow : s₂.equalWithin n x.2 w = r := by
      have h₁₂ : Reordered s₁ s₂ := ⟨h₂.size.trans h₁.size.symm, fun o => (h₂.perm o).trans (h₁.perm o).symm⟩
      rw [equalWithin_reordered h₁₂ n x.2 w fun o ho => hother o ?_, heq n (hn.field hx)]
      rintro rfl
      refine ha.not_reaches_of_field hx ?_
      unfold Store.Reaches at ho ⊢
      rwa [h₁.holds_eq] at ho
    rw [equalWithin_front h₂ hsize hfront, fieldsEqual, hw]
    simp only [hbelow]
    cases r with
    | error e => rfl
    | ok b =>
      cases b with
      | true => exact absurd rfl hr
      | false => rfl

/-- An ending that does not depend on what is in the objects is there in the order as it is. -/
theorem exists_order_of_outright {s : Store} {v w : Value} {r : Except Stop Bool}
    (h : ∀ n, s.equalWithin (n + 1) v w = r) :
    ∃ s', Reordered s s' ∧ ∀ n, s.NestedWithin n v → s'.equalWithin n v w = r := by
  refine ⟨s, .refl s, fun n hn => ?_⟩
  cases n with
  | zero => exact absurd hn id
  | succ n => exact h n

theorem Differs.exists_order {s : Store} {v w : Value} (h : Differs s v w) (hv : s.Acyclic v) :
    ∃ s', Reordered s s' ∧ ∀ n, s.NestedWithin n v → s'.equalWithin n v w = .ok false := by
  induction h with
  | @nullLeft w hne hcall =>
    refine exists_order_of_outright fun n => ?_
    cases w <;> first | rfl | exact absurd rfl hne | cases hcall
  | @nullRight v hne hcall =>
    refine exists_order_of_outright fun n => ?_
    cases v <;> first | rfl | exact absurd rfl hne | cases hcall
  | booleans hne => exact exists_order_of_outright fun n => congrArg Except.ok (beq_eq_false_iff_ne.2 hne)
  | numbers hne => exact exists_order_of_outright fun n => congrArg Except.ok hne
  | sizes hsize => exact exists_order_of_outright fun n => by rw [equalWithin_objects, if_pos hsize]
  | @missing a b name v hsize hmem hnone =>
    obtain ⟨s₂, rest, h₂, hfront, -⟩ := (Reordered.refl s).exists_front hmem
    refine ⟨s₂, h₂, fun n hn => ?_⟩
    cases n with
    | zero => exact absurd hn id
    | succ n =>
      rw [equalWithin_front h₂ hsize hfront, fieldsEqual, hnone]
  | field hsize hmem hget _ ih =>
    obtain ⟨s₁, h₁, heq⟩ := ih (hv.field hmem)
    exact exists_order_of_field hv hsize hmem hget h₁ (fun h => by cases h) heq

/-- Values that cannot be compared are turned down without a look into them. -/
theorem equalWithin_mismatch {v w : Value}
    (h : v.isCallable = true ∨ w.isCallable = true ∨ v ≠ .null ∧ w ≠ .null ∧ (v.kind ≠ w.kind ∨ v.kind = .string)) :
    ∃ f, ∀ (s : Store) (n : Nat), s.equalWithin (n + 1) v w = .error (.failure f) := by
  cases v <;> cases w <;> first
    | exact ⟨_, fun _ _ => rfl⟩
    | simp [Value.isCallable, Value.kind, Kind.isCallable] at h

theorem Clashes.exists_order {s : Store} {v w : Value} (h : Clashes s v w) (hv : s.Acyclic v) :
    ∃ f s', Reordered s s' ∧ ∀ n, s.NestedWithin n v → s'.equalWithin n v w = .error (.failure f) := by
  induction h with
  | functionLeft hcall =>
    obtain ⟨f, hf⟩ := equalWithin_mismatch (.inl hcall)
    exact ⟨f, exists_order_of_outright (hf s)⟩
  | functionRight hcall =>
    obtain ⟨f, hf⟩ := equalWithin_mismatch (.inr (.inl hcall))
    exact ⟨f, exists_order_of_outright (hf s)⟩
  | kinds hnv hnw hkind =>
    obtain ⟨f, hf⟩ := equalWithin_mismatch (.inr (.inr ⟨hnv, hnw, hkind⟩))
    exact ⟨f, exists_order_of_outright (hf s)⟩
  | field hsize hmem hget _ ih =>
    obtain ⟨f, s₁, h₁, heq⟩ := ih (hv.field hmem)
    exact ⟨f, exists_order_of_field hv hsize hmem hget h₁ (fun h => by cases h) heq⟩

/-! ## Where order matters -/

section

variable {s s' : Store} {left right left' right' : Value}

theorem toOption_eq_of_judged {r r' : Except Stop Bool} (h : Judged s left right r)
    (h' : Judged s' left' right' r') (hdiffers : Differs s' left' right' ↔ Differs s left right)
    (hclashes : Clashes s' left' right' ↔ Clashes s left right)
    (hno : ¬ (Differs s left right ∧ Clashes s left right)) :
    r'.toOption = r.toOption := by
  have htrue : r' = .ok true ↔ r = .ok true := by rw [h.eq_true_iff, h'.eq_true_iff, hdiffers, hclashes]
  cases h with
  | same _ => rw [htrue.2 rfl]
  | differs hd =>
    cases h' with
    | same _ => cases htrue.1 rfl
    | differs _ => rfl
    | clashes hc => exact absurd ⟨hd, hclashes.1 hc⟩ hno
  | clashes hc =>
    cases h' with
    | same _ => cases htrue.1 rfl
    | differs hd => exact absurd ⟨hdiffers.1 hd, hc⟩ hno
    | clashes _ => rfl

/-- The comparison, and with it both operators that rest on it, gives the same whatever the order of the fields. -/
def OrderBlind (s : Store) (left right : Value) : Prop :=
  ∀ s' left' right', Rearranged s s' left left' → Rearranged s s' right right' →
    (s'.equal left' right').toOption = (s.equal left right).toOption ∧
    ∀ op ∈ ([⟨"equals"⟩, ⟨"notEqual"⟩] : List BinaryOp),
      (op.apply s' left' right').toOption = (op.apply s left right).toOption

theorem toOption_map {α β : Type} (g : α → β) (r : Except Stop α) : (r.map g).toOption = r.toOption.map g := by
  cases r <;> rfl

/-- **What the order of fields can change.**  In whatever order the fields of two values stand that are not nested in
themselves, comparing them gives an answer or a type mismatch, and the answer is "equal" in every order or in none.  It
is altogether the same in every order exactly if the values do not both differ in some place and clash in some place. -/
theorem equal_ignores_order_iff (s : Store) (left right : Value) (hl : s.Acyclic left)
    (hr : s.Acyclic right) :
    (∀ s' left' right', Rearranged s s' left left' → Rearranged s s' right right' →
      ((∃ b, s'.equal left' right' = .ok b) ∨
        ∃ expected actual, s'.equal left' right' = .error (.failure (.typeMismatch expected actual))) ∧
      (s'.equal left' right' = .ok true ↔ s.equal left right = .ok true)) ∧
    (OrderBlind s left right ↔ ¬ (Differs s left right ∧ Clashes s left right)) := by
  have hjudged := equal_judged hl right
  refine ⟨fun s' left' right' hleft hright => ?_, fun hsame hboth => ?_,
    fun hno s' left' right' hleft hright => ?_⟩
  · have hjudged' := equal_judged hleft.symm.acyclic right'
    refine ⟨hjudged'.answers, ?_⟩
    rw [hjudged.eq_true_iff, hjudged'.eq_true_iff, hleft.differs_iff hright, hleft.clashes_iff hright]
  · -- one order in which the values are different, and one in which they cannot be compared
    obtain ⟨s₁, h₁, hfalse⟩ := hboth.1.exists_order hl
    obtain ⟨f, s₂, h₂, hfails⟩ := hboth.2.exists_order hl
    have hnested : s.NestedWithin (s.objects.size * s.objects.size + 1) left :=
      hl.nestedWithin.mono (Nat.succ_le_succ (Nat.le_mul_self _))
    have hequal₁ : s₁.equal left right = .ok false := by rw [Store.equal, h₁.size, hfalse _ hnested]
    have hequal₂ : s₂.equal left right = .error (.failure f) := by rw [Store.equal, h₂.size, hfails _ hnested]
    have hsame₁ := (hsame s₁ left right (h₁.rearranged hl.nestedWithin) (h₁.rearranged hr.nestedWithin)).1
    have hsame₂ := (hsame s₂ left right (h₂.rearranged hl.nestedWithin) (h₂.rearranged hr.nestedWithin)).1
    rw [hequal₁, ← hsame₂, hequal₂] at hsame₁
    cases hsame₁
  · have hoption := toOption_eq_of_judged hjudged (equal_judged hleft.symm.acyclic right')
      (hleft.differs_iff hright) (hleft.clashes_iff hright) hno
    refine ⟨hoption, fun op hop => ?_⟩
    simp only [List.mem_cons, List.not_mem_nil, or_false] at hop
    rcases hop with rfl | rfl <;> simp only [BinaryOp.apply_equals, BinaryOp.apply_notEqual, toOption_map, hoption]

end

/-- Three objects: the last is the first with its fields the other way round. -/
def drawer : Store where
  scopes := #[]
  objects :=
    #[.ofPairs [("shut", .boolean true), ("label", .string "x")],
      .ofPairs [("shut", .boolean false), ("label", .string "x")],
      .ofPairs [("label", .string "x"), ("shut", .boolean true)]]

theorem drawer_flat {o a : ObjectId} {x : String × Value} (hx : x ∈ drawer.fields o) : x.2 ≠ .object a := by
  match o with
  | 0 | 1 | 2 =>
    rcases List.mem_cons.1 hx with rfl | hx
    · exact fun ha => by cases ha
    · rw [List.mem_singleton.1 hx]
      exact fun ha => by cases ha
  | _ + 3 => cases hx

theorem drawer_acyclic (o : ObjectId) : drawer.Acyclic (.object o) :=
  Store.acyclic_of_fields fun _ hx => Store.acyclic_of_ne_object fun _ => drawer_flat hx

theorem drawer_not_orderBlind :
    drawer.Acyclic (.object 0) ∧ drawer.Acyclic (.object 1) ∧
      Differs drawer (.object 0) (.object 1) ∧ Clashes drawer (.object 0) (.object 1) ∧
      ¬ OrderBlind drawer (.object 0) (.object 1) := by
  have hdiffers : Differs drawer (.object 0) (.object 1) :=
    .field (v := .boolean true) rfl List.mem_cons_self rfl (.booleans (by decide))
  have hclashes : Clashes drawer (.object 0) (.object 1) :=
    .field (v := .string "x") rfl (List.mem_cons_of_mem _ List.mem_cons_self) rfl
      (.kinds (fun h => by cases h) (fun h => by cases h) (.inr rfl))
  have hiff := (equal_ignores_order_iff drawer _ _ (drawer_acyclic 0) (drawer_acyclic 1)).2
  exact ⟨drawer_acyclic 0, drawer_acyclic 1, hdiffers, hclashes, fun h => hiff.1 h ⟨hdiffers, hclashes⟩⟩

/-- **The same two objects differ or cannot be compared, by the order of their fields.** -/
theorem verdict_by_order :
    drawer.Acyclic (.object 0) ∧ drawer.Acyclic (.object 1) ∧
      Rearranged drawer drawer (.object 0) (.object 2) ∧ Rearranged drawer drawer (.object 1) (.object 1) ∧
      drawer.equal (.object 0) (.object 1) = .ok false ∧
      drawer.equal (.object 2) (.object 1) = .error (.failure (.typeMismatch [.string] .string)) := by
  refine ⟨drawer_acyclic 0, drawer_acyclic 1, ?_, ?_, rfl, rfl⟩
  · refine .object (.swap _ _ _) fun name v v' hv hv' => ?_
    have hperm : (drawer.fields 2).Perm (drawer.fields 0) := .swap _ _ _
    rw [Table.get?_perm hperm (drawer.nodup_names_fields 0), hv] at hv'
    cases hv'
    exact .atom fun _ => drawer_flat (Table.mem_of_get? hv)
  · exact (Reordered.refl drawer).rearranged (drawer_acyclic 1).nestedWithin

end Thicket
