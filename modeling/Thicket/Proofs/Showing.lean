import Thicket.Display
import Thicket.Proofs.FieldOrder
import Thicket.Proofs.Sameness
/-!
# Showing values

A value has a text exactly if no object in it is nested in itself (`Store.display_ok_iff`).  The fields of an object are
shown in the order of their names, and since each name is there once, there is one such order.  So the order in which
the fields came into the object does not show, neither there nor further down, and values that are found to be equal
have the same text (`alike_shown_alike`).
-/
namespace Thicket

/-! ## Values that can be shown -/

theorem fieldTexts_ok_iff {render : Value → Except Stop String} :
    ∀ {t : Table Value}, (∃ texts, fieldTexts render t = .ok texts) ↔ ∀ x ∈ t, ∃ text, render x.2 = .ok text
  | [] => by simp [fieldTexts]
  | (name, v) :: rest => by
    rw [List.forall_mem_cons, ← fieldTexts_ok_iff (t := rest), fieldTexts]
    cases render v with
    | error e => simp
    | ok text => cases fieldTexts render rest <;> simp

theorem Store.displayWithin_ok_iff {s : Store} : ∀ {n : Nat} {v : Value},
    (∃ text, s.displayWithin n v = .ok text) ↔ s.NestedWithin n v
  | 0, v => by simp [Store.displayWithin, Store.NestedWithin]
  | n + 1, .object o => by
    have hfields : (∃ texts, fieldTexts (s.displayWithin n) (Table.sorted (s.fields o)) = .ok texts) ↔
        s.NestedWithin (n + 1) (.object o) := by
      rw [fieldTexts_ok_iff]
      simp only [Table.mem_sorted, Store.displayWithin_ok_iff, Store.NestedWithin, Value.object.injEq, forall_eq']
    rw [← hfields, Store.displayWithin]
    cases fieldTexts (s.displayWithin n) (Table.sorted (s.fields o)) <;> simp [Except.map]
  | n + 1, .number _ | n + 1, .boolean _ | n + 1, .string _ | n + 1, .null | n + 1, .closure _ | n + 1, .native _ => by
    simp [Store.displayWithin, Store.NestedWithin]

/-- **A value has a text exactly if no object in it is nested in itself.** -/
theorem Store.display_ok_iff {s : Store} {v : Value} : (∃ text, s.display v = .ok text) ↔ s.Acyclic v := by
  rw [Store.acyclic_iff_nestedWithin, Store.display, Store.displayWithin_ok_iff]

/-- How deep a text may go does not matter where it goes deep enough. -/
theorem Store.displayWithin_unique {s : Store} : ∀ {n n' : Nat} {v : Value}, s.NestedWithin n v → s.NestedWithin n' v →
    s.displayWithin n v = s.displayWithin n' v
  | n + 1, n' + 1, .object a, hn, hn' => by
    rw [Store.displayWithin, Store.displayWithin, fieldTexts_congr _ fun x hx =>
      Store.displayWithin_unique (hn.field (Table.mem_sorted.1 hx)) (hn'.field (Table.mem_sorted.1 hx))]
  | _ + 1, _ + 1, .number _, _, _ | _ + 1, _ + 1, .boolean _, _, _ | _ + 1, _ + 1, .string _, _, _
  | _ + 1, _ + 1, .null, _, _ | _ + 1, _ + 1, .closure _, _, _ | _ + 1, _ + 1, .native _, _, _ => rfl

/-- The text of an object is made of the texts of its fields. -/
theorem Store.display_object {s : Store} {a : ObjectId} (h : s.Acyclic (.object a)) :
    s.display (.object a) = (fieldTexts s.display (Table.sorted (s.fields a))).map braced := by
  have hnested := h.nestedWithin
  rw [Store.display, Store.displayWithin, fieldTexts_congr _ fun x hx => ?_]
  have hfield := hnested.field (Table.mem_sorted.1 hx)
  exact Store.displayWithin_unique hfield (hfield.mono (Nat.le_succ _))

/-! ## Fields in the order of their names -/

namespace Table

variable {α β : Type}

theorem pairwise_sorted (t : Table α) : (names (sorted t)).Pairwise (· ≤ ·) := by
  have hsorted : (sorted t).Pairwise fun a b => decide (a.1 ≤ b.1) = true := by
    refine List.pairwise_mergeSort (fun a b c hab hbc => ?_) (fun a b => ?_) t
    · rw [decide_eq_true_eq] at hab hbc ⊢
      exact String.le_trans hab hbc
    · rw [Bool.or_eq_true, decide_eq_true_eq, decide_eq_true_eq]
      exact String.le_total a.1 b.1
  rw [names, List.pairwise_map]
  exact hsorted.imp fun h => of_decide_eq_true h

/-- Whatever the order in which names came into a table, there is one order to sort them in. -/
theorem names_sorted_eq {t : Table α} {t' : Table β} (h : (names t).Perm (names t')) :
    names (sorted t) = names (sorted t') := by
  have hsort : (names (sorted t)).Perm (names t) := (List.mergeSort_perm t _).map Prod.fst
  have hsort' : (names (sorted t')).Perm (names t') := (List.mergeSort_perm t' _).map Prod.fst
  exact ((hsort.trans h).trans hsort'.symm).eq_of_pairwise (fun _ _ _ _ => String.le_antisymm) t.pairwise_sorted
    t'.pairwise_sorted

end Table

theorem fieldTexts_eq_of_names {render render' : Value → Except Stop String} : ∀ {t t' : Table Value},
    Table.names t = Table.names t' → (∀ name v v', (name, v) ∈ t → (name, v') ∈ t' → render v = render' v') →
    fieldTexts render t = fieldTexts render' t'
  | [], [], _, _ => rfl
  | (name, v) :: t, (name', v') :: t', hnames, h => by
    obtain ⟨rfl, hrest⟩ := List.cons.inj hnames
    have hfirst : render v = render' v' := h name v v' List.mem_cons_self List.mem_cons_self
    have htexts : fieldTexts render t = fieldTexts render' t' := fieldTexts_eq_of_names hrest fun other u u' hu hu' =>
      h other u u' (List.mem_cons_of_mem _ hu) (List.mem_cons_of_mem _ hu')
    rw [fieldTexts, fieldTexts, hfirst, htexts]

/-! ## Values that are shown alike -/

section

variable {s s' : Store} {v v' w : Value} {a a' : ObjectId}

/-- Objects with the same names are shown alike if what they have under each name is. -/
theorem display_object_eq (ha : s.Acyclic (.object a)) (ha' : s'.Acyclic (.object a'))
    (hnames : (Table.names (s.fields a)).Perm (Table.names (s'.fields a')))
    (hfields : ∀ name v v', Table.get? (s.fields a) name = some v → Table.get? (s'.fields a') name = some v' →
      s.display v = s'.display v') : s.display (.object a) = s'.display (.object a') := by
  rw [Store.display_object ha, Store.display_object ha', fieldTexts_eq_of_names (Table.names_sorted_eq hnames)]
  intro name v v' hv hv'
  rw [Table.mem_sorted, ← Table.get?_eq_some_iff (s.nodup_names_fields a)] at hv
  rw [Table.mem_sorted, ← Table.get?_eq_some_iff (s'.nodup_names_fields a')] at hv'
  exact hfields name v v' hv hv'

theorem Rearranged.display_eq (h : Rearranged s s' v v') :
    s.display v = s'.display v' := by
  induction h with
  | @atom v hatom =>
    cases v with
    | object o => exact absurd rfl (hatom o)
    | number _ | boolean _ | string _ | null | closure _ | native _ => rfl
  | object hperm hfields ih =>
    have hrearranged := Rearranged.object hperm hfields
    exact display_object_eq hrearranged.acyclic hrearranged.symm.acyclic hperm.symm ih

/-- Equal numbers have the same text: they are the same number, or the two zeros. -/
theorem display_eq_of_beq {x y : Float} (h : (x == y) = true) : Number.display x = Number.display y := by
  obtain ⟨-, -, rfl | ⟨rfl, rfl⟩ | ⟨rfl, rfl⟩⟩ := Float.beq_iff_ne_nan_and_eq.1 h
  · rfl
  · decide +kernel
  · decide +kernel

theorem Same.display_eq (h : Same s v w) : s.display v = s.display w := by
  induction h with
  | null | boolean => rfl
  | number heq => exact congrArg Except.ok (display_eq_of_beq heq)
  | @object a b hnames hfields ih =>
    have hsame := Same.object hnames hfields
    exact display_object_eq hsame.acyclic hsame.symm.acyclic
      ((List.perm_ext_iff_of_nodup (s.nodup_names_fields a) (s.nodup_names_fields b)).2 hnames) ih

end

/-- **What is alike is shown alike.**  A value has the same text in whatever order the fields of any of its objects
stand, and values that are found to be equal have the same text.  That there is a text need not be asked for: a value
that has another order, or is equal to anything, is not nested in itself. -/
theorem alike_shown_alike :
    (∀ (s s' : Store) (v v' : Value), Rearranged s s' v v' →
      ∃ text, s.display v = .ok text ∧ s'.display v' = .ok text) ∧
    ∀ (s : Store) (v w : Value), s.equal v w = .ok true →
      ∃ text, s.display v = .ok text ∧ s.display w = .ok text := by
  refine ⟨fun s s' v v' h => ?_, fun s v w hequal => ?_⟩
  · obtain ⟨text, htext⟩ := Store.display_ok_iff.2 h.acyclic
    exact ⟨text, htext, h.display_eq.symm.trans htext⟩
  · have h := equal_eq_true_iff.1 hequal
    obtain ⟨text, htext⟩ := Store.display_ok_iff.2 h.acyclic
    exact ⟨text, htext, h.display_eq.symm.trans htext⟩

/-- A jar on a shelf. -/
def larder : Store where
  scopes := #[]
  objects :=
    #[.ofPairs [("weight", .number 2), ("label", .string "rye")],
      .ofPairs [("jar", .object 0), ("open", .closure ⟨"open", [], [], 0⟩), ("above", .null)]]

/-- The same shelf and jar, with all fields the other way round. -/
def larderTurned : Store where
  scopes := #[]
  objects := #[.ofPairs (larder.fields 0).reverse, .ofPairs (larder.fields 1).reverse]

theorem larder_reordered : Reordered larder larderTurned := by
  refine ⟨rfl, fun o => ?_⟩
  match o with
  | 0 => exact List.reverse_perm (larder.fields 0)
  | 1 => exact List.reverse_perm (larder.fields 1)
  | _ + 2 => exact .nil

theorem larder_acyclic : larder.Acyclic (.object 1) := by
  have hjar : larder.Acyclic (.object 0) := by
    refine Store.acyclic_of_fields fun x hx => Store.acyclic_of_ne_object fun o ho => ?_
    rcases List.mem_cons.1 hx with rfl | hx
    · cases ho
    · rw [List.mem_singleton.1 hx] at ho
      cases ho
  refine Store.acyclic_of_fields fun x hx => ?_
  rcases List.mem_cons.1 hx with rfl | hx
  · exact hjar
  refine Store.acyclic_of_ne_object fun o ho => ?_
  rcases List.mem_cons.1 hx with rfl | hx
  · cases ho
  · rw [List.mem_singleton.1 hx] at ho
    cases ho

theorem larder_shown :
    Rearranged larder larderTurned (.object 1) (.object 1) ∧
      (∃ text, larder.display (.object 1) = .ok text ∧ larderTurned.display (.object 1) = .ok text) ∧
      boxes.equal (.object 2) (.object 3) = .ok true ∧
      ∃ text, boxes.display (.object 2) = .ok text ∧ boxes.display (.object 3) = .ok text := by
  have hrearranged := larder_reordered.rearranged larder_acyclic.nestedWithin
  have hequal : boxes.equal (.object 2) (.object 3) = .ok true := by decide +kernel
  exact ⟨hrearranged, alike_shown_alike.1 _ _ _ _ hrearranged, hequal, alike_shown_alike.2 _ _ _ hequal⟩

end Thicket
