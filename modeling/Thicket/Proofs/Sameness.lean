import Mathlib
import Thicket.Proofs.Equality
/-!
# Equality is sameness

A comparison looks at no more than it has to: it counts the fields of two objects, goes through those of the left one,
and stops at the first that is not equal.  Where it says "equal" it has nevertheless seen everything, and the values are
the `Same` (`equal_eq_true_iff`).  So it is a partial equivalence, as `Same` is, and what it says of two values it does
not take back when they are exchanged (`equal_decides_sameness`).

No value is the same as one that is nested in itself, since sameness is shown from the leaves up.  That is why none of
this asks whether a value is.
-/
namespace Thicket

/-! ## Sameness -/

namespace Same

variable {s : Store} {u v w : Value}

theorem symm (h : Same s v w) : Same s w v := by
  induction h with
  | null => exact .null
  | boolean b => exact .boolean b
  | number heq => exact .number (BEq.symm heq)
  | object hnames _ ih => exact .object (fun name => (hnames name).symm) fun name v w hv hw => ih name w v hw hv

theorem trans (h : Same s u v) (h' : Same s v w) : Same s u w := by
  induction h generalizing w with
  | null => exact h'
  | boolean b => exact h'
  | number heq =>
    cases h' with
    | number heq' => exact .number (BEq.trans heq heq')
  | @object a b hnames _ ih =>
    cases h' with
    | @object _ c hnames' hfields' =>
      refine .object (fun name => (hnames name).trans (hnames' name)) fun name x z hx hz => ?_
      -- the object in the middle has the name as well
      have hmem : name ∈ Table.names (s.fields b) := (hnames name).1 (Table.mem_names_of_mem (Table.mem_of_get? hx))
      obtain ⟨y, hy⟩ := Option.isSome_iff_exists.1 ((Table.get?_isSome_iff _ name).2 hmem)
      exact ih name x y hx hy (hfields' name y z hy hz)

theorem acyclic (h : Same s v w) : s.Acyclic v := by
  induction h with
  | null | boolean | number => exact Store.acyclic_of_ne_object fun _ ho => by cases ho
  | @object a b hnames _ ih =>
    refine Store.acyclic_of_fields fun x hx => ?_
    have hmem : x.1 ∈ Table.names (s.fields b) := (hnames x.1).1 (Table.mem_names_of_mem hx)
    obtain ⟨y, hy⟩ := Option.isSome_iff_exists.1 ((Table.get?_isSome_iff _ x.1).2 hmem)
    exact ih x.1 x.2 y ((Table.get?_eq_some_iff (s.nodup_names_fields a)).2 hx) hy

end Same

/-! ## What the answer "equal" rests on -/

theorem found_of_fieldsEqual {equal : Value → Value → Except Stop Bool} {right : Table Value} :
    ∀ {left : Table Value}, fieldsEqual equal right left = .ok true →
      ∀ x ∈ left, ∃ w, Table.get? right x.1 = some w ∧ equal x.2 w = .ok true
  | [], _ => List.forall_mem_nil _
  | (name, v) :: rest, h => by
    unfold fieldsEqual at h
    cases hget : Table.get? right name with
    | none => simp [hget] at h
    | some w =>
      cases hw : equal v w with
      | error e => simp [hget, hw] at h
      | ok b =>
        cases b with
        | false => simp [hget, hw] at h
        | true =>
          simp only [hget, hw] at h
          exact List.forall_mem_cons.2 ⟨⟨w, hget, hw⟩, found_of_fieldsEqual h⟩

/-- Values that are found to be equal are the same, whatever else is nested in itself. -/
theorem same_of_equalWithin {s : Store} : ∀ (n : Nat) (v w : Value),
    s.equalWithin n v w = .ok true → Same s v w
  | n + 1, v, w, h => by
    unfold Store.equalWithin at h
    by_cases hv : v.isCallable = true
    · rw [if_pos hv] at h
      cases h
    by_cases hw : w.isCallable = true
    · rw [if_neg hv, if_pos hw] at h
      cases h
    rw [if_neg hv, if_neg hw] at h
    split at h
    · exact .null
    · cases h
    · cases h
    · rename_i a b
      split at h
      · cases h
      · rename_i hsize
        have hfields : FieldsJudged s (s.fields b) (s.fields a) (.ok true) := .same fun x hx => by
          obtain ⟨w, hw, heq⟩ := found_of_fieldsEqual h x hx
          exact ⟨w, hw, same_of_equalWithin n x.2 w heq⟩
        cases hfields.judged (Classical.not_not.1 hsize) with
        | same hsame => exact hsame
    · exact .number (Except.ok.inj h)
    · rename_i x y
      rw [eq_of_beq (Except.ok.inj h)]
      exact .boolean y
    · cases h

/-- **Values are found to be equal exactly if they are the same.** -/
theorem equal_eq_true_iff {s : Store} {v w : Value} : s.equal v w = .ok true ↔ Same s v w := by
  refine ⟨same_of_equalWithin _ v w, fun h => ?_⟩
  exact (equal_judged h.acyclic w).eq_true_iff.2 ⟨h.not_differs, h.not_clashes⟩

/-! ## The laws of comparison -/

/-- **A comparison decides sameness.**  It says "equal" of the same values and of no others.  It ends for a left value
that is not nested in itself.  It is symmetric and transitive, and where it has an answer both for two values and for
the two exchanged, that is one answer. -/
theorem equal_decides_sameness (s : Store) :
    (∀ left right, s.equal left right = .ok true ↔ Same s left right) ∧
    (∀ left right, s.Acyclic left → (∃ b, s.equal left right = .ok b) ∨
      ∃ expected actual, s.equal left right = .error (.failure (.typeMismatch expected actual))) ∧
    (∀ a b, s.equal a b = .ok true → s.equal b a = .ok true) ∧
    (∀ a b c, s.equal a b = .ok true → s.equal b c = .ok true → s.equal a c = .ok true) ∧
    ∀ a b x y, s.equal a b = .ok x → s.equal b a = .ok y → x = y := by
  have hsymm : ∀ a b, s.equal a b = .ok true → s.equal b a = .ok true := by
    intro a b h
    rw [equal_eq_true_iff] at h ⊢
    exact h.symm
  refine ⟨fun left right => equal_eq_true_iff, fun left right hl => (equal_judged hl right).answers, hsymm,
    fun a b c hab hbc => ?_, fun a b x y hx hy => ?_⟩
  · rw [equal_eq_true_iff] at hab hbc ⊢
    exact hab.trans hbc
  · -- an answer "equal" in one of the two orders is one in the other
    cases x with
    | true => exact Except.ok.inj ((hsymm a b hx).symm.trans hy)
    | false =>
      cases y with
      | true => exact Except.ok.inj (hx.symm.trans (hsymm b a hy))
      | false => rfl

/-- Two boxes with a lid each, made in different orders; one lid is at zero, the other at minus zero. -/
def boxes : Store :=
  let s := (Store.empty.newObject [("open", .boolean false), ("at", .number 0)]).2
  let s := (s.newObject [("at", .number (-0.0)), ("open", .boolean false)]).2
  let s := (s.newObject [("lid", .object 0)]).2
  let s := (s.newObject [("label", .null), ("lid", .object 1)]).2
  s.setField 2 "label" .null

theorem boxes_same :
    Same boxes (.object 2) (.object 3) ∧ boxes.equal (.object 3) (.object 2) = .ok true := by
  obtain ⟨hsame, -, hsymm, -, -⟩ := equal_decides_sameness boxes
  have hequal : boxes.equal (.object 2) (.object 3) = .ok true := by decide +kernel
  exact ⟨(hsame _ _).1 hequal, hsymm _ _ hequal⟩

end Thicket
