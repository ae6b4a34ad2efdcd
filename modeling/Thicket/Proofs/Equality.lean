import Mathlib.Data.List.Nodup
import Thicket.Operator
import Thicket.Proofs.Objects
/-!
# What a comparison can say

A comparison says that two values are equal, that they differ, or that they cannot be compared.  Each of these is said
here without regard to the order of fields: `Same` of values that are equal throughout, `Differs` of values with a pair
in the same place that differs, `Clashes` of values with such a pair that cannot be compared.  Equal values neither
differ nor clash.  But values may both differ and clash, in different places, and then the comparison says whichever it
comes to first (`equalWithin_judged`).
-/
namespace Thicket

/-! ## Tables with each name once -/

namespace Table

variable {α : Type} {t t' : Table α} {name : String} {v : α}

theorem length_names (t : Table α) : (names t).length = t.length := List.length_map _

theorem mem_names_of_mem (h : (name, v) ∈ t) : name ∈ names t := List.mem_map.2 ⟨(name, v), h, rfl⟩

theorem get?_eq_none_iff : get? t name = none ↔ name ∉ names t := by
  rw [← get?_isSome_iff, Option.not_isSome_iff_eq_none]

theorem get?_eq_some_iff (h : (names t).Nodup) : get? t name = some v ↔ (name, v) ∈ t := by
  refine ⟨mem_of_get?, fun hmem => ?_⟩
  obtain ⟨w, hw⟩ := Option.isSome_iff_exists.1 ((get?_isSome_iff t name).2 (mem_names_of_mem hmem))
  have heq : (name, w) = (name, v) := List.inj_on_of_nodup_map h (mem_of_get? hw) hmem rfl
  rw [hw, (Prod.mk.inj heq).2]

theorem nodup_names_of_perm (h : t'.Perm t) (hn : (names t).Nodup) : (names t').Nodup :=
  (h.map Prod.fst).nodup_iff.2 hn

theorem get?_perm (h : t'.Perm t) (hn : (names t).Nodup) (name : String) : get? t' name = get? t name := by
  apply Option.ext
  intro v
  rw [get?_eq_some_iff hn, get?_eq_some_iff (nodup_names_of_perm h hn), h.mem_iff]

end Table

/-! ## The three endings -/

/-- The values are equal: both null, the same truth value, equal numbers, or objects with the same names and with equal
values under each. -/
inductive Same (s : Store) : Value → Value → Prop
  | null : Same s .null .null
  | boolean (b : Bool) : Same s (.boolean b) (.boolean b)
  | number {x y : Float} : (x == y) = true → Same s (.number x) (.number y)
  | object {a b : ObjectId} : (∀ name, name ∈ Table.names (s.fields a) ↔ name ∈ Table.names (s.fields b)) →
      (∀ name v w, Table.get? (s.fields a) name = some v → Table.get? (s.fields b) name = some w → Same s v w) →
      Same s (.object a) (.object b)

/-- Somewhere in the values, in the same place of both, stand two that are not equal: null and something else that is no
function, two truth values or two numbers, or objects that do not have the same names. -/
inductive Differs (s : Store) : Value → Value → Prop
  | nullLeft {w : Value} : w ≠ .null → w.isCallable = false → Differs s .null w
  | nullRight {v : Value} : v ≠ .null → v.isCallable = false → Differs s v .null
  | booleans {x y : Bool} : x ≠ y → Differs s (.boolean x) (.boolean y)
  | numbers {x y : Float} : (x == y) = false → Differs s (.number x) (.number y)
  | sizes {a b : ObjectId} : (s.fields a).length ≠ (s.fields b).length → Differs s (.object a) (.object b)
  | missing {a b : ObjectId} {name : String} {v : Value} : (s.fields a).length = (s.fields b).length →
      (name, v) ∈ s.fields a → Table.get? (s.fields b) name = none → Differs s (.object a) (.object b)
  | field {a b : ObjectId} {name : String} {v w : Value} : (s.fields a).length = (s.fields b).length →
      (name, v) ∈ s.fields a → Table.get? (s.fields b) name = some w → Differs s v w → Differs s (.object a) (.object b)

/-- Somewhere in the values, in the same place of both, stand two that cannot be compared: one of them is a function, or
neither is null and they are of different kinds or both texts. -/
inductive Clashes (s : Store) : Value → Value → Prop
  | functionLeft {v w : Value} : v.isCallable = true → Clashes s v w
  | functionRight {v w : Value} : w.isCallable = true → Clashes s v w
  | kinds {v w : Value} : v ≠ .null → w ≠ .null → v.kind ≠ w.kind ∨ v.kind = .string → Clashes s v w
  | field {a b : ObjectId} {name : String} {v w : Value} : (s.fields a).length = (s.fields b).length →
      (name, v) ∈ s.fields a → Table.get? (s.fields b) name = some w → Clashes s v w → Clashes s (.object a) (.object b)

/-- The ending says what is the case. -/
inductive Judged (s : Store) (v w : Value) : Except Stop Bool → Prop
  | same : Same s v w → Judged s v w (.ok true)
  | differs : Differs s v w → Judged s v w (.ok false)
  | clashes {expected : List Kind} {actual : Kind} : Clashes s v w →
      Judged s v w (.error (.failure (.typeMismatch expected actual)))

variable {s : Store} {v w : Value}

theorem Same.length_eq {a b : ObjectId}
    (h : ∀ name, name ∈ Table.names (s.fields a) ↔ name ∈ Table.names (s.fields b)) :
    (s.fields a).length = (s.fields b).length := by
  rw [← Table.length_names, ← Table.length_names]
  exact ((List.perm_ext_iff_of_nodup (s.nodup_names_fields a) (s.nodup_names_fields b)).2 h).length_eq

theorem Same.not_differs (h : Same s v w) : ¬ Differs s v w := by
  induction h with
  | null => rintro (⟨hne, -⟩ | ⟨hne, -⟩) <;> exact hne rfl
  | boolean b =>
    rintro ⟨⟩
    rename_i hne
    exact hne rfl
  | number heq =>
    rintro ⟨⟩
    rename_i hne
    rw [heq] at hne
    cases hne
  | object hnames _ ih =>
    rintro (_ | _ | _ | _ | hsize | ⟨-, hmem, hnone⟩ | ⟨-, hmem, hget, hdiffers⟩)
    · exact hsize (Same.length_eq hnames)
    · exact Table.get?_eq_none_iff.1 hnone ((hnames _).1 (Table.mem_names_of_mem hmem))
    · exact ih _ _ _ ((Table.get?_eq_some_iff (s.nodup_names_fields _)).2 hmem) hget hdiffers

theorem Same.not_clashes (h : Same s v w) : ¬ Clashes s v w := by
  induction h with
  | null => rintro (hc | hc | ⟨hne, -, -⟩) <;> first | exact hne rfl | cases hc
  | boolean b => rintro (hc | hc | ⟨-, -, hk | hk⟩) <;> first | exact hk rfl | cases hc | cases hk
  | number heq => rintro (hc | hc | ⟨-, -, hk | hk⟩) <;> first | exact hk rfl | cases hc | cases hk
  | object _ _ ih =>
    rintro (hc | hc | ⟨-, -, hk | hk⟩ | ⟨-, hmem, hget, hclashes⟩)
    · cases hc
    · cases hc
    · exact hk rfl
    · cases hk
    · exact ih _ _ _ ((Table.get?_eq_some_iff (s.nodup_names_fields _)).2 hmem) hget hclashes

/-! ## What the comparison says is the case -/

/-- How the comparison of some fields with those of another object may end. -/
inductive FieldsJudged (s : Store) (right left : Table Value) : Except Stop Bool → Prop
  | same : (∀ x ∈ left, ∃ w, Table.get? right x.1 = some w ∧ Same s x.2 w) → FieldsJudged s right left (.ok true)
  | missing {name : String} {v : Value} : (name, v) ∈ left → Table.get? right name = none →
      FieldsJudged s right left (.ok false)
  | differs {name : String} {v w : Value} : (name, v) ∈ left → Table.get? right name = some w → Differs s v w →
      FieldsJudged s right left (.ok false)
  | clashes {name : String} {v w : Value} {expected : List Kind} {actual : Kind} : (name, v) ∈ left →
      Table.get? right name = some w → Clashes s v w →
      FieldsJudged s right left (.error (.failure (.typeMismatch expected actual)))

theorem FieldsJudged.cons {right rest : Table Value} {x : String × Value} {w : Value} {r : Except Stop Bool}
    (hx : Table.get? right x.1 = some w) (hsame : Same s x.2 w) (h : FieldsJudged s right rest r) :
    FieldsJudged s right (x :: rest) r := by
  cases h with
  | same hrest => exact .same (List.forall_mem_cons.2 ⟨⟨w, hx, hsame⟩, hrest⟩)
  | missing hmem hnone => exact .missing (List.mem_cons_of_mem x hmem) hnone
  | differs hmem hget hdiffers => exact .differs (List.mem_cons_of_mem x hmem) hget hdiffers
  | clashes hmem hget hclashes => exact .clashes (List.mem_cons_of_mem x hmem) hget hclashes

theorem fieldsEqual_judged {equal : Value → Value → Except Stop Bool} (right : Table Value) : ∀ left : Table Value,
    (∀ x ∈ left, ∀ w, Judged s x.2 w (equal x.2 w)) → FieldsJudged s right left (fieldsEqual equal right left)
  | [], _ => .same fun _ hx => by cases hx
  | (name, v) :: rest, h => by
    have hrest := fieldsEqual_judged right rest fun x hx => h x (List.mem_cons_of_mem _ hx)
    unfold fieldsEqual
    cases hget : Table.get? right name with
    | none => exact .missing List.mem_cons_self hget
    | some w =>
      have hfirst := h (name, v) List.mem_cons_self w
      simp only
      generalize equal v w = r at hfirst
      cases hfirst with
      | same hsame => exact hrest.cons hget hsame
      | differs hdiffers => exact .differs List.mem_cons_self hget hdiffers
      | clashes hclashes => exact .clashes List.mem_cons_self hget hclashes

theorem FieldsJudged.judged {a b : ObjectId} {r : Except Stop Bool}
    (hsize : (s.fields a).length = (s.fields b).length) (h : FieldsJudged s (s.fields b) (s.fields a) r) :
    Judged s (.object a) (.object b) r := by
  cases h with
  | same hall =>
    have hsubset : Table.names (s.fields a) ⊆ Table.names (s.fields b) := by
      intro name hname
      obtain ⟨x, hx, rfl⟩ := List.mem_map.1 hname
      obtain ⟨w, hw, -⟩ := hall x hx
      exact Table.mem_names_of_mem (Table.mem_of_get? hw)
    -- all names of the one are names of the other, and there are no more of these
    have hperm := (List.subperm_of_subset (s.nodup_names_fields a) hsubset).perm_of_length_le
      (by rw [Table.length_names, Table.length_names]; exact Nat.le_of_eq hsize.symm)
    refine .same (.object (fun name => hperm.mem_iff) fun name v w hv hw => ?_)
    obtain ⟨w', hw', hsame⟩ := hall (name, v) (Table.mem_of_get? hv)
    rw [hw] at hw'
    cases hw'
    exact hsame
  | missing hmem hnone => exact .differs (.missing hsize hmem hnone)
  | differs hmem hget hdiffers => exact .differs (.field hsize hmem hget hdiffers)
  | clashes hmem hget hclashes => exact .clashes (.field hsize hmem hget hclashes)

/-- **Where the nesting of the left value ends, a comparison ends, and what it says is the case.** -/
theorem equalWithin_judged : ∀ (n : Nat) (v w : Value), s.NestedWithin n v →
    Judged s v w (s.equalWithin n v w)
  | n + 1, v, w, hn => by
    unfold Store.equalWithin
    by_cases hv : v.isCallable = true
    · rw [if_pos hv]
      exact .clashes (.functionLeft hv)
    by_cases hw : w.isCallable = true
    · rw [if_neg hv, if_pos hw]
      exact .clashes (.functionRight hw)
    rw [if_neg hv, if_neg hw]
    rw [Bool.not_eq_true] at hv hw
    split
    · exact .same .null
    · rename_i hne
      exact .differs (.nullLeft (fun h => hne h) hw)
    · rename_i hne
      exact .differs (.nullRight (fun h => hne h) hv)
    · rename_i a b
      split
      · rename_i hsize
        exact .differs (.sizes hsize)
      · rename_i hsize
        exact (fieldsEqual_judged (s.fields b) (s.fields a) fun x hx u =>
          equalWithin_judged n x.2 u (hn.field hx)).judged (Classical.not_not.1 hsize)
    · rename_i x y
      cases hxy : x == y with
      | true => exact .same (.number hxy)
      | false => exact .differs (.numbers hxy)
    · rename_i x y
      cases x <;> cases y <;> first | exact .same (.boolean _) | exact .differs (.booleans (by decide))
    · rename_i hv' hw' _ hobject hnumber hboolean
      refine .clashes (.kinds (fun h => hv' h) (fun h => hw' h) ?_)
      cases v <;> cases w <;> simp_all [Value.kind, Value.isCallable, Kind.isCallable]

theorem equal_judged (hv : s.Acyclic v) (w : Value) : Judged s v w (s.equal v w) := by
  refine equalWithin_judged _ v w (hv.nestedWithin.mono (Nat.succ_le_succ ?_))
  exact Nat.le_mul_self s.objects.size

theorem Judged.eq_true_iff {r : Except Stop Bool} (h : Judged s v w r) :
    r = .ok true ↔ ¬ Differs s v w ∧ ¬ Clashes s v w := by
  cases h with
  | same hsame => exact ⟨fun _ => ⟨hsame.not_differs, hsame.not_clashes⟩, fun _ => rfl⟩
  | differs hdiffers => exact ⟨fun h => (by cases h), fun h => absurd hdiffers h.1⟩
  | clashes hclashes => exact ⟨fun h => (by cases h), fun h => absurd hclashes h.2⟩

theorem Judged.answers {r : Except Stop Bool} (h : Judged s v w r) :
    (∃ b, r = .ok b) ∨ ∃ expected actual, r = .error (.failure (.typeMismatch expected actual)) := by
  cases h with
  | same _ => exact .inl ⟨true, rfl⟩
  | differs _ => exact .inl ⟨false, rfl⟩
  | clashes _ => exact .inr ⟨_, _, rfl⟩

end Thicket
