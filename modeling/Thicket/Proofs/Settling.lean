import Thicket.Proofs.Showing
/-!
# Where showing and comparing come to an end

Both go down into objects, and an object that was put into itself has no bottom.  How far down they may go is a number,
so an end is an answer on which they settle: with every number that is large enough it is the same, and it is not that
the number was too small (`Settles`).

Showing looks at everything in a value and settles exactly if nothing there is nested in itself.  A comparison goes down
into two values at once.  It comes to the bottom of both as soon as it comes to that of one, so it settles if either of
them has one, on whichever side it stands (`showing_and_comparing_settle`).
-/
namespace Thicket

/-- However much further the descent might go, it gives this answer, and does not run into its bound. -/
def Settles {α : Type} (descent : Nat → Except Stop α) (r : Except Stop α) : Prop :=
  r ≠ .error .exhausted ∧ ∃ n, ∀ m, n ≤ m → descent m = r

/-- Where one more step down changes no answer that is there, the first answer is the one it settles on. -/
theorem settles_of_deeper {α : Type} {descent : Nat → Except Stop α}
    (h : ∀ n, descent n = .error .exhausted ∨ descent (n + 1) = descent n) {n : Nat}
    (hn : descent n ≠ .error .exhausted) : Settles descent (descent n) := by
  refine ⟨hn, n, fun m hm => ?_⟩
  induction m, hm using Nat.le_induction with
  | base => rfl
  | succ m _ ih =>
    rcases h m with hm | hm
    · rw [ih] at hm
      exact absurd hm hn
    · exact hm.trans ih

/-! ## Showing -/

theorem fieldTexts_error {render : Value → Except Stop String} {e : Stop} : ∀ {t : Table Value},
    fieldTexts render t = .error e → ∃ x ∈ t, render x.2 = .error e
  | [], h => by cases h
  | (name, v) :: rest, h => by
    unfold fieldTexts at h
    cases hv : render v with
    | error e' =>
      simp only [hv] at h
      cases h
      exact ⟨(name, v), List.mem_cons_self, hv⟩
    | ok text =>
      cases hrest : fieldTexts render rest with
      | error e' =>
        simp only [hv, hrest] at h
        cases h
        obtain ⟨x, hx, herror⟩ := fieldTexts_error hrest
        exact ⟨x, List.mem_cons_of_mem _ hx, herror⟩
      | ok texts =>
        simp only [hv, hrest] at h
        cases h

namespace Store

variable {s : Store} {v w : Value}

/-- Nothing but the bound keeps a value from being shown. -/
theorem displayWithin_error {e : Stop} : ∀ {n : Nat} {v : Value}, s.displayWithin n v = .error e → e = .exhausted
  | 0, _, h => by
    cases h
    rfl
  | n + 1, .object o, h => by
    rw [displayWithin] at h
    cases htexts : fieldTexts (s.displayWithin n) (Table.sorted (s.fields o)) with
    | ok texts =>
      rw [htexts] at h
      cases h
    | error e' =>
      rw [htexts] at h
      cases h
      obtain ⟨x, -, hx⟩ := fieldTexts_error htexts
      exact displayWithin_error hx
  | _ + 1, .number _, h | _ + 1, .boolean _, h | _ + 1, .string _, h | _ + 1, .null, h | _ + 1, .closure _, h
  | _ + 1, .native _, h => by cases h

theorem displayWithin_eq_exhausted_iff {n : Nat} : s.displayWithin n v = .error .exhausted ↔ ¬ s.NestedWithin n v := by
  rw [← displayWithin_ok_iff]
  cases h : s.displayWithin n v with
  | ok text => simp
  | error e => simp [displayWithin_error h]

theorem settles_display (h : s.Acyclic v) : Settles (s.displayWithin · v) (s.display v) := by
  refine settles_of_deeper (fun n => ?_) fun hend => displayWithin_eq_exhausted_iff.1 hend h.nestedWithin
  by_cases hn : s.NestedWithin n v
  · exact .inr (displayWithin_unique (hn.mono n.le_succ) hn)
  · exact .inl (displayWithin_eq_exhausted_iff.2 hn)

theorem displayWithin_of_not_acyclic (h : ¬ s.Acyclic v) (n : Nat) : s.displayWithin n v = .error .exhausted :=
  displayWithin_eq_exhausted_iff.2 fun hn => h hn.acyclic

end Store

/-! ## Comparing -/

/-- The comparison has come to a verdict, or found two values that cannot be compared. -/
def Answered (r : Except Stop Bool) : Prop :=
  (∃ b, r = .ok b) ∨ ∃ expected actual, r = .error (.failure (.typeMismatch expected actual))

theorem Answered.ne_exhausted {r : Except Stop Bool} (h : Answered r) : r ≠ .error .exhausted := by
  rcases h with ⟨b, rfl⟩ | ⟨expected, actual, rfl⟩ <;> simp

theorem answered_mismatch (expected : List Kind) (actual : Kind) : Answered (mismatch expected actual) :=
  .inr ⟨expected, actual, rfl⟩

/-- What a comparison can do: answer at once, at any depth, or go on to the fields of two objects. -/
theorem Store.equalWithin_cases (s : Store) (v w : Value) :
    (∃ r, Answered r ∧ ∀ n, s.equalWithin (n + 1) v w = r) ∨
      ∃ a b, v = .object a ∧ w = .object b ∧
        ∀ n, s.equalWithin (n + 1) v w = fieldsEqual (s.equalWithin n) (s.fields b) (s.fields a) := by
  simp only [Store.equalWithin]
  by_cases hv : v.isCallable = true
  · exact .inl ⟨_, answered_mismatch equatable v.kind, fun n => if_pos hv⟩
  by_cases hw : w.isCallable = true
  · exact .inl ⟨_, answered_mismatch equatable w.kind, fun n => by rw [if_neg hv, if_pos hw]⟩
  simp only [hv, hw, Bool.false_eq_true, if_false]
  split
  · exact .inl ⟨_, .inl ⟨true, rfl⟩, fun _ => rfl⟩
  · exact .inl ⟨_, .inl ⟨false, rfl⟩, fun _ => rfl⟩
  · exact .inl ⟨_, .inl ⟨false, rfl⟩, fun _ => rfl⟩
  · rename_i a b
    by_cases hsize : (s.fields a).length = (s.fields b).length
    · exact .inr ⟨a, b, rfl, rfl, fun n => if_neg (not_not_intro hsize)⟩
    · exact .inl ⟨_, .inl ⟨false, rfl⟩, fun n => if_pos hsize⟩
  · exact .inl ⟨_, .inl ⟨_, rfl⟩, fun _ => rfl⟩
  · exact .inl ⟨_, .inl ⟨_, rfl⟩, fun _ => rfl⟩
  · exact .inl ⟨_, answered_mismatch [v.kind] w.kind, fun _ => rfl⟩

theorem fieldsEqual_answered {equal : Value → Value → Except Stop Bool} {right : Table Value} : ∀ {left : Table Value},
    (∀ x ∈ left, ∀ w, Table.get? right x.1 = some w → Answered (equal x.2 w)) →
      Answered (fieldsEqual equal right left)
  | [], _ => .inl ⟨true, rfl⟩
  | (name, v) :: rest, h => by
    unfold fieldsEqual
    cases hget : Table.get? right name with
    | none => exact .inl ⟨false, rfl⟩
    | some w =>
      have hrest := fieldsEqual_answered fun x hx => h x (List.mem_cons_of_mem _ hx)
      rcases h (name, v) List.mem_cons_self w hget with ⟨b, hb⟩ | ⟨expected, actual, hclash⟩
      · cases b with
        | true =>
          simp only [hb]
          exact hrest
        | false =>
          simp only [hb]
          exact .inl ⟨false, rfl⟩
      · simp only [hclash]
        exact answered_mismatch expected actual

theorem fieldsEqual_deeper {equal equal' : Value → Value → Except Stop Bool} {right : Table Value}
    (h : ∀ v w, equal v w = .error .exhausted ∨ equal' v w = equal v w) : ∀ left : Table Value,
    fieldsEqual equal right left = .error .exhausted ∨ fieldsEqual equal' right left = fieldsEqual equal right left
  | [] => .inr rfl
  | (name, v) :: rest => by
    unfold fieldsEqual
    cases Table.get? right name with
    | none => exact .inr rfl
    | some w =>
      rcases h v w with hend | hsame
      · simp [hend]
      · simp only [hsame]
        cases equal v w with
        | error e => exact .inr rfl
        | ok b =>
          cases b with
          | true => exact fieldsEqual_deeper h rest
          | false => exact .inr rfl

namespace Store

variable {s : Store} {v w : Value}

theorem equalWithin_deeper : ∀ (n : Nat) (v w : Value),
    s.equalWithin n v w = .error .exhausted ∨ s.equalWithin (n + 1) v w = s.equalWithin n v w
  | 0, _, _ => .inl rfl
  | n + 1, v, w => by
    rcases s.equalWithin_cases v w with ⟨r, -, hr⟩ | ⟨a, b, -, -, hfields⟩
    · exact .inr ((hr (n + 1)).trans (hr n).symm)
    · rw [hfields, hfields]
      exact fieldsEqual_deeper (equalWithin_deeper n) (s.fields a)

/-- **Where the nesting of one of two values ends, so does their comparison.**  Each step goes down on both sides. -/
theorem equalWithin_answered : ∀ {n : Nat} {v w : Value}, s.NestedWithin n v ∨ s.NestedWithin n w →
    Answered (s.equalWithin n v w)
  | n + 1, v, w, h => by
    rcases s.equalWithin_cases v w with ⟨r, hanswered, hr⟩ | ⟨a, b, rfl, rfl, hfields⟩
    · rw [hr]
      exact hanswered
    · rw [hfields]
      refine fieldsEqual_answered fun x hx u hu => equalWithin_answered ?_
      exact h.imp (fun hv => hv.field hx) fun hw => hw.field (Table.mem_of_get? hu)

theorem equal_answered (h : s.Acyclic v ∨ s.Acyclic w) : Answered (s.equal v w) := by
  have hle : s.objects.size + 1 ≤ s.objects.size * s.objects.size + 1 := Nat.succ_le_succ (Nat.le_mul_self _)
  exact equalWithin_answered (h.imp (fun hv => hv.nestedWithin.mono hle) fun hw => hw.nestedWithin.mono hle)

theorem settles_equal (h : s.Acyclic v ∨ s.Acyclic w) : Settles (s.equalWithin · v w) (s.equal v w) :=
  settles_of_deeper (fun n => equalWithin_deeper n v w) (equal_answered h).ne_exhausted

end Store

/-- **Showing and comparing come to an end where they should.**  A value can be shown exactly if no object in it is
nested in itself: if none is, showing settles on a text, and if one is, no depth is enough.  A comparison settles, on a
verdict or on two values that cannot be compared, if one of its two sides has no object nested in itself, whatever the
other has. -/
theorem showing_and_comparing_settle (s : Store) :
    (∀ v, (∃ r, Settles (s.displayWithin · v) r) ↔ s.Acyclic v) ∧
    (∀ v, s.Acyclic v → ∃ text, s.display v = .ok text ∧ Settles (s.displayWithin · v) (.ok text)) ∧
    (∀ v, ¬ s.Acyclic v → s.display v = .error .exhausted ∧ ∀ n, s.displayWithin n v = .error .exhausted) ∧
    ∀ left right, s.Acyclic left ∨ s.Acyclic right →
      Settles (s.equalWithin · left right) (s.equal left right) ∧
      ((∃ b, s.equal left right = .ok b) ∨
        ∃ expected actual, s.equal left right = .error (.failure (.typeMismatch expected actual))) := by
  refine ⟨fun v => ⟨?_, fun h => ⟨_, Store.settles_display h⟩⟩, fun v h => ?_, fun v h => ?_, fun left right h => ?_⟩
  · rintro ⟨r, hr, n, hn⟩
    by_contra hcyclic
    exact hr ((hn n (Nat.le_refl n)).symm.trans (Store.displayWithin_of_not_acyclic hcyclic n))
  · obtain ⟨text, htext⟩ := Store.display_ok_iff.2 h
    exact ⟨text, htext, htext ▸ Store.settles_display h⟩
  · exact ⟨Store.displayWithin_of_not_acyclic h _, Store.displayWithin_of_not_acyclic h⟩
  · exact ⟨Store.settles_equal h, Store.equal_answered h⟩

/-- Two horses that follow each other round, made by setting fields, and a cart that follows nothing. -/
def carousel : Store :=
  let s := (Store.empty.newObject [("follows", .null)]).2
  let s := (s.newObject [("follows", .object 0)]).2
  let s := s.setField 0 "follows" (.object 1)
  let s := (s.newObject [("follows", .null)]).2
  (s.newObject [("follows", .object 2)]).2

theorem carousel_cyclic : ¬ carousel.Acyclic (.object 0) := by
  intro h
  have hround : Relation.TransGen carousel.Holds 0 0 :=
    .tail (.single ⟨"follows", List.mem_cons_self⟩) ⟨"follows", List.mem_cons_self⟩
  exact h 0 (carousel.reaches_self 0) hround

theorem carousel_cart_acyclic : carousel.Acyclic (.object 3) := by
  refine Store.NestedWithin.acyclic (n := 3) ?_
  rintro _ ⟨⟩ x hx
  rw [List.mem_singleton.1 hx]
  rintro _ ⟨⟩ y hy
  rw [List.mem_singleton.1 hy]
  rintro _ ⟨⟩

theorem carousel_settles :
    ¬ carousel.Acyclic (.object 0) ∧ carousel.Acyclic (.object 3) ∧
      (∀ n, carousel.displayWithin n (.object 0) = .error .exhausted) ∧
      (∃ text, carousel.display (.object 3) = .ok text) ∧
      (∃ b, carousel.equal (.object 3) (.object 0) = .ok b) ∧
      Settles (carousel.equalWithin · (.object 0) (.object 3)) (.ok false) ∧
      carousel.equal (.object 0) (.object 1) = .error .exhausted := by
  obtain ⟨-, hshown, hcyclic, hcompared⟩ := showing_and_comparing_settle carousel
  obtain ⟨text, htext, -⟩ := hshown (.object 3) carousel_cart_acyclic
  have hleft : carousel.equal (.object 3) (.object 0) = .ok false := by decide +kernel
  have hright : carousel.equal (.object 0) (.object 3) = .ok false := by decide +kernel
  refine ⟨carousel_cyclic, carousel_cart_acyclic, (hcyclic _ carousel_cyclic).2, ⟨text, htext⟩, ⟨false, hleft⟩, ?_, ?_⟩
  · rw [← hright]
    exact (hcompared _ _ (.inr carousel_cart_acyclic)).1
  · decide +kernel

end Thicket
