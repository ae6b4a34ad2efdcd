import Mathlib.Data.List.Perm.Subperm
import Mathlib.Logic.Relation
import Thicket.Store
/-!
# How objects are nested

An object may hold others in its fields, and these hold others in turn.  Where none is nested in itself, the nesting
ends, and it is never deeper than there are objects in the store: a longer way down would meet one of them twice
(`acyclic_iff_nestedWithin`).  So whatever goes down into a value step by step can be followed by induction on a number.
-/
namespace Thicket.Store

/-- The first object has the second in one of its fields. -/
def Holds (s : Store) (a b : ObjectId) : Prop := ∃ name, (name, Value.object b) ∈ s.fields a

/-- The value is the object, or the object is nested in it. -/
def Reaches (s : Store) (v : Value) (o : ObjectId) : Prop := ∃ a, v = .object a ∧ Relation.ReflTransGen s.Holds a o

/-- No object in the value is nested in itself. -/
def Acyclic (s : Store) (v : Value) : Prop := ∀ o, s.Reaches v o → ¬ Relation.TransGen s.Holds o o

/-- Objects in the value are nested less than `n` deep. -/
def NestedWithin (s : Store) : Nat → Value → Prop
  | 0, _ => False
  | n + 1, v => ∀ o, v = .object o → ∀ x ∈ s.fields o, s.NestedWithin n x.2

variable {s : Store} {v : Value} {o a b : ObjectId} {n : Nat}

theorem lt_size_of_mem_fields {x : String × Value} (h : x ∈ s.fields o) : o < s.objects.size := by
  by_contra hge
  rw [fields, Array.getElem?_eq_none (Nat.le_of_not_lt hge)] at h
  cases h

/-! ## One step down -/

theorem reaches_self (s : Store) (o : ObjectId) : s.Reaches (.object o) o := ⟨o, rfl, .refl⟩

theorem Reaches.of_field {x : String × Value} (hx : x ∈ s.fields a) (h : s.Reaches x.2 o) :
    s.Reaches (.object a) o := by
  obtain ⟨b, hb, hreach⟩ := h
  exact ⟨a, rfl, .head ⟨x.1, hb ▸ hx⟩ hreach⟩

/-- What is reached from a field of an object is nested in the object. -/
theorem transGen_of_field {x : String × Value} (hx : x ∈ s.fields a) (h : s.Reaches x.2 o) :
    Relation.TransGen s.Holds a o := by
  obtain ⟨b, hb, hreach⟩ := h
  exact .head' ⟨x.1, hb ▸ hx⟩ hreach

theorem Acyclic.field {x : String × Value} (h : s.Acyclic (.object a)) (hx : x ∈ s.fields a) : s.Acyclic x.2 :=
  fun o ho => h o (ho.of_field hx)

theorem Acyclic.not_reaches_of_field {x : String × Value} (h : s.Acyclic (.object a)) (hx : x ∈ s.fields a) :
    ¬ s.Reaches x.2 a :=
  fun ha => h a (s.reaches_self a) (transGen_of_field hx ha)

theorem acyclic_of_fields (h : ∀ x ∈ s.fields a, s.Acyclic x.2) : s.Acyclic (.object a) := by
  rintro o ⟨_, ⟨⟩, hreach⟩ hcycle
  rcases Relation.ReflTransGen.cases_head hreach with rfl | ⟨b, ⟨name, hb⟩, hrest⟩
  · -- the cycle leaves the object through a field, so that it is also one of the object in that field
    obtain ⟨b, ⟨name, hb⟩, hback⟩ := Relation.TransGen.head'_iff.1 hcycle
    exact h (name, .object b) hb b (s.reaches_self b) (.tail' hback ⟨name, hb⟩)
  · exact h (name, .object b) hb o ⟨b, rfl, hrest⟩ hcycle

theorem acyclic_of_ne_object (h : ∀ o, v ≠ .object o) : s.Acyclic v := by
  rintro o ⟨a, rfl, -⟩
  exact absurd rfl (h a)

/-! ## All the way down -/

theorem NestedWithin.field {x : String × Value} (h : s.NestedWithin (n + 1) (.object a)) (hx : x ∈ s.fields a) :
    s.NestedWithin n x.2 := h a rfl x hx

theorem NestedWithin.mono : ∀ {n n' : Nat} {v : Value}, n ≤ n' → s.NestedWithin n v → s.NestedWithin n' v
  | _ + 1, _ + 1, _, hle, h => fun o ho x hx => (h o ho x hx).mono (Nat.le_of_succ_le_succ hle)

theorem NestedWithin.acyclic : ∀ {n : Nat} {v : Value}, s.NestedWithin n v → s.Acyclic v
  | n + 1, v, h => by
    cases v with
    | object a => exact acyclic_of_fields fun x hx => (h.field hx).acyclic
    | number _ | boolean _ | string _ | null | closure _ | native _ =>
      exact acyclic_of_ne_object fun _ ho => by cases ho

/-- Where objects are nested too deep, there is a way down of any length up to that. -/
theorem exists_path_of_not_nestedWithin : ∀ (n : Nat) (v : Value), ¬ s.NestedWithin n v →
    ∃ path : List ObjectId, path.length = n ∧ path.IsChain s.Holds ∧ (∀ o ∈ path, o < s.objects.size) ∧
      ∀ o ∈ path.head?, v = .object o
  | 0, _, _ => ⟨[], rfl, .nil, fun _ ho => (by cases ho), fun _ ho => (by cases ho)⟩
  | n + 1, v, h => by
    simp only [NestedWithin, Classical.not_forall] at h
    obtain ⟨o, rfl, x, hx, hdeep⟩ := h
    obtain ⟨path, hlength, hchain, hsize, hhead⟩ := exists_path_of_not_nestedWithin n x.2 hdeep
    refine ⟨o :: path, congrArg (· + 1) hlength, ?_, ?_, ?_⟩
    · cases path with
      | nil => exact .singleton o
      | cons b rest => exact List.isChain_cons_cons.2 ⟨⟨x.1, hhead b rfl ▸ hx⟩, hchain⟩
    · exact List.forall_mem_cons.2 ⟨lt_size_of_mem_fields hx, hsize⟩
    · rintro b ⟨⟩
      rfl

theorem Acyclic.nestedWithin (h : s.Acyclic v) : s.NestedWithin (s.objects.size + 1) v := by
  by_contra hdeep
  obtain ⟨path, hlength, hchain, hsize, hhead⟩ := exists_path_of_not_nestedWithin _ v hdeep
  have htrans : IsTrans ObjectId (Relation.TransGen s.Holds) := ⟨fun _ _ _ => Relation.TransGen.trans⟩
  have hpairwise := List.isChain_iff_pairwise.1 (hchain.imp fun _ _ => Relation.TransGen.single)
  have hreached : ∀ o ∈ path, s.Reaches v o := by
    cases path with
    | nil => exact fun _ ho => by cases ho
    | cons first rest =>
      have hv : v = .object first := hhead first rfl
      refine List.forall_mem_cons.2 ⟨⟨first, hv, .refl⟩, fun o ho => ⟨first, hv, ?_⟩⟩
      exact ((List.pairwise_cons.1 hpairwise).1 o ho).to_reflTransGen
  have hnodup : path.Nodup := by
    refine hpairwise.imp_of_mem fun ha _ hab heq => ?_
    rw [← heq] at hab
    exact h _ (hreached _ ha) hab
  -- there are more objects on the path than in the store
  have hrange : path ⊆ List.range s.objects.size := fun o ho => List.mem_range.2 (hsize o ho)
  have hle := (List.subperm_of_subset hnodup hrange).length_le
  rw [hlength, List.length_range] at hle
  omega

/-- **Objects that are not nested in themselves are not nested deeper than there are objects.** -/
theorem acyclic_iff_nestedWithin : s.Acyclic v ↔ s.NestedWithin (s.objects.size + 1) v :=
  ⟨Acyclic.nestedWithin, NestedWithin.acyclic⟩

end Thicket.Store
