/-!
# Tables: names and what they stand for, in order

A table is a list of named entries.  A name is inserted at the end the first time and keeps that place for good:
inserting it again only changes its entry.  Object fields, scopes, exports, and the objects of a document are all
tables, so the rule "first place, last entry" is stated once, here.

`get?_insert` and `names_insert` say all there is to know about `insert`.
-/
namespace Thicket

/-- Entries by name, oldest name first. -/
abbrev Table (α : Type) := List (String × α)

namespace Table

variable {α : Type}

def get? : Table α → String → Option α
  | [], _ => none
  | (k, v) :: rest, name => if k = name then some v else get? rest name

/-- Gives `name` the entry `v`, in the place it has or, if it has none, at the end. -/
def insert : Table α → String → α → Table α
  | [], name, v => [(name, v)]
  | (k, w) :: rest, name, v => if k = name then (k, v) :: rest else (k, w) :: insert rest name v

def names (t : Table α) : List String := t.map Prod.fst

def contains (t : Table α) (name : String) : Bool := (get? t name).isSome

/-- The table that inserting the pairs in order leaves. -/
def ofPairs (pairs : List (String × α)) : Table α :=
  pairs.foldl (fun t p => insert t p.1 p.2) []

/-- The entries in the order of their names, code point by code point. -/
def sorted (t : Table α) : Table α := t.mergeSort fun a b => decide (a.1 ≤ b.1)

@[simp] theorem get?_nil (name : String) : get? ([] : Table α) name = none := rfl

theorem get?_insert (t : Table α) (name other : String) (v : α) :
    get? (insert t name v) other = if name = other then some v else get? t other := by
  induction t with
  | nil => simp [insert, get?]
  | cons p rest ih =>
    obtain ⟨k, w⟩ := p
    by_cases hk : k = name
    · subst hk
      by_cases ho : k = other <;> simp [insert, get?, ho]
    · by_cases ho : k = other
      · subst ho
        simp [insert, get?, hk, Ne.symm hk]
      · simp [insert, get?, hk, ho, ih]

@[simp] theorem get?_insert_self (t : Table α) (name : String) (v : α) : get? (insert t name v) name = some v := by
  simp [get?_insert]

theorem get?_isSome_iff (t : Table α) (name : String) : (get? t name).isSome ↔ name ∈ names t := by
  induction t with
  | nil => simp [get?, names]
  | cons p rest ih =>
    obtain ⟨k, w⟩ := p
    by_cases hk : k = name
    · simp [get?, names, hk]
    · have hne : ¬ name = k := fun h => hk h.symm
      simpa [get?, names, hk, hne] using ih

theorem mem_of_get? {t : Table α} {name : String} {v : α} (h : get? t name = some v) : (name, v) ∈ t := by
  induction t with
  | nil => simp [get?] at h
  | cons p rest ih =>
    obtain ⟨k, w⟩ := p
    by_cases hk : k = name
    · simp only [get?, hk, if_true, Option.some.injEq] at h
      simp [hk, h]
    · simp only [get?, hk, if_false] at h
      exact List.mem_cons_of_mem _ (ih h)

theorem names_insert (t : Table α) (name : String) (v : α) :
    names (insert t name v) = if name ∈ names t then names t else names t ++ [name] := by
  induction t with
  | nil => simp [insert, names]
  | cons p rest ih =>
    obtain ⟨k, w⟩ := p
    by_cases hk : k = name
    · simp [insert, names, hk]
    · have hne : ¬ name = k := fun h => hk h.symm
      by_cases hm : name ∈ names rest
      · simp only [hm, if_true] at ih
        have : name ∈ names ((k, w) :: rest) := by simp only [names, List.map_cons, List.mem_cons]; exact .inr hm
        simp only [insert, hk, if_false, this, if_true]
        simp only [names, List.map_cons] at ih ⊢
        rw [ih]
      · simp only [hm, if_false] at ih
        have : ¬ name ∈ names ((k, w) :: rest) := by
          simp only [names, List.map_cons, List.mem_cons, hne, false_or]; exact hm
        simp only [insert, hk, if_false, this]
        simp only [names, List.map_cons, List.cons_append] at ih ⊢
        rw [ih]

theorem mem_names_insert (t : Table α) (name other : String) (v : α) :
    other ∈ names (insert t name v) ↔ other ∈ names t ∨ other = name := by
  rw [names_insert]
  by_cases hm : name ∈ names t
  · rw [if_pos hm]
    exact ⟨.inl, fun h => h.elim id fun heq => heq ▸ hm⟩
  · rw [if_neg hm, List.mem_append, List.mem_singleton]

theorem nodup_names_insert {t : Table α} (h : (names t).Nodup) (name : String) (v : α) :
    (names (insert t name v)).Nodup := by
  rw [names_insert]
  split
  · exact h
  · rename_i hnew
    exact List.nodup_append.2 ⟨h, by simp, fun a ha b hb heq => hnew (List.mem_singleton.1 hb ▸ heq ▸ ha)⟩

theorem nodup_names_ofPairs (pairs : List (String × α)) : (names (ofPairs pairs)).Nodup :=
  List.foldlRecOn (motive := fun t => (names t).Nodup) pairs _ List.nodup_nil fun _ h p _ =>
    nodup_names_insert h p.1 p.2

end Table
end Thicket
