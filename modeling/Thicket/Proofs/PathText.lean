import Thicket.Document.Error
/-!
# The text of a path

A path is told as a text, in which the steps stand one after the other with nothing in between.  Still they can be made
out again, as long as they go by names without a dot or a bracket (`Path.eq_of_characters`): a name goes on up to the
next dot or bracket, and a number up to the bracket that closes it.

A step by an index alone may only be the first.  Elsewhere it could not be told from the end of the step before it: the
text `.a[0]` stands for one step, and it would also stand for two.
-/
namespace Thicket

/-- No character of the name could be the first one after it. -/
def Plain (name : String) : Prop := '.' ∉ name.toList ∧ '[' ∉ name.toList

instance (name : String) : Decidable (Plain name) :=
  inferInstanceAs (Decidable ('.' ∉ name.toList ∧ '[' ∉ name.toList))

def Segment.Named : Segment → Prop
  | index _ => False
  | key name | item name _ => Plain name

/-- A text without marks ends where the first mark is. -/
theorem append_unique (mark : Char → Prop) : ∀ {a b rest rest' : List Char}, (∀ c ∈ a, ¬ mark c) →
    (∀ c ∈ b, ¬ mark c) → (∀ c ∈ rest.head?, mark c) → (∀ c ∈ rest'.head?, mark c) → a ++ rest = b ++ rest' →
    a = b ∧ rest = rest'
  | [], [], _, _, _, _, _, _, h => ⟨rfl, h⟩
  | [], c :: b, _, _, _, hb, hrest, _, h => by
    rw [List.nil_append] at h
    subst h
    exact absurd (hrest c rfl) (hb c List.mem_cons_self)
  | c :: a, [], _, _, ha, _, _, hrest', h => by
    rw [List.nil_append] at h
    subst h
    exact absurd (hrest' c rfl) (ha c List.mem_cons_self)
  | c :: a, d :: b, _, _, ha, hb, hrest, hrest', h => by
    obtain ⟨rfl, htail⟩ := List.cons.inj h
    obtain ⟨rfl, heq⟩ := append_unique mark (fun x hx => ha x (List.mem_cons_of_mem c hx))
      (fun x hx => hb x (List.mem_cons_of_mem c hx)) hrest hrest' htail
    exact ⟨rfl, heq⟩

/-! ## The text of a step -/

namespace Segment

def characters (step : Segment) : List Char := step.text.toList

theorem characters_index (i : Nat) : (index i).characters = '[' :: (Nat.toDigits 10 i ++ [']']) := by
  simp [characters, text, String.toList_append]

theorem characters_key (name : String) : (key name).characters = '.' :: name.toList := by
  rw [characters, text, String.toList_append]
  rfl

theorem characters_item (name : String) (i : Nat) :
    (item name i).characters = '.' :: (name.toList ++ (index i).characters) := by
  simp only [characters, text, String.toList_append, List.append_assoc]
  rfl

theorem index_unique {i j : Nat} {rest rest' : List Char}
    (h : (index i).characters ++ rest = (index j).characters ++ rest') : i = j ∧ rest = rest' := by
  simp only [characters_index, List.cons_append, List.append_assoc, List.nil_append] at h
  have hdigits : ∀ n, ∀ c ∈ Nat.toDigits 10 n, ¬ c = ']' := by
    rintro n _ hc rfl
    exact absurd (Nat.isDigit_of_mem_toDigits (by decide) (by decide) hc) (by decide)
  obtain ⟨heq, h⟩ := append_unique (· = ']') (hdigits i) (hdigits j) (by simp) (by simp) (List.cons.inj h).2
  refine ⟨?_, (List.cons.inj h).2⟩
  rw [← Nat.ofDigitChars_ten_toDigits (n := i), heq, Nat.ofDigitChars_ten_toDigits]

theorem head_index (i : Nat) (rest : List Char) : ∀ c ∈ ((index i).characters ++ rest).head?, c = '.' ∨ c = '[' := by
  simp [characters_index]

theorem name_unique {name name' : String} {rest rest' : List Char} (hname : Plain name) (hname' : Plain name')
    (hrest : ∀ c ∈ rest.head?, c = '.' ∨ c = '[') (hrest' : ∀ c ∈ rest'.head?, c = '.' ∨ c = '[')
    (h : name.toList ++ rest = name'.toList ++ rest') : name = name' ∧ rest = rest' := by
  have hplain {s : String} (hs : Plain s) : ∀ c ∈ s.toList, ¬ (c = '.' ∨ c = '[') := by
    rintro _ hc (rfl | rfl)
    · exact hs.1 hc
    · exact hs.2 hc
  obtain ⟨heq, hrests⟩ := append_unique _ (hplain hname) (hplain hname') hrest hrest' h
  exact ⟨String.toList_inj.1 heq, hrests⟩

/-- After a step to the value of a property no bracket follows. -/
theorem key_append_ne_item {name name' : String} {i : Nat} {rest rest' : List Char} (hname : Plain name)
    (hname' : Plain name') (hrest : ∀ c ∈ rest.head?, c = '.') :
    (key name).characters ++ rest ≠ (item name' i).characters ++ rest' := by
  intro h
  rw [characters_key, characters_item, List.cons_append, List.cons_append, List.append_assoc] at h
  obtain ⟨-, heq⟩ := name_unique hname hname' (fun c hc => .inl (hrest c hc)) (head_index i rest') (List.cons.inj h).2
  simp [heq, characters_index] at hrest

/-- A step by name ends where the text ends or the dot of the next one is. -/
theorem named_unique {step step' : Segment} {rest rest' : List Char} (hstep : step.Named) (hstep' : step'.Named)
    (hrest : ∀ c ∈ rest.head?, c = '.') (hrest' : ∀ c ∈ rest'.head?, c = '.')
    (h : step.characters ++ rest = step'.characters ++ rest') : step = step' ∧ rest = rest' := by
  cases step with
  | index i => exact hstep.elim
  | key name =>
    cases step' with
    | index j => exact hstep'.elim
    | key name' =>
      rw [characters_key, characters_key] at h
      obtain ⟨rfl, heq⟩ := name_unique hstep hstep' (fun c hc => .inl (hrest c hc)) (fun c hc => .inl (hrest' c hc))
        (List.cons.inj h).2
      exact ⟨rfl, heq⟩
    | item name' j => exact absurd h (key_append_ne_item hstep hstep' hrest)
  | item name i =>
    cases step' with
    | index j => exact hstep'.elim
    | key name' => exact absurd h.symm (key_append_ne_item hstep' hstep hrest')
    | item name' j =>
      simp only [characters_item, List.cons_append, List.append_assoc] at h
      obtain ⟨rfl, hindex⟩ := name_unique hstep hstep' (head_index i rest) (head_index j rest') (List.cons.inj h).2
      obtain ⟨rfl, heq⟩ := index_unique hindex
      exact ⟨rfl, heq⟩

end Segment

/-! ## The text of a path -/

namespace Path

def characters (p : Path) : List Char := p.flatMap Segment.characters

theorem toList_text (p : Path) : p.text.toList = '$' :: p.characters := by
  rw [text, String.toList_append, String.toList_join, List.flatMap_map]
  rfl

theorem characters_cons (step : Segment) (p : Path) :
    characters (step :: p) = step.characters ++ characters p := List.flatMap_cons

theorem head_of_named {p : Path} (hp : ∀ step ∈ p, step.Named) : ∀ c ∈ p.characters.head?, c = '.' := by
  intro c hc
  cases p with
  | nil => cases hc
  | cons step p =>
    rw [characters_cons] at hc
    cases step with
    | index i => exact (hp _ List.mem_cons_self).elim
    | key name =>
      rw [Segment.characters_key] at hc
      exact (Option.some.inj hc).symm
    | item name i =>
      rw [Segment.characters_item] at hc
      exact (Option.some.inj hc).symm

theorem characters_cons_ne_nil (step : Segment) (p : Path) : characters (step :: p) ≠ [] := by
  rw [characters_cons]
  cases step with
  | index i => simp [Segment.characters_index]
  | key name => simp [Segment.characters_key]
  | item name i => simp [Segment.characters_item]

/-- **Steps by name can be made out in a text.** -/
theorem eq_of_characters : ∀ {p q : Path}, (∀ step ∈ p, step.Named) → (∀ step ∈ q, step.Named) →
    p.characters = q.characters → p = q
  | [], [], _, _, _ => rfl
  | [], step :: q, _, _, h => absurd h.symm (characters_cons_ne_nil step q)
  | step :: p, [], _, _, h => absurd h (characters_cons_ne_nil step p)
  | step :: p, step' :: q, hp, hq, h => by
    obtain ⟨hstep, hp'⟩ := List.forall_mem_cons.1 hp
    obtain ⟨hstep', hq'⟩ := List.forall_mem_cons.1 hq
    rw [characters_cons, characters_cons] at h
    obtain ⟨rfl, hrest⟩ := Segment.named_unique hstep hstep' (head_of_named hp') (head_of_named hq') h
    rw [eq_of_characters hp' hq' hrest]

theorem eq_of_text {p q : Path} (hp : ∀ step ∈ p, step.Named) (hq : ∀ step ∈ q, step.Named) (h : p.text = q.text) :
    p = q := by
  rw [← String.toList_inj, toList_text, toList_text] at h
  exact eq_of_characters hp hq (List.cons.inj h).2

/-- A path may begin with an index. -/
theorem eq_of_text_index {i j : Nat} {p q : Path} (hp : ∀ step ∈ p, step.Named) (hq : ∀ step ∈ q, step.Named)
    (h : Path.text (.index i :: p) = Path.text (.index j :: q)) : i = j ∧ p = q := by
  rw [← String.toList_inj, toList_text, toList_text, characters_cons, characters_cons] at h
  obtain ⟨hindex, hrest⟩ := Segment.index_unique (List.cons.inj h).2
  exact ⟨hindex, eq_of_characters hp hq hrest⟩

end Path
end Thicket
