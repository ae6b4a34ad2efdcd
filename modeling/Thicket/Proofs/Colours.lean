import Mathlib.Data.List.Basic
import Mathlib.Data.List.Find
import Thicket.Static.Graph
/-!
# The search in three colours

The search for a cycle keeps a stack and gives each module a colour: white before it is met, grey while it is on the
stack, black from then on.  It looks at the colours only, so that it is right just because grey modules are the ones on
the stack, which `Shows` says of a walk beside the path and the list of what is done that `Graph.search` has.  Each pass
of the loop keeps to the search (`follows_search`), so both come to the same end (`ends_iff`).
-/
namespace Thicket

inductive Colour where
  | white
  | grey
  | black
  deriving DecidableEq

/-- A search on its way: the modules to begin from, the stack, its top last, and the colours. -/
structure ColourWalk where
  starts : List String
  stack : List String
  colours : Table Colour

namespace ColourWalk

/-- The first of the modules that has the colour. -/
def first? (w : ColourWalk) (c : Colour) (names : List String) : Option String :=
  names.find? fun n => decide (Table.get? w.colours n = some c)

def push (w : ColourWalk) (name : String) : ColourWalk :=
  { w with stack := w.stack ++ [name], colours := Table.insert w.colours name .grey }

def pop (w : ColourWalk) (top : String) : ColourWalk :=
  { w with stack := w.stack.dropLast, colours := Table.insert w.colours top .black }

/-- One pass with a module on top of the stack: a cycle, or the walk that goes on. -/
def passAt (g : Graph) (w : ColourWalk) (top : String) : Option (List String) ⊕ ColourWalk :=
  match w.first? .grey (g.importersOf top) with
  | some t => .inl (some (w.stack.drop (w.stack.idxOf t)).reverse)
  | none =>
    match w.first? .white (g.importersOf top) with
    | some t => .inr (w.push t)
    | none => .inr (w.pop top)

/-- One pass.  With nothing on the stack it is the next start's turn, which is left out unless it is white. -/
def pass (g : Graph) (w : ColourWalk) : Option (List String) ⊕ ColourWalk :=
  match w.stack.getLast? with
  | some top => w.passAt g top
  | none =>
    match w.starts with
    | [] => .inl none
    | start :: rest =>
      if Table.get? w.colours start = some .white then .inr (push { w with starts := rest } start)
      else .inr { w with starts := rest }

/-- The loop comes to its end, with this answer. -/
inductive Ends (g : Graph) : ColourWalk → Option (List String) → Prop
  | now {w : ColourWalk} {answer : Option (List String)} : w.pass g = .inl answer → Ends g w answer
  | later {w w' : ColourWalk} {answer : Option (List String)} : w.pass g = .inr w' → Ends g w' answer → Ends g w answer

/-- All modules are white, and each is a start. -/
def fresh (g : Graph) : ColourWalk := ⟨g.nodes, [], Table.ofPairs (g.nodes.map fun n => (n, .white))⟩

theorem Ends.unique {g : Graph} {w : ColourWalk} {answer answer' : Option (List String)} (h : Ends g w answer)
    (h' : Ends g w answer') : answer = answer' := by
  induction h with
  | now hpass =>
    cases h' with
    | now hpass' => exact Sum.inl.inj (hpass.symm.trans hpass')
    | later hpass' _ => exact absurd (hpass.symm.trans hpass') Sum.inl_ne_inr
  | later hpass _ ih =>
    cases h' with
    | now hpass' => exact absurd (hpass'.symm.trans hpass) Sum.inl_ne_inr
    | later hpass' hrest => exact ih (Sum.inr.inj (hpass.symm.trans hpass') ▸ hrest)

/-! ## Beside the path -/

/-- The colour of a module, by the path and by what is done. -/
def colourBy (path done : List String) (n : String) : Colour :=
  if n ∈ path then .grey else if n ∈ done then .black else .white

/-- **Grey modules are the ones on the stack**, and black ones are done, at every module of the graph. -/
structure Shows (g : Graph) (w : ColourWalk) (path done : List String) : Prop where
  stack : w.stack = path.reverse
  nodup : path.Nodup
  colour : ∀ n ∈ g.nodes, Table.get? w.colours n = some (colourBy path done n)

theorem colourBy_eq_grey (path done : List String) (n : String) : colourBy path done n = .grey ↔ n ∈ path := by
  unfold colourBy
  split_ifs <;> simp_all

theorem colourBy_eq_white (path done : List String) (n : String) :
    colourBy path done n = .white ↔ n ∉ path ∧ n ∉ done := by
  unfold colourBy
  split_ifs <;> simp_all

variable {g : Graph} {w : ColourWalk} {path done : List String}

theorem Shows.get?_eq_some_iff (h : w.Shows g path done) {n : String} (hn : n ∈ g.nodes) (c : Colour) :
    Table.get? w.colours n = some c ↔ colourBy path done n = c := by
  rw [h.colour n hn, Option.some.injEq]

theorem Shows.first?_grey (h : w.Shows g path done) {names : List String} (hnames : names ⊆ g.nodes) :
    w.first? .grey names = names.find? fun n => decide (n ∈ path) := by
  unfold first?
  refine List.find?_congr fun n hn => ?_
  rw [decide_eq_decide, h.get?_eq_some_iff (hnames hn), colourBy_eq_grey]

/-- While none of the modules is grey, the white ones are those that are not done. -/
theorem Shows.first?_white (h : w.Shows g path done) {names : List String} (hnames : names ⊆ g.nodes)
    (hgrey : ∀ n ∈ names, n ∉ path) : w.first? .white names = names.find? fun n => decide (n ∉ done) := by
  unfold first?
  refine List.find?_congr fun n hn => ?_
  rw [decide_eq_decide, h.get?_eq_some_iff (hnames hn), colourBy_eq_white]
  exact and_iff_right (hgrey n hn)

theorem shows_push (h : w.Shows g path done) {t : String} (ht : t ∉ path) : (w.push t).Shows g (t :: path) done := by
  refine ⟨by simp [push, h.stack], List.nodup_cons.2 ⟨ht, h.nodup⟩, fun n hn => ?_⟩
  rw [push, Table.get?_insert, h.colour n hn]
  by_cases htn : t = n
  · simp [colourBy, htn]
  · simp [colourBy, htn, Ne.symm htn]

theorem shows_pop {top : String} {below : List String} (h : w.Shows g (top :: below) done) :
    (w.pop top).Shows g below (top :: done) := by
  have hnodup := List.nodup_cons.1 h.nodup
  refine ⟨by simp [pop, h.stack], hnodup.2, fun n hn => ?_⟩
  rw [pop, Table.get?_insert, h.colour n hn]
  by_cases htn : top = n
  · subst htn
    simp [colourBy, hnodup.1]
  · simp [colourBy, htn, Ne.symm htn]

/-- What a stack without repetition has from a module up to its top, read from the top. -/
theorem reverse_drop_idxOf {t : String} (hnodup : path.Nodup) (ht : t ∈ path) :
    (path.reverse.drop (path.reverse.idxOf t)).reverse = path.takeWhile (fun a => decide (a ≠ t)) ++ [t] := by
  obtain ⟨pre, post, rfl⟩ := List.append_of_mem ht
  have hpre : t ∉ pre := fun h => (List.nodup_append.1 hnodup).2.2 t h t List.mem_cons_self rfl
  have hpost : t ∉ post.reverse := fun h =>
    (List.nodup_cons.1 (List.nodup_append.1 hnodup).2.1).1 (List.mem_reverse.1 h)
  have hrev : (pre ++ t :: post).reverse = post.reverse ++ t :: pre.reverse := by simp
  have hidx : (post.reverse ++ t :: pre.reverse).idxOf t = post.reverse.length := by
    rw [List.idxOf_append_of_notMem hpost, List.idxOf_cons_self, Nat.add_zero]
  have htake : (pre ++ t :: post).takeWhile (fun a => decide (a ≠ t)) = pre := by
    rw [List.takeWhile_append_of_pos fun a ha => by simpa using ne_of_mem_of_not_mem ha hpre]
    simp
  rw [hrev, hidx, List.drop_left, htake]
  simp

theorem Shows.pass_eq {top : String} {below : List String} (h : w.Shows g (top :: below) done) :
    w.pass g = w.passAt g top := by
  have htop : w.stack.getLast? = some top := by simp [h.stack]
  simp only [pass, htop]

/-- While no importer of the top is grey, the first that is not done goes on the stack.  If all are done, the top comes
off. -/
theorem Shows.pass_of_white {top : String} {below : List String} (h : w.Shows g (top :: below) done)
    (hnames : g.importersOf top ⊆ g.nodes) (hgrey : ∀ n ∈ g.importersOf top, n ∉ top :: below) :
    w.pass g = .inr (((g.importersOf top).find? fun n => decide (n ∉ done)).elim (w.pop top) w.push) := by
  have hback : ((g.importersOf top).find? fun n => decide (n ∈ top :: below)) = none := by simpa using hgrey
  rw [h.pass_eq, passAt, h.first?_grey hnames, hback]
  simp only [h.first?_white hnames hgrey]
  cases (g.importersOf top).find? fun n => decide (n ∉ done) <;> rfl

/-- What the end of a search makes of the loop: it ends with the cycle, or goes on with an empty stack. -/
def Follows (g : Graph) (w : ColourWalk) : Graph.Search → Prop
  | .found cycle => Ends g w (some cycle)
  | .clear done => ∃ w', w'.Shows g [] done ∧ w'.starts = w.starts ∧ ∀ answer, Ends g w' answer → Ends g w answer

theorem Follows.later {w' : ColourWalk} {r : Graph.Search} (h : w'.Follows g r) (hpass : w.pass g = .inr w')
    (hstarts : w'.starts = w.starts) : w.Follows g r := by
  cases r with
  | found cycle => exact Ends.later hpass h
  | clear done =>
    obtain ⟨w₁, hshows, hstarts₁, hends⟩ := h
    exact ⟨w₁, hshows, hstarts₁.trans hstarts, fun answer ha => .later hpass (hends answer ha)⟩

/-- **The loop keeps to the search**, step by step. -/
theorem follows_search (hclosed : ∀ n, g.importersOf n ⊆ g.nodes) (h : w.Shows g path done) :
    w.Follows g (g.search path done) := by
  fun_induction g.search path done generalizing w with
  | case1 done => exact ⟨w, h, rfl, fun _ hends => hends⟩
  | case2 done top below t hback =>
    have hmem : t ∈ top :: below := by simpa using List.find?_some hback
    refine Ends.now ?_
    rw [h.pass_eq, passAt, h.first?_grey (hclosed top), hback, h.stack]
    simp only [reverse_drop_idxOf h.nodup hmem]
  | case3 done top below hback t hnext ih =>
    have hgrey : ∀ n ∈ g.importersOf top, n ∉ top :: below := by simpa using hback
    have hpass := h.pass_of_white (hclosed top) hgrey
    rw [hnext] at hpass
    exact (ih (shows_push h (hgrey t (List.mem_of_find?_eq_some hnext)))).later hpass rfl
  | case4 done top below hback hnext ih =>
    have hpass := h.pass_of_white (hclosed top) (by simpa using hback)
    rw [hnext] at hpass
    exact (ih (shows_pop h)).later hpass rfl

theorem Shows.pass_eq_start {start : String} {rest : List String} (h : w.Shows g [] done)
    (hstarts : w.starts = start :: rest) (hstart : start ∈ g.nodes) :
    w.pass g = .inr (if start ∈ done then { w with starts := rest } else push { w with starts := rest } start) := by
  have hempty : w.stack.getLast? = none := by simp [h.stack]
  simp only [pass, hempty, hstarts, h.get?_eq_some_iff hstart, colourBy_eq_white]
  by_cases hdone : start ∈ done <;> simp [hdone]

/-- The answer that the end of a search gives. -/
def answerOf : Graph.Search → Option (List String)
  | .found cycle => some cycle
  | .clear _ => none

/-- With an empty stack, the loop comes to the end of the search from the starts that are left. -/
theorem ends_searchFrom (hclosed : ∀ n, g.importersOf n ⊆ g.nodes) : ∀ (starts done : List String) (w : ColourWalk),
    w.starts = starts → starts ⊆ g.nodes → w.Shows g [] done → Ends g w (answerOf (g.searchFrom starts done))
  | [], done, w, hstarts, _, h => by
    refine .now ?_
    have hempty : w.stack.getLast? = none := by simp [h.stack]
    simp only [pass, hempty, hstarts]
    rfl
  | start :: rest, done, w, hstarts, hnodes, h => by
    have hpass := h.pass_eq_start hstarts (hnodes List.mem_cons_self)
    have hrest : rest ⊆ g.nodes := fun n hn => hnodes (List.mem_cons_of_mem start hn)
    have hleft : ColourWalk.Shows g { w with starts := rest } [] done := ⟨h.stack, h.nodup, h.colour⟩
    rw [Graph.searchFrom]
    by_cases hdone : start ∈ done
    · rw [if_pos hdone] at hpass ⊢
      exact .later hpass (ends_searchFrom hclosed rest done _ rfl hrest hleft)
    · rw [if_neg hdone] at hpass ⊢
      have hfollows := follows_search hclosed (shows_push hleft (List.not_mem_nil (a := start)))
      cases hs : g.search [start] done with
      | found cycle =>
        rw [hs] at hfollows
        exact .later hpass hfollows
      | clear done₁ =>
        rw [hs] at hfollows
        obtain ⟨w', hshows, hstarts', hends⟩ := hfollows
        exact .later hpass (hends _ (ends_searchFrom hclosed rest done₁ w' hstarts' hrest hshows))

theorem get?_foldl_insert (c : Colour) (n : String) : ∀ (names : List String) (t : Table Colour),
    Table.get? ((names.map fun a => (a, c)).foldl (fun t p => Table.insert t p.1 p.2) t) n =
      if n ∈ names then some c else Table.get? t n
  | [], _ => by simp
  | a :: names, t => by
    rw [List.map_cons, List.foldl_cons, get?_foldl_insert c n names, Table.get?_insert]
    by_cases hn : n ∈ names
    · simp [hn]
    · by_cases ha : a = n
      · simp [ha]
      · simp [hn, ha, Ne.symm ha]

theorem shows_fresh (g : Graph) : (fresh g).Shows g [] [] := by
  refine ⟨rfl, List.nodup_nil, fun n hn => ?_⟩
  rw [fresh, Table.ofPairs, get?_foldl_insert, if_pos hn]
  rfl

/-- **The loop in three colours ends with the answer of the search**, and with no other, in a graph whose importers are
all among its modules. -/
theorem ends_iff (hclosed : ∀ n, g.importersOf n ⊆ g.nodes) (answer : Option (List String)) :
    Ends g (fresh g) answer ↔ answer = g.cycle? := by
  have hends := ends_searchFrom hclosed g.nodes [] (fresh g) rfl (List.Subset.refl _) (shows_fresh g)
  have hanswer : answerOf (g.searchFrom g.nodes []) = g.cycle? := by
    rw [Graph.cycle?]
    cases g.searchFrom g.nodes [] <;> rfl
  rw [hanswer] at hends
  exact ⟨fun h => h.unique hends, fun h => h ▸ hends⟩

end ColourWalk
end Thicket
