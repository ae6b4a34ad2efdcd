import Thicket.Table
/-!
# Documents

A document is a parsed JSON text.  Two things that JSON itself leaves open are kept: whether a number was written as an
integer or as a double, and the order in which an object's names first appear.
-/
namespace Thicket

/-- A JSON document.  An object is a `Table`: every name once, in its first place, with its last value. -/
inductive Json where
  | null
  | bool (b : Bool)
  | int (n : Int)
  | float (x : Float)
  | str (s : String)
  | arr (items : List Json)
  | obj (fields : List (String × Json))
  deriving Inhabited

end Thicket
