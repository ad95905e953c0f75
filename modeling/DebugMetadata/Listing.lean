/-!
# Listings

A listing hands out its items one by one and may fail on the way. Whoever takes
few enough items does not get to the failure, and whoever takes none does not
even start it.
-/

namespace DebugMetadata

structure Listing (ε α : Type) where
  items : List α
  failure : Option ε
  deriving Repr

namespace Listing

variable {ε α β : Type}

def ofExcept : Except ε (List α) → Listing ε α
  | .ok items => ⟨items, none⟩
  | .error e => ⟨[], some e⟩

/-- What comes of taking items one by one through a function that can fail, put
behind those of `found`, which are in reverse. -/
def through (f : α → Except ε β) (found : List β) : List α → Listing ε β
  | [] => ⟨found.reverse, none⟩
  | a :: as =>
    match f a with
    | .ok b => through f (b :: found) as
    | .error e => ⟨found.reverse, some e⟩

def all (l : Listing ε α) : Except ε (List α) :=
  match l.failure with
  | none => .ok l.items
  | some e => .error e

/-- At most so many items, if there is a limit, or the failure if it comes before
them. -/
def upTo (limit : Option Nat) (l : Listing ε α) : Except ε (List α) :=
  match limit with
  | none => l.all
  | some n => if n ≤ l.items.length then .ok (l.items.take n) else l.all

end Listing

end DebugMetadata
