/-!
# Maps with the least recently used entry last

A map that may have a capacity, and gives up the entry that was used longest ago when it would hold
more entries than that.  The map is not taken apart any further: it is assumed to behave as a row of
entries, the most recently used one first, in which no key occurs twice.  Putting an entry in makes
it the most recent one, and so does using it, which is the same as putting it in again; looking at
an entry changes nothing.
-/

namespace MarkupTemplate

structure LruMap (Key Item : Type) where
  /-- The largest number of entries; without one there is no limit. -/
  capacity : Option Nat
  /-- The most recently used entry comes first. -/
  entries : List (Key × Item) := []
  deriving DecidableEq, Repr

namespace LruMap

variable {Key Item : Type}

def size (map : LruMap Key Item) : Nat :=
  map.entries.length

/-- The keys that the map holds, the most recent first. -/
def keys (map : LruMap Key Item) : List Key :=
  map.entries.map Prod.fst

/-- The entries that the capacity allows to keep. -/
def keep (map : LruMap Key Item) (entries : List (Key × Item)) : List (Key × Item) :=
  match map.capacity with
  | some capacity => entries.take capacity
  | none => entries

def clear (map : LruMap Key Item) : LruMap Key Item :=
  { map with entries := [] }

variable [DecidableEq Key]

/-- The item of a key, if the map holds it.  Looking does not count as use. -/
def find? (map : LruMap Key Item) (key : Key) : Option Item :=
  (map.entries.find? fun entry => entry.1 = key).map Prod.snd

def others (map : LruMap Key Item) (key : Key) : List (Key × Item) :=
  map.entries.filter fun entry => entry.1 ≠ key

/-- Make a key the most recently used one, with the given item. -/
def put (map : LruMap Key Item) (key : Key) (item : Item) : LruMap Key Item :=
  { map with entries := map.keep ((key, item) :: map.others key) }

end LruMap

end MarkupTemplate
