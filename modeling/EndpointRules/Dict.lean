import EndpointRules.Bytes

/-!
# Maps with byte-string keys

A map is the list of its entries in ascending order of their keys, so that equal maps are equal
lists.  `insert` is one pass over the list; the lookup laws need no order, and `insert`, `erase`
and `ofPairs` give ordered lists from ordered lists.
-/

namespace EndpointRules

/-- Entries in ascending order of their keys. -/
abbrev Dict (α : Type) := List (Bytes × α)

namespace Dict

variable {α β : Type}

/-- The keys ascend strictly; in particular no key occurs twice. -/
def Sorted (d : Dict α) : Prop := d.Pairwise fun a b => a.1 < b.1

/-- The entry of a key. -/
def get? (d : Dict α) (key : Bytes) : Option α := (d.find? (·.1 == key)).map (·.2)

/-- Enters a value, in place of the key's value if there is one. -/
def insert (d : Dict α) (key : Bytes) (value : α) : Dict α :=
  match d with
  | [] => [(key, value)]
  | (k, v) :: rest =>
    if key < k then (key, value) :: (k, v) :: rest
    else if key = k then (key, value) :: rest
    else (k, v) :: Dict.insert rest key value

/-- Removes a key. -/
def erase (d : Dict α) (key : Bytes) : Dict α := d.filter fun e => e.1 != key

/-- The value of a key changed by `f`, which sees `none` for a missing key. -/
def alter (d : Dict α) (key : Bytes) (f : Option α → α) : Dict α := d.insert key (f (d.get? key))

/-- Whether the keys ascend strictly. -/
def isSorted : Dict α → Bool
  | a :: b :: rest => decide (a.1 < b.1) && isSorted (b :: rest)
  | _ => true

/-- The map with the given entries, of which the last of each key counts.  Entries already in
    order are the map itself; otherwise they are inserted one after the other. -/
def ofPairs (pairs : List (Bytes × α)) : Dict α :=
  if isSorted pairs then pairs else pairs.foldl (fun d e => d.insert e.1 e.2) []

theorem get?_insert (d : Dict α) (key k : Bytes) (value : α) :
    (d.insert key value).get? k = if key = k then some value else d.get? k := by
  induction d with
  | nil => by_cases h : key = k <;> simp [insert, get?, h]
  | cons e rest ih =>
    obtain ⟨l, v⟩ := e
    simp only [get?] at ih
    rw [insert]
    grind [get?]

theorem get?_erase (d : Dict α) (key k : Bytes) :
    (d.erase key).get? k = if key = k then none else d.get? k := by
  induction d with
  | nil => simp [erase, get?]
  | cons e rest ih =>
    simp only [get?, erase] at ih ⊢
    by_cases hkey : e.1 = key
    · rw [List.filter_cons_of_neg (by simp [hkey]), ih]
      by_cases h : key = k
      · rw [if_pos h, if_pos h]
      · rw [if_neg h, if_neg h, List.find?_cons_of_neg (by simp [hkey, h])]
    · rw [List.filter_cons_of_pos (by simp [hkey])]
      by_cases h : e.1 = k
      · rw [List.find?_cons_of_pos (by simp [h]), List.find?_cons_of_pos (by simp [h]),
          if_neg fun heq => hkey (h.trans heq.symm)]
      · rw [List.find?_cons_of_neg (by simp [h]), List.find?_cons_of_neg (by simp [h]), ih]

end Dict

end EndpointRules
