/-!
# Addresses

An address in code is a number of 32 bits.  Code may be longer than that; the number of an offset
behind the last address is the address that it has in 32 bits.
-/

namespace EndpointRules

/-- The address that a number is in 32 bits. -/
def address (n : Nat) : Nat := n % 0x100000000

variable {m n : Nat}

theorem address_lt (n : Nat) : address n < 0x100000000 := Nat.mod_lt n (by decide)

theorem address_le (n : Nat) : address n ≤ n := Nat.mod_le n (0x100000000)

theorem address_of_lt (h : n < 0x100000000) : address n = n := Nat.mod_eq_of_lt h

/-- Adding a number leads no farther than it says. -/
theorem address_add_le (n k : Nat) : address (n + k) ≤ address n + k := by
  unfold address
  omega

/-- A number is its own address exactly if there are that many. -/
theorem address_eq_self_iff : address n = n ↔ n < 0x100000000 :=
  ⟨fun h => h ▸ address_lt n, address_of_lt⟩

/-- The distance from an address up to another one, in 32 bits.  From a higher address it leads
    around. -/
def addressDistance (source target : Nat) : Nat := address (target + 0x100000000 - address source)

/-- The distance between the addresses of two numbers is that of the numbers, in 32 bits. -/
theorem addressDistance_address {k : Nat} (h : m + k ≤ n) :
    addressDistance (address m + k) (address n) = address (n - (m + k)) := by
  unfold addressDistance address
  omega

end EndpointRules
