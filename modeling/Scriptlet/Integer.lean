-- The integers of the language have 64 bits, one of them for the sign.

namespace Scriptlet

/-- The integer of 64 bits that `n` is, if it is one. -/
def integer? (n : Int) : Option Int64 :=
  if Int64.minValue.toInt ≤ n ∧ n ≤ Int64.maxValue.toInt then some (Int64.ofInt n) else none

theorem toInt_of_integer? {n : Int} {k : Int64} (h : integer? n = some k) : k.toInt = n := by
  unfold integer? at h
  split at h
  · next hn =>
    cases h
    exact Int64.toInt_ofInt_of_le hn.1 (Int.lt_of_le_of_lt hn.2 (by decide))
  · cases h

theorem integer?_toInt (k : Int64) : integer? k.toInt = some k := by
  have hlo := k.le_toInt
  have hhi := Int.le_sub_one_of_lt k.toInt_lt
  simp only [integer?, Int64.ofInt_toInt]
  exact if_pos ⟨hlo, hhi⟩

end Scriptlet
