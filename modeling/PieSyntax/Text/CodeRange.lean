/-
# Ranges of code points

A character class is a table of ranges in ascending order.  A range may take every second code
point only, which is how the two cases of a letter alternate in many scripts.
-/

namespace PieSyntax.Text

/-- The code points `first`, `first + step`, … up to `last`. -/
structure CodeRange where
  first : Nat
  last : Nat
  step : Nat

/-- Whether the range covers the code point `n`. -/
def CodeRange.covers (r : CodeRange) (n : Nat) : Bool :=
  r.first ≤ n && n ≤ r.last && (n - r.first) % r.step == 0

/-- Whether a table in ascending order covers `n`: the search ends at the first range that does not
lie wholly below `n`. -/
def covered (n : Nat) : List CodeRange → Bool
  | [] => false
  | r :: rest => if r.last < n then covered n rest else r.covers n

/-- Whether the code point of `c` lies in `table`. -/
def inTable (table : List CodeRange) (c : Char) : Bool :=
  covered c.toNat table

/-- What a table covers, one of its ranges covers. -/
theorem exists_covers_of_covered {n : Nat} {table : List CodeRange} (h : covered n table = true) :
    ∃ r ∈ table, r.covers n = true := by
  induction table with
  | nil => simp [covered] at h
  | cons r rest ih =>
    rw [covered] at h
    split at h
    · obtain ⟨s, hs, hn⟩ := ih h
      exact ⟨s, List.mem_cons_of_mem _ hs, hn⟩
    · exact ⟨r, List.mem_cons_self, h⟩

end PieSyntax.Text
