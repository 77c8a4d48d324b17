/-!
# Sets of code points

A class of characters is given by a table of inclusive ranges in increasing order; `covers` looks a
code point up in such a table, and `covers_eq_true_iff` says that it finds what is there.
-/

namespace ObjectLisp.Text

/-- Whether one of the ranges holds the code point. As they increase, the search is over at the
first range that starts above it. -/
def covers : List (Nat × Nat) → Nat → Bool
  | [], _ => false
  | (first, last) :: rest, n => first ≤ n && (n ≤ last || covers rest n)

/-- Whether the ranges increase: none is empty, the first starts at `low` or above, and each of the
others starts above the end of the one before it. -/
def increasingFrom (low : Nat) : List (Nat × Nat) → Bool
  | [] => true
  | (first, last) :: rest => low ≤ first && first ≤ last && increasingFrom (last + 1) rest

/-- No range of an increasing table starts below the bound. -/
theorem le_of_increasingFrom {low : Nat} {ranges : List (Nat × Nat)}
    (h : increasingFrom low ranges = true) : ∀ r ∈ ranges, low ≤ r.1 := by
  induction ranges generalizing low with
  | nil => simp
  | cons p rest ih =>
    simp only [increasingFrom, Bool.and_eq_true, decide_eq_true_eq] at h
    intro r hr
    rcases List.mem_cons.1 hr with rfl | hr
    · exact h.1.1
    · have := ih h.2 r hr
      omega

/-- In an increasing table, `covers` finds the range that holds a code point whenever there is
one. -/
theorem covers_eq_true_iff {low : Nat} {ranges : List (Nat × Nat)} {n : Nat}
    (h : increasingFrom low ranges = true) :
    covers ranges n = true ↔ ∃ r ∈ ranges, r.1 ≤ n ∧ n ≤ r.2 := by
  induction ranges generalizing low with
  | nil => simp [covers]
  | cons p rest ih =>
    simp only [increasingFrom, Bool.and_eq_true, decide_eq_true_eq] at h
    have above : ∀ r ∈ rest, r.1 ≤ n → p.1 ≤ n := by
      intro r hr hn
      have := le_of_increasingFrom h.2 r hr
      omega
    simp only [covers, Bool.and_eq_true, Bool.or_eq_true, decide_eq_true_eq, ih h.2,
      List.mem_cons, exists_eq_or_imp]
    constructor
    · rintro ⟨hp, hn | hn⟩
      · exact .inl ⟨hp, hn⟩
      · exact .inr hn
    · rintro (⟨hp, hn⟩ | ⟨r, hr, hn⟩)
      · exact ⟨hp, .inl hn⟩
      · exact ⟨above r hr hn.1, .inr ⟨r, hr, hn⟩⟩

end ObjectLisp.Text
