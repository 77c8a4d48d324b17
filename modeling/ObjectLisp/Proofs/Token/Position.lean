import Mathlib.Data.List.Induction
import ObjectLisp.Token

/-!
# Places in a source

`Position.afterAll` goes on from a place over characters, one by one, as the lexer does.
`Position.following` says where this leads without going there: the line counts the newlines among
the characters, and the column counts the characters since the last one. From the start of a source
both are the same place (`afterAll_start`).
-/

namespace ObjectLisp.Position

/-- The place after the characters that begin at `p`. -/
def afterAll (p : Position) (cs : List Char) : Position := cs.foldl after p

/-- The place of what comes after the given characters of a source. -/
def following (before : List Char) : Position :=
  ⟨1 + before.count '\n', 1 + (before.reverse.takeWhile (· != '\n')).length⟩

/-- After no characters the place is the same. -/
@[simp]
theorem afterAll_nil (p : Position) : p.afterAll [] = p := rfl

/-- Characters are passed one by one. -/
@[simp]
theorem afterAll_cons (p : Position) (c : Char) (cs : List Char) :
    p.afterAll (c :: cs) = (p.after c).afterAll cs := rfl

/-- Two texts are passed one after the other. -/
theorem afterAll_append (p : Position) (cs cs' : List Char) :
    p.afterAll (cs ++ cs') = (p.afterAll cs).afterAll cs' := List.foldl_append

/-- A character other than the line end moves one column on. -/
theorem after_of_ne {c : Char} (h : c ≠ '\n') (p : Position) : p.after c = p.right 1 := by
  rw [after, if_neg]
  simpa using h

/-- Characters on one line only move the place to the right. -/
theorem afterAll_eq_right {cs : List Char} (h : '\n' ∉ cs) (p : Position) :
    p.afterAll cs = p.right cs.length := by
  induction cs generalizing p with
  | nil => rfl
  | cons c cs ih =>
    rw [List.mem_cons, not_or] at h
    rw [afterAll_cons, ih h.2, after_of_ne (Ne.symm h.1)]
    simp only [right, List.length_cons, Position.mk.injEq, true_and]
    omega

/-- Every newline begins a line. -/
theorem line_afterAll (p : Position) (cs : List Char) :
    (p.afterAll cs).line = p.line + cs.count '\n' := by
  induction cs generalizing p with
  | nil => rfl
  | cons c cs ih =>
    rw [afterAll_cons, ih]
    by_cases hc : c = '\n'
    · simp only [hc, after, beq_self_eq_true, if_true, List.count_cons_self]
      omega
    · rw [after_of_ne hc, List.count_cons_of_ne hc]
      rfl

/-- Characters lead to another place. -/
theorem afterAll_eq_self_iff {p : Position} {cs : List Char} : p.afterAll cs = p ↔ cs = [] := by
  constructor
  · intro h
    have hline : p.line + cs.count '\n' = p.line :=
      (p.line_afterAll cs).symm.trans (congrArg line h)
    have hcount : cs.count '\n' = 0 := Nat.add_eq_left.1 hline
    rw [afterAll_eq_right (List.count_eq_zero.1 hcount)] at h
    exact List.length_eq_zero_iff.1 (Nat.add_eq_left.1 (congrArg column h))
  · rintro rfl
    rfl

/-- The place after one more character. -/
theorem following_concat (before : List Char) (c : Char) :
    following (before ++ [c]) = (following before).after c := by
  by_cases hc : c = '\n'
  · subst hc
    simp [following, after, Nat.add_assoc]
  · rw [after_of_ne hc]
    simp [following, right, hc, Nat.add_comm]

/-- Going over the characters from the start of a source leads to the place that their newlines
determine. -/
theorem afterAll_start (before : List Char) : start.afterAll before = following before := by
  induction before using List.reverseRecOn with
  | nil => rfl
  | append_singleton before c ih =>
    rw [afterAll_append, ih, following_concat]
    rfl

end ObjectLisp.Position
