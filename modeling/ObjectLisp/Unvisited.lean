/-!
# Walks that visit nothing twice

Objects may refer to each other in circles, so walks over them remember what they have visited.
Such a walk ends because the number of unvisited members of a finite list goes down with every
visit.
-/

namespace ObjectLisp

variable {α : Type} [DecidableEq α]

/-- The number of members of `all` that are not in `visited`. -/
def unvisited (all visited : List α) : Nat := (all.filter fun a => decide (a ∉ visited)).length

/-- A visit to a new member leaves fewer unvisited ones. -/
theorem unvisited_cons_lt {all visited : List α} {a : α} (hmem : a ∈ all) (hnew : a ∉ visited) :
    unvisited all (a :: visited) < unvisited all visited := by
  have hfilter : all.filter (fun b => decide (b ∉ a :: visited))
      = (all.filter fun b => decide (b ∉ visited)).filter fun b => decide (b ≠ a) := by
    rw [List.filter_filter]
    refine List.filter_congr fun b _ => ?_
    simp [not_or]
  rw [unvisited, unvisited, hfilter]
  have ha : a ∈ all.filter fun b => decide (b ∉ visited) := by simp [hmem, hnew]
  have hle := List.length_filter_le (fun b => decide (b ≠ a))
    (all.filter fun b => decide (b ∉ visited))
  refine Nat.lt_of_le_of_ne hle fun heq => ?_
  have hall := List.length_filter_eq_length_iff.1 heq a ha
  simp at hall

end ObjectLisp
