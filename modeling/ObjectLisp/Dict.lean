/-!
# Dictionaries in key order

A `Dict` holds at most one value per name, and lists its entries by increasing name, in the order of
code points. The order is part of the type, so two dictionaries with the same entries are equal, and
every listing of names comes out sorted.
-/

namespace ObjectLisp

/-- Entries with strictly increasing names. -/
structure Dict (α : Type) where
  entries : List (String × α)
  sorted : entries.Pairwise (fun a b => a.1 < b.1)

namespace Dict

variable {α : Type}

/-- No entries. -/
def empty : Dict α := ⟨[], .nil⟩

instance : Inhabited (Dict α) := ⟨empty⟩

instance : EmptyCollection (Dict α) := ⟨empty⟩

/-- The value stored under a name. -/
def get? (d : Dict α) (name : String) : Option α := d.entries.lookup name

/-- Whether a name has a value. -/
def contains (d : Dict α) (name : String) : Bool := (d.get? name).isSome

/-- The names in increasing order. -/
def names (d : Dict α) : List String := d.entries.map (·.1)

/-- The number of entries. -/
def size (d : Dict α) : Nat := d.entries.length

/-! ## Insertion -/

/-- Put an entry in its place in a sorted list, over an earlier entry of the same name. -/
def insertEntry (name : String) (value : α) : List (String × α) → List (String × α)
  | [] => [(name, value)]
  | (k, v) :: rest =>
    if name < k then (name, value) :: (k, v) :: rest
    else if name = k then (name, value) :: rest
    else (k, v) :: insertEntry name value rest

/-- Insertion adds no name but the given one. -/
theorem fst_mem_insertEntry {name : String} {value : α} {l : List (String × α)} {e : String × α}
    (h : e ∈ insertEntry name value l) : e.1 = name ∨ e ∈ l := by
  induction l with
  | nil => simp_all [insertEntry]
  | cons a rest ih =>
    obtain ⟨k, v⟩ := a
    simp only [insertEntry] at h
    split at h
    · rcases List.mem_cons.1 h with rfl | h
      · exact .inl rfl
      · exact .inr h
    · split at h
      · rcases List.mem_cons.1 h with rfl | h
        · exact .inl rfl
        · exact .inr (List.mem_cons_of_mem _ h)
      · rcases List.mem_cons.1 h with rfl | h
        · exact .inr (List.mem_cons_self ..)
        · exact (ih h).imp_right (List.mem_cons_of_mem _)

/-- Of two different names one is below the other. -/
theorem lt_of_not_lt_of_ne {a b : String} (h : ¬ a < b) (hne : a ≠ b) : b < a := by
  rcases String.le_total a b with hle | hle
  · exact absurd (String.le_antisymm hle (String.not_lt.1 h)) hne
  · exact Decidable.byContradiction fun hba =>
      hne (String.le_antisymm (String.not_lt.1 hba) hle)

/-- Insertion keeps the names increasing. -/
theorem pairwise_insertEntry (name : String) (value : α) {l : List (String × α)}
    (h : l.Pairwise (fun a b => a.1 < b.1)) :
    (insertEntry name value l).Pairwise (fun a b => a.1 < b.1) := by
  induction l with
  | nil => exact List.pairwise_singleton _ _
  | cons a rest ih =>
    obtain ⟨k, v⟩ := a
    obtain ⟨hk, hrest⟩ := List.pairwise_cons.1 h
    simp only [insertEntry]
    split
    · next hlt =>
      refine List.pairwise_cons.2 ⟨fun e he => ?_, h⟩
      rcases List.mem_cons.1 he with rfl | he
      · exact hlt
      · exact String.lt_trans hlt (hk e he)
    · next hlt =>
      split
      · next heq => exact List.pairwise_cons.2 ⟨fun e he => heq ▸ hk e he, hrest⟩
      · next hne =>
        refine List.pairwise_cons.2 ⟨fun e he => ?_, ih hrest⟩
        rcases fst_mem_insertEntry he with heq | he
        · exact heq ▸ lt_of_not_lt_of_ne hlt hne
        · exact hk e he

/-- Store a value under a name, in place of an earlier one. -/
def insert (d : Dict α) (name : String) (value : α) : Dict α :=
  ⟨insertEntry name value d.entries, pairwise_insertEntry name value d.sorted⟩

/-- Insert the entries one after another, so that the last of several values of a name stays. -/
def ofList (l : List (String × α)) : Dict α :=
  l.foldl (fun d e => d.insert e.1 e.2) ∅

end Dict

end ObjectLisp
