import Mathlib.Data.List.Forall2
import ObjectLisp.Dict

/-!
# Dictionaries as maps

What a dictionary holds under a name after an insertion, and when two dictionaries hold related
values under the same names: exactly when their entries, which are listed in the order of the names,
are related one by one.
-/

namespace ObjectLisp

variable {α β : Type}

/-- Optional values that are related are related by every weaker relation. -/
theorem optionRel_imp {Q Q' : α → β → Prop} (hQ : ∀ a b, Q a b → Q' a b) {a : Option α}
    {b : Option β} (h : Option.Rel Q a b) : Option.Rel Q' a b := by
  cases h with
  | some hab => exact .some (hQ _ _ hab)
  | none => exact .none

/-- Optional values are related the other way round by the reversed relation. -/
theorem optionRel_swap {Q : α → β → Prop} {a : Option α} {b : Option β}
    (h : Option.Rel Q a b) : Option.Rel (fun b a => Q a b) b a := by
  cases h with
  | some hab => exact .some hab
  | none => exact .none

/-- An optional value is related to itself if the value is, when there is one. -/
theorem optionRel_self {Q : α → α → Prop} {a : Option α} (h : ∀ v, a = some v → Q v v) :
    Option.Rel Q a a := by
  cases a with
  | some v => exact .some (h v rfl)
  | none => exact .none

/-- What is related to a present value is present. -/
theorem exists_of_optionRel_some {Q : α → β → Prop} {a : α} {b : Option β}
    (h : Option.Rel Q (some a) b) : ∃ v, b = some v ∧ Q a v := by
  cases h with
  | some hab => exact ⟨_, rfl, hab⟩

/-- Of two related optional values both are missing or none. -/
theorem eq_none_iff_of_optionRel {Q : α → β → Prop} {a : Option α} {b : Option β}
    (h : Option.Rel Q a b) : a = none ↔ b = none := by
  cases h with
  | some => simp
  | none => simp

namespace Dict

/-! ## Values under names -/

/-- The empty dictionary has no names. -/
@[simp]
theorem get?_empty (name : String) : (∅ : Dict α).get? name = none := rfl

/-- Looking up a name in a list with one entry more. -/
theorem lookup_cons (name key : String) (v : α) (l : List (String × α)) :
    ((key, v) :: l).lookup name = if name = key then some v else l.lookup name := by
  rw [List.lookup_cons]
  by_cases h : name = key
  · rw [if_pos h, h, beq_self_eq_true]
  · rw [if_neg h, beq_eq_false_iff_ne.2 h]

/-- An inserted entry is found under its name, and hides nothing else. -/
theorem lookup_insertEntry (name key : String) (v : α) (l : List (String × α)) :
    (insertEntry key v l).lookup name = if name = key then some v else l.lookup name := by
  induction l with
  | nil => rw [insertEntry, lookup_cons]
  | cons e rest ih =>
    obtain ⟨k, w⟩ := e
    rw [insertEntry]
    split
    · rw [lookup_cons]
    · split
      · -- The name is already there and gets the new value.
        next heq =>
        subst heq
        rw [lookup_cons, lookup_cons]
        by_cases h : name = key <;> simp [h]
      · next hne =>
        rw [lookup_cons, lookup_cons, ih]
        by_cases h : name = k
        · have hkey : name ≠ key := fun h' => hne (h'.symm.trans h)
          rw [if_pos h, if_neg hkey, if_pos h]
        · rw [if_neg h, if_neg h]

/-- What a dictionary holds after an insertion. -/
theorem get?_insert (d : Dict α) (key : String) (v : α) (name : String) :
    (d.insert key v).get? name = if name = key then some v else d.get? name :=
  lookup_insertEntry name key v d.entries

/-- What is found in a list is an entry of it. -/
theorem mem_of_lookup {name : String} {v : α} {l : List (String × α)}
    (h : l.lookup name = some v) : (name, v) ∈ l := by
  obtain ⟨before, after, rfl, -⟩ := List.lookup_eq_some_iff.1 h
  exact List.mem_append_right before List.mem_cons_self

/-- Every entry of a dictionary made of a list is in the list. -/
theorem mem_of_get?_ofList {l : List (String × α)} {name : String} {v : α}
    (h : (ofList l).get? name = some v) : (name, v) ∈ l := by
  -- The dictionary is a fold, so the induction is over any dictionary to start from.
  suffices hfold : ∀ d : Dict α, (l.foldl (fun d e => d.insert e.1 e.2) d).get? name = some v →
      (name, v) ∈ l ∨ d.get? name = some v from
    (hfold ∅ h).resolve_right nofun
  intro d hd
  clear h
  induction l generalizing d with
  | nil => exact .inr hd
  | cons e rest ih =>
    rcases ih _ hd with hmem | hget
    · exact .inl (List.mem_cons_of_mem _ hmem)
    · rw [get?_insert] at hget
      split at hget
      · next hname =>
        cases hget
        exact .inl (hname ▸ List.mem_cons_self)
      · exact .inr hget

/-- An entry of a list with different names is the one that is found. -/
theorem lookup_eq_some_of_mem {name : String} {v : α} {l : List (String × α)}
    (hnodup : (l.map (·.1)).Nodup) (h : (name, v) ∈ l) : l.lookup name = some v := by
  induction l with
  | nil => nomatch h
  | cons e rest ih =>
    obtain ⟨key, w⟩ := e
    obtain ⟨hkey, hnodup⟩ := List.nodup_cons.1 hnodup
    rw [lookup_cons]
    rcases List.mem_cons.1 h with h | h
    · cases h
      exact if_pos rfl
    · have hne : name ≠ key := fun heq => hkey (List.mem_map.2 ⟨_, h, heq⟩)
      rw [if_neg hne]
      exact ih hnodup h

/-- Insert entries one after another. -/
def insertAll (d : Dict α) (l : List (String × α)) : Dict α :=
  l.foldl (fun d e => d.insert e.1 e.2) d

/-- Entries with different names are all there after they are inserted. -/
theorem get?_insertAll {l : List (String × α)} (hnodup : (l.map (·.1)).Nodup) (d : Dict α)
    (name : String) : (d.insertAll l).get? name = (l.lookup name).or (d.get? name) := by
  induction l generalizing d with
  | nil => rfl
  | cons e rest ih =>
    obtain ⟨key, v⟩ := e
    obtain ⟨hkey, hnodup⟩ := List.nodup_cons.1 hnodup
    rw [insertAll, List.foldl_cons, ← insertAll, ih hnodup, get?_insert, lookup_cons]
    by_cases hname : name = key
    · have hnone : rest.lookup name = none := by
        rw [List.lookup_eq_none_iff]
        intro e he
        have hne : name ≠ e.1 := fun heq => hkey (List.mem_map.2 ⟨e, he, heq.symm.trans hname⟩)
        simpa using hne
      rw [if_pos hname, if_pos hname, hnone, Option.none_or, Option.some_or]
    · rw [if_neg hname, if_neg hname]

/-- A dictionary made of a list with different names has all entries of the list. -/
theorem get?_ofList {l : List (String × α)} (hnodup : (l.map (·.1)).Nodup) (name : String) :
    (ofList l).get? name = l.lookup name :=
  (get?_insertAll hnodup ∅ name).trans Option.or_none

/-- The names of a dictionary are different. -/
theorem nodup_names (d : Dict α) : (d.entries.map (·.1)).Nodup := by
  rw [List.Nodup, List.pairwise_map]
  refine d.sorted.imp ?_
  rintro ⟨a, _⟩ ⟨b, _⟩ hlt rfl
  exact String.lt_irrefl a hlt

/-- Every entry of a dictionary is found under its name. -/
theorem get?_eq_some_of_mem {d : Dict α} {e : String × α} (h : e ∈ d.entries) :
    d.get? e.1 = some e.2 :=
  lookup_eq_some_of_mem d.nodup_names h

/-- Names below all names of a list are not in it. -/
theorem lookup_eq_none {name : String} {l : List (String × α)} (h : ∀ e ∈ l, name < e.1) :
    l.lookup name = none := by
  rw [List.lookup_eq_none_iff]
  intro e he
  have hne : name ≠ e.1 := fun heq => String.lt_irrefl _ (heq ▸ h e he)
  simpa using hne

/-- In a sorted list, what stands before an entry are the smaller names. -/
theorem lookup_before {before after : List (String × α)} {key : String} {v : α}
    (hsorted : (before ++ (key, v) :: after).Pairwise fun a b => a.1 < b.1) (name : String) :
    before.lookup name
      = if name < key then (before ++ (key, v) :: after).lookup name else none := by
  obtain ⟨-, hrest, hcross⟩ := List.pairwise_append.1 hsorted
  split
  · next hlt =>
    have hnone : ((key, v) :: after).lookup name = none := by
      refine lookup_eq_none (List.forall_mem_cons.2 ⟨hlt, fun e he => ?_⟩)
      exact String.lt_trans hlt ((List.pairwise_cons.1 hrest).1 e he)
    rw [List.lookup_append, hnone, Option.or_none]
  · next hge =>
    rw [List.lookup_eq_none_iff]
    intro e he
    have hne : name ≠ e.1 := fun heq => hge (heq ▸ hcross e he _ List.mem_cons_self)
    simpa using hne

/-! ## Names -/

/-- A name that is not contained has no value. -/
theorem contains_eq_false_iff {d : Dict α} {name : String} :
    d.contains name = false ↔ d.get? name = none := by
  rw [contains, Option.isSome_eq_false_iff, Option.isNone_iff_eq_none]

/-- What is inserted under new names leaves the other entries as they are. -/
theorem get?_insertAll_of_free {d : Dict α} {l : List (String × α)}
    (hnodup : (l.map (·.1)).Nodup) (hfree : ∀ e ∈ l, d.contains e.1 = false) (name : String) :
    (d.insertAll l).get? name = (d.get? name).or (l.lookup name) := by
  rw [get?_insertAll hnodup]
  cases hlookup : l.lookup name with
  | none => rw [Option.none_or, Option.or_none]
  | some v =>
    have hnone := contains_eq_false_iff.1 (hfree _ (mem_of_lookup hlookup))
    rw [hnone, Option.some_or, Option.none_or]

/-- An insertion adds its name and no other. -/
theorem contains_insert (d : Dict α) (key : String) (v : α) (name : String) :
    (d.insert key v).contains name = (decide (name = key) || d.contains name) := by
  rw [contains, contains, get?_insert]
  by_cases h : name = key
  · simp [h]
  · simp [h]

/-- The names are those that have a value. -/
theorem mem_names_iff {d : Dict α} {name : String} : name ∈ d.names ↔ d.contains name = true := by
  rw [names, contains, Option.isSome_iff_exists]
  constructor
  · intro h
    obtain ⟨e, he, rfl⟩ := List.mem_map.1 h
    exact ⟨e.2, get?_eq_some_of_mem he⟩
  · rintro ⟨v, hv⟩
    exact List.mem_map.2 ⟨(name, v), mem_of_lookup hv, rfl⟩

/-- The names are in increasing order. -/
theorem pairwise_names (d : Dict α) : d.names.Pairwise (· < ·) :=
  List.pairwise_map.2 d.sorted

/-- A new value under an old name changes no name. -/
theorem names_insert_of_contains {d : Dict α} {key : String} (h : d.contains key = true) (v : α) :
    (d.insert key v).names = d.names := by
  have hperm : (d.insert key v).names.Perm d.names := by
    refine (List.perm_ext_iff_of_nodup (nodup_names _) (nodup_names _)).2 fun name => ?_
    show name ∈ (d.insert key v).names ↔ name ∈ d.names
    rw [mem_names_iff, mem_names_iff, contains_insert]
    by_cases hname : name = key
    · simp [hname, h]
    · simp [hname]
  refine hperm.eq_of_pairwise ?_ (d.insert key v).pairwise_names d.pairwise_names
  intro a b _ _ hab hba
  exact absurd (String.lt_trans hab hba) (String.lt_irrefl a)

/-! ## Dictionaries with related values -/

/-- Two dictionaries have the same names, and related values under each. -/
def Matches (Q : α → β → Prop) (d : Dict α) (e : Dict β) : Prop :=
  ∀ name, Option.Rel Q (d.get? name) (e.get? name)

/-- Two entries have the same name and related values. -/
def EntryMatches (Q : α → β → Prop) (p : String × α) (q : String × β) : Prop :=
  p.1 = q.1 ∧ Q p.2 q.2

variable {Q : α → β → Prop}

/-- Entries that match one by one give related values under every name. -/
theorem rel_lookup {l : List (String × α)} {m : List (String × β)}
    (h : List.Forall₂ (EntryMatches Q) l m) (name : String) :
    Option.Rel Q (l.lookup name) (m.lookup name) := by
  induction h with
  | nil => exact .none
  | @cons p q l m hpq _ ih =>
    obtain ⟨k, v⟩ := p
    obtain ⟨k', w⟩ := q
    obtain ⟨hk, hv⟩ := hpq
    obtain rfl : k = k' := hk
    rw [lookup_cons, lookup_cons]
    split
    · exact .some hv
    · exact ih

/-- The first of two sorted lists with the same names cannot begin before the second. -/
theorem not_lt_of_rel_lookup {k k' : String} {v : α} {w : β} {l : List (String × α)}
    {m : List (String × β)} (hm : ((k', w) :: m).Pairwise fun a b => a.1 < b.1)
    (h : Option.Rel Q (((k, v) :: l).lookup k) (((k', w) :: m).lookup k)) : ¬ k < k' := by
  intro hlt
  have hnone : ((k', w) :: m).lookup k = none := by
    refine lookup_eq_none fun e he => ?_
    rcases List.mem_cons.1 he with rfl | he
    · exact hlt
    · exact String.lt_trans hlt ((List.pairwise_cons.1 hm).1 e he)
  rw [hnone, lookup_cons, if_pos rfl] at h
  nomatch h

/-- Sorted lists with related values under every name match entry by entry. -/
theorem forall₂_of_rel_lookup {l : List (String × α)} {m : List (String × β)}
    (hl : l.Pairwise fun a b => a.1 < b.1) (hm : m.Pairwise fun a b => a.1 < b.1)
    (h : ∀ name, Option.Rel Q (l.lookup name) (m.lookup name)) :
    List.Forall₂ (EntryMatches Q) l m := by
  induction l generalizing m with
  | nil =>
    cases m with
    | nil => exact .nil
    | cons q m =>
      have hq := h q.1
      rw [lookup_cons, if_pos rfl] at hq
      nomatch hq
  | cons p l ih =>
    obtain ⟨k, v⟩ := p
    cases m with
    | nil =>
      have hk := h k
      rw [lookup_cons, if_pos rfl] at hk
      nomatch hk
    | cons q m =>
      obtain ⟨k', w⟩ := q
      -- Each list has the other's first name, so neither begins before the other.
      have hle : ¬ k' < k := not_lt_of_rel_lookup hl (optionRel_swap (h k'))
      have hge : ¬ k < k' := not_lt_of_rel_lookup hm (h k)
      obtain rfl : k = k' := String.le_antisymm (String.not_lt.1 hle) (String.not_lt.1 hge)
      have hv : Q v w := by
        have hk := h k
        rw [lookup_cons, lookup_cons, if_pos rfl, if_pos rfl] at hk
        cases hk with
        | some hvw => exact hvw
      obtain ⟨hkl, hl⟩ := List.pairwise_cons.1 hl
      obtain ⟨hkm, hm⟩ := List.pairwise_cons.1 hm
      refine .cons ⟨rfl, hv⟩ (ih hl hm fun name => ?_)
      -- The first name does not come again, so the rest may be looked up without it.
      by_cases hname : name = k
      · rw [hname, lookup_eq_none hkl, lookup_eq_none hkm]
        exact .none
      · have hrest := h name
        rwa [lookup_cons, lookup_cons, if_neg hname, if_neg hname] at hrest

/-- Two dictionaries match exactly when their entries match one by one. -/
theorem matches_iff {d : Dict α} {e : Dict β} :
    d.Matches Q e ↔ List.Forall₂ (EntryMatches Q) d.entries e.entries :=
  ⟨forall₂_of_rel_lookup d.sorted e.sorted, rel_lookup⟩

/-- A dictionary is determined by what it holds under each name. -/
theorem ext_get? {d e : Dict α} (h : ∀ name, d.get? name = e.get? name) : d = e := by
  have hmatch : d.Matches Eq e := fun name => h name ▸ optionRel_self fun _ _ => rfl
  have hentries : d.entries = e.entries :=
    List.forall₂_eq_eq_eq ▸ (matches_iff.1 hmatch).imp fun _ _ hab => Prod.ext hab.1 hab.2
  obtain ⟨l, hl⟩ := d
  obtain ⟨m, hm⟩ := e
  obtain rfl : l = m := hentries
  rfl

/-- Empty dictionaries match. -/
theorem matches_empty : (∅ : Dict α).Matches Q (∅ : Dict β) := fun _ => .none

/-- Insertion of related values under one name keeps dictionaries matching. -/
theorem Matches.insert {d : Dict α} {e : Dict β} (h : d.Matches Q e) (name : String) {v : α}
    {w : β} (hvw : Q v w) : (d.insert name v).Matches Q (e.insert name w) := by
  intro x
  rw [get?_insert, get?_insert]
  split
  · exact .some hvw
  · exact h x

/-- Dictionaries that match have the same names. -/
theorem Matches.contains_eq {d : Dict α} {e : Dict β} (h : d.Matches Q e) (name : String) :
    d.contains name = e.contains name := by
  have hname := h name
  unfold contains
  generalize d.get? name = v at hname ⊢
  generalize e.get? name = w at hname ⊢
  cases hname <;> rfl

/-- Dictionaries that match for one relation match for a weaker one. -/
theorem Matches.imp {Q' : α → β → Prop} (hQ : ∀ v w, Q v w → Q' v w) {d : Dict α} {e : Dict β}
    (h : d.Matches Q e) : d.Matches Q' e :=
  fun name => optionRel_imp hQ (h name)

/-- Dictionaries that match for one relation match for another one that relates what they hold. -/
theorem Matches.imp_of_get? {Q' : α → β → Prop} {d : Dict α} {e : Dict β}
    (hQ : ∀ name v w, d.get? name = some v → e.get? name = some w → Q v w → Q' v w)
    (h : d.Matches Q e) : d.Matches Q' e := by
  intro name
  have hname := h name
  cases hv : d.get? name with
  | none =>
    rw [(eq_none_iff_of_optionRel hname).1 hv]
    exact .none
  | some v =>
    rw [hv] at hname
    obtain ⟨w, hw, hvw⟩ := exists_of_optionRel_some hname
    rw [hw]
    exact .some (hQ name v w hv hw hvw)

end Dict

end ObjectLisp
