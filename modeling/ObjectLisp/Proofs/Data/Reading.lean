import ObjectLisp.Data
import ObjectLisp.Value
import ObjectLisp.Proofs.Dict
import ObjectLisp.Proofs.Number.Bits

/-!
# Reading documents

What reading the fields of a record and the items of a list comes to, and what it means that
something is written and read back (`Data.RoundTrips`). Only a computed value keeps it from being
written. What is written is read back as it was, unless a number in it is infinite or undefined:
such a number becomes null, and null is no number, so the document is refused as a whole. And
whatever a document looks like, if it is read then the result can be written, and the new document
is read with the same result.
-/

namespace ObjectLisp

/-! ## Documents -/

namespace Data

/-- A document as it arrives: its floats are finite, and its natural numbers have 64 bits. -/
inductive IsJson : Data → Prop
  | null : IsJson .null
  | bool (b : Bool) : IsJson (.bool b)
  | natural {n : Nat} (h : n < 2 ^ 64) : IsJson (.natural n)
  | float {x : Float} (h : Number.isFinite x = true) : IsJson (.float x)
  | text (s : String) : IsJson (.text s)
  | list {items : List Data} (h : ∀ d ∈ items, IsJson d) : IsJson (.list items)
  | record {fields : List (String × Data)} (h : ∀ e ∈ fields, IsJson e.2) :
      IsJson (.record fields)

/-- What `write` writes is read back by `read`. -/
structure RoundTrips {α : Type} (write : α → Option Data) (read : Data → Option α)
    (equal : α → α → Bool) (values : α → List Value) (numbers : α → List Float) : Prop where
  /-- Exactly a computed value cannot be written. -/
  write_eq_none_iff : ∀ a, write a = none ↔ values a ≠ []
  /-- What is written is read back as something equal exactly when all numbers are finite. -/
  read_iff : ∀ a d, write a = some d →
    ((∃ b, read d = some b ∧ equal b a = true) ↔ ∀ x ∈ numbers a, Number.isFinite x = true)
  /-- If some are not, the document is refused. -/
  read_eq : ∀ a d, write a = some d →
    read d = if (numbers a).all Number.isFinite then some a else none
  /-- What is read can be written and read again. -/
  read_again : ∀ d, d.IsJson → ∀ a, read d = some a → ∃ d', write a = some d' ∧ read d' = some a

/-! ## Fields and items -/

/-- A field as it is looked up in a list of pairs. -/
theorem field?_bind {β : Type} (name : String) (fields : List (String × Data))
    (f : Data → Option β) :
    ((field? name fields).bind fun e => f e.1) = (fields.lookup name).bind f := by
  induction fields with
  | nil => rfl
  | cons e rest ih =>
    obtain ⟨key, d⟩ := e
    by_cases h : key = name
    · simp [field?, h, List.lookup]
    · have hne : (name == key) = false := by simpa using Ne.symm h
      simp [field?, h, List.lookup, hne, Option.bind_map, ih]

/-- A field that is found is the first one of its name. -/
theorem lookup_of_field? {name : String} {fields : List (String × Data)}
    {e : { d : Data // sizeOf d < sizeOf fields }} (h : field? name fields = some e) :
    fields.lookup name = some e.1 := by
  have hfield := field?_bind name fields some
  rw [h, Option.bind_some, Option.bind_fun_some] at hfield
  exact hfield.symm

/-- A field is smaller than its record. -/
theorem sizeOf_lt_of_lookup {name : String} {fields : List (String × Data)} {d : Data}
    (h : fields.lookup name = some d) : sizeOf d < sizeOf fields := by
  have hfield := field?_bind name fields some
  rw [h, Option.bind_some] at hfield
  obtain ⟨e, -, he⟩ := Option.bind_eq_some_iff.1 hfield
  cases he
  exact e.2

/-- Fields of a document that arrives are such documents. -/
theorem isJson_of_lookup {name : String} {fields : List (String × Data)} {d : Data}
    (h : fields.lookup name = some d) (hfields : ∀ e ∈ fields, e.2.IsJson) : d.IsJson :=
  hfields _ (Dict.mem_of_lookup h)

section Items

variable {α β : Type}

/-- A list is read item by item. -/
theorem all?_cons (read : α → Option β) (a : α) (l : List α) :
    all? read (a :: l) = (read a).bind fun b => (all? read l).map (b :: ·) := by
  rw [all?]
  cases read a <;> cases all? read l <;> rfl

/-- A list cannot be read if one of its items cannot. -/
theorem all?_eq_none_iff {read : α → Option β} {l : List α} :
    all? read l = none ↔ ∃ a ∈ l, read a = none := by
  induction l with
  | nil => simp [all?]
  | cons a l ih =>
    rw [all?_cons]
    simp only [List.mem_cons, exists_eq_or_imp, ← ih]
    cases read a <;> simp

/-- Each item that is read comes from one of the items. -/
theorem exists_of_mem_all? {read : α → Option β} {l : List α} {m : List β} {b : β}
    (h : all? read l = some m) (hb : b ∈ m) : ∃ a ∈ l, read a = some b := by
  induction l generalizing m with
  | nil =>
    cases h
    nomatch hb
  | cons a l ih =>
    rw [all?_cons] at h
    obtain ⟨c, hc, h⟩ := Option.bind_eq_some_iff.1 h
    obtain ⟨m, hm, rfl⟩ := Option.map_eq_some_iff.1 h
    rcases List.mem_cons.1 hb with rfl | hb
    · exact ⟨a, List.mem_cons_self, hc⟩
    · obtain ⟨a', ha', hread⟩ := ih hm hb
      exact ⟨a', List.mem_cons_of_mem _ ha', hread⟩

/-- A list is read as a whole if every item is. -/
theorem all?_some (f : α → β) (l : List α) : all? (fun a => some (f a)) l = some (l.map f) := by
  induction l with
  | nil => rfl
  | cons a l ih =>
    rw [all?_cons, ih]
    rfl

/-- Items that are written are read back if each of them is. -/
theorem all?_written {write : α → Option Data} {read : Data → Option α} {p : α → Bool}
    {l : List α} {ds : List Data}
    (h : ∀ a ∈ l, ∀ d, write a = some d → read d = if p a then some a else none)
    (hl : all? write l = some ds) : all? read ds = if l.all p then some l else none := by
  induction l generalizing ds with
  | nil =>
    cases hl
    rfl
  | cons a l ih =>
    obtain ⟨hhead, htail⟩ := List.forall_mem_cons.1 h
    rw [all?_cons] at hl
    obtain ⟨d, hd, hl⟩ := Option.bind_eq_some_iff.1 hl
    obtain ⟨ds, hds, rfl⟩ := Option.map_eq_some_iff.1 hl
    rw [all?_cons, hhead d hd, ih htail hds, List.all_cons]
    cases p a <;> cases l.all p <;> rfl

end Items

/-- Texts are read back. -/
theorem texts?_ofTexts (texts : List String) : (ofTexts texts).texts? = some texts := by
  have hread : ∀ t ∈ texts, ∀ d, some (text t) = some d →
      d.text? = if (fun _ => true) t then some t else none := by
    rintro t - d ⟨⟩
    rfl
  rw [ofTexts, texts?, all?_written hread (all?_some text texts),
    List.all_eq_true.2 fun _ _ => rfl, if_pos rfl]

/-- A number is not written as a record. -/
theorem ofFloat_ne_record (x : Float) (fields : List (String × Data)) :
    ofFloat x ≠ record fields := by
  rw [ofFloat]
  split <;> simp

/-- A number is read back exactly when it is finite. -/
theorem float?_ofFloat (x : Float) :
    (ofFloat x).float? = if Number.isFinite x then some x else none := by
  rw [ofFloat]
  split <;> rfl

/-- A number that is read is finite. -/
theorem IsJson.isFinite {d : Data} {x : Float} (hd : d.IsJson) (h : d.float? = some x) :
    Number.isFinite x = true := by
  cases hd with
  | natural hn =>
    cases h
    exact Number.isFinite_toFloat hn
  | float hx =>
    cases h
    exact hx
  | null | bool | text | list | record => nomatch h

/-- Items of a document that arrives are such documents. -/
theorem IsJson.of_mem_items? {d item : Data} {l : { items : List Data // sizeOf items < sizeOf d }}
    (hd : d.IsJson) (h : d.items? = some l) (hitem : item ∈ l.1) : item.IsJson := by
  cases hd with
  | list hitems =>
    cases h
    exact hitems item hitem
  | null | bool | natural | float | text | record => nomatch h

/-! ## Round trips -/

/-- It is enough to know when something is read back, and that what is read holds no computed value
and finite numbers only. -/
theorem RoundTrips.of_finite {α : Type} {write : α → Option Data} {read : Data → Option α}
    {equal : α → α → Bool} {values : α → List Value} {numbers : α → List Float}
    (hnone : ∀ a, write a = none ↔ values a ≠ [])
    (hread : ∀ a d, write a = some d →
      read d = if (numbers a).all Number.isFinite then some a else none)
    (hequal : ∀ a, values a = [] → (numbers a).all Number.isFinite = true → equal a a = true)
    (hplain : ∀ d, d.IsJson → ∀ a, read d = some a →
      values a = [] ∧ (numbers a).all Number.isFinite = true) :
    RoundTrips write read equal values numbers where
  write_eq_none_iff := hnone
  read_iff a d hd := by
    have hvalues : values a = [] := by
      by_contra hne
      rw [(hnone a).2 hne] at hd
      nomatch hd
    rw [hread a d hd, ← List.all_eq_true]
    constructor
    · rintro ⟨b, hb, -⟩
      by_contra hfinite
      rw [if_neg hfinite] at hb
      nomatch hb
    · intro hfinite
      exact ⟨a, if_pos hfinite, hequal a hvalues hfinite⟩
  read_eq := hread
  read_again d hd a ha := by
    obtain ⟨hvalues, hfinite⟩ := hplain d hd a ha
    cases hwrite : write a with
    | none => exact absurd hvalues ((hnone a).1 hwrite)
    | some d' => exact ⟨d', rfl, by rw [hread a d' hwrite, if_pos hfinite]⟩

end Data

end ObjectLisp
