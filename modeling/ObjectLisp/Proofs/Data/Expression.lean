import ObjectLisp.Data.Program
import ObjectLisp.Proofs.Data.Reading
import ObjectLisp.Proofs.Expr.Substitution
import ObjectLisp.Proofs.Number.Reading

/-!
# Expressions that are read back

An expression is written unless a computed value occurs in it (`Expr.toData?_eq_none_iff`), and read
back if its numbers are finite (`Expr.ofData?_of_toData?`). The smaller expressions of a variant are
looked up among its fields, wherever they stand. What is read is plain (`Expr.isPlain_of_ofData?`):
it holds no computed value, and its numbers are finite.
-/

namespace ObjectLisp

namespace Expr

mutual

/-- The numbers in an expression, apart from those in computed values. -/
def numbers : Expr → List Float
  | number x => [x]
  | lambda _ body => body.numbers
  | application head args => head.numbers ++ allNumbers args
  | conditional guard consequent alternative =>
    guard.numbers ++ consequent.numbers ++ alternative.numbers
  | _ => []

/-- The numbers in some expressions. -/
def allNumbers : List Expr → List Float
  | [] => []
  | e :: rest => e.numbers ++ allNumbers rest

end

/-- Whether all numbers in an expression are finite. -/
def isFinite (e : Expr) : Bool := e.numbers.all Number.isFinite

/-- The numbers of several expressions are finite if those of each are. -/
theorem all_isFinite_allNumbers (es : List Expr) :
    (allNumbers es).all Number.isFinite = es.all isFinite := by
  induction es with
  | nil => rfl
  | cons e es ih => rw [allNumbers, List.all_append, ih, List.all_cons, isFinite]

/-- No computed value occurs in several expressions if none does in each. -/
theorem allValues_eq_nil_iff {es : List Expr} : allValues es = [] ↔ ∀ e ∈ es, e.values = [] := by
  induction es with
  | nil => simp [allValues]
  | cons e es ih => simp [allValues, ih]

/-- Expressions in a row are written one by one. -/
theorem listToData?_eq (es : List Expr) : listToData? es = Data.all? toData? es := by
  induction es with
  | nil => rfl
  | cons e es ih =>
    rw [listToData?, Data.all?, ih]
    cases e.toData? <;> cases Data.all? toData? es <;> rfl

/-- They are read one by one. -/
theorem listOfData?_eq (ds : List Data) : listOfData? ds = Data.all? ofData? ds := by
  induction ds with
  | nil => rw [listOfData?, Data.all?]
  | cons d ds ih =>
    rw [listOfData?, Data.all?, ih]
    cases ofData? d <;> cases Data.all? ofData? ds <;> rfl

/-- Exactly a computed value keeps an expression from being written. -/
theorem toData?_eq_none_iff (e : Expr) : e.toData? = none ↔ e.values ≠ [] := by
  -- A form is written when all its parts are; a computed value in one of them is one in the form.
  induction e with
  | var | number | bool | null | keyword => simp [toData?, values]
  | value => simp [toData?, values]
  | lambda params body ih =>
    rw [values, ← ih, toData?]
    cases body.toData? <;> simp
  | application head args ihHead ihArgs =>
    have hargs : listToData? args = none ↔ allValues args ≠ [] := by
      rw [listToData?_eq, Data.all?_eq_none_iff, Ne, allValues_eq_nil_iff]
      simp only [not_forall]
      exact exists_congr fun e => ⟨fun ⟨he, h⟩ => ⟨he, (ihArgs e he).1 h⟩,
        fun ⟨he, h⟩ => ⟨he, (ihArgs e he).2 h⟩⟩
    rw [values, Ne, List.append_eq_nil_iff, not_and_or, ← Ne, ← Ne, ← ihHead, ← hargs, toData?]
    cases head.toData? <;> cases listToData? args <;> simp
  | conditional guard consequent alternative ih₁ ih₂ ih₃ =>
    rw [values, Ne, List.append_eq_nil_iff, List.append_eq_nil_iff, not_and_or, not_and_or, ← Ne,
      ← Ne, ← Ne, ← ih₁, ← ih₂, ← ih₃, toData?]
    cases guard.toData? <;> cases consequent.toData? <;> cases alternative.toData? <;> simp

/-! ### Reading variants -/

/-- A lambda is read from the two fields of its record, in any order. -/
theorem ofFields?_lambda (fields : List (String × Data)) :
    ofFields? "Lambda" fields = (do
      let params ← (fields.lookup "params").bind Data.texts?
      let body ← (fields.lookup "body").bind ofData?
      return lambda params body) := by
  rw [ofFields?, if_pos rfl]
  simp only [← Data.field?_bind, Option.bind_eq_bind, Option.bind_assoc]

/-- An application is read from the two fields of its record, in any order. -/
theorem ofFields?_application (fields : List (String × Data)) :
    ofFields? "Application" fields = (do
      let head ← (fields.lookup "head").bind ofData?
      let args ← (fields.lookup "args").bind fun d => d.items?.bind fun l => listOfData? l.1
      return application head args) := by
  rw [ofFields?, if_neg (by decide), if_pos rfl]
  simp only [← Data.field?_bind, Option.bind_eq_bind, Option.bind_assoc]

/-- A conditional is read from the three fields of its record, in any order. -/
theorem ofFields?_conditional (fields : List (String × Data)) :
    ofFields? "Conditional" fields = (do
      let guard ← (fields.lookup "guard").bind ofData?
      let consequent ← (fields.lookup "then_expr").bind ofData?
      let alternative ← (fields.lookup "else_expr").bind ofData?
      return conditional guard consequent alternative) := by
  rw [ofFields?, if_neg (by decide), if_neg (by decide), if_pos rfl]
  simp only [← Data.field?_bind, Option.bind_eq_bind, Option.bind_assoc]

/-- A variant that holds a record is read from its fields. -/
theorem ofData?_variant_record (tag : String) (fields : List (String × Data)) :
    ofData? (.variant tag (.record fields)) = ofFields? tag fields := by
  rw [Data.variant, ofData?]

/-- Any other variant is read from what it holds. -/
theorem ofData?_variant_leaf {tag : String} {content : Data}
    (h : ∀ fields, content ≠ .record fields) :
    ofData? (.variant tag content) = ofLeaf? tag content := by
  rw [Data.variant, ofData?]
  exact h

/-- An expression that is written is read back exactly when its numbers are finite. -/
theorem ofData?_of_toData? {e : Expr} {d : Data} (h : e.toData? = some d) :
    ofData? d = if e.isFinite then some e else none := by
  induction e generalizing d with
  | var | bool | null | keyword =>
    rw [toData?] at h
    cases h
    simp [ofData?, Data.variant, ofLeaf?, Data.text?, Data.bool?, isFinite, numbers]
  | number x =>
    -- Null, which stands for a number that is not finite, is no document of a number.
    rw [toData?] at h
    cases h
    rw [ofData?_variant_leaf (Data.ofFloat_ne_record x)]
    simp only [ofLeaf?, Data.float?_ofFloat, isFinite, numbers]
    cases hx : Number.isFinite x <;> simp [hx]
  | value => cases h
  | lambda params body ih =>
    rw [toData?] at h
    split at h
    case h_1 b hbody =>
      cases h
      rw [ofData?_variant_record, ofFields?_lambda]
      show ((Data.ofTexts params).texts?.bind fun params =>
        (ofData? b).bind fun body => some (lambda params body)) = _
      -- The names are read back as they are; the numbers are those of the body.
      rw [Data.texts?_ofTexts, ih hbody, isFinite, isFinite, numbers]
      cases body.numbers.all Number.isFinite <;> rfl
    case h_2 => cases h
  | application head args ihHead ihArgs =>
    rw [toData?] at h
    split at h
    case h_1 b bs hhead hargs =>
      cases h
      rw [listToData?_eq] at hargs
      rw [ofData?_variant_record, ofFields?_application]
      show ((ofData? b).bind fun head =>
        (listOfData? bs).bind fun args => some (application head args)) = _
      rw [listOfData?_eq, ihHead hhead, Data.all?_written (fun e he d => ihArgs e he) hargs,
        isFinite, isFinite, numbers, List.all_append, all_isFinite_allNumbers]
      cases head.numbers.all Number.isFinite <;> cases args.all isFinite <;> rfl
    case h_2 => cases h
  | conditional guard consequent alternative ih₁ ih₂ ih₃ =>
    rw [toData?] at h
    split at h
    case h_1 b₁ b₂ b₃ h₁ h₂ h₃ =>
      cases h
      rw [ofData?_variant_record, ofFields?_conditional]
      show ((ofData? b₁).bind fun guard => (ofData? b₂).bind fun consequent =>
        (ofData? b₃).bind fun alternative => some (conditional guard consequent alternative)) = _
      rw [ih₁ h₁, ih₂ h₂, ih₃ h₃, isFinite, isFinite, isFinite, isFinite, numbers, List.all_append,
        List.all_append]
      cases guard.numbers.all Number.isFinite <;> cases consequent.numbers.all Number.isFinite <;>
        cases alternative.numbers.all Number.isFinite <;> rfl
    case h_2 => cases h

/-! ### What is read -/

/-- Whether an expression holds no computed value and finite numbers only. -/
def IsPlain (e : Expr) : Prop := e.values = [] ∧ e.isFinite = true

/-- A number is plain if it is finite. -/
theorem isPlain_number_iff {x : Float} :
    (number x).IsPlain ↔ Number.isFinite x = true := by
  simp [IsPlain, values, isFinite, numbers]

/-- A lambda is plain if its body is. -/
theorem isPlain_lambda_iff {params : List String} {body : Expr} :
    (lambda params body).IsPlain ↔ body.IsPlain := by
  rw [IsPlain, values, isFinite, numbers, ← isFinite, ← IsPlain]

/-- An application is plain if its parts are. -/
theorem isPlain_application_iff {head : Expr} {args : List Expr} :
    (application head args).IsPlain ↔ head.IsPlain ∧ ∀ e ∈ args, e.IsPlain := by
  simp only [IsPlain, values, isFinite, numbers, List.append_eq_nil_iff, allValues_eq_nil_iff,
    List.all_append, all_isFinite_allNumbers, Bool.and_eq_true, List.all_eq_true]
  grind

/-- A conditional is plain if its parts are. -/
theorem isPlain_conditional_iff {guard consequent alternative : Expr} :
    (conditional guard consequent alternative).IsPlain
      ↔ guard.IsPlain ∧ consequent.IsPlain ∧ alternative.IsPlain := by
  simp only [IsPlain, values, isFinite, numbers, List.append_eq_nil_iff, List.all_append,
    Bool.and_eq_true]
  tauto

/-- A variant without smaller expressions holds at most one number, and that is finite. -/
theorem isPlain_of_ofLeaf? {tag : String} {content : Data} {e : Expr} (hcontent : content.IsJson)
    (h : ofLeaf? tag content = some e) : e.IsPlain := by
  unfold ofLeaf? at h
  split_ifs at h
  · obtain ⟨name, -, rfl⟩ := Option.map_eq_some_iff.1 h
    exact ⟨rfl, rfl⟩
  · obtain ⟨x, hx, rfl⟩ := Option.map_eq_some_iff.1 h
    exact isPlain_number_iff.2 (hcontent.isFinite hx)
  · obtain ⟨b, -, rfl⟩ := Option.map_eq_some_iff.1 h
    exact ⟨rfl, rfl⟩
  · obtain ⟨name, -, rfl⟩ := Option.map_eq_some_iff.1 h
    exact ⟨rfl, rfl⟩
  · split at h
    · cases h
      exact ⟨rfl, rfl⟩
    · nomatch h

/-- The smaller expressions of a variant are read from its fields. -/
theorem isPlain_of_ofFields? {tag : String} {fields : List (String × Data)} {e : Expr}
    (hfields : ∀ f ∈ fields, f.2.IsJson)
    (hsub : ∀ d, sizeOf d < sizeOf fields → d.IsJson → ∀ e, ofData? d = some e → e.IsPlain)
    (h : ofFields? tag fields = some e) : e.IsPlain := by
  -- The documents in the fields are smaller than the record, so what is read from them is plain.
  have hfield : ∀ name e, (fields.lookup name).bind ofData? = some e → e.IsPlain := by
    intro name e h
    obtain ⟨d, hd, he⟩ := Option.bind_eq_some_iff.1 h
    exact hsub d (Data.sizeOf_lt_of_lookup hd) (Data.isJson_of_lookup hd hfields) e he
  by_cases hlambda : tag = "Lambda"
  · subst hlambda
    rw [ofFields?_lambda] at h
    obtain ⟨params, -, h⟩ := Option.bind_eq_some_iff.1 h
    obtain ⟨body, hbody, h⟩ := Option.bind_eq_some_iff.1 h
    cases h
    exact isPlain_lambda_iff.2 (hfield _ _ hbody)
  by_cases happlication : tag = "Application"
  · subst happlication
    rw [ofFields?_application] at h
    obtain ⟨head, hhead, h⟩ := Option.bind_eq_some_iff.1 h
    obtain ⟨args, hargs, h⟩ := Option.bind_eq_some_iff.1 h
    cases h
    refine isPlain_application_iff.2 ⟨hfield _ _ hhead, fun e he => ?_⟩
    obtain ⟨d, hd, hargs⟩ := Option.bind_eq_some_iff.1 hargs
    obtain ⟨⟨items, hsize⟩, hitems, hargs⟩ := Option.bind_eq_some_iff.1 hargs
    rw [listOfData?_eq] at hargs
    -- Each argument was read from an item of the list in the field.
    obtain ⟨item, hitem, hread⟩ := Data.exists_of_mem_all? hargs he
    have hlt : sizeOf item < sizeOf fields :=
      (List.sizeOf_lt_of_mem hitem).trans (hsize.trans (Data.sizeOf_lt_of_lookup hd))
    exact hsub item hlt ((Data.isJson_of_lookup hd hfields).of_mem_items? hitems hitem) e hread
  by_cases hconditional : tag = "Conditional"
  · subst hconditional
    rw [ofFields?_conditional] at h
    obtain ⟨guard, h₁, h⟩ := Option.bind_eq_some_iff.1 h
    obtain ⟨consequent, h₂, h⟩ := Option.bind_eq_some_iff.1 h
    obtain ⟨alternative, h₃, h⟩ := Option.bind_eq_some_iff.1 h
    cases h
    exact isPlain_conditional_iff.2 ⟨hfield _ _ h₁, hfield _ _ h₂, hfield _ _ h₃⟩
  rw [ofFields?, if_neg hlambda, if_neg happlication, if_neg hconditional] at h
  nomatch h

/-- An expression that is read holds no computed value and finite numbers only. -/
theorem isPlain_of_ofData? {d : Data} {e : Expr} (hd : d.IsJson) (h : ofData? d = some e) :
    e.IsPlain := by
  -- The fields of a variant are two levels below the document, so the induction is on its size.
  induction hn : sizeOf d using Nat.strong_induction_on generalizing d e with
  | _ n ih =>
    unfold ofData? at h
    split at h
    case h_1 =>
      split_ifs at h
      cases h
      exact ⟨rfl, rfl⟩
    case h_2 tag content =>
      cases hd with | record hsingle =>
      have hcontent : content.IsJson := hsingle _ List.mem_cons_self
      split at h
      case h_1 fields =>
        cases hcontent with | record hfields =>
        refine isPlain_of_ofFields? hfields (fun d hlt hd e he => ih (sizeOf d) ?_ hd he rfl) h
        rw [← hn]
        simp only [Data.record.sizeOf_spec, List.cons.sizeOf_spec, Prod.mk.sizeOf_spec]
        omega
      case h_2 => exact isPlain_of_ofLeaf? hcontent h
    case h_3 => cases h

/-- Lists of expressions that equal themselves equal themselves. -/
theorem equalLists_self {same : Value → Value → Bool} {es : List Expr}
    (h : ∀ e ∈ es, e.equal same e = true) : equalLists same es es = true := by
  induction es with
  | nil => rw [equalLists]
  | cons e es ih =>
    obtain ⟨hhead, htail⟩ := List.forall_mem_cons.1 h
    rw [equalLists, hhead, ih htail]
    rfl

/-- An expression without computed values whose numbers are finite equals itself. -/
theorem equal_self (same : Value → Value → Bool) {e : Expr} (h : e.IsPlain) :
    e.equal same e = true := by
  induction e with
  | var | bool | null | keyword => simp [equal]
  | number x => exact Number.beq_self_of_isFinite (isPlain_number_iff.1 h)
  | value => nomatch h.1
  | lambda params body ih => simp [equal, ih (isPlain_lambda_iff.1 h)]
  | application head args ihHead ihArgs =>
    obtain ⟨hhead, hargs⟩ := isPlain_application_iff.1 h
    rw [equal, ihHead hhead, equalLists_self fun e he => ihArgs e he (hargs e he)]
    rfl
  | conditional guard consequent alternative ih₁ ih₂ ih₃ =>
    obtain ⟨h₁, h₂, h₃⟩ := isPlain_conditional_iff.1 h
    rw [equal, ih₁ h₁, ih₂ h₂, ih₃ h₃]
    rfl

/-- Expressions are read back. -/
theorem roundTrips (same : Value → Value → Bool) :
    Data.RoundTrips toData? ofData? (equal same) values numbers :=
  .of_finite toData?_eq_none_iff (fun _ _ => ofData?_of_toData?)
    (fun _ hvalues hfinite => equal_self same ⟨hvalues, hfinite⟩)
    (fun _ hd _ => isPlain_of_ofData? hd)

end Expr

end ObjectLisp
