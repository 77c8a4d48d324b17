import ObjectLisp.Data.Token
import ObjectLisp.Proofs.Data.Expression
import ObjectLisp.Proofs.Eval.Execution

/-!
# Programs and tokens that are read back

Programs and lists of tokens are read back as expressions are (`data_round_trips`). Reading them is
more tolerant than writing: fields may come in any order and among others, a program or a token may
be a list of its parts, and a tag may hold null.
-/

namespace ObjectLisp

/-! ## Programs -/

namespace Statement

/-- A statement is not written exactly when a computed value occurs in its expression. -/
theorem toData?_eq_none_iff (st : Statement) : st.toData? = none ↔ st.expr.values ≠ [] := by
  cases st <;> rw [toData?, Option.map_eq_none_iff, Expr.toData?_eq_none_iff, expr]

/-- A definition is read from the two fields of its record, in any order. -/
theorem ofData?_define (fields : List (String × Data)) :
    ofData? (.variant "Define" (.record fields)) = (do
      let name ← (fields.lookup "name").bind Data.text?
      let value ← (fields.lookup "value").bind Expr.ofData?
      return define name value) := by
  rw [Data.variant, ofData?, if_pos rfl]
  simp only [← Data.field?_bind, Option.bind_eq_bind, Option.bind_assoc]

/-- A print statement is read from its expression. -/
theorem ofData?_print (content : Data) :
    ofData? (.variant "Print" content) = (Expr.ofData? content).map print := by
  cases content <;> simp [Data.variant, ofData?]

/-- A statement that is written is read back exactly when its numbers are finite. -/
theorem ofData?_of_toData? {st : Statement} {d : Data} (h : st.toData? = some d) :
    ofData? d = if st.expr.isFinite then some st else none := by
  cases st with
  | define name e =>
    obtain ⟨b, hb, rfl⟩ := Option.map_eq_some_iff.1 h
    rw [ofData?_define]
    show ((Expr.ofData? b).bind fun value => some (define name value)) = _
    rw [Expr.ofData?_of_toData? hb, expr]
    cases e.isFinite <;> rfl
  | print e =>
    obtain ⟨b, hb, rfl⟩ := Option.map_eq_some_iff.1 h
    rw [ofData?_print, Expr.ofData?_of_toData? hb, expr]
    cases e.isFinite <;> rfl

/-- The expression of a statement that is read is plain. -/
theorem isPlain_of_ofData? {d : Data} {st : Statement} (hd : d.IsJson) (h : ofData? d = some st) :
    st.expr.IsPlain := by
  unfold ofData? at h
  split at h
  case h_1 tag content =>
    cases hd with | record hsingle =>
    have hcontent : content.IsJson := hsingle _ List.mem_cons_self
    -- Only these two tags are read, and each of them reads one expression.
    split_ifs at h with hdefine hprint
    · split at h
      case h_1 fields =>
        cases hcontent with | record hfields =>
        have hread : ofData? (.variant "Define" (.record fields)) = some st := by
          rwa [Data.variant, ofData?, if_pos rfl]
        rw [ofData?_define] at hread
        obtain ⟨name, -, hread⟩ := Option.bind_eq_some_iff.1 hread
        obtain ⟨e, he, hread⟩ := Option.bind_eq_some_iff.1 hread
        cases hread
        obtain ⟨d, hd, he⟩ := Option.bind_eq_some_iff.1 he
        exact Expr.isPlain_of_ofData? (Data.isJson_of_lookup hd hfields) he
      case h_2 => nomatch h
    · obtain ⟨e, he, rfl⟩ := Option.map_eq_some_iff.1 h
      exact Expr.isPlain_of_ofData? hcontent he
  case h_2 => nomatch h

/-- A statement with a plain expression equals itself. -/
theorem equal_self (same : Value → Value → Bool) {st : Statement} (h : st.expr.IsPlain) :
    st.equal same st = true := by
  cases st with
  | define name e =>
    have he : e.equal same e = true := Expr.equal_self same h
    simp [equal, he]
  | print e => exact Expr.equal_self same h

end Statement

/-- A list equals itself if its members do. -/
theorem isEqv_self {α : Type} {equal : α → α → Bool} {l : List α}
    (h : ∀ a ∈ l, equal a a = true) : l.isEqv l equal = true := by
  induction l with
  | nil => rfl
  | cons a l ih =>
    obtain ⟨hhead, htail⟩ := List.forall_mem_cons.1 h
    rw [List.isEqv, hhead, ih htail]
    rfl

namespace Program

/-- The values that a program holds. -/
def values (p : Program) : List Value := p.statements.flatMap (·.expr.values)

/-- The numbers in a program, apart from those in computed values. -/
def numbers (p : Program) : List Float := p.statements.flatMap (·.expr.numbers)

/-- The numbers of a program are finite if those of its statements are. -/
theorem all_isFinite_numbers (p : Program) :
    p.numbers.all Number.isFinite = p.statements.all (·.expr.isFinite) := by
  rw [numbers, List.all_flatMap]
  rfl

/-- No computed value occurs in a program if none does in its statements. -/
theorem values_eq_nil_iff (p : Program) :
    p.values = [] ↔ ∀ st ∈ p.statements, st.expr.values = [] := List.flatMap_eq_nil_iff

/-- A program is not written exactly when a computed value occurs in it. -/
theorem toData?_eq_none_iff (p : Program) : p.toData? = none ↔ p.values ≠ [] := by
  rw [toData?, Option.map_eq_none_iff, Data.all?_eq_none_iff, Ne, values_eq_nil_iff]
  simp only [Statement.toData?_eq_none_iff, not_forall, exists_prop]

/-- A program that is written is read back exactly when its numbers are finite. -/
theorem ofData?_of_toData? {p : Program} {d : Data} (h : p.toData? = some d) :
    ofData? d = if p.numbers.all Number.isFinite then some p else none := by
  obtain ⟨ds, hds, rfl⟩ := Option.map_eq_some_iff.1 h
  show (Data.all? Statement.ofData? ds).map Program.mk = _
  rw [Data.all?_written (fun st _ d => Statement.ofData?_of_toData?) hds, all_isFinite_numbers]
  cases p.statements.all (·.expr.isFinite) <;> rfl

/-- What is read holds no computed value and finite numbers only. -/
theorem isPlain_of_ofStatements? {d : Data} {p : Program} (hd : d.IsJson)
    (h : ofStatements? d = some p) : ∀ st ∈ p.statements, st.expr.IsPlain := by
  cases hd with
  | list hitems =>
    obtain ⟨ss, hss, rfl⟩ := Option.map_eq_some_iff.1 h
    intro st hst
    obtain ⟨item, hitem, hread⟩ := Data.exists_of_mem_all? hss hst
    exact Statement.isPlain_of_ofData? (hitems item hitem) hread
  | null | bool | natural | float | text | record => nomatch h

/-- The expressions of a program that is read are plain. -/
theorem isPlain_of_ofData? {d : Data} {p : Program} (hd : d.IsJson) (h : ofData? d = some p) :
    ∀ st ∈ p.statements, st.expr.IsPlain := by
  unfold ofData? at h
  split at h
  case h_1 fields =>
    cases hd with | record hfields =>
    rw [Data.field?_bind] at h
    obtain ⟨d, hd, h⟩ := Option.bind_eq_some_iff.1 h
    exact isPlain_of_ofStatements? (Data.isJson_of_lookup hd hfields) h
  case h_2 items =>
    cases hd with | list hitems =>
    exact isPlain_of_ofStatements? (hitems items List.mem_cons_self) h
  case h_3 => nomatch h

/-- Programs are read back. -/
theorem roundTrips (same : Value → Value → Bool) :
    Data.RoundTrips toData? ofData? (equal same) values numbers := by
  have hplain (p : Program) : p.values = [] ∧ p.numbers.all Number.isFinite = true
      ↔ ∀ st ∈ p.statements, st.expr.IsPlain := by
    rw [values_eq_nil_iff, all_isFinite_numbers, List.all_eq_true, ← forall₂_and]
    rfl
  refine .of_finite toData?_eq_none_iff (fun _ _ => ofData?_of_toData?) ?_ ?_
  · intro p hvalues hfinite
    exact isEqv_self fun st hst => st.equal_self same ((hplain p).1 ⟨hvalues, hfinite⟩ st hst)
  · intro d hd p hp
    exact (hplain p).2 (isPlain_of_ofData? hd hp)

end Program

/-! ## Tokens -/

namespace TokenKind

/-- The number of a token, if it has one. -/
def numbers : TokenKind → List Float
  | number x => [x]
  | _ => []

/-- Equality of token kinds, with numbers compared as numbers. -/
def equal : TokenKind → TokenKind → Bool
  | number x, number y => x == y
  | a, b => a = b

/-- Whether the number of a token, if it has one, is finite. -/
def isFinite (k : TokenKind) : Bool := k.numbers.all Number.isFinite

/-- A token kind is read back exactly when its number, if it has one, is finite. -/
theorem ofData?_toData (k : TokenKind) :
    ofData? k.toData = if k.isFinite then some k else none := by
  cases k with
  | number x =>
    show (Data.ofFloat x).float?.map number = _
    rw [Data.float?_ofFloat, isFinite, numbers]
    cases hx : Number.isFinite x <;> simp [hx]
  | bool b => cases b <;> rfl
  | leftParen | rightParen | colon | null | identifier | endOfInput => rfl

/-- A tag that stands by itself holds no number. -/
theorem numbers_of_ofTag? {tag : String} {k : TokenKind} (h : ofTag? tag = some k) :
    k.numbers = [] := by
  unfold ofTag? at h
  split_ifs at h <;> cases h <;> rfl

/-- The number of a token kind that is read is finite. -/
theorem isFinite_of_ofData? {d : Data} {k : TokenKind} (hd : d.IsJson) (h : ofData? d = some k) :
    k.isFinite = true := by
  unfold ofData? at h
  split at h
  case h_1 => rw [isFinite, numbers_of_ofTag? h, List.all_nil]
  case h_2 tag content =>
    cases hd with | record hsingle =>
    have hcontent : content.IsJson := hsingle _ List.mem_cons_self
    -- A number, a name, or a tag that holds null; only the first has a number.
    split_ifs at h
    · obtain ⟨x, hx, rfl⟩ := Option.map_eq_some_iff.1 h
      rw [isFinite, numbers, List.all_cons, hcontent.isFinite hx, List.all_nil]
      rfl
    · obtain ⟨name, -, rfl⟩ := Option.map_eq_some_iff.1 h
      rfl
    · split at h
      · rw [isFinite, numbers_of_ofTag? h, List.all_nil]
      · cases h
  case h_3 => cases h

/-- A token kind with a finite number equals itself. -/
theorem equal_self {k : TokenKind} (h : k.isFinite = true) : k.equal k = true := by
  cases k with
  | number x =>
    rw [isFinite, numbers, List.all_cons, Bool.and_eq_true] at h
    exact Number.beq_self_of_isFinite h.1
  | leftParen | rightParen | colon | bool | null | identifier | endOfInput => simp [equal]

end TokenKind

namespace Token

/-- Equality of tokens. -/
def equal (t u : Token) : Bool :=
  t.kind.equal u.kind && t.lexeme == u.lexeme && decide (t.position = u.position)

/-- The numbers in some tokens. -/
def numbers (tokens : List Token) : List Float := tokens.flatMap (·.kind.numbers)

/-- The numbers of some tokens are finite if those of their kinds are. -/
theorem all_isFinite_numbers (tokens : List Token) :
    (numbers tokens).all Number.isFinite = tokens.all (·.kind.isFinite) := by
  rw [numbers, List.all_flatMap]
  rfl

/-- A token is read back exactly when its kind is. -/
theorem ofData?_toData (t : Token) :
    ofData? t.toData = if t.kind.isFinite then some t else none := by
  show ofParts? t.kind.toData (.text t.lexeme) (.natural t.position.line)
    (.natural t.position.column) = _
  rw [ofParts?, TokenKind.ofData?_toData]
  cases t.kind.isFinite <;> rfl

/-- The kind of a token that is read comes from one of the four parts. -/
theorem isFinite_of_ofParts? {kind lexeme line column : Data} {t : Token} (hkind : kind.IsJson)
    (h : ofParts? kind lexeme line column = some t) : t.kind.isFinite = true := by
  obtain ⟨k, hk, h⟩ := Option.bind_eq_some_iff.1 h
  obtain ⟨lexeme, -, h⟩ := Option.bind_eq_some_iff.1 h
  obtain ⟨line, -, h⟩ := Option.bind_eq_some_iff.1 h
  obtain ⟨column, -, h⟩ := Option.bind_eq_some_iff.1 h
  cases h
  exact TokenKind.isFinite_of_ofData? hkind hk

/-- The number of a token that is read is finite. -/
theorem isFinite_of_ofData? {d : Data} {t : Token} (hd : d.IsJson) (h : ofData? d = some t) :
    t.kind.isFinite = true := by
  unfold ofData? at h
  split at h
  case h_1 fields =>
    cases hd with | record hfields =>
    obtain ⟨kind, hkind, h⟩ := Option.bind_eq_some_iff.1 h
    obtain ⟨lexeme, -, h⟩ := Option.bind_eq_some_iff.1 h
    obtain ⟨line, -, h⟩ := Option.bind_eq_some_iff.1 h
    obtain ⟨column, -, h⟩ := Option.bind_eq_some_iff.1 h
    exact isFinite_of_ofParts? (Data.isJson_of_lookup (Data.lookup_of_field? hkind) hfields) h
  case h_2 kind _ _ _ =>
    cases hd with | list hitems =>
    exact isFinite_of_ofParts? (hitems kind List.mem_cons_self) h
  case h_3 => nomatch h

/-- Tokens are read back exactly when all their numbers are finite. -/
theorem listOfData?_listToData (tokens : List Token) :
    listOfData? (listToData tokens)
      = if (numbers tokens).all Number.isFinite then some tokens else none := by
  rw [all_isFinite_numbers]
  refine Data.all?_written (fun t _ d hd => ?_) (Data.all?_some toData tokens)
  cases hd
  exact ofData?_toData t

/-- The numbers of tokens that are read are finite. -/
theorem isFinite_of_listOfData? {d : Data} {tokens : List Token} (hd : d.IsJson)
    (h : listOfData? d = some tokens) : ∀ t ∈ tokens, t.kind.isFinite = true := by
  cases hd with
  | list hitems =>
    intro t ht
    obtain ⟨item, hitem, hread⟩ := Data.exists_of_mem_all? h ht
    exact isFinite_of_ofData? (hitems item hitem) hread
  | null | bool | natural | float | text | record => nomatch h

/-- Tokens are read back. -/
theorem roundTrips : Data.RoundTrips (fun tokens => some (listToData tokens)) listOfData?
    (fun tokens => tokens.isEqv · equal) (fun _ => []) numbers := by
  refine .of_finite (fun _ => by simp) ?_ ?_ ?_
  · rintro tokens d ⟨⟩
    exact listOfData?_listToData tokens
  · intro tokens _ hfinite
    rw [all_isFinite_numbers, List.all_eq_true] at hfinite
    exact isEqv_self fun t ht => by simp [equal, TokenKind.equal_self (hfinite t ht)]
  · intro d hd tokens htokens
    rw [all_isFinite_numbers, List.all_eq_true]
    exact ⟨rfl, isFinite_of_listOfData? hd htokens⟩

end Token

/-! ## The round trips together -/

/-- Expressions, programs and tokens are written, unless a computed value occurs in them, and read
back, unless a number in them is infinite or undefined; such a number is written as null, and no
number is read from that. -/
theorem data_round_trips (same : Value → Value → Bool) :
    Data.RoundTrips Expr.toData? Expr.ofData? (Expr.equal same) Expr.values Expr.numbers
    ∧ Data.RoundTrips Program.toData? Program.ofData? (Program.equal same) Program.values
        Program.numbers
    ∧ Data.RoundTrips (fun tokens => some (Token.listToData tokens)) Token.listOfData?
        (fun tokens => tokens.isEqv · Token.equal) (fun _ => []) Token.numbers
    ∧ (∀ x, Number.isFinite x = false →
        (Expr.number x).toData? = some (.variant "NumberLiteral" .null)
        ∧ (TokenKind.number x).toData = .variant "Number" .null) := by
  refine ⟨Expr.roundTrips same, Program.roundTrips same, Token.roundTrips, fun x hx => ?_⟩
  have hnull : Data.ofFloat x = .null := by simp [Data.ofFloat, hx]
  rw [Expr.toData?, TokenKind.toData, hnull]
  exact ⟨rfl, rfl⟩

example : Program.ofData? (.list [.list [.variant "Print" (.variant "NullLiteral" .null)]])
    = some ⟨[.print .null]⟩ := by
  simp [Program.ofData?, Program.ofStatements?, Data.all?, Data.variant, Statement.ofData?,
    Expr.ofData?, Expr.ofLeaf?]

end ObjectLisp
