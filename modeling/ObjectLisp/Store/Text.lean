import ObjectLisp.Store
import ObjectLisp.Text.Quoted
import ObjectLisp.Unvisited

/-!
# Value text

`Store.text` is what programs print. Objects are written with their fields in key order and their
prototype last, and nested objects are written out in full wherever they occur. Only an object
inside itself is cut short, as `<cycle>`: the writer carries the objects around the place it is
at, and nothing else.

`Store.inspect` shows a value and its kind, and the body of a closure too.
-/

namespace ObjectLisp.Store

/-- The text of a value inside the objects `ancestors`. -/
def textWithin (s : Store) (ancestors : List ObjectId) : Value → String
  | .number x => Number.text x
  | .bool b => if b then "true" else "false"
  | .null => "null"
  | .keyword name => ":" ++ name
  | .closure id => "<closure (" ++ " ".intercalate (s.closure id).params ++ ")>"
  | .primitive p => "<primitive " ++ p.name ++ ">"
  | .object id =>
    if hcycle : id ∈ ancestors then "<cycle>"
    else if hid : id.index < s.objects.size then
      let o := s.objects[id.index]
      let field (e : String × Value) := " :" ++ e.1 ++ " " ++ s.textWithin (id :: ancestors) e.2
      "(obj" ++ String.join (o.fields.entries.map field)
        ++ " proto:" ++ s.textWithin (id :: ancestors) o.prototypeValue ++ ")"
    else "(obj proto:null)"
termination_by unvisited s.objectIds ancestors
decreasing_by
  all_goals exact unvisited_cons_lt (mem_objectIds.2 hid) hcycle

/-- The text of a value. -/
def text (s : Store) (v : Value) : String := s.textWithin [] v

/-- The text of an expression, with the values it holds. -/
def exprText (s : Store) (e : Expr) : String := e.text s.text

/-- A list of quoted texts. -/
def quotedList (texts : List String) : String :=
  "[" ++ ", ".intercalate (texts.map Text.quote) ++ "]"

/-- A value with the name of its kind. -/
def inspect (s : Store) : Value → String
  | .number x => "Number(" ++ Number.plainText x ++ ")"
  | .bool b => "Bool(" ++ s.text (.bool b) ++ ")"
  | .null => "Null"
  | .keyword name => "Keyword(" ++ name ++ ")"
  | .closure id =>
    let c := s.closure id
    "Closure \x7b params: " ++ quotedList c.params ++ ", body: "
      ++ Text.quote (s.exprText c.body) ++ " \x7d"
  | .primitive p => "Primitive(" ++ p.name ++ ")"
  | .object id => "Object(" ++ s.text (.object id) ++ ")"

end ObjectLisp.Store
