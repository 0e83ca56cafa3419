import RuleEngine.Operation.Basic

/-!
# Values

What evaluation yields and what operations work on.

## Main definitions

* `Value` - truth values, literals, lists, functions with some arguments bound,
  sub-expressions, and argument lists.
* `Value.render` - the form in which values are shown.
* `Value.weight` - a size that a list exceeds by more than its elements, and a
  function by more than its bound arguments.

Equality of values is structural and decidable.

## Design notes

**Literals are texts.**  A quoted text is a value as it stands.  Whether it is true is
asked of the host, and whether it is the name of a function is asked where it is
applied.

**Functions and sub-expressions are data.**  Neither has a body that could be run: a
function has its signature, and a sub-expression an operand, which leads into a pool.
So values can be compared, and a value that leaves its expression takes no nodes along.

**Joined arguments are a kind of their own.**  A list may be an argument, so a list of
arguments must not be taken for one.  It is shown like a list, in parentheses.
-/

namespace RuleEngine

/-- A value. -/
inductive Value
  /-- A truth value. -/
  | bool (truth : Bool)
  /-- A literal. -/
  | str (text : String)
  /-- A list. -/
  | list (items : List Value)
  /-- A registered function, with its first arguments bound. -/
  | function (signature : Signature) (bound : List Value)
  /-- A body that waits for the value of one name. -/
  | subExpr (parameter : String) (body : Operand)
  /-- Arguments joined for a call. -/
  | args (items : List Value)
  deriving Repr

namespace Value

instance : Inhabited Value := ⟨bool false⟩

/-! ### Equality -/

mutual

/-- Equality of values is decided along their structure. -/
def decEq : (a b : Value) → Decidable (a = b)
  | bool a, bool b => decidable_of_iff (a = b) (by simp)
  | str a, str b => decidable_of_iff (a = b) (by simp)
  | list a, list b =>
    match decEqList a b with
    | isTrue h => isTrue (by rw [h])
    | isFalse h => isFalse (by simpa using h)
  | function signature bound, function signature' bound' =>
    if hk : signature = signature' then
      match decEqList bound bound' with
      | isTrue h => isTrue (by rw [hk, h])
      | isFalse h => isFalse (by simp [h])
    else isFalse (by simp [hk])
  | subExpr name body, subExpr name' body' =>
    decidable_of_iff (name = name' ∧ body = body') (by simp)
  | args a, args b =>
    match decEqList a b with
    | isTrue h => isTrue (by rw [h])
    | isFalse h => isFalse (by simpa using h)
  | bool _, str _ | bool _, list _ | bool _, function _ _ | bool _, subExpr _ _ | bool _, args _
  | str _, bool _ | str _, list _ | str _, function _ _ | str _, subExpr _ _ | str _, args _
  | list _, bool _ | list _, str _ | list _, function _ _ | list _, subExpr _ _ | list _, args _
  | function _ _, bool _ | function _ _, str _ | function _ _, list _
  | function _ _, subExpr _ _ | function _ _, args _
  | subExpr _ _, bool _ | subExpr _ _, str _ | subExpr _ _, list _
  | subExpr _ _, function _ _ | subExpr _ _, args _
  | args _, bool _ | args _, str _ | args _, list _ | args _, function _ _
  | args _, subExpr _ _ => isFalse nofun

/-- Equality of lists of values is decided from the front. -/
def decEqList : (a b : List Value) → Decidable (a = b)
  | [], [] => isTrue rfl
  | [], _ :: _ => isFalse nofun
  | _ :: _, [] => isFalse nofun
  | a :: as, b :: bs =>
    match decEq a b with
    | isTrue h =>
      match decEqList as bs with
      | isTrue hs => isTrue (by rw [h, hs])
      | isFalse hs => isFalse (by simp [hs])
    | isFalse h => isFalse (by simp [h])

end

instance : DecidableEq Value := decEq

/-! ### Rendering -/

mutual

/-- The form in which values are shown: literals in quotes, lists in brackets,
functions as `name/arity` with their bound arguments in parentheses. -/
def render : Value → String
  | bool true => "true"
  | bool false => "false"
  | str text => "'" ++ text ++ "'"
  | list items => "[" ++ ", ".intercalate (renderEach items) ++ "]"
  | function signature [] => signature.name ++ "/" ++ toString signature.arity
  | function signature (first :: rest) =>
    signature.name ++ "/" ++ toString signature.arity ++
      "(" ++ ", ".intercalate (render first :: renderEach rest) ++ ")"
  | subExpr parameter body => "'" ++ parameter ++ "' => " ++ (Operand.block body).render
  | args items => "(" ++ ", ".intercalate (renderEach items) ++ ")"

/-- The forms of several values. -/
def renderEach : List Value → List String
  | [] => []
  | first :: rest => render first :: renderEach rest

end

theorem renderEach_eq_map (values : List Value) : renderEach values = values.map render := by
  induction values with
  | nil => rfl
  | cons first rest ih => rw [renderEach, ih, List.map_cons]

/-- Several values, separated by commas. -/
def renderAll (values : List Value) : String :=
  ", ".intercalate (values.map render)

/-! ### Weight -/

mutual

/-- The number of values in a value, itself included. -/
def weight : Value → Nat
  | bool _ => 1
  | str _ => 1
  | list items => weightAll items + 1
  | function _ bound => weightAll bound + 1
  | subExpr _ _ => 1
  | args items => weightAll items + 1

/-- The number of values in the values of a list. -/
def weightAll : List Value → Nat
  | [] => 0
  | first :: rest => weight first + weightAll rest

end

@[simp] theorem weightAll_append (front back : List Value) :
    weightAll (front ++ back) = weightAll front + weightAll back := by
  induction front with
  | nil => simp [weightAll]
  | cons first rest ih => simp [weightAll, ih, Nat.add_assoc]

/-! ### Kinds and parts -/

/-- The word for the kind of a value. -/
def kind : Value → String
  | bool _ => "bool"
  | str _ => "literal"
  | list _ => "list"
  | function _ _ => "function"
  | subExpr _ _ => "sub-expression"
  | args _ => "argument list"

/-- The text of a literal. -/
def text? : Value → Option String
  | str text => some text
  | _ => none

/-- The truth of a truth value. -/
def truth? : Value → Option Bool
  | bool truth => some truth
  | _ => none

/-- The elements of a list. -/
def items? : Value → Option (List Value)
  | list items => some items
  | _ => none

end Value

end RuleEngine
