import ByNeed.Decimal.Format
import ByNeed.Program.Basic
import ByNeed.Token.Basic

set_option autoImplicit false

namespace ByNeed.Text

def pieces (text : String) : List String :=
  (text.toList.splitOn '\n').map String.ofList

def withoutReturn (line : String) : String :=
  if line.endsWith '\r' then String.ofList line.toList.dropLast else line

def lines (text : String) : List String :=
  let closed := (pieces text).dropLast.map withoutReturn
  let last := (pieces text).getLast?.filter fun line => !line.isEmpty
  closed ++ last.toList

theorem intercalate_pieces (text : String) : String.intercalate "\n" (pieces text) = text := by
  apply String.toList_injective
  rw [String.toList_intercalate]
  have same : (pieces text).map String.toList = text.toList.splitOn '\n' := by
    simp [pieces, List.map_map, Function.comp_def]
  rw [same]
  exact List.intercalate_splitOn '\n'

theorem toList_withoutReturn (line : String) :
    (withoutReturn line).toList =
      if line.toList.getLast? = some '\r' then line.toList.dropLast else line.toList := by
  unfold withoutReturn
  rw [String.endsWith_char_eq_getLast?]
  by_cases closed : line.toList.getLast? = some '\r' <;> simp [closed]

end ByNeed.Text

namespace ByNeed

def Literal.text : Literal → String
  | .integer value => Decimal.integerText value
  | .float value => Decimal.floatText value
  | .string text => "\"" ++ text ++ "\""
  | .boolean value => booleanSpelling value

def UnaryOp.text : UnaryOp → String
  | .plus => Symbol.plus.spelling
  | .minus => Symbol.minus.spelling
  | .negation => Keyword.negation.spelling ++ " "
  | .increment => Symbol.increment.spelling
  | .decrement => Symbol.decrement.spelling

def ArithmeticOp.text : ArithmeticOp → String
  | .add => Symbol.plus.spelling
  | .subtract => Symbol.minus.spelling
  | .multiply => Symbol.times.spelling
  | .divide => Symbol.divide.spelling
  | .modulo => Symbol.modulo.spelling

def LogicalOp.text : LogicalOp → String
  | .conjunction => Keyword.conjunction.spelling
  | .disjunction => Keyword.disjunction.spelling

def ComparisonOp.text : ComparisonOp → String
  | .less => Symbol.less.spelling
  | .greater => Symbol.greater.spelling
  | .equal => Symbol.equal.spelling
  | .notEqual => Symbol.notEqual.spelling

def bracketed (elements : List String) : String :=
  "[" ++ String.intercalate ", " elements ++ "]"

def binaryText (left op right : String) : String :=
  "(" ++ left ++ " " ++ op ++ " " ++ right ++ ")"

mutual

def Expr.text : Expr → String
  | .name id => id
  | .literal value => value.text
  | .list elements => bracketed (Expr.texts elements)
  | .index collection position => collection.text ++ "[" ++ position.text ++ "]"
  | .create type arguments =>
    Keyword.create.spelling ++ " " ++ type ++ " " ++ bracketed (Expr.texts arguments)
  | .member object field => object.text ++ "." ++ field
  | .unary op operand => "(" ++ op.text ++ operand.text ++ ")"
  | .arithmetic op left right => binaryText left.text op.text right.text
  | .logical op left right => binaryText left.text op.text right.text
  | .comparison op left right => binaryText left.text op.text right.text

def Expr.texts : List Expr → List String
  | [] => []
  | first :: rest => first.text :: Expr.texts rest

end

def Pattern.text : Pattern → String
  | .literal value => value.text
  | .binding id => id
  | .wildcard => "_"

def Statement.branchHeader (condition : Expr) : List String :=
  Text.pieces
    (Keyword.branch.spelling ++ " " ++ condition.text ++ " " ++ Keyword.consequence.spelling)

def Statement.selectHeader (scrutinee : Expr) : List String :=
  Text.pieces (Keyword.select.spelling ++ " " ++ scrutinee.text)

def Statement.caseHeader (pattern : Pattern) : List String :=
  Text.pieces
    (Keyword.option.spelling ++ " " ++ pattern.text ++ " " ++ Keyword.consequence.spelling)

-- A line two columns further in. A carriage return at its end is dropped.
def indentedLine (line : String) : String :=
  "  " ++ Text.withoutReturn line

mutual

def Statement.lines : Statement → List String
  | .assign id value => Text.pieces (id ++ " = " ++ value.text)
  | .print value => Text.pieces (Keyword.print.spelling ++ " " ++ value.text)
  | .branch condition consequence none =>
    Statement.branchHeader condition ++ Statement.blockLines consequence ++
      [Keyword.finish.spelling]
  | .branch condition consequence (some alternative) =>
    Statement.branchHeader condition ++ Statement.blockLines consequence ++
      Keyword.otherwise.spelling :: Statement.blockLines alternative ++ [Keyword.finish.spelling]
  | .iterate id items body =>
    Text.pieces (Keyword.iterate.spelling ++ " " ++ id ++ " " ++ Keyword.among.spelling ++ " " ++
        items.text) ++
      Statement.blockLines body ++ [Keyword.finish.spelling]
  | .select scrutinee cases none =>
    Statement.selectHeader scrutinee ++ Statement.casesLines cases ++ [Keyword.finish.spelling]
  | .select scrutinee cases (some alternative) =>
    Statement.selectHeader scrutinee ++ Statement.casesLines cases ++
      Keyword.otherwise.spelling :: Statement.blockLines alternative ++ [Keyword.finish.spelling]
  | .define type fields =>
    (Keyword.record.spelling ++ " " ++ type) ::
      fields.map (fun field => "  " ++ Keyword.field.spelling ++ " " ++ field) ++
      [Keyword.finish.spelling]
  | .evaluate value => Text.pieces value.text

def Statement.blockLines : List Statement → List String
  | [] => []
  | first :: rest => first.lines.map indentedLine ++ Statement.blockLines rest

def Statement.casesLines : List (Pattern × List Statement) → List String
  | [] => []
  | (pattern, body) :: rest =>
    Statement.caseHeader pattern ++ Statement.blockLines body ++ Statement.casesLines rest

end

def Statement.text (statement : Statement) : String :=
  String.intercalate "\n" statement.lines

def Program.text (program : Program) : String :=
  String.join (program.statements.map fun statement => statement.text ++ "\n")

end ByNeed
