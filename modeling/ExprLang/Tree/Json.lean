import ExprLang.Json
import ExprLang.Tree

/-!
# Trees as JSON

A node is an object whose first field, `node`, names its sort. Tokens are written without their
lines, and a type that is not known is `null`.
-/

namespace ExprLang

/-- A token as JSON: its kind and its lexeme. -/
def Token.toJson (t : Token) : Json :=
  .object [("kind", .text t.kind.name), ("value", .text t.value)]

/-- A type as JSON. -/
def DataType.toJson (t : DataType) : Json :=
  .object [("id", .text t.id), ("size_bytes", .number t.size)]

/-- A type that may be missing as JSON. -/
def DataType.optionToJson (type : Option DataType) : Json := (type.map DataType.toJson).getD .null

namespace Tree

mutual

/-- A tree as JSON. -/
def toJson : Tree → Json
  | literal token type =>
    .object [("node", .text "Literal"), ("token", token.toJson), ("data_type", type.toJson)]
  | reference token type assignable =>
    .object [("node", .text "Variable"), ("token", token.toJson),
      ("data_type", DataType.optionToJson type), ("mutable", .bool assignable)]
  | unary operator type operand =>
    .object [("node", .text "Unary"), ("operator", operator.toJson),
      ("data_type", DataType.optionToJson type), ("operand", toJson operand)]
  | binary operator type left right =>
    .object [("node", .text "Binary"), ("operator", operator.toJson),
      ("data_type", DataType.optionToJson type), ("left", toJson left), ("right", toJson right)]
  | declaration name type assignable =>
    .object [("node", .text "Declaration"), ("name", name.toJson),
      ("data_type", DataType.optionToJson type), ("mutable", .bool assignable)]
  | assignment operator type target value =>
    .object [("node", .text "Assignment"), ("operator", operator.toJson),
      ("data_type", DataType.optionToJson type), ("target", toJson target),
      ("value", toJson value)]
  | empty => .object [("node", .text "Empty")]
  | block statements =>
    .object [("node", .text "Scope"), ("statements", .array (toJsonAll statements))]

/-- Trees as JSON, one by one. -/
def toJsonAll : List Tree → List Json
  | [] => []
  | tree :: rest => toJson tree :: toJsonAll rest

end

end Tree

end ExprLang
