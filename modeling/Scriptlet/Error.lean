import Scriptlet.RuntimeError
import Scriptlet.Syntax.Error
import Scriptlet.Token.Scan

/-! # Errors and their messages

All errors of the language together: those of scanning, of parsing and of running. Every error has a
position, a code, a category, a short description and a message.
-/

namespace Scriptlet

/-- An error of any stage. -/
inductive Error where
  | scanning (error : Token.ScanError)
  | parsing (error : SyntaxError)
  | running (error : RuntimeError)

/-- The categories of errors. -/
inductive Category where
  | lexical
  | grammar
  | parser
  | runtime
deriving DecidableEq

/-- The name of a category. -/
def Category.text : Category → String
  | lexical => "LexicalError"
  | grammar => "SyntaxError"
  | parser => "ParserError"
  | runtime => "RuntimeError"

namespace Token.Fault

/-- The code of a fault. -/
def code : Fault → Nat
  | illegalCharacter _ => 100
  | malformedBlockComment => 101
  | unterminatedBlockComment => 101

/-- The short description of a fault. -/
def description : Fault → String
  | illegalCharacter _ => "Illegal character"
  | malformedBlockComment => "Malformed block comment"
  | unterminatedBlockComment => "Unterminated block comment"

/-- The message of a fault. -/
def message : Fault → String
  | illegalCharacter c =>
    "Found illegal char '" ++ String.singleton c ++
      "'. Token not generated due to unsupported char."
  | malformedBlockComment => "Block comments must open with '#|'."
  | unterminatedBlockComment =>
    "Block comment is never closed; expected '|#' before end of input."

end Token.Fault

namespace SyntaxError.Cause

/-- The code of a cause. -/
def code : Cause → Nat
  | missingFunctionName _ => 200
  | malformedParameters _ => 201
  | invalidParameter => 202
  | missingSemicolon _ => 250
  | invalidDeclaration _ => 251
  | missingConstantValue _ => 252
  | invalidCount _ => 253
  | unexpected .. => 300

/-- The category of a cause: tokens that fit nowhere, or a construct that is written wrongly. -/
def category : Cause → Category
  | unexpected .. => .parser
  | _ => .grammar

/-- The short description of a cause. -/
def description : Cause → String
  | missingFunctionName _ => "Missing function identifier"
  | malformedParameters _ => "Malformed parameter list"
  | invalidParameter => "Invalid parameter"
  | missingSemicolon _ => "Missing semicolon"
  | invalidDeclaration _ => "Invalid var/const declaration"
  | missingConstantValue _ => "Missing constant value"
  | invalidCount _ => "Invalid iteration count"
  | unexpected .. => "Unexpected token"

/-- The message of a cause. -/
def message : Cause → String
  | missingFunctionName found =>
    "Expected function name following 'fn' keyword, but got " ++ found.describe ++ " instead."
  | malformedParameters found =>
    "Expected '(' to open the parameter list, but got " ++ found.describe ++ " instead."
  | invalidParameter => "Inside function declaration expected parameters to be identifiers."
  | missingSemicolon found =>
    "Missing ';' at the end of var declaration. Expected ';', but got " ++ found.describe ++
      " instead."
  | invalidDeclaration found =>
    "In var declaration expected identifier following 'let' or 'const' keywords, but got " ++
      found.describe ++ " instead."
  | missingConstantValue name => "Must assign value to constant '" ++ name ++ "'."
  | invalidCount found =>
    "Loop count " ++ Number.text found ++ " must be a non-negative whole number."
  | unexpected expected found =>
    "Unexpected token: expected " ++ expected.text ++ ", but got " ++ found.describe ++ " instead."

end SyntaxError.Cause

namespace RuntimeError.Cause

/-- The code of a cause. -/
def code : Cause → Nat
  | unresolved _ => 400
  | redeclared _ => 401
  | constantAssigned _ => 402
  | operandTypes .. => 403
  | boolExpected .. => 403
  | divisionByZero => 404
  | notCallable .. => 405
  | invalidTarget _ => 406
  | depthExceeded _ => 407
  | arityMismatch .. => 408
  | assertionFailed => 409
  | outputFailed _ => 410

/-- The short description of a cause. -/
def description : Cause → String
  | unresolved _ => "Unresolved identifier"
  | redeclared _ => "Redeclaration"
  | constantAssigned _ => "Constant reassignment"
  | operandTypes .. => "Type mismatch"
  | boolExpected .. => "Type mismatch"
  | divisionByZero => "Division by zero"
  | notCallable .. => "Not callable"
  | invalidTarget _ => "Invalid assignment target"
  | depthExceeded _ => "Stack overflow"
  | arityMismatch .. => "Arity mismatch"
  | assertionFailed => "Assertion failed"
  | outputFailed _ => "Output failed"

/-- The message of a cause. -/
def message : Cause → String
  | unresolved name => "Could not resolve '" ++ name ++ "'. It does not exist."
  | redeclared name =>
    "Cannot declare '" ++ name ++ "'. It is already defined in this scope."
  | constantAssigned name =>
    "Constants cannot be overwritten. '" ++ name ++ "' was declared constant."
  | operandTypes op left right =>
    "Type mismatch: '" ++ op.text ++ "' is not defined for " ++ left.text ++ " and " ++
      right.text ++ "."
  | boolExpected context found =>
    "Type mismatch: " ++ context ++ " expects a bool, found " ++ found.text ++ "."
  | divisionByZero => "Division by zero."
  | notCallable text type =>
    "Cannot call value that is not a function: " ++ text ++ " (" ++ type.text ++ ")."
  | invalidTarget found =>
    "Invalid left-hand side in assignment: expected an identifier, found " ++ found.text ++ "."
  | depthExceeded limit =>
    "Stack overflow: more than " ++ toString limit ++ " nested function calls."
  | arityMismatch name expected found =>
    "Function '" ++ name ++ "' expects " ++ toString expected ++ " argument(s), but got " ++
      toString found ++ "."
  | assertionFailed => "Assertion failed."
  | outputFailed fault => "Could not write output: " ++ fault.text ++ "."

end RuntimeError.Cause

namespace Error

/-- Where an error stands. -/
def pos : Error → Position
  | scanning e => e.pos
  | parsing e => e.pos
  | running e => e.pos

/-- The code of an error. -/
def code : Error → Nat
  | scanning e => e.fault.code
  | parsing e => e.cause.code
  | running e => e.cause.code

/-- The category of an error. -/
def category : Error → Category
  | scanning _ => .lexical
  | parsing e => e.cause.category
  | running _ => .runtime

/-- The short description of an error. -/
def description : Error → String
  | scanning e => e.fault.description
  | parsing e => e.cause.description
  | running e => e.cause.description

/-- The message of an error, which starts with its position. -/
def message (e : Error) : String :=
  let sentence := match e with
    | scanning e => e.fault.message
    | parsing e => e.cause.message
    | running e => e.cause.message
  "Error at " ++ e.pos.text ++ ": " ++ sentence

end Error

end Scriptlet
