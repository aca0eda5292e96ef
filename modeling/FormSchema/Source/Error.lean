import FormSchema.Source.Token

/-!
# Why a source text cannot be read

A `Fault` is a reason that the reader reports, with its place, in words of its own
(`Fault.message`). A few texts fail below that level: a numeral or an escape that spells no
number, or no character. Such a failure carries no place.
-/

namespace FormSchema.Source

/-- How a call of a builder or of a method fails. -/
inductive CallFailure
  /-- The number of arguments is wrong, or one of them cannot be used in this way at all. -/
  | misuse
  /-- An argument has the right form with a content that does not fit. -/
  | badContent
  /-- The node that the call asks for would not be valid. -/
  | invalidNode
deriving DecidableEq, Repr

/-- A reason that is reported with a place. -/
inductive Fault
  | unterminatedComment
  | unterminatedString
  | unterminatedPattern
  | unexpectedSlash
  | unexpectedCharacter (c : Char)
  | substitution
  | malformedEscape
  | expected (wanted found : String)
  | statementStart (found : String)
  | unsupportedStatement (found : String)
  | unknownName (name : String)
  | expressionStart (found : String)
  | propertyName
  | propertyColon (key : String)
  | unsupportedMember (name owner : String)
  | notCallable
  | invalidCall (failure : CallFailure)
deriving DecidableEq, Repr

/-- What the report of a fault says. -/
def Fault.message : Fault → String
  | unterminatedComment => "Unterminated block comment"
  | unterminatedString => "Unterminated string literal"
  | unterminatedPattern => "Unterminated regular expression"
  | unexpectedSlash => "Unexpected '/'"
  | unexpectedCharacter c => "Unexpected character " ++ Text.shown (String.ofList [c])
  | substitution => "Template literal substitutions are not supported"
  | malformedEscape => "Malformed unicode escape"
  | expected wanted found => "Expected " ++ wanted ++ ", found " ++ found
  | statementStart found => "Unexpected " ++ found ++ " at statement start"
  | unsupportedStatement found => "Unsupported statement starting with " ++ found
  | unknownName name => "Unknown identifier " ++ Text.shown name
  | expressionStart found => "Unexpected " ++ found ++ " in expression"
  | propertyName => "Expected property name"
  | propertyColon key => "Expected ':' after property " ++ Text.shown key
  | unsupportedMember name owner => "Unsupported member '." ++ name ++ "' on " ++ owner
  | notCallable => "Value is not callable"
  | invalidCall _ => "Invalid call"

/-- How reading a source text fails. -/
inductive ReadError
  /-- A reported fault and its place. -/
  | fault (f : Fault) (place : Position)
  /-- Digits that spell no number, or a code that belongs to no character. -/
  | badDigits
  /-- A code far beyond every character. -/
  | codeOverflow
  /-- No schema is declared under the wanted name; the declared ones are listed. -/
  | noExport (name : String) (available : List String)
deriving DecidableEq, Repr

end FormSchema.Source
