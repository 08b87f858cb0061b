import Offside.Diagnostic
import Offside.Token.Basic
import Offside.Value.Basic

namespace Offside

/-!
# Faults

A fault is why a source is refused or an evaluation stops, with its place.  Each
cause has one code, one wording and its hints.  An abort is a failure that no
diagnostic describes.
-/

/-- Why a source cannot be split into tokens. -/
inductive LexicalCause where
  | unexpectedCharacter (code : CodePoint)
  | unterminatedString
  | unterminatedCharacter
  | malformedCharacter (lexeme : Text)
  | unknownEscape (sequence : Text)
  | malformedNumber (lexeme : Text)
  | integerTooWide (lexeme : Text)
deriving Repr, DecidableEq

/-- Why a token stream is no program. -/
inductive SyntacticCause where
  | unexpected (expected found : Text)
  | unexpectedEnd (expected : Text)
  | neverClosed (bracket : Text)
  | closedBy (bracket found : Text)
  | neverOpened (bracket : Text)
  | mixedCollection
  | emptyClause
  | emptyBraces
  | repeatedParameter (name : Text)
  | nestedTooDeeply
deriving Repr, DecidableEq

/-- Why an evaluation stops. -/
inductive RuntimeCause where
  | undefinedName (name : Text)
  | unfinishedName (name : Text)
  | redefinition (name : Text)
  | immutableBinding (name : Text)
  | arity (name : Text) (expected found : Nat)
  | notCallable (kind : Kind)
  | operandKinds (operator : TokenKind) (left right : Kind)
  | unknownOperator (operator : TokenKind)
  | notEvaluable (node : String)
  | indexKind (context : String) (found : Kind)
  | argumentKind (context expected : String) (found : Kind)
  | unsearchable (found : Kind)
  | duplicateKey (key : Text)
  | stackOverflow (limit : Nat)
  | integerOverflow
  | divisionByZero
  | negativeExponent
  | powerDomain
  | powerRange
  | indexRange (context : String) (index : Int) (length : Nat)
  | missingKey (context : String) (key : Text)
deriving Repr, DecidableEq

/-- Why something fails with a diagnostic. -/
inductive Cause where
  | lexical (cause : LexicalCause)
  | syntactic (cause : SyntacticCause)
  | inconsistentDedent (column : Nat)
  | runtime (cause : RuntimeCause)
deriving Repr, DecidableEq

namespace LexicalCause

/-- The code of a cause. -/
def code : LexicalCause → String
  | .unexpectedCharacter _ => "E001"
  | .unterminatedString => "E002"
  | .unterminatedCharacter => "E003"
  | .malformedCharacter _ => "E004"
  | .unknownEscape _ => "E005"
  | .malformedNumber _ | .integerTooWide _ => "E006"

/-- The wording of a cause. -/
def message : LexicalCause → Text
  | .unexpectedCharacter code => "unexpected character '" ++ [code] ++ "'"
  | .unterminatedString => "unterminated string literal"
  | .unterminatedCharacter => "unterminated character literal"
  | .malformedCharacter lexeme => "invalid character literal " ++ lexeme
  | .unknownEscape sequence => "invalid escape sequence '\\" ++ sequence ++ "'"
  | .malformedNumber lexeme | .integerTooWide lexeme =>
      "invalid number literal '" ++ lexeme ++ "'"

/-- The hints of a cause. -/
def hints : LexicalCause → List Text
  | .unterminatedString => ["string literals must be closed with '\"' on the same line"]
  | .malformedCharacter _ => ["character literals hold exactly one character: 'a', '\\n'"]
  | .unknownEscape _ =>
      ["valid escape sequences: \\n, \\t, \\r, \\\", \\', \\\\, \\0, \\x##, \\u####"]
  | .integerTooWide _ => ["integers must fit in 64 bits"]
  | _ => []

end LexicalCause

namespace SyntacticCause

/-- The code of a cause. -/
def code : SyntacticCause → String
  | .unexpected _ _ => "E101"
  | .unexpectedEnd _ => "E102"
  | .neverClosed _ | .closedBy _ _ | .neverOpened _ => "E103"
  | .mixedCollection => "E104"
  | .emptyClause => "E105"
  | .emptyBraces => "E106"
  | .repeatedParameter _ => "E107"
  | .nestedTooDeeply => "E108"

/-- The wording of a cause. -/
def message : SyntacticCause → Text
  | .unexpected expected found => "expected " ++ expected ++ ", found " ++ found
  | .unexpectedEnd expected => "unexpected end of input, expected " ++ expected
  | .neverClosed bracket => "unmatched '" ++ bracket ++ "': never closed"
  | .closedBy bracket found => "unmatched '" ++ bracket ++ "': closed by " ++ found
  | .neverOpened bracket => "unmatched '" ++ bracket ++ "': no matching opening bracket"
  | .mixedCollection => "cannot mix map entries and set elements in one literal"
  | .emptyClause => "illegal empty clause '()'"
  | .emptyBraces => "empty '\x7b\x7d' is ambiguous between a map and a set"
  | .repeatedParameter name => "duplicate parameter '" ++ name ++ "'"
  | .nestedTooDeeply => "expression nested too deeply"

/-- The hints of a cause. -/
def hints : SyntacticCause → List Text
  | .mixedCollection => ["use 'key: value' for every element of a map"]
  | .emptyClause => ["'()' is only allowed as the argument list of a zero-parameter call"]
  | .nestedTooDeeply => ["split the expression into smaller named bindings"]
  | _ => []

end SyntacticCause

namespace RuntimeCause

/-- The code of a cause. -/
def code : RuntimeCause → String
  | .undefinedName _ | .unfinishedName _ => "E401"
  | .redefinition _ => "E402"
  | .immutableBinding _ => "E403"
  | .arity _ _ _ => "E404"
  | .notCallable _ | .operandKinds _ _ _ | .unknownOperator _ | .notEvaluable _
  | .indexKind _ _ | .argumentKind _ _ _ | .unsearchable _ => "E405"
  | .duplicateKey _ => "E406"
  | .stackOverflow _ => "E407"
  | .integerOverflow | .divisionByZero | .negativeExponent | .powerDomain
  | .powerRange => "E408"
  | .indexRange _ _ _ | .missingKey _ _ => "E409"

/-- The wording of a cause. -/
def message : RuntimeCause → Text
  | .undefinedName name => "undefined name '" ++ name ++ "'"
  | .unfinishedName name => "'" ++ name ++ "' used before its definition completed"
  | .redefinition name => "'" ++ name ++ "' is already defined in this scope"
  | .immutableBinding name => "cannot assign to immutable binding '" ++ name ++ "'"
  | .arity name expected found =>
      let plural : Text := if expected = 1 then [] else [.scalar 's']
      name ++ " expects " ++ Text.ofNat expected ++ " argument" ++ plural ++ ", got " ++
        Text.ofNat found
  | .notCallable kind => "cannot call a value of kind " ++ Text.ofString kind.name
  | .operandKinds operator left right =>
      let spelling : Text :=
        match operator with
        | .mark fixed => fixed.spelling?.getD fixed.name
        | other => other.name
      "unsupported operand kinds for '" ++ spelling ++ "': " ++ left.name ++ " and " ++ right.name
  | .unknownOperator operator => "unknown operator " ++ Text.ofString operator.name
  | .notEvaluable node => "cannot evaluate " ++ Text.ofString node
  | .indexKind context found =>
      Text.ofString context ++ ": index must be int, got " ++ found.name
  | .argumentKind context expected found =>
      Text.ofString context ++ ": expected " ++ expected ++ ", got " ++ found.name
  | .unsearchable found => "contains: cannot search str for " ++ Text.ofString found.name
  | .duplicateKey key => "duplicate map key " ++ key
  | .stackOverflow limit => "stack overflow: call depth exceeded " ++ Text.ofNat limit
  | .integerOverflow => "integer overflow"
  | .divisionByZero => "division by zero"
  | .negativeExponent => "negative exponent in integer power"
  | .powerDomain => "invalid power: math domain error"
  | .powerRange => "invalid power: math range error"
  | .indexRange context index length =>
      Text.ofString context ++ ": index " ++ Text.ofInt index ++ " out of range for length " ++
        Text.ofNat length
  | .missingKey context key => Text.ofString context ++ ": key " ++ key ++ " not in map"

/-- The hints of a cause. -/
def hints : RuntimeCause → List Text
  | .redefinition _ =>
      ["shadow it from a nested block, or declare it with 'var' and assign"]
  | .immutableBinding name => ["declare '" ++ name ++ "' with 'var' to make it mutable"]
  | .stackOverflow _ =>
      ["raise max_call_depth in the interpreter config for deeper recursion"]
  | _ => []

end RuntimeCause

namespace Cause

/-- The code of a cause. -/
def code : Cause → String
  | .lexical cause => cause.code
  | .syntactic cause => cause.code
  | .inconsistentDedent _ => "E150"
  | .runtime cause => cause.code

/-- The wording of a cause. -/
def message : Cause → Text
  | .lexical cause => cause.message
  | .syntactic cause => cause.message
  | .inconsistentDedent column => "inconsistent dedent to column " ++ Text.ofNat column
  | .runtime cause => cause.message

/-- The hints of a cause. -/
def hints : Cause → List Text
  | .lexical cause => cause.hints
  | .syntactic cause => cause.hints
  | .inconsistentDedent _ => ["dedent must return to the column of an enclosing block"]
  | .runtime cause => cause.hints

end Cause

/-- A cause with its place, and the source line there once it is known. -/
structure Fault where
  cause : Cause
  span : Option Span
  sourceLine : Option Text
deriving Repr, DecidableEq

namespace Fault

/-- The diagnostic that describes a fault. -/
def diagnostic (fault : Fault) : Diagnostic :=
  { code := fault.cause.code
    message := fault.cause.message
    severity := .error
    span := fault.span
    sourceLine := fault.sourceLine
    hints := fault.cause.hints }

/-- A fault at a span whose source line is not known. -/
def located (cause : Cause) (span : Span) : Fault :=
  ⟨cause, some span, none⟩

/-- Adds the source line of a fault that has a span and no line yet. -/
def attach (lines : List Text) (fault : Fault) : Fault :=
  match fault.sourceLine, fault.span with
  | none, some span => { fault with sourceLine := span.lineAmong? lines }
  | _, _ => fault

end Fault

/-- A failure outside the diagnostics: a limit of the arithmetic or of the stack. -/
inductive Abort where
  | digitLimit (digits : Nat)
  | remainderDomain
  | stackReservation
deriving Repr, DecidableEq

namespace Abort

/-- The most digits that an integer literal may have. -/
def mostDigits : Nat :=
  4300

/-- The wording of an abort. -/
def message : Abort → Text
  | .digitLimit digits =>
      "Exceeds the limit (" ++ Text.ofNat mostDigits ++
        " digits) for integer string conversion: value has " ++ Text.ofNat digits ++
        " digits; use sys.set_int_max_str_digits() to increase the limit"
  | .remainderDomain => "math domain error"
  | .stackReservation => "Python int too large to convert to C int"

end Abort

/-- How something fails. -/
inductive Failure where
  | fault (fault : Fault)
  | abort (abort : Abort)
deriving Repr, DecidableEq

namespace Failure

/-- Adds the source line to a fault that has a span and no line yet. -/
def attach (lines : List Text) : Failure → Failure
  | .fault described => .fault (described.attach lines)
  | .abort bare => .abort bare

/-- A result whose only failures are faults, among the results that can fail. -/
def lift {α : Type} (result : Except Fault α) : Except Failure α :=
  result.mapError .fault

end Failure

end Offside
