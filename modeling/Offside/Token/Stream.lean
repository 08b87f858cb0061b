import Offside.Text.CodePoint
import Offside.Token.Scan

namespace Offside

/-!
# The token stream of a source

The stream holds the tokens in order, a newline token after the last token of
every line that has one, and the end of input.  Blanks and comments stand between
tokens only.  Beside the tokens, the stream records at which column each of these
lines starts.
-/

/-- What reading a source gives: the tokens up to the end or up to a failure, and
the column of the first token of every line that has one. -/
structure TokenStream where
  tokens : List Token
  indents : List (Nat × Nat)
  failure : Option Failure
deriving Repr, DecidableEq

namespace TokenStream

/-- The stream with one more token in front. -/
def cons (token : Token) (stream : TokenStream) : TokenStream :=
  { stream with tokens := token :: stream.tokens }

/-- The stream with one more line in front. -/
def indent (position : Position) (stream : TokenStream) : TokenStream :=
  { stream with indents := (position.line, position.column) :: stream.indents }

/-- The stream that ends in a failure. -/
def failed (failure : Failure) : TokenStream :=
  ⟨[], [], some failure⟩

/-- Where a reader stands: its place, how many code points of the token before it
are left, whether its line has a token, and whether a sign may start a number. -/
structure Reader where
  position : Position
  skip : Nat
  inLine : Bool
  signAllowed : Bool
deriving Repr, DecidableEq

/-- The reader at the start of a source. -/
def Reader.initial : Reader :=
  ⟨.origin, 0, false, true⟩

/-- Whether a code point is a blank within a line. -/
def isBlank (code : CodePoint) : Bool :=
  code == .scalar ' ' || code == .scalar '\t' || code == .scalar '\r'

/-- The number of code points from here to the end of the line. -/
def lineRest (text : Text) : Nat :=
  (text.takeWhile (· != .scalar '\n')).length

/-- The newline token that ends a line, unless the line has no token. -/
def closeLine (file : Option Text) (reader : Reader) (lexeme : Text) (stop : Position)
    (stream : TokenStream) : TokenStream :=
  if reader.inLine then stream.cons ⟨.mark .newline, lexeme, ⟨file, reader.position, stop⟩⟩
  else stream

/-- The stream with the line of its first token recorded. -/
def openLine (reader : Reader) (stream : TokenStream) : TokenStream :=
  if reader.inLine then stream else stream.indent reader.position

/-- The stream of what is left of a source, from where a reader stands. -/
def readFrom (file : Option Text) (reader : Reader) : Text → TokenStream
  | [] =>
      let here : Span := ⟨file, reader.position, reader.position⟩
      closeLine file reader [] reader.position ⟨[⟨.mark .endOfInput, [], here⟩], [], none⟩
  | code :: rest =>
      let next := reader.position.advance code
      if 0 < reader.skip then
        readFrom file { reader with position := next, skip := reader.skip - 1 } rest
      else if code = .scalar '\n' then
        closeLine file reader [.scalar '\\', .scalar 'n'] next
          (readFrom file ⟨next, 0, false, true⟩ rest)
      else if isBlank code then readFrom file { reader with position := next } rest
      else if code = .scalar '#' then
        readFrom file { reader with position := next, skip := lineRest rest } rest
      else
        match scan reader.signAllowed code rest with
        | .token symbol size =>
            let lexeme := code :: rest.take (size - 1)
            let span := ⟨file, reader.position, reader.position.advanceBy lexeme⟩
            openLine reader
              (cons ⟨symbol, lexeme, span⟩
                (readFrom file ⟨next, size - 1, true, !symbol.endsOperand⟩ rest))
        | .misread misread =>
            let text := code :: rest
            let start := reader.position.advanceBy (text.take misread.first)
            let stop := reader.position.advanceBy (text.take misread.last)
            failed (.fault (.located (.lexical misread.cause) ⟨file, start, stop⟩))
        | .abort abort => failed (.abort abort)

end TokenStream

/-- Reads a source into its token stream; a failure carries its source line. -/
def tokenize (file : Option Text) (source : Text) : TokenStream :=
  let stream := TokenStream.readFrom file .initial source
  { stream with failure := stream.failure.map (·.attach source.lines) }

end Offside
