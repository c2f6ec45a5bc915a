import UiScript.Text.Quoted
import UiScript.Text.Utf8
import UiScript.Token

/-!
# Scanning

`scan` cuts a text into tokens. It never fails: a character that starts no token becomes a token of its own. The scan
goes through the text character by character; at the start of a token `lexeme?` says what it is and how many more
characters belong to it. Offsets and lines therefore advance in one place only.
-/

namespace UiScript

open Text

/-- How much of a variable reference `|name|` stands right before the current position. -/
inductive Reference where
  | outside
  | opened
  | named
deriving DecidableEq, Repr, Inhabited

/-- The state after one more token. -/
def Reference.next (r : Reference) : TokenKind → Reference
  | .pipe => .opened
  | .word => if r = .opened then .named else .outside
  | _ => .outside

/-- A token at the front of a text: what it is, how many characters follow its first one, and its mistake. -/
structure Lexeme where
  kind : TokenKind
  extra : Nat
  error : Option LexicalError := none
deriving DecidableEq, Repr

/-! ## The single tokens -/

/-- How many characters at the front continue a name: letters, digits, `_`, and `-` before a letter. -/
def wordLength : List Char → Nat
  | [] => 0
  | c :: cs =>
    if isAlphanumeric c || c == '_' || (c == '-' && cs.head?.any isLetter) then wordLength cs + 1 else 0

/-- A name, or one of the two truth values. -/
def wordKind (cs : List Char) : TokenKind :=
  if cs = "true".toList then .boolean true
  else if cs = "false".toList then .boolean false
  else .word

/-- The string that a quote opens. -/
def stringLexeme (quote : Char) (cs : List Char) : Lexeme :=
  let body := readBody quote 0 cs
  { kind := .string (String.ofList body.value) quote
    extra := body.length
    error := if body.closed then none else some (.unclosedString quote) }

/-- The number that a digit starts: digits and points. -/
def numberLexeme (cs : List Char) : Lexeme :=
  let more := cs.takeWhile fun c => isDigit c || c == '.'
  let points := more.count '.'
  { kind := .number (decide (0 < points))
    extra := more.length
    error := if 1 < points then some .extraPoint else none }

/-- The mark that a character is, given the character after it. -/
def markLexeme (c : Char) (following : Option Char) : Lexeme :=
  match c with
  | '(' => ⟨.opening .round, 0, none⟩
  | ')' => ⟨.closing .round, 0, none⟩
  | '[' => ⟨.opening .square, 0, none⟩
  | ']' => ⟨.closing .square, 0, none⟩
  | '{' => ⟨.opening .curly, 0, none⟩
  | '}' => ⟨.closing .curly, 0, none⟩
  | ',' => ⟨.comma, 0, none⟩
  | ':' => ⟨.colon, 0, none⟩
  | '+' => ⟨.operator .add, 0, none⟩
  | '-' => ⟨.operator .sub, 0, none⟩
  | '*' => ⟨.operator .mul, 0, none⟩
  | '/' => ⟨.operator .div, 0, none⟩
  | '<' => if following = some '=' then ⟨.operator .lessEqual, 1, none⟩ else ⟨.operator .less, 0, none⟩
  | '>' => if following = some '=' then ⟨.operator .greaterEqual, 1, none⟩ else ⟨.operator .greater, 0, none⟩
  | '=' => if following = some '=' then ⟨.operator .equal, 1, none⟩ else ⟨.unknown '=', 0, none⟩
  | '!' => if following = some '=' then ⟨.operator .unequal, 1, none⟩ else ⟨.unknown '!', 0, none⟩
  | '&' => if following = some '&' then ⟨.operator .and, 1, none⟩ else ⟨.unknown '&', 0, none⟩
  | c => ⟨.unknown c, 0, none⟩

/-- The token that starts with `c`, of which `cs` is what follows; a blank starts none. Two bars are the operator `||`,
unless the first of them closes a variable reference. -/
def lexeme? (r : Reference) (c : Char) (cs : List Char) : Option Lexeme :=
  if c = '\n' then some ⟨.newline, 0, none⟩
  else if isBlank c then none
  else if c = '/' ∧ cs.head? = some '/' then some ⟨.comment, (cs.takeWhile (· != '\n')).length, none⟩
  else if c = '"' ∨ c = '\'' then some (stringLexeme c cs)
  else if isDigit c then some (numberLexeme cs)
  else if isLetter c || c == '_' then
    let n := wordLength cs
    some ⟨wordKind (c :: cs.take n), n, none⟩
  else if c = '|' then
    if cs.head? = some '|' ∧ r ≠ .named then some ⟨.operator .or, 1, none⟩ else some ⟨.pipe, 0, none⟩
  else some (markLexeme c cs.head?)

/-! ## The scan -/

/-- The tokens of a text that starts at the given offset and line. The number is that of the characters ahead which
belong to the last token. -/
def scanFrom (offset line : Nat) (r : Reference) : Nat → List Char → List Token
  | _, [] => []
  | taken + 1, c :: cs => scanFrom (offset + c.utf8Size) (line + newlines [c]) r taken cs
  | 0, c :: cs =>
    match lexeme? r c cs with
    | none => scanFrom (offset + c.utf8Size) (line + newlines [c]) r 0 cs
    | some l =>
      { kind := l.kind
        span := ⟨offset, offset + width (c :: cs.take l.extra)⟩
        line := line
        text := String.ofList (c :: cs.take l.extra)
        error := l.error } ::
      scanFrom (offset + c.utf8Size) (line + newlines [c]) (r.next l.kind) l.extra cs

/-- The tokens between two offsets of a text, of which the first lies on the given line. Offsets in the result are
those of the whole text; an end beyond the text is the text's end. -/
def scanRange (text : List Char) (start stop line : Nat) : List Token :=
  scanFrom start line .outside 0 (slice text start (min stop (width text)))

/-- The tokens of a text. -/
def scan (text : List Char) : List Token := scanRange text 0 (width text) 1

end UiScript
