import PackedBits.Json.Number
import PackedBits.Json.Quoted

/-!
# Lexemes

A text is a row of lexemes with blanks between them. Each of them is known by its first character,
whatever stands before it, so a text can be cut up without knowing what is expected where.

Where the text stops making sense, the row ends with a lexeme that says why. Whether this is ever
reported is up to the reader, which may find fault with a lexeme for standing in the wrong place
before it looks into it.

## Termination

`tokens` ends because every lexeme takes up some text (`lex_length`).
-/

namespace PackedBits.Json

/-- A piece of text with a meaning. -/
inductive Lexeme where
  | openBrace
  | closeBrace
  | openBracket
  | closeBracket
  | comma
  | colon
  | null
  | boolean (b : Bool)
  | number (n : Number)
  | string (s : List Char)
  /-- A character with which no lexeme begins. -/
  | stray
  /-- A quoted text that is not well written. -/
  | badString (fault : Fault)
  /-- A number or a name that is not well written. -/
  | bad (fault : Fault)

/-- Whether the text can be cut up further behind a lexeme. -/
def Lexeme.isWhole : Lexeme → Bool
  | .stray | .badString _ | .bad _ => false
  | _ => true

/-- A lexeme in its place: the text from its first character on, and the text behind it. -/
structure Token where
  lexeme : Lexeme
  here : List Char
  behind : List Char

namespace Token

/-- The place of the first character. -/
def start (t : Token) : Nat := bytesLeft t.here

/-- The place one byte further, for a fault that is plain from the first character. -/
def glance (t : Token) : Nat := bytesLeft t.here - 1

/-- The place behind the last character. -/
def stop (t : Token) : Nat := bytesLeft t.behind

end Token

/-! ## Cutting up a text -/

/-- Reads over the letters of a name, of which the first has been read. -/
def nameRest : List Char → List Char → Attempt (List Char)
  | [], cs => .ok cs
  | _ :: _, [] => .error ⟨.endInValue, 0⟩
  | n :: ns, c :: cs =>
    if c = n then nameRest ns cs else .error ⟨.expectedName, bytesLeft (c :: cs) - 1⟩

/-- The lexeme that a name stands for. -/
def named (value : Lexeme) (letters cs : List Char) : Lexeme × List Char :=
  match nameRest letters cs with
  | .ok rest => (value, rest)
  | .error f => (.bad f, [])

/-- The first lexeme of a text that begins with `c`, and the text behind it. -/
def lex (c : Char) (cs : List Char) : Lexeme × List Char :=
  match c with
  | '{' => (.openBrace, cs)
  | '}' => (.closeBrace, cs)
  | '[' => (.openBracket, cs)
  | ']' => (.closeBracket, cs)
  | ',' => (.comma, cs)
  | ':' => (.colon, cs)
  | 'n' => named .null ['u', 'l', 'l'] cs
  | 't' => named (.boolean true) ['r', 'u', 'e'] cs
  | 'f' => named (.boolean false) ['a', 'l', 's', 'e'] cs
  | '"' =>
    match Quoted.read cs with
    | .ok (s, rest) => (.string s, rest)
    | .error f => (.badString f, [])
  | c =>
    if c = '-' ∨ c.isDigit then
      match Number.read (c :: cs) with
      | .ok (n, rest) => (.number n, rest)
      | .error f => (.bad f, [])
    else (.stray, [])

theorem nameRest_length {ns cs r : List Char} (h : nameRest ns cs = .ok r) :
    r.length ≤ cs.length := by
  fun_induction nameRest ns cs with
  | case1 cs =>
    cases h
    exact Nat.le_refl _
  | case2 => simp at h
  | case3 n ns cs ih => exact Nat.le_succ_of_le (ih h)
  | case4 => simp at h

theorem named_length (value : Lexeme) (letters cs : List Char) :
    (named value letters cs).2.length ≤ cs.length := by
  unfold named
  split
  · next h => exact nameRest_length h
  · exact Nat.zero_le _

theorem lex_length (c : Char) (cs : List Char) : (lex c cs).2.length ≤ cs.length := by
  unfold lex
  split
  case h_7 | h_8 | h_9 => exact named_length _ _ _
  case h_10 =>
    split
    · next h => exact Nat.le_of_lt (Quoted.read_length h)
    · exact Nat.zero_le _
  case h_11 =>
    split
    · split
      · next h => exact Nat.le_of_lt_succ (Number.read_length h)
      · exact Nat.zero_le _
    · exact Nat.zero_le _
  all_goals exact Nat.le_refl _

/-- The lexemes of a text, up to the first that is not well written. -/
def tokens (text : List Char) : List Token :=
  match _h : skipBlanks text with
  | [] => []
  | c :: cs =>
    let token : Token := ⟨(lex c cs).1, c :: cs, (lex c cs).2⟩
    if token.lexeme.isWhole then token :: tokens token.behind else [token]
termination_by text.length
decreasing_by
  have hb := skipBlanks_length text
  rw [_h] at hb
  exact Nat.lt_of_le_of_lt (lex_length c cs) hb

end PackedBits.Json
