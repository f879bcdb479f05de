import SingleTable.Key

set_option autoImplicit false

/-!
# Tokens of key conditions

A key condition is written in names, placeholders `:name`, comparison signs, brackets, commas and
the words `AND`, `BETWEEN` and `begins_with` in any letter case. Blanks separate tokens and mean
nothing else. Main part: `Token.scan`, which splits a text into its tokens.
-/

namespace SingleTable

/-- A token of a key condition. -/
inductive Token where
  | name (text : String)
  | placeholder (text : String)
  | equal
  | less
  | atMost
  | greater
  | atLeast
  | comma
  | leftBracket
  | rightBracket
  | and
  | between
  | beginsWith
  deriving DecidableEq, Repr

namespace Token

/-- A token as it is named in messages. -/
def describe : Token → String
  | .name text => "identifier '" ++ text ++ "'"
  | .placeholder text => ":" ++ text
  | .equal => "'='"
  | .less => "'<'"
  | .atMost => "'<='"
  | .greater => "'>'"
  | .atLeast => "'>='"
  | .comma => "','"
  | .leftBracket => "'('"
  | .rightBracket => "')'"
  | .and => "AND"
  | .between => "BETWEEN"
  | .beginsWith => "begins_with"

/-- The next token as it is named in messages, where there may be none. -/
def describeNext : Option Token → String
  | none => "EOF"
  | some t => t.describe

end Token

/-! ## Refusals -/

/-- What a reader of key conditions wanted to see. -/
inductive Wanted where
  | token (t : Token)
  | comparison
  | operand
  | ending
  deriving DecidableEq, Repr

/-- What a reader wanted, as it is named in messages. -/
def Wanted.describe : Wanted → String
  | .token t => t.describe
  | .comparison => "comparison operator"
  | .operand => "attribute or value"
  | .ending => "end of expression"

/-- Why a key condition does not fit a key schema. -/
inductive Mismatch where
  | unpaired
  | partitionComparison
  | wrongType (cause : KeyError)
  | notKey (name : String)
  | betweenOperands
  | beginsWithOperands
  | beginsWithNumber
  | noPartition (name : String)
  deriving DecidableEq, Repr

/-- The text of a mismatch. -/
def Mismatch.message : Mismatch → String
  | .unpaired => "comparison must pair a key with a value"
  | .partitionComparison => "the partition key requires exactly one equality condition"
  | .wrongType cause => cause.message
  | .notKey name => name ++ " is not a key of this table or index"
  | .betweenOperands => "BETWEEN must apply to a key with two values"
  | .beginsWithOperands => "begins_with must apply to a key and a value"
  | .beginsWithNumber => "begins_with requires a string or binary key"
  | .noPartition name => "no equality condition on " ++ name

/-- Why a key condition is refused. -/
inductive ConditionError where
  | strayCharacter (c : Char)
  | emptyPlaceholder
  | unexpected (wanted : Wanted) (found : Option Token)
  | unbound (name : String)
  | mismatch (cause : Mismatch)
  deriving DecidableEq, Repr

namespace ConditionError

/-- The text of a refusal for a token or character in the wrong place. -/
def unexpectedMessage (wanted found : String) : String :=
  "Invalid KeyConditionExpression: expected " ++ wanted ++ ", found " ++ found

/-- The text of a refusal. -/
def message : ConditionError → String
  | .strayCharacter c => unexpectedMessage "valid token" (String.ofList ['\'', c, '\''])
  | .emptyPlaceholder => unexpectedMessage "value name after ':'" "empty"
  | .unexpected wanted found => unexpectedMessage wanted.describe (Token.describeNext found)
  | .unbound name =>
      "An expression attribute value used in expression is not defined; attribute value: :" ++ name
  | .mismatch cause => "Query condition missed key schema element: " ++ cause.message

end ConditionError

/-! ## Character classes -/

/-- The blanks that separate tokens. -/
def isBlank (c : Char) : Bool :=
  c == ' ' || c == '\t' || c == '\n' || c == '\x0c' || c == '\r'

/-- The characters that can start a name: letters of ASCII and the underscore. -/
def startsName (c : Char) : Bool := c.isAlpha || c == '_'

/-- The characters of which names and placeholders are made. -/
def isNameChar (c : Char) : Bool := c.isAlphanum || c == '_'

/-! ## Scanning -/

namespace Token

/-- The token of a word: a keyword in any letter case, or a name. -/
def ofWord (word : List Char) : Token :=
  let lower := String.ofList (word.map Char.toLower)
  if lower = "and" then .and
  else if lower = "between" then .between
  else if lower = "begins_with" then .beginsWith
  else .name (String.ofList word)

/-- The token after a `<` or `>`: the comparison that also admits equality if `=` follows. -/
def orEqual (bare withEqual : Token) : List Char → Token × List Char
  | '=' :: rest => (withEqual, rest)
  | rest => (bare, rest)

/-- The token that starts with the character `c`, and the text after it. -/
def next (c : Char) (rest : List Char) : Except ConditionError (Token × List Char) :=
  if c = ':' then
    let word := rest.takeWhile isNameChar
    if word.isEmpty then .error .emptyPlaceholder
    else .ok (.placeholder (String.ofList word), rest.dropWhile isNameChar)
  else if c = '=' then .ok (.equal, rest)
  else if c = ',' then .ok (.comma, rest)
  else if c = '(' then .ok (.leftBracket, rest)
  else if c = ')' then .ok (.rightBracket, rest)
  else if c = '<' then .ok (orEqual .less .atMost rest)
  else if c = '>' then .ok (orEqual .greater .atLeast rest)
  else if startsName c then
    .ok (ofWord (c :: rest.takeWhile isNameChar), rest.dropWhile isNameChar)
  else .error (.strayCharacter c)

theorem length_dropWhile_le {α : Type} (p : α → Bool) (xs : List α) :
    (xs.dropWhile p).length ≤ xs.length :=
  (List.dropWhile_suffix p).length_le

theorem length_orEqual_le (bare withEqual : Token) (rest : List Char) :
    (orEqual bare withEqual rest).2.length ≤ rest.length := by
  unfold orEqual
  split
  · exact Nat.le_succ _
  · exact Nat.le_refl _

/-- The text after a token is no longer than the text after its first character. -/
theorem length_le_of_next {c : Char} {rest after : List Char} {t : Token}
    (h : next c rest = .ok (t, after)) : after.length ≤ rest.length := by
  have hd := length_dropWhile_le isNameChar rest
  simp only [next] at h
  repeat' split at h
  all_goals simp only [Except.ok.injEq, Prod.mk.injEq, reduceCtorEq] at h
  all_goals
    first
    | exact h.2 ▸ Nat.le_refl _
    | exact h.2 ▸ hd
    | (have hle := length_orEqual_le .less .atMost rest
       rw [h] at hle
       exact hle)
    | (have hle := length_orEqual_le .greater .atLeast rest
       rw [h] at hle
       exact hle)

set_option linter.unusedVariables false in
/-- The tokens of a list of characters. -/
def scanChars (cs : List Char) : Except ConditionError (List Token) :=
  match hcs : cs.dropWhile isBlank with
  | [] => .ok []
  | c :: rest =>
      match hn : next c rest with
      | .error e => .error e
      | .ok (t, after) => (scanChars after).map (t :: ·)
termination_by cs.length
decreasing_by
  have h1 := length_dropWhile_le isBlank cs
  have h2 := length_le_of_next hn
  rw [hcs, List.length_cons] at h1
  omega

/-- The tokens of a text. -/
def scan (text : String) : Except ConditionError (List Token) := scanChars text.toList

end Token

end SingleTable
