import LuauCompiler.Code.Names

/-! The words of Luau code and the blocks that its keywords open and close. -/
namespace LuauCompiler.Luau

/-- Letters, digits and underscores, and everything beyond ASCII. -/
def isWordChar (c : Char) : Bool := c.isAlphanum || c = '_' || 0x7f < c.toNat

/-- What the reader is in the middle of. -/
inductive Mode where
  | code
  | word (letters : List Char)
  | dash
  | dashes
  /-- Behind two dashes, a bracket and some equality signs. -/
  | commentBracket (level : Nat)
  | comment
  /-- Behind a bracket and some equality signs. -/
  | bracket (level : Nat)
  /-- Inside of a long text or of a long comment. -/
  | long (level : Nat)
  | closing (level seen : Nat)
  | quoted (mark : Char)
  | escaped (mark : Char)
  deriving DecidableEq, Repr

namespace Mode

def start (c : Char) : Mode :=
  if isWordChar c then .word [c]
  else if c = '-' then .dash
  else if c = '[' then .bracket 0
  else if c = '\x27' || c = '\x22' || c = '\x60' then .quoted c
  else .code

/-- The mode behind one more character. -/
def next (m : Mode) (c : Char) : Mode :=
  match m with
  | .code => start c
  | .word letters => if isWordChar c then .word (letters ++ [c]) else start c
  | .dash => if c = '-' then .dashes else start c
  | .dashes => if c = '[' then .commentBracket 0 else if c = '\n' then .code else .comment
  | .commentBracket level =>
    if c = '=' then .commentBracket (level + 1)
    else if c = '[' then .long level
    else if c = '\n' then .code
    else .comment
  | .comment => if c = '\n' then .code else .comment
  | .bracket level =>
    if c = '=' then .bracket (level + 1) else if c = '[' then .long level else start c
  | .long level => if c = ']' then .closing level 0 else .long level
  | .closing level seen =>
    if c = '=' then .closing level (seen + 1)
    else if c = ']' then if seen = level then .code else .closing level 0
    else .long level
  | .quoted mark => if c = mark then .code else if c = '\\' then .escaped mark else .quoted mark
  | .escaped mark => .quoted mark

def pending : Mode → List String
  | .word letters => [String.ofList letters]
  | _ => []

/-- The word that ends before the character. -/
def ended (m : Mode) (c : Char) : List String := if isWordChar c then [] else m.pending

end Mode

/-- The words from a point of the text on. -/
def wordsFrom : Mode → List Char → List String
  | m, [] => m.pending
  | m, c :: rest => m.ended c ++ wordsFrom (m.next c) rest

/-- Names, keywords and numerals of a text in order. Comments and quoted texts hold none. -/
def words (text : String) : List String := wordsFrom .code text.toList

example : words "if a_1 then --[[ end ]] f('end', x) --> end" = ["if","a_1","then","f","x"] := by
  decide

/-- A construct that has not ended yet. -/
inductive Open where
  /-- A branch whose test is being read. -/
  | test
  | branch
  | otherwise
  /-- A loop whose head is being read. -/
  | head
  | body
  | function
  | repetition
  deriving DecidableEq, Repr

/-- The open constructs after one more word, innermost first; `none` if the word has no place
there. -/
def follow (opened : List Open) (word : String) : Option (List Open) :=
  match word with
  | "if" => some (.test :: opened)
  | "then" =>
    match opened with
    | .test :: outer => some (.branch :: outer)
    | _ => none
  | "elseif" =>
    match opened with
    | .branch :: outer => some (.test :: outer)
    | _ => none
  | "else" =>
    match opened with
    | .branch :: outer => some (.otherwise :: outer)
    | _ => none
  | "for" | "while" => some (.head :: opened)
  | "do" =>
    match opened with
    | .head :: outer => some (.body :: outer)
    | _ => some (.body :: opened)
  | "function" => some (.function :: opened)
  | "repeat" => some (.repetition :: opened)
  | "until" =>
    match opened with
    | .repetition :: outer => some outer
    | _ => none
  | "end" =>
    match opened with
    | .branch :: outer | .otherwise :: outer | .body :: outer | .function :: outer => some outer
    | _ => none
  | _ => some opened

def followAll : List Open → List String → Option (List Open)
  | opened, [] => some opened
  | opened, word :: rest => (follow opened word).bind (followAll · rest)

/-- Every construct that the text opens is closed in it, by its own keyword and in its turn. -/
def Balanced (text : String) : Prop := followAll [] (words text) = some []

instance (text : String) : Decidable (Balanced text) := inferInstanceAs (Decidable (_ = _))

end LuauCompiler.Luau
