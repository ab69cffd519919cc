import LuauCompiler.Code.Names
import LuauCompiler.Text.Quoted
import Mathlib.Data.List.TakeWhile

/-! The tokens of a Luau expression. `lex` accepts names, quoted texts and the signs of operators,
calls, tables and indexes; numerals, long brackets and all that belongs to statements it refuses. -/
namespace LuauCompiler.Luau

inductive Operator where
  | or | and | lt | gt | le | ge | ne | eq | concat | add | sub | mul | div | floorDiv | mod | pow
  deriving DecidableEq, Repr

inductive Token where
  | name (id : String)
  | text (literal : String)
  | operator (op : Operator)
  | not
  | dot | comma
  | leftParen | rightParen
  | leftBracket | rightBracket
  | leftBrace | rightBrace
  deriving DecidableEq, Repr

def Operator.spelling : Operator → String
  | .or => "or"
  | .and => "and"
  | .lt => "<"
  | .gt => ">"
  | .le => "<="
  | .ge => ">="
  | .ne => "~="
  | .eq => "=="
  | .concat => ".."
  | .add => "+"
  | .sub => "-"
  | .mul => "*"
  | .div => "/"
  | .floorDiv => "//"
  | .mod => "%"
  | .pow => "^"

def Token.spelling : Token → List Char
  | .name id => id.toList
  | .text literal => literal.toList
  | .operator op => op.spelling.toList
  | .not => ['n','o','t']
  | .dot => ['.']
  | .comma => [',']
  | .leftParen => ['(']
  | .rightParen => [')']
  | .leftBracket => ['[']
  | .rightBracket => [']']
  | .leftBrace => ['\x7b']
  | .rightBrace => ['\x7d']

def spellings (ts : List Token) : List Char := ts.flatMap Token.spelling

def keywords : List String := "nil" :: "true" :: "false" :: reservedWords

def isNameStart (c : Char) : Bool := c.isAlpha || c = '_'

def isNameChar (c : Char) : Bool := c.isAlphanum || c = '_'

def IsName (word : String) : Prop :=
  word.toList.head?.any isNameStart = true ∧ word.toList.all isNameChar = true ∧ word ∉ keywords

instance (word : String) : Decidable (IsName word) := inferInstanceAs (Decidable (_ ∧ _ ∧ _))

def wordToken? (word : String) : Option Token :=
  if word = "and" then some (.operator .and)
  else if word = "or" then some (.operator .or)
  else if word = "not" then some .not
  else if word ∈ keywords then none
  else some (.name word)

def isHexDigit (c : Char) : Bool := c.isDigit || ('a' ≤ c && c ≤ 'f') || ('A' ≤ c && c ≤ 'F')

/-- The rest of a quoted text up to its mark. A line end is refused, and so are the escapes that are
not known for every continuation. -/
def literalRest? (mark : Char) : List Char → Option (List Char)
  | [] => none
  | '\\' :: 'x' :: a :: b :: rest =>
    if isHexDigit a && isHexDigit b then
      (literalRest? mark rest).map (['\\','x',a,b] ++ ·)
    else none
  | '\\' :: c :: rest =>
    if c = 'x' || c = 'u' || c = 'z' || c.isDigit then none
    else (literalRest? mark rest).map (['\\',c] ++ ·)
  | c :: rest =>
    if c = mark then some [c]
    else if c = '\n' || c = '\r' || c = '\\' then none
    else (literalRest? mark rest).map (c :: ·)

/-- The sign at the front, and the number of its further characters. -/
def sign? : Char → List Char → Option (Token × Nat)
  | '.', '.' :: '.' :: _ => none
  | '.', '.' :: _ => some (.operator .concat,1)
  | '.', _ => some (.dot,0)
  | '=', '=' :: _ => some (.operator .eq,1)
  | '~', '=' :: _ => some (.operator .ne,1)
  | '<', '=' :: _ => some (.operator .le,1)
  | '<', _ => some (.operator .lt,0)
  | '>', '=' :: _ => some (.operator .ge,1)
  | '>', _ => some (.operator .gt,0)
  | '/', '/' :: _ => some (.operator .floorDiv,1)
  | '/', _ => some (.operator .div,0)
  | '[', '[' :: _ => none
  | '[', '=' :: _ => none
  | '[', _ => some (.leftBracket,0)
  | ']', _ => some (.rightBracket,0)
  | '(', _ => some (.leftParen,0)
  | ')', _ => some (.rightParen,0)
  | '\x7b', _ => some (.leftBrace,0)
  | '\x7d', _ => some (.rightBrace,0)
  | ',', _ => some (.comma,0)
  | '+', _ => some (.operator .add,0)
  | '-', _ => some (.operator .sub,0)
  | '*', _ => some (.operator .mul,0)
  | '%', _ => some (.operator .mod,0)
  | '^', _ => some (.operator .pow,0)
  | _, _ => none

def isBlank (c : Char) : Bool := c = ' ' || c = '\t' || c = '\n'

/-- The token at the front, if it is not a blank or a comment, and the number of further characters
that it takes. -/
def next? (c : Char) (rest : List Char) : Option (Option Token × Nat) :=
  if isBlank c then some (none,0)
  else if isNameStart c then
    let more := rest.takeWhile isNameChar
    (wordToken? (String.ofList (c :: more))).map fun token => (some token,more.length)
  else if c = '\x27' || c = '\x22' then
    (literalRest? c rest).map fun body => (some (.text (String.ofList (c :: body))),body.length)
  else if c = '-' && rest.head? = some '-' then
    if rest.tail.head? = some '[' then none
    else some (none,(rest.takeWhile (· != '\n')).length)
  else (sign? c rest).map fun (token,more) => (some token,more)

/-- The tokens behind the characters that are left of the last one. -/
def lexFrom : (left : Nat) → List Char → Option (List Token)
  | _, [] => some []
  | left + 1, _ :: rest => lexFrom left rest
  | 0, c :: rest =>
    match next? c rest with
    | none => none
    | some (token,more) => (lexFrom more rest).map (token.toList ++ ·)

def lex (cs : List Char) : Option (List Token) := lexFrom 0 cs

theorem lexFrom_eq_drop (left : Nat) (cs : List Char) : lexFrom left cs = lex (cs.drop left) := by
  induction cs generalizing left with
  | nil => simp [lex,lexFrom]
  | cons c rest ih =>
    cases left with
    | zero => rfl
    | succ left => exact ih left

@[simp] theorem lex_nil : lex [] = some [] := rfl

theorem lex_cons (c : Char) (rest : List Char) : lex (c :: rest) = (next? c rest).bind fun (token,more) =>
      (lex (rest.drop more)).map (token.toList ++ ·) := by
  rw [lex,lexFrom]
  cases next? c rest with
  | none => rfl
  | some found => simp [lexFrom_eq_drop]

/-! ## Texts and their tokens -/

/-- A word that ends in front of the text is not continued by it. -/
def Detached (rest : List Char) : Prop := ∀ c ∈ rest.head?, isNameChar c = false

instance (rest : List Char) : Decidable (Detached rest) := Option.decidableForallMem rest.head?

def unspaced (cs : List Char) : List Char := cs.filter (· != ' ')

/-- The text has the letters of the tokens, and in front of a text that does not continue its last word
it adds the tokens. -/
structure Spelled (text : String) (ts : List Token) : Prop where
  letters : unspaced text.toList = unspaced (spellings ts)
  lexes : ∀ rest, Detached rest → lex (text.toList ++ rest) = (lex rest).map (ts ++ ·)

/-- The text adds the tokens in front of every text. -/
structure Shut (text : String) (ts : List Token) : Prop where
  letters : unspaced text.toList = unspaced (spellings ts)
  lexes : ∀ rest, lex (text.toList ++ rest) = (lex rest).map (ts ++ ·)

section

variable {a b : String} {xs ys : List Token}

theorem map_append_map (xs ys : List Token) (found : Option (List Token)) :
    (found.map (ys ++ ·)).map (xs ++ ·) = found.map (xs ++ ys ++ ·) := by
  cases found <;> simp

theorem letters_append (first : unspaced a.toList = unspaced (spellings xs))
    (second : unspaced b.toList = unspaced (spellings ys)) :
    unspaced (a ++ b).toList = unspaced (spellings (xs ++ ys)) := by
  simp only [unspaced,spellings] at first second
  simp [unspaced,spellings,first,second]

theorem Shut.spelled (first : Shut a xs) : Spelled a xs := ⟨first.letters,fun rest _ => first.lexes rest⟩

theorem Shut.append (first : Shut a xs) (second : Shut b ys) : Shut (a ++ b) (xs ++ ys) := by
  refine ⟨letters_append first.letters second.letters,fun rest => ?_⟩
  rw [String.toList_append,List.append_assoc,first.lexes,second.lexes,map_append_map]

theorem Shut.before (first : Shut a xs) (second : Spelled b ys) : Spelled (a ++ b) (xs ++ ys) := by
  refine ⟨letters_append first.letters second.letters,fun rest detached => ?_⟩
  rw [String.toList_append,List.append_assoc,first.lexes,second.lexes rest detached,map_append_map]

theorem detached_append (given : b.toList ≠ []) (apart : Detached b.toList) (rest : List Char) :
    Detached (b.toList ++ rest) := by
  obtain ⟨c,cs,spelled⟩ := List.exists_cons_of_ne_nil given
  simpa [spelled,Detached] using apart

theorem Spelled.closed (first : Spelled a xs) (second : Shut b ys) (given : b.toList ≠ [])
    (apart : Detached b.toList) : Shut (a ++ b) (xs ++ ys) := by
  refine ⟨letters_append first.letters second.letters,fun rest => ?_⟩
  rw [String.toList_append,List.append_assoc,first.lexes _ (detached_append given apart rest),
    second.lexes,map_append_map]

theorem Spelled.append (first : Spelled a xs) (second : Spelled b ys) (given : b.toList ≠ [])
    (apart : Detached b.toList) : Spelled (a ++ b) (xs ++ ys) := by
  refine ⟨letters_append first.letters second.letters,fun rest detached => ?_⟩
  rw [String.toList_append,List.append_assoc,first.lexes _ (detached_append given apart rest),
    second.lexes rest detached,map_append_map]

theorem Spelled.lexed (spelled : Spelled a xs) : lex a.toList = some xs := by
  have whole := spelled.lexes [] (by simp [Detached])
  simpa using whole

theorem Spelled.count (spelled : Spelled a xs) (letter : c ≠ ' ') :
    a.toList.count c = (spellings xs).count c := by
  have kept (cs : List Char) : (unspaced cs).count c = cs.count c := List.count_filter (by simpa using letter)
  rw [← kept a.toList,spelled.letters,kept]

end

variable {c mark : Char} {id : String}

/-! ## Words -/

theorem next_of_word (start : isNameStart c = true) (inside : ∀ d ∈ cs, isNameChar d = true)
    (detached : Detached rest) :
    next? c (cs ++ rest) =
      (wordToken? (String.ofList (c :: cs))).map fun token => (some token,cs.length) := by
  have blank : isBlank c = false := by
    by_contra other
    simp only [isBlank,Bool.or_eq_true,decide_eq_true_eq,Bool.not_eq_false] at other
    rcases other with (rfl | rfl) | rfl <;> revert start <;> decide
  have stop : rest.takeWhile isNameChar = [] := by
    cases rest with
    | nil => rfl
    | cons d later => simp [detached d rfl]
  rw [next?,if_neg (by simp [blank]),if_pos start,List.takeWhile_append_of_pos inside,stop, List.append_nil]

theorem spelling_of_wordToken (found : wordToken? word = some token) : token.spelling = word.toList := by
  unfold wordToken? at found
  repeat' split at found
  all_goals cases found
  all_goals simp_all [Token.spelling,Operator.spelling]

theorem word_spelled (start : word.toList.head?.any isNameStart = true)
    (inside : word.toList.all isNameChar = true) (found : wordToken? word = some token) :
    Spelled word [token] := by
  refine ⟨by simp [spellings,spelling_of_wordToken found],fun rest detached => ?_⟩
  obtain ⟨c,cs,spelled⟩ : ∃ c cs, word.toList = c :: cs := by
    cases letters : word.toList with
    | nil => simp [letters] at start
    | cons c cs => exact ⟨c,cs,rfl⟩
  rw [spelled] at start inside ⊢
  simp only [List.head?_cons,Option.any_some,List.all_cons,Bool.and_eq_true,List.all_eq_true] at start inside
  have whole : String.ofList (c :: cs) = word := by rw [← spelled,String.ofList_toList]
  rw [List.cons_append,lex_cons,next_of_word start inside.2 detached,whole,found]
  simp

theorem wordToken_of_isName (valid : IsName word) : wordToken? word = some (.name word) := by
  obtain ⟨-,-,free⟩ := valid
  have other {keyword : String} (reserved : keyword ∈ keywords) : word ≠ keyword := by
    rintro rfl
    exact free reserved
  rw [wordToken?,if_neg (other (by decide)),if_neg (other (by decide)),if_neg (other (by decide)),
    if_neg free]

theorem IsName.spelled (valid : IsName word) : Spelled word [.name word] :=
  word_spelled valid.1 valid.2.1 (wordToken_of_isName valid)

/-! ## Signs -/

theorem shut_of_next (c : Char) (token : Option Token)
    (same : unspaced [c] = unspaced (spellings token.toList))
    (found : ∀ rest, next? c rest = some (token,0)) : Shut (String.singleton c) token.toList := by
  refine ⟨by simpa using same,fun rest => ?_⟩
  simp [lex_cons,found]

theorem shut_blank : Shut " " [] := shut_of_next ' ' none rfl fun _ => rfl

theorem shut_comma : Shut "," [.comma] := shut_of_next ',' (some .comma) rfl fun _ => rfl

theorem shut_leftParen : Shut "(" [.leftParen] := shut_of_next '(' (some .leftParen) rfl fun _ => rfl

theorem shut_rightParen : Shut ")" [.rightParen] := shut_of_next ')' (some .rightParen) rfl fun _ => rfl

theorem shut_rightBracket : Shut "]" [.rightBracket] := shut_of_next ']' (some .rightBracket) rfl fun _ => rfl

theorem shut_leftBrace : Shut "\x7b" [.leftBrace] := shut_of_next '\x7b' (some .leftBrace) rfl fun _ => rfl

theorem shut_rightBrace : Shut "\x7d" [.rightBrace] := shut_of_next '\x7d' (some .rightBrace) rfl fun _ => rfl

theorem shut_operator (op : Operator) : Shut (" " ++ op.spelling ++ " ") [.operator op] := by
  have word {text : String} {token : Token} (spelled : Spelled text [token]) :
      Shut (" " ++ text ++ " ") [token] :=
    (shut_blank.before spelled).closed shut_blank (by decide) (by decide)
  cases op with
  | or | and => exact word (word_spelled (by decide) (by decide) rfl)
  | _ =>
    refine ⟨rfl,fun rest => ?_⟩
    simp [Operator.spelling,lex_cons,next?,sign?,isBlank,isNameStart,Function.comp_def]

theorem lex_of_next (found : next? c rest = some (some token,0)) :
    lex (c :: rest) = (lex rest).map (token :: ·) := by
  simp [lex_cons,found]

theorem Spelled.member (first : Spelled a xs) (valid : IsName word) :
    Spelled (a ++ "." ++ word) (xs ++ [.dot,.name word]) := by
  have same : unspaced ("." ++ word).toList = unspaced (spellings ([.dot] ++ [.name word])) :=
    letters_append rfl valid.spelled.letters
  have whole : unspaced (a ++ "." ++ word).toList = unspaced (spellings (xs ++ [.dot,.name word])) := by
    rw [String.append_assoc]
    exact letters_append first.letters same
  refine ⟨whole,fun rest detached => ?_⟩
  have second := valid.spelled.lexes rest detached
  obtain ⟨start,-,-⟩ := valid
  cases letters : word.toList with
  | nil => simp [letters] at start
  | cons c cs =>
    have other : c ≠ '.' := by
      rintro rfl
      simp [letters] at start
      revert start
      decide
    have dot : next? '.' (c :: cs ++ rest) = some (some .dot,0) := by
      simp [next?,isBlank,isNameStart,sign?,other]
    rw [letters] at second
    have between : Detached ('.' :: (c :: cs ++ rest)) := by simp [Detached]; decide
    simp only [String.toList_append,List.append_assoc,letters]
    rw [first.lexes _ (by simpa using between)]
    change (lex ('.' :: (c :: cs ++ rest))).map _ = _
    rw [lex_of_next dot,second]
    cases lex rest <;> simp

theorem Spelled.indexed (first : Spelled a xs) (second : Spelled b ys)
    (given : ∃ c ∈ b.toList.head?, c ≠ '[' ∧ c ≠ '=') :
    Shut (a ++ "[" ++ b ++ "]") (xs ++ [.leftBracket] ++ ys ++ [.rightBracket]) := by
  have bracketed : Spelled ("[" ++ b) ([.leftBracket] ++ ys) := by
    refine ⟨letters_append rfl second.letters,fun rest detached => ?_⟩
    obtain ⟨c,front,other⟩ := given
    obtain ⟨cs,letters⟩ := List.head?_eq_some_iff.mp front
    have bracket : next? '[' (b.toList ++ rest) = some (some .leftBracket,0) := by
      simp [letters,next?,isBlank,isNameStart,sign?,other]
    rw [String.toList_append,List.append_assoc]
    change lex ('[' :: (b.toList ++ rest)) = _
    rw [lex_of_next bracket,second.lexes rest detached]
    cases lex rest <;> simp
  have opened := first.append bracketed (by simp) (by simp [Detached]; decide)
  have closed := opened.closed shut_rightBracket (by decide) (by decide)
  simpa [String.append_assoc] using closed

theorem Spelled.negated (spelled : Spelled a xs) (given : ∃ c ∈ a.toList.head?, c ≠ '-') :
    Spelled ("-" ++ a) ([.operator .sub] ++ xs) := by
  refine ⟨letters_append rfl spelled.letters,fun rest detached => ?_⟩
  obtain ⟨c,front,other⟩ := given
  obtain ⟨cs,letters⟩ := List.head?_eq_some_iff.mp front
  have dash : next? '-' (a.toList ++ rest) = some (some (.operator .sub),0) := by
    simp [letters,next?,isBlank,isNameStart,sign?,other]
  rw [String.toList_append,List.append_assoc]
  change lex ('-' :: (a.toList ++ rest)) = _
  rw [lex_of_next dash,spelled.lexes rest detached]
  cases lex rest <;> simp

/-! ## Quoted texts -/

/-- The character stands in a quoted text for itself or has an escape that is known. -/
def isWritable (c : Char) : Bool := Text.isPrintable c || c.toNat ≤ 0xff || 0xffff < c.toNat

theorem digitChar_of_isDigit (digit : c.isDigit = true) : ∃ d < 10, Nat.digitChar d = c := by
  obtain ⟨low,high⟩ := Char.isDigit_iff_toNat.mp digit
  change 48 ≤ c.toNat at low
  change c.toNat ≤ 57 at high
  refine ⟨c.toNat - 48,by omega,Char.toNat_inj.mp ?_⟩
  rw [Nat.toNat_digitChar_of_lt_ten (by omega)]
  omega

theorem isHexDigit_digitChar (small : n < 16) : isHexDigit n.digitChar = true :=
  (by decide : ∀ n : Fin 16, isHexDigit n.val.digitChar = true) ⟨n,small⟩

theorem isHexDigit_of_mem_toDigits (member : c ∈ Nat.toDigits 16 n) : isHexDigit c = true := by
  induction n using Nat.strongRecOn with
  | ind n ih =>
    by_cases small : n < 16
    · rw [Nat.toDigits_of_lt_base small,List.mem_singleton] at member
      subst member
      exact isHexDigit_digitChar small
    · have split : 16 * (n / 16) + n % 16 = n := Nat.div_add_mod n 16
      rw [← split,← Nat.toDigits_append_toDigits (by omega) (by omega) (by omega), List.mem_append] at member
      rcases member with front | last
      · exact ih (n / 16) (by omega) front
      · rw [Nat.toDigits_of_lt_base (by omega),List.mem_singleton] at last
        subst last
        exact isHexDigit_digitChar (by omega)

theorem isHexDigit_of_mem_hex (width n : Nat) (member : c ∈ Text.hex width n) : isHexDigit c = true := by
  rcases List.mem_append.mp member with zero | digit
  · rw [List.eq_of_mem_replicate zero]
    decide
  · exact isHexDigit_of_mem_toDigits digit

theorem hex_two (small : n ≤ 0xff) : ∃ a b, Text.hex 2 n = [a,b] := by
  by_cases one : n < 16
  · exact ⟨'0',n.digitChar,by simp [Text.hex,Nat.toDigits_of_lt_base one]⟩
  · have digits : Nat.toDigits 16 n = [(n / 16).digitChar,(n % 16).digitChar] := by
      calc Nat.toDigits 16 n
        _ = Nat.toDigits 16 (16 * (n / 16) + n % 16) := by rw [Nat.div_add_mod]
        _ = Nat.toDigits 16 (n / 16) ++ Nat.toDigits 16 (n % 16) :=
          (Nat.toDigits_append_toDigits (by omega) (by omega) (by omega)).symm
        _ = _ := by
          rw [Nat.toDigits_of_lt_base (by omega),Nat.toDigits_of_lt_base (by omega)]
          rfl
    exact ⟨(n / 16).digitChar,(n % 16).digitChar,by simp [Text.hex,digits]⟩

/-- A mark that opens and closes a quoted text. -/
def IsMark (mark : Char) : Prop := mark = Text.apostrophe ∨ mark = Text.doubleQuote

theorem literalRest_plain (rest : List Char) (isMark : c ≠ mark) (slash : c ≠ '\\') (feed : c ≠ '\n')
    (back : c ≠ '\r') : literalRest? mark (c :: rest) = (literalRest? mark rest).map (c :: ·) := by
  rw [literalRest?]
  · simp [isMark,slash,feed,back]
  · intro a b later same
    exact absurd same slash
  · intro d later same
    exact absurd same slash

theorem literalRest_escape (rest : List Char) (x : c ≠ 'x') (u : c ≠ 'u') (z : c ≠ 'z')
    (digit : c.isDigit = false) :
    literalRest? mark ('\\' :: c :: rest) = (literalRest? mark rest).map (['\\',c] ++ ·) := by
  rw [literalRest?]
  · simp [x,u,z,digit]
  · intro a b later same
    exact absurd same x

theorem literalRest_digits (isMark : IsMark mark) (rest : List Char)
    (digits : ∀ d ∈ ds, isHexDigit d = true) :
    literalRest? mark (ds ++ rest) = (literalRest? mark rest).map (ds ++ ·) := by
  induction ds with
  | nil => simp
  | cons d ds ih =>
    have digit := digits d (by simp)
    have other {c : Char} (special : isHexDigit c = false) : d ≠ c := by
      rintro rfl
      rw [digit] at special
      cases special
    have unmarked : d ≠ mark := by
      rcases isMark with rfl | rfl
      · exact other (by decide)
      · exact other (by decide)
    rw [List.cons_append,literalRest_plain _ unmarked (other (by decide)) (other (by decide))
      (other (by decide)),ih fun d member => digits d (by simp [member])]
    cases literalRest? mark rest <;> simp

theorem literalRest_numericEscape (isMark : IsMark mark) (n : Nat) (rest : List Char) :
    literalRest? mark (Text.numericEscape n ++ rest) =
      if n ≤ 0xff ∨ 0xffff < n then (literalRest? mark rest).map (Text.numericEscape n ++ ·)
      else none := by
  rw [Text.numericEscape]
  by_cases byte : n ≤ 0xff
  · obtain ⟨a,b,two⟩ := hex_two byte
    have first : isHexDigit a = true := isHexDigit_of_mem_hex 2 n (by simp [two])
    have second : isHexDigit b = true := isHexDigit_of_mem_hex 2 n (by simp [two])
    simp [byte,two,literalRest?,first,second]
  rw [if_neg byte]
  by_cases short : n ≤ 0xffff
  · rw [if_pos short,if_neg (by omega)]
    simp [literalRest?]
  · have digits := literalRest_digits isMark rest fun d => isHexDigit_of_mem_hex 8 n
    rw [if_neg short,if_pos (by omega),List.cons_append,List.cons_append,
      literalRest_escape _ (by decide) (by decide) (by decide) (by decide),digits]
    cases literalRest? mark rest <;> simp

/-- A quoted character stands for itself, behind a backslash, as a letter behind one, or as a number. -/
theorem quoteChar_forms (mark c : Char) :
    (Text.quoteChar mark c = [c] ∧ c ≠ mark ∧ c ≠ '\\' ∧ Text.isPrintable c = true) ∨
    (Text.quoteChar mark c = ['\\',c] ∧ (c = mark ∨ c = '\\')) ∨
    (∃ letter, Text.quoteChar mark c = ['\\',letter] ∧ (c,letter) ∈ [('\n','n'),('\r','r'),('\t','t')]) ∨
    (Text.quoteChar mark c = Text.numericEscape c.toNat ∧ Text.isPrintable c = false) := by
  rw [Text.quoteChar]
  by_cases same : c = mark
  · simp [same]
  by_cases slash : c = '\\'
  · simp [slash,Text.escape]
  cases shown : Text.isPrintable c with
  | true => simp [same,slash]
  | false =>
    by_cases letter : c = '\n' ∨ c = '\r' ∨ c = '\t'
    · rcases letter with rfl | rfl | rfl <;> simp [same,Text.escape]
    · obtain ⟨feed,back,tab⟩ := not_or.mp letter |>.imp_right not_or.mp
      simp [same,slash,Text.escape,feed,back,tab]

theorem literalRest_quoteChar (isMark : IsMark mark) (c : Char) (rest : List Char) :
    literalRest? mark (Text.quoteChar mark c ++ rest) =
      if isWritable c then (literalRest? mark rest).map (Text.quoteChar mark c ++ ·) else none := by
  rcases quoteChar_forms mark c with ⟨form,other,slash,shown⟩ | ⟨form,same⟩ | ⟨letter,form,listed⟩ |
    ⟨form,hidden⟩
  · rw [form,if_pos (by simp [isWritable,shown])]
    apply literalRest_plain rest other slash
    all_goals rintro rfl; exact absurd shown (by decide)
  · have marked : IsMark c ∨ c = '\\' := same.imp (fun own : c = mark => own ▸ isMark) id
    rw [form,if_pos (by rcases marked with (rfl | rfl) | rfl <;> decide)]
    apply literalRest_escape <;> rcases marked with (rfl | rfl) | rfl <;> decide
  · simp only [List.mem_cons,Prod.mk.injEq,List.not_mem_nil,or_false] at listed
    rw [form]
    rcases listed with ⟨rfl,rfl⟩ | ⟨rfl,rfl⟩ | ⟨rfl,rfl⟩ <;>
      exact literalRest_escape rest (by decide) (by decide) (by decide) (by decide)
  · rw [form,literalRest_numericEscape isMark]
    simp [isWritable,hidden]

theorem literalRest_quoteChars (isMark : IsMark mark) (cs rest : List Char) :
    literalRest? mark (cs.flatMap (Text.quoteChar mark) ++ mark :: rest) =
      if cs.all isWritable then some (cs.flatMap (Text.quoteChar mark) ++ [mark]) else none := by
  have closing : literalRest? mark (mark :: rest) = some [mark] := by
    rcases isMark with rfl | rfl <;> simp [literalRest?,Text.apostrophe,Text.doubleQuote]
  induction cs with
  | nil => simpa using closing
  | cons c cs ih =>
    rw [List.flatMap_cons,List.append_assoc,literalRest_quoteChar isMark,ih,List.all_cons]
    cases isWritable c <;> cases cs.all isWritable <;> simp

theorem isMark_quotationMark (cs : List Char) : IsMark (Text.quotationMark cs) := by
  unfold Text.quotationMark
  split
  · exact .inr rfl
  · exact .inl rfl

theorem lex_quote (text : String) (rest : List Char) : lex ((Text.quote text).toList ++ rest) =
      if text.toList.all isWritable then (lex rest).map (.text (Text.quote text) :: ·)
      else none := by
  have isMark := isMark_quotationMark text.toList
  have scanned := literalRest_quoteChars isMark text.toList rest
  rw [Text.quote,String.toList_ofList,Text.quoteChars]
  generalize Text.quotationMark text.toList = mark at *
  generalize text.toList.flatMap (Text.quoteChar mark) = body at *
  have found : next? mark (body ++ mark :: rest) =
      (literalRest? mark (body ++ mark :: rest)).map fun passed =>
        (some (.text (String.ofList (mark :: passed))),passed.length) := by
    rcases isMark with rfl | rfl <;> simp [next?,isBlank,isNameStart,Text.apostrophe,Text.doubleQuote]
  have behind : (body ++ mark :: rest).drop (body ++ [mark]).length = rest := by
    rw [List.append_cons body mark rest,List.drop_left]
  simp only [List.cons_append,List.append_assoc,List.nil_append]
  rw [lex_cons,found,scanned]
  by_cases writable : text.toList.all isWritable = true
  · rw [if_pos writable,if_pos writable]
    simp only [Option.map_some,Option.bind_some,behind]
    rfl
  · rw [if_neg writable,if_neg writable]
    rfl

/-! ## What the tokens of a text are -/

theorem isName_of_wordToken (start : word.toList.head?.any isNameStart = true)
    (inside : word.toList.all isNameChar = true) (found : wordToken? word = some (.name id)) :
    IsName id := by
  unfold wordToken? at found
  split at found
  · cases found
  split at found
  · cases found
  split at found
  · cases found
  split at found
  · cases found
  · rename_i free
    cases found
    exact ⟨start,inside,free⟩

theorem isNameChar_of_isNameStart (start : isNameStart c = true) : isNameChar c = true := by
  simp only [isNameStart,isNameChar,Char.isAlphanum,Bool.or_eq_true] at start ⊢
  rcases start with letter | other
  · exact .inl (.inl letter)
  · exact .inr other

theorem sign_ne_name : sign? c rest ≠ some (.name id,more) := by
  unfold sign?
  split <;> simp

theorem isName_of_next (found : next? c rest = some (some (.name id),more)) : IsName id := by
  unfold next? at found
  split at found
  · cases found
  split at found
  · rename_i start
    obtain ⟨token,known,same⟩ := Option.map_eq_some_iff.mp found
    cases same
    refine isName_of_wordToken (by simpa using start) ?_ known
    simp [isNameChar_of_isNameStart start,List.all_takeWhile]
  split at found
  · obtain ⟨body,-,same⟩ := Option.map_eq_some_iff.mp found
    cases same
  split at found
  · split at found <;> cases found
  · obtain ⟨⟨token,n⟩,known,same⟩ := Option.map_eq_some_iff.mp found
    cases same
    exact absurd known sign_ne_name

theorem isName_of_lexFrom (found : lexFrom left cs = some ts) (member : .name id ∈ ts) :
    IsName id := by
  induction cs generalizing left ts with
  | nil =>
    cases found
    cases member
  | cons c rest ih =>
    cases left with
    | succ left => exact ih found member
    | zero =>
      rw [lexFrom] at found
      cases front : next? c rest with
      | none => simp [front] at found
      | some step =>
        obtain ⟨token,more⟩ := step
        rw [front] at found
        obtain ⟨later,behind,rfl⟩ := Option.map_eq_some_iff.mp found
        rcases List.mem_append.mp member with first | second
        · obtain rfl : token = some (.name id) := by simpa using first
          exact isName_of_next front
        · exact ih behind second

theorem literalRest_front (found : literalRest? mark cs = some body) : body <+: cs := by
  fun_induction literalRest? mark cs generalizing body with
  | case1 => cases found
  | case2 a b rest digits ih =>
    obtain ⟨later,known,rfl⟩ := Option.map_eq_some_iff.mp found
    simpa using ih known
  | case3 => cases found
  | case4 => cases found
  | case5 c rest _ _ ih =>
    obtain ⟨later,known,rfl⟩ := Option.map_eq_some_iff.mp found
    simpa using ih known
  | case6 =>
    cases found
    simp
  | case7 => cases found
  | case8 c rest _ _ _ _ ih =>
    obtain ⟨later,known,rfl⟩ := Option.map_eq_some_iff.mp found
    simpa using ih known

theorem spelling_of_sign (found : sign? c rest = some (token,more)) :
    token.spelling = c :: rest.take more := by
  unfold sign? at found
  split at found
  all_goals cases found
  all_goals rfl

theorem spelling_of_next (found : next? c rest = some (some token,more)) :
    token.spelling = c :: rest.take more := by
  unfold next? at found
  split at found
  · cases found
  split at found
  · obtain ⟨token,known,same⟩ := Option.map_eq_some_iff.mp found
    cases same
    rw [spelling_of_wordToken known,String.toList_ofList,
      List.prefix_iff_eq_take.mp (List.takeWhile_prefix isNameChar)]
    simp
  split at found
  · obtain ⟨body,known,same⟩ := Option.map_eq_some_iff.mp found
    cases same
    rw [← List.prefix_iff_eq_take.mp (literalRest_front known)]
    simp [Token.spelling]
  split at found
  · split at found <;> cases found
  · obtain ⟨⟨token,n⟩,known,same⟩ := Option.map_eq_some_iff.mp found
    cases same
    exact spelling_of_sign known

theorem spellings_of_lex (found : lex cs = some ts) : (spellings ts).Sublist cs := by
  suffices from_left : ∀ left ts, lexFrom left cs = some ts → (spellings ts).Sublist (cs.drop left) from
    from_left 0 ts found
  clear found
  induction cs with
  | nil =>
    intro left ts found
    cases found
    simp [spellings]
  | cons c rest ih =>
    intro left ts found
    cases left with
    | succ left => exact ih left ts found
    | zero =>
      rw [lexFrom] at found
      cases front : next? c rest with
      | none => simp [front] at found
      | some step =>
        obtain ⟨token,more⟩ := step
        rw [front] at found
        obtain ⟨later,behind,rfl⟩ := Option.map_eq_some_iff.mp found
        have second := ih more later behind
        cases token with
        | none => exact (second.trans (List.drop_sublist ..)).cons c
        | some token =>
          have whole : c :: rest = (c :: rest.take more) ++ rest.drop more := by simp
          rw [List.drop_zero,whole,← spelling_of_next front]
          exact (List.Sublist.refl _).append second

theorem spellings_of_comment (found : lex ('-' :: '-' :: cs) = some ts) : (spellings ts).Sublist cs := by
  rw [lex_cons] at found
  obtain ⟨⟨token,more⟩,front,behind⟩ := Option.bind_eq_some_iff.mp found
  obtain ⟨skipped,rfl⟩ : 1 ≤ more ∧ token = none := by
    by_cases long : cs.head? = some '['
    · simp [next?,isBlank,isNameStart,long] at front
    · simp only [next?,isBlank,isNameStart] at front
      simp [long] at front
      obtain ⟨rfl,rfl⟩ := front
      exact ⟨by omega,rfl⟩
  obtain ⟨later,lexed,rfl⟩ := Option.map_eq_some_iff.mp behind
  obtain ⟨n,rfl⟩ := Nat.exists_eq_add_of_le' skipped
  rw [List.drop_succ_cons] at lexed
  exact (spellings_of_lex lexed).trans (List.drop_sublist ..)

end LuauCompiler.Luau
