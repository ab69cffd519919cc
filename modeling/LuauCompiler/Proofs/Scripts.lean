import LuauCompiler.Proofs.Lexemes

/-! Luau statements: those parts of the language with which operations on tables are written. A text is
taken apart into tokens from left to right, with what may still go on held back; the tokens are read by
descent. -/
namespace LuauCompiler.Luau.Script

inductive Token where
  | name (id : String)
  | numeral (n : Nat)
  | functionWord | localWord | returnWord | forWord | inWord | doWord | ifWord | thenWord | endWord
  | dot | comma | assign | increase | equal | greater | minus
  | leftParen | rightParen | leftBracket | rightBracket
  deriving DecidableEq, Repr

def keyword? (word : String) : Option Token :=
  if word = "function" then some .functionWord
  else if word = "local" then some .localWord
  else if word = "return" then some .returnWord
  else if word = "for" then some .forWord
  else if word = "in" then some .inWord
  else if word = "do" then some .doWord
  else if word = "if" then some .ifWord
  else if word = "then" then some .thenWord
  else if word = "end" then some .endWord
  else none

/-- A numeral, a keyword or a name. -/
def wordToken? (cs : List Char) : Option Token :=
  if cs.head?.any Char.isDigit then
    if cs.all Char.isDigit then some (.numeral (Nat.ofDigitChars 10 cs 0)) else none
  else if String.ofList cs ∈ keywords then keyword? (String.ofList cs)
  else some (.name (String.ofList cs))

def signToken? : List Char → Option Token
  | ['.'] => some .dot
  | [','] => some .comma
  | ['='] => some .assign
  | ['+','='] => some .increase
  | ['=','='] => some .equal
  | ['>'] => some .greater
  | ['-'] => some .minus
  | ['('] => some .leftParen
  | [')'] => some .rightParen
  | ['['] => some .leftBracket
  | [']'] => some .rightBracket
  | _ => none

/-- The signs of two characters that begin with a sign of the fragment. -/
def longSigns : List (List Char) :=
  [['=','='],['+','='],['-','='],['>','='],['.','.'],['-','-'],['-','>'],['[','['],['[','=']]

/-- What has been read and may go on. -/
inductive Held where
  | blank
  | word (cs : List Char)
  | sign (cs : List Char)
  deriving DecidableEq

namespace Held

def start (c : Char) : Held :=
  if isBlank c then blank else if isNameChar c then word [c] else sign [c]

/-- The character goes on with what is held. -/
def join? : Held → Char → Option Held
  | word cs,c => if isNameChar c then some (word (cs ++ [c])) else none
  | sign cs,c => if cs ++ [c] ∈ longSigns then some (sign (cs ++ [c])) else none
  | blank,_ => none

def tokens? : Held → Option (List Token)
  | blank => some []
  | word cs => (wordToken? cs).map ([·])
  | sign cs => (signToken? cs).map ([·])

end Held

/-- How far a text has been read. -/
structure Reading where
  tokens : List Token
  held : Held
  deriving DecidableEq

def Reading.step (q : Reading) (c : Char) : Option Reading :=
  match q.held.join? c with
  | some held => some { q with held }
  | none => q.held.tokens?.map fun ts => ⟨q.tokens ++ ts,.start c⟩

def Reading.scan (q : Reading) (text : String) : Option Reading := text.toList.foldlM step q

def tokens? (text : String) : Option (List Token) := do
  let q ← Reading.scan ⟨[],.blank⟩ text
  return q.tokens ++ (← q.held.tokens?)

inductive Comparison where
  | equal | greater
  deriving DecidableEq, Repr

mutual

inductive Exp where
  | number (n : Int)
  | name (id : String)
  | function (params : List String) (body : List Stat)
  | field (base : Exp) (name : String)
  | index (base key : Exp)
  | call (function : Exp) (args : List Exp)
  | compare (op : Comparison) (left right : Exp)

inductive Stat where
  | declare (id : String) (value : Exp)
  /-- The names take the keys and items of a table. -/
  | each (ids : List String) (table : Exp) (body : List Stat)
  | cond (test : Exp) (body : List Stat)
  | give (value : Exp)
  | increase (id : String) (value : Exp)
  | run (call : Exp)

end

abbrev Parser := StateT (List Token) Option

def next : Parser Token
  | [] => none
  | t :: rest => some (t,rest)

def expect (t : Token) : Parser Unit := do
  if (← next) = t then return else failure

def identifier : Parser String := do
  match ← next with
  | .name id => return id
  | _ => failure

def numeral : Parser Nat := do
  match ← next with
  | .numeral n => return n
  | _ => failure

/-- The readers that call themselves. -/
structure Grammar where
  identifiers : Parser (List String)
  expression : Parser Exp
  /-- Fields, keys and arguments behind an expression. -/
  suffixes : Exp → Parser Exp
  row : Parser (List Exp)
  /-- Statements up to the word that ends them. -/
  block : Parser (List Stat)

namespace Grammar

variable (g : Grammar)

def nextIdentifiers : Parser (List String) := do
  let id ← identifier
  (do
    expect .comma
    return id :: (← g.identifiers)) <|> return [id]

def functionLiteral : Parser Exp := do
  expect .functionWord
  expect .leftParen
  let params ← g.identifiers
  expect .rightParen
  let body ← g.block
  expect .endWord
  return .function params body

def simple : Parser Exp := (do return .number (← numeral)) <|> (do
    expect .minus
    return .number (-(← numeral : Nat))) <|>
  g.functionLiteral <|>
  (do
    let id ← identifier
    g.suffixes (.name id)) <|>
  (do
    expect .leftParen
    let e ← g.expression
    expect .rightParen
    g.suffixes e)

def nextExpression : Parser Exp := do
  let left ← g.simple
  (do
    expect .equal
    return .compare .equal left (← g.simple)) <|>
  (do
    expect .greater
    return .compare .greater left (← g.simple)) <|>
  return left

def nextSuffixes (e : Exp) : Parser Exp := (do
    expect .dot
    let id ← identifier
    g.suffixes (.field e id)) <|>
  (do
    expect .leftBracket
    let key ← g.expression
    expect .rightBracket
    g.suffixes (.index e key)) <|>
  (do
    expect .leftParen
    let args ← g.row
    expect .rightParen
    g.suffixes (.call e args)) <|>
  return e

def nextRow : Parser (List Exp) := do
  let e ← g.expression
  (do
    expect .comma
    return e :: (← g.row)) <|> return [e]

def statement : Parser Stat := (do
    expect .localWord
    let id ← identifier
    expect .assign
    return .declare id (← g.expression)) <|>
  (do
    expect .forWord
    let ids ← g.identifiers
    expect .inWord
    let table ← g.expression
    expect .doWord
    let body ← g.block
    expect .endWord
    return .each ids table body) <|>
  (do
    expect .ifWord
    let test ← g.expression
    expect .thenWord
    let body ← g.block
    expect .endWord
    return .cond test body) <|>
  (do
    let id ← identifier
    expect .increase
    return .increase id (← g.expression)) <|>
  (do
    match ← g.expression with
    | .call function args => return .run (.call function args)
    | _ => failure)

def lastStatement : Parser Stat := do
  expect .returnWord
  return .give (← g.expression)

def nextBlock : Parser (List Stat) := (do return [← g.lastStatement]) <|> (do
    let s ← g.statement
    return s :: (← g.block)) <|>
  return []

end Grammar

/-- The readers with a bound on how deep they go. -/
def grammar : Nat → Grammar
  | 0 => ⟨failure,failure,fun _ => failure,failure,failure⟩
  | n + 1 =>
    let g := grammar n
    ⟨g.nextIdentifiers,g.nextExpression,g.nextSuffixes,g.nextRow,g.nextBlock⟩

/-- All tokens are read. Each reader takes a token before it calls itself, so their number is a bound. -/
def complete? {α : Type} (part : Grammar → Parser α) (text : String) : Option α := do
  let ts ← tokens? text
  match ← part (grammar (ts.length + 1)) ts with
  | (a,[]) => return a
  | _ => none

def expression? : String → Option Exp := complete? Grammar.expression

def statement? : String → Option Stat := complete? fun g => g.statement <|> g.lastStatement

/-- Behind what is held, the text adds the tokens and holds something back. -/
def Lexed (text : String) (held : Held) (ts : List Token) (last : Held) : Prop :=
  Reading.scan ⟨[],held⟩ text = some ⟨ts,last⟩

instance (text : String) (held : Held) (ts : List Token) (last : Held) : Decidable (Lexed text held ts last) :=
  inferInstanceAs (Decidable (_ = _))

theorem scan_behind (before : List Token) (lexed : Lexed a h ts i) :
    Reading.scan ⟨before,h⟩ a = some ⟨before ++ ts,i⟩ := by
  have step (q : Reading) (c : Char) : Reading.step ⟨before ++ q.tokens,q.held⟩ c =
      (q.step c).map fun q => ⟨before ++ q.tokens,q.held⟩ := by
    unfold Reading.step
    cases q.held.join? c with
    | some held => rfl
    | none => cases q.held.tokens? <;> simp
  have run (cs : List Char) (q : Reading) : cs.foldlM Reading.step ⟨before ++ q.tokens,q.held⟩ =
      (cs.foldlM Reading.step q).map fun q => ⟨before ++ q.tokens,q.held⟩ := by
    induction cs generalizing q with
    | nil => rfl
    | cons c cs ih =>
      rw [List.foldlM_cons,List.foldlM_cons,step]
      cases q.step c with
      | none => rfl
      | some q => exact ih q
  have whole := run a.toList ⟨[],h⟩
  rw [show a.toList.foldlM Reading.step ⟨[],h⟩ = some ⟨ts,i⟩ from lexed] at whole
  exact (congrArg (Reading.scan ⟨·,h⟩ a) (List.append_nil before)).symm.trans whole

theorem Lexed.append (first : Lexed a h ts i) (second : Lexed b i us j) : Lexed (a ++ b) h (ts ++ us) j := by
  unfold Lexed Reading.scan
  rw [String.toList_append,List.foldlM_append,show a.toList.foldlM Reading.step ⟨[],h⟩ = _ from first]
  exact scan_behind ts second

theorem Lexed.tokens (lexed : Lexed a .blank ts i) (rest : i.tokens? = some us) : tokens? a = some (ts ++ us) := by
  rw [tokens?,show Reading.scan _ a = _ from lexed]
  simp [rest]

/-- The text is one word. -/
structure IsWord (text : String) (t : Token) : Prop where
  given : text.toList ≠ []
  letters : text.toList.all isNameChar = true
  token : wordToken? text.toList = some t

theorem word_goes_on (cs more : List Char) (ts : List Token) (letters : more.all isNameChar = true) :
    more.foldlM Reading.step ⟨ts,.word cs⟩ = some ⟨ts,.word (cs ++ more)⟩ := by
  induction more generalizing cs with
  | nil => simp
  | cons c more ih =>
    obtain ⟨letter,rest⟩ := List.all_cons ▸ letters |> Bool.and_eq_true_iff.mp
    have step : Reading.step ⟨ts,.word cs⟩ c = some ⟨ts,.word (cs ++ [c])⟩ := by
      simp [Reading.step,Held.join?,letter]
    rw [List.foldlM_cons,step]
    simpa using ih (cs ++ [c]) rest

theorem not_blank_of_letter (letter : isNameChar c = true) : isBlank c = false := by
  cases blank : isBlank c with
  | false => rfl
  | true =>
    have cases : (c = ' ' ∨ c = '\t') ∨ c = '\n' := by simpa [isBlank] using blank
    obtain (rfl | rfl) | rfl := cases <;> revert letter <;> decide

theorem not_join_letter (letter : isNameChar c = true) (cs : List Char) : cs ++ [c] ∉ longSigns := by
  intro member
  have last : ∀ sign ∈ longSigns, sign.getLast?.any isNameChar = false := by decide
  simpa [letter] using last _ member

theorem IsWord.lexed (word : IsWord a t) (ends : h.tokens? = some ts) (apart : ∀ cs, h ≠ .word cs) :
    Lexed a h ts (.word a.toList) := by
  obtain ⟨c,more,spelled⟩ := List.exists_cons_of_ne_nil word.given
  obtain ⟨letter,letters⟩ : isNameChar c = true ∧ more.all isNameChar = true := by
    simpa [spelled] using word.letters
  have joins : h.join? c = none := by
    cases h with
    | blank => rfl
    | word cs => exact absurd rfl (apart cs)
    | sign cs => simp [Held.join?,not_join_letter letter]
  have step : Reading.step ⟨[],h⟩ c = some ⟨ts,.word [c]⟩ := by
    simp [Reading.step,joins,ends,Held.start,not_blank_of_letter letter,letter]
  unfold Lexed Reading.scan
  rw [spelled,List.foldlM_cons,step]
  exact word_goes_on [c] more ts letters

theorem IsWord.ended (word : IsWord a t) (spelled : b.toList = c :: more)
    (sign : isNameChar c = false) (rest : Lexed (String.ofList more) (.start c) us j) :
    Lexed b (.word a.toList) (t :: us) j := by
  have step : Reading.step ⟨[],.word a.toList⟩ c = some ⟨[t],.start c⟩ := by
    simp [Reading.step,Held.join?,sign,Held.tokens?,word.token]
  have behind := scan_behind [t] rest
  unfold Reading.scan at behind
  unfold Lexed Reading.scan
  rw [spelled,List.foldlM_cons,step]
  rwa [String.toList_ofList] at behind

theorem isWord_of_isName (valid : IsName word) : IsWord word (.name word) := by
  obtain ⟨start,letters,free⟩ := valid
  refine ⟨fun empty => by simp [empty] at start,letters,?_⟩
  have apart : ∀ d < 10, isNameStart (Nat.digitChar d) = false := by decide
  have digit : word.toList.head?.any Char.isDigit = false := by
    obtain ⟨c,first,starts⟩ := Option.any_eq_true _ _ |>.mp start
    rw [first,Option.any_some,Bool.eq_false_iff]
    intro isDigit
    obtain ⟨d,small,rfl⟩ := digitChar_of_isDigit isDigit
    rw [apart d small] at starts
    cases starts
  rw [wordToken?,digit,String.ofList_toList,if_neg free]
  rfl

theorem isWord_numeral (n : Nat) : IsWord (toString n) (.numeral n) := by
  have digits : ∀ c ∈ Nat.toDigits 10 n, c.isDigit = true := fun c member =>
    Nat.isDigit_of_mem_toDigits (by decide) (by decide) member
  have spelled : (toString n).toList = Nat.toDigits 10 n := by
    rw [Nat.toString_eq_ofList_toDigits,String.toList_ofList]
  have all : (Nat.toDigits 10 n).all Char.isDigit = true := List.all_eq_true.mpr digits
  have first : (Nat.toDigits 10 n).head?.any Char.isDigit = true := by
    obtain ⟨c,more,shape⟩ := List.exists_cons_of_ne_nil (Nat.toDigits_ne_nil (b := 10) (n := n))
    rw [shape]
    exact digits c (by simp [shape])
  refine ⟨spelled ▸ Nat.toDigits_ne_nil,?_,?_⟩
  · rw [spelled]
    exact List.all_eq_true.mpr fun c member => by simp [isNameChar,Char.isAlphanum,digits c member]
  · rw [spelled,wordToken?,first,all,Nat.ofDigitChars_toDigits (by decide) (by decide)]
    rfl

end LuauCompiler.Luau.Script
