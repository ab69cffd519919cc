import LuauCompiler.Proofs.Execution
import LuauCompiler.Proofs.ListArguments

/-! Eleven operations on a list and the code they become, compiled from the tree of the operation and
read again as Luau. -/
namespace LuauCompiler.Compile

open Text Luau

/-- A whole number in an operation: written out, written with a minus, or held by a variable. -/
inductive Operand where
  | literal (n : Nat)
  | negated (n : Nat)
  | named (id : String)

namespace Operand

def tree : Operand → Node
  | literal n => .constant (.int n) none
  | negated n => .unaryOp (.mark (.unary .uSub)) (.constant (.int n) none)
  | named id => .name (some id) .absent

def text : Operand → String
  | literal n => toString n
  | negated n => "-" ++ toString n
  | named id => id

def value (numbers : String → Int) : Operand → Int
  | literal n => n
  | negated n => -n
  | named id => numbers id

def Written : Operand → Prop
  | literal n | negated n => (Nat.toDigits 10 n).length ≤ Json.digitLimit
  | named id => IsName id

variable {v : Operand}

theorem gives_text (config : Option Config) (s : State) (written : v.Written) :
    Gives (inline (visit config v.tree)) s v.text s := by
  cases v with
  | literal n => exact integer_gives config s written
  | negated n =>
    refine gives_inline.mpr ⟨{ s with output := .block [.line ("-" ++ toString n)] },[_],?_,rfl,rfl,rfl⟩
    change Gives (inline (visit config (.constant (.int n) none)) >>= fun operand => emit ("-" ++ operand)) _ () _
    rw [Gives.bind_iff (integer_gives config _ written)]
    exact gives_emit.mpr ⟨[],rfl,rfl⟩
  | named id => exact name_gives config s id .absent

theorem operandText_tree (written : v.Written) : operandText v.tree = .ok v.text := by
  have kept : v.tree.operandKeeps? = some true := by cases v <;> rfl
  obtain ⟨-,-,source,printed,same⟩ := (operand_compared none kept).run (.initial .empty) _ _ rfl
    (gives_text none _ written)
  rw [printed,show source = v.text from same]

theorem paired (written : v.Written) : Paired v.text 0 := by
  cases v with
  | literal n => exact paired_integer n
  | negated n => exact (show Walks 0 "-" 0 0 from rfl).append (paired_integer n)
  | named id =>
    have letters : ∀ c ∈ id.toList, isNameChar c = true := List.all_eq_true.mp written.2.1
    refine walks_bare (fun c member => ?_) 0
    have other (d : Char) (sign : isNameChar d = false) : c ≠ d := by
      rintro rfl
      simp [letters c member] at sign
    simp [isBare,other '(' rfl,other ')' rfl,other ',' rfl]

end Operand

/-- The operations on a list that are compiled to those of the table library, and reading an item. -/
inductive ListOperation where
  | append (v : Operand)
  | insert (i : Nat) (v : Operand)
  | pop (i : Nat)
  | remove (v : Operand)
  | reverse
  | sort
  | clear
  | count (v : Operand)
  | index (v : Operand)
  | extend (y : String)
  | read (i : Operand)

namespace ListOperation

variable {config : Option Config}

def methodCall (x method : String) (args keywords : List Node) : Node :=
  .call (.attribute (.name (some x) .absent) (some method) .absent) args keywords

def tree (x : String) : ListOperation → Node
  | append v => Placement.append.call x v.tree
  | insert i v => (Placement.insert i).call x v.tree
  | pop i => methodCall x "pop" [.constant (.int i) none] []
  | remove v => Placement.remove.call x v.tree
  | reverse => methodCall x "reverse" [] []
  | sort => methodCall x "sort" [] [.keyword (some "reverse") (.constant (.bool true) none)]
  | clear => methodCall x "clear" [] []
  | count v => Placement.count.call x v.tree
  | index v => Placement.index.call x v.tree
  | extend y => Placement.extend.call x (.name (some y) .absent)
  | read i => .subscript (.name (some x) .absent) i.tree .absent

def text (x : String) : ListOperation → String
  | append v => Placement.append.text x v.text
  | insert i v => (Placement.insert i).text x v.text
  | pop i => "table.remove(" ++ x ++ "," ++ toString (i + 1) ++ ")"
  | remove v => Placement.remove.text x v.text
  | reverse | sort => "table.sort(" ++ x ++ "," ++ descending ++ ")"
  | clear => "table.clear(" ++ x ++ ")"
  | count v => Placement.count.text x v.text
  | index v => Placement.index.text x v.text
  | extend y => Placement.extend.text x y
  | read i => x ++ "[" ++ i.text ++ "]"

def Written : ListOperation → Prop
  | append v | remove v | count v | index v | read v => v.Written
  | insert i v => (Nat.toDigits 10 (i + 1)).length ≤ Json.digitLimit ∧ v.Written
  | pop i => (Nat.toDigits 10 (i + 1)).length ≤ Json.digitLimit
  | extend y => IsName y
  | reverse | sort | clear => True

theorem gives_tree (op : ListOperation) (valid : IsName x) (written : op.Written)
    (out : s.output = .block before) :
    ∃ t, Gives (visit config (op.tree x)) s () t ∧ t.output = .block (before ++ [.line (op.text x)]) := by
  have emits (code : String) : Gives (emit code) s () { s with output := .block (before ++ [.line code]) } :=
    gives_emit.mpr ⟨before,out,rfl⟩
  have placed (p : Placement) (fits : p.fits = true) {v : Operand} (written : v.Written) :
      ∃ t, Gives (visit config (p.call x v.tree)) s () t ∧
        t.output = .block (before ++ [.line (p.text x v.text)]) :=
    ⟨_,(gives_method fits (v.gives_text config s written)).mpr ⟨v.text,v.operandText_tree written,emits _⟩,rfl⟩
  have bare {method : String} {m : ListMethod} (known : ListMethod.ofName? method = some m) (plain : m ≠ .sort)
      {code : String} (given : listMethodText m (.name (some x) .absent) [] = .ok code) :
      ∃ t, Gives (visit config (methodCall x method [] [])) s () t ∧
        t.output = .block (before ++ [.line code]) := by
    have none : Gives (inlineEach (visits config [])) s [] s := gives_all_nil.mpr ⟨rfl,rfl⟩
    refine ⟨{ s with output := .block (before ++ [.line code]) },(gives_listMethod known none).mpr ?_,rfl⟩
    rw [if_neg plain,given]
    exact emits code
  cases op with
  | append v => exact placed .append rfl written
  | insert i v => exact placed (.insert i) (by simpa [Placement.fits] using written.1) written.2
  | remove v => exact placed .remove rfl written
  | count v => exact placed .count rfl written
  | index v => exact placed .index rfl written
  | extend y => exact placed (v := .named y) .extend rfl written
  | reverse | clear => exact bare rfl ListMethod.noConfusion rfl
  | pop i =>
    have short : (Nat.toDigits 10 i).length ≤ Json.digitLimit := Placement.fits_position written
    have position : successorText (.constant (.int i) none) = .ok (toString (i + 1)) :=
      Placement.intText_natural (n := i + 1) written
    have each : Gives (inlineEach (visits config [.constant (.int i) .none])) s [toString i] s :=
      single_gives (integer_gives config s short)
    refine ⟨{ s with output := .block (before ++ [.line (text x (pop i))]) },(gives_listMethod rfl each).mpr ?_,rfl⟩
    rw [if_neg ListMethod.noConfusion]
    change Gives (ofExcept ((successorText (.constant (.int i) none)).bind fun shown =>
      .ok ("table.remove(" ++ x ++ "," ++ shown ++ ")")) >>= emit) s () _
    rw [position]
    exact emits _
  | sort =>
    have none : Gives (inlineEach (visits config [])) s [] s := gives_all_nil.mpr ⟨rfl,rfl⟩
    have flag : Gives (inline (visit config (.constant (.bool true) .none))) s "true" s :=
      gives_inline.mpr ⟨{ s with output := .block [.line "true"] },[_],gives_emit.mpr ⟨[],rfl,rfl⟩,
        rfl,rfl,rfl⟩
    refine ⟨{ s with output := .block (before ++ [.line (text x sort)]) },(gives_listMethod rfl none).mpr ?_,rfl⟩
    rw [if_pos rfl,sortCall]
    have texts : Gives (namedTexts (keywordsOf config [.keyword (some "reverse") (.constant (.bool true) .none)])) s
        [(some "reverse","true")] s := by
      change Gives (inline (visit config (.constant (.bool true) .none)) >>= fun text =>
        pure [(some "reverse",text)]) s _ s
      rw [Gives.bind_iff flag]
      exact gives_pure.mpr ⟨rfl,rfl⟩
    rw [Gives.bind_iff texts]
    exact emits _
  | read i =>
    have free : reservedWords.contains x = false := by
      rw [Bool.eq_false_iff]
      intro reserved
      have member : x ∈ keywords := by
        simp only [keywords,List.mem_cons]
        exact .inr (.inr (.inr (List.contains_iff_mem.mp reserved)))
      exact valid.2.2 member
    have whole : indexText i.text = "[" ++ i.text ++ "]" := indexText_of_paired (i.paired written)
    refine ⟨{ s with output := .block (before ++ [.line (text x (read i))]) },?_,rfl⟩
    change Gives (subscript (visit config (.name (some x) .absent)) (visit config i.tree)) s () _
    rw [subscript,Gives.bind_iff (i.gives_text config s written),Gives.bind_iff (name_gives ..),free,whole,
      ← String.append_assoc,← String.append_assoc]
    exact emits _

theorem code_of_isNameChar (letter : isNameChar c = true) : c.toNat < 123 := by
  have below {d : Char} (high : c.val.toNat ≤ d.toNat) (small : d.toNat < 123) : c.toNat < 123 :=
    Nat.lt_of_le_of_lt high small
  have cases : c.isAlphanum = true ∨ c = '_' := by simpa [isNameChar] using letter
  rcases cases with letter | rfl
  · unfold Char.isAlphanum Char.isAlpha Char.isUpper Char.isLower Char.isDigit at letter
    simp only [Bool.or_eq_true,Bool.and_eq_true,decide_eq_true_eq,UInt32.le_iff_toNat_le] at letter
    rcases letter with (upper | lower) | digit
    · exact below upper.2 (by decide)
    · exact below lower.2 (by decide)
    · exact below digit.2 (by decide)
  · decide

theorem position_of_isName {id : String} (valid : IsName id) : position id = .error .badValue := by
  obtain ⟨start,letters,-⟩ := valid
  have plain : ∀ n < 123, isNameChar (Char.ofNat n) = true → Integer.isBlank (Char.ofNat n) = false := by
    decide +kernel
  have other : ∀ n < 123, isNameStart (Char.ofNat n) = true →
      Digit.value? (Char.ofNat n) = none ∧ Char.ofNat n ≠ '-' ∧ Char.ofNat n ≠ '+' := by
    decide +kernel
  have trimmed : Integer.trim id.toList = id.toList := by
    refine Integer.trim_of_plain fun c member => ?_
    have letter := List.all_eq_true.mp letters c member
    have blank := plain c.toNat (code_of_isNameChar letter)
    rw [Char.ofNat_toNat] at blank
    exact blank letter
  obtain ⟨c,first,starts⟩ := Option.any_eq_true _ _ |>.mp start
  obtain ⟨more,spelled⟩ : ∃ more, id.toList = c :: more := List.head?_eq_some_iff.mp first
  obtain ⟨digit,minus,plus⟩ : Digit.value? c = none ∧ c ≠ '-' ∧ c ≠ '+' := by
    have known := other c.toNat (code_of_isNameChar (isNameChar_of_isNameStart starts))
    rw [Char.ofNat_toNat] at known
    exact known starts
  have none : Integer.numeral? id = none := by
    rw [Integer.numeral?,trimmed,spelled]
    split
    · rename_i shape
      exact absurd (List.cons.inj shape).1 minus
    · rename_i shape
      exact absurd (List.cons.inj shape).1 plus
    · rw [Integer.digits?,digit]
      simp
  rw [position,none]

theorem named_position_fails {x id : String} (valid : IsName id) {v : Operand} (written : v.Written) :
    ¬Gives (visit config (methodCall x "pop" [.name (some id) .absent] [])) s () t ∧
      ¬Gives (visit config (methodCall x "insert" [.name (some id) .absent,v.tree] [])) s () t := by
  have name := name_gives config s id .absent
  have pair : Gives (inlineEach (visits config [.name (some id) .absent,v.tree])) s [id,v.text] s :=
    gives_all_cons.mpr ⟨_,_,name,[_],single_gives (v.gives_text config s written),rfl⟩
  constructor
  · intro run
    have single : Gives (inlineEach (visits config [.name (some id) .absent])) s [id] s := single_gives name
    have code := (gives_listMethod rfl single).mp run
    rw [if_neg ListMethod.noConfusion] at code
    obtain ⟨_,found,-⟩ := gives_ofExcept_bind.mp code
    cases found
  · intro run
    have code := (gives_listMethod rfl pair).mp run
    rw [if_neg ListMethod.noConfusion] at code
    obtain ⟨_,found,-⟩ := gives_ofExcept_bind.mp code
    have stops (next : Int → Except Failure String) : (position id).bind next = .error .badValue := by
      rw [position_of_isName valid]
      rfl
    have failed : listMethodText .insert (.name (some x) .absent) [.name (some id) .absent,v.tree] =
        .error .badValue := stops _
    rw [failed] at found
    cases found

end ListOperation

/-! ## The code is read -/

namespace Operand

def exp : Operand → Script.Exp
  | literal n => .number n
  | negated n => .number (-n)
  | named id => .name id

/-- What stands before the last word, and that word. -/
def front : Operand → List Script.Token
  | negated _ => [.minus]
  | literal _ | named _ => []

def word : Operand → String
  | literal n | negated n => toString n
  | named id => id

def token : Operand → Script.Token
  | literal n | negated n => .numeral n
  | named id => .name id

variable {v : Operand}

theorem isWord (written : v.Written) : Script.IsWord v.word v.token := by
  cases v with
  | literal n | negated n => exact Script.isWord_numeral n
  | named id => exact Script.isWord_of_isName written

theorem lexed (written : v.Written) (ends : h.tokens? = some ts) (apart : ∀ cs, h ≠ .word cs)
    (minus : h.join? '-' = none) : Script.Lexed v.text h (ts ++ v.front) (.word v.word.toList) := by
  cases v with
  | literal n =>
    rw [front,List.append_nil]
    exact (isWord written).lexed ends apart
  | named id =>
    rw [front,List.append_nil]
    exact (isWord written).lexed ends apart
  | negated n =>
    have sign : Script.Lexed "-" h ts (.sign ['-']) := by
      change ['-'].foldlM Script.Reading.step ⟨[],h⟩ = _
      rw [List.foldlM_cons,Script.Reading.step,minus,ends]
      rfl
    exact sign.append ((isWord written).lexed rfl fun _ => Script.Held.noConfusion)

end Operand

namespace ListOperation

def libraryCall (function : String) (args : List Script.Exp) : Script.Exp :=
  .call (.field (.name "table") function) args

def descendingExp : Script.Exp := .function ["a","b"] [.give (.compare .greater (.name "a") (.name "b"))]

def countRound : List Script.Stat :=
  [.cond (.compare .equal (.name "v") (.name "val")) [.increase "result" (.number 1)]]

def countBody : List Script.Stat :=
  [.declare "result" (.number 0),.each ["_","v"] (.name "tbl") countRound,.give (.name "result")]

def countExp : Script.Exp := .function ["tbl","val"] countBody

/-- The expression that the code is, where it is one. -/
def exp? (x : String) : ListOperation → Option Script.Exp
  | append v => some (libraryCall "insert" [.name x,v.exp])
  | insert i v => some (libraryCall "insert" [.name x,.number (i + 1),v.exp])
  | pop i => some (libraryCall "remove" [.name x,.number (i + 1)])
  | remove v => some (libraryCall "remove" [.name x,v.exp])
  | reverse | sort => some (libraryCall "sort" [.name x,descendingExp])
  | clear => some (libraryCall "clear" [.name x])
  | count v => some (.call countExp [.name x,v.exp])
  | index v => some (libraryCall "find" [.name x,v.exp])
  | read i => some (.index (.name x) i.exp)
  | extend _ => none

def stat? (x : String) (op : ListOperation) : Option Script.Stat :=
  match op.exp? x with
  | some (.call f args) => some (.run (.call f args))
  | _ => none

def libraryTokens (function x : String) : List Script.Token :=
  [.name "table",.dot,.name function,.leftParen,.name x]

def descendingTokens : List Script.Token :=
  [.leftParen,.functionWord,.leftParen,.name "a",.comma,.name "b",.rightParen,.returnWord,.name "a",.greater,
    .name "b",.endWord,.rightParen]

def countTokens : List Script.Token :=
  [.leftParen,.functionWord,.leftParen,.name "tbl",.comma,.name "val",.rightParen,.localWord,.name "result",.assign,
    .numeral 0,.forWord,.name "_",.comma,.name "v",.inWord,.name "tbl",.doWord,.ifWord,.name "v",.equal,.name "val",
    .thenWord,.name "result",.increase,.numeral 1,.endWord,.endWord,.returnWord,.name "result",.endWord,.rightParen]

def tokens (x : String) : ListOperation → List Script.Token
  | append v => libraryTokens "insert" x ++ (.comma :: v.front ++ [v.token,.rightParen])
  | insert i v => libraryTokens "insert" x ++ (.comma :: .numeral (i + 1) :: .comma :: v.front ++ [v.token,.rightParen])
  | pop i => libraryTokens "remove" x ++ [.comma,.numeral (i + 1),.rightParen]
  | remove v => libraryTokens "remove" x ++ (.comma :: v.front ++ [v.token,.rightParen])
  | reverse | sort => libraryTokens "sort" x ++ (.comma :: descendingTokens ++ [.rightParen])
  | clear => libraryTokens "clear" x ++ [.rightParen]
  | count v => countTokens ++ ([.leftParen,.name x,.comma] ++ v.front ++ [v.token,.rightParen])
  | index v => libraryTokens "find" x ++ (.comma :: v.front ++ [v.token,.rightParen])
  | extend y => [.forWord,.name "_",.comma,.name "i",.inWord,.name y,.doWord] ++
      libraryTokens "insert" x ++ [.comma,.name "i",.rightParen]
  | read i => .name x :: .leftBracket :: i.front ++ [i.token,.rightBracket]

set_option maxRecDepth 1000 in
theorem exp_stat_of_tokens (op : ListOperation) (given : Script.tokens? (op.text x) = some (op.tokens x)) :
    Script.expression? (op.text x) = op.exp? x ∧ Script.statement? (op.text x) = op.stat? x := by
  rw [Script.expression?,Script.statement?,Script.complete?,Script.complete?,given]
  cases op with
  | append v | insert _ v | remove v | count v | index v | read v => cases v <;> constructor <;> rfl
  | _ => constructor <;> rfl

section

open Script (Lexed IsWord)

variable {a front : String} {t : Script.Token} {ts : List Script.Token}

theorem lexed_further (first : Lexed front .blank ts (.word a.toList)) (word : IsWord a t) (next : IsWord b u) :
    Lexed (front ++ "," ++ b) .blank (ts ++ [t] ++ [.comma]) (.word b.toList) := by
  have comma : Lexed "," (.word a.toList) [t] (.sign [',']) := word.ended rfl rfl rfl
  exact (first.append comma).append (next.lexed rfl fun _ => Script.Held.noConfusion)

theorem tokens_last (first : Lexed front .blank ts (.word a.toList)) (word : IsWord a t) {v : Operand}
    (written : v.Written) : Script.tokens? (front ++ "," ++ v.text ++ ")") =
      some (ts ++ [t] ++ ([.comma] ++ v.front) ++ [v.token] ++ [.rightParen]) := by
  have comma : Lexed "," (.word a.toList) [t] (.sign [',']) := word.ended rfl rfl rfl
  have paren : Lexed ")" (.word v.word.toList) [v.token] (.sign [')']) := (v.isWord written).ended rfl rfl rfl
  have operand : Lexed v.text (.sign [',']) ([.comma] ++ v.front) (.word v.word.toList) :=
    v.lexed written rfl (fun _ => Script.Held.noConfusion) (by decide)
  exact (((first.append comma).append operand).append paren).tokens rfl

theorem tokens_text (op : ListOperation) {x : String} (valid : IsName x) (written : op.Written) :
    Script.tokens? (op.text x) = some (op.tokens x) := by
  have object := Script.isWord_of_isName valid
  have library {front name : String} (named : Lexed front .blank [.name "table",.dot,.name name] (.sign ['('])) :
      Lexed (front ++ x) .blank [.name "table",.dot,.name name,.leftParen] (.word x.toList) :=
    named.append (object.lexed rfl fun _ => Script.Held.noConfusion)
  have insert : Lexed "table.insert(" .blank [.name "table",.dot,.name "insert"] (.sign ['(']) := by decide +kernel
  have remove : Lexed "table.remove(" .blank [.name "table",.dot,.name "remove"] (.sign ['(']) := by decide +kernel
  cases op with
  | append v =>
    refine (tokens_last (library insert) object written).trans ?_
    simp [tokens,libraryTokens]
  | insert i v =>
    refine (tokens_last (lexed_further (library insert) object (Script.isWord_numeral (i + 1)))
      (Script.isWord_numeral (i + 1)) written.2).trans ?_
    simp [tokens,libraryTokens]
  | pop i =>
    refine (tokens_last (v := .literal (i + 1)) (library remove) object written).trans ?_
    simp [tokens,libraryTokens,Operand.front,Operand.token]
  | remove v =>
    refine (tokens_last (library remove) object written).trans ?_
    simp [tokens,libraryTokens]
  | reverse | sort =>
    have named : Lexed "table.sort(" .blank [.name "table",.dot,.name "sort"] (.sign ['(']) := by decide +kernel
    have comma : Lexed "," (.word x.toList) [.name x] (.sign [',']) := object.ended rfl rfl rfl
    have order : Lexed descending (.sign [',']) (.comma :: descendingTokens.dropLast) (.sign [')']) := by
      decide +kernel
    have paren : Lexed ")" (.sign [')']) [.rightParen] (.sign [')']) := by decide +kernel
    exact ((((library named).append comma).append order).append paren).tokens rfl
  | clear =>
    have named : Lexed "table.clear(" .blank [.name "table",.dot,.name "clear"] (.sign ['(']) := by decide +kernel
    have paren : Lexed ")" (.word x.toList) [.name x] (.sign [')']) := object.ended rfl rfl rfl
    exact ((library named).append paren).tokens rfl
  | count v =>
    have function : Lexed ("\n(function(tbl, val)\n\tlocal result = 0\n\tfor _,v in tbl do\n\t\tif v == val then\n" ++
        "\t\t\tresult += 1\n\t\tend\n\tend\n\treturn result\nend)(") .blank countTokens (.sign ['(']) := by
      decide +kernel
    have list : Lexed x (.sign ['(']) [.leftParen] (.word x.toList) :=
      object.lexed rfl fun _ => Script.Held.noConfusion
    have comma : Lexed ", " (.word x.toList) [.name x,.comma] .blank := object.ended rfl rfl rfl
    have operand : Lexed v.text .blank ([] ++ v.front) (.word v.word.toList) :=
      v.lexed written rfl (fun _ => Script.Held.noConfusion) rfl
    have close : Lexed ")\n" (.word v.word.toList) [v.token,.rightParen] .blank :=
      (v.isWord written).ended rfl rfl rfl
    refine (((((function.append list).append comma).append operand).append close).tokens rfl).trans ?_
    simp [tokens]
  | index v =>
    have named : Lexed "table.find(" .blank [.name "table",.dot,.name "find"] (.sign ['(']) := by decide +kernel
    refine (tokens_last (library named) object written).trans ?_
    simp [tokens,libraryTokens]
  | extend y =>
    have source := Script.isWord_of_isName (show IsName y from written)
    have head : Lexed "\nfor _,i in " .blank [.forWord,.name "_",.comma,.name "i",.inWord] .blank := by decide +kernel
    have list : Lexed y .blank [] (.word y.toList) := source.lexed rfl fun _ => Script.Held.noConfusion
    have body : Lexed " do\n    table.insert(" (.word y.toList) [.name y,.doWord,.name "table",.dot,.name "insert"]
        (.sign ['(']) :=
      source.ended rfl rfl (by decide +kernel)
    have goal : Lexed x (.sign ['(']) [.leftParen] (.word x.toList) :=
      object.lexed rfl fun _ => Script.Held.noConfusion
    have last : Lexed ",i)\n\n" (.word x.toList) [.name x,.comma,.name "i",.rightParen] .blank :=
      object.ended rfl rfl (by decide +kernel)
    exact ((((head.append list).append body).append goal).append last).tokens rfl
  | read i =>
    have bracket : Lexed "[" (.word x.toList) [.name x] (.sign ['[']) := object.ended rfl rfl rfl
    have close : Lexed "]" (.word i.word.toList) [i.token] (.sign [']']) := (i.isWord written).ended rfl rfl rfl
    have operand : Lexed i.text (.sign ['[']) ([.leftBracket] ++ i.front) (.word i.word.toList) :=
      i.lexed written rfl (fun _ => Script.Held.noConfusion) (by decide)
    have first : Lexed x .blank [] (.word x.toList) := object.lexed rfl fun _ => Script.Held.noConfusion
    refine ((((first.append bracket).append operand).append close).tokens rfl).trans ?_
    simp [tokens]

end

end ListOperation

end LuauCompiler.Compile
