import LuauCompiler.Proofs.Terms
import Mathlib.Data.List.Forall2

/-! The source of an expression, cut into the tokens of the expression that is meant. -/
namespace LuauCompiler

open Luau Term

namespace Term

mutual

/-- The source is cut into the tokens that are meant. -/
def lexical : Term → Bool
  | .name id => decide (IsName id)
  | .text value => value.toList.all isWritable
  | .list items => allLexical items
  | .unary op operand =>
    operand.lexical && !(op == .uSub && operand.source.toList.head? == some '-')
  | .compare _ _ left right => left.lexical && right.lexical
  | .conditional test body orElse => test.lexical && body.lexical && orElse.lexical
  | .binary _ left right => left.lexical && right.lexical
  | .boolean _ first more => first.lexical && allLexical more
  | .member object field => object.lexical && decide (IsName field)
  | .subscript object index =>
    object.lexical && index.lexical && Compile.splitIndex index.source.toList == [index.source.toList]

def allLexical : List Term → Bool
  | [] => true
  | e :: rest => e.lexical && allLexical rest

end

end Term

namespace Luau

variable {a : String} {op : BinaryOp} {x : Expr}

/-- The character can be the first one of an expression. -/
def begins (c : Char) : Bool := isNameStart c || c = '\x27' || c = '\x22' || c = '\x7b' || c = '-' || c = '('

def Begins (text : String) : Prop := ∃ c ∈ text.toList.head?, begins c = true

theorem Begins.append (first : Begins a) (b : String) : Begins (a ++ b) := by
  obtain ⟨c,front,start⟩ := first
  refine ⟨c,?_,start⟩
  rw [String.toList_append,List.head?_append,Option.mem_def.mp front]
  rfl

theorem begins_cons {c : Char} {text : String} {rest : List Char} (spelled : text.toList = c :: rest)
    (start : begins c = true) : Begins text :=
  ⟨c,by simp [spelled],start⟩

theorem IsName.begins {word : String} (valid : IsName word) : Begins word := by
  obtain ⟨start,-,-⟩ := valid
  cases letters : word.toList with
  | nil => simp [letters] at start
  | cons c rest =>
    rw [letters,List.head?_cons,Option.any_some] at start
    exact begins_cons letters (by simp [Luau.begins,start])

theorem begins_quote (text : String) : Begins (Text.quote text) := by
  have spelled : (Text.quote text).toList = Text.quotationMark text.toList ::
      (text.toList.flatMap (Text.quoteChar (Text.quotationMark text.toList)) ++
        [Text.quotationMark text.toList]) := by
    simp [Text.quote,Text.quoteChars]
  refine begins_cons spelled ?_
  rcases isMark_quotationMark text.toList with same | same <;> rw [same] <;> decide

theorem begins_operation (op : BinaryOp) (leftIsText rightIsText : Bool) (right : String)
    (first : Begins left) : Begins (operationText op leftIsText rightIsText left right) := by
  have call : Begins "string.rep(" := ⟨'s',rfl,rfl⟩
  have shown : Begins "tostring(" := ⟨'t',rfl,rfl⟩
  have group : Begins "(" := ⟨'(',rfl,rfl⟩
  unfold operationText
  split
  · exact (((call.append _).append _).append _).append _
  · exact (((call.append _).append _).append _).append _
  · exact (first.append _).append _
  · exact ((first.append _).append _).append _
  · exact ((shown.append _).append _).append _
  · exact (group.append _).append _

theorem source_begins (e : Term) (clean : e.lexical = true) : Begins e.source := by
  cases e with
  | name id =>
    simp only [lexical,decide_eq_true_eq] at clean
    exact clean.begins
  | text value => exact begins_quote value
  | list items =>
    have brace : Begins "\x7b" := ⟨'\x7b',rfl,rfl⟩
    exact (brace.append _).append _
  | unary op operand =>
    simp only [lexical,Bool.and_eq_true] at clean
    have inner := source_begins operand clean.1
    cases op with
    | uAdd => exact inner
    | uSub =>
      have minus : Begins "-" := ⟨'-',rfl,rfl⟩
      exact minus.append _
    | not =>
      have negation : Begins "not " := ⟨'n',rfl,rfl⟩
      exact negation.append _
    | invert =>
      have call : Begins "bit32.bnot(" := ⟨'b',rfl,rfl⟩
      exact (call.append _).append _
  | compare op _ left right =>
    simp only [lexical,Bool.and_eq_true] at clean
    exact ((((source_begins left clean.1).append _).append _).append _).append _
  | conditional test body orElse =>
    simp only [lexical,Bool.and_eq_true] at clean
    exact ((((source_begins test clean.1.1).append _).append _).append _).append _
  | binary op left right =>
    simp only [lexical,Bool.and_eq_true] at clean
    exact begins_operation _ _ _ _ (source_begins left clean.1)
  | boolean op first more =>
    have group : Begins "(" := ⟨'(',rfl,rfl⟩
    exact (group.append _).append _
  | member object field =>
    simp only [lexical,Bool.and_eq_true] at clean
    have group : Begins "(" := ⟨'(',rfl,rfl⟩
    have inner := source_begins object clean.1
    rw [source,objectText]
    split
    · exact (((group.append _).append _).append _).append _
    · exact (inner.append _).append _
  | subscript object index =>
    simp only [lexical,Bool.and_eq_true] at clean
    exact (source_begins object clean.1.1).append _

theorem Begins.ne {text : String} (first : Begins text) {c : Char} (other : begins c = false) :
    ∀ d ∈ text.toList.head?, d ≠ c := by
  obtain ⟨d,front,start⟩ := first
  rintro _ same rfl
  rw [Option.mem_def.mp front] at same
  cases same
  rw [start] at other
  cases other

theorem shut_libraryCall (library function : String) (same : head = library ++ "." ++ function)
    (first : IsName library) (second : IsName function) :
    Shut (head ++ "(") [.name library,.dot,.name function,.leftParen] := by
  subst same
  exact (first.spelled.member second).closed shut_leftParen (by decide) (by decide)

section

variable {a b text : String} {xs ys ts : List Token}

theorem Spelled.between (inner : Spelled text ts) (first : Shut a xs) (last : Shut b ys)
    (given : b.toList ≠ []) (apart : Detached b.toList) :
    Shut (a ++ text ++ b) (xs ++ ts ++ ys) :=
  (first.before inner).closed last given apart

theorem Spelled.grouped (inner : Spelled text ts) :
    Shut (Compile.parenthesised text) (.leftParen :: ts ++ [.rightParen]) :=
  inner.between shut_leftParen shut_rightParen (by decide) (by decide)

theorem Spelled.joined (op : Operator) (same : sign = " " ++ op.spelling ++ " ")
    (first : Spelled a xs) (second : Spelled b ys) :
    Spelled (a ++ sign ++ b) (xs ++ [.operator op] ++ ys) := by
  subst same
  exact (first.closed (shut_operator op) (by simp) (by simp [Detached]; decide)).before second

theorem Spelled.operated (op : Operator) (first : Spelled a xs) (second : Spelled b ys) :
    Spelled (Compile.infixText op.spelling a b) (xs ++ [.operator op] ++ ys) := by
  simpa [Compile.infixText,String.append_assoc] using first.joined op rfl second

theorem Spelled.arguments (first : Spelled a xs) (second : Spelled b ys) (called : Shut head hs)
    (shut : Shut comma [.comma]) (given : comma.toList ≠ []) (apart : Detached comma.toList) :
    Shut (head ++ a ++ comma ++ b ++ ")") (hs ++ xs ++ [.comma] ++ ys ++ [.rightParen]) :=
  (((called.before first).closed shut given apart).before second).closed shut_rightParen (by decide)
    (by decide)

theorem spelled_intercalate (shut : Shut separator ts) (given : separator.toList ≠ [])
    (apart : Detached separator.toList) (spelled : List.Forall₂ Spelled texts rows)
    (first : Spelled a xs) :
    Spelled (String.intercalate separator (a :: texts)) (xs ++ rows.flatMap (ts ++ ·)) := by
  induction spelled generalizing a xs with
  | nil => simpa using first
  | cons next _ ih =>
    have front := first.closed shut given apart
    have whole := front.before (ih next)
    simpa [String.intercalate_cons_cons,String.append_assoc] using whole

end

theorem shut_separator : Shut ", " [.comma] := shut_comma.append shut_blank

theorem tokens_tail (xs : List Expr) : Expr.tail xs = (xs.map Expr.tokens).flatMap ([.comma] ++ ·) := by
  induction xs with
  | nil => rfl
  | cons x rest ih => simp [Expr.tail,ih]

theorem tokens_chain (op : Operator) (first : Expr) (more : List Expr) : (chainImage op first more).tokens =
      first.tokens ++ (more.map Expr.tokens).flatMap ([.operator op] ++ ·) := by
  induction more generalizing first with
  | nil => simp [chainImage]
  | cons x rest ih =>
    have later := ih (.binary op first x)
    simp only [chainImage,List.foldl_cons] at later ⊢
    simp [later,Expr.tokens]

theorem spelled_row (spelled : List.Forall₂ Spelled texts (xs.map Expr.tokens)) :
    Spelled (Text.commaSeparated texts) (Expr.row xs) := by
  cases xs with
  | nil =>
    cases spelled
    exact ⟨rfl,fun rest _ => by simp [Text.commaSeparated,Expr.row]⟩
  | cons x rest =>
    cases spelled with
    | cons first later =>
      rw [Expr.row,tokens_tail]
      exact spelled_intercalate shut_separator (by decide) (by decide) later first

theorem spelled_plain (supported : Compile.isSupported op = true) (first : Spelled a x.tokens)
    (second : Spelled b y.tokens) :
    Spelled ((Compile.binaryText? op a b).getD "") (plainImage op x y).tokens := by
  have called (function : String) {head : String} (same : head = "bit32" ++ "." ++ function)
      (valid : IsName function) :
      Spelled (Compile.callText head a b) (libraryCall "bit32" function [x,y]).tokens := by
    have shut := shut_libraryCall "bit32" function same (by decide) valid
    have whole := first.arguments second shut shut_separator (by decide) (by decide)
    simpa [libraryCall,Expr.tokens,Expr.row,Expr.tail,Compile.callText] using whole.spelled
  cases op with
  | add => exact first.operated .add second
  | sub => exact first.operated .sub second
  | mult => exact first.operated .mul second
  | div => exact first.operated .div second
  | mod => exact first.operated .mod second
  | pow => exact first.operated .pow second
  | floorDiv =>
    have head : Shut "math.floor(" [.name "math",.dot,.name "floor",.leftParen] :=
      shut_libraryCall "math" "floor" rfl (by decide) (by decide)
    have whole := (first.operated .div second).between head shut_rightParen (by decide) (by decide)
    simpa [plainImage,libraryCall,Expr.tokens,Expr.row,Expr.tail,Compile.binaryText?,
      Operator.spelling] using whole.spelled
  | lShift => exact called "lshift" rfl (by decide)
  | rShift => exact called "rshift" rfl (by decide)
  | bitOr => exact called "bor" rfl (by decide)
  | bitAnd => exact called "band" rfl (by decide)
  | bitXor => exact called "bxor" rfl (by decide)
  | matMult => cases supported

theorem spelled_operation (leftIsText rightIsText : Bool)
    (supported : Compile.isSupported op = true) (first : Spelled a x.tokens)
    (second : Spelled b y.tokens) :
    Spelled (operationText op leftIsText rightIsText a b)
      (operationImage op leftIsText rightIsText x y).tokens := by
  have plain : Spelled (Compile.parenthesised ((Compile.binaryText? op a b).getD ""))
      (Expr.group (plainImage op x y)).tokens :=
    (spelled_plain supported first second).grouped.spelled
  have repeated {c d : String} {z w : Expr} (first : Spelled c z.tokens) (second : Spelled d w.tokens) :
      Spelled ("string.rep(" ++ c ++ "," ++ d ++ ")") (libraryCall "string" "rep" [z,w]).tokens := by
    have head : Shut "string.rep(" [.name "string",.dot,.name "rep",.leftParen] :=
      shut_libraryCall "string" "rep" rfl (by decide) (by decide)
    have whole := first.arguments second head shut_comma (by decide) (by decide)
    simpa [libraryCall,Expr.tokens,Expr.row,Expr.tail] using whole.spelled
  have shown {c : String} {z : Expr} (inner : Spelled c z.tokens) :
      Spelled ("tostring(" ++ c ++ ")") (Expr.call (.name "tostring") [z]).tokens := by
    have word : Spelled "tostring" [.name "tostring"] := IsName.spelled (by decide)
    have head : Shut "tostring(" [.name "tostring",.leftParen] :=
      word.closed shut_leftParen (by decide) (by decide)
    have whole := inner.between head shut_rightParen (by decide) (by decide)
    simpa [Expr.tokens,Expr.row,Expr.tail] using whole.spelled
  cases op with
  | mult =>
    cases leftIsText with
    | true => exact repeated first second
    | false =>
      cases rightIsText with
      | true => exact repeated second first
      | false => exact plain
  | add =>
    cases leftIsText with
    | true =>
      cases rightIsText with
      | true => exact first.joined .concat rfl second
      | false =>
        have same : operationText .add true false a b = a ++ " .. " ++ ("tostring(" ++ b ++ ")") := by
          change a ++ (" .. " ++ "tostring(") ++ b ++ ")" = _
          simp only [String.append_assoc]
        rw [same]
        exact first.joined .concat rfl (shown second)
    | false =>
      cases rightIsText with
      | true =>
        have same : operationText .add false true a b = "tostring(" ++ a ++ ")" ++ " .. " ++ b := by
          change "tostring(" ++ a ++ (")" ++ " .. ") ++ b = _
          simp only [String.append_assoc]
        rw [same]
        exact (shown first).joined .concat rfl second
      | false => exact plain
  | _ => exact plain

theorem spelled_unary {op : UnaryOp} (inner : Spelled a x.tokens) (begins : Begins a)
    (single : op = .uSub → a.toList.head? ≠ some '-') :
    Spelled (Compile.unaryText op a) (unaryImage op x).tokens := by
  cases op with
  | uAdd => exact inner
  | uSub =>
    obtain ⟨c,front,-⟩ := begins
    refine inner.negated ⟨c,front,?_⟩
    rintro rfl
    exact single rfl front
  | not =>
    have word : Spelled "not" [.not] := word_spelled (by decide) (by decide) rfl
    have head : Shut "not " [.not] := word.closed shut_blank (by decide) (by decide)
    exact head.before inner
  | invert =>
    have head : Shut "bit32.bnot(" [.name "bit32",.dot,.name "bnot",.leftParen] :=
      shut_libraryCall "bit32" "bnot" rfl (by decide) (by decide)
    have whole := inner.between head shut_rightParen (by decide) (by decide)
    simpa [Compile.unaryText,unaryImage,libraryCall,Expr.tokens,Expr.row,Expr.tail] using whole.spelled

theorem comparison_spelling {op : CompareOp} (signed : (Compile.compareSign? op).isSome = true) :
    shownName (Compile.compareSign? op) = (comparisonOperator op).spelling := by
  cases op <;> first | rfl | cases signed

mutual

theorem source_spelled (e : Term) (accepted : e.accepted = true) (clean : e.lexical = true) :
    Spelled e.source e.image.tokens := by
  cases e with
  | name id =>
    simp only [lexical,decide_eq_true_eq] at clean
    exact clean.spelled
  | text value =>
    simp only [lexical] at clean
    refine ⟨by simp [source,image,Expr.tokens,spellings,Token.spelling],fun rest _ => ?_⟩
    rw [source,lex_quote,if_pos clean]
    rfl
  | list items =>
    have row := spelled_row (sources_spelled items accepted clean)
    have whole := row.between shut_leftBrace shut_rightBrace (by decide) (by decide)
    exact whole.spelled
  | unary op operand =>
    simp only [lexical,Bool.and_eq_true,Bool.not_eq_true',Bool.and_eq_false_iff] at clean
    refine spelled_unary (source_spelled operand accepted clean.1) (source_begins operand clean.1) ?_
    rintro rfl front
    simp [front] at clean
  | compare op signed left right =>
    simp only [lexical,Term.accepted,Bool.and_eq_true] at clean accepted
    rw [source,comparison_spelling signed]
    exact (source_spelled left accepted.1 clean.1).operated _ (source_spelled right accepted.2 clean.2)
  | conditional test body orElse =>
    simp only [lexical,Term.accepted,Bool.and_eq_true] at clean accepted
    have first := source_spelled test accepted.1.1 clean.1.1
    have second := source_spelled body accepted.1.2 clean.1.2
    have third := source_spelled orElse accepted.2 clean.2
    exact (first.joined .and rfl second).joined .or rfl third
  | binary op left right =>
    simp only [lexical,Term.accepted,Bool.and_eq_true] at clean accepted
    exact spelled_operation _ _ accepted.1.1.1 (source_spelled left accepted.1.1.2 clean.1)
      (source_spelled right accepted.1.2 clean.2)
  | boolean op first more =>
    simp only [lexical,Term.accepted,Bool.and_eq_true] at clean accepted
    have spelling : Compile.boolSign op = " " ++ (boolOperator op).spelling ++ " " := by
      cases op <;> rfl
    have sign : Shut (Compile.boolSign op) [.operator (boolOperator op)] := spelling ▸ shut_operator _
    have apart : (Compile.boolSign op).toList ≠ [] ∧ Detached (Compile.boolSign op).toList := by
      cases op <;> decide
    have row := spelled_intercalate sign apart.1 apart.2
      (sources_spelled more accepted.2 clean.2) (source_spelled first accepted.1 clean.1)
    rw [← tokens_chain] at row
    exact row.grouped.spelled
  | member object field =>
    simp only [lexical,Bool.and_eq_true,decide_eq_true_eq] at clean
    have inner := source_spelled object accepted clean.1
    rw [source,image,objectText]
    cases Compile.isLiteralText object.source with
    | true => exact inner.grouped.spelled.member clean.2
    | false => exact inner.member clean.2
  | subscript object index =>
    simp only [lexical,Term.accepted,Bool.and_eq_true,beq_iff_eq] at clean accepted
    have first := source_spelled object accepted.1.2 clean.1.1
    have second := source_spelled index accepted.1.1 clean.1.2
    have begins := source_begins index clean.1.2
    have whole := first.indexed second (by
      obtain ⟨c,front,_⟩ := id begins
      exact ⟨c,front,begins.ne (by decide) c front,begins.ne (by decide) c front⟩)
    rw [source,Compile.indexText,clean.2]
    simpa [image,Expr.tokens,String.append_assoc] using whole.spelled

theorem sources_spelled (es : List Term) (accepted : allAccepted es = true) (clean : allLexical es = true) :
    List.Forall₂ Spelled (sources es) ((images es).map Expr.tokens) := by
  cases es with
  | nil => exact .nil
  | cons e rest =>
    simp only [allLexical,allAccepted,Bool.and_eq_true] at clean accepted
    exact .cons (source_spelled e accepted.1 clean.1) (sources_spelled rest accepted.2 clean.2)

end

theorem read_source {e : Term} (accepted : e.accepted = true) (clean : e.lexical = true)
    (fits : e.image.Fits) : read e.source = some e.image := by
  rw [read,(source_spelled e accepted clean).lexed]
  exact parse_tokens fits

end Luau

end LuauCompiler
