import LuauCompiler.Proofs.Expressions
import LuauCompiler.Proofs.IndexPieces
import LuauCompiler.Proofs.Lexemes
import Mathlib.Data.List.Forall2

/-! How many indexes a subscript gets. Where the parentheses in the names and texts of an expression are
paired, those in its text are, and the outer commas can be counted on the tree. -/
namespace LuauCompiler

namespace Text

/-! ## Parentheses -/

/-- Reads the text from a depth of parentheses on. Gives the depth at the end and the number of commas
at depth zero, unless more is closed than was opened. -/
def walk : (depth : Nat) → List Char → Option (Nat × Nat)
  | depth,[] => some (depth,0)
  | depth,c :: rest =>
    if c = '(' then walk (depth + 1) rest
    else if c = ')' then if depth = 0 then none else walk (depth - 1) rest
    else if c = ',' ∧ depth = 0 then (walk depth rest).map fun last => (last.1,last.2 + 1)
    else walk depth rest

/-- The text leads from one depth to another one, past `k` commas at depth zero. -/
def Walks (first : Nat) (text : String) (last k : Nat) : Prop := walk first text.toList = some (last,k)

abbrev Paired (text : String) (k : Nat) : Prop := Walks 0 text 0 k

/-- The number of commas outside of the parentheses of a text, if these are paired. -/
def pairedCommas? (text : String) : Option Nat :=
  match walk 0 text.toList with
  | some (0,k) => some k
  | _ => none

variable {k : Nat} {c : Char}

theorem paired_of_pairedCommas (counted : pairedCommas? text = some k) : Paired text k := by
  unfold pairedCommas? at counted
  split at counted
  · cases counted
    assumption
  · cases counted

theorem walk_append (depth : Nat) (xs ys : List Char) : walk depth (xs ++ ys) =
    (walk depth xs).bind fun m => (walk m.1 ys).map fun n => (n.1,m.2 + n.2) := by
  induction xs generalizing depth with
  | nil => simp [walk]
  | cons c xs ih =>
    simp only [List.cons_append,walk]
    split
    · exact ih _
    · split
      · split
        · rfl
        · exact ih _
      · split
        · rw [ih]
          cases walk depth xs <;> simp [Nat.add_right_comm,Function.comp_def]
        · exact ih _

theorem walk_deeper (walked : walk first cs = some (last,k)) (more : Nat) :
    walk (first + more + 1) cs = some (last + more + 1,0) := by
  induction cs generalizing first k with
  | nil =>
    cases walked
    rfl
  | cons c cs ih =>
    rw [walk] at walked ⊢
    split at walked <;> rename_i opens
    · have deeper := ih walked
      rw [if_pos opens]
      rw [show first + more + 1 + 1 = first + 1 + more + 1 by omega]
      exact deeper
    · rw [if_neg opens]
      split at walked <;> rename_i closes
      · rw [if_pos closes]
        split at walked
        · cases walked
        · have deeper := ih walked
          rw [if_neg (by omega),show first + more + 1 - 1 = first - 1 + more + 1 by omega]
          exact deeper
      · rw [if_neg closes,if_neg (by omega)]
        split at walked
        · obtain ⟨⟨_,_⟩,inner,same⟩ := Option.map_eq_some_iff.mp walked
          cases same
          exact ih inner
        · exact ih walked

theorem Walks.append (front : Walks first a middle j) (back : Walks middle b last k) :
    Walks first (a ++ b) last (j + k) := by
  rw [Walks] at *
  rw [String.toList_append,walk_append,front]
  simp [back]

theorem Walks.inside (paired : Paired text k) (depth : Nat) : Walks (depth + 1) text (depth + 1) 0 := by
  have deeper := walk_deeper paired depth
  simpa [Walks] using deeper

theorem Walks.past (front : Walks first a (d + 1) j) (paired : Paired text k) (back : Walks (d + 1) b last 0) :
    Walks first (a ++ text ++ b) last j :=
  (front.append (paired.inside d)).append back

theorem Walks.parenthesised (paired : Paired text k) : Paired ("(" ++ text ++ ")") 0 :=
  Walks.past rfl paired rfl

theorem length_outerCommas_append (walked : walk first cs = some (last,k))
    (depth : parenDepth front = first) :
    (outerCommas (front ++ cs)).length = (outerCommas front).length + k := by
  induction cs generalizing front first k with
  | nil =>
    cases walked
    simp
  | cons c cs ih =>
    have next := parenDepth_concat front c
    have counted := congrArg List.length (outerCommas_concat front c)
    rw [List.append_cons]
    rw [walk] at walked
    split at walked <;> rename_i opens
    · subst opens
      rw [ih walked (by simp [next,depth]),counted]
      simp
    · split at walked <;> rename_i closes
      · subst closes
        split at walked
        · cases walked
        · rw [ih walked (by simp [next,depth]; omega),counted]
          simp
      · have same : parenDepth (front ++ [c]) = first := by simp [next,opens,closes,depth]
        split at walked <;> rename_i outer
        · obtain ⟨⟨_,_⟩,inner,ends⟩ := Option.map_eq_some_iff.mp walked
          cases ends
          rw [ih inner same,counted]
          simp [outer,depth]
          omega
        · rw [ih walked same,counted,if_neg (by rw [depth]; simpa using outer)]
          simp

theorem Walks.count (paired : Paired text k) : (outerCommas text.toList).length = k := by
  have counted := length_outerCommas_append paired (show parenDepth [] = (0 : Nat) from rfl)
  simpa [outerCommas,commas] using counted

/-! ## Texts without parentheses and quoted texts -/

def isBare (c : Char) : Bool := c != '(' && c != ')' && c != ','

theorem walk_bare (bare : ∀ c ∈ cs, isBare c = true) (depth : Nat) (rest : List Char) :
    walk depth (cs ++ rest) = walk depth rest := by
  induction cs with
  | nil => rfl
  | cons c cs ih =>
    have plain := bare c List.mem_cons_self
    simp only [isBare,Bool.and_eq_true,bne_iff_ne] at plain
    rw [List.cons_append,walk,if_neg plain.1.1,if_neg plain.1.2,if_neg (by simp [plain.2]),
      ih fun d member => bare d (List.mem_cons_of_mem _ member)]

theorem walks_bare (bare : ∀ c ∈ text.toList, isBare c = true) (depth : Nat) :
    Walks depth text depth 0 := by
  have walked := walk_bare bare depth []
  rwa [List.append_nil] at walked

theorem isBare_of_isHexDigit (digit : Luau.isHexDigit c = true) : isBare c = true := by
  have other (d : Char) (sign : Luau.isHexDigit d = false) : c ≠ d := by
    rintro rfl
    simp [digit] at sign
  simp [isBare,other '(' rfl,other ')' rfl,other ',' rfl]

theorem isBare_of_isDigit (digit : c.isDigit = true) : isBare c = true :=
  isBare_of_isHexDigit (by simp [Luau.isHexDigit,digit])

theorem isBare_of_mem_escape (member : d ∈ escape c) : isBare d = true := by
  have named {letters : List Char} (bare : letters.all isBare = true) (inside : d ∈ letters) :
      isBare d = true := List.all_eq_true.mp bare d inside
  have numbered {letter : Char} {width : Nat} (bare : isBare letter = true)
      (inside : d ∈ '\\' :: letter :: hex width c.toNat) : isBare d = true := by
    rcases List.mem_cons.mp inside with rfl | inside
    · rfl
    · rcases List.mem_cons.mp inside with rfl | digit
      · exact bare
      · exact isBare_of_isHexDigit (Luau.isHexDigit_of_mem_hex width c.toNat digit)
  unfold escape numericEscape at member
  repeat' split at member
  · exact named rfl member
  · exact named rfl member
  · exact named rfl member
  · exact named rfl member
  · exact numbered rfl member
  · exact numbered rfl member
  · exact numbered rfl member

theorem walk_quoteChar (isMark : Luau.IsMark mark) (c : Char) (depth : Nat) (rest : List Char) :
    walk depth (quoteChar mark c ++ rest) = walk depth (c :: rest) := by
  have bareMark : isBare mark = true := by rcases isMark with rfl | rfl <;> rfl
  have single (bare : isBare c = true) : walk depth (c :: rest) = walk depth rest := by
    rw [← List.singleton_append,walk_bare (by simpa using bare)]
  unfold quoteChar
  split
  · rename_i same
    subst same
    rw [walk_bare (by simpa [isBare] using bareMark),single bareMark]
  · split
    · rename_i escaped
      have other (d : Char) (plain : (d = '\\' || !isPrintable d) = false) : c ≠ d := by
        rintro rfl
        simp [escaped] at plain
      have bare : isBare c = true := by
        simp [isBare,other '(' (by decide),other ')' (by decide),other ',' (by decide)]
      rw [walk_bare fun d member => isBare_of_mem_escape member,single bare]
    · rfl

theorem walk_quote (text : String) (depth : Nat) :
    walk depth (quote text).toList = walk depth text.toList := by
  have isMark := Luau.isMark_quotationMark text.toList
  have bareMark : isBare (quotationMark text.toList) = true := by
    rcases isMark with same | same <;> rw [same] <;> rfl
  have inner (cs rest : List Char) (depth : Nat) :
      walk depth (cs.flatMap (quoteChar (quotationMark text.toList)) ++ rest) = walk depth (cs ++ rest) := by
    induction cs generalizing depth with
    | nil => rfl
    | cons c cs ih =>
      rw [List.flatMap_cons,List.append_assoc,walk_quoteChar isMark,List.cons_append]
      simp only [walk,ih]
  have mark : ∀ c ∈ [quotationMark text.toList], isBare c = true := by simpa using bareMark
  have closing := walk_append depth text.toList [quotationMark text.toList]
  have spelled : (quote text).toList = [quotationMark text.toList] ++
      (text.toList.flatMap (quoteChar (quotationMark text.toList)) ++ [quotationMark text.toList]) := by
    simp [quote,quoteChars]
  rw [spelled,walk_bare mark,inner,closing]
  cases walk depth text.toList with
  | none => rfl
  | some last =>
    have ends := walk_bare mark last.1 []
    rw [List.append_nil] at ends
    rw [Option.bind_some,ends]
    rfl

/-! ## Rows -/

/-- The outer commas of a row, given those of its items: one more stands between each two. -/
def rowCommas : List Nat → Nat
  | [] => 0
  | [k] => k
  | k :: rest => k + 1 + rowCommas rest

theorem Walks.row (paired : List.Forall₂ Paired texts counts) :
    Paired (commaSeparated texts) (rowCommas counts) := by
  unfold commaSeparated
  induction paired with
  | nil => rfl
  | @cons text k texts counts first rest ih =>
    cases rest with
    | nil => simpa [rowCommas] using first
    | cons =>
      rw [String.intercalate_cons_cons,rowCommas]
      · exact (first.append (show Walks 0 ", " 0 1 from rfl)).append ih
      · simp

end Text

open Text

/-! ## The commas of an expression -/

def Constant.indexCommas? : Constant → Option Nat
  | .str text => pairedCommas? text
  | .float x => pairedCommas? x.text
  | .complex re im => pairedCommas? (Double.complexText re im)
  | .bytes _ => Option.none
  | .none | .bool _ | .int _ | .ellipsis => some 0

mutual

/-- The number of outer commas in the text of an expression, where the tree tells it. A sum of texts
has no parentheses of its own, and a subscript may lose commas: there no part may have any. -/
def Node.indexCommas? : Node → Option Nat
  | .name (some id) _ => pairedCommas? id
  | .constant value _ => value.indexCommas?
  | .list elts _ | .set elts => (indexCommasEach? elts).map rowCommas
  | .dict keys values => do
    let keys ← indexCommasEach? keys
    let values ← indexCommasEach? values
    return rowCommas (List.zipWith (· + ·) keys values)
  | .tuple elts _ => (indexCommasEach? elts).map fun _ => 0
  | .call func args _ => do
    let commas ← func.indexCommas?
    let _ ← indexCommasEach? args
    if (Compile.listMethod? func).isSome then none else return commas
  | .binOp left op right => do
    let l ← left.indexCommas?
    let r ← right.indexCommas?
    if op.binaryOp? = some .add ∧ ¬(l = 0 ∧ r = 0) then none else return 0
  | .unaryOp op operand => do
    let commas ← operand.indexCommas?
    return if op.unaryOp? = some .invert then 0 else commas
  | .boolOp _ values => (indexCommasEach? values).map fun _ => 0
  | .compare left _ comparators => do
    let l ← left.indexCommas?
    let others ← indexCommasEach? comparators
    if l = 0 ∧ ∀ k ∈ others, k = 0 then return 0 else none
  | .ifExp test body orElse => do
    let t ← test.indexCommas?
    let b ← body.indexCommas?
    let e ← orElse.indexCommas?
    return t + b + e
  | .attribute value (some attr) _ => do
    let commas ← value.indexCommas?
    let more ← pairedCommas? attr
    if commas = 0 then return more else none
  | .subscript value slice _ => do
    let commas ← value.indexCommas?
    let inner ← slice.indexCommas?
    if inner = 0 then return commas else none
  | .slice lower upper step => do
    let _ ← lower.indexCommas?
    let _ ← upper.indexCommas?
    let _ ← step.indexCommas?
    return 0
  | .starred value _ => value.indexCommas?.map fun _ => 0
  | .absent => some 0
  | _ => none

def indexCommasEach? : List Node → Option (List Nat)
  | [] => some []
  | n :: rest => do
    let commas ← n.indexCommas?
    let others ← indexCommasEach? rest
    return commas :: others

end

namespace Compile

theorem length_indexText (index : String) :
    (indexText index).length = index.length + (outerCommas index.toList).length + 2 := by
  have bracket (piece : List Char) : ("[" ++ String.ofList piece ++ "]").length = piece.length + 2 := by
    rw [String.length_append,String.length_append]
    change 1 + (String.ofList piece).length + 1 = _
    rw [String.length_ofList]
    omega
  have brackets (cs : List Char) : (String.join ((splitIndex cs).map fun piece => "[" ++ String.ofList piece ++ "]")).length =
      cs.length + (splitIndex cs).length + 1 := by
    induction cs using splitIndex_induction with
    | whole cs => simpa using bracket cs
    | cut front rest pieces later =>
      rw [List.map_cons,String.join_cons,String.length_append,bracket,later]
      simp only [List.length_append,List.length_cons]
      omega
  rw [indexText,brackets,length_splitIndex,String.length_toList]
  omega

theorem indexText_whole_iff (index : String) :
    indexText index = "[" ++ index ++ "]" ↔ outerCommas index.toList = [] := by
  constructor
  · intro whole
    have counted := length_indexText index
    rw [whole,String.length_append,String.length_append] at counted
    change 1 + index.length + 1 = _ at counted
    exact List.eq_nil_of_length_eq_zero (by omega)
  · intro none
    rw [indexText,splitIndex_eq_cutFirst,none]
    simp [cutFirst]

/-- The step adds one line, whose parentheses are paired and whose outer commas are counted. -/
abbrev Prints (k : Nat) (c : Compile Unit) : Prop :=
  Says Quiet (fun _ => True) (fun lines => ∃ text, lines = [text] ∧ Paired text k) c

theorem Prints.emit {text : String} (paired : Paired text k) : Prints k (Compile.emit text) :=
  Says.emit ⟨text,rfl,paired⟩

theorem Prints.text (step : Prints k c) : Tells Quiet (fun _ => True) (Paired · k) (inline c) :=
  Says.inline step fun _ ⟨text,same,paired⟩ => by
    rw [same,String.intercalate_singleton]
    exact paired

theorem inlineEach_counts (steps : List.Forall₂ (fun c k => Prints k c) cs counts) :
    Tells Quiet (fun _ => True) (List.Forall₂ Paired · counts) (inlineEach cs) := by
  induction steps with
  | nil => exact .pure .nil
  | cons first _ ih =>
    exact .bind (Prints.text first) fun text paired => .bind ih fun texts others =>
      .pure (.cons paired others)

/-! ### Texts of the rules -/

variable {k : Nat} {c left right value : Compile Unit}

theorem prints_of_mem (counted : List.Forall₂ (fun c k => Prints k c) steps counts)
    (member : c ∈ steps) : ∃ k ∈ counts, Prints k c := by
  induction counted with
  | nil => cases member
  | cons first rest ih =>
    rcases List.mem_cons.mp member with rfl | member
    · exact ⟨_,List.mem_cons_self,first⟩
    · obtain ⟨k,count,step⟩ := ih member
      exact ⟨k,List.mem_cons_of_mem _ count,step⟩

theorem paired_quote (paired : Paired text k) : Paired (Text.quote text) k := (walk_quote text 0).trans paired

theorem paired_integer (n : Int) : Paired (toString n) 0 := by
  have digits (n : Nat) : ∀ c ∈ (toString n).toList, isBare c = true := by
    intro c member
    rw [Nat.toString_eq_ofList_toDigits,String.toList_ofList] at member
    exact isBare_of_isDigit (Nat.isDigit_of_mem_toDigits (by decide) (by decide) member)
  cases n with
  | ofNat n => exact walks_bare (digits n) 0
  | negSucc n => exact (show Walks 0 "-" 0 0 from rfl).append (walks_bare (digits (n + 1)) 0)

theorem paired_signed (sign : String) (plain : Paired sign 0) (left : Paired l j) (right : Paired r k) :
    Paired (infixText sign l r) (j + k) := by
  have blank : Walks 0 " " 0 0 := rfl
  have joined := (((left.append blank).append plain).append blank).append right
  simpa [infixText] using joined

theorem paired_call (function : String) (plain : Walks 0 (function ++ "(") 1 0) (left : Paired l j)
    (right : Paired r k) : Paired (callText function l r) 0 :=
  Walks.past (plain.past left rfl) right rfl

def binaryForms (op : BinaryOp) (left right : String) : List String :=
  (binaryText? op left right).toList.map parenthesised ++ match op with
    | .add => [left ++ " .. " ++ right,left ++ " .. tostring(" ++ right ++ ")",
        "tostring(" ++ left ++ ") .. " ++ right]
    | .mult => ["string.rep(" ++ left ++ "," ++ right ++ ")","string.rep(" ++ right ++ "," ++ left ++ ")"]
    | _ => []

theorem binaryOperation_forms [Calm R] (leftNode op rightNode : Node)
    (first : Tells R I T (inline left)) (second : Tells R I U (inline right))
    (closed : ∀ kind l r text, op.binaryOp? = some kind → T l → U r → text ∈ binaryForms kind l r → P [text]) :
    Says R I P (binaryOperation leftNode op rightNode left right) := by
  have known : Tells R I (fun kind => op.binaryOp? = some kind) (binaryOperator op) := by
    unfold binaryOperator
    split
    · exact .ite (fun _ => .pure ‹_›) fun _ => .fail _
    · exact .fail _
  refine .after known fun kind same => .after first fun l hl => .after second fun r hr => ?_
  have plain (kind : BinaryOp) : Tells R I (· ∈ binaryForms kind l r) (plainBinary kind l r) := by
    unfold plainBinary
    split <;> rename_i written
    · exact .pure (by simp [binaryForms,written])
    · exact .fail _
  have product : Tells R I (· ∈ binaryForms .mult l r) (product leftNode rightNode l r) :=
    .bind (isText_tells _ _) fun _ _ => .ite (fun _ => .pure (by simp [binaryForms])) fun _ =>
      .bind (isText_tells _ _) fun _ _ => .ite (fun _ => .pure (by simp [binaryForms])) fun _ => plain .mult
  have sum : Tells R I (· ∈ binaryForms .add l r) (sum leftNode rightNode l r) := by
    refine .bind (isListLike_tells _ _) fun _ _ => .ite
      (fun _ => .bind (isListLike_tells _ _) fun _ _ => .guarded (T := fun _ => True) (.reject _) ?_)
      fun _ => ?_
    all_goals
      refine .bind (isText_tells _ _) fun a _ => .bind (isText_tells _ _) fun b _ => ?_
      cases a <;> cases b
      · exact plain .add
      all_goals exact .pure (by simp [binaryForms])
  split
  · exact .after product fun text form => .emit (closed _ l r text same hl hr form)
  · exact .after sum fun text form => .emit (closed _ l r text same hl hr form)
  · exact .after (plain kind) fun text form => .emit (closed _ l r text same hl hr form)

theorem paired_operation (left : Paired l j) (right : Paired r k) (bare : op = .add → j = 0 ∧ k = 0)
    (form : text ∈ binaryForms op l r) : Paired text 0 := by
  have signed (sign : String) (plain : Paired sign 0) : Paired (parenthesised (infixText sign l r)) 0 :=
    Walks.parenthesised (paired_signed sign plain left right)
  have called (function : String) (plain : Walks 0 (function ++ "(") 1 0) :
      Paired (parenthesised (callText function l r)) 0 :=
    Walks.parenthesised (paired_call function plain left right)
  have repeated {x y : String} {m n : Nat} (first : Paired x m) (second : Paired y n) :
      Paired ("string.rep(" ++ x ++ "," ++ y ++ ")") 0 :=
    Walks.past (Walks.past rfl first rfl) second rfl
  cases op with
  | add =>
    obtain ⟨rfl,rfl⟩ := bare rfl
    simp [binaryForms,binaryText?] at form
    rcases form with rfl | rfl | rfl | rfl
    · exact signed "+" rfl
    · exact (left.append (show Walks 0 " .. " 0 0 from rfl)).append right
    · exact (left.append (show Walks 0 " .. tostring(" 1 0 from rfl)).past right rfl
    · have front : Paired ("tostring(" ++ l ++ ") .. ") 0 := Walks.past rfl left rfl
      exact front.append right
  | mult =>
    simp [binaryForms,binaryText?] at form
    rcases form with rfl | rfl | rfl
    · exact signed "*" rfl
    · exact repeated left right
    · exact repeated right left
  | matMult => cases form
  | floorDiv =>
    rw [List.mem_singleton.mp form]
    have inner := paired_signed "/" rfl left right
    exact Walks.parenthesised (Walks.past rfl inner rfl)
  | sub | div | mod | pow =>
    rw [List.mem_singleton.mp form]
    exact signed _ rfl
  | lShift | rShift | bitOr | bitAnd | bitXor =>
    rw [List.mem_singleton.mp form]
    exact called _ rfl

theorem paired_link (left : Paired l 0) (right : Paired r 0) (linked : LinkText l r text) :
    Paired text 0 := by
  cases linked with
  | member m negated =>
    have test : Paired (m.text l r) 0 := by
      cases m with
      | inList | inText | asKey => exact Walks.past (Walks.past rfl right rfl) left rfl
    have front : Walks 0 (if negated then "not" else "") 0 0 := by cases negated <;> rfl
    exact front.append test
  | signed op =>
    refine paired_signed _ ?_ left right
    rcases op with _ | op
    · rfl
    · cases op <;> rfl

theorem indexText_of_paired (paired : Paired index 0) : indexText index = "[" ++ index ++ "]" :=
  (indexText_whole_iff index).mpr (List.eq_nil_of_length_eq_zero paired.count)

theorem unaryText_prints (op : UnaryOp) (paired : Paired text k) :
    Paired (unaryText op text) (if op = .invert then 0 else k) := by
  cases op with
  | uSub => simpa [unaryText] using (show Walks 0 "-" 0 0 from rfl).append paired
  | uAdd => exact paired
  | not => simpa [unaryText] using (show Walks 0 "not " 0 0 from rfl).append paired
  | invert =>
    exact Walks.past rfl paired rfl

theorem bracedList_prints (paired : List.Forall₂ Paired texts counts) :
    Paired (bracedList texts) (rowCommas counts) := by
  have row := ((show Walks 0 "\x7b" 0 0 from rfl).append (Walks.row paired)).append
    (show Walks 0 "\x7d" 0 0 from rfl)
  simpa [bracedList] using row

theorem constant_prints (c : Constant) (counted : c.indexCommas? = some k) : Prints k (constant c) := by
  cases c with
  | str value =>
    have paired := paired_of_pairedCommas counted
    refine .after .frame fun f _ => .ite (fun _ => Prints.emit ?_) fun _ => Prints.emit (paired_quote paired)
    have comment := ((show Walks 0 "--[[ " 0 0 from rfl).append paired).append
      (show Walks 0 " ]]" 0 0 from rfl)
    simpa using comment
  | none | ellipsis =>
    cases counted
    exact .emit rfl
  | bool b =>
    cases counted
    cases b <;> exact .emit rfl
  | bytes => cases counted
  | int n =>
    cases counted
    refine .after (.ofExcept (P := (Paired · 0)) fun text shown => ?_) fun _ paired => Prints.emit paired
    change Constant.intText n = .ok text at shown
    unfold Constant.intText at shown
    split at shown
    · cases shown
    · cases shown
      exact paired_integer n
  | float x =>
    refine .after (.ofExcept (P := (Paired · k)) fun text shown => ?_) fun _ paired => Prints.emit paired
    cases shown
    exact paired_of_pairedCommas counted
  | complex re im =>
    refine .after (.ofExcept (P := (Paired · k)) fun text shown => ?_) fun _ paired => Prints.emit paired
    cases shown
    exact paired_of_pairedCommas counted

/-! ### Rules -/

theorem binaryOperation_prints (leftNode op rightNode : Node) (first : Prints j left)
    (second : Prints k right) (bare : op.binaryOp? = some .add → j = 0 ∧ k = 0) :
    Prints 0 (binaryOperation leftNode op rightNode left right) :=
  binaryOperation_forms leftNode op rightNode (Prints.text first) (Prints.text second)
    fun _ _ _ text known left right form =>
      ⟨text,rfl,paired_operation left right (fun same => bare (known.trans (congrArg some same))) form⟩

theorem unaryOperation_prints (op : Node) (step : Prints k operand) :
    Prints (if op.unaryOp? = some .invert then 0 else k) (unaryOperation op operand) := by
  unfold unaryOperation
  cases op.unaryOp? with
  | none => exact .fail _
  | some unary =>
    refine .after (Prints.text step) fun text paired => Prints.emit ?_
    simpa using unaryText_prints unary paired

theorem paired_chain (plain : Walks 1 sign 1 0) (paired : List.Forall₂ Paired texts counts) :
    Walks 1 (String.intercalate sign texts) 1 0 := by
  induction paired with
  | nil => rfl
  | cons first rest ih =>
    cases rest with
    | nil => simpa using first.inside 0
    | cons =>
      rw [String.intercalate_cons_cons]
      exact ((first.inside 0).append plain).append ih

theorem boolOperation_prints (op : Node) (steps : List.Forall₂ (fun c k => Prints k c) values counts) :
    Prints 0 (boolOperation op values) := by
  refine .after (inlineEach_counts steps) fun texts paired => ?_
  split
  · rename_i sign _
    have plain : Walks 1 (boolSign sign) 1 0 := by cases sign <;> rfl
    exact Prints.emit (((show Walks 0 "(" 1 0 from rfl).append (paired_chain plain paired)).append
      (show Walks 1 ")" 0 0 from rfl))
  · exact .fail _

theorem comparison_prints (ops : List Node) (first : Prints 0 left)
    (steps : ∀ p ∈ comparators, Prints 0 p.2) : Prints 0 (comparison left ops comparators) := by
  cases ops with
  | nil => exact .after (Prints.text first) fun _ _ => Prints.emit rfl
  | cons op ops =>
    refine comparison_writes (T := (Paired · 0)) (U := (Paired · 0)) (Prints.text first)
      (fun p member => Prints.text (steps p member))
      (fun _ _ _ left right linked => paired_link left right linked)
      (fun _ _ hx hy => (hx.append (show Walks 0 " and " 0 0 from rfl)).append hy)
      fun text paired => ⟨text,rfl,paired⟩

theorem memberAccess_prints (step : Prints 0 value) (named : Paired attr k) :
    Prints k (memberAccess value (some attr)) := by
  refine .after (Prints.text step) fun text paired => Prints.emit ?_
  have object : Paired (if isLiteralText text then "(" ++ text ++ ")" else text) 0 := by
    split
    · exact Walks.parenthesised paired
    · exact paired
  simpa [shownName] using (object.append (show Walks 0 "." 0 0 from rfl)).append named

theorem subscript_prints {slice : Compile Unit} (first : Prints k value) (second : Prints 0 slice) :
    Prints k (subscript value slice) := by
  refine .after (Prints.text second) fun index whole => .after (Prints.text first) fun name paired => ?_
  have emitted : Prints k (emit (name ++ indexText index)) := by
    rw [indexText_of_paired whole]
    refine Prints.emit ?_
    simpa using paired.append (((show Walks 0 "[" 0 0 from rfl).append whole).append
      (show Walks 0 "]" 0 0 from rfl))
  exact .ite (fun _ => .after (T := fun _ => True) (.reject _) fun _ _ => emitted) fun _ => emitted

theorem plainCall_prints (args : List Node) (keywords : List NamedArgument)
    (noMethod : listMethod? funcNode = none) (first : Prints k func)
    (second : List.Forall₂ (fun c k => Prints k c) argRuns counts) :
    Prints k (call none funcNode args func argRuns keywords) := by
  refine .after (Prints.text first) fun name paired => .guarded (.needs _) ?_
  refine .after (inlineEach_counts second) fun texts all => ?_
  rw [noMethod]
  exact Prints.emit ((paired.append (show Walks 0 "(" 1 0 from rfl)).past (Walks.row all) rfl)

theorem dictDisplay_prints (first : List.Forall₂ (fun c k => Prints k c) keys ks)
    (second : List.Forall₂ (fun c k => Prints k c) values vs) :
    Prints (rowCommas (List.zipWith (· + ·) ks vs)) (dictDisplay keys values) := by
  have entries {xs ys : List String} {ks vs : List Nat} (keys : List.Forall₂ Paired xs ks)
      (values : List.Forall₂ Paired ys vs) : List.Forall₂ Paired
        (List.zipWith (fun k v => "[" ++ k ++ "] = " ++ v) xs ys) (List.zipWith (· + ·) ks vs) := by
    induction keys generalizing ys vs with
    | nil => exact .nil
    | cons key keys ih =>
      cases values with
      | nil => exact .nil
      | cons value values =>
        refine .cons ?_ (ih values)
        simpa using (((show Walks 0 "[" 0 0 from rfl).append key).append
          (show Walks 0 "] = " 0 0 from rfl)).append value
  have listed {xs ys : List String} (keys : List.Forall₂ Paired xs ks)
      (values : List.Forall₂ Paired ys vs) : Prints (rowCommas (List.zipWith (· + ·) ks vs)) (do
        needs "dict"
        emit ("dict " ++ bracedList (List.zipWith (fun k v => "[" ++ k ++ "] = " ++ v) xs ys))
        needs "dict") := by
    have row := (show Walks 0 "dict " 0 0 from rfl).append (bracedList_prints (entries keys values))
    rw [Nat.zero_add] at row
    exact .after (.needs _) fun _ _ => .append (Q := fun lines => lines = []) (Prints.emit row)
      (.of_tells (.needs _) rfl) fun xs ys hx hy => by simpa [hy] using hx
  exact .after (inlineEach_counts first) fun xs hx => .after (inlineEach_counts second) fun ys hy =>
    .ite (fun _ => .after (T := fun _ => True) (.fail _) fun _ _ => listed hx hy) fun _ => listed hx hy

theorem part_prints (step : Prints k c) :
    Tells Quiet (fun _ => True) (fun text => ∃ m, Paired text m) (bound (part? n c)) := by
  unfold part?
  split
  · exact .pure ⟨0,rfl⟩
  · exact (Prints.text step).mono fun _ paired => ⟨k,paired⟩

/-! ### Trees -/

theorem both_of_bind {x : Option α} {y : α → Option β} {f : α → β → Option γ}
    (found : (x.bind fun a => (y a).bind (f a)) = some z) : ∃ a b, x = some a ∧ y a = some b ∧ f a b = some z := by
  obtain ⟨a,first,rest⟩ := Option.bind_eq_some_iff.mp found
  obtain ⟨b,second,last⟩ := Option.bind_eq_some_iff.mp rest
  exact ⟨a,b,first,second,last⟩

mutual

theorem visit_prints (config : Option Config) (n : Node) {k : Nat} (counted : n.indexCommas? = some k) :
    Prints k (visit config n) := by
  cases n with
  | absent => exact .fail _
  | name id =>
    cases id with
    | none => cases counted
    | some id => exact Prints.emit (paired_of_pairedCommas counted)
  | constant value => exact constant_prints value counted
  | list elts | set elts =>
    obtain ⟨counts,each,rfl⟩ := Option.map_eq_some_iff.mp counted
    exact .after (inlineEach_counts (visits_print config elts each)) fun _ paired =>
      Prints.emit (bracedList_prints paired)
  | tuple elts =>
    obtain ⟨counts,each,rfl⟩ := Option.map_eq_some_iff.mp counted
    exact .after (inlineEach_counts (visits_print config elts each)) fun _ paired =>
      Prints.emit (Walks.past rfl (bracedList_prints paired) rfl)
  | boolOp op values =>
    obtain ⟨counts,each,rfl⟩ := Option.map_eq_some_iff.mp counted
    exact boolOperation_prints op (visits_print config values each)
  | unaryOp op operand =>
    obtain ⟨m,inner,rest⟩ := Option.bind_eq_some_iff.mp counted
    cases rest
    exact unaryOperation_prints op (visit_prints config operand inner)
  | starred value =>
    obtain ⟨m,inner,rfl⟩ := Option.map_eq_some_iff.mp counted
    exact .after (Prints.text (visit_prints config value inner)) fun text paired =>
      Prints.emit (Walks.past rfl paired rfl)
  | binOp left op right =>
    obtain ⟨a,b,first,second,rest⟩ := both_of_bind counted
    split at rest
    · cases rest
    · rename_i bare
      cases rest
      exact binaryOperation_prints _ _ _ (visit_prints config left first)
        (visit_prints config right second) (by simpa using bare)
  | ifExp test body orElse =>
    obtain ⟨a,b,first,second,rest⟩ := both_of_bind counted
    obtain ⟨c,third,rest⟩ := Option.bind_eq_some_iff.mp rest
    cases rest
    refine .after (Prints.text (visit_prints config test first)) fun x hx =>
      .after (Prints.text (visit_prints config body second)) fun y hy =>
      .after (Prints.text (visit_prints config orElse third)) fun z hz => Prints.emit ?_
    simpa using (((hx.append (show Walks 0 " and " 0 0 from rfl)).append hy).append
      (show Walks 0 " or " 0 0 from rfl)).append hz
  | slice lower upper step =>
    obtain ⟨a,b,first,second,rest⟩ := both_of_bind counted
    obtain ⟨c,third,rest⟩ := Option.bind_eq_some_iff.mp rest
    cases rest
    refine .after (part_prints (visit_prints config lower first)) fun x ⟨_,hx⟩ =>
      .after (part_prints (visit_prints config upper second)) fun y ⟨_,hy⟩ =>
      .after (part_prints (visit_prints config step third)) fun z ⟨_,hz⟩ => Prints.emit ?_
    exact Walks.past (Walks.past (Walks.past rfl hx rfl) hy rfl) hz rfl
  | subscript value slice =>
    obtain ⟨a,b,first,second,last⟩ := both_of_bind counted
    split at last
    · rename_i bare
      cases last
      subst bare
      exact subscript_prints (visit_prints config value first) (visit_prints config slice second)
    · cases last
  | compare left ops comparators =>
    obtain ⟨a,others,first,second,last⟩ := both_of_bind counted
    split at last
    · rename_i bare
      cases last
      obtain ⟨rfl,zeros⟩ := bare
      refine comparison_prints ops (visit_prints config left first) fun p member => ?_
      obtain ⟨k,count,step⟩ :=
        prints_of_mem (visits_print config comparators second) (List.of_mem_zip member).2
      rwa [zeros k count] at step
    · cases last
  | call func args keywords =>
    obtain ⟨a,others,first,second,rest⟩ := both_of_bind counted
    split at rest
    · cases rest
    · rename_i method
      cases rest
      exact plainCall_prints args _ (by simpa using method) (visit_prints config func first)
        (visits_print config args second)
  | «attribute» value attr =>
    cases attr with
    | none => cases counted
    | some attr =>
      obtain ⟨a,b,first,second,last⟩ := both_of_bind counted
      split at last
      · rename_i bare
        cases last
        subst bare
        exact memberAccess_prints (visit_prints config value first) (paired_of_pairedCommas second)
      · cases last
  | dict keys values =>
    obtain ⟨ks,vs,first,second,rest⟩ := both_of_bind counted
    cases rest
    exact dictDisplay_prints (visits_print config keys first) (visits_print config values second)
  | _ => cases counted

theorem visits_print (config : Option Config) (ns : List Node) {counts : List Nat}
    (counted : indexCommasEach? ns = some counts) :
    List.Forall₂ (fun c k => Prints k c) (visits config ns) counts := by
  cases ns with
  | nil =>
    cases counted
    exact .nil
  | cons n rest =>
    obtain ⟨k,others,first,second,more⟩ := both_of_bind counted
    cases more
    exact .cons (visit_prints config n first) (visits_print config rest second)

end

/-! ### The index of a subscript -/

/-- A subscript is the text of the object and that of the index in brackets exactly if the text of the
index has no comma outside of parentheses. How many there are, the tree of the index tells where the
parentheses in its names and texts are paired: a tuple or a call has none of its own, a display has one
between each two items, and a text constant has those of the text. -/
theorem subscript_whole_iff {config : Option Config} {value slice access : Node} {s t : State}
    (run : Gives (visit config (.subscript value slice access)) s () t) :
    ∃ (before : List Code) (index name : String) (u v : State), s.output = .block before ∧
      Gives (inline (visit config slice)) s index u ∧ Gives (inline (visit config value)) u name v ∧
      t.output = .block (before ++ [.line (name ++ indexText index)]) ∧
      (name ++ indexText index = name ++ "[" ++ index ++ "]" ↔ outerCommas index.toList = []) ∧
      ∀ k, slice.indexCommas? = some k → (splitIndex index.toList).length = k + 1 ∧
        (name ++ indexText index = name ++ "[" ++ index ++ "]" ↔ k = 0) := by
  change Gives (subscript _ _) s () t at run
  simp only [subscript,gives_bind] at run
  obtain ⟨index,u,sliced,name,v,named,run⟩ := run
  have emitted : Gives (emit (name ++ indexText index)) v () t := by
    split at run
    · simp at run
    · exact run
  have kept : v.output = s.output := by
    obtain ⟨_,_,-,-,-,rfl⟩ := gives_inline.mp named
    obtain ⟨_,_,-,-,-,rfl⟩ := gives_inline.mp sliced
    rfl
  obtain ⟨before,out,rfl⟩ := gives_emit.mp emitted
  have whole : name ++ indexText index = name ++ "[" ++ index ++ "]" ↔ outerCommas index.toList = [] := by
    rw [String.append_assoc,String.append_assoc,String.append_right_inj,← String.append_assoc,
      indexText_whole_iff]
  refine ⟨before,index,name,u,v,kept ▸ out,sliced,named,rfl,whole,fun k counted => ?_⟩
  have count : (outerCommas index.toList).length = k :=
    ((Prints.text (visit_prints config slice counted)).run _ _ _ trivial sliced).2.2.count
  exact ⟨by rw [length_splitIndex,count],by rw [whole,← List.length_eq_zero_iff,count]⟩

/-- The commas between the arguments and those in the tuple are inner ones. -/
theorem subscript_by_call_whole :
    let slice : Node := .call (.name (some "f") .absent)
      [.name (some "a") .absent,.tuple [.name (some "b") .absent,.constant (.str "c(,)") none] .absent] []
    let n : Node := .subscript (.name (some "x") .absent) slice .absent
    let s := State.initial .empty
    let t := (visit none n s).2
    Gives (visit none n) s () t ∧ slice.indexCommas? = some 0 ∧
      ∃ (before : List Code) (index name : String) (u v : State), s.output = .block before ∧
        Gives (inline (visit none slice)) s index u ∧
        Gives (inline (visit none (.name (some "x") .absent))) u name v ∧
        t.output = .block (before ++ [.line (name ++ indexText index)]) ∧
        (name ++ indexText index = name ++ "[" ++ index ++ "]" ↔ outerCommas index.toList = []) ∧
        ∀ k, slice.indexCommas? = some k → (splitIndex index.toList).length = k + 1 ∧
          (name ++ indexText index = name ++ "[" ++ index ++ "]" ↔ k = 0) := by
  intro slice n s t
  have run : Gives (visit none n) s () t := gives_of_isOk (by decide +kernel)
  exact ⟨run,by decide +kernel,subscript_whole_iff run⟩

/-- A comma in a key is taken for one between two indexes. -/
theorem subscript_by_text_split :
    let slice : Node := .constant (.str "a,b") none
    let n : Node := .subscript (.name (some "x") .absent) slice .absent
    let s := State.initial .empty
    (visit none n s).1.isOk = true ∧ (visit none n s).2.output = .block [.line "x['a][b']"] ∧
      (inline (visit none slice) s).1.toOption = some "'a,b'" ∧
      "x['a][b']" ≠ "x" ++ "[" ++ "'a,b'" ++ "]" := by
  decide +kernel

end Compile

end LuauCompiler
