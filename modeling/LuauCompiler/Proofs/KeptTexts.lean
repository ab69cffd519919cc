import LuauCompiler.Proofs.IndexTexts
import LuauCompiler.Proofs.SourceTexts

/-! An expression has two texts: its source text and the text it is compiled to. Whether they are the same
can be told from the tree in most cases. Signs and parentheses decide for operations: compiled arithmetic
and Boolean operations always stand in parentheses, in the source they do so only where their place asks
for it. -/
namespace LuauCompiler

open Text Source Compile

/-! ## What the tree tells -/

variable {same : Bool} {w : Writer}

/-- The text of a name, or of a name with attributes. -/
def Node.word? : Node → Option String
  | .name (some id) _ => some id
  | .attribute value (some attr) _ => do
    let word ← value.word?
    if isLiteralText word then none else return word ++ "." ++ attr
  | _ => none

/-- Whether the texts of a constant are the same. -/
def Constant.keeps? (kind : Option String) (c : Constant) : Option Bool :=
  if kind = some "u" then Option.none
  else match c with
  | .none | .bool _ => some false
  | .int _ | .str _ | .ellipsis => some true
  | .float _ | .complex .. => if (valueText false c).toOption = c.display.toOption then some true else Option.none
  | .bytes _ => Option.none

/-- Whether the texts of an operation are the same, given whether those of its operands are. -/
def UnaryOp.keeps? (op : UnaryOp) (enclosed inner : Bool) : Option Bool :=
  match op with
  | .invert => some false
  | .uAdd => if enclosed then none else some false
  | .uSub | .not => if enclosed then none else some inner

def BinaryOp.keeps? (op : BinaryOp) (enclosed left right : Bool) : Option Bool :=
  match op with
  | .sub | .div | .mod => some (enclosed && (left && right))
  | .add | .mult => if enclosed then none else some false
  | .matMult => none
  | _ => some false

def CompareOp.keeps (op : CompareOp) (left right : Bool) : Bool :=
  match op with
  | .eq | .lt | .ltE | .gt | .gtE => left && right
  | _ => false

/-- The levels of the operands of a binary operation. -/
def leftLevel (op : BinaryOp) : Level := if op = .pow then (binaryLevel op).next else binaryLevel op

def rightLevel (op : BinaryOp) : Level := if op = .pow then binaryLevel op else (binaryLevel op).next

mutual

/-- Whether the compiled text of an expression is its source text in a place, where the tree tells. -/
def Node.keeps? (place : Level) : Node → Option Bool
  | .name (some _) _ => some true
  | .constant value kind => value.keeps? kind
  | .attribute value attr access => (Node.attribute value attr access).word?.map fun _ => true
  | .unaryOp op operand => do
    let op ← op.unaryOp?
    let inner ← operand.keeps? (unaryLevel op)
    op.keeps? (unaryLevel op < place) inner
  | .binOp left op right => do
    let op ← op.binaryOp?
    let l ← left.keeps? (leftLevel op)
    let r ← right.keeps? (rightLevel op)
    op.keeps? (binaryLevel op < place) l r
  | .boolOp op values => do
    let op ← op.boolOp?
    let same ← keepsRising? (boolLevel op) values
    return boolLevel op < place && same
  | .compare left [op] [right] => do
    let op ← op.compareOp?
    let l ← left.keeps? Level.compare.next
    let r ← right.keeps? Level.compare.next
    if Level.compare < place then none else return op.keeps l r
  | .call func args [] => do
    let f ← func.keeps? Level.atom
    let a ← keepsEach? args
    if (listMethod? func).isSome then none else return f && a
  | .subscript value slice _ => do
    let v ← value.keeps? Level.atom
    let i ← slice.keeps? Level.test
    if slice.indexCommas? = some 0 ∧ (tupleElements slice).isEmpty then return v && i else none
  | .list elts _ | .tuple elts _ => (keepsEach? elts).map fun _ => false
  | .set elts => (keepsEach? elts).map fun same => same && !elts.isEmpty
  | .starred value _ => (value.keeps? Level.bitOr).map fun _ => false
  | _ => none

def keepsEach? : List Node → Option Bool
  | [] => some true
  | n :: rest => do
    let first ← n.keeps? Level.test
    let others ← keepsEach? rest
    return first && others

/-- Each at a tighter level than the one before. -/
def keepsRising? (level : Level) : List Node → Option Bool
  | [] => some true
  | n :: rest => do
    let first ← n.keeps? level.next
    let others ← keepsRising? level.next rest
    return first && others

end

/-! ## Texts of operations -/

theorem weight_signs : weight "(" = 1 ∧ weight ")" = 0 ∧ weight "[" = -1 ∧ weight "+" = -1 ∧ weight "*" = -2 ∧
    weight "~" = -1 ∧ weight " " = 0 ∧ weight "," = 0 ∧ weight ", " = 0 ∧ weight "\x7b" = 1 ∧ weight "\x7d" = 0 := by
  decide

section Weights

variable (l r text : String)

theorem weight_infixText (sign : String) : weight (infixText sign l r) = weight l + weight sign + weight r := by
  simp only [infixText,weight_append,weight_signs]
  omega

theorem weight_parenthesised : weight (parenthesised text) = weight text + 1 := by
  simp only [parenthesised,weight_append,weight_signs]
  omega

theorem weight_call (function : String) :
    weight (callText function l r) = weight function + 1 + weight l + weight r := by
  simp only [callText,weight_append,weight_signs]
  omega

theorem weight_member (m : Membership) (negated : Bool) :
    weight l + weight r < weight ((if negated then "not" else "") ++ m.text l r) := by
  have front : weight (if negated then "not" else "") = 0 := by cases negated <;> rfl
  rw [weight_append,front]
  cases m with
  | inList =>
    change _ < 0 + weight ("(table.find(" ++ r ++ ", " ++ l ++ ") ~= nil)")
    simp only [weight_append,weight_signs,show weight "(table.find(" = 2 from rfl,
      show weight ") ~= nil)" = 1 from rfl]
    omega
  | inText =>
    change _ < 0 + weight ("(string.find(" ++ r ++ ", " ++ l ++ ", 1, true) ~= nil)")
    simp only [weight_append,weight_signs,show weight "(string.find(" = 2 from rfl,
      show weight ", 1, true) ~= nil)" = 1 from rfl]
    omega
  | asKey =>
    change _ < 0 + weight ("(" ++ r ++ "[" ++ l ++ "] ~= nil)")
    simp only [weight_append,weight_signs,show weight "] ~= nil)" = 1 from rfl]
    omega

end Weights

def sourceOperation (enclosed : Bool) (sign a b : String) : String :=
  if enclosed then "(" ++ (a ++ (" " ++ sign ++ " " ++ b)) ++ ")" else a ++ (" " ++ sign ++ " " ++ b)

theorem weight_sourceOperation (enclosed : Bool) (sign a b : String) :
    weight (sourceOperation enclosed sign a b) =
      weight a + weight sign + weight b + if enclosed then 1 else 0 := by
  cases enclosed <;>
  · simp only [sourceOperation,weight_append,weight_signs,Bool.false_eq_true,if_false,if_true]
    omega

section Operations

variable {text : String}

theorem operation_compared (left : Compared i a l) (right : Compared j b r)
    (form : text ∈ binaryForms op l r) (told : op.keeps? enclosed i j = some same) :
    Compared same (sourceOperation enclosed (binarySign op) a b) text := by
  have front := left.le
  have back := right.le
  have source := weight_sourceOperation enclosed (binarySign op) a b
  have extra : (if enclosed then (1 : Int) else 0) ≤ 1 := by cases enclosed <;> decide
  have heavier (more : weight a + weight (binarySign op) + weight b + 1 < weight text) :
      Compared false (sourceOperation enclosed (binarySign op) a b) text := by
    change weight _ < weight _
    omega
  have looser (loose : enclosed = false) (more : weight a + weight (binarySign op) + weight b < weight text) :
      Compared false (sourceOperation enclosed (binarySign op) a b) text := by
    subst loose
    simp only [Bool.false_eq_true,if_false] at source
    change weight _ < weight _
    omega
  have called (function : String) (plain : weight function = 0) (sign : weight (binarySign op) ≤ 0)
      (form : text = parenthesised (callText function l r)) :
      Compared false (sourceOperation enclosed (binarySign op) a b) text := by
    apply heavier
    rw [form,weight_parenthesised,weight_call]
    omega
  have signed (sign : String) (known : binarySign op = sign) (form : text = parenthesised (infixText sign l r)) :
      Compared (enclosed && (i && j)) (sourceOperation enclosed (binarySign op) a b) text := by
    subst form
    cases enclosed with
    | true =>
      have joined := ((Compared.refl "(").append (left.append
        ((Compared.refl (" " ++ sign ++ " ")).append right))).append (Compared.refl ")")
      simpa [known,sourceOperation,parenthesised,infixText,String.append_assoc] using joined
    | false =>
      apply looser rfl
      rw [known,weight_parenthesised,weight_infixText]
      omega
  cases op with
  | sub | div | mod =>
    cases told
    exact signed _ rfl (List.mem_singleton.mp form)
  | pow =>
    cases told
    apply heavier
    rw [List.mem_singleton.mp form,weight_parenthesised,weight_infixText,show weight "^" = 0 from rfl,
      show weight (binarySign .pow) = -4 from rfl]
    omega
  | floorDiv =>
    cases told
    apply heavier
    rw [List.mem_singleton.mp form,weight_parenthesised,weight_append,weight_append,weight_infixText,
      show weight "math.floor(" = 1 from rfl,show weight ")" = 0 from rfl,show weight "/" = 0 from rfl,
      show weight (binarySign .floorDiv) = 0 from rfl]
    omega
  | lShift | rShift | bitOr | bitAnd | bitXor =>
    cases told
    exact called _ rfl (by decide) (List.mem_singleton.mp form)
  | matMult => cases told
  | add =>
    cases enclosed with
    | true => cases told
    | false =>
      cases told
      apply looser rfl
      rw [show weight (binarySign .add) = -1 from rfl]
      simp [binaryForms,binaryText?] at form
      rcases form with rfl | rfl | rfl | rfl
      · rw [weight_parenthesised,weight_infixText,show weight "+" = -1 from rfl]
        omega
      all_goals
        simp only [weight_append,weight_signs,show weight " .. " = 0 from rfl,
          show weight " .. tostring(" = 1 from rfl,show weight "tostring(" = 1 from rfl,
          show weight ") .. " = 0 from rfl]
        omega
  | mult =>
    cases enclosed with
    | true => cases told
    | false =>
      cases told
      apply looser rfl
      rw [show weight (binarySign .mult) = -2 from rfl]
      simp [binaryForms,binaryText?] at form
      rcases form with rfl | rfl | rfl
      · rw [weight_parenthesised,weight_infixText,show weight "*" = -2 from rfl]
        omega
      all_goals
        simp only [weight_append,weight_signs,show weight "string.rep(" = 1 from rfl]
        omega

def LinkForm (op : CompareOp) (left right text : String) : Prop :=
  match compareSign? op with
  | some sign => text = infixText sign left right
  | none => ∃ (m : Membership) (negated : Bool), text = (if negated then "not" else "") ++ m.text left right

theorem comparison_compared (left : Compared i a l) (right : Compared j b r) (form : LinkForm op l r text) :
    Compared (op.keeps i j) (a ++ (" " ++ compareSign op ++ " " ++ b)) text := by
  have front := left.le
  have back := right.le
  have source : weight (a ++ (" " ++ compareSign op ++ " " ++ b)) = weight a + weight (compareSign op) + weight b := by
    simp only [weight_append,weight_signs]
    omega
  have heavier (more : weight l + weight (compareSign op) + weight r < weight text) :
      Compared false (a ++ (" " ++ compareSign op ++ " " ++ b)) text := by
    change weight _ < weight _
    omega
  have other (sign : String) (lighter : weight (compareSign op) < weight sign) (form : text = infixText sign l r) :
      Compared false (a ++ (" " ++ compareSign op ++ " " ++ b)) text := by
    apply heavier
    rw [form,weight_infixText]
    omega
  have signed {sign : String} (known : compareSign op = sign) (form : text = infixText sign l r) :
      Compared (i && j) (a ++ (" " ++ compareSign op ++ " " ++ b)) text := by
    have joined := left.append ((Compared.refl (" " ++ sign ++ " ")).append right)
    simpa [known,form,infixText,String.append_assoc] using joined
  cases op with
  | eq | lt | ltE | gt | gtE => exact signed rfl form
  | notEq | isNot => exact other "~=" (by decide) form
  | is => exact other "==" (by decide) form
  | isIn | notIn =>
    obtain ⟨m,negated,rfl⟩ := form
    apply heavier
    rw [show weight (compareSign _) = 0 from rfl]
    have more := weight_member l r m negated
    omega

end Operations

/-! ## What is printed and what is compiled -/

/-- What the writer puts, compared with a text. -/
def Twins (w : Writer) (same : Bool) (text : String) : Prop :=
  ∃ source, w.Puts source ∧ Compared same source text

inductive TwinsEach : List Writer → Bool → List String → Prop where
  | nil : TwinsEach [] true []
  | cons {w : Writer} (first : Twins w i text) (rest : TwinsEach ws j texts) :
    TwinsEach (w :: ws) (i && j) (text :: texts)

theorem TwinsEach.sources (row : TwinsEach ws same texts) :
    ∃ sources, List.Forall₂ Writer.Puts ws sources ∧ ∀ separator,
      Compared same (String.intercalate separator sources) (String.intercalate separator texts) := by
  induction row with
  | nil => exact ⟨[],.nil,fun _ => rfl⟩
  | cons first rest ih =>
    obtain ⟨source,put,compared⟩ := first
    obtain ⟨sources,puts,others⟩ := ih
    refine ⟨source :: sources,.cons put puts,fun separator => ?_⟩
    cases rest with
    | nil =>
      cases puts
      simpa using compared
    | cons =>
      cases puts
      rw [String.intercalate_cons_cons,String.intercalate_cons_cons]
      simpa using (compared.append (Compared.refl separator)).append (others separator)

theorem TwinsEach.separated (row : TwinsEach ws same texts) (separator : String) :
    Twins (Writer.separated separator ws) same (String.intercalate separator texts) := by
  obtain ⟨sources,puts,compared⟩ := row.sources
  exact ⟨_,Writer.Puts.separated puts separator,compared separator⟩

theorem Twins.between (inner : Twins w same text) (start stop : String) :
    Twins (Writer.between start stop w) same (start ++ text ++ stop) := by
  obtain ⟨source,put,compared⟩ := inner
  refine ⟨_,put.between start stop,?_⟩
  simpa using ((Compared.refl start).append compared).append (Compared.refl stop)

theorem Twins.heavier (inner : Twins w same text) (start stop : String)
    (puts : ∀ source, w.Puts source → v.Puts (start ++ source ++ stop))
    (more : weight start + weight stop < weight start' + weight stop') :
    Twins v false (start' ++ text ++ stop') := by
  obtain ⟨source,put,compared⟩ := inner
  refine ⟨_,puts source put,?_⟩
  have le := compared.le
  change weight _ < weight _
  simp only [weight_append]
  omega

theorem word_puts (n : Node) (given : n.word? = some word) (place : Level) :
    Writer.Puts (print n false place) word := by
  cases n with
  | name id =>
    cases id with
    | none => cases given
    | some id =>
      cases given
      exact Writer.Puts.write _
  | «attribute» value attr =>
    cases attr with
    | none => cases given
    | some attr =>
      obtain ⟨front,known,rest⟩ := Option.bind_eq_some_iff.mp given
      have whole : isWholeNumber value = false := by
        cases value <;> first | rfl | cases known
      have put := (word_puts value known Level.atom).cons (Writer.Puts.nothing.cons
        ((Writer.Puts.write ".").cons (Writer.Puts.write attr).single))
      split at rest
      · cases rest
      · cases rest
        change Writer.Puts (Writer.inOrder [print value false Level.atom,
          if isWholeNumber value then Writer.write " " else Writer.nothing,Writer.write ".",
          Writer.write attr]) _
        rw [whole]
        simpa [String.append_assoc] using put
  | _ => cases given

theorem word_keeps {n : Node} {word : String} (given : n.word? = some word) (place : Level) :
    n.keeps? place = some true := by
  cases n with
  | name id =>
    cases id with
    | none => cases given
    | some id => rfl
  | «attribute» value attr access => exact congrArg (Option.map fun _ => true) given
  | _ => cases given

theorem constant_puts (unmarked : kind ≠ some "u") (spelled : valueText false c = .ok text) :
    Writer.Puts (Writer.inOrder [kindMark kind,writeValue false c]) text := by
  have same : writeValue false c = Writer.write text := by
    funext page
    rw [writeValue,spelled]
    rfl
  rw [kindMark,if_neg unmarked,same]
  simpa using Writer.Puts.nothing.cons (Writer.Puts.write text).single

/-! ### Rules -/

/-- The step adds one line, which is compared with what the writer puts. -/
abbrev Tallies (w : Writer) (same : Bool) (c : Compile Unit) : Prop :=
  Says Quiet (fun f => f.docstring = false) (fun lines => ∃ text, lines = [text] ∧ Twins w same text) c

theorem Tallies.emit {text : String} (twins : Twins w same text) : Tallies w same (Compile.emit text) :=
  Says.emit ⟨text,rfl,twins⟩

theorem Tallies.text (step : Tallies w same c) :
    Tells Quiet (fun f => f.docstring = false) (Twins w same) (inline c) :=
  Says.inline step fun _ ⟨text,only,twins⟩ => by
    rw [only,String.intercalate_singleton]
    exact twins

theorem constant_tallies (c : Constant) (kind : Option String) (kept : c.keeps? kind = some same) :
    Tallies (Source.constant false kind c) same (Compile.constant c) := by
  unfold Constant.keeps? at kept
  split at kept
  · cases kept
  rename_i unmarked
  have word {c : Constant} {word text : String} (spelled : valueText false c = .ok word)
      (heavier : weight word < weight text) :
      Tallies (Writer.inOrder [kindMark kind,writeValue false c]) false (Compile.emit text) :=
    Tallies.emit ⟨_,constant_puts unmarked spelled,heavier⟩
  have number {c : Constant} (agree : (valueText false c).toOption = c.display.toOption) :
      Tallies (Writer.inOrder [kindMark kind,writeValue false c]) true (ofExcept c.display >>= Compile.emit) := by
    refine .after (.ofExcept (P := fun text => c.display = .ok text) fun _ shown => shown) fun text shown =>
      Tallies.emit ⟨text,constant_puts unmarked ?_,rfl⟩
    rw [shown] at agree
    cases spelled : valueText false c with
    | ok other => simpa [spelled,Except.toOption] using agree
    | error => simp [spelled,Except.toOption] at agree
  cases c with
  | none =>
    cases kept
    exact word rfl (by decide)
  | bool b =>
    cases kept
    cases b <;> exact word rfl (by decide)
  | ellipsis =>
    cases kept
    exact Tallies.emit ⟨_,Writer.Puts.write "...",rfl⟩
  | str value =>
    cases kept
    have put := constant_puts unmarked (show valueText false (.str value) = .ok (quote value) from rfl)
    exact textConstant_writes value fun f plain => by
      rw [plain]
      exact ⟨_,rfl,_,put,rfl⟩
  | int n =>
    cases kept
    exact number rfl
  | bytes => cases kept
  | float x =>
    change (if _ then some true else none) = some same at kept
    split at kept <;> cases kept
    exact number ‹_›
  | complex re im =>
    change (if _ then some true else none) = some same at kept
    split at kept <;> cases kept
    exact number ‹_›

variable {op : Node}

theorem mark_of_unary (known : op.unaryOp? = some kind) : op = .mark (.unary kind) := by
  unfold Node.unaryOp? at known
  split at known <;> cases known
  rfl

theorem mark_of_binary (known : op.binaryOp? = some kind) : op = .mark (.binary kind) := by
  unfold Node.binaryOp? at known
  split at known <;> cases known
  rfl

theorem mark_of_bool (known : op.boolOp? = some kind) : op = .mark (.bool kind) := by
  unfold Node.boolOp? at known
  split at known <;> cases known
  rfl

theorem mark_of_compare (known : op.compareOp? = some kind) : op = .mark (.compare kind) := by
  unfold Node.compareOp? at known
  split at known <;> cases known
  rfl

section Rules

theorem unaryOperation_tallies {op : UnaryOp} (inner : Tallies w i c)
    (told : op.keeps? (unaryLevel op < place) i = some same) :
    Tallies (Writer.enclosed (unaryLevel op) place (Writer.inOrder [Writer.write (unarySign op),w])) same
      (unaryOperation (.mark (.unary op)) c) := by
  refine .after (Tallies.text inner) fun text twins => Tallies.emit ?_
  obtain ⟨source,put,compared⟩ := twins
  refine ⟨_,((Writer.Puts.write _).cons put.single).enclosed _ place,?_⟩
  have le := compared.le
  by_cases tight : unaryLevel op < place
  · rw [if_pos tight]
    cases op with
    | invert =>
      cases told
      change weight ("(" ++ ("~" ++ source) ++ ")") < weight ("bit32.bnot(" ++ text ++ ")")
      simp only [weight_append,weight_signs,show weight "bit32.bnot(" = 1 from rfl]
      omega
    | uAdd | uSub | not => simp [UnaryOp.keeps?,tight] at told
  · rw [if_neg tight]
    simp only [tight,decide_false] at told
    cases op with
    | invert =>
      cases told
      change weight ("~" ++ source) < weight ("bit32.bnot(" ++ text ++ ")")
      simp only [weight_append,weight_signs,show weight "bit32.bnot(" = 1 from rfl]
      omega
    | uAdd =>
      cases told
      change weight ("+" ++ source) < weight text
      rw [weight_append,show weight "+" = -1 from rfl]
      omega
    | uSub =>
      cases told
      simpa [unarySign,unaryText] using (Compared.refl "-").append compared
    | not =>
      cases told
      simpa [unarySign,unaryText] using (Compared.refl "not ").append compared

theorem binaryOperation_tallies {op : BinaryOp} (left right : Node) (first : Tallies w i c) (second : Tallies v j d)
    (told : op.keeps? (binaryLevel op < place) i j = some same) :
    Tallies (Writer.enclosed (binaryLevel op) place (Writer.inOrder [w,Writer.write (" " ++ binarySign op ++ " "),v]))
      same (binaryOperation left (.mark (.binary op)) right c d) := by
  refine binaryOperation_forms left _ right (Tallies.text first) (Tallies.text second)
    fun kind l r text known leftTwins rightTwins form => ⟨text,rfl,?_⟩
  cases known
  obtain ⟨a,putLeft,leftCompared⟩ := leftTwins
  obtain ⟨b,putRight,rightCompared⟩ := rightTwins
  have put := (putLeft.cons ((Writer.Puts.write (" " ++ binarySign op ++ " ")).cons
    putRight.single)).enclosed (binaryLevel op) place
  have compared := operation_compared leftCompared rightCompared form told
  refine ⟨_,put,?_⟩
  simpa [sourceOperation] using compared

theorem boolOperation_tallies {op : BoolOp}
    (row : Tells Quiet (fun f => f.docstring = false) (TwinsEach ws i) (inlineEach cs)) :
    Tallies (Writer.enclosed (boolLevel op) place (Writer.separated (" " ++ boolWord op ++ " ") ws))
      (boolLevel op < place && i) (boolOperation (.mark (.bool op)) cs) := by
  refine .after row fun texts twins => Tallies.emit ?_
  have sign : boolSign op = " " ++ boolWord op ++ " " := by cases op <;> rfl
  rw [sign]
  have inner := twins.separated (" " ++ boolWord op ++ " ")
  by_cases tight : boolLevel op < place
  · rw [decide_eq_true tight,Bool.true_and,Writer.enclosed,if_pos tight]
    exact inner.between "(" ")"
  · rw [decide_eq_false tight,Bool.false_and,Writer.enclosed,if_neg tight]
    exact inner.heavier "" "" (fun source put => by simpa using put) (by decide)

theorem link_tells_form (op : CompareOp) (right : Node) (l r : String) :
    Tells Quiet (fun f => f.docstring = false) (LinkForm op l r) (link (.mark (.compare op)) right l r) := by
  have member (negated : Bool) : Tells Quiet (fun f => f.docstring = false)
      (fun text => ∃ (m : Membership) (negated : Bool), text = (if negated then "not" else "") ++ m.text l r)
      (membershipLink negated right l r) :=
    .bind (membership_tells _) fun m _ => .pure ⟨m,negated,rfl⟩
  cases op with
  | isIn => exact member false
  | notIn => exact member true
  | _ => exact .pure rfl

theorem comparison_tallies {op : CompareOp} (right : Node) (first : Tallies w i c) (second : Tallies v j d) :
    Tallies (Writer.inOrder [w,Writer.inOrder [Writer.inOrder [Writer.write (" " ++ compareSign op ++ " "),v]]])
      (op.keeps i j) (comparison c [.mark (.compare op)] [(right,d)]) := by
  refine .after (Tallies.text first) fun l leftTwins => .after (T := Twins _ (op.keeps i j)) ?_
    fun _ twins => Tallies.emit twins
  refine .bind (Tallies.text second) fun r rightTwins => .bind (link_tells_form op right l r) fun text form =>
    .ite (fun _ => .pure ?_) fun more => absurd rfl more
  obtain ⟨a,putLeft,leftCompared⟩ := leftTwins
  obtain ⟨b,putRight,rightCompared⟩ := rightTwins
  exact ⟨_,putLeft.cons ((Writer.Puts.write _).cons putRight.single).single.single,
    comparison_compared leftCompared rightCompared form⟩

theorem call_tallies (args : List Node) (plain : listMethod? func = none) (first : Tallies w i c)
    (row : Tells Quiet (fun f => f.docstring = false) (TwinsEach ws j) (inlineEach cs)) :
    Tallies (Writer.inOrder [w,Writer.between "(" ")" (Writer.commaSeparated ws)]) (i && j)
      (call none func args c cs []) := by
  refine .after (Tallies.text first) fun name twins => .guarded (.needs _) ?_
  refine .after row fun texts each => ?_
  rw [plain]
  obtain ⟨source,put,compared⟩ := twins
  obtain ⟨inner,putInner,others⟩ := (each.separated ", ").between "(" ")"
  refine Tallies.emit ⟨_,put.cons putInner.single,?_⟩
  simpa [commaSeparated,String.append_assoc] using compared.append others

theorem subscript_tallies {slice : Node} (whole : slice.indexCommas? = some 0)
    (first : Tallies w i c) (second : Tallies v j (visit config slice)) :
    Tallies (Writer.inOrder [w,Writer.between "[" "]" v]) (i && j) (subscript c (visit config slice)) := by
  have index : Tells Quiet (fun f => f.docstring = false) (fun index => Twins v j index ∧ Paired index 0)
      (inline (visit config slice)) := by
    refine ⟨fun s index t frame run => ?_⟩
    obtain ⟨related,out,twins⟩ := (Tallies.text second).run s index t frame run
    exact ⟨related,out,twins,((Prints.text (visit_prints config slice whole)).run s index t trivial run).2.2⟩
  refine .after index fun index ⟨sliceTwins,paired⟩ => .after (Tallies.text first) fun name twins => ?_
  have emitted : Tallies (Writer.inOrder [w,Writer.between "[" "]" v]) (i && j) (emit (name ++ indexText index)) := by
    obtain ⟨source,put,compared⟩ := twins
    obtain ⟨inner,putInner,others⟩ := sliceTwins.between "[" "]"
    rw [indexText_of_paired paired]
    exact Tallies.emit ⟨_,put.cons putInner.single,compared.append others⟩
  exact .ite (fun _ => .after (T := fun _ => True) (.reject _) fun _ _ => emitted) fun _ => emitted

theorem tuple_twins (row : TwinsEach (atLevel false Level.test (printers elts)) same texts) (place : Level) :
    Twins (print (.tuple elts access) false place) false ("table.freeze(" ++ bracedList texts ++ ")") := by
  obtain ⟨source,put,le⟩ : ∃ source, Writer.Puts (elements false (printers elts)) source ∧
      weight source ≤ weight (commaSeparated texts) := by
    obtain ⟨sources,puts,compared⟩ := row.sources
    have le := (compared ", ").le
    unfold elements
    split <;> rename_i shape
    · change atLevel false Level.test (printers elts) = _ at shape
      rw [shape] at puts
      cases puts with
      | cons put none =>
        cases none
        refine ⟨_,put.cons (Writer.Puts.write ",").single,?_⟩
        rw [String.intercalate_singleton] at le
        rw [weight_append,show weight "," = 0 from rfl,Int.add_zero]
        exact le
    · exact ⟨_,Writer.Puts.separated puts ", ",le⟩
  have heavier {source' : String} (light : weight source' ≤ weight source + 1) :
      Compared false source' ("table.freeze(" ++ bracedList texts ++ ")") := by
    change weight _ < weight _
    simp only [bracedList,weight_append,weight_signs,show weight "table.freeze(" = 1 from rfl]
    omega
  have enclosed : weight ("(" ++ source ++ ")") ≤ weight source + 1 := by
    simp only [weight_append,weight_signs]
    omega
  change Twins (if elts.isEmpty then Writer.between "(" ")" (elements false (printers elts))
    else Writer.enclosed Level.tuple place (elements false (printers elts))) _ _
  split
  · exact ⟨_,put.between "(" ")",heavier enclosed⟩
  · refine ⟨_,put.enclosed Level.tuple place,heavier ?_⟩
    split
    · exact enclosed
    · omega

end Rules

/-! ### Trees -/

mutual

theorem visit_tallies (config : Option Config) (n : Node) {place : Level} {same : Bool}
    (kept : n.keeps? place = some same) : Tallies (print n false place) same (visit config n) := by
  cases n with
  | name id =>
    cases id with
    | none => cases kept
    | some id =>
      cases kept
      exact Tallies.emit ⟨id,Writer.Puts.write id,rfl⟩
  | constant value kind => exact constant_tallies value kind kept
  | «attribute» value attr access =>
    obtain ⟨word,given,rfl⟩ := Option.map_eq_some_iff.mp kept
    cases attr with
    | none => cases given
    | some attr =>
      obtain ⟨front,known,rest⟩ := Option.bind_eq_some_iff.mp given
      have inner := visit_tallies config value (word_keeps known 0)
      refine .after (Tallies.text inner) fun text ⟨source,put,alike⟩ => ?_
      obtain rfl : source = text := alike
      obtain rfl := put.unique (word_puts value known 0)
      split at rest <;> rename_i literal
      · cases rest
      · cases rest
        rw [if_neg literal]
        exact Tallies.emit ⟨_,word_puts _ given place,rfl⟩
  | unaryOp op operand =>
    obtain ⟨kind,inner,known,here,told⟩ := both_of_bind kept
    obtain rfl := mark_of_unary known
    exact unaryOperation_tallies (visit_tallies config operand here) told
  | binOp left op right =>
    obtain ⟨kind,i,known,first,rest⟩ := both_of_bind kept
    obtain ⟨j,second,told⟩ := Option.bind_eq_some_iff.mp rest
    obtain rfl := mark_of_binary known
    have printed : print (.binOp left (.mark (.binary kind)) right) false place =
        Writer.enclosed (binaryLevel kind) place (Writer.inOrder [print left false (leftLevel kind),
          Writer.write (" " ++ binarySign kind ++ " "),print right false (rightLevel kind)]) := by
      cases kind <;> rfl
    rw [printed]
    exact binaryOperation_tallies left right (visit_tallies config left first)
      (visit_tallies config right second) told
  | boolOp op values =>
    obtain ⟨kind,row,known,each,told⟩ := both_of_bind kept
    obtain rfl := mark_of_bool known
    cases told
    exact boolOperation_tallies (visits_rise config values each)
  | compare left ops comparators =>
    rcases ops with _ | ⟨op,_ | _⟩ <;> rcases comparators with _ | ⟨right,_ | _⟩ <;> try cases kept
    obtain ⟨kind,i,known,first,rest⟩ := both_of_bind kept
    obtain ⟨j,second,told⟩ := Option.bind_eq_some_iff.mp rest
    obtain rfl := mark_of_compare known
    split at told <;> rename_i tight
    · cases told
    · cases told
      change Tallies (Writer.enclosed Level.compare place _) _ _
      rw [Writer.enclosed,if_neg tight]
      exact comparison_tallies right (visit_tallies config left first) (visit_tallies config right second)
  | call func args keywords =>
    cases keywords with
    | cons => cases kept
    | nil =>
      obtain ⟨i,j,first,each,told⟩ := both_of_bind kept
      split at told <;> rename_i method
      · cases told
      · cases told
        change Tallies (Writer.inOrder [print func false Level.atom,Writer.between "(" ")"
          (Writer.commaSeparated (plain false (printers args ++ [])))]) _ _
        rw [List.append_nil]
        exact call_tallies args (by simpa using method) (visit_tallies config func first)
          (visits_tally config args each)
  | subscript value slice =>
    obtain ⟨i,j,first,second,told⟩ := both_of_bind kept
    split at told <;> rename_i bare
    · cases told
      have tallies := subscript_tallies bare.1 (visit_tallies config value first) (visit_tallies config slice second)
      have none : tupleElements slice = [] := List.isEmpty_iff.mp bare.2
      cases slice with
      | tuple elts =>
        cases elts with
        | nil => exact tallies
        | cons => cases none
      | _ => exact tallies
    · cases told
  | list elts =>
    obtain ⟨row,each,rfl⟩ := Option.map_eq_some_iff.mp kept
    refine .after (visits_tally config elts each) fun texts twins => Tallies.emit ?_
    exact (twins.separated ", ").heavier "[" "]" (fun _ put => put.between "[" "]") (by decide)
  | set elts =>
    obtain ⟨row,each,rfl⟩ := Option.map_eq_some_iff.mp kept
    refine .after (visits_tally config elts each) fun texts twins => Tallies.emit ?_
    cases elts with
    | nil =>
      cases twins
      exact ⟨_,Writer.Puts.write _,show weight _ < weight _ by decide⟩
    | cons =>
      rw [List.isEmpty_cons,Bool.not_false,Bool.and_true]
      exact (twins.separated ", ").between "\x7b" "\x7d"
  | tuple elts =>
    obtain ⟨row,each,rfl⟩ := Option.map_eq_some_iff.mp kept
    refine .after (visits_tally config elts each) fun texts twins => Tallies.emit ?_
    exact tuple_twins twins place
  | starred value =>
    obtain ⟨inner,here,rfl⟩ := Option.map_eq_some_iff.mp kept
    refine .after (Tallies.text (visit_tallies config value here)) fun text twins => Tallies.emit ?_
    refine twins.heavier "*" "" (fun source put => ?_) (by decide)
    rw [String.append_empty]
    exact (Writer.Puts.write "*").cons put.single
  | _ => cases kept

theorem visits_tally (config : Option Config) (ns : List Node) {same : Bool} (kept : keepsEach? ns = some same) :
    Tells Quiet (fun f => f.docstring = false) (TwinsEach (atLevel false Level.test (printers ns)) same)
      (inlineEach (visits config ns)) := by
  cases ns with
  | nil =>
    cases kept
    exact .pure .nil
  | cons n rest =>
    obtain ⟨i,j,here,others,told⟩ := both_of_bind kept
    cases told
    exact .bind (Tallies.text (visit_tallies config n here)) fun _ first =>
      .bind (visits_tally config rest others) fun _ later => .pure (.cons first later)

theorem visits_rise (config : Option Config) (ns : List Node) {same : Bool}
    (kept : keepsRising? level ns = some same) :
    Tells Quiet (fun f => f.docstring = false) (TwinsEach (rising false level (printers ns)) same)
      (inlineEach (visits config ns)) := by
  cases ns with
  | nil =>
    cases kept
    exact .pure .nil
  | cons n rest =>
    obtain ⟨i,j,here,others,told⟩ := both_of_bind kept
    cases told
    exact .bind (Tallies.text (visit_tallies config n here)) fun _ first =>
      .bind (visits_rise config rest others) fun _ later => .pure (.cons first later)

end

end LuauCompiler
