import LuauCompiler.Proofs.Lines

/-! What the rule of each kind of expression adds, in terms of the texts of its parts. The parts have
texts in `T`; whatever a rule makes of such texts is in `P`. -/
namespace LuauCompiler.Compile

variable {R : State → State → Prop} [Calm R] {I : Frame → Prop} {T : String → Prop}
  {P : List String → Prop} {value elt : Compile Unit}

variable {left : Compile Unit} {U : String → Prop} {ops : List Node}
  {comparators : List (Node × Compile Unit)}

/-! ## Operators -/

inductive OperationText (left right : String) : String → Prop
  | leftRepeated : OperationText left right ("string.rep(" ++ left ++ "," ++ right ++ ")")
  | rightRepeated : OperationText left right ("string.rep(" ++ right ++ "," ++ left ++ ")")
  | texts : OperationText left right (left ++ " .. " ++ right)
  | leftText : OperationText left right (left ++ " .. tostring(" ++ right ++ ")")
  | rightText : OperationText left right ("tostring(" ++ left ++ ") .. " ++ right)
  | plain (op : BinaryOp) (text : String) (written : binaryText? op left right = some text) :
    OperationText left right (parenthesised text)

theorem binaryOperator_tells (op : Node) : Tells R I (fun _ => True) (binaryOperator op) := by
  unfold binaryOperator
  split
  · exact .ite (fun _ => .pure trivial) fun _ => .fail _
  · exact .fail _

theorem plainBinary_tells (op : BinaryOp) (left right : String) :
    Tells R I (OperationText left right) (plainBinary op left right) := by
  unfold plainBinary
  split
  · exact .pure (.plain op _ ‹_›)
  · exact .fail _

theorem isText_tells (n : Node) (text : String) : Tells R I (fun _ => True) (isText n text) :=
  .bind (.tagOf _) fun _ _ => .pure trivial

theorem isListLike_tells (n : Node) (text : String) : Tells R I (fun _ => True) (isListLike n text) :=
  .bind (.tagOf _) fun _ _ => .pure trivial

theorem product_tells (leftNode rightNode : Node) (left right : String) :
    Tells R I (OperationText left right) (product leftNode rightNode left right) :=
  .bind (isText_tells _ _) fun _ _ => .ite (fun _ => .pure .leftRepeated) fun _ =>
    .bind (isText_tells _ _) fun _ _ => .ite (fun _ => .pure .rightRepeated) fun _ => plainBinary_tells ..

theorem sum_tells (leftNode rightNode : Node) (left right : String) :
    Tells R I (OperationText left right) (sum leftNode rightNode left right) := by
  refine .bind (isListLike_tells _ _) fun _ _ => .ite
    (fun _ => .bind (isListLike_tells _ _) fun _ _ => .guarded (T := fun _ => True) (.reject _) ?_)
    fun _ => ?_
  all_goals
    refine .bind (isText_tells _ _) fun l _ => .bind (isText_tells _ _) fun r _ => ?_
    cases l <;> cases r
    · exact plainBinary_tells ..
    · exact .pure .rightText
    · exact .pure .leftText
    · exact .pure .texts

theorem binaryOperation_writes (leftNode op rightNode : Node) (first : Tells R I T (inline left))
    (second : Tells R I T (inline right))
    (closed : ∀ l r text, T l → T r → OperationText l r text → P [text]) :
    Says R I P (binaryOperation leftNode op rightNode left right) := by
  refine .after (binaryOperator_tells _) fun op _ => .after first fun l hl => .after second fun r hr => ?_
  split
  · exact .after (product_tells ..) fun text form => .emit (closed l r text hl hr form)
  · exact .after (sum_tells ..) fun text form => .emit (closed l r text hl hr form)
  · exact .after (plainBinary_tells ..) fun text form => .emit (closed l r text hl hr form)

theorem unaryOperation_writes (op : Node) (step : Tells R I T (inline operand))
    (closed : ∀ unary text, op.unaryOp? = some unary → T text → P [unaryText unary text]) :
    Says R I P (unaryOperation op operand) := by
  unfold unaryOperation
  split
  · exact .after step fun text holds => .emit (closed _ text ‹_› holds)
  · exact .fail _

theorem inlineEach_tells (steps : ∀ c ∈ cs, Tells R I T (inline c)) :
    Tells R I (fun texts => ∀ text ∈ texts, T text) (inlineEach cs) := by
  refine .all fun c member => ?_
  obtain ⟨d,inside,rfl⟩ := List.mem_map.mp member
  exact steps d inside

theorem boolOperation_writes (op : Node) (steps : ∀ c ∈ values, Tells R I T (inline c))
    (closed : ∀ sign texts, (∀ text ∈ texts, T text) →
      P [parenthesised (String.intercalate (boolSign sign) texts)]) :
    Says R I P (boolOperation op values) := by
  refine .after (inlineEach_tells steps) fun texts holds => ?_
  split
  · exact .emit (closed _ texts holds)
  · exact .fail _

/-! ## Comparisons and conditions -/

inductive LinkText (left right : String) : String → Prop
  | member (m : Membership) (negated : Bool) :
    LinkText left right ((if negated then "not" else "") ++ m.text left right)
  | signed (op : Option CompareOp) :
    LinkText left right (infixText (shownName (op.bind compareSign?)) left right)

theorem membership_tells (container : Node) : Tells R I (fun _ => True) (membership container) := by
  unfold membership
  split
  · exact .bind (.tagOf _) fun _ _ => .ite
      (fun _ => .bind (P := fun _ => True) (.fail _) fun _ _ => .pure trivial)
      fun _ => .pure trivial
  all_goals exact .pure trivial

theorem link_tells (op rightNode : Node) (left right : String) :
    Tells R I (LinkText left right) (link op rightNode left right) := by
  unfold link
  split
  · exact .bind (membership_tells _) fun m _ => .pure (.member m false)
  · exact .bind (membership_tells _) fun m _ => .pure (.member m true)
  · exact .pure (.signed _)

theorem chain_tells {left : String} (known : T left) (steps : ∀ p ∈ comparators, Tells R I T (inline p.2))
    (linked : ∀ l r text, T l → T r → LinkText l r text → U text)
    (joined : ∀ x y, U x → U y → U (x ++ " and " ++ y)) :
    Tells R I U (chain left (op :: ops) comparators) := by
  induction ops generalizing op left comparators with
  | nil =>
    cases comparators with
    | nil => exact .fail _
    | cons p rest =>
      exact .bind (steps p (by simp)) fun right holds => .bind (link_tells ..) fun text form =>
        .ite (fun _ => .pure (linked left right text known holds form)) fun absurdity =>
          absurd rfl absurdity
  | cons next ops ih =>
    cases comparators with
    | nil => exact .fail _
    | cons p rest =>
      refine .bind (steps p (by simp)) fun right holds => .bind (link_tells ..) fun text form =>
        .ite (fun absurdity => absurd absurdity (by simp)) fun _ => ?_
      refine .bind (ih holds fun q member => steps q (by simp [member])) fun others hold => ?_
      exact .pure (joined _ _ (linked left right text known holds form) hold)

theorem comparison_writes (first : Tells R I T (inline left))
    (steps : ∀ p ∈ comparators, Tells R I T (inline p.2))
    (linked : ∀ l r text, T l → T r → LinkText l r text → U text)
    (joined : ∀ x y, U x → U y → U (x ++ " and " ++ y)) (closed : ∀ text, U text → P [text]) :
    Says R I P (comparison left (op :: ops) comparators) :=
  .after first fun _ holds => .after (chain_tells holds steps linked joined) fun text form =>
    .emit (closed text form)

theorem conditional_writes (first : Tells R I T (inline test)) (second : Tells R I T (inline body))
    (third : Tells R I T (inline orElse))
    (closed : ∀ x y z, T x → T y → T z → P [x ++ " and " ++ y ++ " or " ++ z]) :
    Says R I P (conditional test body orElse) :=
  .after first fun x hx => .after second fun y hy => .after third fun z hz => .emit (closed x y z hx hy hz)

/-! ## Names, attributes and subscripts -/

theorem name_tells (name : String) : Tells R I (· = name) (inline (nameReference (some name))) :=
  Says.inline (P := (· = [name])) (.emit rfl) fun _ same => by
    rw [same,String.intercalate_singleton]

theorem memberAccess_writes (name : Option String) (step : Tells R I T (inline value))
    (closed : ∀ text, T text → P [(if isLiteralText text then "(" ++ text ++ ")" else text) ++
      "." ++ shownName name]) : Says R I P (memberAccess value name) :=
  .after step fun text holds => .emit (closed text holds)

theorem subscript_writes {slice : Compile Unit} (first : Tells R I T (inline value))
    (second : Tells R I T (inline slice))
    (closed : ∀ name index, T name → T index → P [name ++ indexText index]) :
    Says R I P (subscript value slice) :=
  .after second fun index known => .after first fun name holds => .ite
    (fun _ => .after (T := fun _ => True) (.reject _) fun _ _ => .emit (closed name index holds known))
    fun _ => .emit (closed name index holds known)

theorem bound_tells (zero : T "0") (step : ∀ c ∈ part, Tells R I T (inline c)) :
    Tells R I T (bound part) := by
  cases part with
  | none => exact .pure zero
  | some c => exact step c rfl

theorem slice_writes (zero : T "0") (first : ∀ c ∈ lower, Tells R I T (inline c))
    (second : ∀ c ∈ upper, Tells R I T (inline c)) (third : ∀ c ∈ step, Tells R I T (inline c))
    (closed : ∀ x y z, T x → T y → T z → P ["slice(" ++ x ++ ", " ++ y ++ ", " ++ z ++ ")"]) :
    Says R I P (slice lower upper step) :=
  .after (bound_tells zero first) fun x hx => .after (bound_tells zero second) fun y hy =>
    .after (bound_tells zero third) fun z hz => .emit (closed x y z hx hy hz)

theorem starred_writes (step : Tells R I T (inline value))
    (closed : ∀ text, T text → P ["unpack(" ++ text ++ ")"]) : Says R I P (starred value) :=
  .after step fun text holds => .emit (closed text holds)

/-! ## Constants and displays -/

theorem textConstant_writes (text : String)
    (closed : ∀ f, I f → P [if f.docstring then "--[[ " ++ text ++ " ]]" else Text.quote text]) :
    Says R I P (textConstant text) :=
  .after .frame fun f inside => .ite (fun documents => .emit (by simpa [documents] using closed f inside))
    fun plain => .emit (by simpa [plain] using closed f inside)

theorem constant_writes (c : Constant) (closed : ∀ text, P [text]) : Says R I P (constant c) := by
  cases c with
  | str text => exact textConstant_writes text fun _ _ => closed _
  | none | bool | ellipsis => exact .emit (closed _)
  | bytes | int | float | complex =>
    exact .after (.ofExcept (P := fun _ => True) fun _ _ => trivial) fun text _ => .emit (closed text)

theorem interpolated_writes (steps : ∀ p ∈ parts, Tells R I T (inline p.2))
    (closed : ∀ text, P [text]) : Says R I P (interpolated parts) := by
  refine .after (.all (P := fun _ => True) fun c member => ?_) fun texts _ => ?_
  · obtain ⟨p,inside,rfl⟩ := List.mem_map.mp member
    simp only
    split
    · exact .pure trivial
    · exact .pure trivial
    · exact .bind (steps p inside) fun _ _ => .pure trivial
  · exact .ite (fun _ => .emit (closed _)) fun _ => .fail _

theorem interpolation_writes (step : Tells R I T (inline value))
    (closed : ∀ text, T text → P ["\x7b" ++ text ++ "\x7d"]) : Says R I P (interpolation value) :=
  .after step fun text holds => .emit (closed text holds)

theorem listDisplay_writes (steps : ∀ c ∈ elts, Tells R I T (inline c))
    (closed : ∀ texts, (∀ text ∈ texts, T text) → P [bracedList texts]) :
    Says R I P (listDisplay elts) :=
  .after (inlineEach_tells steps) fun texts holds => .emit (closed texts holds)

theorem tupleDisplay_writes (steps : ∀ c ∈ elts, Tells R I T (inline c))
    (closed : ∀ texts, (∀ text ∈ texts, T text) →
      P ["table.freeze(" ++ bracedList texts ++ ")"]) : Says R I P (tupleDisplay elts) :=
  .after (inlineEach_tells steps) fun texts holds => .emit (closed texts holds)

theorem dictDisplay_writes (first : ∀ c ∈ keys, Tells R I T (inline c))
    (second : ∀ c ∈ values, Tells R I T (inline c))
    (closed : ∀ ks vs, (∀ text ∈ ks, T text) → (∀ text ∈ vs, T text) → P ["dict " ++
      bracedList (List.zipWith (fun k v => "[" ++ k ++ "] = " ++ v) ks vs)]) :
    Says R I P (dictDisplay keys values) := by
  have listed (ks vs : List String) (hk : ∀ text ∈ ks, T text) (hv : ∀ text ∈ vs, T text) : Says R I P (do
        needs "dict"
        emit ("dict " ++ bracedList (List.zipWith (fun k v => "[" ++ k ++ "] = " ++ v) ks vs))
        needs "dict") :=
    .after (.needs _) fun _ _ => .append (P := fun lines => P lines) (Q := fun lines => lines = [])
      (.emit (closed ks vs hk hv)) (.of_tells (.needs _) rfl) fun xs ys hx hy => by simpa [hy] using hx
  exact .after (inlineEach_tells first) fun ks hk => .after (inlineEach_tells second) fun vs hv =>
    .ite (fun _ => .after (T := fun _ => True) (.fail _) fun _ _ => listed ks vs hk hv)
      fun _ => listed ks vs hk hv

/-! ## Functions, calls and yielded values -/

theorem givenNames_ok (run : givenNames names = .ok given) : names = given.map some := by
  induction names generalizing given with
  | nil => cases run; rfl
  | cons name names ih =>
    cases name with
    | none => cases run
    | some name =>
      have step : givenNames (some name :: names) = (givenNames names).map (name :: ·) := by
        rw [givenNames,givenNames,List.mapM_cons]
        cases names.mapM givenName <;> rfl
      rw [step] at run
      cases rest : givenNames names with
      | error e => rw [rest] at run; cases run
      | ok others =>
        rw [rest] at run
        cases run
        simp [ih rest]

theorem lambda_writes (params : Node) (step : Tells R I T (inline body))
    (closed : ∀ names text, (paramNames params >>= givenNames) = .ok names → T text →
      P ["function(" ++ Text.commaSeparated names ++ ") return " ++ text ++ " end"]) :
    Says R I P (lambda params body) :=
  .after (.ofExcept fun _ written => written) fun names written => .after step fun text holds =>
    .emit (closed names text written holds)

theorem namedTexts_tells (steps : ∀ k ∈ keywords, ∀ c ∈ k.value, Tells R I T (inline c)) :
    Tells R I (fun _ => True) (namedTexts keywords) := by
  induction keywords with
  | nil => exact .pure trivial
  | cons k rest ih =>
    obtain ⟨label,value⟩ := k
    cases value with
    | none => exact .fail _
    | some value =>
      refine .bind (steps ⟨label,some value⟩ (by simp) value rfl) fun text _ => ?_
      cases label with
      | missing => exact .fail _
      | name name =>
        exact .bind (ih fun k member => steps k (by simp [member])) fun _ _ => .pure trivial

theorem sortCall_writes (object : Node) (steps : ∀ k ∈ keywords, ∀ c ∈ k.value, Tells R I T (inline c))
    (closed : ∀ text, P [text]) : Says R I P (sortCall object keywords) := by
  have sorted : Says R I P (do emit (← ofExcept (listMethodText .sort object []))) :=
    .after (.ofExcept (P := fun _ => True) fun _ _ => trivial) fun text _ => .emit (closed text)
  refine .after (namedTexts_tells steps) fun texts _ => ?_
  split
  · exact .ite (fun _ => .after (T := fun _ => True) (.reject _) fun _ _ => sorted) fun _ => sorted
  · exact .reject _

theorem call_writes (receiver : Option String) (funcNode : Node) (args : List Node)
    (first : Tells R I T (inline func)) (second : ∀ c ∈ argRuns, Tells R I T (inline c))
    (third : ∀ k ∈ keywords, ∀ c ∈ k.value, Tells R I T (inline c)) (closed : ∀ text, P [text]) :
    Says R I P (call receiver funcNode args func argRuns keywords) := by
  refine .after first fun name _ => .guarded (.needs _) ?_
  refine .after (inlineEach_tells second) fun texts _ => ?_
  split
  · exact sortCall_writes _ third closed
  · exact .after (.ofExcept (P := fun _ => True) fun _ _ => trivial) fun text _ =>
      .emit (closed text)
  · exact .emit (closed _)

theorem plainCall_writes (args : List Node) (keywords : List NamedArgument)
    (noMethod : listMethod? funcNode = none) (first : Tells R I T (inline func))
    (second : ∀ c ∈ argRuns, Tells R I T (inline c))
    (closed : ∀ name texts, T name → (∀ text ∈ texts, T text) →
      P [name ++ "(" ++ Text.commaSeparated texts ++ ")"]) :
    Says R I P (call none funcNode args func argRuns keywords) := by
  refine .after first fun name holds => .guarded (.needs _) ?_
  refine .after (inlineEach_tells second) fun texts hold => ?_
  rw [noMethod]
  exact .emit (closed name texts holds hold)

theorem yieldFromValue_writes (step : Tells R I T (inline value)) (closed : ∀ text, P [text]) :
    Says R I P (yieldFromValue value) :=
  .after step fun _ _ => .emit (closed _)

/-! ## Comprehensions -/

/-- The lines that open the loops and branches of a comprehension, with the number of blocks that
they open. -/
inductive OpenedLines (T : String → Prop) : Nat → List String → Prop
  | none : OpenedLines T 0 []
  | loop (target_text : T target) (iter_text : T iter) (others : OpenedLines T n rest) :
    OpenedLines T (n + 1) (("for " ++ target ++ " in " ++ iter ++ " do") :: rest)
  | test (filter_text : T filter) (others : OpenedLines T n rest) :
    OpenedLines T (n + 1) (("if " ++ filter ++ " then") :: rest)

theorem OpenedLines.append (first : OpenedLines T m xs) (second : OpenedLines T n ys) :
    OpenedLines T (m + n) (xs ++ ys) := by
  induction first with
  | none => simpa using second
  | loop target iter _ ih => rw [Nat.add_right_comm]; exact .loop target iter ih
  | test filter _ ih => rw [Nat.add_right_comm]; exact .test filter ih

/-- The texts of the parts that a clause has. -/
structure Clause.Tells (R : State → State → Prop) (I : Frame → Prop) (T : String → Prop)
    (clause : Clause) : Prop where
  target : ∀ c ∈ clause.target, Compile.Tells R I T (inline c)
  iter : ∀ c ∈ clause.iter, Compile.Tells R I T (inline c)
  filters : ∀ cs ∈ clause.filters, ∀ c ∈ cs, Compile.Tells R I T (inline c)

theorem openFilters_writes {filters : List (Compile Unit)} (steps : ∀ c ∈ filters, Tells R I T (inline c)) :
    Says R I (OpenedLines T filters.length) (each (filters.map openFilter)) := by
  induction filters with
  | nil => exact .nothing .none
  | cons filter rest ih =>
    have opened : Says R I (OpenedLines T 1) (openFilter filter) :=
      .after (steps filter (by simp)) fun text holds => .emit (.test holds .none)
    refine .append opened (ih fun c member => steps c (by simp [member])) fun xs ys hx hy => ?_
    rw [List.length_cons,Nat.add_comm]
    exact hx.append hy

theorem requirePart_writes (rest : ∀ a ∈ part, Says R I P (f a)) : Says R I P (requirePart part >>= f) := by
  cases part with
  | none => exact .after (T := fun _ => False) (.fail _) fun _ absurdity => absurdity.elim
  | some a => exact .after (.pure (P := fun b => b = a) rfl) fun b same => same ▸ rest a rfl

theorem openClause_writes {clause : Clause} (parts : clause.Tells R I T) :
    Says R I (OpenedLines T (clauseDepth clause)) (openClause clause) := by
  refine requirePart_writes fun target given => .after (parts.target target given) fun t ht => ?_
  refine requirePart_writes fun iter given => .after (parts.iter iter given) fun i hi => ?_
  have header : Says R I (OpenedLines T 1) (emit ("for " ++ t ++ " in " ++ i ++ " do")) :=
    .emit (.loop ht hi .none)
  have tests : Says R I (OpenedLines T (clause.filters.getD []).length)
      (requirePart clause.filters >>= fun filters => each (filters.map openFilter)) := by
    refine requirePart_writes fun filters given => ?_
    have same : clause.filters = some filters := given
    rw [same]
    exact openFilters_writes (parts.filters filters given)
  refine .append header tests fun xs ys hx hy => ?_
  rw [clauseDepth,Nat.add_comm]
  exact hx.append hy

theorem openClauses_writes (parts : ∀ c ∈ clauses, c.Tells R I T) :
    Says R I (OpenedLines T (clausesDepth clauses)) (each (clauses.map openClause)) := by
  induction clauses with
  | nil => exact .nothing .none
  | cons clause rest ih =>
    refine .append (openClause_writes (parts clause (by simp)))
      (ih fun c member => parts c (by simp [member])) fun xs ys hx hy => ?_
    exact hx.append hy

/-- The lines that store an element in the result of a comprehension. -/
inductive StoredText (T : String → Prop) : String → Prop
  | list {elt : String} (holds : T elt) : StoredText T ("table.insert(result._data,\x7b" ++ elt ++ "\x7d")
  | set {elt : String} (holds : T elt) : StoredText T ("table.insert(result, " ++ elt ++ ")")
  | generator {elt : String} (holds : T elt) : StoredText T ("result.append(" ++ elt ++ ")")
  | dict {key value : String} (key_text : T key) (value_text : T value) :
    StoredText T ("result[" ++ key ++ "] = " ++ value)

/-- The lines of a comprehension: what it starts with, the blocks it opens, what it stores and as
many ends as blocks were opened. -/
def ComprehensionForm (S T : String → Prop) (lines : List String) : Prop :=
  ∃ first ∈ ["local result = \x7b\x7d","local result = dict \x7b\x7d"], ∃ opened n stored,
    OpenedLines T n opened ∧ S stored ∧
    lines = ["(function()",first] ++ opened ++ [stored,ends n,"return result","end)()"]

def ComprehensionLines (T : String → Prop) : List String → Prop := ComprehensionForm (StoredText T) T

theorem comprehension_writes {start : Compile Unit} {store : Compile String} {first : String}
    (known : first ∈ ["local result = \x7b\x7d","local result = dict \x7b\x7d"])
    (starts : Says R I (fun lines => lines = [first]) start) (parts : ∀ c ∈ clauses, c.Tells R I T)
    (stores : Tells R I S store) :
    Says R I (ComprehensionForm S T) (comprehension start clauses store) := by
  have closing : Says R I (fun lines => ∃ stored, S stored ∧
        lines = [stored,ends (clausesDepth clauses),"return result","end)()"])
      (do emit (← store); emit (ends (clausesDepth clauses)); emit "return result"; emit "end)()") :=
    .after stores fun stored holds => .line (Q := fun lines => lines = _)
      (.line (Q := fun lines => lines = _) (.line (Q := fun lines => lines = _) (.emit rfl)
        fun _ same => same ▸ rfl) fun _ same => same ▸ rfl) fun _ same => ⟨stored,holds,same ▸ rfl⟩
  have body : Says R I (fun lines => ∃ opened stored, OpenedLines T (clausesDepth clauses) opened ∧ S stored ∧
        lines = opened ++ [stored,ends (clausesDepth clauses),"return result","end)()"])
      (do
        each (clauses.map openClause)
        emit (← store)
        emit (ends (clausesDepth clauses))
        emit "return result"
        emit "end)()") :=
    .append (openClauses_writes parts) closing fun opened _ hold ⟨stored,holds,same⟩ =>
      ⟨opened,stored,hold,holds,same ▸ rfl⟩
  refine .line (.append starts body (T := fun lines =>
    ComprehensionForm S T ("(function()" :: lines)) ?_) fun _ holds => holds
  rintro _ _ rfl ⟨opened,stored,hold,holds,rfl⟩
  exact ⟨first,known,opened,_,stored,hold,holds,rfl⟩

theorem startTable_writes : Says R I (fun lines => lines = ["local result = \x7b\x7d"]) startTable :=
  .emit rfl

theorem startDict_writes : Says R I (fun lines => lines = ["local result = dict \x7b\x7d"]) startDict :=
  .after (.needs _) fun _ _ => .line (Q := fun lines => lines = []) (.of_tells (.needs _) rfl)
    fun _ same => same ▸ rfl

theorem tableComprehension_writes {write : String → String} (step : Tells R I T (inline elt))
    (parts : ∀ c ∈ clauses, c.Tells R I T) (stored : ∀ text, T text → StoredText T (write text)) :
    Says R I (ComprehensionLines T) (comprehension startTable clauses (do return write (← inline elt))) :=
  comprehension_writes (by simp) startTable_writes parts (.bind step fun text holds => .pure (stored text holds))

theorem dictComprehension_writes (first : Tells R I T (inline key))
    (second : Tells R I T (inline value)) (parts : ∀ c ∈ clauses, c.Tells R I T) :
    Says R I (ComprehensionLines T) (dictComprehension key value clauses) :=
  comprehension_writes (by simp) startDict_writes parts
    (.bind first fun _ hk => .bind second fun _ hv => .pure (.dict hk hv))

end LuauCompiler.Compile
