import LuauCompiler.Proofs.Lines

/-! Expressions that are always translated. A step that answers succeeds from every state whose tags
are tidy, and changes nothing but the ledger and the output. -/
namespace LuauCompiler

/-! ## Texts that are no reserved words -/

def Unreserved (text : String) : Prop := text ∉ reservedWords

theorem unreserved_of_mem (member : c ∈ text.toList) (foreign : c.isLower = false) :
    Unreserved text := by
  have small : ∀ word ∈ reservedWords, word.toList.all Char.isLower = true := by decide
  intro reserved
  have lower := List.all_eq_true.mp (small text reserved) c member
  rw [foreign] at lower
  cases lower

/-- The text holds a character that no reserved word has. -/
def isMarked (text : String) : Bool := text.toList.any (!·.isLower)

theorem unreserved_of_isMarked (marked : isMarked text = true) : Unreserved text := by
  obtain ⟨c,member,foreign⟩ := List.any_eq_true.mp marked
  exact unreserved_of_mem member (by simpa using foreign)

@[simp] theorem isMarked_append (first second : String) :
    isMarked (first ++ second) = (isMarked first || isMarked second) := by
  simp [isMarked]

theorem isMarked_left (marked : isMarked first = true) (rest : String) : isMarked (first ++ rest) = true := by
  rw [isMarked_append,marked,Bool.true_or]

theorem isMarked_intercalate (marked : isMarked text = true) (rest : List String) :
    isMarked (String.intercalate " " (text :: rest)) = true := by
  cases rest with
  | nil => simpa using marked
  | cons next rest => simp [String.intercalate_cons_cons,marked]

theorem isMarked_digits {digits : List Char} (nonempty : digits ≠ [])
    (decimal : ∀ c ∈ digits, c.isDigit = true) : digits.any (!·.isLower) = true := by
  obtain ⟨c,member⟩ := List.exists_mem_of_ne_nil _ nonempty
  refine List.any_eq_true.mpr ⟨c,member,?_⟩
  have digit : c.isDigit = true := decimal c member
  delta Char.isDigit at digit
  delta Char.isLower
  simp only [Bool.and_eq_true,decide_eq_true_eq,UInt32.le_iff_toNat_le] at digit ⊢
  grind

theorem digits_unreserved (n : Nat) : Unreserved (toString n) := by
  have decimal : ∀ c ∈ Nat.toDigits 10 n, c.isDigit = true := fun c member =>
    Nat.isDigit_of_mem_toDigits (by decide) (by decide) member
  refine unreserved_of_isMarked ?_
  rw [isMarked,Nat.toString_eq_ofList_toDigits,String.toList_ofList]
  exact isMarked_digits Nat.toDigits_ne_nil decimal

theorem integer_unreserved (n : Int) : Unreserved (toString n) := by
  cases n with
  | ofNat n => exact digits_unreserved n
  | negSucc n =>
    have dash : '-' ∈ ("-" ++ toString (n + 1)).toList := by simp
    exact unreserved_of_mem dash (by decide)

theorem decimalText_marked (digits : List Char) (power : Int) (nonempty : digits ≠ []) :
    (Double.decimalText true digits power).any (!·.isLower) = true := by
  unfold Double.decimalText
  simp only
  split
  · split
    · simp
    · split <;> simp
  · split
    · exact absurd rfl nonempty
    · have sign (negative : Prop) [Decidable negative] :
          (!(if negative then '-' else '+' : Char).isLower) = true := by
        split <;> decide
      simp [Double.powerText,sign]
    · simp

theorem float_unreserved (x : Double) : Unreserved x.text := by
  cases x with
  | nan => exact (by decide : "nan" ∉ reservedWords)
  | infinite negative =>
    cases negative
    · exact (by decide : "inf" ∉ reservedWords)
    · exact (by decide : "-inf" ∉ reservedWords)
  | finite negative mantissa exponent =>
    refine unreserved_of_isMarked ?_
    rw [isMarked,Double.text,Double.textWith,String.toList_ofList]
    have unsigned : (if mantissa = 0 then ['0','.','0'] else Double.decimalText true
        (Nat.toDigits 10 (Double.shortest mantissa exponent).1)
        (Double.shortest mantissa exponent).2).any (!·.isLower) = true := by
      split
      · decide
      · exact decimalText_marked _ _ Nat.toDigits_ne_nil
    cases negative
    · exact unsigned
    · exact List.any_eq_true.mpr ⟨'-',List.mem_cons_self,by decide⟩

theorem quote_unreserved (text : String) : Unreserved (Text.quote text) := by
  have first : Text.quotationMark text.toList ∈ (Text.quote text).toList := by
    simp [Text.quote,Text.quoteChars]
  refine unreserved_of_mem first ?_
  unfold Text.quotationMark
  split <;> decide

/-! ## Steps that answer -/

/-- No name is tagged as a list or as a constant. -/
def Tidy (tags : List (String × String)) : Prop :=
  ∀ name tag, tags.lookup name = some tag → tag ≠ "list" ∧ tag ≠ "Constant"

namespace Compile

variable {α : Type}

variable {c body : Compile Unit} {cs : List (Compile Unit)} {regular : List Node}

/-- The step gives a value in `P` and changes nothing but the ledger. -/
structure Answers (P : α → Prop) (c : Compile α) : Prop where
  run : ∀ s, Tidy s.tags → ∃ a ledger, Gives c s a { s with ledger } ∧ P a

/-- The step adds lines in `P` and changes nothing else but the ledger. -/
structure Writes (P : List String → Prop) (c : Compile Unit) : Prop where
  run : ∀ s before, Tidy s.tags → s.output = .block before → ∃ lines ledger,
    Gives c s () { s with ledger, output := .block (before ++ lines.map .line) } ∧ P lines

namespace Answers

theorem mono {c : Compile α} (step : Answers P c) (weaker : ∀ a, P a → P' a) : Answers P' c := by
  refine ⟨fun s tidy => ?_⟩
  obtain ⟨a,ledger,run,holds⟩ := step.run s tidy
  exact ⟨a,ledger,run,weaker a holds⟩

theorem pure (holds : P a) : Answers P (Pure.pure a) := ⟨fun s _ => ⟨a,s.ledger,rfl,holds⟩⟩

theorem bind {c : Compile α} (first : Answers P c) (rest : ∀ a, P a → Answers Q (f a)) :
    Answers Q (c >>= f) := by
  refine ⟨fun s tidy => ?_⟩
  obtain ⟨a,ledger,run,holds⟩ := first.run s tidy
  obtain ⟨b,ledger',run',holds'⟩ := (rest a holds).run { s with ledger } tidy
  exact ⟨b,ledger',gives_bind.mpr ⟨a,_,run,run'⟩,holds'⟩

theorem ite [Decidable p] {c d : Compile α} (yes : p → Answers P c) (no : ¬p → Answers P d) :
    Answers P (if p then c else d) := by
  split <;> rename_i h
  · exact yes h
  · exact no h

theorem ofExcept (success : e = .ok a) (holds : P a) : Answers P (Compile.ofExcept e) := by
  subst success
  exact pure holds

theorem tagOf (name : String) :
    Answers (fun tag => tag ≠ some "list" ∧ tag ≠ some "Constant") (Compile.tagOf name) := by
  refine ⟨fun s tidy => ⟨s.tags.lookup name,s.ledger,rfl,?_⟩⟩
  cases found : s.tags.lookup name with
  | none => exact ⟨nofun,nofun⟩
  | some tag => simpa using tidy name tag found

theorem frame : Answers (fun _ => True) Compile.frame := ⟨fun s _ => ⟨s.frames.top,s.ledger,rfl,trivial⟩⟩

theorem needs (helper : String) : Answers (fun _ => True) (Compile.needs helper) :=
  ⟨fun s _ => ⟨(),s.ledger.need helper,rfl,trivial⟩⟩

theorem all {cs : List (Compile α)} (steps : ∀ c ∈ cs, Answers P c) :
    Answers (fun as => as.length = cs.length) (Compile.all cs) := by
  induction cs with
  | nil => exact pure rfl
  | cons c rest ih =>
    refine bind (steps c (by simp)) fun a _ => ?_
    refine bind (ih fun d member => steps d (by simp [member])) fun as length => ?_
    exact pure (by simp [length])

end Answers

namespace Writes

theorem of_answers (step : Answers T c) (holds : P []) : Writes P c := by
  refine ⟨fun s before tidy out => ?_⟩
  obtain ⟨_,ledger,run,_⟩ := step.run s tidy
  refine ⟨[],ledger,?_,holds⟩
  simpa [out] using run

theorem emit (holds : P [text]) : Writes P (Compile.emit text) :=
  ⟨fun s before _ out => ⟨[text],s.ledger,by simp [out],holds⟩⟩

theorem after {c : Compile α} (first : Answers T c) (rest : ∀ a, T a → Writes P (f a)) :
    Writes P (c >>= f) := by
  refine ⟨fun s before tidy out => ?_⟩
  obtain ⟨a,ledger,run,holds⟩ := first.run s tidy
  obtain ⟨lines,ledger',run',holds'⟩ := (rest a holds).run { s with ledger } before tidy out
  exact ⟨lines,ledger',gives_bind.mpr ⟨a,_,run,run'⟩,holds'⟩

theorem append (first : Writes P c) (second : Writes Q (f ()))
    (join : ∀ xs ys, P xs → Q ys → T (xs ++ ys)) : Writes T (c >>= f) := by
  refine ⟨fun s before tidy out => ?_⟩
  obtain ⟨xs,ledger,run,holds⟩ := first.run s before tidy out
  obtain ⟨ys,ledger',run',holds'⟩ := second.run
    { s with ledger, output := .block (before ++ xs.map .line) } _ tidy rfl
  refine ⟨xs ++ ys,ledger',gives_bind.mpr ⟨(),_,run,?_⟩,join xs ys holds holds'⟩
  simpa [List.append_assoc] using run'

theorem ite [Decidable p] (yes : p → Writes P c) (no : ¬p → Writes P d) : Writes P (if p then c else d) := by
  split <;> rename_i h
  · exact yes h
  · exact no h

theorem guarded [Decidable p] {c : Compile α} (first : Answers T c) (rest : Writes P d) :
    Writes P (if p then (c >>= fun _ => d) else d) :=
  ite (fun _ => after first fun _ _ => rest) fun _ => rest

theorem inline (step : Writes P c) (join : ∀ lines, P lines → T (String.intercalate " " lines)) :
    Answers T (Compile.inline c) := by
  refine ⟨fun s tidy => ?_⟩
  obtain ⟨lines,ledger,run,holds⟩ := step.run { s with output := .block [] } [] tidy rfl
  refine ⟨_,ledger,gives_inline.mpr ⟨_,lines,run,?_,rfl,rfl⟩,join lines holds⟩
  simp [Code.entries?]

end Writes

/-- The step adds lines that are no reserved word together. -/
abbrev Fluent (c : Compile Unit) : Prop := Writes (fun lines => Unreserved (String.intercalate " " lines)) c

theorem Fluent.text (step : Fluent c) : Answers Unreserved (inline c) :=
  Writes.inline step fun _ holds => holds

theorem emit_fluent (free : Unreserved text) : Fluent (emit text) :=
  .emit (by rwa [String.intercalate_singleton])

theorem emit_marked (marked : isMarked text = true) : Fluent (emit text) :=
  emit_fluent (unreserved_of_isMarked marked)

theorem inlineEach_answers (steps : ∀ c ∈ cs, Fluent c) :
    Answers (fun texts => texts.length = cs.length) (inlineEach cs) := by
  have texts : ∀ c ∈ cs.map inline, Answers Unreserved c := by
    intro c member
    obtain ⟨d,inside,rfl⟩ := List.mem_map.mp member
    exact (steps d inside).text
  exact (Answers.all texts).mono fun _ length => by simpa using length

/-! ## Operators -/

theorem binaryOperator_answers (supported : op ≠ .matMult) :
    Answers (· = op) (binaryOperator (.mark (.binary op))) := by
  have known : isSupported op = true := by simp [isSupported,supported]
  simp only [binaryOperator,Node.binaryOp?,known,if_true]
  exact .pure rfl

theorem plainBinary_answers (supported : op ≠ .matMult) (left right : String) :
    Answers (isMarked · = true) (plainBinary op left right) := by
  have bracket (text : String) : isMarked (parenthesised text) = true := by
    have opening : isMarked "(" = true := by decide
    simp [parenthesised,opening]
  cases op
  case matMult => exact absurd rfl supported
  all_goals exact .pure (bracket _)

theorem isText_answers (n : Node) (text : String) : Answers (fun _ => True) (isText n text) :=
  .bind (.tagOf _) fun _ _ => .pure trivial

theorem isListLike_answers (other : n.isList = false) (text : String) :
    Answers (· = false) (isListLike n text) :=
  .bind (.tagOf _) fun tag untagged => .pure (by simp [other,untagged.1])

theorem product_answers (leftNode rightNode : Node) (left right : String) :
    Answers (isMarked · = true) (product leftNode rightNode left right) := by
  have repeats : isMarked "string.rep(" = true := by decide
  exact .bind (isText_answers _ _) fun _ _ => .ite (fun _ => .pure (by simp [repeats])) fun _ =>
    .bind (isText_answers _ _) fun _ _ => .ite (fun _ => .pure (by simp [repeats])) fun _ =>
      plainBinary_answers (by decide) left right

theorem sum_answers (other : leftNode.isList = false) (rightNode : Node) (left right : String) :
    Answers (isMarked · = true) (sum leftNode rightNode left right) := by
  have dots : isMarked " .. " = true := by decide
  have dots' : isMarked " .. tostring(" = true := by decide
  have dots'' : isMarked ") .. " = true := by decide
  refine .bind (isListLike_answers other left) fun _ no => ?_
  subst no
  refine .bind (isText_answers _ _) fun l _ => .bind (isText_answers _ _) fun r _ => ?_
  cases l <;> cases r
  · exact plainBinary_answers (by decide) left right
  · exact .pure (by simp [dots''])
  · exact .pure (by simp [dots'])
  · exact .pure (by simp [dots])

theorem binaryOperation_fluent (supported : op ≠ .matMult)
    (addable : op = .add → leftNode.isList = false) (first : Fluent left) (second : Fluent right) :
    Fluent (binaryOperation leftNode (.mark (.binary op)) rightNode left right) := by
  refine .after (binaryOperator_answers supported) fun same known => ?_
  subst known
  refine .after first.text fun l _ => .after second.text fun r _ => ?_
  split
  · exact .after (product_answers ..) fun _ marked => emit_marked marked
  · exact .after (sum_answers (addable rfl) ..) fun _ marked => emit_marked marked
  · exact .after (plainBinary_answers supported l r) fun _ marked => emit_marked marked

theorem unaryOperation_fluent (op : UnaryOp) (step : Fluent operand) :
    Fluent (unaryOperation (.mark (.unary op)) operand) := by
  refine .after step.text fun text free => ?_
  cases op with
  | uAdd => exact emit_fluent free
  | uSub => exact emit_marked (by simp [unaryText,(by decide : isMarked "-" = true)])
  | not => exact emit_marked (by simp [unaryText,(by decide : isMarked "not " = true)])
  | invert => exact emit_marked (by simp [unaryText,(by decide : isMarked "bit32.bnot(" = true)])

theorem boolOperation_fluent (op : BoolOp) (steps : ∀ c ∈ values, Fluent c) :
    Fluent (boolOperation (.mark (.bool op)) values) :=
  .after (inlineEach_answers steps) fun _ _ => emit_marked (by
    simp [parenthesised,(by decide : isMarked "(" = true)])

theorem membership_answers (container : Node) : Answers (fun _ => True) (membership container) := by
  unfold membership
  split
  · exact .bind (.tagOf _) fun tag untagged => .ite
      (fun constant => absurd (by simpa using constant) untagged.2) fun _ => .pure trivial
  all_goals exact .pure trivial

theorem Membership.isMarked_text (m : Membership) (element container : String) :
    isMarked (m.text element container) = true := by
  cases m with
  | inList | inText | asKey =>
    exact isMarked_left (isMarked_left (isMarked_left (isMarked_left (by decide) _) _) _) _

theorem link_answers (op rightNode : Node) (left right : String) :
    Answers (isMarked · = true) (link op rightNode left right) := by
  unfold link
  split
  · exact .bind (membership_answers _) fun m _ => .pure (by
      rw [isMarked_append,m.isMarked_text,Bool.or_true])
  · exact .bind (membership_answers _) fun m _ => .pure (by
      rw [isMarked_append,m.isMarked_text,Bool.or_true])
  · have blank : isMarked " " = true := by decide
    exact .pure (by simp only [infixText,isMarked_append,blank,Bool.or_true,Bool.true_or])

theorem chain_answers (left : String) (paired : comparators.length = ops.length)
    (steps : ∀ p ∈ comparators, Fluent p.2) : Answers Unreserved (chain left ops comparators) := by
  induction ops generalizing left comparators with
  | nil => exact .pure (by decide : "" ∉ reservedWords)
  | cons op ops ih =>
    cases comparators with
    | nil => simp at paired
    | cons p rest =>
      refine .bind (steps p (by simp)).text fun right _ => .bind (link_answers ..) fun first marked => ?_
      refine .ite (fun _ => .pure (unreserved_of_isMarked marked)) fun _ => ?_
      refine .bind (ih right (by simpa using paired) fun q member => steps q (by simp [member]))
        fun others _ => .pure (unreserved_of_isMarked ?_)
      simp [marked]

theorem comparison_fluent (paired : comparators.length = ops.length) (first : Fluent left)
    (steps : ∀ p ∈ comparators, Fluent p.2) : Fluent (comparison left ops comparators) :=
  .after first.text fun _ _ => .after (chain_answers _ paired steps) fun _ free => emit_fluent free

theorem conditional_fluent (first : Fluent test) (second : Fluent body) (third : Fluent orElse) :
    Fluent (conditional test body orElse) :=
  .after first.text fun _ _ => .after second.text fun _ _ => .after third.text fun _ _ =>
    emit_marked (by simp [(by decide : isMarked " and " = true)])

/-! ## Names, places and displays -/

theorem memberAccess_fluent (name : Option String) (step : Fluent value) : Fluent (memberAccess value name) :=
  .after step.text fun _ _ => emit_marked (by simp [(by decide : isMarked "." = true)])

theorem isMarked_indexText (index : String) : isMarked (indexText index) = true := by
  simp [indexText,splitIndex,String.join_append,(by decide : isMarked "[" = true)]

theorem subscript_fluent {slice : Compile Unit} (first : Fluent value) (second : Fluent slice) :
    Fluent (subscript value slice) :=
  .after second.text fun index _ => .after first.text fun name free => .ite
    (fun reserved => absurd (by simpa using reserved) free)
    fun _ => emit_marked (by simp [isMarked_indexText])

/-- The constants that have a literal: all numbers but those with too many digits and the complex
ones, texts, truth values and nothing. -/
def isWritable : Constant → Bool
  | .int n => (Nat.toDigits 10 n.natAbs).length ≤ Json.digitLimit
  | .complex .. | .bytes _ | .ellipsis => false
  | .none | .bool _ | .float _ | .str _ => true

theorem constant_fluent {c : Constant} (writable : isWritable c = true) : Fluent (constant c) := by
  cases c with
  | none => exact emit_fluent (by decide : "nil" ∉ reservedWords)
  | bool b =>
    cases b
    · exact emit_fluent (by decide : "false" ∉ reservedWords)
    · exact emit_fluent (by decide : "true" ∉ reservedWords)
  | int n =>
    have written : (Constant.int n).display = .ok (toString n) := by
      have fits : ¬ Json.digitLimit < (Nat.toDigits 10 n.natAbs).length :=
        Nat.not_lt.mpr (of_decide_eq_true writable)
      simp only [Constant.display,Constant.literal,Constant.intText,if_neg fits]
    exact .after (.ofExcept (P := Unreserved) written (integer_unreserved n)) fun _ free => emit_fluent free
  | float x =>
    exact .after (.ofExcept (P := Unreserved) rfl (float_unreserved x)) fun _ free => emit_fluent free
  | str text =>
    exact .after .frame fun _ _ => .ite
      (fun _ => emit_marked (by simp [(by decide : isMarked "--[[ " = true)]))
      fun _ => emit_fluent (quote_unreserved text)
  | complex | bytes | ellipsis => cases writable

theorem isMarked_bracedList (texts : List String) : isMarked (bracedList texts) = true := by
  simp [bracedList,(by decide : isMarked "\x7b" = true)]

theorem listDisplay_fluent (steps : ∀ c ∈ elts, Fluent c) : Fluent (listDisplay elts) :=
  .after (inlineEach_answers steps) fun _ _ => emit_marked (isMarked_bracedList _)

theorem tupleDisplay_fluent (steps : ∀ c ∈ elts, Fluent c) : Fluent (tupleDisplay elts) :=
  .after (inlineEach_answers steps) fun _ _ => emit_marked (by simp [isMarked_bracedList])

theorem dictDisplay_fluent (paired : values.length = keys.length) (first : ∀ c ∈ keys, Fluent c)
    (second : ∀ c ∈ values, Fluent c) : Fluent (dictDisplay keys values) := by
  refine .after (inlineEach_answers first) fun ks keysLength => ?_
  refine .after (inlineEach_answers second) fun vs valuesLength => ?_
  refine .ite (fun short => absurd short (by omega)) fun _ => .after (.needs _) fun _ _ => ?_
  exact .append (emit_marked (by simp [isMarked_bracedList])) (.of_answers (.needs _) rfl)
    (Q := fun lines => lines = []) fun xs ys free none => by simpa [none] using free

/-! ## Functions, calls and comprehensions -/

/-- A parameter that has a name. -/
def GivenParam (n : Node) : Prop := ∃ name hint comment, n = .param (some name) hint comment

theorem paramNames_ok (named : ∀ n ∈ regular, GivenParam n) :
    ∃ names : List String, names.length = regular.length ∧ regular.mapM paramName = .ok (names.map some) := by
  induction regular with
  | nil => exact ⟨[],rfl,rfl⟩
  | cons n rest ih =>
    obtain ⟨names,length,ran⟩ := ih fun m member => named m (by simp [member])
    obtain ⟨name,hint,comment,rfl⟩ := named n (by simp)
    refine ⟨name :: names,by simp [length],?_⟩
    rw [List.mapM_cons,ran]
    rfl

theorem givenNames_some (names : List String) : givenNames (names.map some) = .ok names := by
  induction names with
  | nil => rfl
  | cons name rest ih =>
    have others : (rest.map some).mapM givenName = .ok rest := ih
    rw [givenNames,List.map_cons,List.mapM_cons,others]
    rfl

theorem lambda_fluent (named : ∀ n ∈ regular, GivenParam n) (step : Fluent body) :
    Fluent (lambda (.params posOnly regular rest kwOnly kwDefaults kwRest defaults) body) := by
  obtain ⟨names,_,ran⟩ := paramNames_ok named
  have given : (paramNames (.params posOnly regular rest kwOnly kwDefaults kwRest defaults) >>=
      givenNames) = .ok names := by
    rw [paramNames,ran]
    exact givenNames_some names
  exact .after (.ofExcept (P := fun _ => True) given trivial) fun _ _ => .after step.text fun _ _ =>
    emit_marked (by simp [(by decide : isMarked "function(" = true)])

theorem call_fluent (args : List Node) (keywords : List NamedArgument)
    (noMethod : listMethod? funcNode = none) (first : Fluent func)
    (second : ∀ c ∈ argRuns, Fluent c) :
    Fluent (call none funcNode args func argRuns keywords) := by
  refine .after first.text fun name _ => .guarded (.needs _) ?_
  refine .after (inlineEach_answers second) fun texts _ => ?_
  rw [noMethod]
  exact emit_marked (by simp [(by decide : isMarked "(" = true)])

/-- A clause that has all its parts. -/
structure Clause.Fluent (clause : Clause) : Prop where
  target : ∃ c, clause.target = some c ∧ Compile.Fluent c
  iter : ∃ c, clause.iter = some c ∧ Compile.Fluent c
  filters : ∃ cs, clause.filters = some cs ∧ ∀ c ∈ cs, Compile.Fluent c

abbrev WritesLines (c : Compile Unit) : Prop := Writes (fun _ => True) c

theorem emit_lines (text : String) : WritesLines (emit text) := .emit trivial

theorem WritesLines.followed (first : WritesLines c) (second : WritesLines (f ())) : WritesLines (c >>= f) :=
  .append first second fun _ _ _ _ => trivial

theorem each_lines (steps : ∀ c ∈ cs, WritesLines c) : WritesLines (each cs) := by
  induction cs with
  | nil => exact .of_answers (.pure (P := fun _ => True) trivial) trivial
  | cons c rest ih =>
    exact (steps c (by simp)).followed (ih fun d member => steps d (by simp [member]))

theorem openClause_lines (parts : clause.Fluent) : WritesLines (openClause clause) := by
  obtain ⟨target,hasTarget,readsTarget⟩ := parts.target
  obtain ⟨iter,hasIter,readsIter⟩ := parts.iter
  obtain ⟨filters,hasFilters,readsFilters⟩ := parts.filters
  simp only [openClause,hasTarget,hasIter,hasFilters,requirePart]
  refine .after (.pure (P := (· = target)) rfl) fun _ same => same ▸ ?_
  refine .after readsTarget.text fun target _ => ?_
  refine .after (.pure (P := (· = iter)) rfl) fun _ same => same ▸ ?_
  refine .after readsIter.text fun iter _ => ?_
  refine (emit_lines _).followed ?_
  refine .after (.pure (P := (· = filters)) rfl) fun _ same => same ▸ each_lines fun c member => ?_
  obtain ⟨filter,inside,rfl⟩ := List.mem_map.mp member
  exact .after (readsFilters filter inside).text fun _ _ => emit_lines _

theorem comprehension_fluent (starts : WritesLines start) (parts : ∀ c ∈ clauses, c.Fluent)
    (stores : Answers (fun _ => True) store) : Fluent (comprehension start clauses store) := by
  have opened : WritesLines (each (clauses.map openClause)) := by
    refine each_lines fun c member => ?_
    obtain ⟨clause,inside,rfl⟩ := List.mem_map.mp member
    exact openClause_lines (parts clause inside)
  have rest : WritesLines (start >>= fun _ => each (clauses.map openClause) >>= fun _ =>
      store >>= fun stored => emit stored >>= fun _ => emit (ends (clausesDepth clauses)) >>= fun _ =>
        emit "return result" >>= fun _ => emit "end)()") :=
    starts.followed <| opened.followed <| .after stores fun stored _ => (emit_lines stored).followed <|
      (emit_lines _).followed <| (emit_lines _).followed (emit_lines _)
  refine .append (P := fun lines => lines = ["(function()"]) (.emit rfl) rest ?_
  rintro _ lines rfl -
  exact unreserved_of_isMarked (isMarked_intercalate (by decide) lines)

theorem startDict_lines : WritesLines startDict :=
  .after (.needs _) fun _ _ => (emit_lines _).followed (.of_answers (.needs _) trivial)

end Compile

end LuauCompiler
