import LuauCompiler.Proofs.Containers
import Mathlib.Data.List.Induction

/-! The text of a sum or a product hangs on what is known of its operands: a text constant, or a text
that has a tag. An augmented assignment does not ask. -/
namespace LuauCompiler.Compile

open Term (operationText)

variable {config : Option Config} {s t : State}
variable {texts : List String} {right text : String}

/-- The operation acts on numbers, whatever its operands are. -/
def numericText (k : BinaryOp) (left right : String) : String :=
  parenthesised ((binaryText? k left right).getD "")

theorem operationText_eq_numeric (plain : '(' ∉ x.toList) (k : BinaryOp) (first second : Bool)
    (right : String) : operationText k first second x right = numericText k x right ↔
      ¬((k = .add ∨ k = .mult) ∧ (first = true ∨ second = true)) := by
  have group : (numericText k x right).toList.head? = some '(' := by
    simp [numericText,parenthesised,String.toList_append]
  -- What acts on texts begins with the name or with the name of a function.
  have parted : (operationText k first second x right).toList.head? ≠ some '(' →
      operationText k first second x right ≠ numericText k x right := by
    rintro other same
    rw [same] at other
    exact other group
  have front : x.toList.head?.getD ' ' ≠ '(' := by
    cases letters : x.toList with
    | nil => simp
    | cons c more =>
      rw [letters] at plain
      rintro rfl
      exact plain (by simp)
  cases k
  case mult | add =>
    cases first <;> cases second <;> simp only [reduceCtorEq,or_true,or_false,or_self,
      true_and,not_true_eq_false,not_false_eq_true,iff_true,iff_false,Bool.false_eq_true]
    · rfl
    all_goals exact parted (by simp [operationText,front])
  all_goals
    simp only [reduceCtorEq,or_self,false_and,not_false_eq_true,iff_true]
    rfl

/-- The name is known to hold a list, and what is to be added is not known to be one. -/
def AddsToList (tags : List (String × String)) (k : BinaryOp) (x : String) (v : Node) (text : String) : Prop :=
  k = .add ∧ tags.lookup x = some "list" ∧ ¬(v.isList = true ∨ tags.lookup text = some "list")

/-- A text is added or repeated: the name is known to hold one, or the other operand is known to be one. -/
def ActsOnText (tags : List (String × String)) (k : BinaryOp) (x : String) (v : Node) (text : String) : Prop :=
  (k = .add ∨ k = .mult) ∧
    (tags.lookup x = some "str" ∨ v.isStrConstant = true ∨ tags.lookup text = some "str")

/-- What is assigned in `x op= v` is the text of `x op v`, unless a text is added or repeated. Where a
list is to be added to something else the operation is refused and the assignment is not. -/
theorem augmented_assignment_text {x text : String} {access op v : Node} {k : BinaryOp}
    {before : List Code} (plain : '(' ∉ x.toList) (known : op.binaryOp? = some k)
    (supported : k ≠ .matMult) (expr : v.isExpression = true)
    (reads : Gives (inline (visit config v)) s text t) (out : s.output = .block before) :
    ∃ right : String, Gives (visit config (.augAssign (.name (some x) access) op v)) s ()
        { t with output := .block (before ++ [.line (x ++ " = " ++ right)]) } ∧
      (AddsToList s.tags k x v text →
        (visit config (.binOp (.name (some x) access) op v) s).1 = .error (.exit (some 1))) ∧
      (¬ AddsToList s.tags k x v text → ∃ whole : String,
        Gives (visit config (.binOp (.name (some x) access) op v)) s ()
          { t with output := .block (before ++ [.line whole]) } ∧
        (whole = right ↔ ¬ ActsOnText s.tags k x v text)) := by
  have signed : isSupported k = true := by simpa [isSupported] using supported
  have operator : Gives (binaryOperator op) s k s := by
    rw [binaryOperator,known]
    simp [signed]
  have named := name_gives config s x access
  obtain ⟨-,helpers,generators,-,-,rfl,-⟩ := expression_text_stable expr reads
  have put : ∀ line : String, Gives (emit line) (s.gained helpers generators) ()
      { s.gained helpers generators with output := .block (before ++ [.line line]) } := fun line =>
    gives_emit.mpr ⟨before,out,rfl⟩
  have operation := binaryOperation_run (a := .name (some x) access) (b := v) known signed named reads
  rw [show (s.gained helpers generators).tags = s.tags from rfl] at operation
  have refused : (k == .add && listLike s.tags (.name (some x) access) x && !listLike s.tags v text) = true ↔
      AddsToList s.tags k x v text := by
    simp [AddsToList,listLike,Node.isList,and_assoc,and_comm]
  have texts : ActsOnText s.tags k x v text ↔ (k = .add ∨ k = .mult) ∧
      (textLike s.tags (.name (some x) access) x = true ∨ textLike s.tags v text = true) := by
    simp [ActsOnText,textLike,Node.isStrConstant]
  refine ⟨numericText k x text,?_,?_,?_⟩
  · have shown : Gives (plainBinary k x text) (s.gained helpers generators) (numericText k x text)
        (s.gained helpers generators) := by
      cases k <;> first | exact absurd rfl supported | rfl
    exact (bind_of_gives operator).trans ((bind_of_gives named).trans ((bind_of_gives reads).trans
      ((bind_of_gives shown).trans (put _))))
  · intro clash
    rw [if_pos (refused.mpr clash)] at operation
    exact congrArg Prod.fst operation
  · intro fine
    rw [if_neg (fine ∘ refused.mp)] at operation
    exact ⟨_,operation.trans (put _),(operationText_eq_numeric plain ..).trans (not_congr texts.symm)⟩

/-- With a text held by `x`, repeating it and multiplying it part. -/
theorem repeated_text_augmented :
    let s : State := { State.initial .empty with tags := [("x","str")] }
    let x : Node := .name (some "x") .absent
    let n : Node := .name (some "n") .absent
    let times : Node := .mark (.binary .mult)
    '(' ∉ "x".toList ∧ times.binaryOp? = some .mult ∧ BinaryOp.mult ≠ .matMult ∧ n.isExpression = true ∧
      Gives (inline (visit none n)) s "n" s ∧ s.output = .block [] ∧
      ∃ right : String, Gives (visit none (.augAssign x times n)) s ()
          { s with output := .block ([] ++ [.line ("x" ++ " = " ++ right)]) } ∧
        (AddsToList s.tags .mult "x" n "n" → (visit none (.binOp x times n) s).1 = .error (.exit (some 1))) ∧
        (¬ AddsToList s.tags .mult "x" n "n" → ∃ whole : String,
          Gives (visit none (.binOp x times n)) s () { s with output := .block ([] ++ [.line whole]) } ∧
          (whole = right ↔ ¬ ActsOnText s.tags .mult "x" n "n")) := by
  intro s x n times
  have plain : '(' ∉ "x".toList := by decide
  have reads : Gives (inline (visit none n)) s "n" s := name_gives ..
  exact ⟨plain,rfl,by decide,rfl,reads,rfl,augmented_assignment_text plain rfl (by decide) rfl reads rfl⟩

def summed (first : Node) (rest : List Node) : Node :=
  rest.foldl (fun left e => .binOp left (.mark (.binary .add)) e) first

/-- The ways to join two texts; what is not known to be one is made one. -/
def joinsOf (left right : String) : List String :=
  [left ++ " .. " ++ right,left ++ " .. tostring(" ++ right ++ ")","tostring(" ++ left ++ ") .. " ++ right]

/-- The ways to join the row, from left to right. -/
def joinings (first : String) (rest : List String) : List String :=
  rest.foldl (fun lefts right => lefts.flatMap fun left => joinsOf left right) [first]

def plusses (text : String) : Nat := text.toList.count '+'

/-- How many signs stand in the operands themselves. -/
def operandPlusses (first : String) (rest : List String) : Nat :=
  rest.foldl (fun signs text => signs + plusses text) (plusses first)

/-- At each sum of the row one operand is known to be a text: what is added, or the text of all that
stands before it. -/
def TextAtEach (config : Option Config) (s : State) (first : Node) (parts : List (Node × String)) : Prop :=
  ∀ before p after left, parts = before ++ p :: after →
    Texts config s (summed first (before.map Prod.fst)) left →
    textLike s.tags (summed first (before.map Prod.fst)) left = true ∨ textLike s.tags p.1 p.2 = true

variable {first : Node} {start : String} {parts : List (Node × String)} {p : Node × String}

@[simp] theorem plusses_append (a b : String) : plusses (a ++ b) = plusses a + plusses b := by
  simp [plusses,String.toList_append]

@[simp] theorem summed_snoc (first : Node) (es : List Node) (e : Node) :
    summed first (es ++ [e]) = .binOp (summed first es) (.mark (.binary .add)) e := by
  simp [summed]

theorem summed_isExpression (expr : first.isExpression = true)
    (exprs : ∀ e ∈ es, e.isExpression = true) : (summed first es).isExpression = true := by
  induction es using List.reverseRecOn with
  | nil => exact expr
  | append_singleton es e ih =>
    rw [summed_snoc,Node.isExpression,ih fun d member => exprs d (by simp [member]),exprs e (by simp)]
    rfl

theorem mem_joinings_snoc :
    text ∈ joinings start (texts ++ [right]) ↔ ∃ left ∈ joinings start texts, text ∈ joinsOf left right := by
  simp [joinings]

theorem mem_joinsOf : text ∈ joinsOf left right ↔ ∃ known known' : Bool,
    (known || known') = true ∧ text = operationText .add known known' left right := by
  simp [joinsOf,operationText,Bool.exists_bool,or_comm,or_assoc]

theorem plusses_sum (known known' : Bool) (left right : String) :
    plusses (operationText .add known known' left right) =
      plusses left + plusses right + (if known || known' then 0 else 1) := by
  have marks : plusses " .. " = 0 ∧ plusses " .. tostring(" = 0 ∧ plusses "tostring(" = 0 ∧
      plusses ") .. " = 0 ∧ plusses ")" = 0 ∧ plusses "(" = 0 ∧ plusses " " = 0 ∧ plusses "+" = 1 := by decide
  cases known <;> cases known' <;>
    simp [operationText,binaryText?,parenthesised,infixText,marks,Nat.add_right_comm]

@[simp] theorem operandPlusses_snoc (start : String) (texts : List String) (right : String) :
    operandPlusses start (texts ++ [right]) = operandPlusses start texts + plusses right := by
  simp [operandPlusses]

theorem plusses_of_joined (joined : text ∈ joinings start texts) :
    plusses text = operandPlusses start texts := by
  induction texts using List.reverseRecOn generalizing text with
  | nil => simp_all [joinings,operandPlusses]
  | append_singleton texts right ih =>
    obtain ⟨left,earlier,form⟩ := mem_joinings_snoc.mp joined
    obtain ⟨known,known',either,rfl⟩ := mem_joinsOf.mp form
    rw [plusses_sum,if_pos either,ih earlier,operandPlusses_snoc]
    rfl

theorem textAtEach_snoc : TextAtEach config s first (parts ++ [p]) ↔ TextAtEach config s first parts ∧
    ∀ left, Texts config s (summed first (parts.map Prod.fst)) left →
      textLike s.tags (summed first (parts.map Prod.fst)) left = true ∨ textLike s.tags p.1 p.2 = true := by
  constructor
  · intro each
    refine ⟨fun before q after left same => each before q (after ++ [p]) left (by simp [same]),fun left =>
      each parts p [] left (by simp)⟩
  · rintro ⟨each,last⟩ before q after left same
    rcases after.eq_nil_or_concat with rfl | ⟨earlier,r,rfl⟩
    · obtain ⟨rfl,tail⟩ := List.append_inj' same rfl
      cases tail
      exact last left
    · rw [List.concat_eq_append,← List.cons_append,← List.append_assoc] at same
      exact each before q earlier left (List.append_inj' same rfl).1

theorem last_sum (expr : a.isExpression = true) (expr' : e.isExpression = true)
    (reads' : Texts config s e right)
    (accepted : Texts config s (.binOp a (.mark (.binary .add)) e) text) :
    ∃ left, Texts config s a left ∧
      text = operationText .add (textLike s.tags a left) (textLike s.tags e right) left right := by
  obtain ⟨t,run⟩ := accepted
  obtain ⟨u,-,inner,-⟩ := gives_inline.mp run
  rw [visit_sum] at inner
  obtain ⟨left,v,read,-⟩ := gives_bind.mp inner
  have reads : Texts config s a left := Texts.carried ⟨v,read⟩ expr rfl rfl rfl
  have whole : Ends config s (.binOp a (.mark (.binary .add)) e) (some text) := ⟨t,run⟩
  have same := (sum_text expr expr' reads reads').unique whole
  cases refused : listLike s.tags a left && !listLike s.tags e right with
  | true => simp [refused] at same
  | false =>
    rw [refused] at same
    exact ⟨left,reads,(Option.some.inj same).symm⟩

theorem textAtEach_shows (expr : first.isExpression = true) (exprs : ∀ p ∈ parts, p.1.isExpression = true)
    (reads : Texts config s first start) (each : ∀ p ∈ parts, Texts config s p.1 p.2)
    (accepted : Texts config s (summed first (parts.map Prod.fst)) text) :
    operandPlusses start (parts.map Prod.snd) ≤ plusses text ∧
      (plusses text = operandPlusses start (parts.map Prod.snd) → TextAtEach config s first parts) ∧
      (TextAtEach config s first parts → text ∈ joinings start (parts.map Prod.snd)) := by
  induction parts using List.reverseRecOn generalizing text with
  | nil =>
    obtain rfl := accepted.unique reads
    exact ⟨by simp [operandPlusses],fun _ before _ _ _ same => by simp at same,
      fun _ => List.mem_singleton_self _⟩
  | append_singleton parts p ih =>
    simp only [List.map_append,List.map_singleton,summed_snoc] at accepted ⊢
    have whole : (summed first (parts.map Prod.fst)).isExpression = true :=
      summed_isExpression expr (by simpa using fun e t member => exprs (e,t) (by simp [member]))
    obtain ⟨left,read,rfl⟩ := last_sum whole (exprs p (by simp)) (each p (by simp)) accepted
    obtain ⟨least,earlier,joined⟩ := ih (fun q member => exprs q (by simp [member]))
      (fun q member => each q (by simp [member])) read
    rw [textAtEach_snoc,operandPlusses_snoc,plusses_sum]
    refine ⟨by omega,fun same => ⟨earlier (by omega),fun other reads' => ?_⟩,fun ⟨known,last⟩ =>
      mem_joinings_snoc.mpr ⟨left,joined known,mem_joinsOf.mpr ⟨_,_,by simpa using last left read,rfl⟩⟩⟩
    obtain rfl := reads'.unique read
    by_contra neither
    rw [not_or,Bool.not_eq_true,Bool.not_eq_true] at neither
    rw [neither.1,neither.2,if_neg (by simp)] at same
    omega

/-- A sum that begins with a text is a concatenation throughout if at each of its sums one operand is
known to be a text, and only then. Otherwise it holds a sign that stands in none of its operands. -/
theorem text_sum_joined {value text : String} {kind : Option String}
    (exprs : ∀ p ∈ parts, p.1.isExpression = true ∧ Texts config s p.1 p.2)
    (reads : Texts config s (.constant (.str value) kind) start)
    (accepted : Texts config s (summed (.constant (.str value) kind) (parts.map Prod.fst)) text) :
    (text ∈ joinings start (parts.map Prod.snd) ↔ TextAtEach config s (.constant (.str value) kind) parts) ∧
      (plusses text = operandPlusses start (parts.map Prod.snd) ↔
        TextAtEach config s (.constant (.str value) kind) parts) := by
  obtain ⟨-,signs,joins⟩ := textAtEach_shows rfl (fun p member => (exprs p member).1) reads
    (fun p member => (exprs p member).2) accepted
  exact ⟨⟨fun joined => signs (plusses_of_joined joined),joins⟩,signs,fun known => plusses_of_joined (joins known)⟩

/-- A name between two texts is joined to both. -/
theorem enclosed_name_joined :
    let s := State.initial .empty
    let parts : List (Node × String) := [(.name (some "a") .absent,"a"),(.constant (.str "t") none,"'t'")]
    let text := "tostring('s' .. tostring(a)) .. 't'"
    (∀ p ∈ parts, p.1.isExpression = true ∧ Texts none s p.1 p.2) ∧
      Texts none s (.constant (.str "s") none) "'s'" ∧
      Texts none s (summed (.constant (.str "s") none) (parts.map Prod.fst)) text ∧
      (text ∈ joinings "'s'" (parts.map Prod.snd) ↔ TextAtEach none s (.constant (.str "s") none) parts) ∧
      (plusses text = operandPlusses "'s'" (parts.map Prod.snd) ↔
        TextAtEach none s (.constant (.str "s") none) parts) := by
  intro s parts text
  have exprs : ∀ p ∈ parts, p.1.isExpression = true ∧ Texts none s p.1 p.2 := by
    simp only [parts,List.forall_mem_cons]
    exact ⟨⟨rfl,_,name_gives ..⟩,⟨rfl,_,gives_of_toOption (by decide +kernel)⟩,by simp⟩
  have reads : Texts none s (.constant (.str "s") none) "'s'" := ⟨_,gives_of_toOption (by decide +kernel)⟩
  have accepted : Texts none s (summed (.constant (.str "s") none) (parts.map Prod.fst)) text :=
    ⟨_,gives_of_toOption (by decide +kernel)⟩
  exact ⟨exprs,reads,accepted,text_sum_joined exprs reads accepted⟩

/-- Of two names that are added to a text, the second one is added as a number. -/
theorem second_name_added : Texts none (.initial .empty) (summed (.constant (.str "s") none)
        [.name (some "a") .absent,.name (some "b") .absent]) "('s' .. tostring(a) + b)" ∧
      "('s' .. tostring(a) + b)" ∉ joinings "'s'" ["a","b"] ∧
      operandPlusses "'s'" ["a","b"] < plusses "('s' .. tostring(a) + b)" :=
  ⟨⟨_,gives_of_toOption (by decide +kernel)⟩,by decide +kernel,by decide +kernel⟩

end LuauCompiler.Compile
