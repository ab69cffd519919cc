import LuauCompiler.Proofs.Containers
import LuauCompiler.Proofs.KeptTexts

/-! The argument of a list method is written by the printer of source texts, not compiled. -/
namespace LuauCompiler

namespace Integer

theorem digit_value (digit : c.isDigit = true) :
    Digit.value? c = some (c.toNat - 48) ∧ isBlank c = false := by
  have all : ∀ d < 10, Digit.value? (Nat.digitChar d) = some ((Nat.digitChar d).toNat - 48) ∧
      isBlank (Nat.digitChar d) = false := by
    decide
  obtain ⟨d,small,rfl⟩ := Luau.digitChar_of_isDigit digit
  exact all d small

theorem digits_read (digits : ∀ c ∈ cs, c.isDigit = true) (afterDigit : Bool)
    (given : afterDigit = true ∨ cs ≠ []) :
    digits? afterDigit cs = some (cs.map (·.toNat - 48)) := by
  induction cs generalizing afterDigit with
  | nil => simpa [digits?] using given
  | cons c cs ih =>
    rw [digits?,(digit_value (digits c List.mem_cons_self)).1]
    simp [ih (fun d member => digits d (List.mem_cons_of_mem _ member)) true (.inl rfl)]

theorem trim_of_plain (plain : ∀ c ∈ cs, isBlank c = false) : trim cs = cs := by
  have kept (cs : List Char) (plain : ∀ c ∈ cs, isBlank c = false) : cs.dropWhile isBlank = cs := by
    cases cs with
    | nil => rfl
    | cons c cs => rw [List.dropWhile_cons,plain c List.mem_cons_self]; rfl
  rw [trim,kept cs plain,kept _ (by simpa using plain),List.reverse_reverse]

theorem numeral_natural (n : Nat) : numeral? (toString n) =
    some (false,(Nat.toDigits 10 n).map (·.toNat - 48)) := by
  have digits : ∀ c ∈ Nat.toDigits 10 n, c.isDigit = true := fun c member =>
    Nat.isDigit_of_mem_toDigits (by decide) (by decide) member
  have read := digits_read digits false (.inr Nat.toDigits_ne_nil)
  rw [numeral?,Nat.toString_eq_ofList_toDigits,String.toList_ofList,trim_of_plain fun c member => (digit_value (digits c member)).2]
  split <;> rename_i shape
  · exact absurd (digits '-' (by simp [shape])) (by decide)
  · exact absurd (digits '+' (by simp [shape])) (by decide)
  · rw [read]
    rfl

theorem value_natural (n : Nat) : value false ((Nat.toDigits 10 n).map (·.toNat - 48)) = n := by
  have read : Digit.number ((Nat.toDigits 10 n).map (·.toNat - 48)) = Nat.ofDigitChars 10 (Nat.toDigits 10 n) 0 := by
    rw [Digit.number,List.foldl_map,Nat.ofDigitChars_eq_foldl]
    rfl
  simp [value,read]

end Integer

open Text Source Compile

theorem position_natural (fits : (Nat.toDigits 10 n).length ≤ Json.digitLimit) :
    position (toString n) = .ok (n + 1) := by
  rw [position,Integer.numeral_natural]
  change (if Json.digitLimit < ((Nat.toDigits 10 n).map (·.toNat - 48)).length then _ else _) = _
  rw [List.length_map,if_neg (by omega),Integer.value_natural]

/-- The places of an argument in the list methods. -/
inductive Placement where
  | append | remove | count | index | extend
  | insert (position : Nat)

namespace Placement

def method : Placement → String
  | append => "append"
  | remove => "remove"
  | count => "count"
  | index => "index"
  | extend => "extend"
  | insert _ => "insert"

def arguments (p : Placement) (e : Node) : List Node :=
  match p with
  | insert position => [.constant (.int position) none,e]
  | _ => [e]

def call (p : Placement) (name : String) (e : Node) : Node :=
  .call (.attribute (.name (some name) .absent) (some p.method) .absent) (p.arguments e) []

/-- The code around a text for the argument. -/
def text (p : Placement) (name operand : String) : String :=
  match p with
  | append => "table.insert(" ++ name ++ "," ++ operand ++ ")"
  | remove => "table.remove(" ++ name ++ "," ++ operand ++ ")"
  | count => countText name operand
  | index => "table.find(" ++ name ++ "," ++ operand ++ ")"
  | extend => extendText operand name
  | insert position => "table.insert(" ++ name ++ "," ++ toString (position + 1) ++ "," ++ operand ++ ")"

/-- The position can be written. -/
def fits : Placement → Bool
  | insert position => (Nat.toDigits 10 (position + 1)).length ≤ Json.digitLimit
  | _ => true

theorem text_inj (p : Placement) (name : String) : p.text name a = p.text name b ↔ a = b := by
  cases p with
  | append | remove | index | insert =>
    unfold text
    rw [String.append_left_inj,String.append_right_inj]
  | count =>
    unfold text countText
    rw [String.append_left_inj,String.append_right_inj]
  | extend =>
    unfold text extendText
    rw [String.append_left_inj,String.append_left_inj,String.append_left_inj,String.append_right_inj]

end Placement

theorem word_operandText (n : Node) (given : n.word? = some word) : operandText n = .ok word := by
  cases n with
  | name id =>
    cases id with
    | none => cases given
    | some id =>
      cases given
      rfl
  | «attribute» value attr =>
    cases attr with
    | none => cases given
    | some attr =>
      obtain ⟨front,known,rest⟩ := Option.bind_eq_some_iff.mp given
      split at rest
      · cases rest
      · cases rest
        change (operandText value).map (· ++ "." ++ attr) = _
        rw [word_operandText value known]
        rfl
  | _ => cases given

/-- Whether the operand of a list method keeps the text it is compiled to, where the tree tells. The items
of a list stand in braces in both texts. -/
def Node.operandKeeps? : Node → Option Bool
  | .list elts _ => keepsEach? elts
  | e => e.keeps? Level.test

theorem mapM_ofNode (puts : List.Forall₂ Writer.Puts (atLevel false Level.test (printers elts)) sources) :
    elts.mapM Source.ofNode = .ok sources := by
  induction elts generalizing sources with
  | nil =>
    cases puts
    rfl
  | cons n ns ih =>
    cases puts with
    | cons put others =>
      have first : Source.ofNode n = .ok _ := put.text
      rw [List.mapM_cons,first,ih others]
      rfl

theorem operand_compared (config : Option Config) (kept : e.operandKeeps? = some same) :
    Tells Quiet (fun f => f.docstring = false)
      (fun text => ∃ source, operandText e = .ok source ∧ Compared same source text)
      (inline (visit config e)) := by
  have printed (kept : e.keeps? Level.test = some same)
      (written : ∀ source, Writer.Puts (print e false Level.test) source → operandText e = .ok source) :
      Tells Quiet (fun f => f.docstring = false)
        (fun text => ∃ source, operandText e = .ok source ∧ Compared same source text)
        (inline (visit config e)) := by
    refine (Tallies.text (visit_tallies config e kept)).mono fun text twins => ?_
    obtain ⟨source,put,compared⟩ := twins
    exact ⟨source,written source put,compared⟩
  have word {word : String} (given : e.word? = some word) (source : String)
      (put : Writer.Puts (print e false Level.test) source) : operandText e = .ok source := by
    obtain rfl := put.unique (word_puts e given _)
    exact word_operandText e given
  cases e with
  | name id =>
    cases id with
    | none => cases kept
    | some id => exact printed kept (word rfl)
  | «attribute» value attr =>
    obtain ⟨_,given,-⟩ := Option.map_eq_some_iff.mp kept
    exact printed kept (word given)
  | list elts =>
    have listed : Says Quiet (fun f => f.docstring = false)
        (fun lines => ∃ texts, lines = [bracedList texts] ∧
          TwinsEach (atLevel false Level.test (printers elts)) same texts)
        (listDisplay (visits config elts)) :=
      .after (visits_tally config elts kept) fun texts twins => .emit ⟨texts,rfl,twins⟩
    refine Says.inline listed fun lines given => ?_
    obtain ⟨texts,rfl,twins⟩ := given
    obtain ⟨sources,puts,compared⟩ := twins.sources
    refine ⟨bracedList sources,?_,?_⟩
    · rw [operandText,mapM_ofNode puts]
      rfl
    · rw [String.intercalate_singleton]
      have joined := ((Compared.refl "\x7b").append (compared ", ")).append (Compared.refl "\x7d")
      simpa [bracedList,commaSeparated] using joined
  | _ => exact printed kept fun _ put => put.text

namespace Placement

def kind : Placement → ListMethod
  | append => .append
  | remove => .remove
  | count => .count
  | index => .index
  | extend => .extend
  | insert _ => .insert

theorem intText_natural (fits : (Nat.toDigits 10 n).length ≤ Json.digitLimit) :
    Constant.intText n = .ok (toString n) := by
  unfold Constant.intText
  exact if_neg (Nat.not_lt.mpr fits)

theorem fits_position (fits : (Nat.toDigits 10 (n + 1)).length ≤ Json.digitLimit) :
    (Nat.toDigits 10 n).length ≤ Json.digitLimit := by
  rw [Nat.length_toDigits_le_iff (by decide) (by decide)] at fits ⊢
  exact Nat.lt_of_succ_lt fits

theorem method_text {p : Placement} (fits : p.fits = true) (name : String) (access e : Node) :
    listMethodText p.kind (.name (some name) access) (p.arguments e) = (operandText e).map (p.text name) := by
  have through (f : String → String) :
      ((operandText e).bind fun operand => .ok (f operand)) = (operandText e).map f := by
    cases operandText e <;> rfl
  cases p with
  | append | remove | count | index | extend => exact through _
  | insert position =>
    replace fits : (Nat.toDigits 10 (position + 1)).length ≤ Json.digitLimit := by
      simpa [Placement.fits] using fits
    have numeral : valueText false (.int position) = .ok (toString position) :=
      intText_natural (fits_position fits)
    have first : operandText (.constant (.int position) none) = .ok (toString position) :=
      (constant_puts (by decide) numeral).text
    have placed : Compile.position (toString position) = .ok ((position + 1 : Nat) : Int) :=
      position_natural (fits_position fits)
    change ((operandText (.constant (.int position) none)).bind fun numeral =>
      (Compile.position numeral).bind fun place => (operandText e).bind fun value =>
        (Constant.intText place).bind fun shown =>
          .ok ("table.insert(" ++ name ++ "," ++ shown ++ "," ++ value ++ ")")) = _
    rw [first]
    change ((Compile.position (toString position)).bind fun place => (operandText e).bind fun value =>
        (Constant.intText place).bind fun shown =>
          .ok ("table.insert(" ++ name ++ "," ++ shown ++ "," ++ value ++ ")")) = _
    rw [placed]
    change ((operandText e).bind fun value => (Constant.intText ((position + 1 : Nat) : Int)).bind fun shown =>
          .ok ("table.insert(" ++ name ++ "," ++ shown ++ "," ++ value ++ ")")) = _
    rw [intText_natural fits]
    exact through _

end Placement

namespace Compile

variable {config : Option Config} {s t : State} {p : Placement} {name : String} {e : Node}

variable {u : State}

/-- The call is compiled, and the text stands for the argument. -/
def StandsFor (config : Option Config) (s : State) (p : Placement) (name : String) (e : Node)
    (operand : String) : Prop :=
  ∃ before t, s.output = .block before ∧ Gives (visit config (p.call name e)) s () t ∧
    t.output = .block (before ++ [.line (p.text name operand)])

theorem Gives.bind_iff (first : Gives c s a u) : Gives (c >>= f) s b t ↔ Gives (f a) u b t := by
  rw [gives_bind]
  constructor
  · rintro ⟨_,_,run,rest⟩
    obtain ⟨rfl,rfl⟩ := first.unique run
    exact rest
  · exact fun rest => ⟨_,_,first,rest⟩

theorem member_gives (config : Option Config) (s : State) (name attr : String) (access access' : Node) :
    Gives (inline (visit config (.attribute (.name (some name) access) (some attr) access'))) s
      (Term.objectText name ++ "." ++ attr) s := by
  refine gives_inline.mpr ⟨{ s with output := .block [.line (Term.objectText name ++ "." ++ attr)] },
    [_],?_,rfl,rfl,rfl⟩
  change Gives (memberAccess (visit config (.name (some name) access)) (some attr)) _ () _
  rw [memberAccess,Gives.bind_iff (name_gives ..)]
  exact gives_emit.mpr ⟨[],rfl,rfl⟩

theorem integer_gives (config : Option Config) (s : State)
    (short : (Nat.toDigits 10 n).length ≤ Json.digitLimit) :
    Gives (inline (visit config (.constant (.int n) none))) s (toString n) s := by
  refine gives_inline.mpr ⟨{ s with output := .block [.line (toString n)] },[_],?_,rfl,rfl,rfl⟩
  change Gives (ofExcept (Constant.intText n) >>= emit) _ () _
  rw [Placement.intText_natural short]
  exact gives_emit.mpr ⟨[],rfl,rfl⟩

theorem single_gives (reads : Gives (inline (visit config e)) s text t) :
    Gives (inlineEach [visit config e]) s [text] t :=
  gives_all_cons.mpr ⟨_,_,reads,[],gives_all_nil.mpr ⟨rfl,rfl⟩,rfl⟩

theorem gives_listMethod (known : ListMethod.ofName? method = some m)
    (reads : Gives (inlineEach (visits config args)) s texts u) :
    Gives (visit config (.call (.attribute (.name (some name) .absent) (some method) .absent) args keywords)) s () t ↔
      Gives (if m = .sort then sortCall (.name (some name) .absent) (keywordsOf config keywords)
        else ofExcept (listMethodText m (.name (some name) .absent) args) >>= emit) u () t := by
  have other : Term.objectText name ++ "." ++ method ≠ "complex" := by
    intro same
    have dotted : '.' ∈ (Term.objectText name ++ "." ++ method).toList := by simp
    rw [same] at dotted
    revert dotted
    decide
  have found : listMethod? (.attribute (.name (some name) .absent) (some method) .absent) =
      some (m,.name (some name) .absent) := by
    rw [listMethod?,known]
    rfl
  change Gives (call none _ args _ (visits config args) (keywordsOf config keywords)) s () t ↔ _
  rw [call,Gives.bind_iff (member_gives ..),if_neg other,Gives.bind_iff reads,found]
  cases m <;> rfl

theorem gives_method (fits : p.fits = true) {text : String}
    (reads : Gives (inline (visit config e)) s text u) :
    Gives (visit config (p.call name e)) s () t ↔ ∃ operand, operandText e = .ok operand ∧
      Gives (emit (p.text name operand)) u () t := by
  have known : ListMethod.ofName? p.method = some p.kind := by cases p <;> rfl
  have plain : p.kind ≠ .sort := by cases p <;> exact ListMethod.noConfusion
  obtain ⟨texts,each⟩ : ∃ texts, Gives (inlineEach (visits config (p.arguments e))) s texts u := by
    have single := single_gives reads
    cases p with
    | append | remove | count | index | extend => exact ⟨_,single⟩
    | insert position =>
      have short : (Nat.toDigits 10 position).length ≤ Json.digitLimit :=
        Placement.fits_position (by simpa [Placement.fits] using fits)
      have numeral := integer_gives config s short
      refine ⟨[toString position,text],?_⟩
      change Gives (all [inline (visit config (.constant (.int position) none)),inline (visit config e)]) s _ u
      exact gives_all_cons.mpr ⟨_,_,numeral,[text],single,rfl⟩
  rw [Placement.call,gives_listMethod known each,if_neg plain,Placement.method_text fits,gives_ofExcept_bind]
  cases operandText e <;> simp [Except.map]

/-- The argument of a list method is not compiled: the text that stands for it is that of the second
printer. In the call of a function it is compiled. Where the tree tells whether the texts are the same,
it is right. -/
theorem argument_stands_iff {before : List Code} {text : String} (fits : p.fits = true)
    (out : s.output = .block before) (texts : Texts config s e text) :
    (∀ operand, StandsFor config s p name e operand ↔ operandText e = .ok operand) ∧
    (∀ function, function ≠ "complex" → ∃ t,
      Gives (visit config (.call (.name (some function) .absent) [e] [])) s () t ∧
      t.output = .block (before ++ [.line (function ++ "(" ++ text ++ ")")])) ∧
    ∀ same, s.frames.top.docstring = false → e.operandKeeps? = some same →
      (StandsFor config s p name e text ↔ same = true) := by
  obtain ⟨u,reads⟩ := texts
  have kept : u.output = .block before := by
    obtain ⟨_,_,-,-,-,rfl⟩ := gives_inline.mp reads
    exact out
  have stands (operand : String) : StandsFor config s p name e operand ↔ operandText e = .ok operand := by
    constructor
    · rintro ⟨before',t,out',run,shown⟩
      obtain ⟨other,printed,written⟩ := (gives_method fits reads).mp run
      obtain ⟨before'',out'',rfl⟩ := gives_emit.mp written
      cases out.symm.trans out'
      cases kept.symm.trans out''
      have same : p.text name other = p.text name operand := by simpa using shown
      rw [printed,(p.text_inj name).mp same]
    · intro printed
      exact ⟨before,_,out,(gives_method fits reads).mpr ⟨operand,printed,gives_emit.mpr ⟨before,kept,rfl⟩⟩,rfl⟩
  refine ⟨stands,fun function other => ?_,fun same plain told => ?_⟩
  · have each : Gives (inlineEach [visit config e]) s [text] u := single_gives reads
    refine ⟨{ u with output := .block (before ++ [.line (function ++ "(" ++ text ++ ")")]) },?_,rfl⟩
    change Gives (call none _ [e] _ [visit config e] []) s () _
    rw [call,Gives.bind_iff (name_gives ..),if_neg other,Gives.bind_iff each]
    refine gives_emit.mpr ⟨before,kept,?_⟩
    rw [commaSeparated,String.intercalate_singleton]
  · obtain ⟨-,-,source,printed,compared⟩ := (operand_compared config told).run s text u plain reads
    rw [stands,printed,← compared.eq_iff]
    exact ⟨Except.ok.inj,congrArg Except.ok⟩

/-- A call of dotted names, whose second argument is a comparison with a difference in parentheses. -/
def plainArgument : Node := .call (.attribute (.name (some "a") .absent) (some "f") .absent)
    [.subscript (.name (some "b") .absent) (.constant (.str "key") none) .absent,
      .compare (.unaryOp (.mark (.unary .uSub)) (.binOp (.name (some "m") .absent) (.mark (.binary .sub))
        (.constant (.int 1) none))) [.mark (.compare .ltE)] [.name (some "n") .absent]] []

theorem plainArgument_stands :
    let s := State.initial .empty
    let text := "a.f(b['key'], -(m - 1) <= n)"
    plainArgument.operandKeeps? = some true ∧ Texts none s plainArgument text ∧
      (∀ operand, StandsFor none s (.insert 2) "x" plainArgument operand ↔
        operandText plainArgument = .ok operand) ∧
      (∀ function, function ≠ "complex" → ∃ t,
        Gives (visit none (.call (.name (some function) .absent) [plainArgument] [])) s () t ∧
        t.output = .block ([] ++ [.line (function ++ "(" ++ text ++ ")")])) ∧
      ∀ same, s.frames.top.docstring = false → plainArgument.operandKeeps? = some same →
        (StandsFor none s (.insert 2) "x" plainArgument text ↔ same = true) := by
  have texts : Texts none (.initial .empty) plainArgument "a.f(b['key'], -(m - 1) <= n)" :=
    ⟨_,gives_of_toOption (by decide +kernel)⟩
  exact ⟨by decide +kernel,texts,argument_stands_iff rfl rfl texts⟩

/-- The truth value keeps its name. -/
theorem truth_value_appended :
    let e : Node := .constant (.bool true) none
    let s := State.initial .empty
    (visit none (Placement.append.call "x" e) s).1.isOk = true ∧
      (visit none (Placement.append.call "x" e) s).2.output = .block [.line "table.insert(x,True)"] ∧
      (inline (visit none e) s).1.toOption = some "true" ∧
      "table.insert(x,True)" ≠ Placement.append.text "x" "true" := by
  decide +kernel

end Compile

end LuauCompiler
