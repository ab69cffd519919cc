import LuauCompiler.Proofs.ClassAtHand
import LuauCompiler.Proofs.FunctionAtHand
import LuauCompiler.Proofs.Outcomes
import LuauCompiler.Proofs.Stability
import LuauCompiler.Proofs.Statements

/-! Reserved words as names. An assignment refuses to bind a reserved word to a plain name and looks for
reserved words between the commas of its target. No other construct looks at the names that it binds. -/
namespace LuauCompiler

/-- The places where a name of the source is bound. -/
inductive Site where
  | assigned
  /-- An element of a tuple that is assigned to, with others before and behind it. -/
  | amid
  /-- The first or the last element of such a tuple. -/
  | atEnd
  | functionName
  | parameter
  /-- The parameter for the remaining arguments. -/
  | restParameter
  | className
  | loopTarget
  /-- An element of a tuple that a loop runs over. -/
  | loopElement
  | imported
  deriving DecidableEq, Repr

open Compile in
/-- The node binds a name in the code, other than through its parts. Parameters that are given by
position only or by keyword only are left out of the code. -/
inductive Binds : Node → Site → String → Prop
  | assigned {word : String} {access value : Node} {others : List Node} {comment : Option String} :
    Binds (.assign (.name (some word) access :: others) value comment) .assigned word
  | amid {word : String} {access tupleAccess value : Node} {front back others : List Node}
    {comment : Option String} (before : front ≠ []) (behind : back ≠ []) :
    Binds (.assign (.tuple (front ++ .name (some word) access :: back) tupleAccess :: others) value
      comment) .amid word
  | atEnd {word : String} {access tupleAccess value : Node} {front back others : List Node}
    {comment : Option String} (outermost : front = [] ∨ back = []) :
    Binds (.assign (.tuple (front ++ .name (some word) access :: back) tupleAccess :: others) value
      comment) .atEnd word
  | functionName {word : String} {params returns : Node} {body decorators : List Node}
    {comment : Option String} :
    Binds (.functionDef false (some word) params body decorators returns comment) .functionName word
  | parameter {word : String} {name : Option String} {hint rest kwRest returns : Node}
    {posOnly regular kwOnly kwDefaults defaults body decorators : List Node}
    {comment typeComment : Option String} (given : .param (some word) hint comment ∈ regular) :
    Binds (.functionDef false name (.params posOnly regular rest kwOnly kwDefaults kwRest defaults)
      body decorators returns typeComment) .parameter word
  | lambda {word : String} {hint rest kwRest body : Node}
    {posOnly regular kwOnly kwDefaults defaults : List Node} {comment : Option String}
    (given : .param (some word) hint comment ∈ regular) :
    Binds (.lambda (.params posOnly regular rest kwOnly kwDefaults kwRest defaults) body) .parameter word
  | restParameter {word : String} {name : Option String} {hint kwRest returns : Node}
    {posOnly regular kwOnly kwDefaults defaults body decorators : List Node}
    {comment typeComment : Option String} :
    Binds (.functionDef false name (.params posOnly regular (.param (some word) hint comment) kwOnly
      kwDefaults kwRest defaults) body decorators returns typeComment) .restParameter word
  | className {word : String} {bases keywords body decorators : List Node} :
    Binds (.classDef (some word) bases keywords body decorators) .className word
  | loopTarget {word : String} {access iter : Node} {body orElse : List Node}
    {comment : Option String} :
    Binds (.forStmt false (.name (some word) access) iter body orElse comment) .loopTarget word
  | loopElement {word : String} {access tupleAccess iter : Node} {front back body orElse : List Node}
    {comment : Option String} :
    Binds (.forStmt false (.tuple (front ++ .name (some word) access :: back) tupleAccess) iter body
      orElse comment) .loopElement word
  | module {name : String} {asName : Option String} {names : List Node}
    (given : .alias (some name) asName ∈ names) :
    Binds (.importStmt names) .imported (asName.getD (lastPart ((service? name).getD name)))
  | member {module name asName : Option String} {names : List Node} {level : Option Int}
    (given : .alias name asName ∈ names) (single : name ≠ some "*") :
    Binds (.importFrom module names level) .imported (asName.getD (shownName name))

/-- The name is looked at: only where it is assigned to, outside of the classes, or stands between
other names. -/
def Site.checked (className : String) : Site → Bool
  | .assigned => className.isEmpty
  | .amid => true
  | _ => false

namespace Compile

def tupleText (names : List String) : String := "table.freeze(" ++ bracedList names ++ ")"

/-- The code assigns to the target, which may be declared or stand under a class. -/
def AssignsTo (target : String) (entries : List Code) : Prop :=
  ∃ front text, entries = [.line (front ++ target ++ " = " ++ text)] ∧
    (front = "" ∨ front = "local " ∨ ∃ className, front = className ++ ".")

/-- The code is a loop over the target. -/
def TargetsLoop (target : String) (entries : List Code) : Prop :=
  ∃ header iter rest, entries = .line header :: rest ∧
    ((∃ overText, header = loopHeader overText target iter) ∨
      ∃ function, generatorHeader function target iter = .ok header)

end Compile

open Compile in
/-- The word is bound by the code. -/
def Site.Shows (word : String) (entries : List Code) : Site → Prop
  | .assigned => AssignsTo word entries
  | .amid | .atEnd => ∃ names, word ∈ names ∧ AssignsTo (tupleText names) entries
  | .functionName => ∃ keyword outer names rest, entries =
    .line (keyword ++ " function " ++ qualified outer word ++ "(" ++ names ++ ")") :: rest
  | .parameter => ∃ front names back rest, word ∈ names ∧
    entries = .line (front ++ "(" ++ Text.commaSeparated names ++ ")" ++ back) :: rest
  | .restParameter => ∃ header body rest, entries = header :: .block body :: rest ∧
    .line ("local " ++ word ++ " = \x7b...\x7d") ∈ body
  | .className => ∃ keyword outer rest, entries =
    .line (keyword ++ qualified outer word ++ " = class(function(" ++ word ++ ")") :: rest
  | .loopTarget => TargetsLoop word entries
  | .loopElement => ∃ names, word ∈ names ∧ TargetsLoop (tupleText names) entries
  | .imported => ∃ text, .line ("local " ++ word ++ " = " ++ text) ∈ entries

theorem SymbolStack.Grown.levels_ne_nil {a b : SymbolStack α} (grown : a.Grown b)
    (filled : a.levels ≠ []) : b.levels ≠ [] := by
  unfold SymbolStack.Grown at grown
  split at grown
  · exact absurd ‹_› filled
  · obtain ⟨names,levels⟩ := grown
    simp [levels]

namespace Compile

variable {config : Option Config} {s t u : State} {word text className : String}
  {comment : Option String} {value : Node} {others body : List Node}

variable {target : Node} {c : Compile Unit}

/-! ## Names between commas -/

theorem inlineEach_length (run : Gives (inlineEach (visits config ns)) s texts t) :
    texts.length = ns.length := by
  induction ns generalizing s texts with
  | nil =>
    obtain ⟨rfl,-⟩ := gives_all_nil.mp run
    rfl
  | cons n rest ih =>
    obtain ⟨text,u,-,later,others,rfl⟩ := gives_all_cons.mp run
    simp [ih others]

theorem elements_texts
    (run : Gives (inlineEach (visits config (front ++ .name (some word) access :: back))) s texts t) :
    ∃ before behind, texts = before ++ word :: behind ∧ before.length = front.length ∧
      behind.length = back.length := by
  induction front generalizing s texts with
  | nil =>
    obtain ⟨text,u,named,later,others,rfl⟩ := gives_all_cons.mp run
    obtain ⟨rfl,rfl⟩ := named.unique (name_gives ..)
    exact ⟨[],later,rfl,rfl,inlineEach_length others⟩
  | cons n front ih =>
    obtain ⟨text,u,-,later,others,rfl⟩ := gives_all_cons.mp run
    obtain ⟨before,behind,rfl,left,right⟩ := ih others
    exact ⟨text :: before,behind,rfl,by simp [left],right⟩

theorem tuple_texts (run : Gives (inline (visit config (.tuple ns tupleAccess))) s text t) :
    ∃ texts u, Gives (inlineEach (visits config ns)) { s with output := .block [] } texts u ∧
      text = tupleText texts := by
  obtain ⟨v,lines,inner,read,rfl,-⟩ := gives_inline.mp run
  obtain ⟨texts,u,reads,emitted⟩ := gives_bind.mp inner
  have kept : u.output = .block [] := (inlineEach_preserves (P := (· = .block [])) _).holds reads rfl
  obtain ⟨old,out,rfl⟩ := gives_emit.mp emitted
  obtain rfl : old = [] := by simpa [kept] using out.symm
  cases read
  exact ⟨texts,u,reads,rfl⟩

theorem tuple_text (run : Gives (inline (visit config
      (.tuple (front ++ .name (some word) access :: back) tupleAccess))) s text t) :
    ∃ before behind, text = tupleText (before ++ word :: behind) ∧ before.length = front.length ∧
      behind.length = back.length := by
  obtain ⟨texts,u,reads,rfl⟩ := tuple_texts run
  obtain ⟨before,behind,rfl,left,right⟩ := elements_texts reads
  exact ⟨before,behind,rfl,left,right⟩

theorem plain_of_reserved (reserved : word ∈ reservedWords) : ',' ∉ word.toList ∧ ' ' ∉ word.toList := by
  have plain : ∀ word ∈ reservedWords, ',' ∉ word.toList ∧ ' ' ∉ word.toList := by decide +kernel
  exact plain word reserved

/-- The pieces of a target, as far as they are looked at. -/
def elementsOf (target : String) : List String :=
  Text.pieces ',' (String.ofList (target.toList.filter (· != ' ')))

theorem mem_elementsOf {front back : String} (plain : ',' ∉ word.toList) (unspaced : ' ' ∉ word.toList) :
    word ∈ elementsOf (front ++ ", " ++ word ++ ", " ++ back) := by
  have kept : word.toList.filter (· != ' ') = word.toList := by
    rw [List.filter_eq_self]
    intro c member
    have other : c ≠ ' ' := fun same => unspaced (same ▸ member)
    simpa using other
  have split : (front ++ ", " ++ word ++ ", " ++ back).toList.filter (· != ' ') =
      front.toList.filter (· != ' ') ++ ',' :: (word.toList ++ ',' :: back.toList.filter (· != ' ')) := by
    simp [String.toList_append,kept]
  rw [elementsOf,Text.pieces,String.toList_ofList,split,List.splitOn_append_cons_self,
    List.splitOn_append_cons_self_of_not_mem plain]
  simp

theorem tupleText_amid {before behind : List String} (word : String) (first : before ≠ [])
    (last : behind ≠ []) : ∃ front back,
      tupleText (before ++ word :: behind) = front ++ ", " ++ word ++ ", " ++ back := by
  refine ⟨"table.freeze(\x7b" ++ String.intercalate ", " before, String.intercalate ", " behind ++ "\x7d)",?_⟩
  rw [tupleText,bracedList,Text.commaSeparated,
    String.intercalate_append_of_ne_nil first (by simp),String.intercalate_cons_of_ne_nil last]
  simp [String.append_assoc,← String.toList_inj]

/-! ## Assignments -/

theorem inline_keeps (run : Gives (inline (visit config n)) s text t) :
    t.frames = s.frames ∧ s.locals.Grown t.locals ∧ t.output = s.output := by
  have kept := ((inline_built (visit_built config n)).follows stackLaw).kept run
  exact ⟨kept.frames,kept.locals,(inline_preserves (P := (· = s.output)) _).holds run rfl⟩

theorem not_reserved_of_checked {target : String} (run : Gives (checkElements target) s () t)
    (comma : Text.hasChar target ',' = true) (element : word ∈ elementsOf target) :
    word ∉ reservedWords := by
  intro reserved
  rw [checkElements,if_pos comma] at run
  simp only at run
  split at run
  · exact gives_reject run
  · rename_i missing
    have others := List.find?_eq_none.mp missing word element
    simp [reserved] at others

theorem isWord_of_qualified {target : String} (inside : className.isEmpty = false) :
    Text.isWord (qualified className target) = false := by
  have dot : Text.isAlphanumeric '.' = false := by decide +kernel
  rw [qualified,inside,Text.isWord,Bool.and_eq_false_iff]
  right
  rw [List.all_eq_false]
  exact ⟨'.',by simp [String.toList_append],by simp [dot]⟩

theorem IntroducesIf.keyword {name keyword : String}
    (introduced : IntroducesIf condition a name keyword b) : keyword = "" ∨ keyword = "local " := by
  unfold IntroducesIf at introduced
  split at introduced
  · cases introduced with
    | known => exact .inl rfl
    | unknown => exact .inr rfl
  · exact .inl introduced.1

theorem assign_run (run : Gives (visit config (.assign (target :: others) value comment)) s () t) :
    ∃ before u place v w keyword text, s.output = .block before ∧
      Gives (inline (visit config target)) u place v ∧ Gives (checkElements place) w () w ∧
      qualified s.frames.top.className place ∉ reservedWords ∧
      t.output = .block (before ++
        [.line (keyword ++ qualified s.frames.top.className place ++ " = " ++ text)]) ∧
      (keyword = "" ∨ keyword = "local ") ∧
      (s.frames.top.className.isEmpty = false → keyword = "") := by
  obtain ⟨u,tagged,run⟩ := gives_unit_bind.mp run
  obtain ⟨tags,rfl⟩ := tagTargets_keeps tagged
  obtain ⟨place,v,placed,run⟩ := gives_bind.mp run
  obtain ⟨frames,-,out⟩ := inline_keeps placed
  obtain ⟨text,w,valued,run⟩ := gives_bind.mp run
  obtain ⟨frames',-,out'⟩ := inline_keeps valued
  obtain ⟨x,checked,run⟩ := gives_unit_bind.mp run
  have same := checkElements_run checked
  rw [same] at checked
  rw [same,gives_frame_bind,frames',frames] at run
  obtain ⟨keyword,locals,introduced,run⟩ := introduceIf_run (p := _ = true) run
  split at run
  · exact absurd run gives_reject_bind
  · rename_i free
    obtain ⟨before,last,rfl⟩ := gives_emit.mp run
    refine ⟨before,_,place,v,w,keyword,text,?_,placed,checked,fun reserved => ?_,rfl,
      introduced.keyword,fun inside => ?_⟩
    · exact out.symm.trans (out'.symm.trans last)
    · simp [reserved] at free
    · rw [isWord_of_qualified inside] at introduced
      obtain ⟨rfl,-⟩ : keyword = "" ∧ _ := by simpa [IntroducesIf] using introduced
      rfl

theorem assignsTo_qualified (place text : String) (written : keyword = "" ∨ keyword = "local ")
    (inside : className.isEmpty = false → keyword = "") :
    AssignsTo place [.line (keyword ++ qualified className place ++ " = " ++ text)] := by
  cases outer : className.isEmpty with
  | true => exact ⟨keyword,text,by simp [qualified,outer],written.imp_right .inl⟩
  | false =>
    rw [inside outer]
    exact ⟨className ++ ".",text,by simp [qualified,outer],.inr (.inr ⟨_,rfl⟩)⟩

theorem amid_element (first : front ≠ []) (last : back ≠ []) (reserved : word ∈ reservedWords)
    (placed : Gives (inline (visit config
      (.tuple (front ++ .name (some word) access :: back) tupleAccess))) s place t) :
    Text.hasChar place ',' = true ∧ word ∈ elementsOf place := by
  obtain ⟨before,behind,rfl,left,right⟩ := tuple_text placed
  have filled : before ≠ [] := List.ne_nil_of_length_pos (left ▸ List.length_pos_iff.mpr first)
  have followed : behind ≠ [] := List.ne_nil_of_length_pos (right ▸ List.length_pos_iff.mpr last)
  obtain ⟨leading,trailing,same⟩ := tupleText_amid word filled followed
  obtain ⟨plain,unspaced⟩ := plain_of_reserved reserved
  rw [same]
  exact ⟨by simp [Text.hasChar,String.toList_append],mem_elementsOf plain unspaced⟩

variable {site : Site}

theorem assignment_binds (binds : Binds (.assign (target :: others) value comment) site word)
    (run : Gives (visit config (.assign (target :: others) value comment)) s () t) :
    ∃ before entries, s.output = .block before ∧ t.output = .block (before ++ entries) ∧
      site.Shows word entries ∧
      (word ∈ reservedWords → site.checked s.frames.top.className = false) := by
  obtain ⟨before,u,place,v,w,keyword,text,out,placed,checked,free,out',written,inside⟩ := assign_run run
  have assigns := assignsTo_qualified place text written inside
  refine ⟨before,_,out,out',?_⟩
  cases binds with
  | assigned =>
    obtain ⟨rfl,rfl⟩ := placed.unique (name_gives ..)
    refine ⟨assigns,fun reserved => ?_⟩
    cases inside : s.frames.top.className.isEmpty with
    | false => exact inside
    | true =>
      rw [qualified,if_pos inside] at free
      exact absurd reserved free
  | amid first last =>
    obtain ⟨left,right,rfl,-,-⟩ := tuple_text placed
    refine ⟨⟨_,by simp,assigns⟩,fun reserved => ?_⟩
    obtain ⟨comma,element⟩ := amid_element first last reserved placed
    exact absurd reserved (not_reserved_of_checked checked comma element)
  | atEnd =>
    obtain ⟨left,right,rfl,-,-⟩ := tuple_text placed
    exact ⟨⟨_,by simp,assigns⟩,fun _ => rfl⟩

/-- The target and the value of the assignment can be compiled. -/
def Prepared (config : Option Config) (s : State) (target value : Node) (others : List Node) : Prop :=
  ∃ u place v text w, Gives (tagTargets value (target :: others)) s () u ∧
    Gives (inline (visit config target)) u place v ∧ Gives (inline (visit config value)) v text w

/-- The program ends with the message about a reserved word. -/
def RefusesName (c : Compile Unit) (s : State) : Prop :=
  ∃ t word, ∃ console : Console, c s = (.error (.exit (some 1)),t) ∧ word ∈ reservedWords ∧
    t.console = console.print (Diagnostic.error (reservedMessage word))

theorem checkElements_refuses {target : String} (comma : Text.hasChar target ',' = true)
    (element : word ∈ elementsOf target) (reserved : word ∈ reservedWords) :
    RefusesName (checkElements target) s := by
  cases found : (elementsOf target).find? reservedWords.contains with
  | none =>
    have others := List.find?_eq_none.mp found word element
    simp [reserved] at others
  | some first =>
    have member : first ∈ reservedWords := by simpa using List.find?_some found
    have run : checkElements target s = reject (reservedMessage first) s := by
      rw [checkElements,if_pos comma]
      simp only [elementsOf] at found
      simp only [found]
    exact ⟨_,first,s.console,run,member,rfl⟩

theorem RefusesName.first (refuses : RefusesName c s) : RefusesName (c >>= f) s := by
  obtain ⟨t,word,console,run,reserved,printed⟩ := refuses
  exact ⟨t,word,console,bind_of_error run,reserved,printed⟩

theorem RefusesName.after {c : Compile α} (first : Gives c s a t) (refuses : RefusesName (f a) t) :
    RefusesName (c >>= f) s := by
  rw [RefusesName,bind_of_gives first]
  exact refuses

theorem introduce_gives (name : Option String) (blocks : s.locals.levels ≠ []) :
    ∃ keyword t, Gives (introduce name) s keyword t := by
  cases known : s.locals.knows name with
  | true => exact ⟨"",s,gives_introduce.mpr (.inl ⟨known,rfl,rfl⟩)⟩
  | false =>
    cases levels : s.locals.levels with
    | nil => exact absurd levels blocks
    | cons level outer =>
      have added : s.locals.add? name = some ⟨(level ++ [name]) :: outer⟩ := by
        simp [SymbolStack.add?,levels]
      exact ⟨"local ",_,gives_introduce.mpr (.inr ⟨known,rfl,_,added,rfl⟩)⟩

theorem assignment_refused (binds : Binds (.assign (target :: others) value comment) site word)
    (reserved : word ∈ reservedWords) (checked : site.checked s.frames.top.className = true)
    (blocks : s.locals.levels ≠ []) (prepared : Prepared config s target value others) :
    RefusesName (visit config (.assign (target :: others) value comment)) s := by
  obtain ⟨u,place,v,text,w,tagged,placed,valued⟩ := prepared
  refine .after tagged (.after placed (.after valued ?_))
  cases binds with
  | assigned =>
    obtain ⟨rfl,rfl⟩ := placed.unique (name_gives ..)
    obtain ⟨tags,rfl⟩ := tagTargets_keeps tagged
    obtain ⟨frames,grown,-⟩ := inline_keeps valued
    have outside : w.frames.top.className.isEmpty = true := by rw [frames]; exact checked
    have passed : Gives (checkElements place) w () w := by
      rw [checkElements,if_neg (by simpa [Text.hasChar] using (plain_of_reserved reserved).1)]
      rfl
    have rejected (y : State) (keyplace text : String) : RefusesName (do
        if reservedWords.contains place || libraryNames.contains place then
          reject (reservedMessage place)
        emit (keyplace ++ place ++ " = " ++ text)) y := by
      rw [if_pos (by simp [reserved])]
      exact .first ⟨_,place,y.console,rfl,reserved,rfl⟩
    have top : Gives frame w w.frames.top w := rfl
    refine .after passed (.after top ?_)
    simp only [qualified,outside,if_true]
    split
    · obtain ⟨keyplace,y,introduced⟩ := introduce_gives (s := w) (some place) (grown.levels_ne_nil blocks)
      exact .after introduced (rejected y keyplace text)
    · exact rejected w "" text
  | amid first last =>
    obtain ⟨comma,element⟩ := amid_element first last reserved placed
    exact (checkElements_refuses comma element reserved).first
  | atEnd => cases checked

/-! ## Definitions -/

theorem function_shows
    (run : Gives (visit config (.functionDef false name params body decorators returns comment)) s () t) :
    ∃ before own keyword given self dots rest line code after, s.output = .block before ∧
      name = some own ∧ paramNames params = .ok (given.map some) ∧ restParam params = .ok rest ∧
      restLine rest = .ok line ∧ (∀ text ∈ line, ∃ inner, code = .block inner ∧ .line text ∈ inner) ∧
      t.output = .block (before ++ .line (keyword ++ " function " ++ qualified s.frames.top.className own ++
        "(" ++ Text.commaSeparated (self ++ given ++ dots) ++ ")") :: code :: after) := by
  obtain ⟨own,rfl⟩ := definition_named run
  obtain ⟨before,_,u,code,v,line,values,w,connected,x,out,signed,-,lined,-,-,room,-,rfl⟩ :=
    gives_definition.mp run
  obtain ⟨names,texts,y,rest,given,keyword,locals,listed,-,taken,shown,-,-,rfl⟩ := signature_run signed
  obtain rfl := givenNames_ok shown
  refine ⟨before,own,keyword,given,_,_,rest,line,_,_,out,rfl,listed,taken,lined,?_,by rw [List.append_assoc]; rfl⟩
  rintro text ⟨⟩
  obtain ⟨-,inner,rfl⟩ := room.resolve_left (by simp)
  exact ⟨_,rfl,by simp [leadLines]⟩

theorem mem_given {regular : List Node} {given : List String} {hint : Node}
    (listed : regular.mapM paramName = .ok (given.map some))
    (member : .param (some word) hint comment ∈ regular) : word ∈ given := by
  induction regular generalizing given with
  | nil => cases member
  | cons n rest ih =>
    rw [List.mapM_cons] at listed
    cases first : paramName n with
    | error e => rw [first] at listed; cases listed
    | ok name =>
      cases later : rest.mapM paramName with
      | error e => rw [first,later] at listed; cases listed
      | ok names =>
        rw [first,later] at listed
        cases given with
        | nil => cases listed
        | cons head given =>
          obtain ⟨rfl,rfl⟩ : name = some head ∧ names = given.map some := by
            simpa using Except.ok.inj listed
          rcases List.mem_cons.mp member with rfl | inside
          · cases first
            exact List.mem_cons_self
          · exact .tail _ (ih later inside)

theorem lambda_shows {params body : Node} (run : Gives (visit config (.lambda params body)) s () t) :
    ∃ before given text, s.output = .block before ∧ paramNames params = .ok (given.map some) ∧
      t.output = .block (before ++
        [.line ("function(" ++ Text.commaSeparated given ++ ") return " ++ text ++ " end")]) := by
  obtain ⟨given,listed,run⟩ := gives_ofExcept_bind.mp run
  obtain ⟨text,u,read,run⟩ := gives_bind.mp run
  obtain ⟨-,-,same⟩ := inline_keeps read
  obtain ⟨before,out,rfl⟩ := gives_emit.mp run
  refine ⟨before,given,text,by rw [← out,same],?_,rfl⟩
  cases names : paramNames params with
  | error e => rw [names] at listed; cases listed
  | ok names' =>
    rw [names] at listed
    rw [givenNames_ok listed]

/-! ## Loops and imports -/

theorem loop_shows (run : Gives (visit config (.forStmt false target iter body orElse comment)) s () t) :
    ∃ before u place v entries, s.output = .block before ∧
      Gives (inline (visit config target)) u place v ∧ t.output = .block (before ++ entries) ∧
      TargetsLoop place entries := by
  obtain ⟨place,u,placed,run⟩ := gives_bind.mp run
  obtain ⟨text,v,read,run⟩ := gives_bind.mp run
  obtain ⟨-,-,out⟩ := inline_keeps placed
  obtain ⟨-,-,out'⟩ := inline_keeps read
  rw [gives_get_bind] at run
  have headed {header closing : String}
      (opened : Gives (do emit header; loopBody (visits config body); emit closing) v () t) :
      ∃ before rest, s.output = .block before ∧ t.output = .block (before ++ .line header :: rest) := by
    obtain ⟨w,emitted,-⟩ := gives_unit_bind.mp opened
    obtain ⟨before,start,-⟩ := gives_emit.mp emitted
    obtain ⟨rest,ended⟩ := opened_output header closing (visits config body) start
    rw [opened] at ended
    exact ⟨before,rest,by rw [← start,out',out],ended⟩
  split at run
  · obtain ⟨header,written,run⟩ := gives_ofExcept_bind.mp run
    obtain ⟨before,rest,start,ended⟩ := headed run
    exact ⟨before,s,place,u,_,start,placed,ended,header,text,rest,rfl,.inr ⟨_,written⟩⟩
  · obtain ⟨overText,w,decided,run⟩ := gives_bind.mp run
    have same : w = v := by
      rw [iteratesText,gives_tagOf_bind] at decided
      split at decided <;> exact (gives_pure.mp decided).2
    rw [same] at run
    obtain ⟨before,rest,start,ended⟩ := headed run
    exact ⟨before,s,place,u,_,start,placed,ended,_,text,rest,rfl,.inl ⟨overText,rfl⟩⟩

def Adds (c : Compile Unit) : Prop := ∀ P, Lasting P → Preserves P c

theorem each_adds (steps : ∀ c ∈ cs, Adds c) : Adds (each cs) := by
  intro P lasting
  induction cs with
  | nil => exact .of_output fun _ => rfl
  | cons c rest ih =>
    exact .bind (steps c List.mem_cons_self P lasting) fun _ => ih fun c member => steps c (.tail _ member)

theorem row_shows (steps : ∀ c ∈ cs, Adds c) (member : c ∈ cs)
    (shows : ∀ u v, Gives c u () v → ∃ old, u.output = .block old ∧
      v.output = .block (old ++ [.line line])) (run : Gives (each cs) s () t) :
    ∃ before entries, s.output = .block before ∧ t.output = .block (before ++ entries) ∧
      .line line ∈ entries := by
  induction cs generalizing s with
  | nil => cases member
  | cons d rest ih =>
    obtain ⟨u,first,later⟩ := gives_each_cons.mp run
    have others : ∀ c ∈ rest, Adds c := fun c member => steps c (.tail _ member)
    rcases List.mem_cons.mp member with rfl | inside
    · obtain ⟨old,out,out'⟩ := shows s u first
      have lasting : Lasting fun code => ∃ more, code = .block (old ++ .line line :: more) := by
        rintro _ more ⟨entries,same⟩
        exact ⟨entries ++ more,by rw [Code.block.inj same]; simp⟩
      obtain ⟨more,ended⟩ := (each_adds others _ lasting).holds later ⟨[],out'⟩
      exact ⟨old,.line line :: more,out,ended,List.mem_cons_self⟩
    · obtain ⟨old,entries,out,ended,shown⟩ := ih others inside later
      have lasting : Lasting fun code => code = s.output ∨
          ∃ before more, s.output = .block before ∧ code = .block (before ++ more) := by
        rintro entries more (same | ⟨before,rest,start,same⟩)
        · exact .inr ⟨entries,more,same.symm,rfl⟩
        · exact .inr ⟨before,rest ++ more,start,by rw [Code.block.inj same]; simp⟩
      rcases (steps d List.mem_cons_self _ lasting).holds first (.inl rfl) with
        same | ⟨before,more,start,same⟩
      · exact ⟨old,entries,by rw [← same,out],ended,shown⟩
      · obtain rfl := Code.block.inj (out.symm.trans same)
        exact ⟨before,more ++ entries,start,by simp [ended],List.mem_append_right _ shown⟩

theorem importModule_adds (n : Node) : Adds (importModule n) := by
  intro P lasting
  unfold importModule
  split
  · refine .ite (.bind (.of_output fun _ => rfl) fun _ => ?_) ?_ <;> split <;>
      exact emitEntries_preserves lasting _
  · exact .of_output fun _ => rfl

theorem importMember_adds (module : String) (n : Node) : Adds (importMember module n) := by
  intro P lasting
  unfold importMember
  split
  · exact .ite (.ite (.of_output fun _ => rfl) (.of_output fun _ => rfl)) (emitEntries_preserves lasting _)
  · exact .of_output fun _ => rfl

def Declares (word line : String) : Prop := ∃ text, line = "local " ++ word ++ " = " ++ text

theorem serviceLine_declares (binding service : String) : Declares binding (serviceLine binding service) :=
  ⟨"game:GetService(\"" ++ service ++ "\")",by simp [serviceLine,← String.toList_inj]⟩

theorem moduleLine_declares (binding module : String) : Declares binding (moduleLine binding module) :=
  ⟨"rcc.import(\"" ++ module ++ "\", script) or require(\"" ++ module ++ "\")",
    by simp [moduleLine,← String.toList_inj]⟩

theorem memberLine_declares (binding module member : String) :
    Declares binding (memberLine binding module member) :=
  ⟨"(rcc.import(\"" ++ module ++ "\") or require(\"" ++ module ++ "\"))." ++ member,
    by simp [memberLine,← String.toList_inj]⟩

theorem emit_shows (run : Gives (emit line) u () v) :
    ∃ old, u.output = .block old ∧ v.output = .block (old ++ [.line line]) := by
  obtain ⟨old,out,rfl⟩ := gives_emit.mp run
  exact ⟨old,out,rfl⟩

theorem importModule_shows (name : String) (asName : Option String) : ∃ line,
    Declares (asName.getD (lastPart ((service? name).getD name))) line ∧
      ∀ u v, Gives (importModule (.alias (some name) asName)) u () v →
        ∃ old, u.output = .block old ∧ v.output = .block (old ++ [.line line]) := by
  have opened {line : String} {u v : State} (run : Gives (do
      if libraryNames.contains name then fail .unknownName
      emit line) u () v) :
      ∃ old, u.output = .block old ∧ v.output = .block (old ++ [.line line]) := by
    split at run
    · exact absurd run gives_fail_bind
    · exact emit_shows run
  cases found : service? name with
  | none =>
    refine ⟨_,moduleLine_declares _ name,fun u v run => ?_⟩
    simp only [importModule,found] at run
    exact opened run
  | some service =>
    refine ⟨_,serviceLine_declares _ service,fun u v run => ?_⟩
    simp only [importModule,found] at run
    exact opened run

theorem importMember_shows (module : String) (asName : Option String) (single : name ≠ some "*") :
    ∃ line, Declares (asName.getD (shownName name)) line ∧
      ∀ u v, Gives (importMember module (.alias name asName)) u () v →
        ∃ old, u.output = .block old ∧ v.output = .block (old ++ [.line line]) := by
  cases service : isServiceModule module with
  | true =>
    refine ⟨_,serviceLine_declares _ (shownName name),fun u v run => ?_⟩
    simp only [importMember,if_neg single,service,if_true] at run
    exact emit_shows run
  | false =>
    refine ⟨_,memberLine_declares _ module (shownName name),fun u v run => ?_⟩
    simp only [importMember,if_neg single,service,Bool.false_eq_true,if_false] at run
    exact emit_shows run

/-! ## Binding nodes -/

/-- A node that succeeds shows the names that it binds, and they are not reserved where they are
checked. -/
theorem binding_shows {n : Node} (binds : Binds n site word) (run : Gives (visit config n) s () t) :
    ∃ before entries, s.output = .block before ∧ t.output = .block (before ++ entries) ∧
      site.Shows word entries ∧
      (word ∈ reservedWords → site.checked s.frames.top.className = false) := by
  cases binds with
  | assigned => exact assignment_binds .assigned run
  | amid first last => exact assignment_binds (.amid first last) run
  | atEnd outermost => exact assignment_binds (.atEnd outermost) run
  | functionName =>
    obtain ⟨before,_,keyword,given,self,dots,rest,line,code,after,out,⟨rfl⟩,-,-,-,-,ended⟩ := function_shows run
    exact ⟨before,_,out,ended,⟨keyword,_,_,_,rfl⟩,fun _ => rfl⟩
  | parameter given =>
    obtain ⟨before,name,keyword,names,self,dots,rest,line,code,after,out,-,listed,-,-,-,ended⟩ :=
      function_shows run
    refine ⟨before,_,out,ended,⟨keyword ++ " function " ++ qualified s.frames.top.className name,
      self ++ names ++ dots,"",_,?_,by simp; rfl⟩,fun _ => rfl⟩
    simp [mem_given listed given]
  | lambda given =>
    obtain ⟨before,names,text,out,listed,ended⟩ := lambda_shows run
    refine ⟨before,_,out,ended,⟨"function",names," return " ++ text ++ " end",[],
      mem_given listed given,?_⟩,fun _ => rfl⟩
    simp [← String.toList_inj]
  | restParameter =>
    obtain ⟨before,_,keyword,given,self,dots,rest,line,code,after,out,-,-,⟨rfl⟩,⟨rfl⟩,held,ended⟩ :=
      function_shows run
    obtain ⟨inner,rfl,inside⟩ := held _ rfl
    exact ⟨before,_,out,ended,⟨_,inner,after,rfl,inside⟩,fun _ => rfl⟩
  | className =>
    obtain ⟨before,texts,u,keyword,_,code,v,returns,out,-,-,-,rfl⟩ := class_run run
    exact ⟨before,_,out,by rw [List.append_assoc]; rfl,⟨keyword,u.frames.top.className,_,rfl⟩,fun _ => rfl⟩
  | loopTarget =>
    obtain ⟨before,u,place,v,entries,out,placed,ended,loops⟩ := loop_shows run
    obtain ⟨rfl,rfl⟩ := placed.unique (name_gives ..)
    exact ⟨before,entries,out,ended,loops,fun _ => rfl⟩
  | loopElement =>
    obtain ⟨before,u,place,v,entries,out,placed,ended,loops⟩ := loop_shows run
    obtain ⟨left,right,rfl,-,-⟩ := tuple_text placed
    exact ⟨before,entries,out,ended,⟨_,by simp,loops⟩,fun _ => rfl⟩
  | @module name asName names given =>
    obtain ⟨line,⟨text,rfl⟩,shows⟩ := importModule_shows name asName
    obtain ⟨before,entries,out,ended,shown⟩ := row_shows
      (fun c member => by obtain ⟨n,-,rfl⟩ := List.mem_map.mp member; exact importModule_adds n)
      (List.mem_map_of_mem given) shows run
    exact ⟨before,entries,out,ended,⟨text,shown⟩,fun _ => rfl⟩
  | @member module name asName names level given single =>
    obtain ⟨line,⟨text,rfl⟩,shows⟩ := importMember_shows (module.getD "") asName single
    obtain ⟨before,entries,out,ended,shown⟩ := row_shows
      (fun c member => by obtain ⟨n,-,rfl⟩ := List.mem_map.mp member; exact importMember_adds _ n)
      (List.mem_map_of_mem given) shows run
    exact ⟨before,entries,out,ended,⟨text,shown⟩,fun _ => rfl⟩

/-- Compiled under the class, the node binds the word in the code that it adds. -/
def Bound (config : Option Config) (c : String) (n : Node) (site : Site) (word : String) : Prop :=
  ∃ u v before entries, Gives (visit config n) u () v ∧ u.frames.top.className = c ∧
    u.output = .block before ∧ v.output = .block (before ++ entries) ∧ site.Shows word entries

/-- A module that compiles binds no reserved word where names are checked. The names that its
statements and functions bind are bound in the code as they are, so a reserved word goes through
everywhere else. An assignment to a reserved word that is checked ends the program. -/
theorem reserved_words_caught {body ignores : List Node}
    (run : Gives (visit config (.module body ignores)) s () t) :
    (∀ c n site word, Stands s.frames.top.className body c n → Binds n site word →
      Bound config c n site word ∧ (word ∈ reservedWords → site.checked c = false)) ∧
    (∀ n site word, Reaches config (.module body ignores) n → Binds n site word →
      ∃ c, Bound config c n site word) ∧
    ∀ u target value others comment site word,
      Binds (.assign (target :: others) value comment) site word → word ∈ reservedWords →
      site.checked u.frames.top.className = true → u.locals.levels ≠ [] →
      Prepared config u target value others →
      RefusesName (visit config (.assign (target :: others) value comment)) u := by
  refine ⟨fun c n site word stands binds => ?_,fun n site word reached binds => ?_,
    fun u target value others comment site word => assignment_refused⟩
  · obtain ⟨_,blocked,-⟩ := gives_unit_bind.mp run
    obtain ⟨_,_,_,inside,-⟩ := gives_block.mp blocked
    obtain ⟨u,v,ran,rfl⟩ := stands_runs stands inside rfl
    obtain ⟨before,entries,out,out',shown,free⟩ := binding_shows binds ran
    exact ⟨⟨u,v,before,entries,ran,rfl,out,out',shown⟩,free⟩
  · obtain ⟨u,v,ran,-,-⟩ := reached_runs run reached
    obtain ⟨before,entries,out,out',shown,-⟩ := binding_shows binds ran
    exact ⟨_,u,v,before,entries,ran,rfl,out,out',shown⟩

def endAssignment : Node := .assign [.name (some "end") .absent] (.constant (.int 1) none) none

/-- A statement that binds the name `end` at the place, except amid a tuple. -/
def endStatement : Site → Node
  | .assigned | .amid => .classDef (some "C") [] [] [endAssignment] []
  | .atEnd => .assign [.tuple [.name (some "end") .absent,.name (some "a") .absent] .absent]
    (.name (some "b") .absent) none
  | .functionName =>
    .functionDef false (some "end") (.params [] [] .absent [] [] .absent []) [] [] .absent none
  | .parameter => .functionDef false (some "f")
    (.params [] [.param (some "end") .absent none] .absent [] [] .absent []) [] [] .absent none
  | .restParameter => .functionDef false (some "f")
    (.params [] [] (.param (some "end") .absent none) [] [] .absent []) [] [] .absent none
  | .className => .classDef (some "end") [] [] [] []
  | .loopTarget =>
    .forStmt false (.name (some "end") .absent) (.name (some "a") .absent) [] [] none
  | .loopElement => .forStmt false
    (.tuple [.name (some "end") .absent,.name (some "a") .absent] .absent) (.name (some "b") .absent)
    [] [] none
  | .imported => .importStmt [.alias (some "a") (some "end")]

theorem endStatement_runs (site : Site) : ∃ t,
    Gives (visit (some .defaults) (.module [endStatement site] [])) (.initial .empty) () t := by
  refine ⟨_,gives_of_isOk ?_⟩
  cases site <;> decide +kernel

theorem endAssignment_caught : ∃ t,
    Gives (visit (some .defaults) (.module [endStatement .assigned] [])) (.initial .empty) () t ∧
      Bound (some .defaults) "C" endAssignment .assigned "end" ∧
      RefusesName (visit (some .defaults) endAssignment) (.initial .empty) := by
  obtain ⟨t,run⟩ := endStatement_runs .assigned
  obtain ⟨bound,-,refused⟩ := reserved_words_caught run
  have stands : Stands "" [endStatement .assigned] "C" endAssignment :=
    .inside List.mem_cons_self List.mem_cons_self (.here List.mem_cons_self)
  refine ⟨t,run,(bound _ _ _ _ stands .assigned).1,?_⟩
  refine refused _ _ _ _ _ _ _ .assigned (by decide) rfl (by decide) ?_
  have valued : Gives (inline (visit (some .defaults) (.constant (.int 1) none)))
      { State.initial .empty with tags := [("end","int")] } _ _ := gives_of_toOption rfl
  exact ⟨_,_,_,_,_,rfl,name_gives ..,valued⟩

/-- Outside of the middle of a tuple there is an accepted module for every place that binds the
reserved word `end` there. -/
theorem reserved_word_accepted : "end" ∈ reservedWords ∧ ∀ site : Site, site ≠ .amid →
    ∃ n t c m, Gives (visit (some .defaults) (.module [n] [])) (.initial .empty) () t ∧ Stands "" [n] c m ∧
      Binds m site "end" := by
  refine ⟨by decide,fun site other => ?_⟩
  obtain ⟨t,run⟩ := endStatement_runs site
  have here : Stands "" [endStatement site] "" (endStatement site) := .here List.mem_cons_self
  cases site with
  | amid => exact absurd rfl other
  | assigned =>
    exact ⟨_,t,"C",endAssignment,run,
      .inside List.mem_cons_self List.mem_cons_self (.here List.mem_cons_self),.assigned⟩
  | atEnd => exact ⟨_,t,"",_,run,here,@Binds.atEnd _ _ _ _ [] _ _ _ (.inl rfl)⟩
  | functionName => exact ⟨_,t,"",_,run,here,.functionName⟩
  | parameter => exact ⟨_,t,"",_,run,here,.parameter List.mem_cons_self⟩
  | restParameter => exact ⟨_,t,"",_,run,here,.restParameter⟩
  | className => exact ⟨_,t,"",_,run,here,.className⟩
  | loopTarget => exact ⟨_,t,"",_,run,here,.loopTarget⟩
  | loopElement => exact ⟨_,t,"",_,run,here,@Binds.loopElement _ _ _ _ [] _ _ _ _⟩
  | imported => exact ⟨_,t,"",_,run,here,.module List.mem_cons_self⟩

end Compile

end LuauCompiler
