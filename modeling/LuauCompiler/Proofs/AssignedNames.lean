import LuauCompiler.Proofs.GeneratorLoops

/-! Names as targets. Assignments and loops compile their first target like a value, so only a single
name becomes a target of the code. -/
namespace LuauCompiler

/-- A name that the code can bind. -/
def IsVariable (x : String) : Prop :=
  x ≠ "" ∧ x.toList.all (fun c => Text.isAlphanumeric c || c == '_') = true ∧ x ∉ reservedWords

instance (x : String) : Decidable (IsVariable x) := inferInstanceAs (Decidable (_ ∧ _ ∧ _))

theorem IsVariable.letter (named : IsVariable x) (member : c ∈ x.toList) :
    Text.isAlphanumeric c = true ∨ c = '_' := by
  simpa using List.all_eq_true.mp named.2.1 c member

theorem IsVariable.plain (named : IsVariable x) (c : Char) (sign : c ∈ [' ',',','(',')','.']) :
    c ∉ x.toList := by
  have other : ∀ c ∈ [' ',',','(',')','.'], Text.isAlphanumeric c = false ∧ c ≠ '_' := by
    simp only [List.forall_mem_cons]
    refine ⟨?_,?_,?_,?_,?_,by simp⟩ <;> decide +kernel
  intro member
  rcases named.letter member with letter | same
  · simp [(other c sign).1] at letter
  · exact (other c sign).2 same

def Node.IsPlace : Node → Prop
  | .name id _ => id.isSome = true
  | .tuple ns _ => ∀ n ∈ ns, n.id?.isSome = true
  | _ => False

def Node.boundNames : Node → List String
  | .name id _ => id.toList
  | .tuple ns _ => ns.filterMap Node.id?
  | _ => []

/-- A statement that binds the names of its targets. -/
inductive Binder where
  | assignment (first : Node) (others : List Node) (value : Node) (comment : Option String)
  | loop (target iter : Node) (body orElse : List Node) (comment : Option String)

namespace Binder

def node : Binder → Node
  | .assignment first others value comment => .assign (first :: others) value comment
  | .loop target iter body orElse comment => .forStmt false target iter body orElse comment

def first : Binder → Node
  | .assignment first .. => first
  | .loop target .. => target

def targets : Binder → List Node
  | .assignment first others .. => first :: others
  | .loop target .. => [target]

/-- An assignment does not stand in a class. -/
def Outside (s : State) : Binder → Prop
  | .assignment .. => s.frames.top.className = ""
  | .loop .. => True

/-- The code of the statement binds the names: by an assignment, by the header of a loop or as the
parameters of the function that a loop over a generator calls. -/
def Heads (entries : List Code) (names : List String) (b : Binder) : Prop :=
  (names ≠ [] ∧ ∀ x ∈ names, IsVariable x) ∧ match b with
  | .assignment .. => ∃ keyword text, (keyword = "" ∨ keyword = "local ") ∧
      .line (keyword ++ Text.commaSeparated names ++ " = " ++ text) ∈ entries
  | .loop .. => ∃ line rest, entries = .line line :: rest ∧
      ((∃ text, line = "for " ++ Text.commaSeparated names ++ " in " ++ text) ∨
        ∃ front, line = front ++ "(function(" ++ Text.commaSeparated names ++ ")")

end Binder

namespace Compile

variable {config : Option Config} {s t u v : State} {x place text : String} {names : List String}
  {rest rest' front front' : List Char} {first : Node}

/-! ## The text of a target -/

/-- The text up to the first space. -/
def leading (cs : List Char) : List Char := cs.takeWhile (· != ' ')

theorem leading_append (cs rest : List Char) (plain : ' ' ∉ cs) : leading (cs ++ ' ' :: rest) = cs := by
  rw [leading,List.takeWhile_append_of_pos]
  · simp
  · intro c member
    exact bne_iff_ne.mpr fun same => plain (same ▸ member)

/-- The text behind the last opening parenthesis, backwards. -/
def trailing (cs : List Char) : List Char := cs.reverse.takeWhile (· != '(')

theorem trailing_append (front cs : List Char) (plain : '(' ∉ cs) :
    trailing (front ++ '(' :: cs) = cs.reverse := by
  rw [trailing,List.reverse_append,List.reverse_cons,List.append_assoc,List.takeWhile_append_of_pos]
  · simp
  · intro c member
    exact bne_iff_ne.mpr fun same => plain (same ▸ List.mem_reverse.mp member)

theorem leading_names (rest : List Char) (filled : names ≠ []) (named : ∀ x ∈ names, IsVariable x) :
    ∃ y ∈ names, (names = [y] ∧ leading ((Text.commaSeparated names).toList ++ ' ' :: rest) = y.toList) ∨
      leading ((Text.commaSeparated names).toList ++ ' ' :: rest) = y.toList ++ [','] := by
  obtain ⟨y,others,rfl⟩ := List.exists_cons_of_ne_nil filled
  have plain := (named y List.mem_cons_self).plain ' ' (by simp)
  refine ⟨y,List.mem_cons_self,?_⟩
  cases others with
  | nil => exact .inl ⟨rfl,by simpa [Text.commaSeparated] using leading_append _ rest plain⟩
  | cons z others =>
    right
    rw [Text.commaSeparated,String.intercalate_cons_of_ne_nil (by simp)]
    simpa [String.toList_append] using leading_append (y.toList ++ [','])
      ((String.intercalate ", " (z :: others)).toList ++ ' ' :: rest) (by simp [plain])

theorem sign_not_mem (sign : c = '(' ∨ c = ')') (named : ∀ x ∈ names, IsVariable x) :
    c ∉ (Text.commaSeparated names).toList := by
  induction names with
  | nil => simp [Text.commaSeparated]
  | cons y others ih =>
    obtain ⟨own,later⟩ := List.forall_mem_cons.mp named
    have plain : c ∉ y.toList := own.plain c (by rcases sign with rfl | rfl <;> simp)
    cases others with
    | nil => simpa [Text.commaSeparated] using plain
    | cons z others =>
      have rest := ih later
      rw [Text.commaSeparated,String.intercalate_cons_of_ne_nil (by simp)]
      simp only [String.toList_append,List.mem_append,not_or]
      exact ⟨⟨plain,by rcases sign with rfl | rfl <;> simp⟩,rest⟩

/-- The text of a target that is a name or a tuple. -/
inductive TargetText : Node → String → Prop
  | name {x : String} (named : IsVariable x) : TargetText (.name (some x) access) x
  | tuple (texts : List String) : TargetText (.tuple ns access) (tupleText texts)

theorem targetText_of_run (place_of : first.IsPlace) (named : ∀ x ∈ first.boundNames, IsVariable x)
    (run : Gives (inline (visit config first)) s place t) : TargetText first place := by
  cases first with
  | name id access =>
    obtain ⟨x,rfl⟩ := Option.isSome_iff_exists.mp place_of
    obtain ⟨rfl,rfl⟩ := run.unique (name_gives ..)
    exact .name (named _ (by simp [Node.boundNames]))
  | tuple ns access =>
    obtain ⟨texts,_,-,rfl⟩ := tuple_texts run
    exact .tuple texts
  | _ => exact place_of.elim

/-- The names are the one that is the target. -/
def Sole (first : Node) (names : List String) : Prop :=
  ∃ x access, first = .name (some x) access ∧ names = [x]

theorem TargetText.leads (target : TargetText first place) (rest : List Char) :
    (∃ access, first = .name (some place) access ∧ IsVariable place ∧
      leading (place.toList ++ ' ' :: rest) = place.toList) ∨
      '(' ∈ leading (place.toList ++ ' ' :: rest) := by
  cases target with
  | name named =>
    exact .inl ⟨_,rfl,named,leading_append _ rest (named.plain ' ' (by simp))⟩
  | tuple texts => exact .inr (by simp [leading,tupleText,String.toList_append])

section

variable (target : TargetText first place) (filled : names ≠ []) (named : ∀ x ∈ names, IsVariable x)
include target filled named

theorem TargetText.spaced
    (same : place.toList ++ ' ' :: rest = (Text.commaSeparated names).toList ++ ' ' :: rest') :
    Sole first names := by
  obtain ⟨y,given,read⟩ := leading_names rest' filled named
  rw [← same] at read
  have own := named y given
  rcases target.leads rest with ⟨access,rfl,single,led⟩ | opened
  · rcases read with ⟨alone,read⟩ | read
    · exact ⟨_,_,rfl,by rw [alone,String.toList_inj.mp (led.symm.trans read)]⟩
    · have comma : ',' ∈ place.toList := by
        rw [← led,read]
        simp
      exact absurd comma (single.plain ',' (by simp))
  · rcases read with ⟨-,read⟩ | read <;>
      simp [read,own.plain '(' (by simp)] at opened

theorem TargetText.enclosed (same : front ++ '(' :: (place.toList ++ [')']) =
    front' ++ '(' :: ((Text.commaSeparated names).toList ++ [')'])) : Sole first names := by
  have read := trailing_append front' ((Text.commaSeparated names).toList ++ [')'])
    (by simp [sign_not_mem (.inl rfl) named])
  rw [← same,List.reverse_append] at read
  cases target with
  | name single =>
    rw [trailing_append _ _ (by simp [single.plain '(' (by simp)])] at read
    have shown : place = Text.commaSeparated names := by simpa [String.toList_inj] using read
    have spaced : place.toList ++ [' '] = (Text.commaSeparated names).toList ++ [' '] := by rw [shown]
    exact TargetText.spaced (.name single) filled named spaced
  | tuple texts =>
    have closed : ')' ∈ (Text.commaSeparated names).toList.reverse := by
      simp [trailing,tupleText,String.toList_append] at read
      simp [← read]
    exact absurd (List.mem_reverse.mp closed) (sign_not_mem (.inr rfl) named)

theorem TargetText.assigned (written : keyword = "" ∨ keyword = "local ")
    (written' : keyword' = "" ∨ keyword' = "local ") (same : keyword ++ place ++ " = " ++ text =
      keyword' ++ Text.commaSeparated names ++ " = " ++ text') : Sole first names := by
  have cut (keyword place text : String) : (keyword ++ place ++ " = " ++ text).toList =
      keyword.toList ++ (place.toList ++ ' ' :: ('=' :: ' ' :: text.toList)) := by
    simp [String.toList_append]
  have word (rest : List Char) : leading ("local ".toList ++ rest) = "local".toList :=
    leading_append "local".toList rest (by decide)
  rw [← String.toList_inj,cut,cut] at same
  rcases written with rfl | rfl <;> rcases written' with rfl | rfl
  · exact target.spaced filled named same
  · have led := congrArg leading same
    rw [word] at led
    rcases target.leads ('=' :: ' ' :: text.toList) with ⟨access,rfl,single,alone⟩ | opened
    · have reserved := String.toList_inj.mp (alone.symm.trans led)
      exact absurd (reserved ▸ by decide) single.2.2
    · simp at led
      simp [led] at opened
  · have led := congrArg leading same
    rw [word] at led
    obtain ⟨y,given,⟨-,read⟩ | read⟩ := leading_names ('=' :: ' ' :: text'.toList) filled named
    · have reserved := String.toList_inj.mp (read.symm.trans led.symm)
      exact absurd (reserved ▸ by decide) (named y given).2.2
    · have comma : ',' ∈ "local".toList := by
        rw [led]
        simp at read ⊢
        simp [read]
      simp at comma
  · exact target.spaced filled named (List.append_cancel_left same)

end

/-! ## Targets of the code -/

theorem generatorHeader_ends (made : generatorHeader function target iter = .ok header) :
    ∃ front, header.toList = front ++ ("(function(" ++ target ++ ")").toList := by
  unfold generatorHeader at made
  split at made
  · cases made
  · have cut (front : String) : (front ++ ")(function(\x7btarget\x7d)").toList =
        front.toList ++ openingEnd.toList := String.toList_append
    rw [Text.Template.fill_iff,cut,openingEnd_seals.fills] at made
    obtain ⟨front,back,-,closing,whole⟩ := made
    exact ⟨front ++ [')'],by simp [whole,openingEnd_fills.mp closing]⟩

theorem loopHeader_shape (overText : Bool) (target iter : String) :
    ∃ tail, loopHeader overText target iter = "for " ++ target ++ " in " ++ (tail ++ " do") := by
  cases overText with
  | false => exact ⟨iter,by simp [loopHeader,String.append_assoc]⟩
  | true => exact ⟨"string.gmatch(" ++ iter ++ ",\".\")",by simp [loopHeader,← String.toList_inj]⟩

theorem TargetText.looped (target : TargetText first place) (filled : names ≠ [])
    (named : ∀ x ∈ names, IsVariable x)
    (header : (∃ overText, line = loopHeader overText place text) ∨
      ∃ function, generatorHeader function place text = .ok line)
    (read : (∃ text, line = "for " ++ Text.commaSeparated names ++ " in " ++ text) ∨
      ∃ front, line = front ++ "(function(" ++ Text.commaSeparated names ++ ")") :
    Sole first names := by
  rcases header with ⟨overText,rfl⟩ | ⟨function,made⟩
  · obtain ⟨tail,shape⟩ := loopHeader_shape overText place text
    rw [shape] at read
    rcases read with ⟨text',same⟩ | ⟨front,same⟩
    · have spaced : place.toList ++ ' ' :: ("in " ++ (tail ++ " do")).toList =
          (Text.commaSeparated names).toList ++ ' ' :: ("in " ++ text').toList := by
        rw [← String.toList_inj] at same
        simpa using same
      exact target.spaced filled named spaced
    · have last := congrArg (·.toList.getLast?) same
      simp only [String.toList_append,List.getLast?_append] at last
      simp at last
  · rcases read with ⟨text',rfl⟩ | ⟨front,rfl⟩
    · have head := generatorHeader_head made
      simp at head
    · obtain ⟨front',same⟩ := generatorHeader_ends made
      have whole : (front' ++ "(function".toList) ++ '(' :: (place.toList ++ [')']) =
          (front.toList ++ "(function".toList) ++ '(' :: ((Text.commaSeparated names).toList ++ [')']) := by
        simpa using same.symm
      exact target.enclosed filled named whole

/-- A statement binds the name that is its first target, and nothing where that is a tuple. -/
theorem heads_iff {b : Binder} (place_of : b.first.IsPlace)
    (named : ∀ x ∈ b.first.boundNames, IsVariable x) (outside : b.Outside s)
    (run : Gives (visit config b.node) s () t) :
    ∃ before entries, s.output = .block before ∧ t.output = .block (before ++ entries) ∧
      ∀ names, b.Heads entries names ↔ Sole b.first names := by
  cases b with
  | assignment first others value comment =>
    obtain ⟨before,u,place,v,w,keyword,text,out,placed,-,-,out',written,-⟩ := assign_run run
    have target := targetText_of_run place_of named placed
    rw [show s.frames.top.className = "" from outside,qualified,if_pos (by rfl)] at out'
    refine ⟨before,_,out,out',fun names => ⟨?_,?_⟩⟩
    · rintro ⟨⟨filled,all⟩,keyword',text',written',member⟩
      exact target.assigned filled all written written' (Code.line.inj (List.mem_singleton.mp member)).symm
    · rintro ⟨x,access,sole,rfl⟩
      obtain rfl : first = .name (some x) access := sole
      cases target with
      | name own => exact ⟨by simpa using own,keyword,text,written,by simp [Text.commaSeparated]⟩
  | loop target iter body orElse comment =>
    obtain ⟨before,u,place,v,entries,out,placed,out',line,text,rest,rfl,header⟩ := loop_shows run
    have shown := targetText_of_run place_of named placed
    refine ⟨before,_,out,out',fun names => ⟨?_,?_⟩⟩
    · rintro ⟨⟨filled,all⟩,line',rest',same,read⟩
      cases same
      exact shown.looped filled all header read
    · rintro ⟨x,access,sole,rfl⟩
      obtain rfl : target = .name (some x) access := sole
      cases shown with
      | name own =>
        refine ⟨by simpa using own,line,rest,rfl,?_⟩
        rcases header with ⟨overText,rfl⟩ | ⟨function,made⟩
        · obtain ⟨tail,shape⟩ := loopHeader_shape overText place text
          exact .inl ⟨_,by simpa [Text.commaSeparated] using shape⟩
        · obtain ⟨front,ends⟩ := generatorHeader_ends made
          exact .inr ⟨String.ofList front,by simp [Text.commaSeparated,← String.toList_inj,ends]⟩

/-- A loop, or an assignment outside of the classes, that compiles binds all names of its targets, and
these alone stand where names have to, exactly if its first target is a name and there is no other
name. Of several targets only the first one is written, and a tuple is written as a call. -/
theorem targets_bound {b : Binder} (places : ∀ n ∈ b.targets, n.IsPlace)
    (named : ∀ n ∈ b.targets, ∀ x ∈ n.boundNames, IsVariable x) (outside : b.Outside s)
    (run : Gives (visit config b.node) s () t) :
    ∃ before entries, s.output = .block before ∧ t.output = .block (before ++ entries) ∧
      (∀ names, b.Heads entries names ↔ Sole b.first names) ∧
      (((∃ names, b.Heads entries names) ∧
          ∀ n ∈ b.targets, ∀ x ∈ n.boundNames, ∃ names, b.Heads entries names ∧ x ∈ names) ↔
        ∃ x access, b.first = .name (some x) access ∧ ∀ n ∈ b.targets, ∀ y ∈ n.boundNames, y = x) := by
  have given : b.first ∈ b.targets := by cases b <;> simp [Binder.first,Binder.targets]
  obtain ⟨before,entries,out,out',heads⟩ := heads_iff (places _ given) (named _ given) outside run
  refine ⟨before,entries,out,out',heads,?_⟩
  simp only [heads]
  constructor
  · rintro ⟨⟨_,x,access,first,rfl⟩,all⟩
    refine ⟨x,access,first,fun n target y bound => ?_⟩
    obtain ⟨_,⟨z,_,first',rfl⟩,member⟩ := all n target y bound
    rw [first] at first'
    cases first'
    exact List.mem_singleton.mp member
  · rintro ⟨x,access,first,all⟩
    have sole : Sole b.first [x] := ⟨x,access,first,rfl⟩
    exact ⟨⟨_,sole⟩,fun n target y bound => ⟨_,sole,List.mem_singleton.mpr (all n target y bound)⟩⟩

def pairLoop : Binder := .loop (.tuple [.name (some "a") .absent,.name (some "b") .absent] .absent)
  (.name (some "c") .absent) [] [] none

theorem pairLoop_binds_nothing : ∃ t entries, Gives (visit none pairLoop.node) (.initial .empty) () t ∧
    t.output = .block entries ∧ ∀ names, ¬pairLoop.Heads entries names := by
  have run := gives_of_isOk (c := visit none pairLoop.node) (s := .initial .empty) (by decide +kernel)
  obtain ⟨before,entries,out,out',heads,-⟩ := targets_bound (b := pairLoop)
    (by simp [pairLoop,Binder.targets,Node.IsPlace,Node.id?]) (by decide +kernel) trivial run
  cases out
  refine ⟨_,entries,run,out',fun names headed => ?_⟩
  obtain ⟨x,access,same,-⟩ := (heads names).mp headed
  cases same

def twoNames : Binder := .assignment (.name (some "a") .absent) [.name (some "b") .absent]
  (.constant (.int 1) none) none

/-- The second name is not assigned to. -/
theorem twoNames_binds_first : ∃ t, Gives (visit none twoNames.node) (.initial .empty) () t ∧
    t.output = .block [.line "local a = 1"] ∧
    ∀ names, twoNames.Heads [.line "local a = 1"] names ↔ names = ["a"] := by
  have run := gives_of_isOk (c := visit none twoNames.node) (s := .initial .empty) (by decide +kernel)
  have written : (visit none twoNames.node (.initial .empty)).2.output = .block [.line "local a = 1"] := by
    decide +kernel
  obtain ⟨before,entries,out,out',heads⟩ := heads_iff (b := twoNames) rfl (by decide +kernel)
    (s := .initial .empty) rfl run
  cases out
  cases written.symm.trans out'
  refine ⟨_,run,written,fun names => (heads names).trans ⟨?_,fun same => ⟨"a",_,rfl,same⟩⟩⟩
  rintro ⟨x,access,same,rfl⟩
  cases same
  rfl

/-! ## Declarations -/

/-- An assignment to the name is written with the keyword and leaves the second stack. -/
def Introduced (before : SymbolStack (Option String)) (x keyword : String)
    (after : SymbolStack (Option String)) : Prop :=
  (before.knows (some x) = true ∧ keyword = "" ∧ after = before) ∨
    (before.knows (some x) = false ∧ keyword = "local " ∧ before.add? (some x) = some after)

theorem exists_introduced (x : String) (blocks : s.locals.levels ≠ []) :
    ∃ keyword locals, Introduced s.locals x keyword locals ∧
      ∀ u : State, u.locals = s.locals → Gives (introduce (some x)) u keyword { u with locals } := by
  obtain ⟨keyword,t,run⟩ := introduce_gives (some x) blocks
  rcases gives_introduce.mp run with ⟨known,rfl,rfl⟩ | ⟨unknown,rfl,locals,added,rfl⟩
  · refine ⟨"",t.locals,.inl ⟨known,rfl,rfl⟩,fun u same => gives_introduce.mpr (.inl ?_)⟩
    exact ⟨same ▸ known,rfl,by rw [← same]⟩
  · refine ⟨"local ",locals,.inr ⟨unknown,rfl,added⟩,fun u same => gives_introduce.mpr (.inr ?_)⟩
    exact ⟨same ▸ unknown,rfl,locals,same ▸ added,rfl⟩

theorem Introduced.known (introduced : Introduced before x keyword before) :
    before.knows (some x) = true := by
  rcases introduced with ⟨known,-,-⟩ | ⟨-,-,added⟩
  · exact known
  · unfold SymbolStack.add? at added
    split at added
    · cases added
    · rename_i level outer levels
      have same := congrArg SymbolStack.levels (Option.some.inj added)
      simp [levels] at same

theorem isWord_iff (named : IsVariable x) : Text.isWord x = true ↔ '_' ∉ x.toList := by
  have sign : Text.isAlphanumeric '_' = false := by decide +kernel
  have filled : x.isEmpty = false := by simpa using named.1
  simp only [Text.isWord,filled,List.all_eq_true,Bool.not_false,Bool.true_and]
  constructor
  · intro all member
    simp [all '_' member] at sign
  · intro plain c member
    exact (named.letter member).resolve_right fun same => plain (same ▸ member)

section

variable {access value hint : Node} (named : IsVariable x) (outside : s.frames.top.className = "")
include named outside

theorem annotated_eq (filled : text ≠ "") (reads : Gives (inline (visit config value)) s text t) :
    visit config (.annAssign (.name (some x) access) hint value simple) s = (do
      let keyword ← introduce (some x)
      let _ ← inline (visit config hint)
      emit (keyword ++ x ++ " = " ++ text)) t := by
  have top : Gives frame t s.frames.top t := by
    rw [← (inline_keeps reads).1]
    rfl
  have undotted : Text.hasChar x '.' = false := by
    simpa [Text.hasChar] using named.plain '.' (by simp)
  refine (bind_of_gives (name_gives ..)).trans ((bind_of_gives reads).trans ((bind_of_gives top).trans ?_))
  simp [outside,qualified,typeClass,undotted,filled]

omit outside in
theorem tagTargets_name : Gives (tagTargets value [.name (some x) access]) s ()
    { s with tags := insertField x value.tag s.tags } := by
  simp [tagTargets,Node.id?,named.1]

theorem assign_eq (free : x ∉ libraryNames)
    (reads : Gives (inline (visit config value)) { s with tags := insertField x value.tag s.tags } text t) :
    visit config (.assign [.name (some x) access] value comment) s = (if Text.isWord x then do
      let keyword ← introduce (some x)
      emit (keyword ++ x ++ " = " ++ text) else emit ("" ++ x ++ " = " ++ text)) t := by
  have checked : Gives (checkElements x) t () t := by
    rw [checkElements,if_neg (by simpa [Text.hasChar] using named.plain ',' (by simp))]
    rfl
  have top : Gives frame t s.frames.top t := by
    rw [← (inline_keeps reads).1]
    rfl
  refine (bind_of_gives (tagTargets_name named)).trans ((bind_of_gives (name_gives ..)).trans
    ((bind_of_gives reads).trans ((bind_of_gives checked).trans ((bind_of_gives top).trans ?_))))
  simp [outside,qualified,named.2.2,free]
  rfl

end

/-- Outside of the classes an annotated assignment to a variable declares the variable if it is not
known. The assignment without the annotation writes the same line and leaves the same names exactly if
the variable is known or has no underscore, and the value has the same text when the variable has
already been given the tag of the value. -/
theorem annotation_declares {hintText : String} {before : List Code} {access other value hint : Node}
    {simple : Option Int} {comment : Option String} (named : IsVariable x) (free : x ∉ libraryNames)
    (outside : s.frames.top.className = "") (blocks : s.locals.levels ≠ [])
    (out : s.output = .block before) (expr : value.isExpression = true)
    (reads : Texts config s value text) (filled : text ≠ "") (type : hint.isExpression = true)
    (hinted : Texts config s hint hintText) :
    ∃ keyword t, Gives (visit config (.annAssign (.name (some x) access) hint value simple)) s () t ∧
      Introduced s.locals x keyword t.locals ∧
      t.output = .block (before ++ [.line (keyword ++ x ++ " = " ++ text)]) ∧
      ((∃ u, Gives (visit config (.assign [.name (some x) other] value comment)) s () u ∧
          u.output = t.output ∧ u.locals = t.locals) ↔
        (s.locals.knows (some x) = true ∨ '_' ∉ x.toList) ∧
          Texts config { s with tags := insertField x value.tag s.tags } value text) := by
  obtain ⟨w,valued⟩ := reads
  have annotated := @annotated_eq config s w x text access value hint named outside simple filled valued
  obtain ⟨_,helpers,generators,-,-,rfl,-⟩ := expression_text_stable expr valued
  obtain ⟨keyword,locals,introduced,introduces⟩ := exists_introduced x blocks
  obtain ⟨_,_,typed⟩ := hinted.again (t := { s.gained helpers generators with locals }) type rfl rfl rfl
  have ran := annotated.trans ((bind_of_gives (introduces (s.gained helpers generators) rfl)).trans
    (bind_of_gives typed))
  have write (line : String) (u : State) (start : u.output = .block before) :
      Gives (emit line) u () { u with output := .block (before ++ [.line line]) } :=
    gives_emit.mpr ⟨before,start,rfl⟩
  have kept {text : String} {w : State} (valued : Gives (inline (visit config value))
      { s with tags := insertField x value.tag s.tags } text w) :
      w.locals = s.locals ∧ w.output = .block before := by
    obtain ⟨_,_,_,-,-,rfl,-⟩ := expression_text_stable expr valued
    exact ⟨rfl,out⟩
  refine ⟨keyword,_,ran.trans (write _ _ out),introduced,rfl,?_⟩
  constructor
  · rintro ⟨u,run,same,stack⟩
    obtain ⟨_,tagged,rest⟩ := gives_unit_bind.mp run
    obtain ⟨-,rfl⟩ := tagged.unique (tagTargets_name named)
    obtain ⟨_,_,placed,rest⟩ := gives_bind.mp rest
    obtain ⟨-,rfl⟩ := placed.unique (name_gives ..)
    obtain ⟨text',w,valued,-⟩ := gives_bind.mp rest
    obtain ⟨known,start⟩ := kept valued
    suffices found : text' = text ∧ (s.locals.knows (some x) = true ∨ '_' ∉ x.toList) by
      exact ⟨found.2,w,found.1 ▸ valued⟩
    rw [Gives,assign_eq named outside free valued] at run
    split at run
    · rename_i word
      rw [bind_of_gives (introduces w known)] at run
      obtain ⟨-,rfl⟩ := Gives.unique run (write _ _ start)
      exact ⟨by simpa using same,.inr ((isWord_iff named).mp word)⟩
    · obtain ⟨-,rfl⟩ := Gives.unique run (write _ _ start)
      obtain rfl : s.locals = locals := known.symm.trans stack
      have before := introduced.known
      obtain ⟨-,rfl,-⟩ | ⟨unknown,-,-⟩ := introduced
      · exact ⟨by simpa using same,.inl before⟩
      · simp [before] at unknown
  · rintro ⟨known,w,valued⟩
    obtain ⟨stack,start⟩ := kept valued
    have assigned := @assign_eq config s w x text other value named outside comment free valued
    split at assigned
    · rw [bind_of_gives (introduces w stack)] at assigned
      exact ⟨_,assigned.trans (write _ _ start),rfl,rfl⟩
    · rename_i marked
      rw [← isWord_iff named] at known
      obtain ⟨-,rfl,rfl⟩ | ⟨unknown,-,-⟩ := introduced
      · exact ⟨_,assigned.trans (write _ _ start),rfl,stack⟩
      · simp [unknown,marked] at known

def annotatedCount : Node :=
  .annAssign (.name (some "my_var") .absent) (.name (some "int") .absent) (.constant (.int 1) none) none

def plainCount : Node := .assign [.name (some "my_var") .absent] (.constant (.int 1) none) none

theorem annotatedCount_differs : ∃ t, Gives (visit none annotatedCount) (.initial .empty) () t ∧
    t.output = .block [.line "local my_var = 1"] ∧
    ¬∃ u, Gives (visit none plainCount) (.initial .empty) () u ∧
      u.output = t.output ∧ u.locals = t.locals := by
  obtain ⟨keyword,t,run,introduced,out,same⟩ := @annotation_declares none (.initial .empty) "my_var" "1"
    "int" [] .absent .absent (.constant (.int 1) none) (.name (some "int") .absent) none none
    (by decide +kernel) (by decide) rfl (by decide) rfl rfl ⟨_,gives_of_toOption (by decide +kernel)⟩
    (by decide) rfl ⟨_,name_gives ..⟩
  have unknown : (State.initial .empty).locals.knows (some "my_var") = false := by decide
  obtain ⟨known,-,-⟩ | ⟨-,rfl,-⟩ := introduced
  · simp [unknown] at known
  · refine ⟨t,run,out,fun found => ?_⟩
    rcases (same.mp found).1 with known | plain
    · simp [unknown] at known
    · simp at plain

/-- Without the annotation the name is assigned to and not declared. -/
theorem plainCount_undeclared : ∃ u, Gives (visit none plainCount) (.initial .empty) () u ∧
    u.output = .block [.line "my_var = 1"] ∧ u.locals.knows (some "my_var") = false :=
  ⟨_,gives_of_isOk (by decide +kernel),by decide +kernel,by decide +kernel⟩

end Compile

end LuauCompiler
