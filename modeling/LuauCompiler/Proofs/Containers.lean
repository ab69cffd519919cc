import LuauCompiler.Proofs.Stability
import LuauCompiler.Proofs.Statements
import LuauCompiler.Proofs.Terms

/-! Texts and lists that are used through a name. A rule that searches, joins or iterates over a
value goes by the node where the value is written out and by the tag of the name otherwise. The
rules spell the tags differently, so a name is used like its value in some places only. -/
namespace LuauCompiler

/-- The kinds of values that are searched, joined and iterated over. -/
inductive Container where
  | text
  | list
  deriving DecidableEq, Repr

namespace Container

def tag : Container → String
  | .text => "str"
  | .list => "List"

def test : Container → Compile.Membership
  | .text => .inText
  | .list => .inList

end Container

def Node.container? : Node → Option Container
  | .constant (.str _) _ => some .text
  | .list .. => some .list
  | _ => none

section

variable {n : Node} {kind : Container} (literal : n.container? = some kind)

include literal

theorem container_cases : (kind = .text ∧ ∃ text comment, n = .constant (.str text) comment) ∨
      (kind = .list ∧ ∃ elts access, n = .list elts access) := by
  unfold Node.container? at literal
  split at literal
  · cases literal
    exact .inl ⟨rfl,_,_,rfl⟩
  · cases literal
    exact .inr ⟨rfl,_,_,rfl⟩
  · cases literal

theorem container_tag : n.tag = kind.tag := by
  rcases container_cases literal with ⟨rfl,_,_,rfl⟩ | ⟨rfl,_,_,rfl⟩ <;> rfl

theorem container_isStrConstant : n.isStrConstant = decide (kind = .text) := by
  rcases container_cases literal with ⟨rfl,_,_,rfl⟩ | ⟨rfl,_,_,rfl⟩ <;> rfl

theorem container_isList : n.isList = decide (kind = .list) := by
  rcases container_cases literal with ⟨rfl,_,_,rfl⟩ | ⟨rfl,_,_,rfl⟩ <;> rfl

theorem container_isConstant : n.constant?.isSome = decide (kind = .text) := by
  rcases container_cases literal with ⟨rfl,_,_,rfl⟩ | ⟨rfl,_,_,rfl⟩ <;> rfl

end

/-- An operation on a value, with its other operand. -/
inductive Operation where
  /-- `element in value` or `element not in value` -/
  | search (negated : Bool) (element : Node)
  /-- `left + value` -/
  | addTo (left : Node)
  /-- `value + right` -/
  | addOn (right : Node)

namespace Operation

def operands (op : Operation) (value : Node) : Node × Node :=
  match op with
  | .search _ element => (element,value)
  | .addTo left => (left,value)
  | .addOn right => (value,right)

def node (op : Operation) (value : Node) : Node :=
  match op with
  | .search negated element =>
    .compare element [.mark (.compare (if negated then .notIn else .isIn))] [value]
  | .addTo left => .binOp left (.mark (.binary .add)) value
  | .addOn right => .binOp value (.mark (.binary .add)) right

end Operation

namespace Compile.Membership

/-- How many characters the test adds to those of the operands. -/
def excess : Membership → Nat
  | .inList => 23
  | .inText => 33
  | .asKey => 11

theorem length_text (test : Membership) (element container : String) :
    (test.text element container).toList.length =
      test.excess + (element.toList.length + container.toList.length) := by
  have comma : ", ".toList.length = 2 := by decide
  have closing : ") ~= nil)".toList.length = 9 := by decide
  rw [text.eq_def]
  cases test <;> simp only [excess,String.toList_append,List.length_append]
  case inList =>
    have opening : "(table.find(".toList.length = 12 := by decide
    omega
  case inText =>
    have opening : "(string.find(".toList.length = 13 := by decide
    have closing : ", 1, true) ~= nil)".toList.length = 18 := by decide
    omega
  case asKey =>
    have opening : "(".toList.length = 1 := by decide
    have middle : "[".toList.length = 1 := by decide
    have closing : "] ~= nil)".toList.length = 9 := by decide
    omega

end Compile.Membership

/-- The form of an operation. -/
inductive Choice where
  | tested (negated : Bool) (test : Compile.Membership)
  | joined
  | added
  | refused
  deriving DecidableEq, Repr

namespace Choice

def text? (choice : Choice) (left right : String) : Option String :=
  match choice with
  | .tested negated test => some ((if negated then "not" else "") ++ test.text left right)
  | .joined => some (left ++ " .. " ++ right)
  | .added => some (Compile.parenthesised (Compile.infixText "+" left right))
  | .refused => none

/-- The form of a sum: one of a list and something else is refused. -/
def ofSum (kind : Container) (refused : Bool) : Choice := bif refused then .refused
  else match kind with
    | .text => .joined
    | .list => .added

/-- How many characters the form adds to those of the operands. -/
def excess : Choice → Option Nat
  | .tested negated test => some ((if negated then 3 else 0) + test.excess)
  | .joined => some 4
  | .added => some 5
  | .refused => none

theorem length_text? (choice : Choice) (left right : String) :
    (choice.text? left right).map (·.toList.length) =
      choice.excess.map (· + (left.toList.length + right.toList.length)) := by
  cases choice with
  | tested negated test =>
    simp only [text?,excess,Option.map_some,String.toList_append,List.length_append,
      Compile.Membership.length_text]
    cases negated with
    | false => simp
    | true => simp; omega
  | joined =>
    simp only [text?,excess,Option.map_some,String.toList_append,List.length_append]
    simp
    omega
  | added =>
    simp only [text?,excess,Compile.parenthesised,Compile.infixText,Option.map_some,
      String.toList_append,List.length_append]
    simp
    omega
  | refused => rfl

theorem text?_inj {first second : Choice} {left right : String}
    (same : first.text? left right = second.text? left right) : first = second := by
  have lengths : first.excess = second.excess := by
    have mapped := congrArg (Option.map fun text : String => text.toList.length) same
    rw [length_text?,length_text?] at mapped
    exact Option.map_injective (fun a b sum => Nat.add_right_cancel sum) mapped
  revert lengths
  rcases first with ⟨negated,test⟩ | _ | _ | _ <;> rcases second with ⟨negated',test'⟩ | _ | _ | _
  all_goals try cases negated
  all_goals try cases test
  all_goals try cases negated'
  all_goals try cases test'
  all_goals decide

end Choice

namespace Compile

variable {config : Option Config} {s t : State} {e value : Node} {text left right : String}

/-! ## Texts of operands -/

/-- The expression is compiled to the text. -/
def Texts (config : Option Config) (s : State) (e : Node) (text : String) : Prop :=
  ∃ t, Gives (inline (visit config e)) s text t

theorem Texts.unique (first : Texts config s e text) (second : Texts config s e other) : text = other := by
  obtain ⟨_,run⟩ := first
  obtain ⟨_,again⟩ := second
  exact (run.unique again).1

section

variable (texts : Texts config s e text) (expr : e.isExpression = true) (frames : t.frames = s.frames)
    (tags : t.tags = s.tags) (current : t.current = s.current)

include texts expr frames tags current

theorem Texts.again :
    ∃ helpers generators, Gives (inline (visit config e)) t text (t.gained helpers generators) := by
  obtain ⟨_,run⟩ := texts
  obtain ⟨u,lines,inner,read,rfl,rfl⟩ := gives_inline.mp run
  obtain ⟨g,again⟩ := (visit_repeats config e expr).again _ () u (.refl rfl) inner
  obtain ⟨-,rfl⟩ := inner.unique (again _ (.refl rfl))
  have run := again { t with output := .block [] } ⟨frames,tags,current,[],rfl⟩
  refine ⟨g.helpers,g.generators,gives_inline.mpr ⟨_,lines,run,read,rfl,?_⟩⟩
  rw [← State.gaining_silent]
  exact (State.gaining_aside t g).symm

theorem Texts.carried :
    Texts config t e text := by
  obtain ⟨_,_,run⟩ := texts.again expr frames tags current
  exact ⟨_,run⟩

end

def Readable (config : Option Config) (s : State) (e : Node) : Prop :=
  e.isExpression = true ∧ ∃ text, Texts config s e text

/-! ## After the assignment -/

/-- The state after an assignment of `value` to `name`, the first one of all. -/
structure Assigned (config : Option Config) (name : String) (value : Node) (s : State) : Prop where
  tags : s.tags = [(name,value.tag)]
  output : ∃ before, s.output = .block before
  text : ∃ text, Texts config s value text

theorem assigned_of_visit (given : name ≠ "") (expr : value.isExpression = true) (fresh : s.tags = [])
    (run : Gives (visit config (.assign [.name (some name) access] value comment)) s () t) :
    Assigned config name value t := by
  obtain ⟨v,tagged,run⟩ := gives_unit_bind.mp run
  obtain rfl : v = { s with tags := [(name,value.tag)] } := by
    have shown : tagTargets value [.name (some name) access] =
        update fun s => { s with tags := insertField name value.tag s.tags } := by
      simp [tagTargets,Node.id?,given]
      rfl
    rw [shown,gives_update] at tagged
    simpa [fresh,insertField] using tagged
  obtain ⟨target,w,aimed,run⟩ := gives_bind.mp run
  obtain ⟨rfl,rfl⟩ := aimed.unique (name_gives ..)
  obtain ⟨text,x,valued,run⟩ := gives_bind.mp run
  obtain ⟨_,helpers,generators,-,-,rfl,again⟩ := expression_text_stable expr valued
  obtain ⟨y,checked,run⟩ := gives_unit_bind.mp run
  rw [checkElements_run checked,gives_frame_bind] at run
  obtain ⟨keyword,locals,-,run⟩ := introduceIf_run (p := _ = true) run
  split at run
  · exact absurd run gives_reject_bind
  · obtain ⟨before,out,rfl⟩ := gives_emit.mp run
    have texts : Texts config _ value text := ⟨_,again⟩
    exact ⟨rfl,⟨_,rfl⟩,text,texts.carried expr rfl rfl rfl⟩

/-! ## Operations -/

theorem pair_run (expr : first.isExpression = true) (expr' : second.isExpression = true)
    (reads : Texts config s first left) (reads' : Texts config s second right)
    (rule : String → String → Compile Unit) :
    ∃ u, u.tags = s.tags ∧ u.console = s.console ∧ u.output = .block [] ∧ (do
        let left ← inline (visit config first)
        let right ← inline (visit config second)
        rule left right) { s with output := .block [] } = rule left right u := by
  obtain ⟨helpers,generators,run⟩ := reads.again (t := { s with output := .block [] }) expr rfl rfl rfl
  obtain ⟨_,_,run'⟩ := reads'.again
    (t := ({ s with output := .block [] } : State).gained helpers generators) expr' rfl rfl rfl
  refine ⟨_,?_,?_,?_,(bind_of_gives run).trans (bind_of_gives run')⟩ <;> rfl

theorem search_of_pair (run : Gives (do
      let left ← inline (visit config e)
      let right ← inline (visit config value)
      emit (← link op value left right)) s () t) :
    Gives (visit config (.compare e [op] [value])) s () t := by
  obtain ⟨left,u,first,run⟩ := gives_bind.mp run
  obtain ⟨right,v,second,run⟩ := gives_bind.mp run
  obtain ⟨text,w,linked,run⟩ := gives_bind.mp run
  have chained : Gives (chain left [op] [(value,visit config value)]) u text w :=
    gives_bind.mpr ⟨right,v,second,gives_bind.mpr ⟨text,w,linked,rfl⟩⟩
  exact gives_bind.mpr ⟨left,u,first,gives_bind.mpr ⟨text,w,chained,run⟩⟩

theorem visit_sum (left right : Node) : visit config (.binOp left (.mark (.binary .add)) right) = (do
      let l ← inline (visit config left)
      let r ← inline (visit config right)
      emit (← sum left right l r)) := rfl

/-- The operation is refused with a message. -/
def Refuses (config : Option Config) (s : State) (n : Node) : Prop :=
  ∃ t, inline (visit config n) s = (.error (.exit (some 1)),t) ∧
    t.console = s.console.print (Diagnostic.error "Not supported.")

/-- The node is compiled to the text, or refused where there is none. -/
def Ends (config : Option Config) (s : State) (n : Node) (text : Option String) : Prop :=
  text.elim (Refuses config s n) (Texts config s n)

theorem Ends.unique {text other : Option String} (first : Ends config s n text)
    (second : Ends config s n other) : text = other := by
  have clash : ∀ text, Texts config s n text → ¬ Refuses config s n := by
    rintro text ⟨_,run⟩ ⟨_,failed,-⟩
    cases run.symm.trans failed
  cases text <;> cases other
  · rfl
  · exact (clash _ second first).elim
  · exact (clash _ first second).elim
  · rw [Texts.unique first second]

/-- The form in which an operation on the value is written. -/
def Picks (config : Option Config) (s : State) (op : Operation) (value : Node) (choice : Choice) : Prop :=
  ∃ left right, Texts config s (op.operands value).1 left ∧ Texts config s (op.operands value).2 right ∧
    Ends config s (op.node value) (choice.text? left right)

theorem Picks.unique {op : Operation} {choice other : Choice} (first : Picks config s op value choice)
    (second : Picks config s op value other) : choice = other := by
  obtain ⟨left,right,reads,reads',ends⟩ := first
  obtain ⟨left',right',again,again',ends'⟩ := second
  obtain rfl := reads.unique again
  obtain rfl := reads'.unique again'
  exact Choice.text?_inj (ends.unique ends')

theorem texts_of_visit (run : Gives (visit config n) { s with output := .block [] } () t)
    (out : t.output = .block [.line text]) : Texts config s n text :=
  ⟨_,gives_inline.mpr ⟨t,[text],run,by rw [out]; rfl,rfl,rfl⟩⟩

theorem pair_gives (expr : first.isExpression = true) (expr' : second.isExpression = true)
    (reads : Texts config s first left) (reads' : Texts config s second right)
    (rule : String → String → Compile String)
    (decides : ∀ u : State, u.tags = s.tags → Gives (rule left right) u text u) :
    ∃ t, t.output = .block [.line text] ∧ Gives (do
      let left ← inline (visit config first)
      let right ← inline (visit config second)
      emit (← rule left right)) { s with output := .block [] } () t := by
  obtain ⟨u,tags,-,out,run⟩ := pair_run expr expr' reads reads' fun left right => do
    emit (← rule left right)
  rw [bind_of_gives (decides u tags)] at run
  exact ⟨{ u with output := .block [.line text] },rfl,run.trans (gives_emit.mpr ⟨[],out,rfl⟩)⟩

theorem search_picks (expr : e.isExpression = true) (expr' : value.isExpression = true)
    (reads : Texts config s e left) (reads' : Texts config s value right)
    (decides : ∀ u : State, u.tags = s.tags → Gives (membership value) u test u) :
    Picks config s (.search negated e) value (.tested negated test) := by
  refine ⟨left,right,reads,reads',?_⟩
  have decided (u : State) (tags : u.tags = s.tags) :
      Gives (link (.mark (.compare (if negated then .notIn else .isIn))) value left right) u
        ((if negated then "not" else "") ++ test.text left right) u := by
    cases negated <;> exact gives_bind.mpr ⟨test,u,decides u tags,rfl⟩
  obtain ⟨t,out,run⟩ := pair_gives expr expr' reads reads' _ decided
  exact texts_of_visit (search_of_pair run) out

section

variable (expr : a.isExpression = true) (expr' : b.isExpression = true) (reads : Texts config s a left)
    (reads' : Texts config s b right)

include expr expr' reads reads'

theorem sum_text :
    Ends config s (.binOp a (.mark (.binary .add)) b)
      (bif listLike s.tags a left && !listLike s.tags b right then none
        else some (Term.operationText .add (textLike s.tags a left) (textLike s.tags b right) left right)) := by
  cases refused : listLike s.tags a left && !listLike s.tags b right with
  | true =>
    obtain ⟨u,tags,console,out,run⟩ := pair_run expr expr' reads reads' fun left right => do
      emit (← sum a b left right)
    have failed : sum a b left right u = reject "Not supported." u := by
      rw [← tags] at refused
      rw [sum_eq,refused,if_pos rfl]
    rw [bind_of_error failed,← visit_sum] at run
    refine ⟨_,bind_of_error (nested_of_error run),?_⟩
    rw [← console]
  | false =>
    have decides : ∀ u : State, u.tags = s.tags → Gives (sum a b left right) u
        (Term.operationText .add (textLike s.tags a left) (textLike s.tags b right) left right) u := by
      intro u tags
      rw [← tags] at refused
      rw [Gives,sum_eq,refused,tags]
      rfl
    obtain ⟨t,out,run⟩ := pair_gives expr expr' reads reads' (sum a b) decides
    rw [← visit_sum] at run
    exact texts_of_visit run out

theorem sum_ends (first : textLike s.tags a left = decide (kind = .text))
    (second : textLike s.tags b right = decide (kind = .text)) :
    Ends config s (.binOp a (.mark (.binary .add)) b)
      ((Choice.ofSum kind (listLike s.tags a left && !listLike s.tags b right)).text?
        left right) := by
  have ends := sum_text expr expr' reads reads'
  rw [first,second] at ends
  cases refused : listLike s.tags a left && !listLike s.tags b right <;> rw [refused] at ends <;>
    cases kind <;> exact ends

end

/-! ## Names and the values they were assigned -/

section

variable {kind : Container} {name text : String} {access : Node}

theorem membership_literal (literal : n.container? = some kind) (u : State) :
    Gives (membership n) u kind.test u := by
  rcases container_cases literal with ⟨rfl,_,_,rfl⟩ | ⟨rfl,_,_,rfl⟩ <;> rfl

variable (known : s.tags = [(name,kind.tag)])

include known

theorem lookup_cases (text : String) : s.tags.lookup text = none ∨ s.tags.lookup text = some kind.tag := by
  rw [known]
  by_cases same : text = name
  · exact .inr (by simp [same])
  · exact .inl (by simp [List.lookup_cons,beq_false_of_ne same])

theorem listLike_literal (literal : n.container? = some kind) :
    listLike s.tags n text = decide (kind = .list) := by
  rw [listLike,container_isList literal]
  rcases lookup_cases known text with found | found <;> rw [found] <;> cases kind <;> rfl

theorem textLike_literal (literal : n.container? = some kind) :
    textLike s.tags n text = decide (kind = .text) := by
  rw [textLike,container_isStrConstant literal]
  rcases lookup_cases known text with found | found <;> rw [found] <;> cases kind <;> rfl

theorem lookup_name : s.tags.lookup name = some kind.tag := by
  simp [known]

theorem listLike_name : listLike s.tags (.name (some name) access) name = false := by
  rw [listLike,lookup_name known]
  cases kind <;> rfl

theorem textLike_name : textLike s.tags (.name (some name) access) name = decide (kind = .text) := by
  rw [textLike,lookup_name known]
  cases kind <;> rfl

theorem membership_name : Gives (membership (.name (some name) access)) s (.ofTag (some kind.tag)) s := by
  rw [membership,gives_tagOf_bind,shownName,Option.getD_some,lookup_name known]
  cases kind <;> rfl

end

end Compile

namespace Operation

/-- The form of an operation on a value that is written out. -/
def onLiteral (kind : Container) : Operation → Choice
  | .search negated _ => .tested negated kind.test
  | .addTo _ | .addOn _ => .ofSum kind false

/-- The form of an operation on a name that was assigned such a value. -/
def onName (kind : Container) : Operation → Choice
  | .search negated _ => .tested negated (.ofTag (some kind.tag))
  | .addTo _ => .ofSum kind (kind = .list)
  | .addOn _ => .ofSum kind false

/-- The other operand can be compiled, and in a sum it is a value of the same kind. -/
def Suits (config : Option Config) (s : State) (kind : Container) : Operation → Prop
  | .search _ other => Compile.Readable config s other
  | .addTo other | .addOn other =>
    Compile.Readable config s other ∧ other.container? = some kind

end Operation

namespace Compile

variable {config : Option Config} {s : State} {kind : Container} {name : String} {access : Node}

variable {op : Operation}

theorem literal_picks (known : s.tags = [(name,kind.tag)]) (literal : value.container? = some kind)
    (readable : Readable config s value) (suits : op.Suits config s kind) :
    Picks config s op value (op.onLiteral kind) := by
  obtain ⟨expr,text,reads⟩ := readable
  cases op with
  | search negated element =>
    obtain ⟨expr',other,reads'⟩ := suits
    exact search_picks expr' expr reads' reads fun u _ => membership_literal literal u
  | addTo left =>
    obtain ⟨⟨expr',other,reads'⟩,like⟩ := suits
    refine ⟨other,text,reads',reads,?_⟩
    have ends := sum_ends expr' expr reads' reads (textLike_literal known like)
      (textLike_literal known literal)
    rwa [listLike_literal known like,listLike_literal known literal,Bool.and_not_self] at ends
  | addOn right =>
    obtain ⟨⟨expr',other,reads'⟩,like⟩ := suits
    refine ⟨text,other,reads,reads',?_⟩
    have ends := sum_ends expr expr' reads reads' (textLike_literal known literal)
      (textLike_literal known like)
    rwa [listLike_literal known like,listLike_literal known literal,Bool.and_not_self] at ends

theorem name_picks (known : s.tags = [(name,kind.tag)]) (suits : op.Suits config s kind) :
    Picks config s op (.name (some name) access) (op.onName kind) := by
  have reads : Texts config s (.name (some name) access) name := ⟨s,name_gives ..⟩
  cases op with
  | search negated element =>
    obtain ⟨expr',other,reads'⟩ := suits
    exact search_picks expr' rfl reads' reads fun u tags => membership_name (tags.trans known)
  | addTo left =>
    obtain ⟨⟨expr',other,reads'⟩,like⟩ := suits
    refine ⟨other,name,reads',reads,?_⟩
    have ends := sum_ends expr' rfl reads' reads (textLike_literal known like) (textLike_name known)
    rwa [listLike_literal known like,listLike_name known,Bool.not_false,Bool.and_true] at ends
  | addOn right =>
    obtain ⟨⟨expr',other,reads'⟩,like⟩ := suits
    refine ⟨name,other,reads,reads',?_⟩
    have ends := sum_ends rfl expr' reads reads' (textLike_name known) (textLike_literal known like)
    rwa [listLike_name known,Bool.false_and] at ends

/-! ## Loops -/

theorem loopHeader_head (overText : Bool) (target iter : String) :
    (loopHeader overText target iter).toList.head? = some 'f' := by
  cases overText <;> simp [loopHeader,String.toList_append]

theorem fillFrom_plain (opens : c ≠ Text.Template.openBrace) (closes : c ≠ Text.Template.closeBrace) :
    Text.Template.fillFrom values (depth + 1) (fuel + 1) (c :: rest) =
      (Text.Template.fillFrom values (depth + 1) fuel rest).map (c :: ·) := by
  rw [Text.Template.fillFrom.eq_def]
  exact (if_neg opens).trans (if_neg closes)

theorem fill_head (start : template.toList.head? = some c) (opens : c ≠ Text.Template.openBrace)
    (closes : c ≠ Text.Template.closeBrace)
    (filled : Text.Template.fill values template = .ok text) : text.toList.head? = some c := by
  obtain ⟨rest,start⟩ := List.head?_eq_some_iff.mp start
  rw [Text.Template.fill,start,fillFrom_plain opens closes] at filled
  cases later : Text.Template.fillFrom values 2 template.length rest with
  | error e =>
    rw [later] at filled
    cases filled
  | ok characters =>
    rw [later] at filled
    cases filled
    simp

theorem generatorHeader_head (made : generatorHeader function target iter = .ok header) :
    header.toList.head? = some 'g' := by
  unfold generatorHeader at made
  split at made
  · cases made
  · refine fill_head ?_ (by decide) (by decide) made
    simp [String.toList_append]

end Compile

/-- A loop with a name for its target, but for what it runs over. -/
structure LoopShell where
  target : String
  access : Node
  body : List Node
  orElse : List Node
  comment : Option String

def LoopShell.node (loop : LoopShell) (value : Node) : Node :=
  .forStmt false (.name (some loop.target) loop.access) value loop.body loop.orElse loop.comment

namespace Compile

/-- The header of a loop over the value: over its characters, or over its items. -/
def OpensLoop (config : Option Config) (s : State) (loop : LoopShell) (value : Node)
    (overText : Bool) : Prop :=
  ∃ text before rest, Texts config s value text ∧ s.output = .block before ∧
    (visit config (loop.node value) s).2.output =
      .block (before ++ .line (loopHeader overText loop.target text) :: rest)

section

variable {config : Option Config} {s t : State} {loop : LoopShell} {value : Node} {text : String}

theorem visit_loop (reads : Gives (inline (visit config value)) s text t) :
    visit config (loop.node value) s = (if t.generators.contains (some (Text.dropGroups text)) then do
        emit (← ofExcept (generatorHeader (Text.dropGroups text) loop.target text))
        loopBody (visits config loop.body)
        emit "end)"
      else do
        emit (loopHeader (← iteratesText value text) loop.target text)
        loopBody (visits config loop.body)
        emit "end" : Compile Unit) t := by
  have aimed := name_gives config s loop.target loop.access
  exact (bind_of_gives aimed).trans (bind_of_gives reads)

theorem opens_of_unmarked (out : s.output = .block before)
    (reads : Gives (inline (visit config value)) s text t)
    (unmarked : some (Text.dropGroups text) ∉ t.generators)
    (decides : Gives (iteratesText value text) t overText t) :
    OpensLoop config s loop value overText := by
  have kept : t.output = .block before := by
    obtain ⟨_,_,-,-,-,rfl⟩ := gives_inline.mp reads
    exact out
  obtain ⟨rest,shown⟩ := opened_output (loopHeader overText loop.target text) "end"
    (visits config loop.body) kept
  refine ⟨text,before,rest,⟨t,reads⟩,out,?_⟩
  rw [visit_loop reads,if_neg (by simpa using unmarked),bind_of_gives decides]
  exact shown

theorem not_opens_of_marked (reads : Gives (inline (visit config value)) s text t)
    (marked : some (Text.dropGroups text) ∈ t.generators) :
    ¬ OpensLoop config s loop value overText := by
  rintro ⟨text',before,rest,-,out,shown⟩
  have kept : t.output = .block before := by
    obtain ⟨_,_,-,-,-,rfl⟩ := gives_inline.mp reads
    exact out
  rw [visit_loop reads,if_pos (by simpa using marked)] at shown
  cases made : generatorHeader (Text.dropGroups text) loop.target text with
  | error e =>
    rw [made,bind_of_error (by rfl),kept] at shown
    simp at shown
  | ok header =>
    rw [made,bind_of_gives (by rfl)] at shown
    obtain ⟨rest',shown'⟩ := opened_output header "end)" (visits config loop.body) kept
    have same := shown.symm.trans shown'
    simp at same
    have head := generatorHeader_head made
    rw [← same.1,loopHeader_head] at head
    cases head

end

variable {kind : Container}

theorem iteratesText_literal (known : s.tags = [(name,kind.tag)]) (literal : n.container? = some kind) :
    Gives (iteratesText n text) s (decide (kind = .text)) s := by
  rw [iteratesText,gives_tagOf_bind]
  rcases lookup_cases known text with found | found <;> rw [found]
  · rw [← container_isConstant literal]
    rfl
  · cases kind <;> rfl

theorem iteratesText_name (known : s.tags = [(name,kind.tag)]) :
    Gives (iteratesText n name) s (decide (kind = .text)) s := by
  rw [iteratesText,gives_tagOf_bind,lookup_name known]
  cases kind <;> rfl

end Compile

/-- A use of a text or a list. -/
inductive Usage where
  | operation (op : Operation)
  | loop (shell : LoopShell)

namespace Usage

/-- The other parts of the use can be compiled, and the value is not taken for a generator where it
is iterated over. -/
def Suits (config : Option Config) (s : State) (kind : Container) (value : Node) : Usage → Prop
  | .operation op => op.Suits config s kind
  | .loop _ => ∀ text t, Compile.Gives (Compile.inline (Compile.visit config value)) s text t →
    some (Text.dropGroups text) ∉ t.generators

/-- Two values are used in the same form. -/
def SameForm (config : Option Config) (s : State) (first second : Node) : Usage → Prop
  | .operation op => ∃ choice, Compile.Picks config s op first choice ∧
      Compile.Picks config s op second choice
  | .loop shell => ∃ overText, Compile.OpensLoop config s shell first overText ∧
      Compile.OpensLoop config s shell second overText

/-- A name is searched like its value if it is a list and added to something if it is a text. It is
iterated over like its value unless a generator has the same name. -/
def Faithful (s : State) (kind : Container) (name : String) : Usage → Prop
  | .operation (.search ..) => kind = .list
  | .operation (.addTo _) => kind = .text
  | .operation (.addOn _) => True
  | .loop _ => some (Text.dropGroups name) ∉ s.generators

end Usage

theorem onName_eq_onLiteral_iff (kind : Container) (op : Operation) (s : State) (name : String) :
    op.onName kind = op.onLiteral kind ↔ (Usage.operation op).Faithful s kind name := by
  cases op <;> cases kind <;> simp [Operation.onName,Operation.onLiteral,Usage.Faithful] <;> decide

namespace Compile

variable {config : Option Config} {s t : State} {kind : Container} {name : String} {access value : Node}

theorem operation_sameForm_iff (known : s.tags = [(name,kind.tag)])
    (literal : value.container? = some kind) (readable : Readable config s value)
    (suits : op.Suits config s kind) :
    (Usage.operation op).SameForm config s (.name (some name) access) value ↔
      (Usage.operation op).Faithful s kind name := by
  have named : Picks config s op (.name (some name) access) (op.onName kind) := name_picks known suits
  have written := literal_picks known literal readable suits
  rw [← onName_eq_onLiteral_iff]
  constructor
  · rintro ⟨choice,first,second⟩
    exact (named.unique first).trans (second.unique written)
  · intro same
    exact ⟨_,named,same ▸ written⟩

theorem loop_sameForm_iff (known : s.tags = [(name,kind.tag)])
    (literal : value.container? = some kind) (readable : Readable config s value)
    (output : ∃ before, s.output = .block before)
    (suits : (Usage.loop shell).Suits config s kind value) :
    (Usage.loop shell).SameForm config s (.name (some name) access) value ↔
      (Usage.loop shell).Faithful s kind name := by
  obtain ⟨before,out⟩ := output
  obtain ⟨expr,text,reads⟩ := readable
  have named := name_gives config s name access
  constructor
  · rintro ⟨overText,opens,-⟩ marked
    exact not_opens_of_marked named marked opens
  · intro unmarked
    obtain ⟨_,_,run⟩ := reads.again expr rfl rfl rfl
    refine ⟨_,opens_of_unmarked out named unmarked (iteratesText_name known),?_⟩
    exact opens_of_unmarked out run (suits text _ run) (iteratesText_literal known literal)

/-- A name that has just been assigned a text or a list, the first assignment of all, stands for its
value in a membership test if that is a list, behind a plus sign if it is a text, before a plus sign
always and in the header of a loop unless a generator has the same name. -/
theorem name_stands_for_value_iff {comment : Option String} {load : Node} (given : name ≠ "")
    (literal : value.container? = some kind) (expr : value.isExpression = true)
    (fresh : s.tags = [])
    (run : Gives (visit config (.assign [.name (some name) access] value comment)) s () t)
    (use : Usage) (suits : use.Suits config t kind value) :
    use.SameForm config t (.name (some name) load) value ↔ use.Faithful t kind name := by
  obtain ⟨known,output,readable⟩ := assigned_of_visit given expr fresh run
  rw [container_tag literal] at known
  cases use with
  | operation op => exact operation_sameForm_iff known literal ⟨expr,readable⟩ suits
  | loop shell => exact loop_sameForm_iff known literal ⟨expr,readable⟩ output suits

def afterAssigning (value : Node) : State :=
  (visit none (.assign [.name (some "v") .absent] value none) (.initial .empty)).2

def sevenList : Node := .list [.constant (.int 7) none] .absent

theorem sevenList_found_by_name :
    let s := State.initial .empty
    let t := afterAssigning sevenList
    let use := Usage.operation (.search true (.name (some "x") .absent))
    Gives (visit none (.assign [.name (some "v") .absent] sevenList none)) s () t ∧
      use.Suits none t .list sevenList ∧ use.SameForm none t (.name (some "v") .absent) sevenList := by
  have run : Gives (visit none (.assign [.name (some "v") .absent] sevenList none))
      (.initial .empty) () (afterAssigning sevenList) := gives_of_isOk (by decide +kernel)
  have suits : (Usage.operation (.search true (.name (some "x") .absent))).Suits none
      (afterAssigning sevenList) .list sevenList := ⟨rfl,"x",_,name_gives ..⟩
  exact ⟨run,suits,(name_stands_for_value_iff (by decide) rfl rfl rfl run _ suits).mpr rfl⟩

/-- A text is searched by name as if it were a table, and a list is not added to a list by name. -/
theorem container_misused_by_name :
    let written := Node.constant (.str "abc") none
    let name := Node.name (some "v") .absent
    let search := Operation.search false (.name (some "x") .absent)
    let add := Operation.addTo sevenList
    (inline (visit none (search.node written)) (afterAssigning written)).1.toOption =
        some "(string.find('abc', x, 1, true) ~= nil)" ∧
      (inline (visit none (search.node name)) (afterAssigning written)).1.toOption = some "(v[x] ~= nil)" ∧
      (inline (visit none (add.node sevenList)) (afterAssigning sevenList)).1.toOption =
        some "(\x7b7\x7d + \x7b7\x7d)" ∧
      (inline (visit none (add.node name)) (afterAssigning sevenList)).1.toOption = none := by
  decide +kernel

end Compile

end LuauCompiler
