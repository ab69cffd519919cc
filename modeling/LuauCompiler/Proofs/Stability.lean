import LuauCompiler.Proofs.Expressions
import LuauCompiler.Proofs.Flow

/-! Compiling an expression has no effect but requests for snippets and marks of generators, and neither
is read by the rules of expressions. -/
namespace LuauCompiler

mutual

/-- The tree is made of expressions: no statement is compiled when it is. -/
def Node.isExpression : Node → Bool
  | .absent | .constant .. | .name .. => true
  | .boolOp _ values | .set values | .joinedStr values | .list values _ | .tuple values _ =>
    areExpressions values
  | .namedExpr first second | .binOp first _ second | .subscript first second _ =>
    first.isExpression && second.isExpression
  | .unaryOp _ value | .lambda _ value | .await value | .yield value | .yieldFrom value
  | .formattedValue value _ _ | .attribute value _ _ | .starred value _ | .index value =>
    value.isExpression
  | .ifExp first second third | .slice first second third =>
    first.isExpression && second.isExpression && third.isExpression
  | .dict keys values => areExpressions keys && areExpressions values
  | .listComp elt clauses | .setComp elt clauses | .generatorExp elt clauses =>
    elt.isExpression && areClauses clauses
  | .dictComp key value clauses => key.isExpression && value.isExpression && areClauses clauses
  | .compare left _ comparators => left.isExpression && areExpressions comparators
  | .call func args keywords => func.isExpression && areExpressions args && areKeywords keywords
  | _ => false

def areExpressions : List Node → Bool
  | [] => true
  | n :: rest => n.isExpression && areExpressions rest

def Node.isClause : Node → Bool
  | .clause target iter filters _ =>
    target.isExpression && iter.isExpression && areExpressions filters
  | _ => false

def areClauses : List Node → Bool
  | [] => true
  | n :: rest => n.isClause && areClauses rest

def Node.isKeyword : Node → Bool
  | .keyword _ value => value.isExpression
  | _ => false

def areKeywords : List Node → Bool
  | [] => true
  | n :: rest => n.isKeyword && areKeywords rest

end

theorem areExpressions_eq_all (ns : List Node) : areExpressions ns = ns.all Node.isExpression := by
  induction ns with
  | nil => rfl
  | cons n rest ih => simp [areExpressions,ih]

theorem areClauses_eq_all (ns : List Node) : areClauses ns = ns.all Node.isClause := by
  induction ns with
  | nil => rfl
  | cons n rest ih => simp [areClauses,ih]

theorem areKeywords_eq_all (ns : List Node) : areKeywords ns = ns.all Node.isKeyword := by
  induction ns with
  | nil => rfl
  | cons n rest ih => simp [areKeywords,ih]

/-- What the parts of an expression satisfy for it to be compiled twice alike. -/
def Part.isStable : Part → Node → Bool
  | .expression => Node.isExpression
  | .clause => Node.isClause
  | .keyword => Node.isKeyword

/-- Every phrase is made of expressions. Trees of expressions that are no phrases hold an index node or a
name that is not given. -/
theorem phrase_isStable (phrase : Phrase part n) : part.isStable n = true := by
  induction phrase <;> simp_all [Part.isStable,Node.isExpression,Node.isClause,Node.isKeyword,
    areExpressions_eq_all,areClauses_eq_all,areKeywords_eq_all]

variable {m n : Node} {config : Option Config}

theorem isExpression_of_clause (given : n.isClause = true) (part : m ∈ n.clauseNodes) :
    m.isExpression = true := by
  cases n with
  | clause =>
    simp only [Node.isClause,areExpressions_eq_all,Node.clauseNodes] at given part
    grind
  | _ => cases part

theorem isExpression_of_value (given : n.isKeyword = true) (part : m ∈ n.valueNodes) :
    m.isExpression = true := by
  cases n with
  | keyword =>
    obtain rfl := List.mem_singleton.mp part
    exact given
  | _ => cases given

theorem isExpression_of_part (expr : n.isExpression = true) (inside : turn ∈ turns config n)
    (part : m ∈ turn.nodes) : m.isExpression = true := by
  cases n <;> simp only [Node.isExpression,areExpressions_eq_all,areClauses_eq_all,areKeywords_eq_all,
      Bool.and_eq_true,List.all_eq_true,Bool.false_eq_true] at expr <;>
    simp only [turns,List.mem_cons,List.mem_append,List.not_mem_nil] at inside <;>
    grind [Turn.nodes,Node.callNodes,Node.sortNodes,isExpression_of_clause,isExpression_of_value]

/-- What a step adds to a state. -/
structure Gain where
  entries : List Code
  helpers : List String
  generators : List (Option String)

namespace Gain

def nothing : Gain := ⟨[],[],[]⟩

def append (g h : Gain) : Gain := ⟨g.entries ++ h.entries,g.helpers ++ h.helpers,g.generators ++ h.generators⟩

/-- The gain of a step whose code is kept aside. -/
def silent (g : Gain) : Gain := { g with entries := [] }

end Gain

namespace State

def gained (s : State) (helpers : List String) (generators : List (Option String)) : State := { s with
    ledger := { s.ledger with helpers := s.ledger.helpers ++ helpers }
    generators := s.generators ++ generators }

def gaining (s : State) (g : Gain) : State := { s.gained g.helpers g.generators with
    output := (s.output.append? g.entries).getD s.output }

/-- The states agree in what the rules of expressions read, and code can be added to the second. -/
structure Resembles (s t : State) : Prop where
  frames : t.frames = s.frames
  tags : t.tags = s.tags
  current : t.current = s.current
  output : ∃ before, t.output = .block before

variable {s t : State}

@[simp] theorem gaining_nothing (s : State) : s.gaining .nothing = s := by
  obtain ⟨ledger,console,frames,locals,globals,nonlocals,tags,functions,generators,output,current⟩ := s
  cases output <;> simp [gaining,gained,Gain.nothing,Code.append?]

theorem gaining_gaining (s : State) (g h : Gain) : (s.gaining g).gaining h = s.gaining (g.append h) := by
  obtain ⟨ledger,console,frames,locals,globals,nonlocals,tags,functions,generators,output,current⟩ := s
  cases output <;> simp [gaining,gained,Gain.append,Code.append?]

theorem gaining_silent (s : State) (g : Gain) : s.gaining g.silent = s.gained g.helpers g.generators := by
  obtain ⟨ledger,console,frames,locals,globals,nonlocals,tags,functions,generators,output,current⟩ := s
  cases output <;> simp [gaining,gained,Gain.silent,Code.append?]

theorem gaining_aside (s : State) (g : Gain) : { ({ s with output := .block [] } : State).gaining g with
      output := s.output, current := s.current } = s.gaining g.silent := by
  rw [gaining_silent]
  rfl

theorem Resembles.gaining (alike : s.Resembles t) (g : Gain) : (s.gaining g).Resembles (t.gaining g) := by
  obtain ⟨before,out⟩ := alike.output
  refine ⟨alike.frames,alike.tags,alike.current,before ++ g.entries,?_⟩
  simp [State.gaining,out,Code.append?]

theorem Resembles.aside (alike : s.Resembles t) :
    ({ s with output := .block [] } : State).Resembles { t with output := .block [] } :=
  ⟨alike.frames,alike.tags,alike.current,[],rfl⟩

theorem Resembles.refl (out : s.output = .block before) : s.Resembles s := ⟨rfl,rfl,rfl,before,out⟩

end State

namespace Compile

variable {α : Type}

/-- What a run gives and adds, every run from a state that resembles the first one gives and adds
too. -/
structure Repeats (c : Compile α) : Prop where
  again : ∀ s a t, s.Resembles s → Gives c s a t →
    ∃ g : Gain, ∀ s', s.Resembles s' → Gives c s' a (s'.gaining g)

theorem Gives.unique (first : Gives c s a t) (second : Gives c s b u) : a = b ∧ t = u := by
  have same := first.symm.trans second
  simpa using same

namespace Repeats

theorem pure (a : α) : Repeats (Pure.pure a) := by
  refine ⟨fun s b t _ run => ?_⟩
  obtain ⟨rfl,rfl⟩ := gives_pure.mp run
  refine ⟨.nothing,fun s' _ => ?_⟩
  simp

theorem bind (first : Repeats c) (rest : ∀ a, Repeats (f a)) : Repeats (c >>= f) := by
  refine ⟨fun s b t given run => ?_⟩
  obtain ⟨a,u,earlier,later⟩ := gives_bind.mp run
  obtain ⟨g,again⟩ := first.again s a u given earlier
  obtain ⟨-,rfl⟩ := earlier.unique (again s given)
  obtain ⟨h,again'⟩ := (rest a).again (s.gaining g) b t (given.gaining g) later
  refine ⟨g.append h,fun s' alike => ?_⟩
  rw [← State.gaining_gaining]
  exact gives_bind.mpr ⟨a,_,again s' alike,again' _ (alike.gaining g)⟩

theorem fail (e : Failure) : Repeats (Compile.fail e : Compile α) :=
  ⟨fun _ _ _ _ run => absurd run gives_fail⟩

theorem ite [Decidable p] (yes : Repeats c) (no : Repeats d) : Repeats (if p then c else d) := by
  split
  · exact yes
  · exact no

theorem guarded [Decidable p] (first : Repeats c) (rest : Repeats d) :
    Repeats (if p then (c >>= fun _ => d) else d) :=
  ite (bind first fun _ => rest) rest

theorem reading (rest : ∀ s, Repeats (f s)) (blind : ∀ {s t : State}, s.Resembles t → f t = f s) :
    Repeats (get >>= f) := by
  refine ⟨fun s a t given run => ?_⟩
  obtain ⟨g,again⟩ := (rest s).again s a t given (gives_get_bind.mp run)
  refine ⟨g,fun s' alike => gives_get_bind.mpr ?_⟩
  rw [blind alike]
  exact again s' alike

theorem tagOf (name : String) : Repeats (Compile.tagOf name) :=
  reading (fun _ => pure _) fun alike => by rw [alike.tags]

theorem frame : Repeats Compile.frame := reading (fun _ => pure _) fun alike => by rw [alike.frames]

theorem gaining (g : Gain) (adds : ∀ s : State, s.Resembles s → f s = s.gaining g) : Repeats (update f) := by
  refine ⟨fun s _ t given run => ⟨g,fun s' alike => gives_update.mpr (adds s' ?_).symm⟩⟩
  exact ⟨rfl,rfl,rfl,alike.output⟩

theorem needs (helper : String) : Repeats (Compile.needs helper) := by
  refine gaining ⟨[],[helper],[]⟩ fun s given => ?_
  obtain ⟨before,out⟩ := given.output
  simp [State.gaining,State.gained,Ledger.need,Code.append?,out]

theorem emitEntries (entries : List Code) : Repeats (Compile.emitEntries entries) := by
  refine ⟨fun s _ t _ _ => ⟨⟨entries,[],[]⟩,fun s' alike => gives_emitEntries.mpr ?_⟩⟩
  obtain ⟨before,out⟩ := alike.output
  refine ⟨before,out,?_⟩
  simp [State.gaining,State.gained,Code.append?,out]

theorem emit (text : String) : Repeats (Compile.emit text) := emitEntries [.line text]

theorem mark (current : Option String) :
    Repeats (update fun s => { s with generators := s.generators ++ [current] }) := by
  refine gaining ⟨[],[],[current]⟩ fun s given => ?_
  obtain ⟨before,out⟩ := given.output
  simp [State.gaining,State.gained,Code.append?,out]

theorem inline (step : Repeats c) : Repeats (Compile.inline c) := by
  refine ⟨fun s text t given run => ?_⟩
  obtain ⟨u,lines,inner,read,rfl,rfl⟩ := gives_inline.mp run
  obtain ⟨g,again⟩ := step.again _ () u given.aside inner
  obtain ⟨-,rfl⟩ := inner.unique (again _ given.aside)
  refine ⟨g.silent,fun s' alike => gives_inline.mpr ?_⟩
  exact ⟨_,lines,again _ alike.aside,read,rfl,(s'.gaining_aside g).symm⟩

end Repeats

variable {config : Option Config}

theorem repeats_flow : Flow config fun ns c => (∀ n ∈ ns, Repeats (visit config n)) → Repeats c where
  pure a _ := .pure a
  tagOf name _ := .tagOf name
  frame _ := .frame
  stops stops _ := ⟨fun s a t _ run => (stops.never s a t run).elim⟩
  append first rest parts := by
    rw [List.forall_mem_append] at parts
    exact .bind (first parts.1) fun a => rest a parts.2
  emit text _ := .emit text
  void _ := .emitEntries _
  complex _ := .needs _
  inline n parts := .inline (parts n (by simp))

theorem dict_repeats (text : String) : Repeats (do needs "dict"; emit text; needs "dict") :=
  .bind (.needs _) fun _ => .bind (.emit _) fun _ => .needs _

theorem yieldValue_repeats (step : Repeats value) : Repeats (yieldValue value) :=
  .reading (fun s => .bind (.mark s.current) fun _ => .bind step.inline fun _ => .emit _)
    fun alike => by rw [alike.current]

theorem visit_repeats (config : Option Config) (n : Node) (expr : n.isExpression = true) :
    Repeats (visit config n) := by
  induction size : sizeOf n using Nat.strongRecOn generalizing n with
  | ind k ih =>
    subst size
    have parts (turn : Turn) (inside : turn ∈ turns config n) (m : Node) (part : m ∈ turn.nodes) :
        Repeats (visit config m) :=
      ih _ (smaller_of_part (List.mem_flatMap.mpr ⟨turn,inside,part⟩)) m
        (isExpression_of_part expr inside part) rfl
    have presents (m : Node) (inside : m.isAbsent = false → .here m ∈ turns config n) :
        Repeats (present m (visit config m)) := by
      unfold present
      cases absent : m.isAbsent with
      | true => exact .pure _
      | false => exact parts _ (inside absent) m (.head _)
    cases plain : isPlain n with
    | true =>
      obtain ⟨ns,same,rule⟩ := visitWith_composed config plain fun _ _ => trivial
      rw [visit_eq_visitWith]
      exact rule.flow repeats_flow (parts (.apart ns) (by simp [same]))
    | false =>
      cases n with
      | absent => exact .fail _
      | constant value => exact (constant_composed value).flow (@repeats_flow config) (by simp)
      | name id => exact (nameReference_composed id).flow (@repeats_flow config) (by simp)
      | await value => exact presents value fun given => by simp [turns,Turn.heres,given]
      | namedExpr target value =>
        exact .bind (presents target fun given => by simp [turns,Turn.heres,given]) fun _ =>
          presents value fun given => by simp [turns,Turn.heres,given]
      | yield value => exact yieldValue_repeats (parts _ (.tail _ (.head _)) value (.head _))
      | dict keys values =>
        exact .bind (repeats_flow.inlineEach keys (parts _ (.head _))) fun _ =>
          .bind (repeats_flow.inlineEach values (parts _ (.tail _ (.head _)))) fun _ =>
          .guarded (.fail _) (dict_repeats _)
      | dictComp key value clauses =>
        have rest := comprehension_composed clauses (fun _ _ => trivial) (dictRow_composed key value)
        rw [visit_eq_visitWith]
        exact .bind (.emit _) fun _ => .bind (dict_repeats _) fun _ =>
          rest.flow repeats_flow (parts _ (.tail _ (.tail _ (.head _))))
      | _ => first | (cases plain; done) | cases expr

theorem eq_map_of_linesOf (read : linesOf? entries = some lines) : entries = lines.map .line := by
  induction entries generalizing lines with
  | nil =>
    cases read
    rfl
  | cons entry rest ih =>
    cases entry with
    | block | void => simp [linesOf?] at read
    | line text =>
      obtain ⟨later,tail,rfl⟩ := Option.map_eq_some_iff.mp read
      simp [ih tail]

/-- An expression that can be compiled to a text adds lines only, and to the code at hand nothing.
Of the state it leaves all as it was, but for more requests and marks, and compiled once more it
gives the same text and adds the same requests and marks again. -/
theorem expression_text_stable {config : Option Config} {e : Node} {s t : State} {text : String}
    (expr : e.isExpression = true) (run : Gives (inline (visit config e)) s text t) :
    ∃ (lines helpers : List String) (generators : List (Option String)),
      Gives (nested (visit config e)) s (.block (lines.map .line)) t ∧
      text = String.intercalate " " lines ∧
      t = s.gained helpers generators ∧
      Gives (inline (visit config e)) t text (t.gained helpers generators) := by
  obtain ⟨u,lines,inner,read,rfl,rfl⟩ := gives_inline.mp run
  have given : ({ s with output := .block [] } : State).Resembles { s with output := .block [] } := .refl rfl
  obtain ⟨g,again⟩ := (visit_repeats config e expr).again _ () u given inner
  obtain ⟨-,rfl⟩ := inner.unique (again _ given)
  have written : g.entries = lines.map .line := eq_map_of_linesOf read
  have after := s.gaining_aside g
  rw [State.gaining_silent] at after
  refine ⟨lines,g.helpers,g.generators,gives_nested.mpr ⟨_,inner,?_,rfl⟩,rfl,after,?_⟩
  · rw [← written]
    rfl
  · rw [after]
    refine gives_inline.mpr ⟨_,lines,again _ ⟨rfl,rfl,rfl,[],rfl⟩,read,rfl,?_⟩
    rw [← State.gaining_silent]
    exact (State.gaining_aside (s.gained g.helpers g.generators) g).symm

/-- A call that asks for a snippet, of a value that is yielded and asks for another one. -/
def yieldedDict : Node := .call (.name (some "complex") .absent)
    [.yield (.dict [.name (some "a") .absent] [.name (some "b") .absent])] []

theorem yieldedDict_text_stable :
    let s := State.initial .empty
    let t := (inline (visit none yieldedDict) s).2
    let text := "complex(yieldGenerator('None', dict \x7b[a] = b\x7d))"
    yieldedDict.isExpression = true ∧ Gives (inline (visit none yieldedDict)) s text t ∧
      ∃ (lines helpers : List String) (generators : List (Option String)),
        Gives (nested (visit none yieldedDict)) s (.block (lines.map .line)) t ∧
        text = String.intercalate " " lines ∧ t = s.gained helpers generators ∧
        Gives (inline (visit none yieldedDict)) t text (t.gained helpers generators) := by
  have expr : yieldedDict.isExpression = true := by decide
  have run := gives_of_toOption (c := inline (visit none yieldedDict)) (s := .initial .empty)
    (a := "complex(yieldGenerator('None', dict \x7b[a] = b\x7d))") (by decide +kernel)
  exact ⟨expr,run,expression_text_stable expr run⟩

end Compile

end LuauCompiler
