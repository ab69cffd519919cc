import LuauCompiler.Proofs.Phrases

/-! Expressions are translated aside: they add lines and leave everything but the list of requested
snippets and the list of generators as it was. -/
namespace LuauCompiler

inductive Part where
  | expression
  | clause
  | keyword

/-- Expressions with their clauses and keywords: trees that hold no statement. The names in them are
given. -/
inductive Phrase : Part → Node → Prop
  | absent : Phrase .expression .absent
  | boolOp (parts : ∀ e ∈ values, Phrase .expression e) : Phrase .expression (.boolOp op values)
  | namedExpr (first : Phrase .expression target) (second : Phrase .expression value) :
    Phrase .expression (.namedExpr target value)
  | binOp (first : Phrase .expression left) (second : Phrase .expression right) :
    Phrase .expression (.binOp left op right)
  | unaryOp (part : Phrase .expression operand) : Phrase .expression (.unaryOp op operand)
  | lambda (part : Phrase .expression body) : Phrase .expression (.lambda params body)
  | ifExp (first : Phrase .expression test) (second : Phrase .expression body)
    (third : Phrase .expression orElse) : Phrase .expression (.ifExp test body orElse)
  | dict (first : ∀ e ∈ keys, Phrase .expression e) (second : ∀ e ∈ values, Phrase .expression e) :
    Phrase .expression (.dict keys values)
  | set (parts : ∀ e ∈ elts, Phrase .expression e) : Phrase .expression (.set elts)
  | listComp (part : Phrase .expression elt) (parts : ∀ c ∈ clauses, Phrase .clause c) :
    Phrase .expression (.listComp elt clauses)
  | setComp (part : Phrase .expression elt) (parts : ∀ c ∈ clauses, Phrase .clause c) :
    Phrase .expression (.setComp elt clauses)
  | generatorExp (part : Phrase .expression elt) (parts : ∀ c ∈ clauses, Phrase .clause c) :
    Phrase .expression (.generatorExp elt clauses)
  | dictComp (first : Phrase .expression key) (second : Phrase .expression value)
    (parts : ∀ c ∈ clauses, Phrase .clause c) : Phrase .expression (.dictComp key value clauses)
  | await (part : Phrase .expression value) : Phrase .expression (.await value)
  | yield (part : Phrase .expression value) : Phrase .expression (.yield value)
  | yieldFrom (part : Phrase .expression value) : Phrase .expression (.yieldFrom value)
  | compare {left : Node} {ops comparators : List Node} (first : Phrase .expression left)
    (parts : ∀ e ∈ comparators, Phrase .expression e) :
    Phrase .expression (.compare left ops comparators)
  | call (first : Phrase .expression func) (parts : ∀ e ∈ args, Phrase .expression e)
    (named : ∀ k ∈ keywords, Phrase .keyword k) : Phrase .expression (.call func args keywords)
  | formattedValue (part : Phrase .expression value) :
    Phrase .expression (.formattedValue value conversion formatSpec)
  | joinedStr (parts : ∀ e ∈ values, Phrase .expression e) : Phrase .expression (.joinedStr values)
  | constant : Phrase .expression (.constant value kind)
  | attribute (part : Phrase .expression value) : Phrase .expression (.attribute value attr access)
  | subscript {value slice access : Node} (first : Phrase .expression value)
    (second : Phrase .expression slice) : Phrase .expression (.subscript value slice access)
  | starred (part : Phrase .expression value) : Phrase .expression (.starred value access)
  | name {id : String} : Phrase .expression (.name (some id) access)
  | list (parts : ∀ e ∈ elts, Phrase .expression e) : Phrase .expression (.list elts access)
  | tuple (parts : ∀ e ∈ elts, Phrase .expression e) : Phrase .expression (.tuple elts access)
  | slice (first : Phrase .expression lower) (second : Phrase .expression upper)
    (third : Phrase .expression step) : Phrase .expression (.slice lower upper step)
  | clause (first : Phrase .expression target) (second : Phrase .expression iter)
    (parts : ∀ e ∈ filters, Phrase .expression e) :
    Phrase .clause (.clause target iter filters isAsync)
  | keyword {name : Option String} (part : Phrase .expression value) : Phrase .keyword (.keyword name value)

abbrev IsExpr (n : Node) : Prop := Phrase .expression n

namespace Compile

variable {config : Option Config}

/-- Only the output, the requested snippets and the generators may have changed, and of the last two
nothing is taken back. -/
structure Quiet (s t : State) : Prop where
  console : t.console = s.console
  frames : t.frames = s.frames
  locals : t.locals = s.locals
  globals : t.globals = s.globals
  nonlocals : t.nonlocals = s.nonlocals
  tags : t.tags = s.tags
  functions : t.functions = s.functions
  exports : t.ledger.exports = s.ledger.exports
  loops : t.ledger.loops = s.ledger.loops
  helpers : s.ledger.helpers <+: t.ledger.helpers
  generators : s.generators <+: t.generators

instance : Calm Quiet where
  refl _ := ⟨rfl,rfl,rfl,rfl,rfl,rfl,rfl,rfl,rfl,List.prefix_refl _,List.prefix_refl _⟩
  trans a b := ⟨b.console.trans a.console,b.frames.trans a.frames,b.locals.trans a.locals,
      b.globals.trans a.globals,b.nonlocals.trans a.nonlocals,b.tags.trans a.tags,
      b.functions.trans a.functions,b.exports.trans a.exports,b.loops.trans a.loops,
      a.helpers.trans b.helpers,a.generators.trans b.generators⟩
  frames a := a.frames
  aside _ _ _ := ⟨rfl,rfl,rfl,rfl,rfl,rfl,rfl,rfl,rfl,List.prefix_refl _,List.prefix_refl _⟩
  need _ _ := ⟨rfl,rfl,rfl,rfl,rfl,rfl,rfl,rfl,rfl,List.prefix_append _ _,List.prefix_refl _⟩

/-- The step adds lines and is quiet. -/
abbrev Speaks (c : Compile Unit) : Prop := Says Quiet (fun _ => True) (fun _ => True) c

theorem Speaks.text (step : Speaks c) : Tells Quiet (fun _ => True) (fun _ => True) (inline c) :=
  step.inline fun _ _ => trivial

theorem Speaks.present (step : Speaks c) : Speaks (present n c) :=
  .ite (fun _ => .nothing trivial) fun _ => step

theorem Speaks.part (step : Speaks c) :
    ∀ d ∈ part? n c, Tells Quiet (fun _ => True) (fun _ => True) (inline d) := by
  intro d given
  unfold part? at given
  split at given
  · cases given
  · cases given
    exact step.text

theorem yieldValue_speaks (step : Speaks value) : Speaks (yieldValue value) := by
  have marks (current : Option String) : Tells Quiet (fun _ => True) (fun _ => True)
      (update fun s => { s with generators := s.generators ++ [current] }) := by
    refine ⟨fun s _ t _ run => ?_⟩
    cases run
    exact ⟨⟨rfl,rfl,rfl,rfl,rfl,rfl,rfl,rfl,rfl,List.prefix_refl _,List.prefix_append _ _⟩,rfl,
      trivial⟩
  exact .after .get fun s _ => .after (marks s.current) fun _ _ => .after step.text fun _ _ => .emit trivial

theorem texts_of_visits (steps : ∀ e ∈ es, Speaks (visit config e)) :
    ∀ c ∈ visits config es, Tells Quiet (fun _ => True) (fun _ => True) (inline c) := by
  intro c member
  rw [visits_eq_map] at member
  obtain ⟨e,inside,rfl⟩ := List.mem_map.mp member
  exact (steps e inside).text

def Uttered (config : Option Config) : Part → Node → Prop
  | .expression, n => Speaks (visit config n)
  | .clause, n => (clauseOf config n).Tells Quiet (fun _ => True) (fun _ => True)
  | .keyword, n => ∀ c ∈ (keywordOf config n).value, Tells Quiet (fun _ => True) (fun _ => True) (inline c)

theorem clauses_tell (parts : ∀ c ∈ clauses, Uttered config .clause c) :
    ∀ c ∈ clausesOf config clauses, c.Tells Quiet (fun _ => True) (fun _ => True) := by
  intro c member
  rw [clausesOf_eq_map] at member
  obtain ⟨n,inside,rfl⟩ := List.mem_map.mp member
  exact parts n inside

theorem phrase_uttered (config : Option Config) (phrase : Phrase part n) :
    Uttered config part n := by
  induction phrase with
  | absent => exact .fail _
  | boolOp _ ih => exact boolOperation_writes _ (texts_of_visits ih) fun _ _ _ => trivial
  | namedExpr _ _ first second =>
    exact .append (Speaks.present first) (Speaks.present second) fun _ _ _ _ => trivial
  | binOp _ _ first second =>
    exact binaryOperation_writes _ _ _ (Speaks.text first) (Speaks.text second) fun _ _ _ _ _ _ => trivial
  | unaryOp _ ih => exact unaryOperation_writes _ (Speaks.text ih) fun _ _ _ _ => trivial
  | lambda _ ih => exact lambda_writes _ (Speaks.text ih) fun _ _ _ _ => trivial
  | ifExp _ _ _ first second third =>
    exact conditional_writes (Speaks.text first) (Speaks.text second) (Speaks.text third)
      fun _ _ _ _ _ _ => trivial
  | dict _ _ first second =>
    exact dictDisplay_writes (texts_of_visits first) (texts_of_visits second) fun _ _ _ _ => trivial
  | set _ ih | list _ ih => exact listDisplay_writes (texts_of_visits ih) fun _ _ => trivial
  | listComp _ _ elt parts =>
    exact (tableComprehension_writes (Speaks.text elt) (clauses_tell parts)
      fun _ holds => .list holds).mono fun _ _ => trivial
  | setComp _ _ elt parts =>
    exact (tableComprehension_writes (Speaks.text elt) (clauses_tell parts)
      fun _ holds => .set holds).mono fun _ _ => trivial
  | generatorExp _ _ elt parts =>
    exact (tableComprehension_writes (Speaks.text elt) (clauses_tell parts)
      fun _ holds => .generator holds).mono fun _ _ => trivial
  | dictComp _ _ _ key value parts =>
    exact (dictComprehension_writes (Speaks.text key) (Speaks.text value)
      (clauses_tell parts)).mono fun _ _ => trivial
  | await _ ih => exact Speaks.present ih
  | yield _ ih => exact yieldValue_speaks ih
  | yieldFrom _ ih => exact yieldFromValue_writes (Speaks.text ih) fun _ => trivial
  | @compare _ ops comparators _ _ first parts =>
    have steps : ∀ p ∈ comparators.zip (visits config comparators),
        Tells Quiet (fun _ => True) (fun _ => True) (inline p.2) := fun p member =>
      texts_of_visits parts p.2 (List.of_mem_zip member).2
    cases ops with
    | nil =>
      exact .after (Speaks.text first) fun _ _ => .after (.pure (P := fun _ => True) trivial)
        fun _ _ => .emit trivial
    | cons op ops =>
      exact comparison_writes (Speaks.text first) steps (fun _ _ _ _ _ _ => trivial)
        (fun _ _ _ _ => trivial) fun _ _ => trivial
  | call _ _ _ func args named =>
    refine call_writes _ _ _ (Speaks.text func) (texts_of_visits args) (fun k member => ?_) fun _ => trivial
    rw [keywordsOf_eq_map] at member
    obtain ⟨n,inside,rfl⟩ := List.mem_map.mp member
    exact named n inside
  | formattedValue _ ih => exact interpolation_writes (Speaks.text ih) fun _ _ => trivial
  | joinedStr _ ih =>
    exact interpolated_writes (fun p member => texts_of_visits ih p.2 (List.of_mem_zip member).2)
      fun _ => trivial
  | constant => exact constant_writes _ fun _ => trivial
  | «attribute» _ ih => exact memberAccess_writes _ (Speaks.text ih) fun _ _ => trivial
  | subscript _ _ first second =>
    exact subscript_writes (Speaks.text first) (Speaks.text second) fun _ _ _ _ => trivial
  | starred _ ih => exact starred_writes (Speaks.text ih) fun _ _ => trivial
  | name => exact .emit trivial
  | tuple _ ih => exact tupleDisplay_writes (texts_of_visits ih) fun _ _ => trivial
  | slice _ _ _ first second third =>
    exact slice_writes trivial (Speaks.part first) (Speaks.part second) (Speaks.part third)
      fun _ _ _ _ _ _ => trivial
  | clause _ _ _ target iter filters =>
    refine ⟨?_,?_,?_⟩ <;> intro c given <;> cases given
    · exact Speaks.text target
    · exact Speaks.text iter
    · exact texts_of_visits filters
  | keyword _ ih =>
    intro c given
    cases given
    exact Speaks.text ih

theorem expr_speaks (expr : IsExpr e) : Speaks (visit config e) := phrase_uttered config expr

end Compile

end LuauCompiler
