import LuauCompiler.Proofs.Course
import LuauCompiler.Proofs.OpenRules

/-! Rules that compile some nodes in code of their own each and do little besides. What such a rule makes of
its parts is told once, with the parts left open; the properties of the rule follow from those of the
parts. -/
namespace LuauCompiler.Compile

/-- The rule compiles the nodes one after the other in code of their own. Other nodes, of a given kind, are
compiled only if the rule fails in any case. -/
inductive Composed (Q : Node → Prop) : {α : Type} → List Node → ((Node → Compile Unit) → Compile α) → Prop
  | pure (a : α) : Composed Q [] fun _ => Pure.pure a
  | append {c : (Node → Compile Unit) → Compile α} {f : (Node → Compile Unit) → α → Compile β}
    (first : Composed Q ns c) (rest : ∀ a, Composed Q ms fun part => f part a) :
    Composed Q (ns ++ ms) fun part => c part >>= f part
  | fail (e : Failure) : Composed Q ns fun _ => (Compile.fail e : Compile α)
  | reject (worded : IsComplaint message) : Composed Q ns fun _ => (Compile.reject message : Compile α)
  | tagOf (name : String) : Composed Q [] fun _ => Compile.tagOf name
  /-- What follows does not depend on the label of the loop. -/
  | frame {f : (Node → Compile Unit) → Frame → Compile α} (rest : ∀ a, Composed Q ns fun part => f part a)
    (blind : ∀ {part} {a b : Frame}, a.unlabelled = b.unlabelled → f part a = f part b) :
    Composed Q ns fun part => Compile.frame >>= f part
  | emit (text : String) : Composed Q [] fun _ => Compile.emit text
  | void : Composed Q [] fun _ => emitEntry .void
  | complex : Composed Q [] fun _ => needs "complex"
  | inline (n : Node) : Composed Q [n] fun part => Compile.inline (part n)
  | dead {c : (Node → Compile Unit) → Compile α} (rule : Composed Q ms c) (others : ∀ m ∈ ms, Q m)
    (stops : ∀ part, Stops (c part)) : Composed Q ns c

namespace Composed

variable {α β : Type} {Q : Node → Prop} {ns ms all : List Node} {c d : (Node → Compile Unit) → Compile α}
  {f : (Node → Compile Unit) → α → Compile β}

theorem ite [Decidable p] (yes : Composed Q ns c) (no : Composed Q ns d) :
    Composed Q ns fun part => if p then c part else d part := by
  by_cases holds : p
  · simp only [holds,if_true]
    exact yes
  · simp only [holds,if_false]
    exact no

theorem idle {c : Compile α} (step : Idle c) : Composed Q [] fun _ => c := by
  induction step with
  | pure a => exact .pure a
  | bind _ _ first rest => exact .append first rest
  | fail e => exact .fail e
  | reject worded => exact .reject worded
  | tagOf name => exact .tagOf name

theorem bind (first : Composed Q ns c) (rest : ∀ a, Composed Q ms fun part => f part a)
    (same : ns ++ ms = all) : Composed Q all fun part => c part >>= f part :=
  same ▸ first.append rest

theorem quiet (first : Composed Q ns c) (rest : ∀ a, Composed Q [] fun part => f part a) :
    Composed Q ns fun part => c part >>= f part :=
  first.bind rest (List.append_nil ns)

theorem after (first : Composed Q [] c) (rest : ∀ a, Composed Q ms fun part => f part a) :
    Composed Q ms fun part => c part >>= f part :=
  first.append rest

theorem ofExcept (e : Except Failure α) (rest : ∀ a, Composed Q ms fun part => f part a) :
    Composed Q ms fun part => Compile.ofExcept e >>= f part :=
  after (.idle (.ofExcept e)) rest

theorem guarded [Decidable p] {d : (Node → Compile Unit) → Compile β} (first : Composed Q [] c)
    (rest : Composed Q ns d) :
    Composed Q ns fun part => if p then (c part >>= fun _ => d part) else d part :=
  .ite (.after first fun _ => rest) rest

theorem line (n : Node) (write : String → String) :
    Composed Q [n] fun part => (do Compile.emit (write (← Compile.inline (part n)))) :=
  quiet (.inline n) fun _ => .emit _

theorem inlineEach (ns : List Node) : Composed Q ns fun part => Compile.inlineEach (ns.map part) := by
  induction ns with
  | nil => exact .pure _
  | cons n rest ih => exact bind (.inline n) (fun _ => quiet ih fun _ => .pure _) rfl

theorem row (ns : List Node) (write : List String → String) :
    Composed Q ns fun part => (do Compile.emit (write (← Compile.inlineEach (ns.map part)))) :=
  quiet (inlineEach ns) fun _ => .emit _

theorem each {step : ι → Compile Unit} (steps : ∀ i, Composed Q [] fun _ => step i) (is : List ι) :
    Composed Q [] fun _ => Compile.each (is.map step) := by
  induction is with
  | nil => exact .pure _
  | cons i rest ih => exact after (steps i) fun _ => ih

end Composed

/-! ## Operators, places and literals -/

theorem binaryOperation_composed (left op right : Node) : Composed Q [left,right] fun part =>
    binaryOperation left op right (part left) (part right) := by
  refine .after (.idle (binaryOperator_idle _)) fun op => .bind (.inline left) (fun l =>
    .quiet (.inline right) fun r => ?_) rfl
  cases op with
  | mult => exact .after (.idle (product_idle ..)) fun _ => .emit _
  | add => exact .after (.idle (sum_idle ..)) fun _ => .emit _
  | _ => exact .after (.idle (plainBinary_idle ..)) fun _ => .emit _

theorem unaryOperation_composed (op operand : Node) :
    Composed Q [operand] fun part => unaryOperation op (part operand) := by
  unfold unaryOperation
  cases op.unaryOp? with
  | some op => exact .line operand _
  | none => exact .fail _

theorem boolOperation_composed (op : Node) (values : List Node) :
    Composed Q values fun part => boolOperation op (values.map part) := by
  refine .quiet (.inlineEach values) fun texts => ?_
  cases op.boolOp? with
  | some op => exact .emit _
  | none => exact .fail _

theorem chain_composed (left : String) (ops comparators : List Node) :
    Composed Q (comparators.take ops.length) fun part =>
      chain left ops (comparators.zip (comparators.map part)) := by
  induction ops generalizing left comparators with
  | nil => exact .pure _
  | cons op ops ih =>
    cases comparators with
    | nil => exact .fail _
    | cons n rest =>
      refine .bind (.inline n) (fun right => .after (.idle (link_idle ..)) fun first => ?_) rfl
      cases ops with
      | nil => exact .pure _
      | cons => exact .quiet (ih right rest) fun _ => .pure _

theorem comparison_composed (left : Node) (ops comparators : List Node) :
    Composed Q (left :: comparators.take ops.length) fun part =>
      comparison (part left) ops (comparators.zip (comparators.map part)) :=
  .bind (.inline left) (fun _ => .quiet (chain_composed ..) fun _ => .emit _) rfl

theorem conditional_composed (test body orElse : Node) : Composed Q [test,body,orElse] fun part =>
    conditional (part test) (part body) (part orElse) :=
  .bind (.inline test) (fun _ => .bind (.inline body) (fun _ => .line orElse _) rfl) rfl

theorem nameReference_composed (name : Option String) : Composed Q [] fun _ => nameReference name := by
  cases name with
  | none => exact .void
  | some name => exact .emit _

theorem subscript_composed (value slice : Node) :
    Composed Q [slice,value] fun part => subscript (part value) (part slice) :=
  .bind (.inline slice) (fun _ => .quiet (.inline value) fun _ =>
    .guarded (.reject (.subscripted _)) (.emit _)) rfl

theorem bound_composed (n : Node) :
    Composed Q ([n].filter (!·.isAbsent)) fun part => bound (part? n (part n)) := by
  unfold part?
  cases absent : n.isAbsent with
  | true => simpa [absent,bound] using Composed.pure "0"
  | false => simpa [absent,bound] using Composed.inline n

theorem slice_composed (lower upper step : Node) :
    Composed Q ([lower,upper,step].filter (!·.isAbsent)) fun part =>
      slice (part? lower (part lower)) (part? upper (part upper)) (part? step (part step)) := by
  refine .bind (bound_composed lower) (fun _ => .bind (bound_composed upper) (fun _ =>
    .quiet (bound_composed step) fun _ => .emit _) rfl) ?_
  simp only [← List.filter_append]
  rfl

theorem constant_composed (c : Constant) : Composed Q [] fun _ => constant c := by
  cases c with
  | str text =>
    exact .frame (fun _ => .ite (.emit _) (.emit _)) fun same => by rw [Frame.docstring_of_unlabelled same]
  | none | bool | ellipsis => exact .emit _
  | bytes | int | float | complex => exact .ofExcept _ fun _ => .emit _

theorem interpolated_composed (values : List Node) : Composed Q (values.filter Node.isComputed) fun part =>
    interpolated (values.zip (values.map part)) := by
  refine .quiet ?_ fun texts => .ite (.emit _) (.fail _)
  induction values with
  | nil => exact .pure _
  | cons n rest ih =>
    cases kind : n.constant? with
    | none =>
      have computed : n.isComputed = true := by simp [Node.isComputed,kind]
      simp only [List.filter_cons,computed,if_true,List.map_cons,List.zip_cons_cons,kind]
      exact .bind (.quiet (.inline n) fun _ => .pure _) (fun _ => .quiet ih fun _ => .pure _) rfl
    | some c =>
      have computed : n.isComputed = false := by simp [Node.isComputed,kind]
      simp only [List.filter_cons,computed,List.map_cons,List.zip_cons_cons,kind]
      cases c <;> exact .after (.pure _) fun _ => .quiet ih fun _ => .pure _

/-! ## Comprehensions -/

theorem clausesDepth_with (part part' : Node → Compile Unit) (ns : List Node) :
    clausesDepth (ns.map (clauseWith part)) = clausesDepth (ns.map (clauseWith part')) := by
  induction ns with
  | nil => rfl
  | cons n rest ih =>
    simp only [List.map_cons,clausesDepth,ih]
    cases n <;> simp [clauseWith,clauseDepth]

theorem openFilters_composed (filters : List Node) :
    Composed Q filters fun part => each ((filters.map part).map openFilter) := by
  induction filters with
  | nil => exact .pure _
  | cons n rest ih => exact .bind (.line n _) (fun _ => ih) rfl

theorem openClause_composed (n : Node) (low : ∀ k, sizeOf k < sizeOf n → Q k) :
    Composed Q n.clauseNodes fun part => openClause (clauseWith part n) := by
  have opened (target iter : Node) {ns : List Node} {c : (Node → Compile Unit) → Compile Unit}
      (rest : Composed Q ns c) : Composed Q (target :: iter :: ns) fun part => (do
        let target ← inline (part target)
        let iter ← inline (part iter)
        emit ("for " ++ target ++ " in " ++ iter ++ " do")
        c part) :=
    .bind (.inline target) (fun _ => .bind (.inline iter) (fun _ => .after (.emit _) fun _ => rest) rfl) rfl
  cases n with
  | clause target iter filters => exact opened target iter (openFilters_composed filters)
  | forStmt _ target iter =>
    -- there is a loop to open but no list of branches
    have rule : Composed Q [target,iter] fun part => openClause ⟨some (part target),some (part iter),none⟩ :=
      opened target iter (.fail .missingPart)
    refine .dead rule ?_ fun _ => .later fun _ => .later fun _ => .later fun _ => .later fun _ => .later fun _ =>
      .first (.fail _)
    simpa using ⟨low target (by decreasing_tactic),low iter (by decreasing_tactic)⟩
  | augAssign target | annAssign target | namedExpr target =>
    have rule : Composed Q [target] fun part =>
        (do let _ ← inline (part target); fail .missingPart : Compile Unit) :=
      .quiet (.inline target) fun _ => .fail _
    refine .dead rule ?_ fun _ => .later fun _ => .later fun _ => .first (.fail _)
    simpa using low target (by decreasing_tactic)
  | _ => exact .fail .missingPart

theorem comprehension_composed (clauses : List Node) (low : ∀ k : Node, sizeOf k < sizeOf clauses → Q k)
    {store : (Node → Compile Unit) → Compile String} (last : Composed Q ns store) :
    Composed Q (clauses.flatMap Node.clauseNodes ++ ns) fun part => (do
      each ((clauses.map (clauseWith part)).map openClause)
      emit (← store part)
      emit (ends (clausesDepth (clauses.map (clauseWith part))))
      emit "return result"
      emit "end)()") := by
  simp only [fun part => clausesDepth_with part fun _ => pure ()]
  refine .append ?_ fun _ => .quiet last fun _ => .after (.emit _) fun _ => .after (.emit _) fun _ =>
    .after (.emit _) fun _ => .emit _
  induction clauses with
  | nil => exact .pure _
  | cons n rest ih =>
    exact .bind (openClause_composed n fun k inside => low k (Nat.lt_trans inside (by decreasing_tactic)))
      (fun _ => ih fun k inside => low k (Nat.lt_trans inside (by decreasing_tactic))) rfl

theorem dictRow_composed (key value : Node) : Composed Q [key,value] fun part => (do
    let key ← inline (part key)
    let value ← inline (part value)
    return "result[" ++ key ++ "] = " ++ value) :=
  .bind (.inline key) (fun _ => .quiet (.inline value) fun _ => .pure _) rfl

/-! ## Calls and imports -/

theorem namedTexts_composed (keywords : List Node) : Composed Q (keywords.flatMap Node.valueNodes) fun part =>
    namedTexts (keywords.map (keywordWith part)) := by
  induction keywords with
  | nil => exact .pure _
  | cons n rest ih =>
    have value : n.valueNodes = (valueNode? n).toList := by
      unfold Node.valueNodes valueNode?
      rcases n.value? with _ | (_ | _) <;> rfl
    rw [List.flatMap_cons,value]
    simp only [List.map_cons,keywordWith]
    cases valueNode? n with
    | none => exact .fail _
    | some value =>
      refine .bind (.inline value) (fun text => ?_) rfl
      cases keywordLabel n with
      | missing => exact .fail _
      | name name => exact .quiet ih fun _ => .pure _

theorem call_composed (receiver : Option String) (func : Node) (args keywords : List Node) :
    Composed Q (Node.callNodes func args keywords) fun part =>
      call receiver func args (part func) (args.map part) (keywords.map (keywordWith part)) := by
  refine .bind (.inline func) (fun name => .guarded .complex ?_) rfl
  refine .bind (.inlineEach args) (fun texts => ?_) rfl
  unfold Node.sortNodes
  cases listMethod? func with
  | none => exact .emit _
  | some found =>
    obtain ⟨m,object⟩ := found
    cases m with
    | sort =>
      refine .quiet (namedTexts_composed keywords) fun texts => ?_
      split
      · exact .guarded (.reject .sorting) (.ofExcept _ fun _ => .emit _)
      · exact .reject .sorting
    | _ => exact .ofExcept _ fun _ => .emit _

theorem importModule_composed (n : Node) : Composed Q [] fun _ => importModule n := by
  unfold importModule
  split
  · refine .guarded (.fail _) ?_
    split <;> exact .emit _
  · exact .fail _

theorem importMember_composed (module : String) (n : Node) : Composed Q [] fun _ => importMember module n := by
  unfold importMember
  split
  · exact .ite (.ite (.pure _) (.reject .wildcard)) (.emit _)
  · exact .fail _

/-! ## Parts of statements -/

theorem augmentedAssign_composed (target op value : Node) :
    Composed Q [target,value] fun part => augmentedAssign (part target) op (part value) :=
  .after (.idle (binaryOperator_idle _)) fun _ => .bind (.inline target) (fun _ =>
    .quiet (.inline value) fun _ => .after (.idle (plainBinary_idle ..)) fun _ => .emit _) rfl

theorem withItemLine_composed (n : Node) :
    Composed Q n.itemNodes fun part => withItemLine (itemWith part n) := by
  cases n with
  | withItem context vars =>
    simp only [itemWith,withItemLine,part?,Node.itemNodes,List.filter_cons]
    cases vars.isAbsent with
    | true => exact .after (.pure _) fun _ => .quiet (.inline context) fun _ => .pure _
    | false =>
      exact .bind (.inline vars) (fun _ => .after (.pure _) fun _ =>
        .quiet (.inline context) fun _ => .pure _) rfl
  | _ => exact .fail _

theorem withItemLines_composed (items : List Node) : Composed Q (items.flatMap Node.itemNodes) fun part =>
    all ((items.map (itemWith part)).map withItemLine) := by
  induction items with
  | nil => exact .pure _
  | cons n rest ih =>
    exact .bind (withItemLine_composed n) (fun _ => .quiet ih fun _ => .pure _) rfl

theorem connectDecorators_composed (name : String) (decorators : List Node) :
    Composed Q decorators fun part => connectDecorators name (decorators.map part) := by
  induction decorators with
  | nil => exact .pure _
  | cons decorator rest ih =>
    exact .bind (.inline decorator) (fun _ => .guarded (.emit _) ih) rfl

/-! ## Rules with blocks -/

/-- The rule takes the turns one after the other, with statements under the class at hand or another one. -/
inductive Ruled (Q : Node → Prop) :
  {α : Type} → Option String → List Turn → ((Node → Compile Unit) → Compile α) → Prop
  | quiet {c : (Node → Compile Unit) → Compile α} (rule : Composed Q [] c) : Ruled Q k [] c
  | apart {c : (Node → Compile Unit) → Compile α} (rule : Composed Q ns c) : Ruled Q k [.apart ns] c
  | append {c : (Node → Compile Unit) → Compile α} {f : (Node → Compile Unit) → α → Compile β}
    (first : Ruled Q k ts c) (rest : ∀ a, Ruled Q k us fun part => f part a) :
    Ruled Q k (ts ++ us) fun part => c part >>= f part
  | dead {c : (Node → Compile Unit) → Compile α} (rule : Composed Q [] c) (stops : ∀ part, Stops (c part)) :
    Ruled Q k ts c
  /-- What follows does not depend on the ledger and the labels. -/
  | ask {f : (Node → Compile Unit) → State → Compile α} (rest : ∀ s, Ruled Q k ts fun part => f part s)
    (blind : ∀ {part} {s t : State}, s.Alike t → f part s = f part t) : Ruled Q k ts fun part => get >>= f part
  | step {c : Compile α} (built : Built c) (taken : Takes none [] c) : Ruled Q k [] fun _ => c
  | asks (known : helper ∈ requestedHelpers) (other : helper ≠ "complex") :
    Ruled Q k [.asks helper] fun _ => needs helper
  | here (n : Node) : Ruled Q none [.here n] fun part => part n
  | block (ns : List Node) : Ruled Q none [.block ns] fun part => Compile.block (ns.map part)
  | inClass {c : (Node → Compile Unit) → Compile α} (className : String) (step : Ruled Q none ts c) :
    Ruled Q (some className) ts fun part => within (fun f => { f with className }) (c part)
  | loop {c : (Node → Compile Unit) → Compile α} (step : Ruled Q k ts c) : Ruled Q k ts fun part =>
    nextLoop >>= fun label => within (fun f => { f with loopLabel := label }) (c part)

namespace Ruled

variable {α β : Type} {Q : Node → Prop} {k : Option String} {ts us all : List Turn}
  {c d : (Node → Compile Unit) → Compile α}
  {f : (Node → Compile Unit) → α → Compile β}

theorem ite [Decidable p] (yes : Ruled Q k ts c) (no : Ruled Q k ts d) :
    Ruled Q k ts fun part => if p then c part else d part := by
  by_cases holds : p
  · simp only [holds,if_true]
    exact yes
  · simp only [holds,if_false]
    exact no

theorem fail (e : Failure) : Ruled Q k ts fun _ => (Compile.fail e : Compile α) :=
  .dead (.fail e) fun _ => .fail e

theorem bind (first : Ruled Q k ts c) (rest : ∀ a, Ruled Q k us fun part => f part a) (same : ts ++ us = all) :
    Ruled Q k all fun part => c part >>= f part :=
  same ▸ first.append rest

theorem after (first : Ruled Q k [] c) (rest : ∀ a, Ruled Q k us fun part => f part a) :
    Ruled Q k us fun part => c part >>= f part :=
  first.append rest

theorem emit {f : (Node → Compile Unit) → Unit → Compile β} (rest : Ruled Q k us fun part => f part ()) :
    Ruled Q k us fun part => Compile.emit text >>= f part :=
  .after (.quiet (.emit text)) fun _ => rest

theorem ends (first : Ruled Q k ts c) {text : String} :
    Ruled Q k ts fun part => c part >>= fun _ => Compile.emit text :=
  .bind first (fun _ => .quiet (.emit text)) (List.append_nil ts)

theorem ofExcept (e : Except Failure α) (rest : ∀ a, Ruled Q k us fun part => f part a) :
    Ruled Q k us fun part => Compile.ofExcept e >>= f part :=
  .after (.quiet (.idle (.ofExcept e))) rest

theorem frame {f : (Node → Compile Unit) → Frame → Compile α} (rest : ∀ a, Ruled Q k ts fun part => f part a)
    (blind : ∀ {part} {a b : Frame}, a.className = b.className → f part a = f part b) :
    Ruled Q k ts fun part => Compile.frame >>= f part :=
  .ask (fun s => rest s.frames.top) fun alike => blind (Frame.className_of_unlabelled alike.top)

end Ruled

theorem dictDisplay_ruled (keys values : List Node) :
    Ruled Q none [.apart keys,.apart values,.asks "dict",.asks "dict"] fun part =>
      dictDisplay (keys.map part) (values.map part) := by
  have listed (entries : List String) : Ruled Q none [.asks "dict",.asks "dict"] fun _ => (do
      needs "dict"
      emit ("dict " ++ bracedList entries)
      needs "dict") :=
    .bind (.asks (by decide) (by decide)) (fun _ => .emit (.asks (by decide) (by decide))) rfl
  exact .bind (.apart (.inlineEach keys)) (fun _ => .bind (.apart (.inlineEach values)) (fun _ =>
    .ite (.after (.fail _) fun _ => listed _) (listed _)) rfl) rfl

theorem startDict_ruled : Ruled Q none [.asks "dict",.asks "dict"] fun _ => startDict :=
  .bind (.asks (by decide) (by decide)) (fun _ => .emit (.asks (by decide) (by decide))) rfl

theorem moduleBody_ruled (body : List Node) :
    Ruled Q none [.block body] fun part => moduleBody (body.map part) := by
  refine .bind (.block body) (fun _ => .ask (fun s => ?_) fun alike => by rw [alike.output]) rfl
  split
  · exact .step (.put fun w => { w with output := _ }) (.update fun _ => rfl)
  · exact .fail _

theorem withoutEnds_ruled (n : Node) : Ruled Q none [.here n] fun part => withoutEnds (part n) := by
  refine .ask (fun s => .bind (.here n) (fun _ => .ask (fun t => ?_) fun alike => by rw [alike.output]) rfl)
    fun alike => by rw [alike.output]
  split
  · exact .step (.put fun w => { w with output := _ }) (.update fun _ => rfl)
  · exact .fail _

theorem branch_ruled (test : Node) (body orElse : List Node) :
    Ruled Q none ([.apart [test],.block body] ++ otherwiseTurns orElse) fun part =>
      branch (part test) (body.map part) (otherwiseWith part orElse) := by
  refine .bind (.apart (.inline test)) (fun _ => .emit (.bind (.block body) (fun _ => ?_) rfl)) rfl
  cases orElse with
  | nil => exact .quiet (.emit _)
  | cons n rest =>
    cases n with
    | ifStmt test body orElse =>
      exact .bind (.apart (.inline test)) (fun _ => .emit (.ends (withoutEnds_ruled _))) rfl
    | _ => exact .emit (.ends (.block _))

theorem loopBody_ruled (body : List Node) : Ruled Q none [.block body] fun part => loopBody (body.map part) :=
  .loop (.block body)

theorem whileLoop_ruled (test : Node) (body : List Node) : Ruled Q none [.apart [test],.block body] fun part =>
    whileLoop (part test) (body.map part) :=
  .bind (.apart (.inline test)) (fun _ => .emit (.ends (loopBody_ruled body))) rfl

theorem forLoop_ruled (target iter : Node) (body : List Node) :
    Ruled Q none [.apart [target],.apart [iter],.block body] fun part =>
      forLoop iter (part target) (part iter) (body.map part) :=
  .bind (.apart (.inline target)) (fun _ => .bind (.apart (.inline iter)) (fun _ => .ask (fun _ => .ite
    (.ofExcept _ fun _ => .emit (.ends (loopBody_ruled body)))
    (.after (.quiet (.idle (iteratesText_idle _ _))) fun _ => .emit (.ends (loopBody_ruled body))))
    fun alike => by rw [alike.generators]) rfl) rfl

theorem prepends_ruled (lines : List String) : Ruled Q none [] fun _ => each (lines.map prepend) := by
  induction lines with
  | nil => exact .quiet (.pure _)
  | cons line rest ih => exact .after (.step (editLast_built _) (editLast_takes _)) fun _ => ih

theorem withStatement_ruled (first last : String) (items body : List Node) :
    Ruled Q none [.block body,.apart (items.flatMap Node.itemNodes)] fun part =>
      withStatement first last (items.map (itemWith part)) (body.map part) :=
  .emit (.bind (.block body) (fun _ => .bind (.apart (withItemLines_composed items)) (fun lines =>
    .ends (prepends_ruled lines)) rfl) rfl)

theorem handlerBody_ruled (isFirst : Bool) (n : Node) :
    Ruled Q none (handlerTurns n) fun part => handlerBody isFirst (handlerWith part n) := by
  cases n with
  | handler type name body =>
    have named : Composed Q [] fun _ => handlerBranch isFirst (shownName type.id?) name := by
      refine .after (.emit _) fun _ => ?_
      cases name with
      | some name => exact .emit _
      | none => exact .pure _
    simp only [handlerWith,handlerBody]
    exact .ite (.after (.quiet named) fun _ => .block body) (.block body)
  | _ => exact .fail _

theorem handlers_ruled (chained : Bool) (position : Nat) (hs : List Node) :
    Ruled Q none (hs.flatMap handlerTurns) fun part => handlers chained position (hs.map (handlerWith part)) := by
  induction hs generalizing position with
  | nil => exact .quiet (.pure _)
  | cons n rest ih =>
    simp only [List.map_cons,handlers,List.isEmpty_map]
    exact .emit (.bind (handlerBody_ruled _ n) (fun _ => .ite (.emit (ih _)) (ih _)) rfl)

theorem tryStatement_ruled (body hs finalBody : List Node) :
    Ruled Q none ([.block body] ++ hs.flatMap handlerTurns ++ [.block finalBody]) fun part =>
      tryStatement (body.map part) (hs.map (handlerWith part)) (finalBody.map part) := by
  have chained (part : Node → Compile Unit) : (hs.map (handlerWith part)).head?.any isNamed =
        hs.head?.any fun n => isNamed (handlerWith (fun _ => pure ()) n) := by
    rw [List.head?_map,Option.any_map]
    congr
    funext n
    cases n <;> rfl
  simp only [tryStatement,chained]
  exact .emit (.emit (.bind (.block body) (fun _ => .emit (.bind (handlers_ruled _ _ hs) (fun _ =>
    .emit (.ends (.block finalBody))) rfl)) (List.append_assoc ..).symm))

theorem matchCase_ruled (subject n : Node) (isFirst : Bool) (low : Q subject) :
    Ruled Q none (caseTurns subject n) fun part => matchCase (part subject) isFirst (caseWith part n) := by
  have tested (pattern : Node) {ts : List Turn} {run : (Node → Compile Unit) → Option (List (Compile Unit))}
      (rest : ∀ c kind, pattern.value? = some (.node (.constant c kind)) →
        Ruled Q none ts fun part => matchCase (part subject) isFirst (some ⟨pattern,run part⟩)) :
      Ruled Q none ts fun part => matchCase (part subject) isFirst (some ⟨pattern,run part⟩) := by
    cases found : pattern.value? with
    | some value =>
      cases value with
      | node m =>
        cases m with
        | constant c kind => exact rest c kind found
        | _ => simpa only [matchCase,found] using .fail _
      | _ => simpa only [matchCase,found] using .fail _
    | none =>
      simp only [matchCase,found]
      exact .dead (.reject .pattern) fun _ => ⟨fun _ _ _ => gives_reject⟩
  cases n with
  | matchCase pattern _ body =>
    refine tested pattern fun c _ found => ?_
    simp only [matchCase,found]
    exact .bind (.apart (.inline subject)) (fun _ => .ofExcept _ fun _ => .emit (.block body)) rfl
  | matchAs pattern | patternOf pattern | patternKeyword pattern =>
    refine tested pattern fun c _ found => ?_
    simp only [matchCase,found]
    -- such a case has no body, so what follows the test is refused
    refine .dead (.dead (.quiet (.inline subject) fun _ => .ofExcept _ fun _ =>
      .after (.emit _) fun _ => .fail _) (by simpa using low) ?_) ?_ <;>
      exact fun _ => .later fun _ => .later fun _ => .later fun _ => .fail _
  | _ => exact .fail _

theorem matchCases_ruled (subject : Node) (isFirst : Bool) (cases : List Node) (low : Q subject) :
    Ruled Q none (cases.flatMap (caseTurns subject)) fun part =>
      matchCases (part subject) isFirst (cases.map (caseWith part)) := by
  induction cases generalizing isFirst with
  | nil => exact .quiet (.pure _)
  | cons n rest ih => exact .bind (matchCase_ruled subject n isFirst low) (fun _ => ih false) rfl

theorem classDefinition_ruled (config : Option Config) (name : Option String) (bases body : List Node) :
    Ruled Q (some (name.getD "")) [.apart bases,.asks "class",.block body] fun part =>
      classDefinition config name (bases.map part) (body.map part) := by
  have closing (isOuter : Bool) (fullName : String) : Ruled Q (some (name.getD "")) [] fun _ => (do
      if (← ofExcept (Config.returnsClass config)) && isOuter then emit ("return " ++ fullName)) :=
    .ofExcept _ fun _ => .ite (.quiet (.emit _)) (.quiet (.pure _))
  refine .bind (.apart (.inlineEach bases)) (fun texts => .frame (fun f => .ite
    (.after (.step (introduce_built _) (introduce_takes _)) fun _ => ?_) (.after (.quiet (.pure _)) fun _ => ?_))
    fun same => by rw [same]) rfl
  all_goals
    exact .ofExcept _ fun _ => .emit (.bind (.asks (by decide) (by decide)) (fun _ =>
      .bind (.inClass _ (.block body)) (fun _ => .after (.step (editLast_built _) (editLast_takes _)) fun _ =>
        .emit (closing _ _)) rfl) rfl)

theorem heres_append (ns ms : List Node) : Turn.heres (ns ++ ms) = Turn.heres ns ++ Turn.heres ms := by
  simp [Turn.heres]

theorem presents_ruled (same : Turn.heres ns = ts) : Ruled Q none ts fun part => presents part ns := by
  subst same
  induction ns with
  | nil => exact .quiet (.pure _)
  | cons n rest ih =>
    have first : Ruled Q none (Turn.heres [n]) fun part => present n (part n) := by
      unfold present
      cases absent : n.isAbsent with
      | true => simpa [Turn.heres,absent] using Ruled.quiet (.pure ())
      | false => simpa [Turn.heres,absent] using Ruled.here n
    exact .bind first (fun _ => ih) (heres_append [n] rest).symm

/-! ## Nodes -/

theorem declareGlobals_cons (name : String) (rest : List String) :
    declareGlobals (name :: rest) = declareGlobals [name] >>= fun _ => declareGlobals rest := by
  funext s
  simp only [declareGlobals,Bind.bind,get]
  cases s.globals.add? name <;> rfl

theorem declareGlobals_built (names : List String) : Built (declareGlobals names) := by
  induction names with
  | nil => exact .pure _
  | cons name rest ih =>
    rw [declareGlobals_cons]
    exact .bind (.publish name) fun _ => ih

theorem declareNonlocals_built (names : List String) : Built (declareNonlocals names) := by
  induction names with
  | nil => exact .pure _
  | cons name rest ih =>
    refine .ask (fun s => ?_) fun alike => by rw [alike.nonlocals]
    split
    · exact .fail _
    · split
      · exact .fail _
      · exact .bind (.put fun w => { w with nonlocals := some _ }) fun _ => ih

/-- The rule of the node takes its turns whatever its parts are. -/
def isRegular : Node → Bool
  | .functionDef isAsync .. => isAsync
  | .exprStmt _ | .returnStmt _ | .assign .. | .annAssign .. | .typeAlias .. | .yield _ => false
  | _ => true

/-- The node is compiled by compiling its parts in code of their own. -/
def isPlain : Node → Bool
  | .delete .. | .augAssign .. | .raise .. | .assert .. | .boolOp .. | .binOp .. | .unaryOp .. | .lambda ..
  | .ifExp .. | .set .. | .list .. | .tuple .. | .listComp .. | .setComp .. | .generatorExp ..
  | .yieldFrom .. | .compare .. | .call .. | .formattedValue ..
  | .joinedStr .. | .attribute .. | .subscript .. | .starred .. | .slice .. | .index .. | .matchValue ..
  | .matchAs .. | .patternOf .. | .patternKeyword .. => true
  | _ => false

theorem visitWith_composed (config : Option Config) {n : Node} (plain : isPlain n = true)
    (low : ∀ k : Node, sizeOf k < sizeOf n → Q k) :
    ∃ ns, turns config n = [.apart ns] ∧ Composed Q ns fun part => visitWith part config n := by
  cases n with
  | listComp elt clauses | setComp elt clauses | generatorExp elt clauses =>
    exact ⟨_,rfl,.after (.emit _) fun _ => .after (.emit _) fun _ =>
      comprehension_composed clauses (fun k inside => low k (Nat.lt_trans inside (by decreasing_tactic)))
        (.quiet (.inline elt) fun _ => .pure _)⟩
  | augAssign target op value => exact ⟨_,rfl,augmentedAssign_composed target op value⟩
  | boolOp op values => exact ⟨_,rfl,boolOperation_composed op values⟩
  | binOp left op right => exact ⟨_,rfl,binaryOperation_composed left op right⟩
  | unaryOp op operand => exact ⟨_,rfl,unaryOperation_composed op operand⟩
  | lambda _ body => exact ⟨_,rfl,.ofExcept _ fun _ => .line body _⟩
  | ifExp test body orElse => exact ⟨_,rfl,conditional_composed test body orElse⟩
  | compare left ops comparators => exact ⟨_,rfl,comparison_composed left ops comparators⟩
  | call func args keywords => exact ⟨_,rfl,call_composed none func args keywords⟩
  | joinedStr values => exact ⟨_,rfl,interpolated_composed values⟩
  | subscript value slice => exact ⟨_,rfl,subscript_composed value slice⟩
  | slice lower upper step => exact ⟨_,rfl,slice_composed lower upper step⟩
  | delete | set | list | tuple => exact ⟨_,rfl,.row ..⟩
  | raise | assert | yieldFrom | formattedValue | «attribute» | starred | index => exact ⟨_,rfl,.line ..⟩
  | matchValue | matchAs | patternOf | patternKeyword => exact ⟨_,rfl,.quiet (.inline _) fun _ => .pure _⟩
  | _ => cases plain

/-- The class that the bodies of the node are under, if it is not the class at hand. -/
def bodyClass : Node → Option String
  | .functionDef false .. => some ""
  | .classDef name .. => some (name.getD "")
  | _ => none

theorem visitWith_ruled (config : Option Config) {n : Node} (regular : isRegular n = true)
    (low : ∀ k : Node, sizeOf k < sizeOf n → Q k) :
    Ruled Q (bodyClass n) (turns config n) fun part => visitWith part config n := by
  cases plain : isPlain n with
  | true =>
    obtain ⟨_,same,rule⟩ := visitWith_composed config plain low
    rw [same]
    exact .apart rule
  | false =>
    cases n with
    | module body => exact moduleBody_ruled body
    | interactive => exact presents_ruled rfl
    | expression | await | param | keyword | namedExpr | withItem | clause | handler | params | matchCase =>
      exact presents_ruled (by simp [turns,← heres_append])
    | functionDef isAsync =>
      obtain rfl : isAsync = true := regular
      exact presents_ruled (by simp [turns,← heres_append])
    | forStmt isAsync target iter body =>
      cases isAsync with
      | true => exact presents_ruled (by simp [turns,← heres_append])
      | false => exact forLoop_ruled target iter body
    | tryStmt isStar body handlers _ finalBody =>
      cases isStar with
      | true => exact presents_ruled (by simp [turns,← heres_append])
      | false => exact tryStatement_ruled body handlers finalBody
    | matchStmt subject cases => exact .ends (matchCases_ruled subject true cases (low _ (by decreasing_tactic)))
    | dictComp key value clauses =>
      exact .emit (.bind startDict_ruled (fun _ => .apart (comprehension_composed clauses
        (fun k inside => low k (Nat.lt_trans inside (by decreasing_tactic))) (dictRow_composed key value))) rfl)
    | classDef name bases _ body => exact classDefinition_ruled config name bases body
    | whileStmt test body => exact whileLoop_ruled test body
    | ifStmt test body orElse => exact branch_ruled test body orElse
    | withStmt isAsync items body => cases isAsync <;> exact withStatement_ruled _ _ items body
    | importStmt names => exact .quiet (.each importModule_composed names)
    | importFrom _ names => exact .quiet (.each (importMember_composed _) names)
    | global names => exact .step (declareGlobals_built names) (declareGlobals_takes names)
    | nonlocal names => exact .step (declareNonlocals_built names) (silent_takes (declareNonlocals_silent names))
    | dict keys values => exact dictDisplay_ruled keys values
    | constant value => exact .quiet (constant_composed value)
    | name id => exact .quiet (nameReference_composed id)
    | caseBody body => exact .block body
    | breakStmt | continueStmt => exact .quiet (.emit _)
    | pass | «alias» | mark => exact .quiet (.pure _)
    | absent | matchSingleton | matchSequence | matchMapping | matchClass | matchStar | matchOr =>
      exact .fail _
    | _ => first | (cases regular; done) | cases plain

end LuauCompiler.Compile
