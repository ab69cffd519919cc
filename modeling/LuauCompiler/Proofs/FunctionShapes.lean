import LuauCompiler.Proofs.BranchChains
import LuauCompiler.Proofs.DefinitionOrder
import LuauCompiler.Proofs.ReservedNames

/-! The code of a function. Default values and a rest parameter become lines in front of the body, and
these are put there when the body has been written: they go into the entry that was written last. That
is the body of a plain function. Behind the body of a generator stands its end line, which takes
nothing in front. -/
namespace LuauCompiler

namespace Compile

variable {config : Option Config} {s t : State} {before : List Code} {name : String} {code : Code}
  {params : Node} {head : Signature} {body : List Node} {defaults decorators : List (Compile Unit)}

theorem functionCode_block (stmts : AreStatements body)
    (run : Gives (functionCode config body) s code t) : ∃ inner, code = .block inner := by
  obtain ⟨u,row,rfl,-⟩ := codeWithin_run run
  exact row_output stmts isOpen_nil rfl row

theorem leadLines_reverse (enough : values.length ≤ given.length) (rest : Option String) :
    leadLines given values.reverse rest =
      List.zipWith defaultLine (given.drop (given.length - values.length)) values ++ rest.toList := by
  obtain ⟨front,last,rfl,same⟩ : ∃ front last, given = front ++ last ∧ last.length = values.length :=
    ⟨given.take (given.length - values.length),given.drop (given.length - values.length),
      (List.take_append_drop ..).symm,by rw [List.length_drop]; omega⟩
  have paired : (List.zipWith defaultLine (front ++ last).reverse values.reverse).reverse =
      List.zipWith defaultLine last values := calc
    _ = (List.zipWith defaultLine (last.reverse ++ front.reverse) (values.reverse ++ [])).reverse := by
      rw [List.reverse_append,List.append_nil]
    _ = (List.zipWith defaultLine last.reverse values.reverse).reverse := by
      rw [List.zipWith_append (by simp [same]),List.zipWith_nil_right,List.append_nil]
    _ = List.zipWith defaultLine last values := by
      rw [List.reverse_zipWith (by simp [same]),List.reverse_reverse,List.reverse_reverse]
  rw [leadLines,paired,List.length_append,same,Nat.add_sub_cancel,List.drop_left]

/-- What a plain function is written as. Its body is one block behind the first line. In front of the
body stand the default values, one line for each of the last parameters, and then the table of the
remaining arguments. Behind the body the function is connected to its decorators. -/
theorem plain_function_shape {posOnly regular kwOnly kwDefaults defaults body decorators : List Node}
    {vararg kwRest returns : Node} {comment : Option String}
    (run : Gives (visit config (.functionDef false (some name)
      (.params posOnly regular vararg kwOnly kwDefaults kwRest defaults) body decorators returns comment))
      s () t) :
    ∃ before head u code v, s.output = .block before ∧
      Gives (signature name (.params posOnly regular vararg kwOnly kwDefaults kwRest defaults)
        (visits config decorators)) s head u ∧
      Gives (functionCode config body) u code v ∧ (AreStatements body → ∃ inner, code = .block inner) ∧
      (some name ∉ v.generators → ∃ rest values w connected x,
        let lead := List.zipWith defaultLine (head.given.drop (head.given.length - defaults.length))
          values ++ rest.toList
        restLine head.rest = .ok rest ∧ defaults.length ≤ head.given.length ∧
        values.length = defaults.length ∧
        Gives (inlineEach (visits config defaults.reverse)) v values.reverse w ∧
        Gives (inlineEach (visits config decorators.reverse)) w connected x ∧
        (lead = [] ∨ ∃ inner, code = .block inner) ∧
        t = { x with
          current := none
          output := .block (before ++ [.line head.line,code.led lead,.line "end"] ++
            (connections head.fullName connected).map .line) }) := by
  obtain ⟨before,head,u,code,v,rest,values,w,connected,x,out,signed,coded,known,read,enough,room,again,
    rfl⟩ := gives_definition.mp run
  refine ⟨before,head,u,code,v,out,signed,coded,fun stmts => functionCode_block stmts coded, fun plain => ?_⟩
  have counted : values.length = defaults.length := (inlineEach_length read).trans List.length_reverse
  have ordered := @leadLines_reverse head.given values.reverse (by simpa using enough) rest
  rw [List.reverse_reverse,List.length_reverse,counted] at ordered
  rw [settled_of_plain plain] at read
  refine ⟨rest,values.reverse,w,connected,x,known,counted ▸ enough,by simpa using counted,
    (List.reverse_reverse values).symm ▸ read,again,room.imp ?_ And.right,?_⟩
  · rintro ⟨rfl,rfl⟩
    simp
  · rw [ordered,endLines_of_plain plain]
    simp

def greetParams : Node := .params [] [.param (some "who") .absent none,.param (some "times") .absent none]
    (.param (some "others") .absent none) [] [] .absent [.constant (.int 1) none]

def greet : Node := .functionDef false (some "greet") greetParams [.returnStmt (.name (some "who") .absent)]
    [.name (some "on") .absent,.name (some "staticmethod") .absent] .absent none

theorem greet_shape :
    let s := State.initial .empty
    let t := (visit none greet s).2
    let on : Node := .name (some "on") .absent
    let static : Node := .name (some "staticmethod") .absent
    Gives (visit none greet) s () t ∧ ∃ before head u code v, s.output = .block before ∧
      Gives (signature "greet" greetParams (visits none [on,static])) s head u ∧
      Gives (functionCode none [.returnStmt (.name (some "who") .absent)]) u code v ∧
      some "greet" ∉ v.generators ∧ ∃ rest values w connected x,
        let lead := List.zipWith defaultLine (head.given.drop (head.given.length - 1)) values ++ rest.toList
        restLine head.rest = .ok rest ∧ 1 ≤ head.given.length ∧ values.length = 1 ∧
        Gives (inlineEach (visits none [.constant (.int 1) none])) v values.reverse w ∧
        Gives (inlineEach (visits none [static,on])) w connected x ∧
        (lead = [] ∨ ∃ inner, code = .block inner) ∧
        t = { x with
          current := none
          output := .block (before ++ [.line head.line,code.led lead,.line "end"] ++
            (connections head.fullName connected).map .line) } := by
  intro s t on static
  have run : Gives (visit none greet) s () t := gives_of_isOk (by decide +kernel)
  obtain ⟨before,head,u,code,v,out,signed,coded,-,shape⟩ := plain_function_shape run
  have plain : some "greet" ∉ v.generators := by
    rw [← show (functionCode none _ u).2 = v from congrArg Prod.snd coded,
      ← show (signature _ _ _ s).2 = u from congrArg Prod.snd signed]
    decide +kernel
  exact ⟨run,before,head,u,code,v,out,signed,coded,plain,shape plain⟩

end Compile

/-- A value is yielded in the row by a statement of its own or in the branches and loops of the row, and
no definition stands in front of it. -/
inductive YieldsInside : List Node → Prop
  | here : YieldsInside (.exprStmt (.yield value) :: rest)
  | later (stays : n.exits = false) (yields : YieldsInside rest) : YieldsInside (n :: rest)
  | branch (yields : YieldsInside body) : YieldsInside (.ifStmt test body orElse :: rest)
  | otherwise (yields : YieldsInside (Node.compiledOtherwise orElse)) :
    YieldsInside (.ifStmt test body orElse :: rest)
  | whileLoop (yields : YieldsInside body) : YieldsInside (.whileStmt test body orElse :: rest)
  | forLoop (yields : YieldsInside body) :
    YieldsInside (.forStmt false target iter body orElse comment :: rest)

theorem rowParts_otherwise (part : q ∈ rowParts current (Node.compiledOtherwise orElse)) :
    q ∈ courseParts current (otherwiseTurns orElse) := by
  unfold otherwiseTurns
  split
  · cases part
  · obtain rfl := List.mem_singleton.mp part
    simp [courseParts,Turn.parts,Turn.exits]
  · rename_i n rest other
    have plain : n.isBranch = false := by
      cases n <;> first | rfl | exact (other _ _ _ rfl).elim
    simpa [Node.compiledOtherwise,plain,courseParts,Turn.parts] using part

theorem YieldsInside.marked (yields : YieldsInside ns) (current : Option String) :
    ∃ q ∈ rowParts current ns, Marked config q current := by
  have first {n : Node} {rest : List Node} (marked : Marked config (current,n) current) :
      ∃ q ∈ rowParts current (n :: rest), Marked config q current :=
    ⟨(current,n),List.mem_cons_self,marked⟩
  have inside {n : Node} {rest : List Node}
      (part : ∃ q, Hands config (current,n) q ∧ Marked config q current) :
      ∃ q ∈ rowParts current (n :: rest), Marked config q current := by
    obtain ⟨q,hands,value,comes⟩ := part
    exact first ⟨value,.head hands comes⟩
  induction yields with
  | @here value => exact inside ⟨(current,.yield value),by simp [Hands,turns,courseParts,Turn.parts],value,.refl⟩
  | later stays yields ih =>
    obtain ⟨q,part,marked⟩ := ih
    exact ⟨q,List.mem_cons_of_mem _ (by rwa [stays]),marked⟩
  | branch yields ih =>
    obtain ⟨q,part,marked⟩ := ih
    exact inside ⟨q,by simp [Hands,turns,courseParts,Turn.parts,Turn.exits,part],marked⟩
  | @otherwise test body orElse rest yields ih =>
    obtain ⟨q,part,marked⟩ := ih
    exact inside ⟨q,by simp [Hands,turns,courseParts,Turn.exits,rowParts_otherwise part],marked⟩
  | whileLoop yields ih | forLoop yields ih =>
    obtain ⟨q,part,marked⟩ := ih
    exact inside ⟨q,by simp [Hands,turns,courseParts,Turn.parts,Turn.exits,part],marked⟩

namespace Compile

variable {config : Option Config} {s t : State} {before : List Code} {name : String}

variable {body : List Node} {params : Node} {e : Failure}

theorem row_marked (run : Gives (each (visits config ns)) s () t)
    (marked : ∃ q ∈ rowParts s.current ns, Marked config q g) : g ∈ t.generators := by
  obtain ⟨q,part,value,comes⟩ := marked
  have path : Path config (fun _ => False) _ s.view t.view := row_path run
  obtain ⟨x,y,inner,atHand,-,behind⟩ := path.runsUnder part
  have comes : Comes config (x.current,q.2) (g,.yield value) := by rwa [atHand]
  exact behind.grows.subset ((marked_iff inner g).mpr (.inr ⟨value,comes⟩))

variable {code : Code}

theorem functionCode_marks (yields : YieldsInside body)
    (run : Gives (functionCode config body) s code t) : s.current ∈ t.generators := by
  obtain ⟨u,row,-,rfl⟩ := codeWithin_run run
  have marked := row_marked row (yields.marked s.current)
  exact marked

variable {head : Signature}

theorem generator_marked (yields : YieldsInside body)
    (signed : Gives (signature name params decorators) s head u)
    (coded : Gives (functionCode config body) u code v) : some name ∈ v.generators := by
  rw [← (signature_kept signed).2]
  exact functionCode_marks yields coded

theorem restLine_eq_none (known : restLine rest = .ok none) : rest = none := by
  cases rest with
  | none => rfl
  | some param =>
    rw [restLine] at known
    cases named : paramName param <;> simp [named,bind,Except.bind,pure,Except.pure] at known

theorem Fails.later (first : Gives c s a t) (fails : Fails (f a) t e) : Fails (c >>= f) s e := by
  rwa [Fails,bind_of_gives first]

theorem prepend_fails (out : s.output = .block (before ++ [.line line])) :
    Fails (prepend text) s .missingPart := by
  have opened : Gives get s s s := rfl
  refine .later opened ?_
  simp only [out,List.getLast?_concat]
  rfl

theorem paramName_fails (failed : paramName param = .error e) : e = .missingPart := by
  unfold paramName at failed
  split at failed <;> cases failed
  rfl

theorem prependLead_fails (out : s.output = .block (before ++ [.line line]))
    (lead : head.rest ≠ none ∨ head.given ≠ [] ∧ ∃ e value w, params.paramDefaults.getLast? = some e ∧
        Gives (inline (visit config e)) s value w) :
    Fails (prependLead head (defaultsOf config params)) s .missingPart := by
  unfold prependLead
  cases rest : head.rest with
  | some param =>
    cases named : paramName param with
    | error e =>
      obtain rfl := paramName_fails named
      refine .first ?_
      rw [restLine,named]
      rfl
    | ok shown =>
      have known : restLine (some param) = .ok (some ("local " ++ shownName shown ++ " = \x7b...\x7d")) := by
        rw [restLine,named]
        rfl
      exact .later (gives_ofExcept.mpr ⟨known,rfl⟩) (.first (prepend_fails out))
  | none =>
    obtain ⟨given,e,value,w,last,read⟩ := lead.resolve_left (· rest)
    obtain ⟨others,listed⟩ := List.getLast?_eq_some_iff.mp last
    obtain ⟨name,names,named⟩ := List.exists_cons_of_ne_nil (mt List.reverse_eq_nil_iff.mp given)
    rw [defaultsOf_reverse config,listed,List.reverse_concat,named]
    exact .later (t := s) rfl (.later read (.first (prepend_fails (((inline_aside _).kept read).trans out))))

/-- Where the head and the body of a generator are compiled, a rest parameter or a default value breaks
off the compilation: the end line stands where the body is expected. -/
theorem generator_fails (yields : YieldsInside body) (out : s.output = .block before)
    (signed : Gives (signature name params (visits config decorators)) s head u)
    (coded : Gives (functionCode config body) u code v)
    (lead : head.rest ≠ none ∨ head.given ≠ [] ∧ ∃ e value w, params.paramDefaults.getLast? = some e ∧
      Gives (inline (visit config e)) { v with ledger := v.ledger.need "generator" } value w) :
    Fails (visit config (.functionDef false (some name) params body decorators returns comment)) s
      .missingPart := by
  have marked := generator_marked yields signed coded
  have coded := (functionCode_aside body).run (.block (before ++ [.line head.line])) coded
  change Fails (functionDefinition (some name) params (visits config decorators) (visits config body)
    (defaultsOf config params)) s .missingPart
  rw [functionDefinition_eq]
  refine .later signed (.later (a := ()) (gives_emit.mpr
    ⟨before,(signature_kept signed).1.trans out,rfl⟩) (.later (a := ())
    ((gives_functionBody rfl).mpr ⟨code,_,coded,rfl⟩) (.first ?_)))
  have last : .block (before ++ [.line head.line] ++ code :: endLines v name) =
      Code.block (before ++ [.line head.line,code] ++ [.line (generatorEnd name)]) := by
    simp [endLines_of_marked marked]
  refine prependLead_fails last (lead.imp id ?_)
  rintro ⟨given,e,value,w,final,read⟩
  have read := (inline_aside _).run (.block (before ++ [.line head.line] ++ code :: endLines v name)) read
  rw [← settled_of_marked marked] at read
  exact ⟨given,e,value,_,final,read⟩

/-- A generator takes no default values and no rest parameter. It is compiled if and only if it has none
of them and its parts are compiled, and then its body is written as it is, with the end line behind it.
Otherwise the compilation breaks off. -/
theorem generator_takes_no_lead {params returns : Node} {body decorators : List Node}
    {comment : Option String} (yields : YieldsInside body) :
    let definition := Node.functionDef false (some name) params body decorators returns comment
    (Gives (visit config definition) s () t ↔
      params.paramDefaults = [] ∧ ∃ before head u code v connected x, s.output = .block before ∧
        Gives (signature name params (visits config decorators)) s head u ∧ head.rest = none ∧
        Gives (functionCode config body) u code v ∧
        Gives (inlineEach (visits config decorators.reverse))
          { v with ledger := v.ledger.need "generator" } connected x ∧
        t = { x with
          current := none
          output := .block (before ++ [.line head.line,code,.line (generatorEnd name),.line "end"] ++
            (connections head.fullName connected).map .line) }) ∧
    ∀ before head u code v, s.output = .block before →
      Gives (signature name params (visits config decorators)) s head u →
      Gives (functionCode config body) u code v →
      (head.rest ≠ none ∨ head.given ≠ [] ∧ ∃ e value w, params.paramDefaults.getLast? = some e ∧
        Gives (inline (visit config e)) { v with ledger := v.ledger.need "generator" } value w) →
      Fails (visit config definition) s .missingPart := by
  intro definition
  refine ⟨gives_definition.trans ⟨?_,?_⟩,fun before head u code v out signed coded lead =>
    generator_fails yields out signed coded lead⟩
  · rintro ⟨before,head,u,code,v,rest,values,w,connected,x,out,signed,coded,known,read,enough,room,again,
      rfl⟩
    have marked := generator_marked yields signed coded
    obtain ⟨rfl,rfl⟩ := room.resolve_right fun plain => plain.1 marked
    have none : params.paramDefaults = [] := by simpa using (inlineEach_length read).symm
    rw [none] at read
    obtain ⟨-,rfl⟩ := gives_all_nil.mp read
    rw [settled_of_marked marked] at again
    refine ⟨none,before,head,u,code,v,connected,x,out,signed,restLine_eq_none known,coded,again,?_⟩
    simp [leadLines,endLines_of_marked marked]
  · rintro ⟨none,before,head,u,code,v,connected,x,out,signed,absent,coded,again,rfl⟩
    have marked := generator_marked yields signed coded
    rw [none]
    refine ⟨before,head,u,code,v,.none,[],_,connected,x,out,signed,coded,by rw [absent,restLine],
      gives_all_nil.mpr ⟨rfl,rfl⟩,Nat.zero_le _,.inl ⟨rfl,rfl⟩,settled_of_marked marked ▸ again,?_⟩
    simp [leadLines,endLines_of_marked marked]

def guardedYield : List Node := [.pass,.whileStmt (.name (some "a") .absent)
    [.ifStmt (.name (some "b") .absent) [.pass] [yieldNumber 1]] []]

def defaulted (body : List Node) : Node :=
  .functionDef false (some "f") (.params [] [.param (some "a") .absent none] .absent [] [] .absent
    [.constant (.int 1) none]) body [] .absent none

theorem guardedYield_takes_no_lead :
    let s := State.initial .empty
    let t := (visit none (plainFunction "f" guardedYield) s).2
    YieldsInside guardedYield ∧ (¬∃ u, Gives (visit none (defaulted guardedYield)) s () u) ∧
      Gives (visit none (plainFunction "f" guardedYield)) s () t ∧ ∃ before line code,
        t.output = .block (before ++ [.line line,code,.line (generatorEnd "f"),.line "end"]) := by
  intro s t
  have yields : YieldsInside guardedYield := .later rfl (.whileLoop (.otherwise .here))
  have run : Gives (visit none (plainFunction "f" guardedYield)) s () t := gives_of_isOk (by decide +kernel)
  refine ⟨yields,?_,run,?_⟩
  · rintro ⟨u,given⟩
    cases ((generator_takes_no_lead yields).1.mp given).1
  · obtain ⟨-,before,head,u,code,v,connected,x,-,-,-,-,none,whole⟩ :=
      (generator_takes_no_lead yields).1.mp run
    obtain ⟨rfl,-⟩ := gives_all_nil.mp none
    exact ⟨before,head.line,code,by simp [whole,connections]⟩

/-- A default value is put in front of an empty body, but a yielded value in the body breaks off the
compilation. -/
theorem defaulted_generator_refused :
    let s := State.initial .empty
    let value : Node := .name (some "a") .absent
    (visit none (defaulted [.exprStmt (.yield value)]) s).1 = .error .missingPart ∧
      (visit none (defaulted [.pass]) s).1 = .ok () ∧
      (visit none (defaulted [.pass]) s).2.output =
        .block [.line "local  function f(a)",.block [.line "a = a or 1"],.line "end"] := by
  decide +kernel

end Compile

end LuauCompiler
