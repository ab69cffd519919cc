import LuauCompiler.Proofs.Neatness

/-! The expressions whose texts open and close nothing, on one line and on several. -/
namespace LuauCompiler

namespace Luau

/-! ## Several lines -/

variable {R : String → List String → Prop} {ws ws' lines : List String}

/-- Texts that are in relation to words, in order. -/
inductive Listed (R : String → List String → Prop) : List String → List String → Prop
  | nil : Listed R [] []
  | cons {texts ws ws' : List String} (first : R text ws) (rest : Listed R texts ws') :
    Listed R (text :: texts) (ws ++ ws')

theorem Listed.append (first : Listed R xs ws) (second : Listed R ys ws') :
    Listed R (xs ++ ys) (ws ++ ws') := by
  induction first with
  | nil => exact second
  | cons first _ ih => rw [List.append_assoc]; exact .cons first ih

theorem Listed.mono (weaker : ∀ text ws, R text ws → S text ws) (listed : Listed R texts ws) :
    Listed S texts ws := by
  induction listed with
  | nil => exact .nil
  | cons first _ ih => exact .cons (weaker _ _ first) ih

/-- Lines of whole tokens with the words that have their effect. -/
abbrev Lined : List String → List String → Prop := Listed fun line ws => Passes .start line ws .token

/-- Lines that open and close nothing and can stand wherever an expression can. -/
inductive NeatLines : List String → Prop
  | intro {lines ws ws' : List String} (first : ∀ p ∈ Spot.entries, Passes p line ws .token)
    (rest : Lined lines ws') (neutral : ∀ opened, followAll opened (ws ++ ws') = some opened) :
    NeatLines (line :: lines)

theorem NeatLines.of_neat (neat : Neat text) : NeatLines [text] := .intro neat .nil fun _ => rfl

theorem joined_passes (first : Passes p line ws .token) (rest : Lined lines ws') :
    Passes p (String.intercalate " " (line :: lines)) (ws ++ ws') .token := by
  induction rest generalizing p line ws with
  | nil => simpa using first
  | cons passes _ ih =>
    rw [String.intercalate_cons_cons]
    have space := separator_passes " " rfl fun _ => rfl
    simpa using (first.append space).append (ih passes)

theorem NeatLines.joined (neat : NeatLines lines) : Neat (String.intercalate " " lines) := by
  obtain ⟨first,rest,neutral⟩ := neat
  exact fun p entry => (joined_passes (first p entry) rest).congr neutral

theorem NeatLines.lined (neat : NeatLines lines) :
    ∃ ws, Lined lines ws ∧ ∀ opened, followAll opened ws = some opened := by
  obtain ⟨first,rest,neutral⟩ := neat
  exact ⟨_,.cons (first .start (by simp [Spot.entries])) rest,neutral⟩

/-! ## Comprehensions -/

/-- The construct ends with an `end`. -/
def Open.ends : Open → Bool
  | .branch | .otherwise | .body | .function => true
  | _ => false

theorem follow_end (ends : o.ends = true) (opened : List Open) :
    follow (o :: opened) "end" = some opened := by
  cases o with
  | branch | otherwise | body | function => rfl
  | test | head | repetition => cases ends

theorem followAll_ends (ends : ∀ o ∈ os, o.ends = true) (opened : List Open) :
    followAll (os ++ opened) (List.replicate os.length "end") = some opened := by
  induction os with
  | nil => rfl
  | cons o os ih =>
    rw [List.length_cons,List.replicate_succ,followAll,List.cons_append,
      follow_end (ends o (by simp)),Option.bind_some]
    exact ih fun o member => ends o (by simp [member])

theorem end_passes : Passes .start "end" ["end"] .token := settled_render [.fixed "end"] (by simp) rfl

theorem ends_passes (n : Nat) : Passes .start (Compile.ends n) (List.replicate n "end") .token := by
  cases n with
  | zero => exact smooth_empty
  | succ n =>
    induction n with
    | zero => exact end_passes
    | succ n ih =>
      have space := separator_passes " " rfl fun _ => rfl
      have more := (end_passes.append space).append ih
      rwa [Compile.ends,List.replicate_succ,List.replicate_succ,String.intercalate_cons_cons,
        ← List.replicate_succ]

theorem opened_lined (opened : Compile.OpenedLines Neat n lines) :
    ∃ ws os, Lined lines ws ∧ os.length = n ∧ (∀ o ∈ os, Open.ends o = true) ∧
      ∀ outer, followAll outer ws = some (os ++ outer) := by
  induction opened with
  | none => exact ⟨[],[],.nil,rfl,by simp,fun _ => rfl⟩
  | @loop target iter n rest target_text iter_text _ ih =>
    obtain ⟨ws,os,lined,count,ends,effect⟩ := ih
    have line : Passes .start ("for " ++ target ++ " in " ++ iter ++ " do") ["for","in","do"] .token :=
      settled_render [.fixed "for ",.phrase target,.fixed " in ",.phrase iter,.fixed " do"]
        (by simp [target_text,iter_text]) rfl
    refine ⟨_,os ++ [.body],.cons line lined,by simp [count],
      by simpa [Open.ends,or_imp,forall_and] using ends,fun outer => ?_⟩
    rw [List.append_assoc]
    exact effect (.body :: outer)
  | @test filter n rest filter_text _ ih =>
    obtain ⟨ws,os,lined,count,ends,effect⟩ := ih
    have line : Passes .start ("if " ++ filter ++ " then") ["if","then"] .token :=
      settled_render [.fixed "if ",.phrase filter,.fixed " then"] (by simp [filter_text])
        rfl
    refine ⟨_,os ++ [.branch],.cons line lined,by simp [count],
      by simpa [Open.ends,or_imp,forall_and] using ends,fun outer => ?_⟩
    rw [List.append_assoc]
    exact effect (.branch :: outer)

theorem stored_smooth (form : Compile.StoredText Neat stored) : Smooth stored := by
  cases form with
  | @list elt holds =>
    exact smooth_render [.fixed "table.insert(result._data,\x7b",.phrase elt,.fixed "\x7d"] (by simp [*]) rfl fun _ => rfl
  | @set elt holds =>
    exact smooth_render [.fixed "table.insert(result, ",.phrase elt,.fixed ")"] (by simp [*]) rfl fun _ => rfl
  | @generator elt holds =>
    exact smooth_render [.fixed "result.append(",.phrase elt,.fixed ")"] (by simp [*]) rfl fun _ => rfl
  | @dict key value key_text value_text =>
    exact smooth_render [.fixed "result[",.phrase key,.fixed "] = ",.phrase value] (by simp [*]) rfl fun _ => rfl

theorem comprehension_neat (form : Compile.ComprehensionLines Neat lines) : NeatLines lines := by
  obtain ⟨first,known,opened,n,stored,open_lines,stored_text,rfl⟩ := form
  obtain ⟨ws,os,lined,rfl,ends,effect⟩ := opened_lined open_lines
  have head : ∀ p ∈ Spot.entries, Passes p "(function()" ["function"] .token := by
    intro p entry
    simp only [Spot.entries,Spot.start,List.mem_cons,List.not_mem_nil,or_false] at entry
    rcases entry with rfl | rfl | rfl <;>
      exact settled_render [.fixed "(function()"] (by simp) rfl
  have start : Smooth first := by
    simp only [List.mem_cons,List.not_mem_nil,or_false] at known
    rcases known with rfl | rfl <;>
      exact smooth_render [.fixed _] (by simp [*]) rfl fun _ => rfl
  have result : Smooth "return result" := smooth_render [.fixed _] (by simp [*]) rfl fun _ => rfl
  have last : Passes .start "end)()" ["end"] .token := settled_render [.fixed _] (by simp) rfl
  have closing : Lined _ _ := .cons (stored_smooth stored_text) (.cons (ends_passes os.length)
    (.cons result (.cons last .nil)))
  refine .intro head (Listed.append (.cons start lined) closing) fun outer => ?_
  calc followAll outer (["function"] ++ (([] ++ ws) ++
        ([] ++ (List.replicate os.length "end" ++ ([] ++ (["end"] ++ []))))))
      = followAll (.function :: outer) (ws ++ (List.replicate os.length "end" ++ ["end"])) := by
        simp [followAll,follow]
    _ = followAll (os ++ .function :: outer) (List.replicate os.length "end" ++ ["end"]) := by
        rw [followAll_append,effect,Option.bind_some]
    _ = followAll (.function :: outer) ["end"] := by
        rw [followAll_append,followAll_ends ends,Option.bind_some]
    _ = some outer := rfl

end Luau

open Luau

/-! ## Plain expressions -/

/-- Constants whose literals are words and simple texts. -/
def Constant.IsPlain : Constant → Prop
  | .none | .bool _ | .int _ => True
  | .str text => ∀ c ∈ text.toList, isSimple c = true
  | _ => False

/-- What a minus sign may stand directly before. -/
inductive IsAtom : Node → Prop
  | name {id : String} {access : Node} (identifier : IsIdentifier id) : IsAtom (.name (some id) access)
  | natural {n : Nat} {kind : Option String} : IsAtom (.constant (.int n) kind)

inductive IsParam : Node → Prop
  | intro (identifier : IsIdentifier name) : IsParam (.param (some name) hint typeComment)

/-- The methods of a list, calls of which have texts of their own. -/
def listMethodNames : List String :=
  ["append","reverse","clear","pop","copy","insert","remove","sort","count","index","extend"]

/-- Expressions over plain constants and names that are not reserved. A minus sign stands before
atoms only, a comparison has an operator, and no method of a list is called. -/
inductive Plain : Part → Node → Prop
  | absent : Plain .expression .absent
  | name {id : String} {access : Node} (identifier : IsIdentifier id) :
    Plain .expression (.name (some id) access)
  | constant (plain : value.IsPlain) : Plain .expression (.constant value kind)
  | binOp (first : Plain .expression left) (second : Plain .expression right) :
    Plain .expression (.binOp left op right)
  | boolOp (parts : ∀ e ∈ values, Plain .expression e) : Plain .expression (.boolOp op values)
  | negative (negates : op.unaryOp? = some .uSub) (atom : IsAtom operand) :
    Plain .expression (.unaryOp op operand)
  | unaryOp (other : op.unaryOp? ≠ some .uSub) (part : Plain .expression operand) :
    Plain .expression (.unaryOp op operand)
  | compare (first : Plain .expression left) (parts : ∀ e ∈ comparators, Plain .expression e) :
    Plain .expression (.compare left (op :: ops) comparators)
  | ifExp (first : Plain .expression test) (second : Plain .expression body)
    (third : Plain .expression orElse) : Plain .expression (.ifExp test body orElse)
  | list (parts : ∀ e ∈ elts, Plain .expression e) : Plain .expression (.list elts access)
  | tuple (parts : ∀ e ∈ elts, Plain .expression e) : Plain .expression (.tuple elts access)
  | set (parts : ∀ e ∈ elts, Plain .expression e) : Plain .expression (.set elts)
  | dict (first : ∀ e ∈ keys, Plain .expression e) (second : ∀ e ∈ values, Plain .expression e) :
    Plain .expression (.dict keys values)
  | lambda (params : ∀ p ∈ regular, IsParam p) (part : Plain .expression body) : Plain .expression
      (.lambda (.params posOnly regular rest kwOnly kwDefaults kwRest defaults) body)
  | member (identifier : IsIdentifier attr) (part : Plain .expression value) :
    Plain .expression (.attribute value (some attr) access)
  | subscript (first : Plain .expression value) (second : Plain .expression slice) :
    Plain .expression (.subscript value slice access)
  | starred (part : Plain .expression value) : Plain .expression (.starred value access)
  | listComp (part : Plain .expression elt) (parts : ∀ c ∈ clauses, Plain .clause c) :
    Plain .expression (.listComp elt clauses)
  | setComp (part : Plain .expression elt) (parts : ∀ c ∈ clauses, Plain .clause c) :
    Plain .expression (.setComp elt clauses)
  | generatorExp (part : Plain .expression elt) (parts : ∀ c ∈ clauses, Plain .clause c) :
    Plain .expression (.generatorExp elt clauses)
  | dictComp (first : Plain .expression key) (second : Plain .expression value)
    (parts : ∀ c ∈ clauses, Plain .clause c) : Plain .expression (.dictComp key value clauses)
  | call {keywords : List Node} (first : Plain .expression func)
    (noMethod : ∀ value attr access, func = .attribute value (some attr) access →
      attr ∉ listMethodNames) (parts : ∀ e ∈ args, Plain .expression e)
    (named : ∀ k ∈ keywords, Plain .keyword k) : Plain .expression (.call func args keywords)
  | clause (first : Plain .expression target) (second : Plain .expression iter)
    (parts : ∀ e ∈ filters, Plain .expression e) :
    Plain .clause (.clause target iter filters isAsync)
  | keyword {name : Option String} (part : Plain .expression value) : Plain .keyword (.keyword name value)

theorem IsAtom.isExpr (atom : IsAtom n) : IsExpr n := by
  cases atom with
  | name => exact .name
  | natural => exact .constant

theorem Plain.phrase (plain : Plain part n) : Phrase part n := by
  induction plain with
  | negative _ atom => exact .unaryOp atom.isExpr
  | _ => constructor <;> assumption

namespace Compile

variable {config : Option Config}

/-- Neither the frames nor the generators have changed. -/
structure Still (s t : State) : Prop where
  frames : t.frames = s.frames
  generators : t.generators = s.generators

instance : Calm Still where
  refl _ := ⟨rfl,rfl⟩
  trans a b := ⟨b.frames.trans a.frames,b.generators.trans a.generators⟩
  frames a := a.frames
  aside _ _ _ := ⟨rfl,rfl⟩
  need _ _ := ⟨rfl,rfl⟩

/-- Outside of documentation the step adds lines of an expression. -/
abbrev SaysNeatly (c : Compile Unit) : Prop := Says Still (fun f => f.docstring = false) NeatLines c

abbrev TellsNeatly (c : Compile Unit) : Prop := Tells Still (fun f => f.docstring = false) Neat (inline c)

theorem SaysNeatly.text (step : SaysNeatly c) : TellsNeatly c := step.inline fun _ neat => neat.joined

theorem neat_texts (steps : ∀ e ∈ es, SaysNeatly (visit config e)) :
    ∀ c ∈ visits config es, TellsNeatly c := by
  intro c member
  rw [visits_eq_map] at member
  obtain ⟨e,inside,rfl⟩ := List.mem_map.mp member
  exact (steps e inside).text

/-- What holds of the step of each part of a plain expression. -/
def SpelledNeatly (config : Option Config) : Part → Node → Prop
  | .expression, n => SaysNeatly (visit config n)
  | .clause, n => (clauseOf config n).Tells Still (fun f => f.docstring = false) Neat
  | .keyword, _ => True

theorem neat_clauses (parts : ∀ c ∈ clauses, SpelledNeatly config .clause c) :
    ∀ c ∈ clausesOf config clauses, c.Tells Still (fun f => f.docstring = false) Neat := by
  intro c member
  rw [clausesOf_eq_map] at member
  obtain ⟨n,inside,rfl⟩ := List.mem_map.mp member
  exact parts n inside

theorem intText_neat (written : Constant.intText n = .ok text) : Neat text := by
  unfold Constant.intText at written
  split at written
  · cases written
  · cases written
    exact neat_integer n

theorem constant_neatly (plain : c.IsPlain) : SaysNeatly (constant c) := by
  cases c with
  | none => exact .emit (.of_neat (neat_render [.fixed _] (by simp [*]) rfl fun _ => rfl))
  | bool b =>
    cases b <;>
      exact .emit (.of_neat (neat_render [.fixed _] (by simp [*]) rfl fun _ => rfl))
  | int n =>
    exact .after (.ofExcept fun _ written => written) fun _ written => .emit (.of_neat (intText_neat written))
  | str text =>
    refine textConstant_writes text fun f outside => ?_
    rw [outside]
    exact .of_neat (neat_quote plain)
  | float | complex | bytes | ellipsis => exact plain.elim

theorem params_words {params : List Node} {given : List String} (all : ∀ p ∈ params, IsParam p)
    (read : params.mapM paramName = .ok (given.map some)) : ∀ name ∈ given, Word name := by
  induction params generalizing given with
  | nil =>
    cases given with
    | nil => simp
    | cons => cases read
  | cons p params ih =>
    obtain ⟨identifier⟩ := all p (by simp)
    rename_i first _ _
    rw [List.mapM_cons] at read
    cases rest : params.mapM paramName with
    | error e => rw [rest] at read; cases read
    | ok names =>
      rw [rest] at read
      cases given with
      | nil => cases read
      | cons name given =>
        obtain ⟨rfl,rfl⟩ : first = name ∧ names = given.map some := by
          simpa [paramName,bind,Except.bind,pure,Except.pure] using read
        exact List.forall_mem_cons.mpr ⟨identifier.word,ih (fun q member => all q (by simp [member])) rest⟩

theorem listMethod_none (noMethod : ∀ value attr access,
    func = .attribute value (some attr) access → attr ∉ listMethodNames) :
    listMethod? func = none := by
  unfold listMethod?
  split
  · have absent := noMethod _ _ _ rfl
    simp only [Option.map_eq_none_iff]
    unfold ListMethod.ofName?
    split <;> simp_all [listMethodNames]
  · rfl

theorem atom_tells (atom : IsAtom n) :
    Tells Still (fun f => f.docstring = false) Word (inline (visit config n)) := by
  cases atom with
  | @name id _ identifier =>
    refine (name_tells id).mono fun _ same => ?_
    rw [same]
    exact identifier.word
  | @natural n kind =>
    refine Says.inline (P := fun lines => lines = [toString n]) ?_ fun _ same => ?_
    · refine .after (.ofExcept (P := fun text => text = toString n) fun text written => ?_)
        fun _ same => .emit (by rw [same])
      simp only [Constant.display,Constant.literal,Constant.intText] at written
      split at written
      · cases written
      · cases written
        rfl
    · rw [same,String.intercalate_singleton]
      exact word_digits n

theorem plain_spelled (config : Option Config) {part : Part} {n : Node} (plain : Plain part n) :
    SpelledNeatly config part n := by
  induction plain with
  | absent => exact .fail _
  | name identifier => exact .emit (.of_neat identifier.word.neat)
  | constant plain => exact constant_neatly plain
  | binOp _ _ first second =>
    exact binaryOperation_writes _ _ _ (SaysNeatly.text first) (SaysNeatly.text second)
      fun _ _ _ l r form => .of_neat (neat_operation l r form)
  | boolOp _ ih =>
    exact boolOperation_writes _ (neat_texts ih) fun sign _ all => .of_neat (neat_boolean sign all)
  | negative negates atom =>
    refine unaryOperation_writes _ (atom_tells atom) fun unary text known word => ?_
    rw [negates] at known
    cases known
    exact .of_neat (neat_negative word)
  | unaryOp other _ ih =>
    refine unaryOperation_writes _ (SaysNeatly.text ih) fun unary text known neat => ?_
    exact .of_neat (neat_unary (fun same => other (same ▸ known)) neat)
  | @compare _ _ _ comparators _ _ first parts =>
    exact comparison_writes (SaysNeatly.text first)
      (fun p member => neat_texts parts p.2 (List.of_mem_zip member).2)
      (fun _ _ _ l r form => neat_link l r form) (fun _ _ => neat_and) fun _ => .of_neat
  | ifExp _ _ _ first second third =>
    exact conditional_writes (SaysNeatly.text first) (SaysNeatly.text second) (SaysNeatly.text third)
      fun _ _ _ x y z => .of_neat (neat_conditional x y z)
  | list _ ih | set _ ih =>
    exact listDisplay_writes (neat_texts ih) fun _ all =>
      .of_neat (neat_bracedList fun text member => (all text member).smooth)
  | tuple _ ih => exact tupleDisplay_writes (neat_texts ih) fun _ all => .of_neat (neat_tuple all)
  | dict _ _ first second =>
    exact dictDisplay_writes (neat_texts first) (neat_texts second)
      fun _ _ keys values => .of_neat (neat_dict keys values)
  | lambda params _ ih =>
    refine lambda_writes _ (SaysNeatly.text ih) fun names text written neat => ?_
    refine .of_neat (neat_lambda (params_words params ?_) neat)
    cases read : paramNames (.params _ _ _ _ _ _ _) with
    | error e => rw [read] at written; cases written
    | ok shown =>
      rw [read] at written
      rw [← givenNames_ok written]
      exact read
  | member identifier _ ih =>
    exact memberAccess_writes _ (SaysNeatly.text ih) fun _ neat => .of_neat (neat_member neat identifier.word)
  | subscript _ _ first second =>
    exact subscript_writes (SaysNeatly.text first) (SaysNeatly.text second)
      fun _ _ object index => .of_neat (neat_subscript object index)
  | starred _ ih => exact starred_writes (SaysNeatly.text ih) fun _ neat => .of_neat (neat_starred neat)
  | listComp _ _ elt parts =>
    exact (tableComprehension_writes (SaysNeatly.text elt) (neat_clauses parts)
      fun _ holds => .list holds).mono
      fun _ => comprehension_neat
  | setComp _ _ elt parts =>
    exact (tableComprehension_writes (SaysNeatly.text elt) (neat_clauses parts)
      fun _ holds => .set holds).mono
      fun _ => comprehension_neat
  | generatorExp _ _ elt parts =>
    exact (tableComprehension_writes (SaysNeatly.text elt) (neat_clauses parts)
      fun _ holds => .generator holds).mono
      fun _ => comprehension_neat
  | dictComp _ _ _ key value parts =>
    exact (dictComprehension_writes (SaysNeatly.text key) (SaysNeatly.text value)
      (neat_clauses parts)).mono fun _ => comprehension_neat
  | call _ noMethod _ _ func args _ =>
    exact plainCall_writes _ _ (listMethod_none noMethod) (SaysNeatly.text func) (neat_texts args)
      fun _ _ name all => .of_neat (neat_call name all)
  | clause _ _ _ target iter filters =>
    refine ⟨?_,?_,?_⟩ <;> intro c given <;> cases given
    · exact SaysNeatly.text target
    · exact SaysNeatly.text iter
    · exact neat_texts filters
  | keyword => trivial

end Compile

end LuauCompiler
