import LuauCompiler.Proofs.Emission

/-! How the code of a statement is put together. Its bodies are compiled in code of their own, as are the
expressions on its lines, and the entries of the statement are written around them. Lines that come in
front of a body are put there when the body has been written: they go into the entry that was written
last, which takes nothing in front unless it is a block. -/
namespace LuauCompiler

/-- The code with lines in front. Code that is no block takes none. -/
def Code.led (lines : List String) : Code → Code
  | .block entries => .block (lines.map .line ++ entries)
  | code => code

@[simp] theorem Code.led_nil (code : Code) : code.led [] = code := by
  cases code <;> rfl

theorem Code.led_led (first second : List String) (code : Code) :
    (code.led first).led second = code.led (second ++ first) := by
  cases code <;> simp [led]

structure Signature where
  fullName : String
  line : String
  given : List String
  rest : Option Node

/-- A handler with its type, the name that it binds and its body. -/
structure Catcher where
  type : Node
  name : Option String
  body : List Node

namespace Catcher

def isNamed (h : Catcher) : Bool := h.type.isName

def errorName (h : Catcher) : String := shownName h.type.id?

/-- The head of a handler: the test for its error, and the name that is bound to the error. -/
def head (h : Catcher) (position : Nat) : List Code :=
  if h.isNamed then (Compile.handlerHead position h.errorName h.name).map .line else []

end Catcher

namespace Compile

/-- The items are compiled one after the other, to a line each: the expression of the item, bound to
its variables if it has some. -/
inductive ItemTexts (config : Option Config) : State → List Node → List String → State → Prop
  | nil {s : State} : ItemTexts config s [] [] s
  | bare {s t u : State} (read : Gives (inline (visit config context)) s text t)
    (rest : ItemTexts config t items lines u) :
    ItemTexts config s (.withItem context .absent :: items) (text :: lines) u
  | bound {s t u v : State} (given : vars.isAbsent = false) (named : Gives (inline (visit config vars)) s name t)
    (read : Gives (inline (visit config context)) t text u) (rest : ItemTexts config u items lines v) :
    ItemTexts config s (.withItem context vars :: items) (("local " ++ name ++ " = " ++ text) :: lines) v

variable {α : Type} {config : Option Config} {s t : State} {before : List Code} {name : String} {code : Code}
  {params : Node} {head : Signature} {body : List Node} {defaults decorators : List (Compile Unit)}
  {lines : List String} {items : List Node}

/-! ## Lines and names -/

theorem emit_run (run : Gives (emit text) s a t) (out : s.output = .block before) :
    t = { s with output := .block (before ++ [.line text]) } := by
  obtain ⟨old,same,rfl⟩ := gives_emit.mp run
  rw [out] at same
  cases same
  rfl

theorem emit_bind_run {f : Unit → Compile α} {a : α} (run : Gives (emit text >>= f) s a t)
    (out : s.output = .block before) :
    Gives (f ()) { s with output := .block (before ++ [.line text]) } a t := by
  obtain ⟨u,emitted,rest⟩ := gives_unit_bind.mp run
  rw [emit_run emitted out] at rest
  exact rest

theorem introduceIf_run [Decidable p] {f : String → Compile α}
    (run : Gives (if p then introduce (some name) >>= f else pure "" >>= f) s a t) :
    ∃ keyword locals, IntroducesIf (decide p) s.scene name keyword { s with locals }.scene ∧
      Gives (f keyword) { s with locals } a t := by
  split at run
  · rename_i holds
    obtain ⟨keyword,u,introduced,rest⟩ := gives_bind.mp run
    simp only [IntroducesIf,holds,decide_true,if_true]
    rcases gives_introduce.mp introduced with ⟨known,rfl,rfl⟩ | ⟨unknown,rfl,locals,added,rfl⟩
    · exact ⟨"",u.locals,.known known,rest⟩
    · exact ⟨"local ",locals,.unknown unknown added,rest⟩
  · rename_i fails
    exact ⟨"",s.locals,by simp [IntroducesIf,fails],run⟩

theorem introduceUnless_run [Decidable p] {f : String → Compile α}
    (run : Gives (if p then pure "" >>= f else introduce (some name) >>= f) s a t) :
    ∃ keyword locals, IntroducesIf (!decide p) s.scene name keyword { s with locals }.scene ∧
      Gives (f keyword) { s with locals } a t := by
  rw [← ite_not] at run
  simpa only [decide_not] using introduceIf_run run

/-! ## Code that is kept aside -/

/-- The step leaves the code at hand alone and takes no notice of it. -/
structure Aside (c : Compile α) : Prop where
  kept : ∀ {s a t}, Gives c s a t → t.output = s.output
  run : ∀ {s a t} (out : Code), Gives c s a t → Gives c { s with output := out } a { t with output := out }

theorem Aside.back (aside : Aside c) (run : Gives c { s with output := out } a t) :
    Gives c s a { t with output := s.output } := by
  have back := aside.run s.output run
  exact back

theorem Aside.pure (a : α) : Aside (pure a) where
  kept run := by rw [(gives_pure.mp run).2]
  run out run := by
    obtain ⟨rfl,rfl⟩ := gives_pure.mp run
    exact gives_pure.mpr ⟨rfl,rfl⟩

theorem Aside.bind (first : Aside c) (later : ∀ a, Aside (f a)) : Aside (c >>= f) where
  kept run := by
    obtain ⟨a,u,ran,rest⟩ := gives_bind.mp run
    rw [(later a).kept rest,first.kept ran]
  run out run := by
    obtain ⟨a,u,ran,rest⟩ := gives_bind.mp run
    exact gives_bind.mpr ⟨a,_,first.run out ran,(later a).run out rest⟩

theorem Aside.within (change : Frame → Frame) (inside : Aside c) : Aside (within change c) where
  kept run := by
    obtain ⟨u,frames,ran,-,rfl⟩ := gives_within.mp run
    have kept := inside.kept ran
    exact kept
  run out run := by
    obtain ⟨u,frames,ran,popped,rfl⟩ := gives_within.mp run
    exact gives_within.mpr ⟨_,frames,inside.run out ran,popped,rfl⟩

theorem inline_aside (c : Compile Unit) : Aside (inline c) where
  kept run := by
    obtain ⟨u,lines,-,-,-,rfl⟩ := gives_inline.mp run
    rfl
  run out run := by
    obtain ⟨u,lines,inner,read,rfl,rfl⟩ := gives_inline.mp run
    exact gives_inline.mpr ⟨u,lines,inner,read,rfl,rfl⟩

theorem inlineEach_aside (cs : List (Compile Unit)) : Aside (inlineEach cs) := by
  induction cs with
  | nil => exact .pure []
  | cons c rest ih => exact .bind (inline_aside c) fun _ => .bind ih fun _ => .pure _

theorem inlineEach_current (run : Gives (inlineEach cs) s texts t) : t.current = s.current := by
  induction cs generalizing s texts with
  | nil => rw [(gives_all_nil.mp run).2]
  | cons c rest ih =>
    obtain ⟨text,u,first,later,others,rfl⟩ := gives_all_cons.mp run
    obtain ⟨_,_,-,-,-,rfl⟩ := gives_inline.mp first
    rw [ih others]

def bodyCode (config : Option Config) (body : List Node) : Compile Code := do
  update (·.openBlock)
  let code ← nested (each (visits config body))
  closeBlock
  return code

theorem gives_bodyCode (body : List Node) (code : Code) : Gives (bodyCode config body) s code t ↔ ∃ u,
      Gives (each (visits config body)) { s with locals := s.locals.push, output := .block [] } () u ∧
      code = u.output ∧ u.frames = s.frames ∧
      t = { u with output := s.output, current := s.current, locals := s.locals } := by
  simp only [bodyCode,gives_update_bind,gives_bind (c := nested _),gives_nested,
    gives_unit_bind (c := closeBlock),gives_closeBlock,gives_pure,State.openBlock]
  constructor
  · rintro ⟨_,_,⟨u,inner,rfl,rfl⟩,_,⟨locals,popped,rfl⟩,rfl,rfl⟩
    obtain ⟨closed,frames⟩ := row_closes inner
    obtain rfl := Option.some.inj (closed.symm.trans popped)
    exact ⟨u,inner,rfl,frames,rfl⟩
  · rintro ⟨u,inner,rfl,-,rfl⟩
    exact ⟨_,_,⟨u,inner,rfl,rfl⟩,_,⟨s.locals,(row_closes inner).1,rfl⟩,rfl,rfl⟩

theorem bodyCode_aside (body : List Node) : Aside (bodyCode config body) where
  kept run := by
    obtain ⟨u,-,-,-,rfl⟩ := (gives_bodyCode ..).mp run
    rfl
  run out run := by
    obtain ⟨u,inner,rfl,frames,rfl⟩ := (gives_bodyCode ..).mp run
    exact (gives_bodyCode ..).mpr ⟨u,inner,rfl,frames,rfl⟩

theorem codeWithin_run (run : Gives (within change (bodyCode config body)) s code t) : ∃ u,
      Gives (each (visits config body)) { s with
        frames := s.frames.push change
        locals := s.locals.push
        output := .block [] } () u ∧ code = u.output ∧
      t = { u with output := s.output, current := s.current, locals := s.locals, frames := s.frames } := by
  obtain ⟨v,frames,coded,popped,rfl⟩ := gives_within.mp run
  obtain ⟨u,inner,rfl,kept,rfl⟩ := (gives_bodyCode ..).mp coded
  have popped : u.frames.pop? = some frames := popped
  rw [kept] at popped
  obtain rfl : s.frames = frames := Option.some.inj popped
  exact ⟨u,inner,rfl,rfl⟩

theorem gives_block_code (out : s.output = .block before) :
    Gives (block (visits config body)) s () t ↔ ∃ code u, Gives (bodyCode config body) s code u ∧
      t = { u with output := .block (before ++ [code]) } := by
  constructor
  · intro run
    obtain ⟨u,_,inner,frames,same,rfl⟩ := block_run run
    cases out.symm.trans same
    exact ⟨u.output,_,(gives_bodyCode ..).mpr ⟨u,inner,rfl,frames,rfl⟩,rfl⟩
  · rintro ⟨code,u,coded,rfl⟩
    obtain ⟨v,inner,rfl,-,rfl⟩ := (gives_bodyCode ..).mp coded
    exact gives_block.mpr ⟨v,s.locals,before,inner,(row_closes inner).1,out,rfl⟩

theorem bodyCode_of_block (run : Gives (block (visits config body)) s a t) (out : s.output = .block before) :
    ∃ code u, Gives (bodyCode config body) s code u ∧ t = { u with output := .block (before ++ [code]) } :=
  (gives_block_code out).mp run

theorem gives_within_block (out : s.output = .block before) :
    Gives (within change (block (visits config body))) s () t ↔ ∃ code v,
      Gives (within change (bodyCode config body)) s code v ∧
      t = { v with output := .block (before ++ [code]) } := by
  have start : ({ s with frames := s.frames.push change } : State).output = .block before := out
  simp only [gives_within,gives_block_code start]
  constructor
  · rintro ⟨_,frames,⟨code,v,coded,rfl⟩,popped,rfl⟩
    exact ⟨code,_,⟨v,frames,coded,popped,rfl⟩,rfl⟩
  · rintro ⟨code,_,⟨v,frames,coded,popped,rfl⟩,rfl⟩
    exact ⟨_,frames,⟨code,v,coded,rfl⟩,popped,rfl⟩

/-! ## The parts of a definition -/

def signature (name : String) (params : Node) (decorators : List (Compile Unit)) :
    Compile Signature := do
  let names ← ofExcept (paramNames params)
  update fun s => { s with functions := s.functions ++ [⟨some name,names,none,[]⟩] }
  setCurrent (some name)
  let className := (← frame).className
  let self := if takesSelf (← inlineEach decorators.reverse) then ["self"] else []
  let rest ← ofExcept (restParam params)
  let fullName := qualified className name
  let keyword ← if Text.hasChar fullName '.' then pure "" else introduce (some fullName)
  let dots := if rest.isSome then ["..."] else []
  let given ← ofExcept (givenNames names)
  return { fullName,given,rest,line := keyword ++ " function " ++ fullName ++
    "(" ++ Text.commaSeparated (self ++ given ++ dots) ++ ")" }

def functionCode (config : Option Config) (body : List Node) : Compile Code :=
  within (fun f => { f with className := "" }) (bodyCode config body)

theorem functionCode_aside (body : List Node) : Aside (functionCode config body) :=
  .within _ (bodyCode_aside body)

/-- Puts the line of the rest parameter and those of the default values in front of the body. -/
def prependLead (head : Signature) (defaults : List (Compile Unit)) : Compile Unit := do
  match ← ofExcept (restLine head.rest) with
  | some line => prepend line
  | none => pure ()
  prependDefaults defaults.reverse head.given.reverse

theorem qualifiedName_some (className name : String) :
    qualifiedName className (some name) = .ok (some (qualified className name)) := by
  unfold qualifiedName qualified
  split <;> simp_all [givenName,Except.map]

theorem functionDefinition_eq (params : Node) (decorators body defaults : List (Compile Unit)) :
    functionDefinition (some name) params decorators body defaults = (do
      let head ← signature name params decorators
      emit head.line
      functionBody name body
      prependLead head defaults
      emit "end"
      connectDecorators head.fullName decorators.reverse
      setCurrent none) := by
  have later {α β : Type} (c : Compile α) {f g : α → Compile β} (same : ∀ a, f a = g a) :
      c >>= f = c >>= g := by
    rw [funext same]
  have passed {α β : Type} (a : α) (f : α → Compile β) : ofExcept (.ok a) >>= f = f a := rfl
  have started {α β : Type} (a : α) (f : α → Compile β) : pure a >>= f = f a := rfl
  simp only [functionDefinition,signature,prependLead,bind_assoc,qualifiedName_some,givenName,passed, started]
  refine later _ fun names => later _ fun _ => later _ fun _ => later _ fun frame => later _ fun texts =>
    later _ fun rest => ?_
  split <;> simp only [bind_assoc,started]
  · refine later _ fun given => later _ fun _ => later _ fun _ => later _ fun line => ?_
    cases line <;> simp only [bind_assoc]
  · refine later _ fun keyword => later _ fun given => later _ fun _ => later _ fun _ =>
      later _ fun line => ?_
    cases line <;> simp only [bind_assoc]

theorem signature_run (run : Gives (signature name params decorators) s head t) :
    ∃ names texts u rest given keyword locals, paramNames params = .ok names ∧
      Gives (inlineEach decorators.reverse) { s with
        functions := s.functions ++ [⟨some name,names,none,[]⟩]
        current := some name } texts u ∧
      restParam params = .ok rest ∧ givenNames names = .ok given ∧
      IntroducesIf (!Text.hasChar (qualified s.frames.top.className name) '.') u.scene
        (qualified s.frames.top.className name) keyword t.scene ∧ t = { u with locals } ∧
      head = ⟨qualified s.frames.top.className name,keyword ++ " function " ++
        qualified s.frames.top.className name ++ "(" ++ Text.commaSeparated
          ((if takesSelf texts then ["self"] else []) ++ given ++ if rest.isSome then ["..."] else []) ++ ")",
        given,rest⟩ := by
  obtain ⟨names,listed,run⟩ := gives_ofExcept_bind.mp run
  rw [gives_update_bind,setCurrent,gives_update_bind,gives_frame_bind] at run
  obtain ⟨texts,u,read,run⟩ := gives_bind.mp run
  obtain ⟨rest,taken,run⟩ := gives_ofExcept_bind.mp run
  obtain ⟨keyword,locals,introduced,run⟩ := introduceUnless_run (p := _ = true) run
  obtain ⟨given,shown,last⟩ := gives_ofExcept_bind.mp run
  obtain ⟨rfl,rfl⟩ := gives_pure.mp last
  rw [Bool.decide_eq_true] at introduced
  exact ⟨names,texts,u,rest,given,keyword,locals,listed,read,taken,shown,introduced,rfl,rfl⟩

theorem signature_kept (run : Gives (signature name params decorators) s head t) :
    t.output = s.output ∧ t.current = some name := by
  obtain ⟨_,_,u,_,_,_,_,-,read,-,-,-,rfl,-⟩ := signature_run run
  have kept := (inlineEach_aside _).kept read
  have current := inlineEach_current read
  exact ⟨kept,current⟩

/-! ## Lines in front of the last entry -/

section

variable (out : s.output = .block (before ++ [code]))

include out

theorem gives_prepend :
    Gives (prepend text) s () t ↔ (∃ inner, code = .block inner) ∧
      t = { s with output := .block (before ++ [code.led [text]]) } := by
  rw [prepend,gives_editLast]
  constructor
  · rintro ⟨old,inner,same,rfl⟩
    obtain ⟨rfl,equal⟩ := List.append_inj' (Code.block.inj (out.symm.trans same)) rfl
    obtain rfl := List.singleton_inj.mp equal
    exact ⟨⟨inner,rfl⟩,rfl⟩
  · rintro ⟨⟨inner,rfl⟩,rfl⟩
    exact ⟨before,inner,out,rfl⟩

theorem gives_prependDefaults :
    Gives (prependDefaults defaults names) s () t ↔ ∃ values w,
      Gives (inlineEach defaults) s values w ∧ values.length ≤ names.length ∧
      (values = [] ∨ ∃ inner, code = .block inner) ∧ t = { w with
        output := .block (before ++ [code.led (List.zipWith defaultLine names values).reverse]) } := by
  induction defaults generalizing s names code with
  | nil =>
    have start : s = { s with output := .block (before ++ [code]) } := by rw [← out]
    constructor
    · intro run
      obtain ⟨-,rfl⟩ := gives_pure.mp run
      exact ⟨[],_,gives_all_nil.mpr ⟨rfl,rfl⟩,by simp,.inl rfl,by simpa using start⟩
    · rintro ⟨values,w,none,-,-,rfl⟩
      obtain ⟨rfl,rfl⟩ := gives_all_nil.mp none
      exact gives_pure.mpr ⟨rfl,by simpa using start.symm⟩
  | cons c defaults ih =>
    cases names with
    | nil =>
      constructor
      · intro run
        exact absurd run gives_fail
      · rintro ⟨values,w,read,short,-,-⟩
        obtain ⟨text,u,-,later,-,rfl⟩ := gives_all_cons.mp read
        cases short
    | cons name names =>
      -- Every line goes in front of the ones before it, so their order is reversed.
      have lines (text : String) (values : List String) (inner : List Code) :
          ((Code.block inner).led [defaultLine name text]).led
            (List.zipWith defaultLine names values).reverse =
          (Code.block inner).led (List.zipWith defaultLine (name :: names) (text :: values)).reverse := by
        simp [Code.led_led]
      constructor
      · intro run
        obtain ⟨text,u,read,run⟩ := gives_bind.mp run
        obtain ⟨x,put,run⟩ := gives_unit_bind.mp run
        obtain ⟨⟨inner,rfl⟩,rfl⟩ := (gives_prepend (((inline_aside c).kept read).trans out)).mp put
        obtain ⟨values,w,others,enough,-,rfl⟩ := (ih rfl).mp run
        have others := (inlineEach_aside defaults).back others
        refine ⟨text :: values,_,gives_all_cons.mpr ⟨text,u,read,values,others,rfl⟩,by simpa,
          .inr ⟨inner,rfl⟩,?_⟩
        rw [lines]
      · rintro ⟨_,w,read,enough,room,rfl⟩
        obtain ⟨text,u,first,values,others,rfl⟩ := gives_all_cons.mp read
        obtain ⟨inner,rfl⟩ := room.resolve_left (by simp)
        refine gives_bind.mpr ⟨text,u,first,gives_unit_bind.mpr ⟨_,
          (gives_prepend (((inline_aside c).kept first).trans out)).mpr ⟨⟨inner,rfl⟩,rfl⟩,
          (ih rfl).mpr ⟨values,_,(inlineEach_aside defaults).run _ others,by simpa using enough,
            .inr ⟨_,rfl⟩,?_⟩⟩⟩
        rw [← lines]
        rfl

theorem gives_prependLead :
    Gives (prependLead head defaults) s () t ↔ ∃ rest values w, restLine head.rest = .ok rest ∧
      Gives (inlineEach defaults.reverse) s values w ∧ values.length ≤ head.given.length ∧
      ((values = [] ∧ rest = none) ∨ ∃ inner, code = .block inner) ∧ t = { w with
        output := .block (before ++ [code.led (leadLines head.given values rest)]) } := by
  have lines (line : String) (values : List String) (inner : List Code) :
      ((Code.block inner).led [line]).led (List.zipWith defaultLine head.given.reverse values).reverse =
        (Code.block inner).led (leadLines head.given values (some line)) := Code.led_led ..
  rw [prependLead,gives_ofExcept_bind]
  constructor
  · rintro ⟨rest,known,run⟩
    cases rest with
    | none =>
      obtain ⟨values,w,read,enough,room,rfl⟩ := (gives_prependDefaults out).mp run
      exact ⟨none,values,w,known,read,by simpa using enough,room.imp (⟨·,rfl⟩) id,by simp [leadLines]⟩
    | some line =>
      obtain ⟨u,put,run⟩ := gives_unit_bind.mp run
      obtain ⟨⟨inner,rfl⟩,rfl⟩ := (gives_prepend out).mp put
      obtain ⟨values,w,read,enough,-,rfl⟩ := (gives_prependDefaults rfl).mp run
      refine ⟨some line,values,_,known,(inlineEach_aside _).back read,by simpa using enough,.inr ⟨inner,rfl⟩,?_⟩
      rw [lines]
  · rintro ⟨rest,values,w,known,read,enough,room,rfl⟩
    refine ⟨rest,known,?_⟩
    cases rest with
    | none =>
      exact (gives_prependDefaults out).mpr ⟨values,w,read,by simpa using enough,
        room.imp And.left id,by simp [leadLines]⟩
    | some line =>
      obtain ⟨inner,rfl⟩ := room.resolve_left (by simp)
      refine gives_unit_bind.mpr ⟨_,(gives_prepend out).mpr ⟨⟨inner,rfl⟩,rfl⟩,
        (gives_prependDefaults rfl).mpr ⟨values,_,(inlineEach_aside _).run _ read,by simpa using enough,
          .inr ⟨_,rfl⟩,?_⟩⟩
      rw [← lines]
      rfl

end

theorem gives_connectDecorators (out : s.output = .block before) :
    Gives (connectDecorators name decorators) s () t ↔ ∃ texts w, Gives (inlineEach decorators) s texts w ∧
      t = { w with output := .block (before ++ (connections name texts).map .line) } := by
  induction decorators generalizing s before with
  | nil =>
    have start : s = { s with output := .block before } := by rw [← out]
    constructor
    · intro run
      obtain ⟨-,rfl⟩ := gives_pure.mp run
      exact ⟨[],_,gives_all_nil.mpr ⟨rfl,rfl⟩,by simpa [connections] using start⟩
    · rintro ⟨texts,w,none,rfl⟩
      obtain ⟨rfl,rfl⟩ := gives_all_nil.mp none
      exact gives_pure.mpr ⟨rfl,by simpa [connections] using start.symm⟩
  | cons c decorators ih =>
    have step (text : String) {u : State} (out : u.output = .block before) : Gives (do
          if !isMethodKind text then emit (name ++ " = " ++ text ++ ":Connect(" ++ name ++ ")")
          connectDecorators name decorators) u () t ↔ ∃ texts w,
        Gives (inlineEach decorators) u texts w ∧
        t = { w with output := .block (before ++ (connections name (text :: texts)).map .line) } := by
      cases kind : isMethodKind text with
      | true => simpa [connections,kind] using ih out
      | false =>
        simp only [Bool.not_false,if_true,connections,kind,List.filter_cons_of_pos,List.map_cons]
        constructor
        · intro run
          obtain ⟨_,emitted,run⟩ := gives_unit_bind.mp run
          obtain ⟨_,same,rfl⟩ := gives_emit.mp emitted
          obtain rfl := Code.block.inj (out.symm.trans same)
          obtain ⟨texts,w,read,rfl⟩ := (ih rfl).mp run
          exact ⟨texts,_,(inlineEach_aside decorators).back read,by simp [connections]⟩
        · rintro ⟨texts,w,read,rfl⟩
          exact gives_unit_bind.mpr ⟨_,gives_emit.mpr ⟨before,out,rfl⟩,(ih rfl).mpr
            ⟨texts,_,(inlineEach_aside decorators).run _ read,by simp [connections]⟩⟩
    rw [connectDecorators,gives_bind]
    constructor
    · rintro ⟨text,u,read,run⟩
      obtain ⟨texts,w,others,rfl⟩ := (step text (((inline_aside c).kept read).trans out)).mp run
      exact ⟨_,w,gives_all_cons.mpr ⟨text,u,read,texts,others,rfl⟩,rfl⟩
    · rintro ⟨_,w,read,rfl⟩
      obtain ⟨text,u,first,texts,others,rfl⟩ := gives_all_cons.mp read
      exact ⟨text,u,first,(step text (((inline_aside c).kept first).trans out)).mpr ⟨texts,w,others,rfl⟩⟩

/-! ## The body -/

/-- The line behind the body of a generator. -/
def endLines (s : State) (name : String) : List Code :=
  if some name ∈ s.generators then [.line (generatorEnd name)] else []

def settled (s : State) (name : String) : State :=
  { s with ledger := if some name ∈ s.generators then s.ledger.need "generator" else s.ledger }

theorem endLines_of_plain (plain : some name ∉ s.generators) : endLines s name = [] := if_neg plain

theorem endLines_of_marked (marked : some name ∈ s.generators) :
    endLines s name = [.line (generatorEnd name)] := if_pos marked

theorem settled_of_marked (marked : some name ∈ s.generators) :
    settled s name = { s with ledger := s.ledger.need "generator" } := by
  simp [settled,marked]

theorem settled_of_plain (plain : some name ∉ s.generators) : settled s name = s := by
  simp [settled,plain]

theorem gives_functionBody (out : s.output = .block before) :
    Gives (functionBody name (visits config body)) s () t ↔ ∃ code v,
      Gives (functionCode config body) s code v ∧
      t = { settled v name with output := .block (before ++ code :: endLines v name) } := by
  have ends {u : State} {entries : List Code} (open' : u.output = .block entries) (v : State) : Gives (do
      if (← get).generators.contains (some name) then
        needs "generator"
        emit (generatorEnd name)) u () v ↔
      v = { settled u name with output := .block (entries ++ endLines u name) } := by
    rw [gives_get_bind,settled,endLines]
    by_cases marked : some name ∈ u.generators
    · simp [marked,open']
    · simp [marked,← open']
  have start (frames : Frames Frame) : ({ s with frames } : State).output = .block before := out
  simp only [functionBody,functionCode,gives_within]
  constructor
  · rintro ⟨u,frames,inside,popped,rfl⟩
    obtain ⟨_,blocked,last⟩ := gives_unit_bind.mp inside
    obtain ⟨code,v,coded,rfl⟩ := (gives_block_code (start _)).mp blocked
    obtain rfl := (ends rfl u).mp last
    refine ⟨code,_,⟨v,frames,coded,popped,rfl⟩,?_⟩
    simp [settled,endLines]
  · rintro ⟨code,_,⟨v,frames,coded,popped,rfl⟩,rfl⟩
    refine ⟨_,frames,gives_unit_bind.mpr ⟨_,(gives_block_code (start _)).mpr ⟨code,v,coded,rfl⟩,
      (ends rfl _).mpr rfl⟩,popped,?_⟩
    simp [settled,endLines]

/-! ## The whole definition -/

theorem gives_prependLead_behind : Gives (prependLead head defaults)
        { settled v name with output := .block (before ++ code :: endLines v name) } () t ↔
      ∃ rest values w, restLine head.rest = .ok rest ∧
        Gives (inlineEach defaults.reverse) (settled v name) values w ∧
        values.length ≤ head.given.length ∧
        ((values = [] ∧ rest = none) ∨ some name ∉ v.generators ∧ ∃ inner, code = .block inner) ∧
        t = { w with output := .block (before ++ code.led (leadLines head.given values rest) ::
          endLines v name) } := by
  by_cases marked : some name ∈ v.generators
  -- The last entry is the end line, which is no block.
  · have entries : before ++ code :: endLines v name =
        before ++ [code] ++ [.line (generatorEnd name)] := by simp [endLines,marked]
    rw [entries,gives_prependLead rfl]
    constructor
    · rintro ⟨rest,values,w,known,read,enough,room,rfl⟩
      obtain ⟨rfl,rfl⟩ := room.resolve_right (by simp)
      exact ⟨none,[],_,known,(inlineEach_aside _).back read,enough,.inl ⟨rfl,rfl⟩,
        by simp [leadLines,endLines,marked]⟩
    · rintro ⟨rest,values,w,known,read,enough,room,rfl⟩
      obtain ⟨rfl,rfl⟩ := room.resolve_right fun plain => plain.1 marked
      exact ⟨none,[],_,known,(inlineEach_aside _).run _ read,enough,.inl ⟨rfl,rfl⟩,
        by simp [leadLines,endLines,marked]⟩
  · have entries : before ++ code :: endLines v name = before ++ [code] := by simp [endLines,marked]
    rw [entries,gives_prependLead rfl]
    constructor
    · rintro ⟨rest,values,w,known,read,enough,room,rfl⟩
      exact ⟨rest,values,_,known,(inlineEach_aside _).back read,enough,room.imp id (⟨marked,·⟩),
        by simp [endLines,marked]⟩
    · rintro ⟨rest,values,w,known,read,enough,room,rfl⟩
      exact ⟨rest,values,_,known,(inlineEach_aside _).run _ read,enough,room.imp id And.right,
        by simp [endLines,marked]⟩

/-- A definition is compiled if and only if all its parts are, one after the other, and the entry
behind which the lines of the parameters are put is a block or there are no such lines. -/
theorem gives_definition {decorators : List Node} :
    Gives (visit config (.functionDef false (some name) params body decorators returns comment)) s () t ↔
      ∃ before head u code v rest values w connected x, s.output = .block before ∧
        Gives (signature name params (visits config decorators)) s head u ∧
        Gives (functionCode config body) u code v ∧ restLine head.rest = .ok rest ∧
        Gives (inlineEach (visits config params.paramDefaults.reverse)) (settled v name) values w ∧
        values.length ≤ head.given.length ∧
        ((values = [] ∧ rest = none) ∨ some name ∉ v.generators ∧ ∃ inner, code = .block inner) ∧
        Gives (inlineEach (visits config decorators.reverse)) w connected x ∧
        t = { x with
          current := none
          output := .block (before ++ .line head.line :: code.led (leadLines head.given values rest) ::
            endLines v name ++ .line "end" :: (connections head.fullName connected).map .line) } := by
  change Gives (functionDefinition (some name) params (visits config decorators) (visits config body)
    (defaultsOf config params)) s () t ↔ _
  rw [← defaultsOf_reverse config,← visits_reverse config decorators,functionDefinition_eq]
  constructor
  · intro run
    obtain ⟨head,u,signed,run⟩ := gives_bind.mp run
    obtain ⟨_,emitted,run⟩ := gives_unit_bind.mp run
    obtain ⟨before,out,rfl⟩ := gives_emit.mp emitted
    obtain ⟨_,ran,run⟩ := gives_unit_bind.mp run
    obtain ⟨code,v,coded,rfl⟩ := (gives_functionBody rfl).mp ran
    obtain ⟨_,led,run⟩ := gives_unit_bind.mp run
    obtain ⟨rest,values,w,known,read,enough,room,rfl⟩ := gives_prependLead_behind.mp led
    obtain ⟨_,ended,run⟩ := gives_unit_bind.mp run
    obtain ⟨_,same,rfl⟩ := gives_emit.mp ended
    obtain rfl := Code.block.inj same
    obtain ⟨_,connecting,last⟩ := gives_unit_bind.mp run
    obtain ⟨connected,x,again,rfl⟩ := (gives_connectDecorators rfl).mp connecting
    obtain rfl := gives_update.mp last
    have read := (inlineEach_aside _).run u.output read
    have again := (inlineEach_aside _).run u.output again
    exact ⟨before,head,u,code,_,rest,values,_,connected,_,(signature_kept signed).1.symm.trans out,
      signed,(functionCode_aside body).back coded,known,read,enough,room,again,by simp [endLines]⟩
  · rintro ⟨before,head,u,code,v,rest,values,w,connected,x,out,signed,coded,known,read,enough,room, again,rfl⟩
    have coded := (functionCode_aside body).run (.block (before ++ [.line head.line])) coded
    have again (out : Code) := (inlineEach_aside _).run out again
    have led : Gives (prependLead head (defaultsOf config params)) { settled v name with
          output := .block (before ++ [.line head.line] ++ code :: endLines v name) } ()
        { w with output := .block (before ++ [.line head.line] ++
          code.led (leadLines head.given values rest) :: endLines v name) } :=
      gives_prependLead_behind.mpr ⟨rest,values,w,known,read,enough,room,rfl⟩
    refine gives_bind.mpr ⟨head,u,signed,gives_unit_bind.mpr ⟨_,
      gives_emit.mpr ⟨before,(signature_kept signed).1.trans out,rfl⟩,gives_unit_bind.mpr ⟨_,
      (gives_functionBody rfl).mpr ⟨code,_,coded,rfl⟩,gives_unit_bind.mpr ⟨_,led,
      gives_unit_bind.mpr ⟨_,gives_emit.mpr ⟨_,rfl,rfl⟩,gives_unit_bind.mpr ⟨_,
      (gives_connectDecorators rfl).mpr ⟨connected,_,again _,rfl⟩,
      gives_update.mpr ?_⟩⟩⟩⟩⟩⟩
    simp

theorem definition_named {decorators : List Node} {name : Option String}
    (run : Gives (visit config (.functionDef false name params body decorators returns comment)) s () t) :
    ∃ own, name = some own := by
  cases name with
  | some own => exact ⟨own,rfl⟩
  | none =>
    obtain ⟨_,-,run⟩ := gives_ofExcept_bind.mp run
    obtain ⟨_,_,-,run⟩ := gives_bind.mp run
    obtain ⟨_,_,-,run⟩ := gives_bind.mp run
    obtain ⟨_,_,-,run⟩ := gives_bind.mp run
    obtain ⟨_,_,-,run⟩ := gives_bind.mp run
    obtain ⟨_,-,run⟩ := gives_ofExcept_bind.mp run
    obtain ⟨_,-,run⟩ := gives_ofExcept_bind.mp run
    obtain ⟨_,named,-⟩ := gives_ofExcept_bind.mp run
    cases named

/-! ## Classes -/

def classEntries (header returned : String) (bases : List String) (code : List Code) : List Code :=
  [.line header,.block (code ++ [.line ("return " ++ returned)]),
    .line ("end, \x7b" ++ Text.commaSeparated bases ++ "\x7d)")]

theorem class_run {bases decorators : List Node}
    (run : Gives (visit config (.classDef (some name) bases keywords body decorators)) s () t) :
    ∃ before texts u keyword locals code v, ∃ returns : Bool, s.output = .block before ∧
      Gives (inlineEach (visits config bases)) s texts u ∧
      IntroducesIf u.frames.top.className.isEmpty u.scene name keyword { u with locals }.scene ∧
      Gives (within (fun f => { f with className := name }) (bodyCode config body))
        { u with locals, ledger := u.ledger.need "class" } (.block code) v ∧
      t = { v with output := .block (before ++ classEntries (keyword ++
        qualified u.frames.top.className name ++ " = class(function(" ++ name ++ ")") name texts code ++
        if returns then [.line ("return " ++ qualified u.frames.top.className name)] else []) } := by
  obtain ⟨texts,u,read,run⟩ := gives_bind.mp run
  rw [gives_frame_bind] at run
  obtain ⟨keyword,locals,introduced,run⟩ := introduceIf_run (p := _ = true) run
  rw [qualifiedName_some] at run
  obtain ⟨_,emitted,run⟩ := gives_unit_bind.mp run
  obtain ⟨before,out,rfl⟩ := gives_emit.mp emitted
  rw [gives_needs_bind] at run
  obtain ⟨_,inside,run⟩ := gives_unit_bind.mp run
  obtain ⟨code,v,coded,rfl⟩ := (gives_within_block rfl).mp inside
  obtain ⟨_,edited,run⟩ := gives_unit_bind.mp run
  obtain ⟨_,code,same,rfl⟩ := gives_editLast.mp edited
  obtain ⟨rfl,last⟩ := List.append_inj' (Code.block.inj same) rfl
  obtain rfl := List.singleton_inj.mp last
  have run := emit_bind_run run rfl
  obtain ⟨returns,-,run⟩ := gives_ofExcept_bind.mp run
  have filled := (Aside.within _ (bodyCode_aside body)).run u.output coded
  rw [Bool.decide_eq_true] at introduced
  refine ⟨before,texts,u,keyword,locals,code,_,returns && u.frames.top.className.isEmpty,
    ((inlineEach_aside _).kept read).symm.trans out,read,introduced,filled,?_⟩
  split at run
  · rename_i both
    obtain rfl := emit_run run rfl
    simp [both,classEntries,shownName]
  · rename_i neither
    obtain ⟨-,rfl⟩ := gives_pure.mp run
    simp [neither,classEntries,shownName]

/-! ## Items of a with statement -/

theorem itemTexts_of_gives (out : Code)
    (run : Gives (all ((itemsOf config items).map withItemLine)) s lines t) :
    ItemTexts config { s with output := out } items lines { t with output := out } ∧ t.output = s.output := by
  induction items generalizing s lines with
  | nil =>
    obtain ⟨rfl,rfl⟩ := gives_all_nil.mp run
    exact ⟨.nil,rfl⟩
  | cons item items ih =>
    obtain ⟨line,u,first,later,rest,rfl⟩ := gives_all_cons.mp run
    obtain ⟨others,kept⟩ := ih rest
    cases item with
    | withItem context vars =>
      by_cases absent : vars.isAbsent = true
      · have vacant : vars = .absent := by
          cases vars with
          | absent => rfl
          | _ => cases absent
        subst vacant
        obtain ⟨text,v,read,last⟩ := gives_bind.mp (gives_pure_bind.mp first)
        obtain ⟨rfl,rfl⟩ := gives_pure.mp last
        rw [String.empty_append]
        exact ⟨.bare ((inline_aside _).run out read) others,kept.trans ((inline_aside _).kept read)⟩
      · have given : part? vars (visit config vars) = some (visit config vars) := if_neg absent
        simp only [itemOf,withItemLine,given] at first
        obtain ⟨name,v,named,first⟩ := gives_bind.mp first
        obtain ⟨text,w,read,last⟩ := gives_bind.mp (gives_pure_bind.mp first)
        obtain ⟨rfl,rfl⟩ := gives_pure.mp last
        exact ⟨.bound (Bool.eq_false_iff.mpr absent) ((inline_aside _).run out named)
            ((inline_aside _).run out read) others,
          kept.trans (((inline_aside _).kept read).trans ((inline_aside _).kept named))⟩
    | _ => exact absurd first gives_fail

/-- Lines that are put in front one by one end up in the opposite order. -/
theorem prepends_led (run : Gives (each (lines.map prepend)) s () t)
    (out : s.output = .block (before ++ [code])) :
    (lines = [] ∨ ∃ entries, code = .block entries) ∧
      t = { s with output := .block (before ++ [code.led lines.reverse]) } := by
  induction lines generalizing s code with
  | nil =>
    rw [gives_each_nil.mp run]
    simp [← out]
  | cons line lines ih =>
    obtain ⟨u,put,rest⟩ := gives_each_cons.mp run
    obtain ⟨room,rfl⟩ := (gives_prepend out).mp put
    obtain ⟨-,rfl⟩ := ih rest rfl
    exact ⟨.inr room,by rw [Code.led_led,List.reverse_cons]⟩

theorem with_run (run : Gives (withStatement first last (itemsOf config items) (visits config body)) s () t) :
    ∃ before code lines u v, s.output = .block before ∧ Gives (bodyCode config body) s code u ∧
      ItemTexts config u items lines v ∧ (lines = [] ∨ ∃ entries, code = .block entries) ∧
      t = { v with output := .block (before ++ [.line first,code.led lines.reverse,.line last]) } := by
  obtain ⟨v,opened,run⟩ := gives_unit_bind.mp run
  obtain ⟨before,out,rfl⟩ := gives_emit.mp opened
  obtain ⟨w,filled,run⟩ := gives_unit_bind.mp run
  obtain ⟨code,x,coded,rfl⟩ := bodyCode_of_block filled rfl
  obtain ⟨lines,y,reading,run⟩ := gives_bind.mp run
  obtain ⟨texts,kept⟩ := itemTexts_of_gives s.output reading
  obtain ⟨z,put,run⟩ := gives_unit_bind.mp run
  obtain ⟨room,rfl⟩ := prepends_led put kept
  obtain rfl := emit_run run rfl
  exact ⟨before,code,lines,_,_,out,(bodyCode_aside body).back coded,texts,room,by simp⟩

/-! ## Handlers -/

theorem handlerBody_run {h : Catcher} {i : Nat} (out : s.output = .block before)
    (run : Gives (handlerBody (i = 0) (some ⟨h.type,h.name,visits config h.body⟩)) s a t) :
    ∃ code u, Gives (bodyCode config h.body) s code u ∧
      t = { u with output := .block (before ++ h.head i ++ [code]) } := by
  have filled {entries : List Code}
      (run : Gives (block (visits config h.body)) { s with output := .block (before ++ entries) } a t) :
      ∃ code u, Gives (bodyCode config h.body) s code u ∧
        t = { u with output := .block (before ++ entries ++ [code]) } := by
    obtain ⟨code,u,coded,rfl⟩ := bodyCode_of_block run rfl
    exact ⟨code,_,(bodyCode_aside h.body).back coded,rfl⟩
  simp only [handlerBody] at run
  unfold Catcher.head Catcher.isNamed
  split at run
  next named =>
    rw [if_pos named]
    obtain ⟨_,v,headed,run⟩ := gives_bind.mp run
    apply filled
    have headed := emit_bind_run headed out
    cases bound : h.name with
    | none =>
      rw [bound] at headed
      obtain ⟨-,rfl⟩ := gives_pure.mp headed
      simpa [handlerHead,Catcher.errorName] using run
    | some name =>
      rw [bound] at headed
      obtain rfl := emit_run headed rfl
      simpa [handlerHead,Catcher.errorName] using run
  next other =>
    rw [if_neg other]
    exact filled (by simpa [← out] using run)

end Compile

end LuauCompiler
