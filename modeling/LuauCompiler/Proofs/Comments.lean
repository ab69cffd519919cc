import LuauCompiler.Proofs.Stacks

/-! Which texts are comments. The mark of a frame decides whether a text is emitted as a comment or as a
literal. An expression statement sets the mark for its value, and no other rule touches it. -/
namespace LuauCompiler.Compile

variable {α : Type} {b : Bool}

/-- The steps do the same under frames with the mark, and a success of the first leaves the frames as
they were. -/
structure Coincide (b : Bool) (c d : Compile α) : Prop where
  run : ∀ s, s.frames.top.docstring = b → d s = c s
  kept : ∀ {s a t}, Gives c s a t → t.frames = s.frames

namespace Coincide

theorem closed (built : Built c) : Coincide b c c :=
  ⟨fun _ _ => rfl,fun run => ((built.follows stackLaw).kept run).frames⟩

theorem bind (first : Coincide b c d) (rest : ∀ a, Coincide b (f a) (g a)) :
    Coincide b (c >>= f) (d >>= g) := by
  refine ⟨fun s marked => ?_,fun run => ?_⟩
  · simp only [Bind.bind,first.run s marked]
    split
    · rename_i a t ran
      exact (rest a).run t (first.kept ran ▸ marked)
    · rfl
  · obtain ⟨a,u,ran,run⟩ := gives_bind.mp run
    exact ((rest a).kept run).trans (first.kept ran)

theorem nested (step : Coincide b c d) : Coincide b (nested c) (nested d) := by
  refine ⟨fun s marked => ?_,fun run => ?_⟩
  · simp only [Compile.nested,step.run { s with output := .block [] } marked]
  · obtain ⟨t,ran,_,rfl⟩ := gives_nested.mp run
    have same : t.frames = _ := step.kept ran
    exact same

theorem within (step : Coincide e c d) (marks : ∀ f, f.docstring = b → (change f).docstring = e) :
    Coincide b (within change c) (within change d) := by
  refine ⟨fun s marked => ?_,fun run => ?_⟩
  · simp only [Compile.within,Bind.bind,update,
      step.run { s with frames := s.frames.push change } (marks _ marked)]
  · obtain ⟨t,frames,ran,popped,rfl⟩ := gives_within.mp run
    have same : t.frames = _ := step.kept ran
    rw [same] at popped
    cases popped
    rfl

theorem openBlock : Coincide b (update State.openBlock) (update State.openBlock) :=
  ⟨fun _ _ => rfl,fun run => by rw [gives_update.mp run]; rfl⟩

theorem closeBlock : Coincide b closeBlock closeBlock := by
  refine ⟨fun _ _ => rfl,fun run => ?_⟩
  obtain ⟨locals,_,rfl⟩ := gives_closeBlock.mp run
  rfl

theorem spread (step : Coincide b c d) : Coincide b (spread c) (spread d) := by
  refine bind openBlock fun _ => bind (nested step) fun body =>
    bind (closed (emitEntries_built _)) fun _ => ?_
  split
  · exact bind (closed (emitEntries_built _)) fun _ => closeBlock
  · exact bind (closed (.fail _)) fun _ => closeBlock

end Coincide

theorem congruence_coincide (b : Bool) : Congruence (Coincide b) where
  closed := .closed
  bind := .bind
  ask rest _ := ⟨fun s marked => (rest s).run s marked,fun run => (rest _).kept run⟩
  nested := .nested
  inClass _ step := .within step fun _ marked => marked
  loop step := .bind ⟨fun _ _ => rfl,fun run => by cases run; rfl⟩ fun _ => .within step fun _ marked => marked
  scope step := .bind .openBlock fun _ => .bind step fun _ => .closeBlock

theorem expressionStatement_coincide (value : Node) (step : Coincide value.constant?.isSome c c') :
    Coincide b (expressionStatement value c) (expressionStatement value c') := by
  have marked : Coincide b (do
        within (fun f => { f with docstring := value.constant?.isSome }) (spread c)
        emitEntry .void)
      (do
        within (fun f => { f with docstring := value.constant?.isSome }) (spread c')
        emitEntry .void) :=
    .bind (.within step.spread fun _ _ => rfl) fun _ => .closed (emitEntry_built _)
  unfold expressionStatement
  split
  · exact .bind (.closed (recordConstant_built _)) fun _ => marked
  · exact marked

/-- The mark under which a rule visits its parts, if it has found the given one. -/
def markOf (b : Bool) : Node → Bool
  | .exprStmt value => value.constant?.isSome
  | _ => b

theorem visitWith_coincide (config : Option Config) (n : Node)
    (parts : ∀ k, Coincide (markOf b n) (part k) (part' k)) :
    Coincide b (visitWith part config n) (visitWith part' config n) := by
  cases n with
  | exprStmt value => exact expressionStatement_coincide value (parts value)
  | _ => exact visitWith_alike (congruence_coincide b) config (by simp) fun k _ => parts k

theorem calls_mark (calls : Calls config n s m t) :
    t.frames.top.docstring = markOf s.frames.top.docstring n := by
  obtain ⟨part,elsewhere,differs⟩ := calls
  refine Classical.byContradiction fun other => differs ?_
  have parts (k : Node) : Coincide (markOf s.frames.top.docstring n) (visit config k) (part k) :=
    ⟨fun u marked => elsewhere k u fun _ here => other (here ▸ marked),
      fun run => ((visit_follows stackLaw config k).kept run).frames⟩
  rw [visit_eq_visitWith]
  exact (visitWith_coincide config n parts).run s rfl

theorem calls_value (calls : Calls config (.exprStmt value) s m t) : m = value := by
  obtain ⟨part,elsewhere,differs⟩ := calls
  refine Classical.byContradiction fun other => differs ?_
  have same : part value = visit config value :=
    funext fun u => elsewhere value u fun here => absurd here.symm other
  rw [visit_eq_visitWith,visitWith,visitWith,same]

theorem constant_calls_nothing : ¬ Calls config (.constant c kind) s m t := by
  rintro ⟨part,_,differs⟩
  exact differs rfl

/-- A node is visited under the mark exactly if it is a constant and the value of an expression
statement. -/
theorem visited_mark (unmarked : start.frames.top.docstring = false)
    (visited : Visited config root start caller n s) :
    s.frames.top.docstring = true ↔ caller = some (.exprStmt n) ∧ n.constant?.isSome = true := by
  induction visited with
  | root => simp [unmarked]
  | @part caller n m s t _ calls ih =>
    rw [calls_mark calls]
    cases n with
    | exprStmt value =>
      obtain rfl := calls_value calls
      simp [markOf]
    | constant => exact absurd calls constant_calls_nothing
    | _ => simpa [markOf,Node.constant?] using ih

def commentText (text : String) : String := "--[[ " ++ text ++ " ]]"

theorem commentText_ne_quote (text : String) : commentText text ≠ Text.quote text := by
  intro same
  have heads : '-' = Text.quotationMark text.toList := by
    simpa [commentText,Text.quote,Text.quoteChars] using congrArg (·.toList.head?) same
  unfold Text.quotationMark at heads
  split at heads <;> exact absurd heads (by decide)

/-- While a tree is compiled from a frame without the mark, a text is emitted as a comment if it is
visited as the value of an expression statement, and as a literal if any other rule visits it. -/
theorem text_is_comment_iff_statement {config : Option Config} {root : Node} {start t : State}
    {caller : Option Node} {text : String} {kind : Option String}
    (unmarked : start.frames.top.docstring = false)
    (visited : Visited config root start caller (.constant (.str text) kind) t) :
    (caller = some (.exprStmt (.constant (.str text) kind)) →
      visit config (.constant (.str text) kind) t = emit (commentText text) t) ∧
    (caller ≠ some (.exprStmt (.constant (.str text) kind)) →
      visit config (.constant (.str text) kind) t = emit (Text.quote text) t) ∧
    ∀ u, Gives (visit config (.constant (.str text) kind)) t () u → ∃ before, t.output = .block before ∧
        (u.output = .block (before ++ [.line (commentText text)]) ↔
          caller = some (.exprStmt (.constant (.str text) kind))) ∧
        (u.output = .block (before ++ [.line (Text.quote text)]) ↔
          caller ≠ some (.exprStmt (.constant (.str text) kind))) := by
  have mark := visited_mark unmarked visited
  simp only [Node.constant?,Option.isSome_some,and_true] at mark
  have emitted : visit config (.constant (.str text) kind) t =
      (if t.frames.top.docstring then emit (commentText text) else emit (Text.quote text)) t := rfl
  by_cases documents : caller = some (.exprStmt (.constant (.str text) kind))
  · rw [if_pos (mark.mpr documents)] at emitted
    refine ⟨fun _ => emitted,fun other => absurd documents other,fun u run => ?_⟩
    rw [Gives,emitted] at run
    obtain ⟨before,out,rfl⟩ := gives_emit.mp run
    simp [out,documents,commentText_ne_quote]
  · rw [if_neg (fun marked => documents (mark.mp marked))] at emitted
    refine ⟨fun same => absurd same documents,fun _ => emitted,fun u run => ?_⟩
    rw [Gives,emitted] at run
    obtain ⟨before,out,rfl⟩ := gives_emit.mp run
    simp [out,documents,Ne.symm (commentText_ne_quote text)]

def greeting : Node := .constant (.str "hello") none

/-- A text is a comment where it stands as a statement, and a literal where it stands in a list that
is a statement. -/
theorem greeting_visits :
    (∃ t, Visited none (.exprStmt greeting) (.initial .empty) (some (.exprStmt greeting)) greeting t ∧
      visit none greeting t = emit (commentText "hello") t) ∧
    ∃ t, Visited none (.exprStmt (.list [greeting] .absent)) (.initial .empty)
        (some (.list [greeting] .absent)) greeting t ∧
      visit none greeting t = emit (Text.quote "hello") t := by
  obtain ⟨t,documents⟩ := statement_calls_value none greeting (.initial .empty)
  have stated := Visited.part .root documents
  obtain ⟨u,outer⟩ := statement_calls_value none (.list [greeting] .absent) (.initial .empty)
  have listed := Visited.part (.part .root outer) (list_calls_head none greeting [] .absent _)
  exact ⟨⟨_,stated,(text_is_comment_iff_statement rfl stated).1 rfl⟩,
    ⟨_,listed,(text_is_comment_iff_statement rfl listed).2.1 (by simp)⟩⟩

end LuauCompiler.Compile
