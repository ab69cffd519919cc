import LuauCompiler.Proofs.ClassAtHand
import LuauCompiler.Proofs.FunctionAtHand
import LuauCompiler.Proofs.Outcomes
import LuauCompiler.Proofs.Statements
import Mathlib.Data.List.Forall2

/-! The two forms of a loop. A loop over a call is written as a loop over a generator if the function
is marked by then, and the line that closes its block tells which form it has. Which blocks there are
hangs on the tree alone, so the closing lines of two compilations can be compared one by one. -/
namespace LuauCompiler

/-! ## Closing lines -/

/-- The line closes a loop over a generator. -/
def Code.closesGenerator : Code → Bool
  | .line text => text == "end)"
  | .block _ | .void => false

/-- What is behind the entries that come first, where `next` tells of what is behind all of them. -/
def behind (next : Bool) : List Code → Bool
  | [] => next
  | entry :: _ => entry.closesGenerator

mutual

/-- Whether the blocks of an entry, and the entry itself if it is one, are closed like loops over
generators. -/
def Code.closing (next : Bool) : Code → List Bool
  | .block body => closings false body ++ [next]
  | .line _ | .void => []

def closings (next : Bool) : List Code → List Bool
  | [] => []
  | entry :: rest => entry.closing (behind next rest) ++ closings next rest

end

theorem closings_append (next : Bool) (xs ys : List Code) :
    closings next (xs ++ ys) = closings (behind next ys) xs ++ closings next ys := by
  induction xs with
  | nil => simp [closings]
  | cons x xs ih =>
    have same : behind next (xs ++ ys) = behind (behind next ys) xs := by cases xs <;> rfl
    simp [closings,ih,same]

@[simp] theorem closings_lines (next : Bool) (lines : List String) :
    closings next (lines.map .line) = [] := by
  induction lines with
  | nil => rfl
  | cons text rest ih => simpa [closings,Code.closing] using ih

/-- The closing lines fit a pattern: where it says so, they are those of generators exactly if `m`
says so. -/
def Fits (m : Bool) : List Bool → List Bool → Prop :=
  List.Forall₂ fun asked closing => asked = true → closing = m

theorem Fits.append (first : Fits m p xs) (second : Fits m q ys) : Fits m (p ++ q) (xs ++ ys) :=
  List.rel_append first second

theorem Fits.ne (plain : Fits false pattern xs) (marked : Fits true pattern ys)
    (asked : true ∈ pattern) : xs ≠ ys := by
  rintro rfl
  induction plain with
  | nil => cases asked
  | cons own _ ih =>
    cases marked with
    | cons other others =>
      rcases List.mem_cons.mp asked with rfl | later
      · exact Bool.false_ne_true ((own rfl).symm.trans (other rfl))
      · exact ih later others

/-- No block is at the end of the code, where a line could still be put into it. -/
def IsOpen (before : List Code) : Prop := ∀ front body, before ≠ front ++ [.block body]

theorem isOpen_nil : IsOpen [] := by
  intro front body same
  cases front <;> cases same

theorem isOpen_concat_line (front : List Code) (text : String) : IsOpen (front ++ [.line text]) := by
  intro other body same
  cases (List.append_inj' same rfl).2

/-- The closing lines of what was emitted behind `before` fit the pattern. -/
def Outline (m : Bool) (before : List Code) (pattern : List Bool) (out : Code) : Prop :=
  ∃ more, out = .block (before ++ more) ∧ ∀ next, Fits m pattern (closings next more)

/-! ## Functions that are known as generators -/

namespace Compile

/-- Either the function is marked as a generator, or it is neither marked nor at hand. -/
def Known (f : String) : Bool → View → Prop
  | true,v => some f ∈ v.generators
  | false,v => some f ∉ v.generators ∧ v.current ≠ some f

variable {α β : Type} {f : String} {m : Bool} {s t : State}

theorem Known.of_explained (known : Known f m v) (explains : Explains cause v w)
    (other : v.current ≠ some f → ¬ cause (some f))
    (current : w.current = v.current ∨ w.current = none) : Known f m w := by
  cases m with
  | true => exact explains.grows.subset known
  | false =>
    refine ⟨fun member => ?_,?_⟩
    · exact (explains.marked _ member).elim known.1 (other known.2)
    · rcases current with same | none
      · rw [same]
        exact known.2
      · simp [none]

theorem marked_ne (avoids : Avoids config (some f) p.2) (other : p.1 ≠ some f) : ¬ Marked config p (some f) :=
  fun ⟨_,comes⟩ => Comes.current_ne comes avoids (by simp) other rfl

theorem Known.path (known : Known f m v) (path : Path config (fun _ => False) ps v w)
    (avoids : ∀ q ∈ ps, Avoids config (some f) q.2) (functions : ∀ q ∈ ps, q.1 = v.current ∨ q.1 = none)
    (current : w.current = v.current) : Known f m w := by
  refine known.of_explained (path.explains fun q _ => visit_explained config q.2) ?_ (.inl current)
  rintro other (⟨⟨⟩⟩ | ⟨q,part,marked⟩)
  refine marked_ne (avoids q part) ?_ marked
  rcases functions q part with same | none
  · rw [same]
    exact other
  · simp [none]

theorem Known.inners (known : Known f m v) (avoids : ∀ n ∈ ns, Avoids config (some f) n)
    (inners : Inners config ns v w) : Known f m w :=
  known.path (inners_path inners) (by simpa using avoids) (by simp) (inners_current inners)

theorem Known.row (known : Known f m s.view) (avoids : ∀ n ∈ ns, Avoids config (some f) n)
    (run : Gives (each (visits config ns)) s () t) : Known f m { t.view with current := s.current } :=
  known.path (inner_path ⟨s,t,run,rfl,rfl⟩) (fun q part => avoids q.2 (mem_of_rowParts part))
    (fun _ => rowParts_current) rfl

theorem Known.visit (known : Known f m s.view) (avoids : Avoids config (some f) n)
    (run : Gives (visit config n) s () t) : Known f m t.view := by
  refine known.of_explained (visit_explained config n s t run) (marked_ne (p := (s.current,n)) avoids) ?_
  have current : t.view.current = keptUnless n.exits s.view.current := visit_current n run
  rw [current]
  cases n.exits with
  | true => exact .inr rfl
  | false => exact .inl rfl

/-! ## Steps and the blocks that they add -/

def Blockless (c : Compile α) : Prop := ∀ m before pattern s a t, IsOpen before →
  Outline m before pattern s.output → Gives c s a t → Outline m before pattern t.output

/-- The function is known, and the closing lines of what was emitted fit the pattern. -/
structure Drawn (f : String) (m : Bool) (before : List Code) (pattern : List Bool) (s : State) :
    Prop where
  known : Known f m s.view
  code : Outline m before pattern s.output

/-- The step adds blocks whose closing lines fit the pattern. -/
def Draws (f : String) (m : Bool) (pattern : List Bool) (c : Compile α) : Prop :=
  ∀ before earlier s a t, IsOpen before → Drawn f m before earlier s → Gives c s a t →
    Drawn f m before (earlier ++ pattern) t

theorem editLast_behind (isOpen : IsOpen before) (out : s.output = .block (before ++ more))
    (run : Gives (editLast change) s a t) : ∃ others body, more = others ++ [.block body] ∧
      t = { s with output := .block (before ++ (others ++ [.block (change body)])) } := by
  obtain ⟨front,body,read,rfl⟩ := gives_editLast.mp run
  have whole := Code.block.inj (out.symm.trans read)
  rcases List.eq_nil_or_concat more with rfl | ⟨others,last,rfl⟩
  · exact (isOpen front body (by simpa using whole)).elim
  · rw [List.concat_eq_append,← List.append_assoc] at whole
    obtain ⟨rfl,single⟩ := List.append_inj' whole rfl
    obtain rfl := List.singleton_inj.mp single
    exact ⟨others,body,by simp,by simp⟩

namespace Blockless

theorem bind (first : Blockless c) (rest : ∀ a, Blockless (g a)) : Blockless (c >>= g) := by
  intro m before pattern s b t isOpen outline run
  obtain ⟨a,u,ran,later⟩ := gives_bind.mp run
  exact rest a m before pattern u b t isOpen (first m before pattern s a u isOpen outline ran) later

theorem aside (same : ∀ s a t, Gives c s a t → t.output = s.output) : Blockless c := by
  intro m before pattern s a t _ outline run
  rw [same s a t run]
  exact outline

theorem of_preserves (same : ∀ P, Preserves P c) : Blockless c :=
  aside fun s _ _ run => (same (· = s.output)).holds run rfl

theorem pure (a : α) : Blockless (Pure.pure a) := aside fun _ _ _ run => by rw [(gives_pure.mp run).2]

theorem ofExcept (e : Except Failure α) : Blockless (Compile.ofExcept e) :=
  aside fun _ _ _ run => by rw [(gives_ofExcept.mp run).2]

theorem update (same : ∀ s, (change s).output = s.output) : Blockless (Compile.update change) :=
  aside fun s _ _ run => by rw [gives_update.mp run,same]

theorem get : Blockless Compile.get := aside fun _ _ _ run => by rw [(gives_get.mp run).2]

theorem ite [Decidable p] (yes : Blockless c) (no : Blockless d) : Blockless (if p then c else d) := by
  split
  · exact yes
  · exact no

theorem inline (c : Compile Unit) : Blockless (Compile.inline c) := of_preserves fun _ => inline_preserves c

theorem inlineEach (cs : List (Compile Unit)) : Blockless (Compile.inlineEach cs) :=
  of_preserves fun _ => inlineEach_preserves cs

theorem introduce (name : Option String) : Blockless (Compile.introduce name) :=
  aside fun s keyword t run => by
    rcases gives_introduce.mp run with ⟨-,-,rfl⟩ | ⟨-,-,locals,-,rfl⟩ <;> rfl

theorem emitEntries (lines : ∀ next, closings next entries = []) :
    Blockless (Compile.emitEntries entries) := by
  rintro m before pattern s a t - ⟨more,out,fits⟩ run
  obtain ⟨all,read,rfl⟩ := gives_emitEntries.mp run
  obtain rfl := Code.block.inj (out.symm.trans read)
  refine ⟨more ++ entries,by simp,fun next => ?_⟩
  rw [closings_append,lines,List.append_nil]
  exact fits _

theorem emit (text : String) : Blockless (Compile.emit text) :=
  emitEntries fun next => closings_lines next [text]

theorem editLast (same : ∀ body, closings false (change body) = closings false body) :
    Blockless (Compile.editLast change) := by
  rintro m before pattern s a t isOpen ⟨more,out,fits⟩ run
  obtain ⟨others,body,rfl,rfl⟩ := editLast_behind isOpen out run
  refine ⟨_,rfl,fun next => ?_⟩
  have before := fits next
  rw [closings_append] at before ⊢
  simpa [closings,Code.closing,behind,Code.closesGenerator,same] using before

end Blockless

namespace Draws

theorem blockless (takes : Takes config ns c) (avoids : ∀ n ∈ ns, Avoids config (some f) n)
    (blockless : Blockless c) : Draws f m [] c := by
  intro before earlier s a t isOpen drawn run
  rw [List.append_nil]
  exact ⟨drawn.known.inners avoids (takes.run s a t run),
    blockless m before earlier s a t isOpen drawn.code run⟩

theorem quiet (takes : Takes none [] c) (blockless : Blockless c) : Draws f m [] c :=
  .blockless takes (by simp) blockless

theorem bind (first : Draws f m pattern c) (rest : ∀ a, (∃ u v, Gives c u a v) → Draws f m more (g a)) :
    Draws f m (pattern ++ more) (c >>= g) := by
  intro before earlier s b t isOpen drawn run
  obtain ⟨a,u,ran,later⟩ := gives_bind.mp run
  rw [← List.append_assoc]
  exact rest a ⟨s,u,ran⟩ before _ u b t isOpen (first before earlier s a u isOpen drawn ran) later

theorem given (first : Draws f m [] c)
    (rest : ∀ a, (∃ u v, Gives c u a v) → Draws f m more (g a)) : Draws f m more (c >>= g) :=
  first.bind rest

theorem after (first : Draws f m [] c) (rest : ∀ a, Draws f m more (g a)) : Draws f m more (c >>= g) :=
  first.given fun a _ => rest a

theorem before_quiet (first : Draws f m pattern c) (rest : ∀ a, Draws f m [] (g a)) :
    Draws f m pattern (c >>= g) := by
  have whole := first.bind fun a _ => rest a
  rw [List.append_nil] at whole
  exact whole

theorem ask {g : State → Compile β} (rest : ∀ s, Known f m s.view → Draws f m pattern (g s)) :
    Draws f m pattern (get >>= g) :=
  fun before earlier s b t isOpen drawn run => rest s drawn.known before earlier s b t isOpen drawn run

theorem ite [Decidable p] (yes : p → Draws f m pattern c) (no : ¬p → Draws f m pattern d) :
    Draws f m pattern (if p then c else d) := by
  split <;> rename_i h
  · exact yes h
  · exact no h

theorem stops (never : ∀ s a t, ¬ Gives c s a t) : Draws f m pattern c :=
  fun _ _ s a t _ _ run => (never s a t run).elim

theorem within (step : Draws f m pattern c) : Draws f m pattern (Compile.within change c) := by
  intro before earlier s a t isOpen drawn run
  obtain ⟨u,frames,inner,-,rfl⟩ := gives_within.mp run
  have start : Drawn f m before earlier { s with frames := s.frames.push change } := ⟨drawn.known,drawn.code⟩
  have after := step before earlier _ a u isOpen start inner
  exact ⟨after.known,after.code⟩

theorem pure (a : α) : Draws f m [] (Pure.pure a) := .quiet (.pure a) (.pure a)

theorem emit (text : String) : Draws f m [] (Compile.emit text) := .quiet (emit_takes text) (.emit text)

theorem inline (avoids : Avoids config (some f) n) : Draws f m [] (Compile.inline (Compile.visit config n)) :=
  .blockless (inline_takes config n) (by simpa using avoids) (.inline _)

theorem inlineEach (avoids : ∀ n ∈ ns, Avoids config (some f) n) :
    Draws f m [] (Compile.inlineEach (visits config ns)) :=
  .blockless (takes_flow.inlineEach ns) avoids (.inlineEach _)

theorem ofExcept (e : Except Failure α) : Draws f m [] (Compile.ofExcept e) :=
  .quiet (.ofExcept e) (.ofExcept e)

end Draws

structure Unclosed (f : String) (m : Bool) (before : List Code) (earlier pattern : List Bool)
    (s : State) : Prop where
  known : Known f m s.view
  code : ∃ more inside, s.output = .block (before ++ more ++ [.block inside]) ∧
    (∀ next, Fits m earlier (closings next more)) ∧ Fits m pattern (closings false inside)

theorem Unclosed.drawn (ends : Unclosed f m before earlier pattern s) :
    Drawn f m before (earlier ++ (pattern ++ [false])) s := by
  obtain ⟨more,inside,out,outer,inner⟩ := ends.code
  refine ⟨ends.known,more ++ [.block inside],by rw [out,List.append_assoc],fun next => ?_⟩
  have last : Fits m [false] [next] := .cons (by simp) .nil
  rw [closings_append]
  simpa [closings,Code.closing,behind] using (outer _).append (inner.append last)

theorem Unclosed.emit (ends : Unclosed f m before earlier pattern s)
    (closes : asked = true → (text == "end)") = m) (run : Gives (emit text) s a t) :
    Drawn f m before (earlier ++ (pattern ++ [asked])) t := by
  obtain ⟨more,inside,out,outer,inner⟩ := ends.code
  obtain ⟨all,read,rfl⟩ := gives_emit.mp run
  obtain rfl := Code.block.inj (out.symm.trans read)
  refine ⟨ends.known,more ++ [.block inside,.line text],by simp,fun next => ?_⟩
  have last : Fits m [asked] [text == "end)"] := .cons closes .nil
  rw [closings_append]
  simpa [closings,Code.closing,behind,Code.closesGenerator] using (outer _).append (inner.append last)

section

variable {body : List Node} (row : Draws f m pattern (each (visits config body)))
  (avoids : ∀ n ∈ body, Avoids config (some f) n)
include row avoids

theorem block_unclosed (drawn : Drawn f m before earlier s)
    (run : Gives (block (visits config body)) s a t) : Unclosed f m before earlier pattern t := by
  obtain ⟨u,locals,all,inner,-,out,rfl⟩ := gives_block.mp run
  obtain ⟨more,read,fits⟩ := drawn.code
  obtain rfl := Code.block.inj (read.symm.trans out)
  have start : Drawn f m [] [] { s with locals := s.locals.push, output := .block [] } :=
    ⟨drawn.known,[],rfl,fun _ => .nil⟩
  obtain ⟨-,inside,filled,fitting⟩ := row [] [] _ () u isOpen_nil start inner
  have known := Known.row start.known avoids inner
  refine ⟨known,more,inside,?_,fits,fitting false⟩
  rw [filled]
  rfl

theorem loopBody_unclosed (drawn : Drawn f m before earlier s)
    (run : Gives (loopBody (visits config body)) s a t) : Unclosed f m before earlier pattern t := by
  rw [loopBody,nextLoop] at run
  obtain ⟨u,frames,inner,-,rfl⟩ := gives_within.mp run
  have ends := block_unclosed row avoids (s := { s with
    ledger := s.ledger.addLoop, frames := s.frames.push _ }) ⟨drawn.known,drawn.code⟩ inner
  exact ⟨ends.known,ends.code⟩

theorem block_draws : Draws f m (pattern ++ [false]) (block (visits config body)) :=
  fun _ _ _ _ _ _ drawn run => (block_unclosed row avoids drawn run).drawn

theorem loop_draws (closes : asked = true → (text == "end)") = m) :
    Draws f m (pattern ++ [asked]) (do loopBody (visits config body); emit text) := by
  intro before earlier s a t _ drawn run
  obtain ⟨u,ran,emitted⟩ := gives_unit_bind.mp run
  exact (loopBody_unclosed row avoids drawn ran).emit closes emitted

end

/-! ## Statements without blocks -/

theorem blockless_flow : StatementFlow config fun _ c => Blockless c where
  pure := .pure
  tagOf _ := .bind .get fun _ => .pure _
  frame := .bind .get fun _ => .pure _
  stops stops := .aside fun s a t run => (stops.never s a t run).elim
  append := .bind
  emit := .emit
  void := .emitEntries fun _ => rfl
  complex := .update fun _ => rfl
  inline _ := .inline _
  tag _ _ := .update fun _ => rfl
  silent step := .aside fun s _ t run => by
    obtain ⟨_,_,_,rfl,-⟩ := step s t run
    rfl
  prepend _ := .editLast fun body => by simp [closings,Code.closing]

theorem Blockless.of_writes (step : Says Quiet (fun _ => True) P c) : Blockless c := by
  rintro m before pattern s a t - ⟨more,out,fits⟩ run
  obtain ⟨-,lines,added,-⟩ := step.run s _ t trivial out run
  refine ⟨more ++ lines.map .line,by simp [added],fun next => ?_⟩
  rw [closings_append,closings_lines,List.append_nil]
  exact fits _

theorem Blockless.within (step : Blockless c) : Blockless (Compile.within change c) := by
  intro m before pattern s a t isOpen outline run
  obtain ⟨u,frames,inner,-,rfl⟩ := gives_within.mp run
  exact step m before pattern { s with frames := s.frames.push change } a u isOpen outline inner

theorem spread_blockless (expr : IsExpr n) : Blockless (spread (visit config n)) := by
  rintro m before pattern s a t - ⟨more,out,fits⟩ run
  obtain ⟨u,locals,all,entries,inner,read,-,same,rfl⟩ := gives_spread.mp run
  obtain rfl := Code.block.inj (out.symm.trans same)
  obtain ⟨-,lines,added,-⟩ := (expr_speaks expr).run { s with
    locals := s.locals.push, output := .block [] } [] u trivial rfl inner
  obtain rfl : lines.map .line = entries := by simpa [added,Code.entries?] using read
  refine ⟨more ++ lines.map .line,by simp,fun next => ?_⟩
  rw [closings_append,closings_lines,List.append_nil]
  exact fits _

theorem annotatedAssign_blockless (calls : ∀ call ∈ hintCall, ∀ target, Blockless (call target)) :
    Blockless (annotatedAssign target value hint hintCall) := by
  refine .bind (.inline _) fun target => .bind (.inline _) fun text =>
    .bind (.bind .get fun _ => .pure _) fun top => .ite (.bind (.pure _) fun keyword => ?_)
      (.bind (.introduce _) fun keyword => ?_) <;>
  · refine .bind (.inline _) fun _ => .ite (.emit _) (.ite (.emit _) ?_)
    cases hintCall with
    | some call => exact calls call rfl _
    | none => exact .emit _

theorem declareGlobals_blockless (names : List String) : Blockless (declareGlobals names) :=
  .aside fun _ _ _ run => by
    obtain ⟨_,rfl⟩ := declareGlobals_keeps run
    rfl

/-! ## Statements with blocks -/

section

variable {body : List Node}

def elsePart : Otherwise → Compile Unit
  | .nothing => pure ()
  | .elseIf test statement => do
    emit ("elseif " ++ (← inline test) ++ " then")
    withoutEnds statement
  | .orElse body => do
    emit "else"
    block body

theorem branch_eq (test : Compile Unit) (body : List (Compile Unit)) (otherwise : Otherwise) :
    branch test body otherwise = (do
      emit ("if " ++ (← inline test) ++ " then")
      (do block body; elsePart otherwise)
      emit "end") := by
  cases otherwise with
  | nothing => simp only [branch,elsePart,bind_assoc]; rfl
  | elseIf | orElse => simp only [branch,elsePart,bind_assoc]

theorem withoutEnds_branch_run (run : Gives (withoutEnds (branch test inside other)) s a t)
    (out : s.output = .block before) : ∃ text v w, Gives (inline test) s text v ∧
      Gives (do block inside; elsePart other)
        { v with output := .block (before ++ [.line ("if " ++ text ++ " then")]) } () w ∧
      ∀ mids, w.output = .block (before ++ [.line ("if " ++ text ++ " then")] ++ mids) →
        t = { w with output := .block (before ++ mids) } := by
  obtain ⟨u,ran,entries,filled,rfl⟩ := withoutEnds_run run out
  rw [branch_eq] at ran
  obtain ⟨text,v,read,ran⟩ := gives_bind.mp ran
  have same : v.output = s.output := (inline_preserves (P := (· = s.output)) _).holds read rfl
  obtain ⟨w,middle,last⟩ := gives_unit_bind.mp (emit_bind_run ran (same.trans out))
  refine ⟨text,v,w,read,middle,fun mids wrote => ?_⟩
  obtain rfl := emit_run last wrote
  obtain rfl := Code.block.inj filled
  have cut := eraseIdx_dropLast before mids (.line ("if " ++ text ++ " then")) (.line "end")
  simpa using cut

theorem withoutEnds_draws (read : Avoids config (some f) test)
    (middle : Draws f m pattern (do block (visits config body); elsePart other)) :
    Draws f m pattern (withoutEnds (branch (visit config test) (visits config body) other)) := by
  intro before earlier s a t isOpen drawn run
  obtain ⟨front,out,fits⟩ := drawn.code
  obtain ⟨text,v,w,reading,ran,ends⟩ := withoutEnds_branch_run run out
  have known := (Draws.inline read before earlier s text v isOpen drawn reading).known
  have start : Drawn f m (before ++ front ++ [.line ("if " ++ text ++ " then")]) [] { v with
      output := .block (before ++ front ++ [.line ("if " ++ text ++ " then")]) } :=
    ⟨known,[],by simp,fun _ => .nil⟩
  obtain ⟨after,mids,wrote,fitting⟩ := middle _ [] _ () w (isOpen_concat_line _ _) start ran
  rw [ends mids wrote]
  refine ⟨after,front ++ mids,by simp,fun next => ?_⟩
  rw [closings_append]
  exact (fits _).append (fitting next)

theorem setCurrent_draws (other : name ≠ some f) : Draws f m [] (setCurrent name) := by
  intro before earlier s a t _ drawn run
  obtain rfl := gives_update.mp run
  rw [List.append_nil]
  refine ⟨?_,drawn.code⟩
  cases m with
  | true => exact drawn.known
  | false => exact ⟨drawn.known.1,other⟩

theorem needs_draws (helper : String) : Draws f m [] (needs helper) := by
  intro before earlier s a t _ drawn run
  obtain rfl := gives_update.mp run
  rw [List.append_nil]
  refine ⟨?_,drawn.code⟩
  cases m <;> exact drawn.known

section

variable (row : Draws f m pattern (each (visits config body)))
  (avoids : ∀ n ∈ body, Avoids config (some f) n)
include row avoids

theorem whileLoop_draws (read : Avoids config (some f) test) :
    Draws f m (pattern ++ [false]) (whileLoop (visit config test) (visits config body)) :=
  .after (.inline read) fun _ => .after (.emit _) fun _ => loop_draws row avoids (by simp)

theorem forLoop_draws (place : Avoids config (some f) target) (read : Avoids config (some f) iter)
    (loops : asked = true → ∀ s text t, Gives (inline (visit config iter)) s text t →
      Text.dropGroups text = f) : Draws f m (pattern ++ [asked])
      (forLoop iter (visit config target) (visit config iter) (visits config body)) := by
  refine .after (.inline place) fun target => .given (.inline read) fun text given => .ask fun s known =>
    .ite (fun marked => ?_) fun plain => ?_
  · refine .after (.ofExcept _) fun header => .after (.emit _) fun _ => loop_draws row avoids fun asks => ?_
    obtain ⟨u,v,given⟩ := given
    rw [loops asks u text v given,List.contains_iff_mem] at marked
    cases m with
    | true => rfl
    | false => exact (known.1 marked).elim
  · have decides := iteratesText_idle iter text
    refine .after (.quiet (takes_flow.idle decides) ((@blockless_flow none).idle decides)) fun _ =>
      .after (.emit _) fun _ => loop_draws row avoids fun asks => ?_
    obtain ⟨u,v,given⟩ := given
    rw [loops asks u text v given,List.contains_iff_mem] at plain
    cases m with
    | true => exact (plain known).elim
    | false => rfl

theorem withStatement_draws
    (read : ∀ n ∈ items.flatMap Node.itemNodes, Avoids config (some f) n) :
    Draws f m (pattern ++ [false])
      (withStatement first last (itemsOf config items) (visits config body)) := by
  have prepends (lines : List String) : Draws f m [] (each (lines.map prepend)) :=
    .quiet (takes_flow.each takes_flow.prepend lines)
      ((@blockless_flow none).each (@blockless_flow none).prepend lines)
  exact .after (.emit _) fun _ => .before_quiet (block_draws row avoids) fun _ =>
    .after (.blockless (takes_flow.withItemLines items) read
      (blockless_flow.withItemLines items)) fun lines =>
    .after (prepends lines) fun _ => .emit _

theorem functionBody_draws {name : String} :
    Draws f m (pattern ++ [false]) (functionBody name (visits config body)) :=
  .within (.before_quiet (block_draws row avoids) fun _ => .ask fun _ _ => .ite
    (fun _ => .after (needs_draws _) fun _ => .emit _) fun _ => .pure _)

theorem functionDefinition_draws (other : name ≠ some f)
    (marked : ∀ n ∈ decorators, Avoids config (some f) n)
    (filled : ∀ n ∈ params.paramDefaults, Avoids config (some f) n) :
    Draws f m (pattern ++ [false]) (functionDefinition name params (visits config decorators)
      (visits config body) (defaultsOf config params)) := by
  have marked : ∀ n ∈ decorators.reverse, Avoids config (some f) n := by simpa using marked
  have filled : ∀ n ∈ params.paramDefaults.reverse, Avoids config (some f) n := by simpa using filled
  simp only [functionDefinition,visits_reverse,defaultsOf_reverse config]
  have closed (own : String) (given : List String) : Draws f m [] (definitionEnd config params decorators own given) :=
    .after (.blockless (prependDefaults_flow takes_flow _ _) filled
        (prependDefaults_flow blockless_flow _ _)) fun _ => .after (.emit _) fun _ =>
      .after (.blockless (takes_flow.connectDecorators _ _) marked
        (blockless_flow.connectDecorators _ _)) fun _ => setCurrent_draws (by simp)
  refine .after (.ofExcept _) fun names =>
    .after (.quiet (.update fun _ => rfl) (.update fun _ => rfl)) fun _ =>
    .after (setCurrent_draws other) fun _ => .ask fun _ _ => .after (.inlineEach marked) fun texts =>
    .after (.ofExcept _) fun _ => .after (.ofExcept _) fun rest => .after (.ofExcept _) fun own => ?_
  refine .ite (fun _ => .after (.pure _) fun keyword => ?_)
    fun _ => .after (.quiet (introduce_takes _) (.introduce _)) fun keyword => ?_
  all_goals
    refine .after (.ofExcept _) fun given => .after (.emit _) fun _ =>
      .before_quiet (functionBody_draws row avoids) fun _ => .after (.ofExcept _) fun line => ?_
    cases line with
    | none => exact closed _ _
    | some line =>
      exact .after (.quiet (editLast_takes _)
        (.editLast fun body => by simp [closings,Code.closing])) fun _ => closed _ _

theorem classDefinition_draws (read : ∀ n ∈ bases, Avoids config (some f) n) :
    Draws f m (pattern ++ [false])
      (classDefinition config name (visits config bases) (visits config body)) := by
  have returned (name : String) (body : List Code) :
      closings false (body ++ [.line ("return " ++ name)]) = closings false body := by
    have plain : ("return " ++ name == "end)") = false := by simp [← String.toList_inj]
    rw [closings_append]
    simp [closings,Code.closing,behind,Code.closesGenerator,plain]
  refine .after (.inlineEach read) fun texts => .ask fun s _ => .ite
    (fun _ => .after (.quiet (introduce_takes _) (.introduce _)) fun keyword => ?_)
    fun _ => .after (.pure _) fun keyword => ?_
  all_goals
    exact .after (.ofExcept _) fun fullName => .after (.emit _) fun _ => .after (needs_draws _) fun _ =>
      .before_quiet (.within (block_draws row avoids)) fun _ =>
      .after (.quiet (editLast_takes _) (.editLast (returned _))) fun _ =>
      .after (.emit _) fun _ => .after (.ofExcept _) fun _ =>
      .ite (fun _ => .emit _) fun _ => .pure _

end

end

end Compile

/-! ## Trees -/

/-- Whatever the text of what it iterates over, the node is a loop over calls of the function. -/
def Node.LoopsOver (config : Option Config) (f : String) : Node → Prop
  | .forStmt false _ iter _ _ _ =>
    ∀ s text t, Compile.Gives (Compile.inline (Compile.visit config iter)) s text t → Text.dropGroups text = f
  | _ => False

/-- A loop over calls of the function stands in the row. -/
def Struck (config : Option Config) (f : String) (ns : List Node) : Prop :=
  ∃ c d n, Stands c ns d n ∧ n.LoopsOver config f

/-- The statement has a rule of its own, and its parts on one line are expressions. -/
def Node.IsStatement : Node → Prop
  | .functionDef false _ ps _ decorators _ _ =>
    (∀ e ∈ decorators, IsExpr e) ∧ ∀ e ∈ ps.paramDefaults, IsExpr e
  | .classDef _ es _ _ _ | .delete es => ∀ e ∈ es, IsExpr e
  | .returnStmt e | .raise e _ | .assert e _ | .exprStmt e | .typeAlias _ _ e | .whileStmt e _ _
  | .ifStmt e _ _ | .matchStmt e _ => IsExpr e
  | .assign targets value _ => (∀ e ∈ targets.take 1, IsExpr e) ∧ IsExpr value
  | .augAssign first _ second | .forStmt false first second _ _ _ => IsExpr first ∧ IsExpr second
  | .annAssign target hint value _ => IsExpr target ∧ IsExpr hint ∧ IsExpr value
  | .withStmt _ items _ _ => ∀ e ∈ items.flatMap Node.itemNodes, IsExpr e
  | .tryStmt false .. | .importStmt _ | .importFrom .. | .global _ | .nonlocal _ | .pass | .breakStmt
  | .continueStmt => True
  | _ => False

/-- The rule of the statement compiles expressions and opens no block. -/
def Node.isSimple : Node → Bool
  | .exprStmt _ | .augAssign .. | .returnStmt _ | .delete _ | .raise .. | .assert .. | .typeAlias ..
  | .importStmt _ | .importFrom .. | .nonlocal _ | .pass | .breakStmt | .continueStmt => true
  | _ => false

/-- A property that goes through the rules is one of all simple statements. -/
theorem Compile.simple_visit {config : Option Config} {Q : Compile Unit → Prop}
    (F : StatementFlow config P) {n : Node} (stmt : n.IsStatement) (simple : n.isSimple = true)
    (holds : ∀ {ns : List Node} {c : Compile Unit}, P ns c → (∀ e ∈ ns, IsExpr e) → Q c)
    (spread : ∀ e docstring, IsExpr e →
      P [e] (within (fun f => { f with docstring }) (spread (visit config e)))) :
    Q (visit config n) := by
  have none : ∀ e ∈ [], IsExpr e := nofun
  cases n
  case exprStmt value =>
    exact holds (expressionStatement_flow F fun _ => spread value _ stmt) (List.forall_mem_singleton.mpr stmt)
  case augAssign => exact holds ((augmentedAssign_composed _ _ _).flow F.toFlow) (by simpa [Node.IsStatement] using stmt)
  case returnStmt => exact holds (returnStatement_flow F _) (by simpa [Node.IsStatement] using stmt)
  case delete => exact holds (F.quiet (F.inlineEach _) fun _ => F.emit _) stmt
  case raise | assert => exact holds (F.line _ _) (List.forall_mem_singleton.mpr stmt)
  case typeAlias =>
    refine holds (typeAlias_flow F _ _) ?_
    split
    · exact List.forall_mem_singleton.mpr stmt
    · exact none
  case importStmt names => exact holds ((Composed.each importModule_composed names).flow F.toFlow) none
  case importFrom names _ => exact holds ((Composed.each (importMember_composed _) names).flow F.toFlow) none
  case nonlocal names => exact holds (F.silent (declareNonlocals_silent names)) none
  case pass => exact holds (F.pure _) none
  case breakStmt | continueStmt => exact holds (F.emit _) none
  all_goals cases simple

/-- All statements that are compiled for the row are of the kinds that have a rule. -/
def AreStatements (ns : List Node) : Prop := ∀ c d n, Stands c ns d n → n.IsStatement

section

variable {c d : String} {n : Node} {ns : List Node}

theorem Struck.cons (struck : Struck config f (n :: ns)) : Struck config f [n] ∨ Struck config f ns := by
  obtain ⟨c,d,m,stands,loops⟩ := struck
  cases stands with
  | here member =>
    rcases List.mem_cons.mp member with rfl | later
    · exact .inl ⟨c,c,m,.here (by simp),loops⟩
    · exact .inr ⟨c,c,m,.here later,loops⟩
  | inside member part stands =>
    rcases List.mem_cons.mp member with rfl | later
    · exact .inl ⟨c,d,m,.inside (by simp) part stands,loops⟩
    · exact .inr ⟨c,d,m,.inside later part stands,loops⟩

theorem Struck.single (struck : Struck config f [n]) : n.LoopsOver config f ∨
    ∃ c d body, (d,body) ∈ n.bodies c ∧ Struck config f body := by
  obtain ⟨c,d,m,stands,loops⟩ := struck
  cases stands with
  | here member =>
    obtain rfl := List.mem_singleton.mp member
    exact .inl loops
  | inside member part stands =>
    obtain rfl := List.mem_singleton.mp member
    exact .inr ⟨_,_,_,part,_,_,m,stands,loops⟩

theorem Node.bodies_change (inside : part ∈ n.bodies c) (e : String) : ∃ d, (d,part.2) ∈ n.bodies e := by
  unfold Node.bodies at inside ⊢
  split at inside <;> simp at inside ⊢ <;> grind

theorem Stands.change (stands : Stands c ns d n) (e : String) : ∃ d, Stands e ns d n := by
  induction stands generalizing e with
  | here member => exact ⟨e,.here member⟩
  | inside member part _ ih =>
    obtain ⟨_,part⟩ := Node.bodies_change part e
    obtain ⟨d,stands⟩ := ih _
    exact ⟨d,.inside member part stands⟩

theorem AreStatements.part (stmts : AreStatements ns) (member : n ∈ ns) (part : (d,body) ∈ n.bodies c) :
    AreStatements body := by
  intro e _ m stands
  obtain ⟨_,stands⟩ := stands.change d
  exact stmts c _ m (.inside member part stands)

theorem Stands.mono (stands : Stands c body d n) (part : body ⊆ ns) : Stands c ns d n := by
  cases stands with
  | here member => exact .here (part member)
  | inside member inner stands => exact .inside (part member) inner stands

theorem AreStatements.row (stmts : AreStatements ns) (part : body ⊆ ns) : AreStatements body :=
  fun c d m stands => stmts c d m (stands.mono part)

theorem compiled_of_bodies (part : (d,body) ∈ n.bodies c) : body ⊆ compiledParts config n := by
  intro m member
  rcases turn_of_bodies config part with ⟨-,rfl⟩ | ⟨-,turn,inside,compiles⟩
  · cases member
  · refine List.mem_flatMap.mpr ⟨turn,inside,?_⟩
    cases turn <;> cases compiles <;> simp_all [Turn.nodes]

theorem Avoids.of_part (avoids : Avoids config name n)
    (part : m ∈ compiledParts config n := by simp [compiledParts,turns,Turn.nodes]) : Avoids config name m :=
  fun k reached => avoids k (.head part reached)

end

namespace Compile

variable {config : Option Config} {f : String} {n : Node} {ns body : List Node}

/-! ## Grades -/

theorem matchCase_stops (subject : Compile Unit) (isFirst : Bool) (value : Node) :
    Stops (matchCase subject isFirst (some ⟨value,none⟩)) := by
  unfold matchCase
  simp only
  split
  · exact ⟨fun _ _ _ => gives_reject⟩
  · exact .later fun _ => .later fun _ => .later fun _ => .fail _
  · exact .fail _

/-- A property of steps with grades that are joined along a sequence. -/
structure GradedFlow {G : Type} (one : G) (join : G → G → G)
    (P : {α : Type} → G → Compile α → Prop) : Prop where
  one_join : ∀ g, join one g = g
  join_one : ∀ g, join g one = g
  pure : ∀ {α : Type} (a : α), P one (pure a)
  stops : ∀ {α : Type} {c : Compile α} (g : G), Stops c → P g c
  bind : ∀ {α β : Type} {c : Compile α} {f : α → Compile β} {g h : G}, P g c → (∀ a, P h (f a)) →
    P (join g h) (c >>= f)
  emit : ∀ text, P one (emit text)

namespace GradedFlow

variable {G : Type} {one g h k : G} {join : G → G → G} {P : {α : Type} → G → Compile α → Prop}
  {α β : Type} {c : Compile α} {f : α → Compile β} {config : Option Config} (F : GradedFlow one join P)
include F

theorem after (first : P one c) (rest : ∀ a, P g (f a)) : P g (c >>= f) := by
  rw [← F.one_join g]
  exact F.bind first rest

theorem ahead (first : P g c) (rest : ∀ a, P one (f a)) : P g (c >>= f) := by
  rw [← F.join_one g]
  exact F.bind first rest

theorem line {f : Unit → Compile β} (rest : P g (f ())) :
    P g (Compile.emit text >>= f) :=
  F.after (F.emit text) fun _ => rest

theorem ofExcept (e : Except Failure α) : P one (Compile.ofExcept e) := by
  cases e with
  | ok a => exact F.pure a
  | error e => exact F.stops _ (.fail e)

theorem branch {body : List (Compile Unit)} (read : P one (inline test))
    (middle : P g (do block body; elsePart other)) : P g (branch test body other) := by
  rw [branch_eq]
  exact F.after read fun _ => F.line (F.ahead middle fun _ => F.emit _)

theorem matchCases (own : Node → G) (total : List Node → G)
    (none : total [] = one) (more : ∀ n ns, total (n :: ns) = join (own n) (total ns))
    (isFirst : Bool) (parts : ∀ n ∈ ns, ∀ body ∈ n.caseBody?,
      P one (inline subject) ∧ P (own n) (block (visits config body))) :
    P (total ns) (matchCases subject isFirst (casesOf config ns)) := by
  induction ns generalizing isFirst with
  | nil =>
    rw [none]
    exact F.pure _
  | cons n rest ih =>
    obtain ⟨first,later⟩ := List.forall_mem_cons.mp parts
    rw [more]
    refine F.bind ?_ fun _ => ih false later
    cases n with
    | matchCase value guard body =>
      obtain ⟨read,filled⟩ := first body rfl
      simp only [caseOf,matchCase]
      split
      · exact F.stops _ ⟨fun _ _ _ => gives_reject⟩
      · exact F.after read fun _ => F.after (F.ofExcept _) fun _ => F.line filled
      · exact F.stops _ (.fail _)
    | matchAs | patternOf | patternKeyword => exact F.stops _ (matchCase_stops ..)
    | _ => exact F.stops _ (.fail _)

theorem handlers (own : Node → G) (total : List Node → G)
    (none : total [] = one) (more : ∀ n ns, total (n :: ns) = join (own n) (total ns))
    (chained : Bool) (position : Nat)
    (parts : ∀ n ∈ ns, ∀ body ∈ n.handlerBody?, P (own n) (block (visits config body))) :
    P (total ns) (handlers chained position (handlersOf config ns)) := by
  induction ns generalizing position with
  | nil =>
    rw [none]
    exact F.pure _
  | cons n rest ih =>
    obtain ⟨first,later⟩ := List.forall_mem_cons.mp parts
    rw [more]
    refine F.line (F.bind ?_ fun _ => ?_)
    · cases n with
      | handler type name body =>
        have filled := first body rfl
        simp only [handlerOf,handlerBody]
        split
        · refine F.after (F.line ?_) fun _ => filled
          cases name with
          | some name => exact F.emit _
          | none => exact F.pure _
        · exact filled
      | _ => exact F.stops _ (.fail _)
    · split
      · exact F.line (ih _ later)
      · exact ih _ later

theorem tryStatement {body finalBody : List (Compile Unit)}
    (filled : P g (block body))
    (handled : ∀ chained position, P h (Compile.handlers chained position hs))
    (last : P k (block finalBody)) : P (join g (join h k)) (tryStatement body hs finalBody) :=
  F.line (F.line (F.bind filled fun _ => F.line (F.bind (handled _ _) fun _ =>
    F.line (F.ahead last fun _ => F.emit _))))

end GradedFlow

/-- The row avoids the function, and its closing lines fit a pattern that asks for the loops over
calls of the function. -/
structure RowOutlined (config : Option Config) (f : String) (ns : List Node) : Prop where
  avoids : ∀ n ∈ ns, Avoids config (some f) n
  fits : ∃ pattern, (∀ m, Draws f m pattern (each (visits config ns))) ∧ (Struck config f ns → true ∈ pattern)

/-- The same for a statement, with its ends or without them. -/
def StatementOutlined (config : Option Config) (f : String) (n : Node) : Prop :=
  ∃ pattern, (∀ m, Draws f m pattern (visit config n)) ∧
    (n.isBranch = true → ∀ m, Draws f m pattern (withoutEnds (visit config n))) ∧
    (Struck config f [n] → true ∈ pattern)

theorem row_outlined (avoids : ∀ n ∈ ns, Avoids config (some f) n)
    (steps : ∀ n ∈ ns, StatementOutlined config f n) : RowOutlined config f ns := by
  refine ⟨avoids,?_⟩
  clear avoids
  induction ns with
  | nil =>
    refine ⟨[],fun m => .pure _,?_⟩
    rintro ⟨_,_,_,stands,-⟩
    cases stands with
    | here member | inside member => cases member
  | cons n rest ih =>
    obtain ⟨⟨first,own,-,asked⟩,later⟩ := List.forall_mem_cons.mp steps
    obtain ⟨pattern,others,rest⟩ := ih later
    refine ⟨first ++ pattern,fun m => (own m).bind fun _ _ => others m,fun struck => ?_⟩
    rcases struck.cons with here | there
    · exact List.mem_append_left _ (asked here)
    · exact List.mem_append_right _ (rest there)

theorem RowOutlined.block (row : RowOutlined config f body) : ∃ pattern,
    (∀ m, Draws f m pattern (block (visits config body))) ∧ (Struck config f body → true ∈ pattern) := by
  obtain ⟨pattern,draws,asked⟩ := row.fits
  exact ⟨pattern ++ [false],fun m => block_draws (draws m) row.avoids,
    fun struck => List.mem_append_left _ (asked struck)⟩

theorem plain_outlined (avoids : Avoids config (some f) n) (blockless : Blockless (visit config n))
    (noBranch : n.isBranch = false) (noLoop : ¬ n.LoopsOver config f) (noBody : ∀ c, n.bodies c = []) :
    StatementOutlined config f n := by
  refine ⟨[],fun m => ?_,by simp [noBranch],fun struck => ?_⟩
  · intro before earlier s a t isOpen drawn run
    rw [List.append_nil]
    exact ⟨drawn.known.visit avoids run,blockless m before earlier s a t isOpen drawn.code run⟩
  · rcases struck.single with loops | ⟨c,d,body,part,-⟩
    · exact (noLoop loops).elim
    · rw [noBody] at part
      cases part

theorem around_outlined (row : RowOutlined config f body)
    (around : ∀ m pattern, Draws f m pattern (each (visits config body)) →
      Draws f m (pattern ++ [false]) (visit config n))
    (only : ∀ c, ∃ d, n.bodies c = [(d,body)] := by exact fun _ => ⟨_,rfl⟩)
    (noBranch : n.isBranch = false := by rfl) (noLoop : ¬ n.LoopsOver config f := by exact id) :
    StatementOutlined config f n := by
  obtain ⟨pattern,draws,asked⟩ := row.fits
  refine ⟨pattern ++ [false],fun m => around m pattern (draws m),by simp [noBranch],fun struck => ?_⟩
  rcases struck.single with loops | ⟨c,d,other,part,inner⟩
  · exact (noLoop loops).elim
  · obtain ⟨e,same⟩ := only c
    rw [same] at part
    cases List.mem_singleton.mp part
    exact List.mem_append_left _ (asked inner)

theorem draws_graded (f : String) : GradedFlow [] (· ++ ·) fun pattern c => ∀ m, Draws f m pattern c where
  one_join := List.nil_append
  join_one := List.append_nil
  pure a _ := .pure a
  stops _ stops _ := .stops stops.never
  bind first rest m := (first m).bind fun a _ => rest a m
  emit text _ := .emit text

theorem parts_outlined (rows : ∀ body ∈ ns.filterMap part, RowOutlined config f body) :
    ∃ own : Node → List Bool,
      ∀ n ∈ ns, ∀ body ∈ part n, (∀ m, Draws f m (own n) (block (visits config body))) ∧
        (Struck config f body → true ∈ own n) := by
  have fits (n : Node) : ∃ pattern, n ∈ ns → ∀ body ∈ part n,
      (∀ m, Draws f m pattern (block (visits config body))) ∧ (Struck config f body → true ∈ pattern) := by
    by_cases filled : ∃ body ∈ part n, n ∈ ns
    · obtain ⟨body,taken,member⟩ := filled
      obtain ⟨pattern,holds⟩ := (rows body (List.mem_filterMap.mpr ⟨n,member,taken⟩)).block
      exact ⟨pattern,fun _ other same => Option.mem_unique taken same ▸ holds⟩
    · exact ⟨[],fun member body taken => (filled ⟨body,taken,member⟩).elim⟩
  exact Classical.axiomOfChoice fits

theorem elsePart_outlined (row : RowOutlined config f (Node.compiledOtherwise orElse))
    (first : ∀ n ∈ Node.compiledOtherwise orElse, StatementOutlined config f n) : ∃ pattern,
      (∀ m, Draws f m pattern (elsePart (otherwiseOf config orElse))) ∧
      (Struck config f (Node.compiledOtherwise orElse) → true ∈ pattern) := by
  cases orElse with
  | nil =>
    exact ⟨[],fun m => .pure _,fun struck => by
      obtain ⟨_,_,_,stands,-⟩ := struck
      cases stands with
      | here member => cases member
      | inside member => cases member⟩
  | cons n rest =>
    rw [otherwiseOf]
    cases tested : testOf config n with
    | none =>
      rw [Node.compiledOtherwise,isBranch_of_testOf tested] at row ⊢
      obtain ⟨pattern,draws,asked⟩ := row.block
      exact ⟨pattern,fun m => .after (.emit _) fun _ => draws m,asked⟩
    | some test =>
      obtain ⟨test,body,others,rfl,rfl⟩ := eq_branch_of_testOf tested
      obtain ⟨pattern,-,draws,asked⟩ := first (.ifStmt test body others) (by
        simp [Node.compiledOtherwise,Node.isBranch])
      have read : Avoids config (some f) test := (row.avoids (.ifStmt test body others) (by
        simp [Node.compiledOtherwise,Node.isBranch])).of_part (by simp [compiledParts,turns,Turn.nodes])
      exact ⟨pattern,fun m => .after (.inline read) fun _ => .after (.emit _) fun _ => draws rfl m,asked⟩

section

variable {subject : Node} {orElse cases hs finalBody : List Node}

section

variable (row : RowOutlined config f body)
include row

theorem function_outlined
    (avoids : Avoids config (some f) (.functionDef false name params body decorators returns comment)) :
    StatementOutlined config f (.functionDef false name params body decorators returns comment) := by
  refine around_outlined row fun m pattern draws => functionDefinition_draws draws row.avoids ?_ (fun m member => ?_)
      fun m member => ?_
  · rintro rfl
    exact avoids _ .refl rfl
  all_goals exact avoids.of_part (by simp [compiledParts,turns,Turn.nodes,member])

theorem class_outlined (avoids : Avoids config (some f) (.classDef name bases keywords body decorators)) :
    StatementOutlined config f (.classDef name bases keywords body decorators) := by
  refine around_outlined row fun m pattern draws => classDefinition_draws draws row.avoids fun m member => ?_
  exact avoids.of_part (by simp [compiledParts,turns,Turn.nodes,member])

theorem while_outlined (avoids : Avoids config (some f) (.whileStmt test body orElse)) :
    StatementOutlined config f (.whileStmt test body orElse) :=
  around_outlined row fun _ _ draws => whileLoop_draws draws row.avoids avoids.of_part

theorem with_outlined (avoids : Avoids config (some f) (.withStmt isAsync items body comment)) :
    StatementOutlined config f (.withStmt isAsync items body comment) := by
  have read : ∀ n ∈ items.flatMap Node.itemNodes, Avoids config (some f) n := by
    intro m member
    refine avoids.of_part ?_
    simp only [compiledParts,turns,Turn.nodes,List.flatMap_cons,List.mem_append]
    exact .inr (.inl member)
  refine around_outlined row fun m pattern draws => ?_
  cases isAsync <;> exact withStatement_draws draws row.avoids read

theorem for_outlined (avoids : Avoids config (some f) (.forStmt false target iter body orElse comment)) :
    StatementOutlined config f (.forStmt false target iter body orElse comment) := by
  obtain ⟨pattern,draws,asked⟩ := row.fits
  have place : Avoids config (some f) target := avoids.of_part
  have read : Avoids config (some f) iter := avoids.of_part
  by_cases loops : Node.LoopsOver config f (.forStmt false target iter body orElse comment)
  · exact ⟨pattern ++ [true],fun m => forLoop_draws (draws m) row.avoids place read fun _ => loops,
      fun branching => (by cases branching),fun _ => by simp⟩
  · refine ⟨pattern ++ [false],fun m => forLoop_draws (draws m) row.avoids place read
      fun found => (by cases found),fun branching => (by cases branching),fun struck => ?_⟩
    rcases struck.single with own | ⟨c,d,other,part,inner⟩
    · exact (loops own).elim
    · cases List.mem_singleton.mp part
      exact List.mem_append_left _ (asked inner)

theorem if_outlined (avoids : Avoids config (some f) (.ifStmt test body orElse))
    (other : RowOutlined config f (Node.compiledOtherwise orElse))
    (first : ∀ n ∈ Node.compiledOtherwise orElse, StatementOutlined config f n) :
    StatementOutlined config f (.ifStmt test body orElse) := by
  have read : Avoids config (some f) test := avoids.of_part
  obtain ⟨pattern,draws,asked⟩ := row.block
  obtain ⟨more,others,asks⟩ := elsePart_outlined other first
  have middle (m : Bool) : Draws f m (pattern ++ more)
      (do block (visits config body); elsePart (otherwiseOf config orElse)) :=
    (draws m).bind fun _ _ => others m
  refine ⟨pattern ++ more,(draws_graded f).branch (fun _ => .inline read) middle,
    fun _ m => withoutEnds_draws read (middle m),fun struck => ?_⟩
  rcases struck.single with own | ⟨c,d,row,part,inner⟩
  · exact own.elim
  · rcases List.mem_cons.mp part with same | last
    · cases same
      exact List.mem_append_left _ (asked inner)
    · cases List.mem_singleton.mp last
      exact List.mem_append_right _ (asks inner)

end

theorem match_outlined (avoids : Avoids config (some f) (.matchStmt subject cases))
    (rows : ∀ body ∈ cases.filterMap Node.caseBody?, RowOutlined config f body) :
    StatementOutlined config f (.matchStmt subject cases) := by
  have read (n : Node) (member : n ∈ cases) (body : List Node) (taken : body ∈ n.caseBody?) :
      Avoids config (some f) subject := by
    cases n with
    | matchCase value guard body =>
      refine avoids.of_part ?_
      simp only [compiledParts,turns,List.mem_flatMap]
      exact ⟨.apart [subject],⟨_,member,by simp [caseTurns]⟩,by simp [Turn.nodes]⟩
    | _ => cases taken
  obtain ⟨own,fits⟩ := parts_outlined rows
  have draws := (draws_graded f).matchCases own (List.flatMap own) rfl
    (fun _ _ => List.flatMap_cons) true fun n member body taken =>
      ⟨fun _ => .inline (read n member body taken),(fits n member body taken).1⟩
  refine ⟨cases.flatMap own,fun m => (draws m).before_quiet fun _ => .emit _,
    fun branching => (by cases branching),fun struck => ?_⟩
  rcases struck.single with own | ⟨c,d,row,part,inner⟩
  · exact own.elim
  · obtain ⟨row,member,same⟩ := List.mem_map.mp part
    cases same
    obtain ⟨n,inside,taken⟩ := List.mem_filterMap.mp member
    exact List.mem_flatMap.mpr ⟨n,inside,(fits n inside _ taken).2 inner⟩

theorem try_outlined (row : RowOutlined config f body)
    (rows : ∀ body ∈ hs.filterMap Node.handlerBody?, RowOutlined config f body)
    (last : RowOutlined config f finalBody) :
    StatementOutlined config f (.tryStmt false body hs orElse finalBody) := by
  obtain ⟨pattern,draws,asked⟩ := row.block
  obtain ⟨own,fits⟩ := parts_outlined rows
  obtain ⟨final,ending,asks⟩ := last.block
  refine ⟨pattern ++ (hs.flatMap own ++ final),?_,nofun,fun struck => ?_⟩
  · exact (draws_graded f).tryStatement draws (fun chained position =>
      (draws_graded f).handlers own (List.flatMap own) rfl (fun _ _ => List.flatMap_cons)
        chained position fun n member body taken => (fits n member body taken).1) ending
  · rcases struck.single with own | ⟨c,d,row,part,inner⟩
    · exact own.elim
    · simp only [Node.bodies,List.mem_append,List.mem_cons,List.mem_map] at part
      rcases part with (same | ⟨row,member,same⟩) | same | none
      · cases same
        exact List.mem_append_left _ (asked inner)
      · cases same
        obtain ⟨n,inside,taken⟩ := List.mem_filterMap.mp member
        exact List.mem_append_right _ (List.mem_append_left _
          (List.mem_flatMap.mpr ⟨n,inside,(fits n inside _ taken).2 inner⟩))
      · cases same
        exact List.mem_append_right _ (List.mem_append_right _ (asks inner))
      · cases none

end

theorem statement_outlined (stmts : AreStatements [n]) (avoids : Avoids config (some f) n) :
    StatementOutlined config f n := by
  induction size : sizeOf n using Nat.strongRecOn generalizing n with
  | ind k ih =>
    subst size
    have steps {d : String} {body : List Node} (part : (d,body) ∈ n.bodies "") :
        ∀ m ∈ body, StatementOutlined config f m := by
      intro m member
      have compiled : m ∈ compiledParts config n := compiled_of_bodies part member
      exact ih _ (smaller_of_part compiled) ((stmts.part (by simp) part).row (by simpa using member))
        (avoids.of_part compiled) rfl
    have rows {d : String} {body : List Node} (part : (d,body) ∈ n.bodies "") :
        RowOutlined config f body :=
      row_outlined (fun m member => avoids.of_part (compiled_of_bodies part member)) (steps part)
    have stmt : n.IsStatement := stmts "" "" n (.here (by simp))
    have plain (blockless : Blockless (visit config n)) (noBranch : n.isBranch = false)
        (noLoop : ¬ n.LoopsOver config f) (noBody : ∀ c, n.bodies c = []) :
        StatementOutlined config f n := plain_outlined avoids blockless noBranch noLoop noBody
    cases n
    case functionDef isAsync _ _ _ _ _ _ =>
      cases isAsync with
      | true => cases stmt
      | false => exact function_outlined (rows (List.mem_singleton_self _)) avoids
    case classDef => exact class_outlined (rows (List.mem_singleton_self _)) avoids
    case whileStmt => exact while_outlined (rows (List.mem_singleton_self _)) avoids
    case withStmt => exact with_outlined (rows (List.mem_singleton_self _)) avoids
    case forStmt isAsync _ _ _ _ _ =>
      cases isAsync with
      | true => cases stmt
      | false => exact for_outlined (rows (List.mem_singleton_self _)) avoids
    case ifStmt =>
      exact if_outlined (rows List.mem_cons_self) avoids (rows (.tail _ List.mem_cons_self))
        (steps (.tail _ List.mem_cons_self))
    case matchStmt subject cases =>
      exact match_outlined avoids fun body member => rows (List.mem_map.mpr ⟨body,member,rfl⟩)
    case tryStmt isStar body hs orElse finalBody =>
      cases isStar with
      | true => cases stmt
      | false =>
        exact try_outlined (rows List.mem_cons_self) (fun body member => rows
          (List.mem_append_left _ (.tail _ (List.mem_map.mpr ⟨body,member,rfl⟩))))
          (rows (List.mem_append_right _ (List.mem_singleton_self _)))
    case annAssign =>
      exact plain (annotatedAssign_blockless fun call given receiver =>
        .of_writes (callOf_writes stmt.2.1 call given receiver)) rfl id fun _ => rfl
    case assign => exact plain (assign_flow blockless_flow .introduce _ _) rfl id fun _ => rfl
    case global => exact plain (declareGlobals_blockless _) rfl id fun _ => rfl
    case exprStmt | augAssign | returnStmt | delete | raise | assert | typeAlias | importStmt | importFrom
      | nonlocal | pass | breakStmt | continueStmt =>
      exact plain (simple_visit blockless_flow stmt rfl (fun step _ => step)
        fun _ _ expr => .within (spread_blockless expr)) rfl id fun _ => rfl
    all_goals cases stmt

theorem struck_differs (stmts : AreStatements [n]) (avoids : Avoids config (some f) n)
    (struck : Struck config f [n]) (plain : Known f false s.view) (marked : Known f true t.view)
    (start : s.output = .block before) (begin : t.output = .block earlier) (free : IsOpen before)
    (clear : IsOpen earlier) (first : Gives (visit config n) s () u)
    (second : Gives (visit config n) t () v) :
    ∃ xs ys, u.output = .block (before ++ xs) ∧ v.output = .block (earlier ++ ys) ∧ xs ≠ ys := by
  obtain ⟨pattern,draws,-,asked⟩ := statement_outlined stmts avoids
  obtain ⟨-,xs,wrote,fits⟩ := draws false before [] s () u free
    ⟨plain,[],by simpa using start,fun _ => .nil⟩ first
  obtain ⟨-,ys,added,fitting⟩ := draws true earlier [] t () v clear
    ⟨marked,[],by simpa using begin,fun _ => .nil⟩ second
  refine ⟨xs,ys,wrote,added,?_⟩
  rintro rfl
  exact Fits.ne (fits false) (fitting false) (asked struck) rfl

end Compile

end LuauCompiler
