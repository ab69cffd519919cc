import LuauCompiler.Proofs.TreeBuilt

/-! Laws of the shared state. A law relates the stacks and the ledger before a step to those after
it, in one way for success and in another for failure. A law that each primitive change obeys is
obeyed by every step that is built from such changes, and so by the compilation of every tree. -/
namespace LuauCompiler

structure Law where
  done : Store → Store → Prop
  failed : Store → Store → Prop
  refl : ∀ a, done a a
  trans : ∀ {a b c}, done a b → done b c → done a c
  stop : ∀ a, failed a a
  after : ∀ {a b c}, done a b → failed b c → failed a c
  need : ∀ a, ∀ helper ∈ requestedHelpers, done a { a with ledger := a.ledger.need helper }
  count : ∀ a, done a { a with ledger := a.ledger.addLoop }
  declare : ∀ {a name locals}, a.locals.add? name = some locals → done a { a with locals }
  publish : ∀ {a name globals}, a.globals.add? name = some globals →
    done a { a with globals, ledger := { a.ledger with exports := a.ledger.exports ++ [name] } }
  /-- A frame that is popped again. -/
  unframe : ∀ {a b change frames}, done { a with frames := a.frames.push change } b →
    b.frames.pop? = some frames → done a { b with frames }
  /-- A block of names that is closed again. -/
  unblock : ∀ {a b locals}, done { a with locals := a.locals.push } b →
    b.locals.pop? = some locals → done a { b with locals }
  framed : ∀ {a b change}, failed { a with frames := a.frames.push change } b → failed a b
  blocked : ∀ {a b}, failed { a with locals := a.locals.push } b → failed a b

namespace Law

variable {α : Type}

def relates (L : Law) : Except Failure α → Store → Store → Prop
  | .ok _ => L.done
  | .error _ => L.failed

theorem failed_of_done (L : Law) (ran : L.done a b) : L.failed a b := L.after ran (L.stop b)

theorem after_relates (L : Law) (ran : L.done a b) (rest : L.relates outcome b c) :
    L.relates outcome a c := by
  cases outcome with
  | ok => exact L.trans ran rest
  | error => exact L.after ran rest

end Law

namespace Compile

variable {α : Type} {L : Law}

/-- Every run of the step obeys the law. -/
structure Follows (L : Law) (c : Compile α) : Prop where
  run : ∀ s, L.relates (c s).1 s.store (c s).2.store

namespace Follows

theorem bind (first : Follows L c) (rest : ∀ a, Follows L (f a)) : Follows L (c >>= f) := by
  refine ⟨fun s => ?_⟩
  have ran := first.run s
  simp only [Bind.bind]
  split <;> rename_i result <;> rw [result] at ran
  · exact L.after_relates ran ((rest _).run _)
  · exact ran

theorem within (step : Follows L c) : Follows L (within change c) := by
  refine ⟨fun s => ?_⟩
  have ran := step.run { s with frames := s.frames.push change }
  simp only [Compile.within,Bind.bind,update]
  split <;> rename_i result <;> rw [result] at ran
  · rename_i t
    simp only [get]
    cases popped : t.frames.pop? with
    | some frames => exact L.unframe (a := s.store) ran popped
    | none => exact L.framed (L.failed_of_done ran)
  · exact L.framed ran

theorem declare (name : Option String) : Follows L (declare name) := by
  refine ⟨fun s => ?_⟩
  simp only [Compile.declare,Bind.bind,get]
  cases added : s.locals.add? name with
  | some locals => exact L.declare added
  | none => exact L.stop _

theorem publish (name : String) : Follows L (declareGlobals [name]) := by
  refine ⟨fun s => ?_⟩
  simp only [declareGlobals,Bind.bind,get]
  cases added : s.globals.add? name with
  | some globals => exact L.publish (a := s.store) added
  | none => exact L.stop _

theorem nested (step : Follows L c) : Follows L (nested c) := by
  refine ⟨fun s => ?_⟩
  have ran := step.run { s with output := .block [] }
  simp only [Compile.nested]
  split <;> rename_i result <;> rw [result] at ran <;> exact ran

theorem scope (step : Follows L c) :
    Follows L (update State.openBlock >>= fun _ => c >>= fun _ => closeBlock) := by
  refine ⟨fun s => ?_⟩
  have ran := step.run s.openBlock
  simp only [Bind.bind,update]
  split <;> rename_i result <;> rw [result] at ran
  · rename_i t
    simp only [closeBlock,Bind.bind,get]
    cases popped : t.locals.pop? with
    | some locals => exact L.unblock (a := s.store) ran popped
    | none => exact L.blocked (L.failed_of_done ran)
  · exact L.blocked ran

end Follows

theorem Built.follows (L : Law) (built : Built c) : Follows L c := by
  induction built with
  | pure | put => exact ⟨fun s => L.refl s.store⟩
  | bind _ _ first rest => exact .bind first rest
  | fail | reject => exact ⟨fun s => L.stop s.store⟩
  | ask _ _ rest => exact .bind ⟨fun s => L.refl s.store⟩ rest
  | needs known => exact ⟨fun s => L.need s.store _ known⟩
  | within _ _ step => exact .within step
  | loop _ step => exact .bind ⟨fun s => L.count s.store⟩ fun _ => .within step
  | declare name => exact .declare name
  | publish name => exact .publish name
  | nested _ step => exact .nested step
  | scope _ step => exact .scope step

/-- The compilation of every tree obeys every law. -/
theorem visit_follows (L : Law) (config : Option Config) (n : Node) : Follows L (visit config n) :=
  (visit_built config n).follows L

end Compile

end LuauCompiler
