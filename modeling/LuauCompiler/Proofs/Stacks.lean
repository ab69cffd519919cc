import LuauCompiler.Proofs.Law

/-! The law of the stacks, for a success and for a failure. -/
namespace LuauCompiler

/-- The second stack is the first with further names at the end of its innermost block. -/
def SymbolStack.Grown {α : Type} (a b : SymbolStack α) : Prop :=
  match a.levels with
  | [] => b.levels = []
  | top :: outer => ∃ names, b.levels = (top ++ names) :: outer

/-- The second stack has grown from the first and has further open blocks. -/
def SymbolStack.Deeper {α : Type} (a b : SymbolStack α) : Prop :=
  ∃ inner c, a.Grown c ∧ b.levels = inner ++ c.levels

namespace SymbolStack

variable {α : Type} {a b c : SymbolStack α}

theorem Grown.refl (a : SymbolStack α) : a.Grown a := by
  cases levels : a.levels with
  | nil => simp [Grown,levels]
  | cons top outer => simp only [Grown,levels]; exact ⟨[],by simp⟩

theorem Grown.trans (first : a.Grown b) (second : b.Grown c) : a.Grown c := by
  cases levels : a.levels with
  | nil =>
    have empty : b.levels = [] := by simpa [Grown,levels] using first
    simpa [Grown,levels,empty] using second
  | cons top outer =>
    obtain ⟨names,grown⟩ : ∃ names, b.levels = (top ++ names) :: outer := by
      simpa [Grown,levels] using first
    obtain ⟨more,last⟩ : ∃ more, c.levels = ((top ++ names) ++ more) :: outer := by
      simpa [Grown,grown] using second
    simp only [Grown,levels]
    exact ⟨names ++ more,by simpa using last⟩

theorem Grown.add (added : a.add? name = some b) : a.Grown b := by
  cases levels : a.levels with
  | nil => simp [add?,levels] at added
  | cons top outer =>
    simp only [add?,levels,Option.some.injEq] at added
    subst added
    simp only [Grown,levels]
    exact ⟨[name],rfl⟩

theorem knows_push [BEq α] (s : SymbolStack α) (name : α) : s.push.knows name = s.knows name := by
  simp [push,knows]

theorem knows_add [BEq α] [LawfulBEq α] {s t : SymbolStack α} {name other : α}
    (added : s.add? name = some t) : t.knows other = true ↔ other = name ∨ s.knows other = true := by
  cases levels : s.levels with
  | nil => simp [add?,levels] at added
  | cons level outer =>
    simp only [add?,levels,Option.some.injEq] at added
    subst added
    simp only [knows,levels,List.any_cons,Bool.or_eq_true,List.contains_iff_mem,List.mem_append,
      List.mem_singleton]
    constructor
    · rintro ((inside | same) | outside)
      · exact .inr (.inl inside)
      · exact .inl same
      · exact .inr (.inr outside)
    · rintro (same | inside | outside)
      · exact .inl (.inr same)
      · exact .inl (.inl inside)
      · exact .inr outside

theorem Grown.pop_push (grown : a.push.Grown b) : b.pop? = some a := by
  obtain ⟨names,levels⟩ : ∃ names, b.levels = ([] ++ names) :: a.levels := grown
  simp [pop?,levels]

theorem Grown.deeper (grown : a.Grown b) : a.Deeper b := ⟨[],b,grown,rfl⟩

theorem Grown.trans_deeper (first : a.Grown b) (second : b.Deeper c) : a.Deeper c := by
  obtain ⟨inner,d,grown,levels⟩ := second
  exact ⟨inner,d,first.trans grown,levels⟩

theorem Deeper.of_push (deeper : a.push.Deeper b) : a.Deeper b := by
  obtain ⟨inner,c,⟨names,grown⟩,levels⟩ := deeper
  exact ⟨inner ++ [names],a,.refl a,by simp [levels,grown]⟩

end SymbolStack

/-- What a success keeps of the stacks. -/
structure Store.Kept (a b : Store) : Prop where
  frames : b.frames = a.frames
  locals : a.locals.Grown b.locals
  globals : a.globals.Grown b.globals

/-- What a failure keeps of the stacks. -/
structure Store.Sunk (a b : Store) : Prop where
  frames : a.frames.toList <+: b.frames.toList
  locals : a.locals.Deeper b.locals
  globals : a.globals.Grown b.globals

def stackLaw : Law where
  done := Store.Kept
  failed := Store.Sunk
  refl a := ⟨rfl,.refl _,.refl _⟩
  trans first second := ⟨second.frames.trans first.frames,first.locals.trans second.locals,
      first.globals.trans second.globals⟩
  stop a := ⟨List.prefix_refl _,(SymbolStack.Grown.refl _).deeper,.refl _⟩
  after first second := ⟨first.frames ▸ second.frames,first.locals.trans_deeper second.locals,
      first.globals.trans second.globals⟩
  need a _ _ := ⟨rfl,.refl _,.refl _⟩
  count a := ⟨rfl,.refl _,.refl _⟩
  declare added := ⟨rfl,.add added,.refl _⟩
  publish added := ⟨rfl,.refl _,.add added⟩
  unframe ran popped := by
    rw [ran.frames] at popped
    cases popped
    exact ⟨rfl,ran.locals,ran.globals⟩
  unblock ran popped := by
    rw [ran.locals.pop_push] at popped
    cases popped
    exact ⟨ran.frames,.refl _,ran.globals⟩
  framed ran := by
    refine ⟨List.IsPrefix.trans ?_ ran.frames,ran.locals,ran.globals⟩
    simp [Frames.push,Frames.toList]
  blocked ran := ⟨ran.frames,ran.locals.of_push,ran.globals⟩

namespace Compile

variable {α : Type} {s t : State}

theorem Follows.kept (step : Follows stackLaw c) (run : Gives c s a t) : s.store.Kept t.store := by
  have related := step.run s
  rw [run] at related
  exact related

theorem row_closes (run : Gives (each (visits config body)) { s with locals := s.locals.push, output } () t) :
    t.locals.pop? = some s.locals ∧ t.frames = s.frames := by
  have kept := ((Built.each (visits_built config body)).follows stackLaw).kept run
  exact ⟨kept.locals.pop_push,kept.frames⟩

theorem block_run (run : Gives (block (visits config body)) s a t) : ∃ u before,
      Gives (each (visits config body)) { s with locals := s.locals.push, output := .block [] } () u ∧
      u.frames = s.frames ∧ s.output = .block before ∧ t = { u with
        output := .block (before ++ [u.output]), current := s.current, locals := s.locals } := by
  obtain ⟨u,locals,before,inner,popped,out,rfl⟩ := gives_block.mp run
  obtain ⟨closed,frames⟩ := row_closes inner
  rw [closed] at popped
  cases popped
  exact ⟨u,before,inner,frames,out,rfl⟩

/-- A compilation is balanced, whatever the tree and the stacks. A success leaves the frames as they
were and adds names to the innermost blocks only. A failure may leave frames and blocks open, but
closes none that was open before: what was there is still there, and only the block that was
innermost may have gained names. -/
theorem stacks_balanced (config : Option Config) (n : Node) (s : State) :
    match visit config n s with
    | (.ok _,t) => t.frames = s.frames ∧ s.locals.Grown t.locals ∧ s.globals.Grown t.globals
    | (.error _,t) =>
      s.frames.toList <+: t.frames.toList ∧ s.locals.Deeper t.locals ∧ s.globals.Grown t.globals := by
  have ran := (visit_follows stackLaw config n).run s
  split <;> rename_i result <;> rw [result] at ran
  · have kept : s.store.Kept _ := ran
    exact ⟨kept.frames,kept.locals,kept.globals⟩
  · have sunk : s.store.Sunk _ := ran
    exact ⟨sunk.frames,sunk.locals,sunk.globals⟩

end Compile

end LuauCompiler
