import LuauCompiler.Proofs.Run

/-! What a step leaves in the block at hand, also where it fails. Code that is compiled aside is put
there only when it is complete, so what was emitted before stays in any case. -/
namespace LuauCompiler.Compile

variable {α : Type} {s : State}

theorem bind_of_gives (first : Gives c s a t) : (c >>= f) s = f a t := by
  have run : c s = (.ok a,t) := first
  simp only [bind,run]

theorem bind_of_error {f : α → Compile β} (failed : c s = (.error e,t)) : (c >>= f) s = (.error e,t) := by
  simp only [bind,failed]

theorem nested_of_error (failed : c { s with output := .block [] } = (.error e,t)) :
    nested c s = (.error e,{ t with output := s.output, current := s.current }) := by
  rw [nested,failed]

theorem name_gives (config : Option Config) (s : State) (name : String) (access : Node) :
    Gives (inline (visit config (.name (some name) access))) s name s :=
  gives_inline.mpr ⟨_,[name],gives_emit.mpr ⟨[],rfl,rfl⟩,rfl,rfl,rfl⟩

/-- What holds of the output before the step holds after it. -/
def Preserves (P : Code → Prop) (c : Compile α) : Prop := ∀ s, P s.output → P (c s).2.output

/-- What holds of a block holds when more is added to it. -/
def Lasting (P : Code → Prop) : Prop := ∀ entries more, P (.block entries) → P (.block (entries ++ more))

theorem Preserves.of_output {c : Compile α} (same : ∀ s, (c s).2.output = s.output) :
    Preserves P c := by
  intro s holds
  rw [same]
  exact holds

theorem Preserves.holds (step : Preserves P c) (run : Gives c s a t) (before : P s.output) : P t.output := by
  have after := step s before
  rw [run] at after
  exact after

theorem Preserves.bind {f : α → Compile β} (first : Preserves P c)
    (later : ∀ a, Preserves P (f a)) : Preserves P (c >>= f) := by
  intro s holds
  have after := first s holds
  cases ran : c s with
  | mk result t =>
    rw [ran] at after
    cases result with
    | error e =>
      rw [bind_of_error ran]
      exact after
    | ok a =>
      rw [bind_of_gives ran]
      exact later a t after

theorem Preserves.ite [Decidable p] (yes : Preserves P c) (no : Preserves P d) :
    Preserves P (if p then c else d) := by
  split
  · exact yes
  · exact no

theorem nested_preserves (c : Compile Unit) : Preserves P (nested c) := by
  refine .of_output fun s => ?_
  rw [nested]
  split <;> rfl

theorem inline_preserves (c : Compile Unit) : Preserves P (inline c) := by
  refine .bind (nested_preserves c) fun code => ?_
  split <;> exact .of_output fun _ => rfl

theorem inlineEach_preserves (cs : List (Compile Unit)) : Preserves P (inlineEach cs) := by
  induction cs with
  | nil => exact .of_output fun _ => rfl
  | cons c rest ih =>
    exact .bind (inline_preserves c) fun _ => .bind ih fun _ => .of_output fun _ => rfl

theorem emitEntries_preserves (lasting : Lasting P) (entries : List Code) :
    Preserves P (emitEntries entries) := by
  intro s holds
  cases out : s.output with
  | block before =>
    rw [out] at holds
    have run : Gives (emitEntries entries) s () _ := gives_emitEntries.mpr ⟨before,out,rfl⟩
    rw [run]
    exact lasting before entries holds
  | line | void =>
    have failed : emitEntries entries s = (.error .missingPart,s) := by
      simp only [emitEntries,bind,get,out,Code.append?]
      rfl
    rw [failed]
    exact holds

theorem closeBlock_preserves : Preserves P closeBlock := by
  refine .bind (.of_output fun _ => rfl) fun s => ?_
  split <;> exact .of_output fun _ => rfl

theorem block_preserves (lasting : Lasting P) (cs : List (Compile Unit)) : Preserves P (block cs) :=
  .bind (.of_output fun _ => rfl) fun _ => .bind (nested_preserves _) fun _ =>
    .bind (emitEntries_preserves lasting _) fun _ => closeBlock_preserves

theorem within_preserves {change : Frame → Frame} (inside : Preserves P c) :
    Preserves P (within change c) := by
  refine .bind (.of_output fun _ => rfl) fun _ => .bind inside fun _ => ?_
  refine .bind (.of_output fun _ => rfl) fun s => ?_
  split <;> exact .of_output fun _ => rfl

theorem loopBody_preserves (lasting : Lasting P) (body : List (Compile Unit)) : Preserves P (loopBody body) :=
  .bind (.of_output fun _ => rfl) fun _ => within_preserves (block_preserves lasting body)

theorem opened_output (header closing : String) (body : List (Compile Unit))
    (out : s.output = .block before) :
    ∃ rest, ((do emit header; loopBody body; emit closing : Compile Unit) s).2.output =
      .block (before ++ .line header :: rest) := by
  have lasting : Lasting fun out => ∃ rest, out = .block (before ++ .line header :: rest) := by
    rintro _ more ⟨rest,same⟩
    exact ⟨rest ++ more,by rw [Code.block.inj same]; simp⟩
  have later : Preserves (fun out => ∃ rest, out = .block (before ++ .line header :: rest))
      (do loopBody body; emit closing) :=
    .bind (loopBody_preserves lasting body) fun _ => emitEntries_preserves lasting _
  have opened : Gives (emit header) s () _ := gives_emit.mpr ⟨before,out,rfl⟩
  rw [bind_of_gives opened]
  exact later _ ⟨[],rfl⟩

end LuauCompiler.Compile
