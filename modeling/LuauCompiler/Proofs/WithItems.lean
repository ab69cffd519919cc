import LuauCompiler.Proofs.Assembly

/-! Items of a with statement. Their lines are put in front of the body one by one, so the last item is
opened first. -/
namespace LuauCompiler.Compile

variable {config : Option Config} {s t : State} {lines : List String} {items : List Node}

theorem ItemTexts.length_eq (texts : ItemTexts config s items lines t) : lines.length = items.length := by
  induction texts with
  | nil => rfl
  | bare _ _ ih | bound _ _ _ _ ih => exact congrArg Nat.succ ih

theorem reverse_eq_self_of_nodup (nodup : lines.Nodup) : lines.reverse = lines ↔ lines.length ≤ 1 := by
  constructor
  · intro same
    cases lines with
    | nil => exact Nat.zero_le 1
    | cons first rest =>
      rcases List.eq_nil_or_concat rest with rfl | ⟨front,last,rfl⟩
      · exact Nat.le_refl 1
      · rw [List.concat_eq_append] at same nodup
        rw [List.reverse_cons,List.reverse_concat] at same
        obtain ⟨rfl,-⟩ := List.cons.inj same
        simp at nodup
  · intro few
    match lines, few with
    | [],_ | [_],_ => rfl

/-- A with statement that compiles adds its first line, the body with the lines of its items in front,
and its last line. The items are compiled in their order and behind the body, but the line of the last one
comes first: the lines stand in the order of the items exactly if that is the opposite order as well, so
not if there are two or more and no two are equal. -/
theorem items_opened_backwards {body : List Node}
    (run : Gives (visit config (.withStmt isAsync items body comment)) s () t) :
    ∃ before code lines u v, s.output = .block before ∧ Gives (bodyCode config body) s code u ∧
      ItemTexts config u items lines v ∧ (lines = [] ∨ ∃ entries, code = .block entries) ∧
      t = { v with output := .block (before ++ [.line (if isAsync then "task.spawn(function()" else "do"),
        code.led lines.reverse,.line (if isAsync then "end)" else "end")]) } ∧
      (code.led lines.reverse = code.led lines ↔ lines.reverse = lines) ∧
      (lines.Nodup → (lines.reverse = lines ↔ items.length ≤ 1)) := by
  have unfolded : visit config (.withStmt isAsync items body comment) =
      withStatement (if isAsync then "task.spawn(function()" else "do") (if isAsync then "end)" else "end")
        (itemsOf config items) (visits config body) := by
    cases isAsync <;> rfl
  rw [unfolded] at run
  obtain ⟨before,code,lines,u,v,out,coded,texts,room,rfl⟩ := with_run run
  refine ⟨before,code,lines,u,v,out,coded,texts,room,rfl,?_,fun nodup => ?_⟩
  · rcases room with rfl | ⟨entries,rfl⟩
    · simp
    · simp only [Code.led,Code.block.injEq,List.append_cancel_right_eq]
      exact List.map_inj_right fun _ _ same => Code.line.inj same
  · rw [reverse_eq_self_of_nodup nodup,texts.length_eq]

def twoItems : List Node := [.withItem (.name (some "a") .absent) (.name (some "x") .absent),
    .withItem (.name (some "b") .absent) (.name (some "y") .absent)]

theorem twoItems_opened_backwards :
    let s := State.initial .empty
    let t := (visit none (.withStmt false twoItems [.pass] none) s).2
    Gives (visit none (.withStmt false twoItems [.pass] none)) s () t ∧ ∃ code lines u v,
      Gives (bodyCode none [.pass]) s code u ∧ ItemTexts none u twoItems lines v ∧
      t.output = .block [.line "do",code.led lines.reverse,.line "end"] := by
  intro s t
  have run : Gives (visit none (.withStmt false twoItems [.pass] none)) s () t :=
    gives_of_isOk (by decide +kernel)
  obtain ⟨_,code,lines,u,v,out,coded,texts,-,same,-⟩ := items_opened_backwards run
  cases out
  exact ⟨run,code,lines,u,v,coded,texts,congrArg State.output same⟩

/-- The second item is opened before the first. -/
theorem second_item_first : (visit none (.withStmt false twoItems [.pass] none) (.initial .empty)).2.output =
      .block [.line "do",.block [.line "local y = b",.line "local x = a"],.line "end"] := by
  decide +kernel

end LuauCompiler.Compile
