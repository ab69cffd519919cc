import LuauCompiler.Proofs.PlainExpressions

/-! The words of code that is laid out are the words of its lines, and what the code does to the open
constructs is what its lines do one after the other. -/
namespace LuauCompiler.Luau

variable {lines ws' : List String} {code : List Code}

/-- The line ends here. -/
def Breaks (rest : List Char) : Prop := rest = [] ∨ ∃ more, rest = '\n' :: more

/-- As a line the text has the effect of the words. -/
structure Runs (text : String) (ws : List String) : Prop where
  run : ∀ rest, Breaks rest → ∀ opened, followAll opened (wordsFrom .code (text.toList ++ rest)) =
    (followAll opened ws).bind (followAll · (wordsFrom .code rest))

theorem wordsFrom_breaks (fresh : m.next '\n' = .code) (breaks : Breaks rest) :
    wordsFrom m rest = m.pending ++ wordsFrom .code rest := by
  rcases breaks with rfl | ⟨more,rfl⟩
  · simp [wordsFrom,Mode.pending]
  · have again : Mode.code.next '\n' = .code := rfl
    simp [wordsFrom,fresh,ended_of_separates (c := '\n') rfl,again,Mode.pending]

variable {ws : List String}

theorem Passes.runs (passes : Passes .start text ws .token) : Runs text ws := by
  refine ⟨fun rest breaks opened => ?_⟩
  obtain ⟨⟨settled,_,_⟩,words⟩ := passes.run ⟨.code,false,true⟩ rfl
  rw [wordsFrom_append ⟨.code,false,true⟩,
    wordsFrom_breaks (Mode.next_of_settled settled rfl) breaks,← List.append_assoc,followAll_append]
  have effect := words opened
  simp only [Spot.carried,Spot.start,followAll,Option.bind_some] at effect
  rw [effect]

theorem NeatLines.runs (neat : NeatLines lines) :
    ∃ ws, Listed Runs lines ws ∧ ∀ opened, followAll opened ws = some opened := by
  obtain ⟨ws,lined,neutral⟩ := neat.lined
  exact ⟨ws,lined.mono fun _ _ passes => passes.runs,neutral⟩

theorem runs_render (ps : List Piece) (holds : ∀ piece ∈ ps, piece.Holds)
    (route : routes .start ps = some (ws,.known m comma)) (fresh : m.next '\n' = .code) :
    Runs (render ps) (ws ++ m.pending) := by
  refine ⟨fun rest breaks opened => ?_⟩
  obtain ⟨last,words⟩ := (render_passes ps holds route).run ⟨.code,false,true⟩ rfl
  simp only [Spot.Holds] at last
  have effect := words opened
  simp only [Spot.carried,Spot.start,List.append_nil,followAll,Option.bind_some] at effect
  rw [wordsFrom_append ⟨.code,false,true⟩,last,wordsFrom_breaks fresh breaks,followAll_append,effect,
    followAll_append,Option.bind_assoc]
  simp only [followAll_append]

theorem Runs.indented (runs : Runs text ws) (level : Int) : Runs (Code.indentation level ++ text) ws := by
  have blanks (n : Nat) (cs : List Char) :
      wordsFrom .code (List.replicate n ' ' ++ cs) = wordsFrom .code cs := by
    induction n with
    | zero => rfl
    | succ n ih => exact ih
  refine ⟨fun rest breaks opened => ?_⟩
  rw [String.toList_append,Code.indentation,String.toList_ofList,List.append_assoc,blanks]
  exact runs.run rest breaks opened

theorem Runs.join (first : Runs a ws) (second : Runs b ws') : Runs (a ++ "\n" ++ b) (ws ++ ws') := by
  refine ⟨fun rest breaks opened => ?_⟩
  have later : Breaks ('\n' :: (b.toList ++ rest)) := .inr ⟨_,rfl⟩
  have fresh (cs : List Char) : wordsFrom .code ('\n' :: cs) = wordsFrom .code cs := rfl
  calc followAll opened (wordsFrom .code ((a ++ "\n" ++ b).toList ++ rest))
      = followAll opened (wordsFrom .code (a.toList ++ '\n' :: (b.toList ++ rest))) := by simp
    _ = (followAll opened ws).bind (followAll · (wordsFrom .code (b.toList ++ rest))) := by
        rw [first.run _ later,fresh]
    _ = (followAll opened (ws ++ ws')).bind (followAll · (wordsFrom .code rest)) := by
        simp only [second.run rest breaks,followAll_append,Option.bind_assoc]

theorem runs_intercalate (listed : Listed Runs texts ws) : Runs (String.intercalate "\n" texts) ws := by
  induction listed with
  | nil => exact smooth_empty.runs
  | @cons text texts ws ws' first rest ih =>
    cases rest with
    | nil => simpa using first
    | cons => rw [String.intercalate_cons_cons]; exact first.join ih

/-- Code with words that have the effect of its lines. -/
inductive Worded : List Code → List String → Prop
  | nil : Worded [] []
  | line {code : List Code} {ws ws' : List String} (runs : Runs text ws) (rest : Worded code ws') :
    Worded (.line text :: code) (ws ++ ws')
  | block {body code : List Code} {ws ws' : List String} (inside : Worded body ws)
    (rest : Worded code ws') : Worded (.block body :: code) (ws ++ ws')
  | void {code : List Code} {ws : List String} (rest : Worded code ws) : Worded (.void :: code) ws

theorem Worded.append (first : Worded xs ws) (second : Worded ys ws') : Worded (xs ++ ys) (ws ++ ws') := by
  induction first with
  | nil => exact second
  | line runs _ ih => rw [List.append_assoc]; exact .line runs ih
  | block inside _ _ ih => rw [List.append_assoc]; exact .block inside ih
  | void _ ih => exact .void ih

theorem worded_lines (listed : Listed Runs lines ws) : Worded (lines.map .line) ws := by
  induction listed with
  | nil => exact .nil
  | cons first _ ih => exact .line first ih

theorem Worded.texts (worded : Worded code ws) (level : Int) : Listed Runs (Code.texts level code) ws := by
  induction worded generalizing level with
  | nil => exact .nil
  | line runs _ ih => exact .cons (runs.indented level) (ih level)
  | block _ _ inner ih => exact .cons (runs_intercalate (inner (level + 1))) (ih level)
  | void _ ih => exact ih level

theorem Worded.layOut (worded : Worded code ws) (level : Int) (opened : List Open) :
    followAll opened (words (Code.layOut level code)) = followAll opened ws := by
  have runs := (runs_intercalate (worded.texts level)).run [] (.inl rfl) opened
  simpa [wordsFrom,Mode.pending,followAll,words,Code.layOut] using runs

/-- No loop waits for its `do`. -/
def Ready (opened : List Open) : Prop := opened.head? ≠ some .head

theorem follow_do (ready : Ready opened) : follow opened "do" = some (.body :: opened) := by
  cases opened with
  | nil => rfl
  | cons o outer =>
    have started : o ≠ .head := by simpa [Ready] using ready
    cases o with
    | head => exact absurd rfl started
    | test | branch | otherwise | body | function | repetition => rfl

/-- The code turns the first constructs into the second, over any others. -/
def Moves (code : List Code) (before after : List Open) : Prop := ∃ ws, Worded code ws ∧
    ∀ opened, Ready opened → followAll (before ++ opened) ws = some (after ++ opened)

namespace Moves

variable {xs : List Open} {text : String}

theorem nil : Moves [] xs xs := ⟨[],.nil,fun _ _ => rfl⟩

theorem append (first : Moves code xs ys) (second : Moves rest ys zs) : Moves (code ++ rest) xs zs := by
  obtain ⟨ws,worded,effect⟩ := first
  obtain ⟨ws',worded',effect'⟩ := second
  refine ⟨_,worded.append worded',fun opened ready => ?_⟩
  rw [followAll_append,effect opened ready,Option.bind_some,effect' opened ready]

theorem line (runs : Runs text ws)
    (effect : ∀ opened, Ready opened → followAll (xs ++ opened) ws = some (ys ++ opened)) :
    Moves [.line text] xs ys :=
  ⟨_,.line runs .nil,by simpa using effect⟩

theorem pieces (ps : List Piece) (holds : ∀ piece ∈ ps, piece.Holds)
    (route : settledWords .start ps = some ws)
    (effect : ∀ opened, Ready opened → followAll (xs ++ opened) ws = some (ys ++ opened)) :
    Moves [.line (render ps)] xs ys :=
  line (settled_render ps holds route).runs effect

theorem smooth (smooth : Smooth text) : Moves [.line text] xs xs := line smooth.runs fun _ _ => rfl

theorem smooths (all : ∀ text ∈ lines, Smooth text) : Moves (lines.map .line) xs xs := by
  induction lines with
  | nil => exact nil
  | cons text lines ih =>
    exact (smooth (all text (by simp))).append (ih fun text member => all text (by simp [member]))

theorem block (inside : Moves code xs ys) : Moves [.block code] xs ys := by
  obtain ⟨ws,worded,effect⟩ := inside
  exact ⟨_,.block worded .nil,by simpa using effect⟩

theorem void : Moves [.void] xs xs := ⟨[],.void .nil,fun _ _ => rfl⟩

theorem under (inside : Moves code [] []) (started : o ≠ .head) : Moves code [o] [o] := by
  obtain ⟨ws,worded,effect⟩ := inside
  exact ⟨ws,worded,fun opened _ => effect (o :: opened) (by simpa [Ready] using started)⟩

theorem ended (ends : o.ends = true) : Moves [.line "end"] [o] [] :=
  line end_passes.runs fun opened _ => by simpa [followAll] using follow_end ends opened

theorem balanced (moves : Moves code [] []) (level : Int) : Balanced (Code.layOut level code) := by
  obtain ⟨ws,worded,effect⟩ := moves
  rw [Balanced,worded.layOut]
  exact effect [] (by simp [Ready])

end Moves

end LuauCompiler.Luau
