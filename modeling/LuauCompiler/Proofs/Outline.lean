import LuauCompiler.Code.Basic
import Mathlib.Data.List.Basic

/-! Code laid out line by line. The lines are the texts of the code from front to back, each indented by
its depth, and a block that has no line of its own takes an empty one. -/
namespace LuauCompiler.Code

/-- A line of laid-out code: a text with its depth, or the empty line of a block that has no other. -/
abbrev Row := Option (Nat × String)

/-- A list with nothing but void entries has one empty line. -/
def filled (body : List Code) (rows : List Row) : List Row := if body.all (· = .void) then [none] else rows

mutual

def rows (depth : Nat) : Code → List Row
  | .line text => [some (depth,text)]
  | .block body => filled body (bodyRows (depth + 1) body)
  | .void => []

def bodyRows (depth : Nat) : List Code → List Row
  | [] => []
  | entry :: rest => entry.rows depth ++ bodyRows depth rest

end

/-- The lines of code that is not nested in any other. -/
def outline (code : List Code) : List Row := filled code (bodyRows 0 code)

/-- The row as a line of code that is indented by `level` as a whole. -/
def Row.line (level : Int) : Row → String
  | none => ""
  | some (depth,text) => String.ofList (List.replicate (4 * (max (level + depth) 0).toNat) ' ') ++ text

/-- The row that a line shows, unless it is the empty line of a block. -/
def Row.ofLine (level : Int) (line : List Char) : Row :=
  some ((line.takeWhile (· = ' ')).length / 4 - level.toNat,String.ofList (line.dropWhile (· = ' ')))

variable {code : List Code}

mutual

theorem rows_eq_nil_iff (depth : Nat) : (entry : Code) → (entry.rows depth = [] ↔ entry = .void)
  | .line _ => by simp [rows]
  | .void => by simp [rows]
  | .block body => by
    have inner := bodyRows_eq_nil_iff (depth + 1) body
    rw [rows,filled]
    split <;> simp_all

theorem bodyRows_eq_nil_iff (depth : Nat) : (code : List Code) →
    (bodyRows depth code = [] ↔ code.all (· = .void) = true)
  | [] => by simp [bodyRows]
  | entry :: rest => by simp [bodyRows,rows_eq_nil_iff depth entry,bodyRows_eq_nil_iff depth rest]

end

theorem filled_ne_nil (depth : Nat) (code : List Code) : filled code (bodyRows depth code) ≠ [] := by
  rw [filled]
  split
  · simp
  · rwa [ne_eq,bodyRows_eq_nil_iff]

def joined (level : Int) (rows : List Row) : String := String.intercalate "\n" (rows.map (Row.line level))

theorem joined_filled (level : Int) (depth : Nat) (code : List Code) :
    joined level (filled code (bodyRows depth code)) = joined level (bodyRows depth code) := by
  rw [filled]
  split
  · rw [(bodyRows_eq_nil_iff depth code).mpr ‹_›]
    rfl
  · rfl

mutual

theorem text?_eq (level : Int) (depth : Nat) : (entry : Code) → entry.text? (level + depth) =
    if entry.rows depth = [] then none else some (joined level (entry.rows depth))
  | .void => rfl
  | .line text => by
    have wide : (max (level + depth) 0).toNat = (level + depth).toNat := by omega
    simp [text?,rows,joined,Row.line,indentation,wide]
  | .block body => by
    have inner := (texts_eq level (depth + 1) body).2
    rw [text?,rows,if_neg (filled_ne_nil _ _),joined_filled,← inner,Int.natCast_add,← Int.add_assoc]
    rfl

theorem texts_eq (level : Int) (depth : Nat) : (code : List Code) →
    (texts (level + depth) code = [] ↔ bodyRows depth code = []) ∧
      String.intercalate "\n" (texts (level + depth) code) = joined level (bodyRows depth code)
  | [] => ⟨iff_of_true rfl rfl,rfl⟩
  | entry :: rest => by
    obtain ⟨empty,later⟩ := texts_eq level depth rest
    rw [texts,text?_eq level depth entry,bodyRows]
    by_cases none : entry.rows depth = []
    · simpa [none] using ⟨empty,later⟩
    · refine ⟨by simp [none],?_⟩
      simp only [none,if_false]
      by_cases last : bodyRows depth rest = []
      · rw [empty.mpr last,last,List.append_nil,String.intercalate_singleton]
      · rw [String.intercalate_cons_of_ne_nil (mt empty.mp last),later,joined,joined,joined,List.map_append,
          String.intercalate_append_of_ne_nil (by simpa using none) (by simpa using last)]

end

/-- Laying out writes the rows of the code one after the other. -/
theorem layOut_eq (level : Int) (code : List Code) : layOut level code = joined level (outline code) := by
  rw [outline,joined_filled,← (texts_eq level 0 code).2,Int.natCast_zero,Int.add_zero,layOut]

/-- The texts of the code satisfy the condition. -/
def AllTexts (P : List Char → Prop) (code : List Code) : Prop :=
  ∀ row ∈ outline code, ∀ shown ∈ row, P shown.2.toList

instance [DecidablePred P] : Decidable (AllTexts P code) :=
  inferInstanceAs (Decidable (∀ row ∈ outline code, ∀ shown ∈ row, P shown.2.toList))

theorem lines_layOut (level : Int) (single : AllTexts ('\n' ∉ ·) code) :
    (layOut level code).toList.splitOn '\n' = (outline code).map fun row => (row.line level).toList := by
  have newline : "\n".toList = ['\n'] := rfl
  rw [layOut_eq,joined,String.toList_intercalate,newline,List.splitOn_intercalate,List.map_map]
  · rfl
  · simp only [List.mem_map,forall_exists_index,and_imp,forall_apply_eq_imp_iff₂]
    intro row member
    cases row with
    | none => simp [Row.line]
    | some shown => simpa [Row.line] using single _ member shown rfl
  · simp [outline,filled_ne_nil]

theorem Row.ofLine_line (level : Int) (started : 0 ≤ level) (shown : Nat × String)
    (flush : shown.2.toList.head? ≠ some ' ') :
    Row.ofLine level (Row.line level (some shown)).toList = some shown := by
  have front : shown.2.toList.takeWhile (· = ' ') = [] ∧
      shown.2.toList.dropWhile (· = ' ') = shown.2.toList := by
    cases chars : shown.2.toList with
    | nil => simp
    | cons c cs =>
      have other : c ≠ ' ' := by simpa [chars] using flush
      simp [other]
  have depth : (max (level + shown.1) 0).toNat - level.toNat = shown.1 := by omega
  simp [Row.ofLine,Row.line,front,depth]

/-- Code in which every list of entries has a line, and no line is indented by its own text. -/
structure IsFlush (code : List Code) : Prop where
  full : none ∉ outline code
  flush : AllTexts (·.head? ≠ some ' ') code

theorem IsFlush.outline_eq (flush : IsFlush code) (level : Int) (started : 0 ≤ level)
    (single : AllTexts ('\n' ∉ ·) code) :
    outline code = ((layOut level code).toList.splitOn '\n').map (Row.ofLine level) := by
  have read (row : Row) (member : row ∈ outline code) : Row.ofLine level (row.line level).toList = row := by
    cases row with
    | none => exact absurd member flush.full
    | some shown => exact Row.ofLine_line level started shown (flush.flush _ member shown rfl)
  rw [lines_layOut level single,List.map_map]
  exact ((List.map_congr_left read).trans (List.map_id _)).symm

theorem IsFlush.map_some (flush : IsFlush code) : ((outline code).filterMap id).map some = outline code := by
  have all (rows : List Row) (full : none ∉ rows) : (rows.filterMap id).map some = rows := by
    induction rows with
    | nil => rfl
    | cons row rest ih => cases row <;> simp_all
  exact all _ flush.full

/-- The lines of laid-out code are its rows; and where every list of entries has a line and no text starts
with a space, the text of the code determines the depths and texts of its rows, and the other way round. -/
theorem layout_faithful (level : Int) (single : AllTexts ('\n' ∉ ·) code) :
    (layOut level code).toList.splitOn '\n' = (outline code).map (fun row => (row.line level).toList) ∧
    ∀ other, AllTexts ('\n' ∉ ·) other → 0 ≤ level → IsFlush code → IsFlush other →
      (layOut level code = layOut level other ↔
        (outline code).filterMap id = (outline other).filterMap id) := by
  refine ⟨lines_layOut level single,fun other single' started flush flush' => ⟨fun same => ?_,fun same => ?_⟩⟩
  · rw [flush.outline_eq level started single,flush'.outline_eq level started single',same]
  · rw [layOut_eq,layOut_eq,← flush.map_some,same,flush'.map_some]

def ifCode : List Code := [.line "if x then",.block [.line "f()",.block [.void]],.line "end"]

def nestedCode : List Code := [.line "f()",.block [.line "g()"]]

/-- At a negative level the texts at depth zero are not indented, and a block of void entries takes an empty
line. Entries that add no line make no difference, and a block in place of a line does. -/
theorem branch_layout :
    (layOut (-1) ifCode).toList.splitOn '\n' = ["if x then","f()","","end"].map String.toList ∧
    layOut 2 nestedCode = layOut 2 [.line "f()",.block [.void,.line "g()"],.void] ∧
    layOut 2 nestedCode ≠ layOut 2 [.line "f()",.line "g()"] := by
  have single : AllTexts ('\n' ∉ ·) nestedCode := by decide
  have nested := layout_faithful 2 single
  exact ⟨(layout_faithful (-1) (by decide)).1,
    (nested.2 _ (by decide) (by decide) ⟨by decide,by decide⟩ ⟨by decide,by decide⟩).mpr rfl,
    (nested.2 _ (by decide) (by decide) ⟨by decide,by decide⟩ ⟨by decide,by decide⟩).not.mpr (by decide)⟩

end LuauCompiler.Code
