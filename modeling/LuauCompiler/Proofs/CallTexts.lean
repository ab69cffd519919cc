import LuauCompiler.Proofs.IndexPieces
import LuauCompiler.Proofs.Leftovers
import LuauCompiler.Proofs.LostStatements
import LuauCompiler.Proofs.Luau
import Mathlib.Data.List.Infix

/-! How often a name is called in a text. A call is the name right in front of an opening parenthesis.
A character that stands in no name splits a text, so the calls of composed texts are those of their
parts, and the calls that the parts begin. -/
namespace LuauCompiler

/-- How often a part that is not empty occurs in the characters. -/
def Text.timesIn (part : List Char) : List Char → Nat
  | [] => 0
  | c :: rest => (if part <+: c :: rest then 1 else 0) + timesIn part rest

def Text.times (part text : String) : Nat := timesIn part.toList text.toList

section

open Text

theorem starts_break (apart : c ∉ g) : g ++ ['('] <+: x ++ c :: y ↔ g ++ ['('] <+: x ∨ c = '(' ∧ g = x := by
  induction g generalizing x with
  | nil => cases x <;> simp [eq_comm]
  | cons a g ih =>
    rw [List.mem_cons,not_or] at apart
    cases x with
    | nil => simp [Ne.symm apart.1]
    | cons d x => simp [ih apart.2,and_or_left,and_left_comm]

theorem timesIn_concat (other : c ≠ '(') : timesIn (g ++ ['(']) (x ++ [c]) = timesIn (g ++ ['(']) x := by
  have ends (front : List Char) : g ++ ['('] ≠ front ++ [c] := fun same =>
    other (List.singleton_inj.mp (List.append_inj' same rfl).2).symm
  induction x with
  | nil =>
    have none : ¬ g ++ ['('] <+: [] ++ [c] := by
      rw [List.prefix_concat_iff,or_iff_right (ends _)]
      simp
    simpa [timesIn] using none
  | cons d x ih =>
    have same : g ++ ['('] <+: d :: x ++ [c] ↔ g ++ ['('] <+: d :: x := by
      rw [List.prefix_concat_iff,or_iff_right (ends _)]
    simp only [List.cons_append,timesIn,ih] at same ⊢
    simp only [same]

theorem timesIn_break (apart : c ∉ g) : timesIn (g ++ ['(']) (x ++ c :: y) =
    timesIn (g ++ ['(']) x + (if c = '(' ∧ g <:+ x then 1 else 0) + timesIn (g ++ ['(']) y := by
  induction x with
  | nil =>
    have first := starts_break (y := y) (x := []) apart
    simp [timesIn] at first ⊢
    simp [first]
  | cons d x ih =>
    have first := starts_break (y := y) (x := d :: x) apart
    have longer : g = d :: x → ¬ g ++ ['('] <+: d :: x := by
      rintro rfl inside
      have longest := inside.length_le
      rw [List.length_append,List.length_singleton] at longest
      omega
    have shorter : g = d :: x → ¬ g <:+ x := by
      rintro rfl inside
      have longest := inside.length_le
      rw [List.length_cons] at longest
      omega
    simp only [List.cons_append,timesIn,ih,List.suffix_cons_iff] at first ⊢
    simp only [first]
    grind

end

/-- Letters, digits and underscores, and at least one of them. -/
def IsWord (g : String) : Prop := g ≠ "" ∧ ∀ c ∈ g.toList, Luau.isWordChar c = true

/-- How often the name is called in the text. -/
def callTimes (g text : String) : Nat := Text.times (g ++ "(") text

/-- How many of the words end in the name. -/
def endings (g : String) (words : List String) : Nat := words.countP fun word => g.toList <:+ word.toList

/-- The text calls nothing and splits what stands around it. -/
def Splits (separator : String) : Prop :=
  '(' ∉ separator.toList ∧ separator.toList.getLast?.any (!Luau.isWordChar ·) = true

instance (separator : String) : Decidable (Splits separator) := inferInstanceAs (Decidable (_ ∧ _))

section

variable {g : String}

theorem callTimes_eq (g text : String) : callTimes g text = Text.timesIn (g.toList ++ ['(']) text.toList := by
  rw [callTimes,Text.times,String.toList_append]
  rfl

@[simp] theorem callTimes_empty : callTimes g "" = 0 := by simp [callTimes_eq,Text.timesIn]

@[simp] theorem endings_nil : endings g [] = 0 := rfl

@[simp] theorem endings_append : endings g (words ++ more) = endings g words + endings g more :=
  List.countP_append

theorem endings_singleton (word : String) : endings g [word] = if g.toList <:+ word.toList then 1 else 0 := by
  simp [endings,List.countP_singleton]

theorem callTimes_closed (plain : '(' ∉ y.toList) : callTimes g (x ++ y) = callTimes g x := by
  rw [callTimes_eq,callTimes_eq,String.toList_append]
  generalize x.toList = front
  generalize y.toList = back at plain ⊢
  induction back generalizing front with
  | nil => simp
  | cons c rest ih =>
    rw [List.mem_cons,not_or] at plain
    rw [List.append_cons front c rest,ih _ plain.2,timesIn_concat (Ne.symm plain.1)]

theorem callTimes_plain (plain : '(' ∉ x.toList) : callTimes g x = 0 := by
  simpa using callTimes_closed (g := g) (x := "") plain

variable (word : IsWord g)

include word

theorem IsWord.apart (other : Luau.isWordChar c = false) : c ∉ g.toList := by
  intro member
  simp [word.2 c member] at other

theorem callTimes_split (splits : Splits separator) :
    callTimes g (x ++ separator ++ y) = callTimes g x + callTimes g y := by
  obtain ⟨plain,splits⟩ := splits
  rcases List.eq_nil_or_concat separator.toList with none | ⟨front,c,whole⟩
  · simp [none] at splits
  · rw [List.concat_eq_append] at whole
    rw [whole] at plain splits
    have other : c ≠ '(' := by rintro rfl; simp at plain
    have apart := word.apart (c := c) (by simpa using splits)
    have closed : callTimes g (x ++ String.ofList front) = callTimes g x :=
      callTimes_closed (by rw [String.toList_ofList]; simp_all)
    rw [callTimes_eq,String.toList_append,String.toList_ofList] at closed
    rw [callTimes_eq,String.toList_append,String.toList_append,whole,← List.append_assoc,
      List.append_assoc,List.singleton_append,timesIn_break apart,if_neg (by simp [other]),Nat.add_zero,
      closed,callTimes_eq,callTimes_eq]

theorem callTimes_behind (splits : Splits separator) : callTimes g (separator ++ y) = callTimes g y := by
  simpa using callTimes_split word (x := "") (y := y) splits

theorem callTimes_open : callTimes g (x ++ "(" ++ y) = callTimes g x + endings g [x] + callTimes g y := by
  have apart := word.apart (c := '(') (by decide)
  have whole : (x ++ "(" ++ y).toList = x.toList ++ '(' :: y.toList := by
    simp [String.toList_append]
  rw [callTimes_eq,whole,timesIn_break apart,callTimes_eq,callTimes_eq,endings_singleton]
  simp

theorem endings_empty : endings g [""] = 0 := by
  have nonempty : g.toList ≠ [] := fun none => word.1 (by simpa using none)
  simp [endings,nonempty]

theorem callTimes_parenthesised : callTimes g (Compile.parenthesised x) = callTimes g x := by
  have opened := callTimes_open word (x := "") (y := x)
  rw [String.empty_append,callTimes_empty,endings_empty word] at opened
  rw [Compile.parenthesised,callTimes_closed (by decide),opened]
  omega

theorem callTimes_operation (plain : '(' ∉ sign.toList) :
    callTimes g (Compile.infixText sign x y) = callTimes g x + callTimes g y := by
  have whole : Compile.infixText sign x y = x ++ (" " ++ sign ++ " ") ++ y := by
    simp [Compile.infixText,String.append_assoc]
  have splits : Splits (" " ++ sign ++ " ") := by
    refine ⟨by simp [plain],?_⟩
    rw [String.toList_append,show " ".toList = [' '] from rfl,List.getLast?_concat]
    decide
  rw [whole,callTimes_split word splits]

theorem callTimes_application (function : String) (plain : '(' ∉ function.toList) :
    callTimes g (function ++ "(" ++ x ++ ")") = endings g [function] + callTimes g x := by
  rw [callTimes_closed (by decide),callTimes_open word,callTimes_plain plain,Nat.zero_add]

theorem callTimes_callText (plain : '(' ∉ function.toList) : callTimes g (Compile.callText function x y) =
      endings g [function] + (callTimes g x + callTimes g y) := by
  have whole : Compile.callText function x y = function ++ "(" ++ (x ++ ", " ++ y) ++ ")" := by
    simp [Compile.callText,String.append_assoc]
  rw [whole,callTimes_application word function plain,callTimes_split word (by decide)]

theorem callTimes_intercalate (splits : Splits separator) (texts : List String) :
    callTimes g (String.intercalate separator texts) = Program.total (callTimes g) texts := by
  induction texts with
  | nil => simp [Program.total]
  | cons first rest ih =>
    cases rest with
    | nil => simp [Program.total]
    | cons second rest =>
      rw [String.intercalate_cons_cons,callTimes_split word splits,ih]
      rfl

theorem callTimes_asKey (front : String) (plain : '(' ∉ front.toList) :
    callTimes g (front ++ Compile.Membership.asKey.text x y) =
      endings g [front] + (callTimes g x + callTimes g y) := by
  have whole : front ++ Compile.Membership.asKey.text x y =
      front ++ "(" ++ (y ++ "[" ++ x) ++ "] ~= nil)" := by
    change front ++ ("(" ++ y ++ "[" ++ x ++ "] ~= nil)") = _
    simp only [String.append_assoc]
  rw [whole,callTimes_closed (by decide),callTimes_open word,callTimes_plain plain,
    callTimes_split word (by decide)]
  omega

section

open Compile

theorem callTimes_index (index : String) :
    callTimes g (x ++ indexText index) = callTimes g x + callTimes g index := by
  have pieces (cs : List Char) : callTimes g (x ++ String.join ((splitIndex cs).map fun piece =>
      "[" ++ String.ofList piece ++ "]")) = callTimes g x + callTimes g (String.ofList cs) := by
    have bracket (x : String) (piece : List Char) :
        callTimes g (x ++ ("[" ++ String.ofList piece ++ "]")) = callTimes g x + callTimes g (String.ofList piece) := by
      rw [← String.append_assoc,← String.append_assoc,callTimes_closed (by decide),callTimes_split word (by decide)]
    induction cs using splitIndex_induction generalizing x with
    | whole cs => simpa using bracket x cs
    | cut front rest pieces later =>
      have whole : String.ofList (front ++ ',' :: rest) = String.ofList front ++ "," ++ String.ofList rest := by
        simp [← String.toList_inj]
      rw [List.map_cons,String.join_cons,← String.append_assoc,later,bracket,whole,callTimes_split word (by decide),
        Nat.add_assoc]
  simpa [indexText] using pieces index.toList

end

omit word in
/-- What stands in front of the opening parentheses of a text. -/
def openingsFrom (before : List Char) : List Char → List String
  | [] => []
  | c :: rest => (if c = '(' then [String.ofList before] else []) ++ openingsFrom (before ++ [c]) rest

def openings (text : String) : List String := openingsFrom [] text.toList

theorem endings_openings (text : String) : endings g (openings text) = callTimes g text := by
  have counted (before rest : List Char) : Text.timesIn (g.toList ++ ['(']) (before ++ rest) =
        Text.timesIn (g.toList ++ ['(']) before + endings g (openingsFrom before rest) := by
    induction rest generalizing before with
    | nil => simp [openingsFrom]
    | cons c rest ih =>
      rw [List.append_cons before c rest,ih,openingsFrom,endings_append]
      by_cases isOpen : c = '('
      · subst isOpen
        rw [timesIn_break (word.apart (by decide)),if_pos rfl,endings_singleton]
        simp [Text.timesIn,Nat.add_assoc]
      · rw [timesIn_concat isOpen,if_neg isOpen]
        simp
  have all := counted [] text.toList
  rw [callTimes_eq,openings]
  simpa [Text.timesIn] using all.symm

def codeTimes (g : String) (code : List Code) : Nat := Program.total (callTimes g) (Code.lineTexts code)

omit word in
@[simp] theorem codeTimes_append (code rest : List Code) :
    codeTimes g (code ++ rest) = codeTimes g code + codeTimes g rest := by
  rw [codeTimes,Code.lineTexts_append,Program.total_append,codeTimes,codeTimes]

omit word in
@[simp] theorem codeTimes_block (code : List Code) : codeTimes g [.block code] = codeTimes g code := by
  rw [codeTimes,Code.lineTexts_block,codeTimes]

omit word in
@[simp] theorem codeTimes_line (text : String) : codeTimes g [.line text] = callTimes g text := by
  simp [codeTimes,Code.lineTexts,Code.lines,Code.linesIn,Program.total]

theorem callTimes_indented (level : Int) (text : String) :
    callTimes g (Code.indentation level ++ text) = callTimes g text := by
  rw [Code.indentation]
  cases 4 * level.toNat with
  | zero => simp
  | succ n =>
    have splits : Splits (String.ofList (List.replicate (n + 1) ' ')) := by
      refine ⟨by simp,?_⟩
      rw [String.toList_ofList,List.replicate_succ',List.getLast?_concat]
      decide
    exact callTimes_behind word splits

theorem total_texts : (level : Int) → (code : List Code) →
    Program.total (callTimes g) (Code.texts level code) = codeTimes g code
  | _,[] => rfl
  | level,.void :: rest => total_texts level rest
  | level,.line text :: rest => by
    rw [Code.texts,Code.text?,Program.total,callTimes_indented word,total_texts level rest,
      ← codeTimes_line,← codeTimes_append]
    rfl
  | level,.block body :: rest => by
    rw [Code.texts,Code.text?,Program.total,callTimes_intercalate word (by decide),
      total_texts (level + 1) body,total_texts level rest,← codeTimes_block,← codeTimes_append]
    rfl

theorem callTimes_layOut (level : Int) (code : List Code) :
    callTimes g (Code.layOut level code) = codeTimes g code := by
  rw [Code.layOut,callTimes_intercalate word (by decide),total_texts word]

end

end LuauCompiler
