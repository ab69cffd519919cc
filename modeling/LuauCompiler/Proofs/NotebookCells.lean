import LuauCompiler.Notebook
import Mathlib.Data.List.Basic

/-! The source text of a notebook. The source of a cell is a list of texts or one text, and what becomes
of the two forms depends on the type of the cell. -/
namespace LuauCompiler.Notebook

/-! ## Two forms of a source -/

def textOf (notebook : Json) : Except Failure String := do
  cellsText 1 (← items (← field notebook "cells"))

structure IsCell (cell : Json) (kind : String) (source : Json) : Prop where
  kind : field cell "cell_type" = .ok (.str kind)
  source : field cell "source" = .ok source

/-- The characters of the texts, each as a text. -/
def characters (lines : List String) : List String := (String.join lines).toList.map String.singleton

variable {cell cell' : Json} {before after : List Json} {lines : List String}

theorem texts_strs (lines : List String) : texts (.arr (lines.map .str)) = .ok lines := by
  change (lines.map Json.str).mapM _ = _
  induction lines with
  | nil => rfl
  | cons line rest ih =>
    rw [List.map_cons,List.mapM_cons,ih]
    rfl

theorem texts_str (lines : List String) : texts (.str (String.join lines)) = .ok (characters lines) := by
  have chars : (String.join lines).toList.map (fun c => Json.str (String.singleton c)) =
      (characters lines).map .str := by
    simp [characters]
  change ((String.join lines).toList.map _).mapM _ = _
  rw [chars]
  exact texts_strs _

theorem cellText_eq (own : IsCell cell kind source) (read : texts source = .ok lines)
    (known : kind = "code" ∨ kind = "markdown") :
    cellText cell = .ok (if kind = "code" then codeText lines else markdownText lines) := by
  rw [cellText,own.kind,own.source]
  rcases known with rfl | rfl
  · exact congrArg (· >>= fun lines => .ok (codeText lines)) read
  · exact congrArg (· >>= fun lines => .ok (markdownText lines)) read

theorem join_characters (lines : List String) : String.join (characters lines) = String.join lines := by
  simp [← String.toList_inj,characters,String.toList_join,List.flatMap_map]

def Fails (cells : List Json) : Prop := ∃ cell ∈ cells, ∃ e, cellText cell = .error e

theorem cellsText_cons (read : cellText cell = .ok text) (number : Nat) (rest : List Json) :
    cellsText number (cell :: rest) = (cellsText (number + 1) rest).map (heading number ++ text ++ ·) := by
  rw [cellsText,read]
  rfl

theorem fails_cons (read : cellText cell = .ok text) (rest : List Json) : Fails (cell :: rest) ↔ Fails rest := by
  simp [Fails,read]

theorem cellsText_fails_iff (number : Nat) (cells : List Json) :
    (∃ e, cellsText number cells = .error e) ↔ Fails cells := by
  induction cells generalizing number with
  | nil => simp [cellsText,Fails]
  | cons cell rest ih =>
    cases first : cellText cell with
    | error e => exact iff_of_true ⟨e,by rw [cellsText,first]; rfl⟩ ⟨cell,.head _,e,first⟩
    | ok text =>
      rw [cellsText_cons first,fails_cons first,← ih (number + 1)]
      cases cellsText (number + 1) rest <;> simp [Except.map]

theorem cellsText_eq_iff (read : cellText cell = .ok text) (read' : cellText cell' = .ok text') (number : Nat) :
    cellsText number (before ++ cell :: after) = cellsText number (before ++ cell' :: after) ↔
      text = text' ∨ Fails (before ++ after) := by
  induction before generalizing number with
  | nil =>
    rw [List.nil_append,List.nil_append,List.nil_append,cellsText_cons read,cellsText_cons read',
      ← cellsText_fails_iff (number + 1)]
    cases cellsText (number + 1) after <;> simp [Except.map]
  | cons first rest ih =>
    rw [List.cons_append,List.cons_append,List.cons_append]
    cases written : cellText first with
    | error e =>
      refine iff_of_true ?_ (.inr ⟨first,.head _,e,written⟩)
      rw [cellsText,cellsText,written]
      rfl
    | ok text =>
      rw [cellsText_cons written,cellsText_cons written,fails_cons written,← ih (number + 1)]
      cases cellsText (number + 1) (rest ++ cell :: after) <;>
        cases cellsText (number + 1) (rest ++ cell' :: after) <;> simp [Except.map]

theorem eq_of_tabs {l m : List String} (plain : ∀ line ∈ l, '\t' ∉ line.toList)
    (plain' : ∀ line ∈ m, '\t' ∉ line.toList) (some : l ≠ []) (some' : m ≠ [])
    (same : String.intercalate "\t" l = String.intercalate "\t" m) : l = m := by
  have split (l : List String) (plain : ∀ line ∈ l, '\t' ∉ line.toList) (some : l ≠ []) :
      (String.intercalate "\t" l).toList.splitOn '\t' = l.map String.toList := by
    rw [String.toList_intercalate]
    exact List.splitOn_intercalate '\t' (by simpa using plain) (by simpa using some)
  refine List.map_injective_iff.mpr (fun _ _ => String.toList_inj.mp) ?_
  rw [← split l plain some,same,split m plain' some']

/-- Such texts come to the same as their characters do with tabs between them only if each of them is one
character, or if there is nothing but an empty text. -/
theorem tabs_agree_iff (plain : ∀ line ∈ lines, '\t' ∉ line.toList) :
    String.intercalate "\t" lines = String.intercalate "\t" (characters lines) ↔
      (∀ line ∈ lines, ∃ c, line = String.singleton c) ∨ lines = [""] := by
  constructor
  · intro same
    by_cases none : lines = []
    · simp [none]
    by_cases empty : characters lines = []
    · rw [empty] at same
      exact .inr (eq_of_tabs (m := [""]) plain (by simp) none (by simp) same)
    · have own := eq_of_tabs plain (by
        simp only [characters,String.toList_join,List.mem_map,List.mem_flatMap]
        rintro _ ⟨c,⟨line,member,inside⟩,rfl⟩
        simpa using fun tab : '\t' = c => plain line member (tab ▸ inside)) none empty same
      refine .inl fun line member => ?_
      rw [own,characters] at member
      obtain ⟨c,-,rfl⟩ := List.mem_map.mp member
      exact ⟨c,rfl⟩
  · rintro (single | rfl)
    · have own : characters lines = lines := by
        rw [characters,String.toList_join]
        clear plain
        induction lines with
        | nil => rfl
        | cons line rest ih =>
          obtain ⟨⟨c,rfl⟩,others⟩ := List.forall_mem_cons.mp single
          simpa using ih others
      rw [own]
    · rfl

/-- The text of a notebook is the same for both forms of the source of a cell exactly if the cell is code, if
another cell fails, or if tabs between the texts come to the same as tabs between their characters. -/
theorem source_forms_agree_iff (before after : List Json) (lines : List String)
    (known : kind = "code" ∨ kind = "markdown") (listed : IsCell cell kind (.arr (lines.map .str)))
    (whole : IsCell cell' kind (.str (String.join lines)))
    (cells : field n "cells" = .ok (.arr (before ++ cell :: after)))
    (cells' : field m "cells" = .ok (.arr (before ++ cell' :: after))) :
    (textOf n = textOf m ↔ kind = "code" ∨ Fails (before ++ after) ∨
      String.intercalate "\t" lines = String.intercalate "\t" (characters lines)) ∧
    (∀ content, Json.parse content = .ok n → sourceText content = textOf n) ∧
    ((∀ line ∈ lines, '\t' ∉ line.toList) →
      (String.intercalate "\t" lines = String.intercalate "\t" (characters lines) ↔
        (∀ line ∈ lines, ∃ c, line = String.singleton c) ∨ lines = [""])) := by
  refine ⟨?_,fun content read => by rw [sourceText,read]; rfl,tabs_agree_iff⟩
  have text : textOf n = cellsText 1 (before ++ cell :: after) := by rw [textOf,cells]; rfl
  have text' : textOf m = cellsText 1 (before ++ cell' :: after) := by rw [textOf,cells']; rfl
  rw [text,text']
  rw [cellsText_eq_iff (cellText_eq listed (texts_strs lines) known) (cellText_eq whole (texts_str lines) known)]
  rcases known with rfl | rfl
  · simp [codeText,join_characters]
  · simp [markdownText,or_comm]

def single (kind : String) (source : Json) : Json :=
  .obj [("cells",.arr [.obj [("cell_type",.str kind),("source",source)]])]

theorem single_forms :
    textOf (single "code" (.arr [.str "ab",.str "c"])) = textOf (single "code" (.str "abc")) ∧
    textOf (single "markdown" (.arr [.str "ab",.str "c"])) ≠ textOf (single "markdown" (.str "abc")) ∧
    textOf (single "markdown" (.arr [.str "a",.str "b"])) = textOf (single "markdown" (.str "ab")) := by
  have forms (kind : String) (known : kind = "code" ∨ kind = "markdown") (lines : List String) :=
    (source_forms_agree_iff (n := single kind (.arr (lines.map .str)))
      (m := single kind (.str (String.join lines))) [] [] lines known ⟨rfl,rfl⟩ ⟨rfl,rfl⟩ rfl rfl).1
  refine ⟨(forms "code" (.inl rfl) ["ab","c"]).mpr (.inl rfl),?_,
    (forms "markdown" (.inr rfl) ["a","b"]).mpr (.inr (.inr rfl))⟩
  refine (forms "markdown" (.inr rfl) ["ab","c"]).not.mpr ?_
  rintro (other | ⟨_,member,-⟩ | same)
  · exact absurd other (by decide)
  · cases member
  · exact absurd same (by decide)

/-- The characters of a single text come apart. -/
theorem single_text_comes_apart :
    (sourceText "\x7b\"cells\":[\x7b\"cell_type\":\"markdown\",\"source\":[\"ab\"]\x7d]\x7d").toOption =
        some "\n\n\"\"\" Cell: 1: \"\"\" \n\n\n\"\"\" MD:\n\tab\n\"\"\"\n" ∧
    (sourceText "\x7b\"cells\":[\x7b\"cell_type\":\"markdown\",\"source\":\"ab\"\x7d]\x7d").toOption =
        some "\n\n\"\"\" Cell: 1: \"\"\" \n\n\n\"\"\" MD:\n\ta\tb\n\"\"\"\n" := by
  decide +kernel

/-! ## Literals -/

/-- Behind the quotes that open a literal: its characters, and what is behind the quotes that close it. A
backslash takes the next character with it. -/
def literal? : List Char → Option (List Char × List Char)
  | '\\' :: c :: rest => (literal? rest).map fun read => ('\\' :: c :: read.1,read.2)
  | '"' :: '"' :: '"' :: rest => some ([],rest)
  | c :: rest => (literal? rest).map fun read => (c :: read.1,read.2)
  | [] => none

/-- White space between lexical units. -/
def isBlank (c : Char) : Bool := [' ','\t','\n','\r','\x0c'].contains c

/-- In front of the rest there are white space and literals with these characters, and nothing else. -/
inductive Literals (rest : List Char) : List Char → List (List Char) → Prop
  | done : Literals rest rest []
  | blank (blank : isBlank c = true) (others : Literals rest cs bodies) : Literals rest (c :: cs) bodies
  | literal (read : literal? cs = some (body,behind)) (others : Literals rest behind bodies) :
    Literals rest ('"' :: '"' :: '"' :: cs) (body :: bodies)

/-- The number of backslashes at the end. -/
def slashes (cs : List Char) : Nat := (cs.reverse.takeWhile (· = '\\')).length

/-- Of any three quotes in a row the first is behind an odd number of backslashes. -/
def IsContained (cs : List Char) : Prop :=
  ∀ front back, cs = front ++ '"' :: '"' :: '"' :: back → slashes front % 2 = 1

theorem slashes_append (ds cs : List Char) : slashes (ds ++ cs) =
    slashes cs + if slashes cs = cs.length then slashes ds else 0 := by
  simp only [slashes,List.reverse_append,List.takeWhile_append,List.length_reverse]
  split <;> simp_all

theorem slashes_cons (other : c ≠ '\\') (cs : List Char) : slashes (c :: cs) = slashes cs := by
  have none : slashes [c] = 0 := by simp [slashes,other]
  rw [← List.singleton_append,slashes_append,none,ite_self,Nat.add_zero]

theorem slashes_escape (c : Char) (cs : List Char) : slashes ('\\' :: c :: cs) % 2 = slashes cs % 2 := by
  have even : slashes ['\\',c] % 2 = 0 := by
    by_cases slash : c = '\\' <;> simp [slashes,slash]
  have whole := slashes_append ['\\',c] cs
  rw [List.cons_append,List.singleton_append] at whole
  split at whole <;> omega

theorem isContained_escape (c : Char) (cs : List Char) : IsContained ('\\' :: c :: cs) ↔ IsContained cs := by
  constructor
  · intro contained front back split
    rw [← slashes_escape c front]
    exact contained _ back (by simp [split])
  · rintro contained (_ | ⟨_,_ | ⟨_,front⟩⟩) back split <;> cases split
    · rfl
    · rw [slashes_escape]
      exact contained front back rfl

theorem isContained_cons (other : c ≠ '\\') (apart : ∀ back, c :: cs ≠ '"' :: '"' :: '"' :: back) :
    IsContained (c :: cs) ↔ IsContained cs := by
  constructor
  · intro contained front back split
    rw [← slashes_cons other]
    exact contained _ back (by simp [split])
  · rintro contained (_ | ⟨_,front⟩) back split
    · exact absurd split (apart back)
    · cases split
      rw [slashes_cons other]
      exact contained front back rfl

/-- A text is the body of a literal up to a line feed and the closing quotes exactly if it is contained. -/
theorem literal?_iff (cs rest : List Char) :
    literal? (cs ++ '\n' :: '"' :: '"' :: '"' :: rest) = some (cs ++ ['\n'],rest) ↔ IsContained cs := by
  induction cs using literal?.induct with
  | case1 c cs ih =>
    rw [isContained_escape,← ih]
    simp [literal?]
  | case2 cs =>
    refine iff_of_false (by simp [literal?]) fun contained => ?_
    exact absurd (contained [] cs rfl) (by decide)
  | case3 c cs escape quotes ih =>
    by_cases slash : c = '\\'
    · -- a backslash at the end takes the line feed with it
      obtain rfl : cs = [] := by
        cases cs with
        | nil => rfl
        | cons d cs => exact (escape d cs slash rfl).elim
      subst slash
      refine iff_of_true rfl fun front back split => ?_
      have long := congrArg List.length split
      simp only [List.length_append,List.length_cons,List.length_nil] at long
      omega
    · have apart (tail back : List Char) (blank : tail.head? ≠ some '"') :
          c :: (cs ++ tail) ≠ '"' :: '"' :: '"' :: back := by
        rcases cs with _ | ⟨d,_ | ⟨e,cs⟩⟩ <;> intro same <;> simp_all
      rw [isContained_cons slash (by simpa using fun back => apart [] back (by simp)),← ih,List.cons_append,literal?]
      · simp
      · exact fun d more first => absurd first slash
      · exact fun back first more => apart ('\n' :: _) back (by simp) (by rw [first,more])
  | case4 => exact iff_of_true rfl fun front back split => by simp at split

theorem literal?_plain (plain : ∀ c ∈ cs, c ≠ '"' ∧ c ≠ '\\') (rest : List Char) :
    literal? (cs ++ '"' :: '"' :: '"' :: rest) = some (cs,rest) := by
  induction cs with
  | nil => rfl
  | cons c cs ih =>
    obtain ⟨⟨quote,slash⟩,others⟩ := List.forall_mem_cons.mp plain
    rw [List.cons_append,literal?,ih others]
    · rfl
    · exact fun _ _ first => absurd first slash
    · exact fun _ first => absurd first quote

/-- The characters of the literal that is the heading of a cell. -/
def headingBody (number : Nat) : List Char := (" Cell: " ++ toString number ++ ": ").toList

def markdownBody (source : List String) : List Char :=
  (" MD:\n\t" ++ String.intercalate "\t" source).toList ++ ['\n']

theorem headingBody_plain (number : Nat) : ∀ c ∈ headingBody number, c ≠ '"' ∧ c ≠ '\\' := by
  have parts (a b c : String) : (a ++ b ++ c).toList = a.toList ++ b.toList ++ c.toList := by simp
  have plain (cs : List Char) (all : (cs.all fun c => c ≠ '"' && c ≠ '\\') = true) :
      ∀ c ∈ cs, c ≠ '"' ∧ c ≠ '\\' := by
    simpa using all
  intro c member
  rw [headingBody,parts,List.mem_append,List.mem_append] at member
  obtain (front | digit) | back := member
  · exact plain _ (by decide) c front
  · rw [Nat.toString_eq_ofList_toDigits,String.toList_ofList] at digit
    have digit : c.isDigit = true := Nat.isDigit_of_mem_toDigits (by decide) (by decide) digit
    constructor <;> rintro rfl <;> cases digit
  · exact plain _ (by decide) c back

theorem literal?_split (read : literal? cs = some (body,behind)) : cs = body ++ '"' :: '"' :: '"' :: behind := by
  fun_induction literal? cs generalizing body with
  | case1 c cs ih | case3 c cs _ _ ih =>
    obtain ⟨⟨inner,_⟩,found,same⟩ := Option.map_eq_some_iff.mp read
    cases same
    rw [ih found]
    rfl
  | case2 cs => cases read; rfl
  | case4 => cases read

variable {cs rest : List Char} {bodies : List (List Char)}

theorem literals_blank (blank : isBlank c = true) :
    Literals rest (c :: cs) (body :: bodies) ↔ Literals rest cs (body :: bodies) := by
  refine ⟨fun read => ?_,.blank blank⟩
  cases read with
  | blank _ others => exact others
  | literal => cases blank

theorem literals_literal : Literals rest ('"' :: '"' :: '"' :: cs) (body :: bodies) ↔
    ∃ behind, literal? cs = some (body,behind) ∧ Literals rest behind bodies := by
  refine ⟨fun read => ?_,fun ⟨_,read,others⟩ => .literal read others⟩
  cases read with
  | blank blank => cases blank
  | literal read others => exact ⟨_,read,others⟩

theorem cell_chars (number : Nat) (source : List String) (rest : List Char) :
    (heading number ++ markdownText source).toList ++ rest =
      '\n' :: '\n' :: '"' :: '"' :: '"' :: (headingBody number ++ '"' :: '"' :: '"' :: ' ' :: '\n' :: '\n' :: '\n' ::
        '"' :: '"' :: '"' :: ((" MD:\n\t" ++ String.intercalate "\t" source).toList ++
          '\n' :: '"' :: '"' :: '"' :: '\n' :: rest)) := by
  have joined (a b c d e f g h i : String) : (((a ++ b) ++ c ++ (d ++ e)) ++ ((f ++ g) ++ h ++ i)).toList ++ rest =
      a.toList ++ ((b ++ c ++ d).toList ++ (e.toList ++ (f.toList ++ ((g ++ h).toList ++ (i.toList ++ rest))))) := by
    simp
  have front : "\n\n\"\"\" Cell: " = "\n\n\"\"\"" ++ " Cell: " := by decide
  have back : ": \"\"\" \n\n" = ": " ++ "\"\"\" \n\n" := by decide
  have inner : "\n\"\"\" MD:\n\t" = "\n\"\"\"" ++ " MD:\n\t" := by decide
  rw [heading,markdownText,front,back,inner,joined]
  rfl

theorem literals_cell_iff (number : Nat) (source : List String) (rest : List Char) :
    Literals rest ((heading number ++ markdownText source).toList ++ rest)
      [headingBody number,markdownBody source] ↔ IsContained (String.intercalate "\t" source).toList := by
  have opened : IsContained (" MD:\n\t" ++ String.intercalate "\t" source).toList ↔
      IsContained (String.intercalate "\t" source).toList := by
    rw [String.toList_append]
    change IsContained (' ' :: 'M' :: 'D' :: ':' :: '\n' :: '\t' :: _) ↔ _
    rw [isContained_cons,isContained_cons,isContained_cons,isContained_cons,isContained_cons,isContained_cons] <;>
      simp
  rw [cell_chars,literals_blank rfl,literals_blank rfl,literals_literal,literal?_plain (headingBody_plain number),
    ← opened,← literal?_iff _ ('\n' :: rest)]
  constructor
  · rintro ⟨_,same,read⟩
    cases same
    rw [literals_blank rfl,literals_blank rfl,literals_blank rfl,literals_blank rfl,literals_literal] at read
    obtain ⟨behind,read,-⟩ := read
    -- the body of the literal ends where the text does, and so the same is left behind it
    have split := literal?_split read
    rw [markdownBody,List.append_assoc,List.append_cancel_left_eq] at split
    cases split
    exact read
  · intro read
    refine ⟨_,rfl,?_⟩
    rw [literals_blank rfl,literals_blank rfl,literals_blank rfl,literals_blank rfl,literals_literal]
    exact ⟨_,read,.blank rfl .done⟩

/-- The text of a markdown cell is the literal of its heading and one literal with the markdown, with only
white space around them, and what comes behind it starts outside of them, exactly if the markdown does not
close the literal. -/
theorem markdown_contained_iff (number : Nat) (source : List String) :
    (∀ rest, Literals rest ((heading number ++ markdownText source).toList ++ rest)
      [headingBody number,markdownBody source]) ↔
    IsContained (String.intercalate "\t" source).toList :=
  ⟨fun read => (literals_cell_iff number source []).mp (read []),
    fun contained rest => (literals_cell_iff number source rest).mpr contained⟩

/-- Quotes in the markdown close the literal, and what is between them is code. -/
theorem quotes_close_literal : ¬ Literals [] ((heading 1 ++ markdownText ["\"\"\"f()\"\"\""]).toList ++ [])
      [headingBody 1,markdownBody ["\"\"\"f()\"\"\""]] := by
  rw [literals_cell_iff]
  exact fun contained => absurd (contained [] _ rfl) (by decide)

end LuauCompiler.Notebook
