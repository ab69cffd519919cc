import LuauCompiler.Proofs.Statements

/-! Which statements are emitted. What stands behind a branching statement in an else part is dropped,
and so are the else parts of loops and of statements with handlers. -/
namespace LuauCompiler

/-! ## The calls of a tree -/

structure Leaf where
  name : String
  reached : Bool := true
  deriving DecidableEq, Repr

namespace Leaf

def text (leaf : Leaf) : String := leaf.name ++ "()"

def dropped (leaf : Leaf) : Leaf := { leaf with reached := false }

def reachedTexts (ls : List Leaf) : List String := (ls.filter (·.reached)).map text

theorem reachedTexts_append (xs ys : List Leaf) :
    reachedTexts (xs ++ ys) = reachedTexts xs ++ reachedTexts ys := by
  simp [reachedTexts]

theorem reachedTexts_dropped (ls : List Leaf) : reachedTexts (ls.map dropped) = [] := by
  simp [reachedTexts,dropped,List.filter_map,Function.comp_def]

theorem reachedTexts_eq_iff (ls : List Leaf) :
    reachedTexts ls = ls.map text ↔ ∀ leaf ∈ ls, leaf.reached = true := by
  constructor
  · intro same
    have lengths := congrArg List.length same
    rw [reachedTexts,List.length_map,List.length_map] at lengths
    exact List.length_filter_eq_length_iff.mp lengths
  · intro all
    rw [reachedTexts,List.filter_eq_self.mpr all]

end Leaf

mutual

/-- The calls of a statement in the order of the source, marked by whether they are reached. -/
def leaves : Node → List Leaf
  | .exprStmt (.call (.name (some name) _) [] []) => [{ name }]
  | .ifStmt _ body orElse => leavesOf body ++ elseLeaves orElse
  | .whileStmt _ body orElse => leavesOf body ++ (leavesOf orElse).map .dropped
  | .forStmt _ _ _ body orElse _ => leavesOf body ++ (leavesOf orElse).map .dropped
  | .tryStmt _ body handlers orElse finalBody =>
    leavesOf body ++ leavesOf handlers ++ (leavesOf orElse).map .dropped ++ leavesOf finalBody
  | .handler _ _ body => leavesOf body
  | .withStmt _ _ body _ => leavesOf body
  | .functionDef _ _ _ body _ _ _ => leavesOf body
  | _ => []

def leavesOf : List Node → List Leaf
  | [] => []
  | n :: ns => leaves n ++ leavesOf ns

/-- Of an else part that starts with a branching statement only that statement is reached. -/
def elseLeaves : List Node → List Leaf
  | [] => []
  | n :: ns => leaves n ++ if n.isBranch then (leavesOf ns).map .dropped else leavesOf ns

end

/-- Statements whose only simple statements are calls. -/
inductive Skeletal : Form → Node → Prop
  | call : Skeletal .statement (.exprStmt (.call (.name (some name) access) [] []))
  | ifStmt (expr : IsExpr test) (inside : ∀ n ∈ body, Skeletal .statement n)
    (others : ∀ n ∈ orElse, Skeletal .statement n) : Skeletal .statement (.ifStmt test body orElse)
  | whileStmt (expr : IsExpr test) (inside : ∀ n ∈ body, Skeletal .statement n) :
    Skeletal .statement (.whileStmt test body orElse)
  | forStmt (place : IsExpr target) (expr : IsExpr iter)
    (inside : ∀ n ∈ body, Skeletal .statement n) :
    Skeletal .statement (.forStmt false target iter body orElse typeComment)
  | functionDef (exprs : ∀ e ∈ defaults, IsExpr e) (markers : ∀ e ∈ decorators, IsExpr e)
    (inside : ∀ n ∈ body, Skeletal .statement n) :
    Skeletal .statement (.functionDef false name
      (.params posOnly regular rest kwOnly kwDefaults kwRest defaults) body decorators returns
      typeComment)
  | withStmt
    (exprs : ∀ i ∈ items, ∃ context vars, i = .withItem context vars ∧ IsExpr context ∧ IsExpr vars)
    (inside : ∀ n ∈ body, Skeletal .statement n) :
    Skeletal .statement (.withStmt false items body typeComment)
  | tryStmt (inside : ∀ n ∈ body, Skeletal .statement n)
    (handled : ∀ h ∈ handlers, Skeletal .handler h)
    (last : ∀ n ∈ finalBody, Skeletal .statement n) :
    Skeletal .statement (.tryStmt false body handlers orElse finalBody)
  | handler (inside : ∀ n ∈ body, Skeletal .statement n) : Skeletal .handler (.handler type name body)

theorem Skeletal.sentence (skeletal : Skeletal form n) : Sentence form n := by
  induction skeletal with
  | call => exact .exprStmt (.call .name (by simp) (by simp))
  | _ => constructor <;> assumption

/-! ## Texts in a text -/

def Occurs (piece text : String) : Prop := piece.toList <:+: text.toList

theorem not_occurs (inside : c ∈ piece.toList) (outside : c ∉ text.toList) : ¬Occurs piece text :=
  fun found => outside (found.subset inside)

/-- The pieces occur in the text, one after the other. -/
def InOrder : List String → String → Prop
  | [], _ => True
  | piece :: pieces, text => ∃ before after, text = before ++ piece ++ after ∧ InOrder pieces after

namespace InOrder

theorem behind (before : String) (found : InOrder pieces text) : InOrder pieces (before ++ text) := by
  cases pieces with
  | nil => trivial
  | cons piece pieces =>
    obtain ⟨earlier,after,rfl,rest⟩ := found
    exact ⟨before ++ earlier,after,by simp only [String.append_assoc],rest⟩

theorem append (first : InOrder pieces text) (second : InOrder more after) :
    InOrder (pieces ++ more) (text ++ after) := by
  induction pieces generalizing text with
  | nil => exact second.behind text
  | cons piece pieces ih =>
    obtain ⟨earlier,later,rfl,rest⟩ := first
    exact ⟨earlier,later ++ after,by simp only [String.append_assoc],ih rest⟩

theorem sublist (found : InOrder pieces text) (fewer : more.Sublist pieces) : InOrder more text := by
  induction fewer generalizing text with
  | slnil => trivial
  | cons piece _ ih =>
    obtain ⟨before,after,rfl,rest⟩ := found
    exact (ih rest).behind _
  | cons_cons piece _ ih =>
    obtain ⟨before,after,rfl,rest⟩ := found
    exact ⟨before,after,rfl,ih rest⟩

theorem occurs (found : InOrder pieces text) (member : piece ∈ pieces) : Occurs piece text := by
  obtain ⟨before,after,rfl,_⟩ := found.sublist (List.singleton_sublist.mpr member)
  exact ⟨before.toList,after.toList,by simp⟩

end InOrder

theorem infix_apart (other : c ∉ w) (found : w <:+: xs ++ c :: ys) : w <:+: xs ∨ w <:+: ys := by
  obtain ⟨before,after,same⟩ := found
  rcases List.append_eq_append_iff.mp same with ⟨rest,rfl,_⟩ | ⟨rest,same',same''⟩
  · exact .inl ⟨before,rest,rfl⟩
  · cases rest with
    | nil => exact .inl ⟨before,[],by simpa using same'⟩
    | cons d rest =>
      obtain ⟨rfl,rfl⟩ := List.cons.inj same''
      rcases List.append_eq_append_iff.mp same' with ⟨left,_,rfl⟩ | ⟨left,_,same''⟩
      · simp at other
      · cases left with
        | nil =>
          obtain rfl : c :: rest = w := same''
          simp at other
        | cons d left =>
          obtain ⟨_,rfl⟩ := List.cons.inj same''
          exact .inr ⟨left,after,rfl⟩

theorem infix_indented (blank : ' ' ∉ w) (found : w <:+: List.replicate n ' ' ++ text) : w <:+: text := by
  induction n with
  | zero => exact found
  | succ n ih =>
    have cut : w <:+: [] ++ ' ' :: (List.replicate n ' ' ++ text) := found
    rcases infix_apart blank cut with nothing | later
    · rw [List.infix_nil.mp nothing]
      exact List.nil_infix
    · exact ih later

/-- A piece in one go, without blanks and line breaks. -/
structure Solid (piece : String) : Prop where
  nonempty : piece.toList ≠ []
  blank : ' ' ∉ piece.toList
  oneLine : '\n' ∉ piece.toList

theorem occurs_intercalate (solid : Solid piece)
    (found : Occurs piece (String.intercalate "\n" texts)) : ∃ text ∈ texts, Occurs piece text := by
  induction texts with
  | nil => exact absurd (List.infix_nil.mp (by simpa [Occurs] using found)) solid.nonempty
  | cons text texts ih =>
    cases texts with
    | nil => exact ⟨text,by simp,by simpa using found⟩
    | cons next texts =>
      rw [String.intercalate_cons_cons,Occurs,String.toList_append,String.toList_append,
        List.append_assoc] at found
      rcases infix_apart solid.oneLine found with here | later
      · exact ⟨text,by simp,here⟩
      · obtain ⟨line,member,inside⟩ := ih later
        exact ⟨line,by simp [member],inside⟩

/-! ## The lines of emitted code -/

namespace Code

variable {code : List Code}

def startsVoid : List Code → Bool
  | .void :: _ => true
  | _ => false

theorem startsVoid_append (first : startsVoid code = false) (second : startsVoid rest = false) :
    startsVoid (code ++ rest) = false := by
  cases code with
  | nil => exact second
  | cons entry code =>
    cases entry with
    | void => cases first
    | line | block => rfl

mutual

/-- The lines of an entry. A line is marked if it is the text of an expression statement. -/
def linesIn (mark : Bool) : Code → List (String × Bool)
  | .line text => [(text,mark)]
  | .block body => lines body
  | .void => []

/-- The lines of code in their order. The text of an expression statement is a line with an empty
entry behind it. -/
def lines : List Code → List (String × Bool)
  | [] => []
  | entry :: rest => linesIn (startsVoid rest) entry ++ lines rest

end

def statements (code : List Code) : List String := ((lines code).filter (·.2)).map (·.1)

def headers (code : List Code) : List String := ((lines code).filter (!·.2)).map (·.1)

def lineTexts (code : List Code) : List String := (lines code).map (·.1)

theorem lineTexts_cons (entry : Code) (rest : List Code) :
    lineTexts (entry :: rest) = (entry.linesIn false).map (·.1) ++ lineTexts rest := by
  cases entry <;> simp [lineTexts,lines,linesIn]

@[simp] theorem lineTexts_append (code rest : List Code) :
    lineTexts (code ++ rest) = lineTexts code ++ lineTexts rest := by
  induction code with
  | nil => rfl
  | cons entry code ih => simp [lineTexts_cons,ih]

@[simp] theorem lineTexts_lines (texts : List String) : lineTexts (texts.map .line) = texts := by
  induction texts with
  | nil => rfl
  | cons text rest ih => simp [lineTexts_cons,linesIn,ih]

@[simp] theorem lineTexts_block (code : List Code) : lineTexts [.block code] = lineTexts code := by
  simp [lineTexts,lines,linesIn]

theorem intercalate_cons (text : String) (texts : List String) :
    ∃ separator, String.intercalate "\n" (text :: texts) =
      text ++ (separator ++ String.intercalate "\n" texts) := by
  cases texts with
  | nil => exact ⟨"",by simp⟩
  | cons next texts => exact ⟨"\n",by rw [String.intercalate_cons_cons,String.append_assoc]⟩

theorem lines_inOrder (level : Int) :
    (code : List Code) → InOrder ((lines code).map (·.1)) (layOut level code)
  | [] => trivial
  | .void :: rest => lines_inOrder level rest
  | .line text :: rest => by
    obtain ⟨separator,joined⟩ := intercalate_cons (indentation level ++ text) (texts level rest)
    rw [layOut,texts,text?,joined]
    exact ⟨indentation level,_,rfl,(lines_inOrder level rest).behind separator⟩
  | .block body :: rest => by
    obtain ⟨separator,joined⟩ := intercalate_cons (layOut (level + 1) body) (texts level rest)
    rw [layOut,texts,text?,← layOut,joined,lines,linesIn,List.map_append]
    exact (lines_inOrder (level + 1) body).append ((lines_inOrder level rest).behind separator)

theorem statements_inOrder (level : Int) (code : List Code) : InOrder (statements code) (layOut level code) :=
  (lines_inOrder level code).sublist (List.filter_sublist.map _)

theorem occurs_texts (solid : Solid piece) : ∀ (level : Int) (code : List Code),
    ∀ text ∈ texts level code, Occurs piece text → ∃ line ∈ lines code, Occurs piece line.1
  | level, .void :: rest, text, member, found => occurs_texts solid level rest text member found
  | level, .line written :: rest, text, member, found => by
    rcases List.mem_cons.mp member with rfl | later
    · rw [Occurs,String.toList_append,indentation,String.toList_ofList] at found
      exact ⟨_,List.mem_cons_self,infix_indented solid.blank found⟩
    · obtain ⟨found_line,member',found'⟩ := occurs_texts solid level rest text later found
      exact ⟨found_line,List.mem_append_right _ member',found'⟩
  | level, .block body :: rest, text, member, found => by
    rcases List.mem_cons.mp member with rfl | later
    · obtain ⟨text,member,found⟩ := occurs_intercalate solid found
      obtain ⟨found_line,member',found'⟩ := occurs_texts solid (level + 1) body text member found
      exact ⟨found_line,List.mem_append_left _ member',found'⟩
    · obtain ⟨found_line,member',found'⟩ := occurs_texts solid level rest text later found
      exact ⟨found_line,List.mem_append_right _ member',found'⟩

theorem occurs_layOut (solid : Solid piece) (found : Occurs piece (layOut level code)) :
    (∃ text ∈ statements code, Occurs piece text) ∨ ∃ text ∈ headers code, Occurs piece text := by
  obtain ⟨text,member,found⟩ := occurs_intercalate solid found
  obtain ⟨⟨marked,mark⟩,member,found⟩ := occurs_texts solid level code text member found
  cases mark with
  | true => exact .inl ⟨marked,List.mem_map.mpr ⟨_,List.mem_filter.mpr ⟨member,rfl⟩,rfl⟩,found⟩
  | false => exact .inr ⟨marked,List.mem_map.mpr ⟨_,List.mem_filter.mpr ⟨member,rfl⟩,rfl⟩,found⟩

/-- As expression statements the code has the given texts and no others. -/
structure Keeps (code : List Code) (kept : List String) : Prop where
  starts : startsVoid code = false
  append_statements : ∀ rest, startsVoid rest = false → statements (code ++ rest) = kept ++ statements rest

namespace Keeps

theorem nil : Keeps [] [] := ⟨rfl,fun _ _ => rfl⟩

theorem congr (keeps : Keeps code kept) (same : kept = others) : Keeps code others := same ▸ keeps

theorem append (first : Keeps code kept) (second : Keeps more others) :
    Keeps (code ++ more) (kept ++ others) := by
  refine ⟨startsVoid_append first.starts second.starts,fun rest later => ?_⟩
  rw [List.append_assoc,first.append_statements _ (startsVoid_append second.starts later),
    second.append_statements rest later,List.append_assoc]

theorem line : Keeps [.line text] [] := ⟨rfl,fun rest later => by simp [statements,lines,linesIn,later]⟩

theorem lines {lines : List String} : Keeps (lines.map .line) [] := by
  induction lines with
  | nil => exact nil
  | cons text lines ih => exact line.append ih

theorem optional {condition : Bool} (keeps : Keeps code []) : Keeps (if condition then code else []) [] := by
  cases condition with
  | true => exact keeps
  | false => exact nil

theorem call : Keeps [.line text,.void] [text] := ⟨rfl,fun _ _ => rfl⟩

theorem statements_eq (keeps : Keeps code kept) : statements code = kept := by
  simpa [statements,Code.lines] using keeps.append_statements [] rfl

theorem block (inside : Keeps code kept) : Keeps [.block code] kept := by
  refine ⟨rfl,fun rest _ => ?_⟩
  rw [← inside.statements_eq]
  simp [statements,Code.lines,linesIn]

end Keeps

end Code

namespace Compile

open Code Leaf

variable {config : Option Config} {a b : Scene}

theorem call_lines {name : String} {lines : List String}
    (spelled : Spells config a (.call (.name (some name) access) [] []) lines b) :
    lines = [name ++ "()"] := by
  obtain ⟨_,s,t,_,_,fresh,run,out⟩ := spelled
  have writes : Says Quiet (fun _ => True) (· = [name ++ "()"])
      (visit config (.call (.name (some name) access) [] [])) := by
    refine .after (name_tells name) fun text same => .guarded (.needs _) ?_
    refine .after (T := (· = [])) (.pure rfl) fun texts none => ?_
    subst same none
    refine .emit ?_
    simp [Text.commaSeparated,String.append_assoc]
  obtain ⟨_,written,out',same⟩ := writes.run s [] t trivial fresh run
  rw [out,List.nil_append] at out'
  have listed := congrArg linesOf? (Code.block.inj out')
  rw [linesOf_map_line,linesOf_map_line] at listed
  rw [Option.some.inj listed,same]

def Row.leaves : Row → List Node → List Leaf
  | .otherwise, ns => elseLeaves ns
  | _, ns => leavesOf ns

def Row.form : Row → Form
  | .handlers .. => .handler
  | .cases .. => .case
  | _ => .statement

theorem emits_keeps (emits : Emits config row a ns code b)
    (skeletal : ∀ n ∈ ns, Skeletal row.form n) : Keeps code (reachedTexts (row.leaves ns)) := by
  induction emits with
  | nil | nothing | noHandlers | noCases => exact .nil
  | cons _ _ first others =>
    have head := first fun n member => skeletal n (by simp_all)
    have tail := others fun n member => skeletal n (by simp [member])
    simpa [Row.leaves,leavesOf,reachedTexts_append] using head.append tail
  | line written =>
    cases skeletal _ List.mem_cons_self <;> cases written
  | expression spelled =>
    cases skeletal _ List.mem_cons_self with
    | call =>
      rw [call_lines spelled]
      exact .call
  | branch _ _ _ inside others =>
    cases skeletal _ List.mem_cons_self with
    | ifStmt _ body orElse =>
      refine (Keeps.line.append ((inside body).block.append ((others orElse).append .line))).congr ?_
      simp [Row.leaves,leavesOf,leaves,reachedTexts_append]
  | elseIf _ _ _ _ inside others =>
    cases skeletal _ List.mem_cons_self with
    | ifStmt _ body orElse =>
      refine (Keeps.line.append ((inside body).block.append (others orElse))).congr ?_
      simp [Row.leaves,elseLeaves,leaves,Node.isBranch,reachedTexts_append,reachedTexts_dropped]
  | @orElse n _ ns _ _ noTest _ inside =>
    have plain : n.isBranch = false := isBranch_of_testOf noTest
    refine (Keeps.line.append (inside skeletal).block).congr ?_
    simp [Row.leaves,elseLeaves,leavesOf,plain]
  | whileLoop _ _ inside =>
    cases skeletal _ List.mem_cons_self with
    | whileStmt _ body =>
      refine (Keeps.line.append ((inside body).block.append .line)).congr ?_
      simp [Row.leaves,leavesOf,leaves,reachedTexts_append,reachedTexts_dropped]
  | forLoop _ _ _ _ inside | generatorLoop _ _ _ _ _ inside =>
    cases skeletal _ List.mem_cons_self with
    | forStmt _ _ body =>
      refine (Keeps.line.append ((inside body).block.append .line)).congr ?_
      simp [Row.leaves,leavesOf,leaves,reachedTexts_append,reachedTexts_dropped]
  | function _ _ _ _ _ _ _ _ inside =>
    cases skeletal _ List.mem_cons_self with
    | functionDef _ _ body =>
      refine ((Keeps.line.append ((Keeps.lines.append (inside body)).block.append
        (.optional .line))).append (Keeps.line.append .lines)).congr ?_
      simp [Row.leaves,leavesOf,leaves]
  | withItems _ _ inside =>
    cases skeletal _ List.mem_cons_self with
    | withStmt _ body =>
      refine (Keeps.line.append ((Keeps.lines.append (inside body)).block.append .line)).congr ?_
      simp [Row.leaves,leavesOf,leaves]
  | tried _ _ _ inside handled last =>
    cases skeletal _ List.mem_cons_self with
    | tryStmt body handlers final =>
      refine (((Keeps.line.append (Keeps.line.append ((inside body).block.append .line))).append
        (handled handlers)).append (Keeps.line.append ((last final).block.append .line))).congr ?_
      simp [Row.leaves,leavesOf,leaves,reachedTexts_append,reachedTexts_dropped]
  | handler _ _ inside others =>
    cases skeletal _ List.mem_cons_self with
    | handler body =>
      have rest := others fun n member => skeletal n (by simp [member])
      refine (((Keeps.line.append (.optional .lines)).append
        ((inside body).block.append (.optional .line))).append rest).congr ?_
      simp [Row.leaves,leavesOf,leaves,reachedTexts_append]
  | pass | global | classOf | matched | case => cases skeletal _ List.mem_cons_self

/-! ## Modules -/

/-- No name is part of another, and none holds a blank, a line break or a parenthesis. -/
structure Apart (ls : List Leaf) : Prop where
  plain : ∀ leaf ∈ ls, ∀ c ∈ leaf.name.toList, c ≠ ' ' ∧ c ≠ '\n' ∧ c ≠ '('
  apart : ∀ leaf ∈ ls, ∀ other ∈ ls, Occurs leaf.name other.name → leaf = other

theorem Apart.solid (apart : Apart ls) (member : leaf ∈ ls) : Solid leaf.text := by
  have plain := apart.plain leaf member
  refine ⟨by simp [Leaf.text],fun inside => ?_,fun inside => ?_⟩
  · rw [Leaf.text,String.toList_append,List.mem_append] at inside
    rcases inside with inside | inside
    · exact (plain _ inside).1 rfl
    · simp at inside
  · rw [Leaf.text,String.toList_append,List.mem_append] at inside
    rcases inside with inside | inside
    · exact (plain _ inside).2.1 rfl
    · simp at inside

theorem Apart.occurs_text (apart : Apart ls) (member : leaf ∈ ls) (member' : other ∈ ls)
    (found : Occurs leaf.text other.text) : leaf = other := by
  refine apart.apart leaf member other member' ?_
  have parenthesis : '(' ∉ other.name.toList := fun inside => (apart.plain other member' _ inside).2.2 rfl
  obtain ⟨before,after,same⟩ := found
  have brackets : "()".toList = ['(',')'] := rfl
  simp only [Leaf.text,String.toList_append,brackets] at same
  rw [← List.append_assoc,List.append_assoc] at same
  -- Both names end in front of the only opening parenthesis.
  rcases List.append_eq_append_iff.mp same with ⟨rest,holds,ends⟩ | ⟨rest,holds,ends⟩
  · cases rest with
    | nil => exact ⟨before,[],by simpa using holds.symm⟩
    | cons c rest =>
      obtain ⟨rfl,_⟩ := List.cons.inj ends
      simp [holds] at parenthesis
  · have lengths := congrArg List.length ends
    obtain rfl : rest = [] := List.eq_nil_of_length_eq_zero (by simp at lengths; omega)
    exact ⟨before,[],by simpa using holds⟩

/-- The calls of a module are emitted as far as they are reached, in the order of the source. So all
calls occur in the text of the module, in their order, if and only if none stands behind a branching
statement in an else part or in the else part of a loop or of a statement with handlers, unless a
header holds the text of a call. -/
theorem module_calls_kept {config : Option Config} {body typeIgnores : List Node} {s t : State}
    (skeletal : ∀ n ∈ body, Skeletal .statement n) (fresh : s.output = .block [])
    (run : visit config (.module body typeIgnores) s = (.ok (),t)) :
    ∃ code, t.output = .block code ∧ statements code = reachedTexts (leavesOf body) ∧
      InOrder (reachedTexts (leavesOf body)) (layOut 0 code) ∧
      (Apart (leavesOf body) → (∀ leaf ∈ leavesOf body, ∀ header ∈ headers code, ¬Occurs leaf.text header) →
        (InOrder ((leavesOf body).map Leaf.text) (layOut 0 code) ↔
          ∀ leaf ∈ leavesOf body, leaf.reached = true)) := by
  obtain ⟨code,b,out,emits⟩ := module_emits (fun n member => (skeletal n member).sentence) fresh run
  have kept : statements code = reachedTexts (leavesOf body) := (emits_keeps emits skeletal).statements_eq
  have found : InOrder (reachedTexts (leavesOf body)) (layOut 0 code) := kept ▸ statements_inOrder 0 code
  refine ⟨code,out,kept,found,fun apart clear => ⟨fun all leaf member => ?_,fun all => ?_⟩⟩
  · have occurs := all.occurs (List.mem_map_of_mem member)
    rcases occurs_layOut (apart.solid member) occurs with ⟨text,inside,found⟩ | ⟨text,inside,found⟩
    · rw [kept] at inside
      obtain ⟨other,kept_leaf,rfl⟩ := List.mem_map.mp inside
      obtain ⟨member',reached⟩ := List.mem_filter.mp kept_leaf
      rw [apart.occurs_text member member' found]
      exact reached
    · exact absurd found (clear leaf member text inside)
  · rw [← (reachedTexts_eq_iff _).mpr all]
    exact found

/-- An else part that starts with a branching statement and goes on with a call. -/
def hiddenCall : Node :=
  .ifStmt (.name (some "a") .absent) [.exprStmt (.call (.name (some "x") .absent) [] [])]
    [.ifStmt (.name (some "b") .absent) [.exprStmt (.call (.name (some "y") .absent) [] [])] [],
      .exprStmt (.call (.name (some "z") .absent) [] [])]

theorem hiddenCall_skeletal : ∀ n ∈ [hiddenCall], Skeletal .statement n := by
  refine List.forall_mem_singleton.mpr (.ifStmt .name (List.forall_mem_singleton.mpr .call) ?_)
  refine List.forall_mem_cons.mpr ⟨.ifStmt .name ?_ (by simp),List.forall_mem_singleton.mpr .call⟩
  exact List.forall_mem_singleton.mpr .call

theorem hiddenCall_leaves :
    leavesOf [hiddenCall] = [{ name := "x" },{ name := "y" },{ name := "z", reached := false }] :=
  rfl

theorem hiddenCall_runs : (visit none (.module [hiddenCall] []) (State.initial .empty)).1.isOk = true := by
  decide +kernel

theorem hiddenCall_kept : Apart (leavesOf [hiddenCall]) ∧
    ∃ code, (visit none (.module [hiddenCall] []) (State.initial .empty)).2.output = .block code ∧
      statements code = ["x()","y()"] ∧
      (∀ leaf ∈ leavesOf [hiddenCall], ∀ header ∈ headers code, ¬Occurs leaf.text header) ∧
      ¬InOrder ((leavesOf [hiddenCall]).map Leaf.text) (layOut 0 code) := by
  obtain ⟨code,out,kept,_,iff⟩ := module_calls_kept hiddenCall_skeletal rfl (gives_of_isOk hiddenCall_runs)
  have printed : ((visit none (.module [hiddenCall] []) (State.initial .empty)).2.output.entries?.map
      headers) = some ["if a then","elseif b then","end"] := by decide +kernel
  rw [out] at printed
  have listed : headers code = ["if a then","elseif b then","end"] := Option.some.inj printed
  have apart : Apart (leavesOf [hiddenCall]) := by
    rw [hiddenCall_leaves]
    refine ⟨by simp,?_⟩
    simp [Occurs,List.infix_cons_iff]
  have clear : ∀ leaf ∈ leavesOf [hiddenCall], ∀ header ∈ headers code, ¬Occurs leaf.text header := by
    intro leaf _ header member
    rw [listed] at member
    refine not_occurs (c := '(') (by simp [Leaf.text]) fun inside => ?_
    simp only [List.mem_cons,List.not_mem_nil,or_false] at member
    rcases member with rfl | rfl | rfl <;> simp at inside
  refine ⟨apart,code,out,kept,clear,fun found => ?_⟩
  have all := (iff apart clear).mp found
  rw [hiddenCall_leaves] at all
  exact absurd (all _ (by simp : (⟨"z",false⟩ : Leaf) ∈ _)) Bool.false_ne_true

/-- The call behind the branching statement does not occur in the text. -/
theorem hiddenCall_lost : (visit none (.module [hiddenCall] []) (State.initial .empty)).1.isOk = true ∧
    ∃ code, (visit none (.module [hiddenCall] []) (State.initial .empty)).2.output = .block code ∧
      ¬InOrder ((leavesOf [hiddenCall]).map Leaf.text) (layOut 0 code) := by
  obtain ⟨code,_,out,_⟩ := module_emits (fun n member => (hiddenCall_skeletal n member).sentence) rfl
    (gives_of_isOk hiddenCall_runs)
  refine ⟨hiddenCall_runs,code,out,fun found => ?_⟩
  have printed : ((visit none (.module [hiddenCall] []) (State.initial .empty)).2.output.entries?.map
      fun code => (layOut 0 code).toList.contains 'z') = some false := by decide +kernel
  rw [out] at printed
  have outside : 'z' ∉ (layOut 0 code).toList := by simpa [entries?] using printed
  have occurs : Occurs "z()" (layOut 0 code) := found.occurs (by simp [hiddenCall_leaves,Leaf.text])
  exact not_occurs (by decide) outside occurs

end Compile

end LuauCompiler
