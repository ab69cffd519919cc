import LuauCompiler.Tree.Source
import Mathlib.Data.List.Forall2

/-! Two texts side by side. A compiled text has more parentheses, braces and signs of equality than the source
text, and fewer of the brackets, capitals and other signs that Luau has no use for. With every character
weighed by that, the second text is either the first one or heavier, and so are texts that are put together
from such parts in the same way. The printer of the source language is told by what it puts onto every page. -/
namespace LuauCompiler

namespace Text

def charWeight (c : Char) : Int :=
  if c = '=' then 2
  else if c = '(' ∨ c = '\x7b' then 1
  else if c = '*' ∨ c = '!' then -2
  else if c = '[' ∨ c = '+' ∨ c = '~' ∨ c = 'T' ∨ c = 'F' ∨ c = 'N' then -1
  else 0

def weight (text : String) : Int := text.toList.foldr (fun c n => charWeight c + n) 0

theorem weight_append (a b : String) : weight (a ++ b) = weight a + weight b := by
  unfold weight
  rw [String.toList_append]
  induction a.toList with
  | nil => simp
  | cons c cs ih => rw [List.cons_append,List.foldr_cons,List.foldr_cons,ih,Int.add_assoc]

/-- The texts are the same, or the second one is heavier. -/
def Compared : (same : Bool) → String → String → Prop
  | true,a,b => a = b
  | false,a,b => weight a < weight b

namespace Compared

theorem refl (text : String) : Compared true text text := rfl

theorem le (compared : Compared i a b) : weight a ≤ weight b := by
  cases i with
  | true => exact Int.le_of_eq (congrArg weight compared)
  | false => exact Int.le_of_lt compared

theorem append (first : Compared i a b) (second : Compared j x y) : Compared (i && j) (a ++ x) (b ++ y) := by
  have front := first.le
  have back := second.le
  cases i with
  | true =>
    cases j with
    | true =>
      obtain rfl : a = b := first
      obtain rfl : x = y := second
      rfl
    | false =>
      replace second : weight x < weight y := second
      change weight (a ++ x) < weight (b ++ y)
      rw [weight_append,weight_append]
      omega
  | false =>
    replace first : weight a < weight b := first
    change weight (a ++ x) < weight (b ++ y)
    rw [weight_append,weight_append]
    omega

theorem eq_iff (compared : Compared i a b) : a = b ↔ i = true := by
  cases i with
  | true => exact iff_of_true compared rfl
  | false =>
    refine iff_of_false ?_ Bool.false_ne_true
    rintro rfl
    exact Int.lt_irrefl _ compared

end Compared

end Text

namespace Source.Writer

variable {w : Writer}

/-- The text is put onto every page, behind what is on it. -/
def Puts (w : Writer) (text : String) : Prop := ∀ page : Page, ∃ texts : List String,
    w page = .ok { page with pieces := page.pieces ++ texts.map some } ∧ String.join texts = text

theorem Puts.write (text : String) : Puts (Writer.write text) text := fun _ => ⟨[text],rfl,by simp⟩

theorem Puts.nothing : Puts Writer.nothing "" := fun page => ⟨[],by simp [Writer.nothing],rfl⟩

theorem Puts.cons (head : Puts w first) (tail : Puts (inOrder ws) rest) :
    Puts (inOrder (w :: ws)) (first ++ rest) := by
  intro page
  obtain ⟨texts,put,rfl⟩ := head page
  obtain ⟨more,later,rfl⟩ := tail { page with pieces := page.pieces ++ texts.map some }
  refine ⟨texts ++ more,?_,by simp⟩
  change (w page).bind (inOrder ws) = _
  rw [put]
  simpa [Except.bind] using later

theorem Puts.single {text : String} (put : Puts w text) : Puts (inOrder [w]) text := by
  simpa using put.cons (show Puts (inOrder []) "" from Puts.nothing)

theorem Puts.between {text : String} (put : Puts w text) (start stop : String) :
    Puts (Writer.between start stop w) (start ++ text ++ stop) := by
  rw [String.append_assoc]
  exact (Puts.write start).cons (put.cons (Puts.write stop).single)

theorem Puts.separated (each : List.Forall₂ Puts ws texts) (separator : String) :
    Puts (Writer.separated separator ws) (String.intercalate separator texts) := by
  cases each with
  | nil => exact Puts.nothing
  | @cons w text ws texts first rest =>
    induction rest generalizing w text with
    | nil =>
      rw [String.intercalate_singleton]
      exact first.single
    | cons second rest ih =>
      rw [String.intercalate_cons_cons,String.append_assoc]
      exact first.cons ((Puts.write separator).cons (ih second))

theorem Puts.enclosed {text : String} (put : Puts w text) (own place : Level) :
    Puts (Writer.enclosed own place w) (if own < place then "(" ++ text ++ ")" else text) := by
  unfold Writer.enclosed
  split
  · exact put.between "(" ")"
  · exact put

theorem Puts.text {text : String} (put : Puts w text) : Writer.text w = .ok text := by
  obtain ⟨texts,written,rfl⟩ := put .blank
  have given (texts : List String) : (texts.map some).all (·.isSome) = true ∧
      (texts.map some).filterMap id = texts := by
    simp
  rw [Writer.text,written]
  change Pieces.text ([] ++ texts.map some) = _
  rw [List.nil_append,Pieces.text,if_pos (given texts).1,(given texts).2]

theorem Puts.unique {text other : String} (put : Puts w text) (again : Puts w other) : text = other :=
  Except.ok.inj (put.text.symm.trans again.text)

end Source.Writer

end LuauCompiler
