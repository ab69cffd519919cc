import LuauCompiler.Proofs.Sources
import Mathlib.Data.List.Induction

/-! Names under arithmetic operators and Boolean chains. An operation and a chain stand in parentheses,
so the priorities of Luau never move an operand. -/
namespace LuauCompiler

open Luau

namespace Term

mutual

/-- Names, operations with an operator that has a text, and chains of at least two values. -/
def isArithmetic : Term → Bool
  | .name id => decide (IsName id)
  | .binary op left right => Compile.isSupported op && left.isArithmetic && right.isArithmetic
  | .boolean _ first more => first.isArithmetic && !more.isEmpty && allArithmetic more
  | _ => false

def allArithmetic : List Term → Bool
  | [] => true
  | e :: rest => e.isArithmetic && allArithmetic rest

end

variable {e : Term} {op : BinaryOp}

theorem isText_of_isArithmetic (arithmetic : e.isArithmetic = true) : e.isText = false := by
  cases e <;> first | rfl | cases arithmetic

theorem isList_of_isArithmetic (arithmetic : e.isArithmetic = true) : e.isList = false := by
  cases e <;> first | rfl | cases arithmetic

mutual

theorem plain_of_isArithmetic (e : Term) (arithmetic : e.isArithmetic = true) :
    e.accepted = true ∧ e.lexical = true ∧ e.quotes = false := by
  cases e with
  | name id => exact ⟨rfl,arithmetic,rfl⟩
  | binary op left right =>
    simp only [isArithmetic,Bool.and_eq_true] at arithmetic
    have first := plain_of_isArithmetic left arithmetic.1.2
    have second := plain_of_isArithmetic right arithmetic.2
    simp [accepted,lexical,quotes,arithmetic.1.1,first,second,isList_of_isArithmetic arithmetic.1.2]
  | boolean op first more =>
    simp only [isArithmetic,Bool.and_eq_true] at arithmetic
    have head := plain_of_isArithmetic first arithmetic.1.1
    have tail := plain_of_allArithmetic more arithmetic.2
    simp [accepted,lexical,quotes,head,tail]
  | _ => cases arithmetic

theorem plain_of_allArithmetic (es : List Term) (arithmetic : allArithmetic es = true) :
    allAccepted es = true ∧ allLexical es = true ∧ anyQuotes es = false := by
  cases es with
  | nil => exact ⟨rfl,rfl,rfl⟩
  | cons e rest =>
    simp only [allArithmetic,Bool.and_eq_true] at arithmetic
    have head := plain_of_isArithmetic e arithmetic.1
    have tail := plain_of_allArithmetic rest arithmetic.2
    simp [allAccepted,allLexical,anyQuotes,head,tail]

end

theorem image_binary (first : left.isArithmetic = true) (second : right.isArithmetic = true) :
    (Term.binary op left right).image = .group (plainImage op left.image right.image) := by
  rw [image,isText_of_isArithmetic first,isText_of_isArithmetic second]
  cases op <;> rfl

theorem image_isPrimary (arithmetic : e.isArithmetic = true) : e.image.isPrimary = true := by
  cases e with
  | name id => rfl
  | binary op left right =>
    simp only [isArithmetic,Bool.and_eq_true] at arithmetic
    rw [image_binary arithmetic.1.2 arithmetic.2]
    rfl
  | boolean op first more => rfl
  | _ => cases arithmetic

theorem plainImage_fits (op : BinaryOp) (first : x.Fits ∧ x.isPrimary = true)
    (second : y.Fits ∧ y.isPrimary = true) : (plainImage op x y).Fits := by
  have rights := Expr.rights_of_isPrimary first.2
  have lefts := Expr.lefts_of_isPrimary second.2
  cases op <;>
    simp [plainImage,libraryCall,Expr.Fits,Expr.AllFit,Expr.takesSuffix,rights,lefts,first.1,second.1]

theorem chainImage_fits {op : Operator} (even : op.left ≤ op.right) (more : List Expr)
    (fits : x.Fits) (drawn : ∀ p ∈ x.rights, op.left ≤ p)
    (each : ∀ y ∈ more, y.Fits ∧ (∀ p ∈ y.lefts, op.right < p) ∧ ∀ p ∈ y.rights, op.left ≤ p) :
    (chainImage op x more).Fits := by
  induction more generalizing x with
  | nil => exact fits
  | cons y rest ih =>
    obtain ⟨⟨fit,lefts,rights⟩,later⟩ := List.forall_mem_cons.mp each
    exact ih ⟨fits,fit,drawn,lefts⟩ (List.forall_mem_cons.mpr ⟨even,rights⟩) later

mutual

theorem image_fits (e : Term) (arithmetic : e.isArithmetic = true) : e.image.Fits := by
  cases e with
  | name id => trivial
  | binary op left right =>
    simp only [isArithmetic,Bool.and_eq_true] at arithmetic
    rw [image_binary arithmetic.1.2 arithmetic.2]
    exact plainImage_fits op ⟨image_fits left arithmetic.1.2,image_isPrimary arithmetic.1.2⟩
      ⟨image_fits right arithmetic.2,image_isPrimary arithmetic.2⟩
  | boolean op first more =>
    simp only [isArithmetic,Bool.and_eq_true] at arithmetic
    have even : (boolOperator op).left ≤ (boolOperator op).right := by cases op <;> exact Nat.le_refl _
    have rights := Expr.rights_of_isPrimary (image_isPrimary arithmetic.1.1)
    refine chainImage_fits even _ (image_fits first arithmetic.1.1) (by simp [rights]) fun y member => ?_
    obtain ⟨fits,primary⟩ := images_fit more arithmetic.2 y member
    simp [fits,Expr.lefts_of_isPrimary primary,Expr.rights_of_isPrimary primary]
  | _ => cases arithmetic

theorem images_fit (es : List Term) (arithmetic : allArithmetic es = true) :
    ∀ x ∈ images es, x.Fits ∧ x.isPrimary = true := by
  cases es with
  | nil => simp [images]
  | cons e rest =>
    simp only [allArithmetic,Bool.and_eq_true] at arithmetic
    rw [images,List.forall_mem_cons]
    exact ⟨⟨image_fits e arithmetic.1,image_isPrimary arithmetic.1⟩,images_fit rest arithmetic.2⟩

end

theorem plainImage_injective (known : Compile.isSupported op = true)
    (same : plainImage op x y = plainImage other z w) : op = other ∧ x = z ∧ y = w := by
  cases op <;> cases other <;> simp_all [plainImage,libraryCall,Compile.isSupported]

theorem chainImage_append (op : Operator) (x : Expr) (more : List Expr) (y : Expr) :
    chainImage op x (more ++ [y]) = .binary op (chainImage op x more) y := by
  simp [chainImage]

theorem chainImage_injective {op other : Operator} (xs ys : List Expr) (first : x.isPrimary = true)
    (second : y.isPrimary = true) (same : chainImage op x xs = chainImage other y ys) :
    x = y ∧ xs = ys ∧ (xs ≠ [] → op = other) := by
  induction xs using List.reverseRecOn generalizing ys with
  | nil =>
    rcases List.eq_nil_or_concat ys with rfl | ⟨zs,z,rfl⟩
    · exact ⟨same,rfl,fun given => absurd rfl given⟩
    · rw [List.concat_eq_append,chainImage_append] at same
      rw [show x = _ from same] at first
      cases first
  | append_singleton before last ih =>
    rw [chainImage_append] at same
    rcases List.eq_nil_or_concat ys with rfl | ⟨zs,z,rfl⟩
    · rw [← show _ = y from same] at second
      cases second
    · rw [List.concat_eq_append,chainImage_append] at same
      injection same with op_eq front back
      obtain ⟨rfl,rfl,-⟩ := ih zs front
      exact ⟨rfl,by simp [back],fun _ => op_eq⟩

theorem plainImage_ne_chainImage (several : more ≠ []) :
    plainImage op x y ≠ chainImage (boolOperator logic) z more := by
  rcases List.eq_nil_or_concat more with rfl | ⟨ws,w,rfl⟩
  · exact absurd rfl several
  · rw [List.concat_eq_append,chainImage_append]
    cases op <;> cases logic <;> simp [plainImage,libraryCall,boolOperator]

mutual

theorem image_injective (e d : Term) (arithmetic : e.isArithmetic = true)
    (other : d.isArithmetic = true) (same : e.image = d.image) : e = d := by
  cases e with
  | name id =>
    cases d with
    | name _ => simpa [image] using same
    | binary op left right =>
      simp only [isArithmetic,Bool.and_eq_true] at other
      rw [image_binary other.1.2 other.2] at same
      cases same
    | boolean op first more => cases same
    | _ => cases other
  | binary op left right =>
    simp only [isArithmetic,Bool.and_eq_true] at arithmetic
    rw [image_binary arithmetic.1.2 arithmetic.2] at same
    cases d with
    | name _ => cases same
    | binary op' left' right' =>
      simp only [isArithmetic,Bool.and_eq_true] at other
      rw [image_binary other.1.2 other.2] at same
      injection same with inner
      obtain ⟨rfl,lefts,rights⟩ := plainImage_injective arithmetic.1.1 inner
      rw [image_injective left left' arithmetic.1.2 other.1.2 lefts,
        image_injective right right' arithmetic.2 other.2 rights]
    | boolean logic first more =>
      simp only [isArithmetic,Bool.and_eq_true] at other
      injection same with inner
      have several : images more ≠ [] := by cases more <;> simp_all [images]
      exact absurd inner (plainImage_ne_chainImage several)
    | _ => cases other
  | boolean logic first more =>
    simp only [isArithmetic,Bool.and_eq_true] at arithmetic
    have several : images more ≠ [] := by cases more <;> simp_all [images]
    cases d with
    | name _ => cases same
    | binary op left right =>
      simp only [isArithmetic,Bool.and_eq_true] at other
      rw [image_binary other.1.2 other.2] at same
      injection same with inner
      exact absurd inner.symm (plainImage_ne_chainImage several)
    | boolean logic' first' more' =>
      simp only [isArithmetic,Bool.and_eq_true] at other
      injection same with inner
      obtain ⟨heads,tails,signs⟩ := chainImage_injective _ _ (image_isPrimary arithmetic.1.1)
        (image_isPrimary other.1.1) inner
      have logics : logic = logic' := by
        have signs := signs several
        cases logic <;> cases logic' <;> first | rfl | cases signs
      rw [logics,image_injective first first' arithmetic.1.1 other.1.1 heads,
        images_injective more more' arithmetic.2 other.2 tails]
    | _ => cases other
  | _ => cases arithmetic

theorem images_injective (es ds : List Term) (arithmetic : allArithmetic es = true)
    (other : allArithmetic ds = true) (same : images es = images ds) : es = ds := by
  cases es with
  | nil =>
    cases ds with
    | nil => rfl
    | cons d later => cases same
  | cons e rest =>
    cases ds with
    | nil => cases same
    | cons d later =>
      simp only [allArithmetic,Bool.and_eq_true] at arithmetic other
      injection same with head tail
      rw [image_injective e d arithmetic.1 other.1 head,
        images_injective rest later arithmetic.2 other.2 tail]

end

theorem read_arithmetic (arithmetic : e.isArithmetic = true) : read e.source = some e.image := by
  obtain ⟨accepted,clean,-⟩ := plain_of_isArithmetic e arithmetic
  exact read_source accepted clean (image_fits e arithmetic)

end Term

namespace Compile

open Term

/-- Arithmetic and Boolean structure can be read back: the expression is compiled to one line, Luau reads
that line as the expression that is meant, and no other expression is compiled to it. -/
theorem arithmetic_reads_back (config : Option Config) {e : Term} {s : State} {before : List Code}
    (arithmetic : e.isArithmetic = true) (untagged : s.tags = [])
    (out : s.output = .block before) :
    ∃ text, Gives (visit config e.node) s () { s with output := .block (before ++ [.line text]) } ∧
      Luau.read text = some e.image ∧
      ∀ d : Term, d.isArithmetic = true →
        Gives (visit config d.node) s () { s with output := .block (before ++ [.line text]) } → d = e := by
  have unquoted (d : Term) (arithmetic : d.isArithmetic = true) :
      d.quotes = true → s.frames.top.docstring = false := by
    simp [plain_of_isArithmetic d arithmetic]
  refine ⟨e.source,?_,read_arithmetic arithmetic,?_⟩
  · rw [term_written config e s _ before untagged (unquoted e arithmetic) out]
    exact ⟨(plain_of_isArithmetic e arithmetic).1,rfl⟩
  intro d other again
  obtain ⟨-,same⟩ := (term_written config d s _ before untagged (unquoted d other) out).mp again
  have sources : d.source = e.source := by simpa using (congrArg State.output same).symm
  have images : d.image = e.image := by
    apply Option.some.inj
    rw [← read_arithmetic other,← read_arithmetic arithmetic,sources]
  exact image_injective d e other arithmetic images

/-- A power of a quotient under a chain of three values. -/
def chainedPower : Term := .boolean .or (.binary .pow (.binary .floorDiv (.name "a") (.name "b")) (.name "c"))
    [.name "d",.boolean .and (.name "e") [.binary .lShift (.name "f") (.name "a")]]

theorem chainedPower_reads_back :
    let s := State.initial .empty
    chainedPower.isArithmetic = true ∧ s.tags = [] ∧ s.output = .block [] ∧
      ∃ text, Gives (visit none chainedPower.node) s () { s with output := .block ([] ++ [.line text]) } ∧
        Luau.read text = some chainedPower.image ∧
        ∀ d : Term, d.isArithmetic = true → Gives (visit none d.node) s ()
          { s with output := .block ([] ++ [.line text]) } → d = chainedPower := by
  have arithmetic : chainedPower.isArithmetic = true := by decide
  exact ⟨arithmetic,rfl,rfl,arithmetic_reads_back none arithmetic rfl rfl⟩

end Compile

end LuauCompiler
