import LuauCompiler.Proofs.IndexPieces
import LuauCompiler.Proofs.Sources

/-! When operands stay where they are. Signs, comparisons, conditionals and concatenations are written
without parentheses, so the priorities of Luau decide what their operands are. -/
namespace LuauCompiler

open Luau

namespace Compile

theorem splitIndex_shrunk (index : List Char) :
    splitIndex index = [index] ∨ (splitIndex index).flatten.count ',' < index.count ',' := by
  induction index using splitIndex_induction with
  | whole cs => exact .inl rfl
  | cut front rest pieces later =>
    right
    have kept : pieces.flatten.count ',' ≤ rest.count ',' := by
      rcases later with rfl | fewer
      · simp
      · exact Nat.le_of_lt fewer
    simp only [List.flatten_cons,List.count_append,List.count_cons_self]
    omega

theorem indexText_commas (index : String) :
    (indexText index).toList.count ',' = (splitIndex index.toList).flatten.count ',' := by
  rw [indexText]
  induction splitIndex index.toList with
  | nil => rfl
  | cons piece rest ih =>
    rw [List.map_cons,String.join_cons,String.toList_append,List.count_append,ih]
    simp

end Compile

namespace Term

variable {text : String}

theorem self_mem_parts (e : Term) : e ∈ e.parts := by
  cases e <;> simp [parts]

theorem fits_of_unaryImage {op : UnaryOp} (fits : (unaryImage op x).Fits) : x.Fits := by
  cases op <;> simp_all [unaryImage,libraryCall,Expr.Fits,Expr.AllFit]

theorem fits_of_plainImage (supported : Compile.isSupported op = true)
    (fits : (plainImage op x y).Fits) : x.Fits ∧ y.Fits := by
  cases op <;> simp_all [plainImage,libraryCall,Expr.Fits,Expr.AllFit,Compile.isSupported]

theorem fits_of_operationImage (supported : Compile.isSupported op = true)
    (fits : (operationImage op leftIsText rightIsText x y).Fits) : x.Fits ∧ y.Fits := by
  unfold operationImage at fits
  split at fits
  case h_6 => exact fits_of_plainImage supported fits
  all_goals simp_all [libraryCall,Expr.Fits,Expr.AllFit]

theorem fits_of_chainImage {op : Operator} (more : List Expr) (fits : (chainImage op x more).Fits) :
    x.Fits ∧ Expr.AllFit more := by
  induction more generalizing x with
  | nil => exact ⟨fits,trivial⟩
  | cons y rest ih =>
    obtain ⟨⟨first,second,-⟩,later⟩ := ih fits
    exact ⟨first,second,later⟩

/-- The expression is compiled, its source has the tokens that are meant, and every operand is drawn by
its own operator. -/
structure Sound (e : Term) : Prop where
  accepted : e.accepted = true
  lexical : e.lexical = true
  fits : e.image.Fits

mutual

theorem parts_sound (e : Term) (sound : e.Sound) : ∀ d ∈ e.parts, d.Sound := by
  have ⟨accepted,clean,fits⟩ := sound
  cases e
  all_goals
    simp only [parts,List.cons_append,List.forall_mem_cons,List.forall_mem_append]
    refine ⟨sound,?_⟩
  case name | text => exact nofun
  case list items => exact allParts_sound items accepted clean fits
  all_goals simp only [lexical,Term.accepted,Bool.and_eq_true] at clean accepted
  case unary op operand => exact parts_sound operand ⟨accepted,clean.1,fits_of_unaryImage fits⟩
  case compare op signed left right =>
    exact ⟨parts_sound left ⟨accepted.1,clean.1,fits.1⟩, parts_sound right ⟨accepted.2,clean.2,fits.2.1⟩⟩
  case conditional test body orElse =>
    obtain ⟨⟨first,second,-⟩,third,-⟩ := fits
    exact ⟨⟨parts_sound test ⟨accepted.1.1,clean.1.1,first⟩,
      parts_sound body ⟨accepted.1.2,clean.1.2,second⟩⟩,
      parts_sound orElse ⟨accepted.2,clean.2,third⟩⟩
  case binary op left right =>
    obtain ⟨first,second⟩ := fits_of_operationImage accepted.1.1.1 fits
    exact ⟨parts_sound left ⟨accepted.1.1.2,clean.1,first⟩, parts_sound right ⟨accepted.1.2,clean.2,second⟩⟩
  case boolean op first more =>
    obtain ⟨head,tail⟩ := fits_of_chainImage _ fits
    exact ⟨parts_sound first ⟨accepted.1,clean.1,head⟩, allParts_sound more accepted.2 clean.2 tail⟩
  case member object field =>
    have inner : object.image.Fits := by
      have base := fits.2
      split at base <;> exact base
    exact parts_sound object ⟨accepted,clean.1,inner⟩
  case subscript object index =>
    exact ⟨parts_sound object ⟨accepted.1.2,clean.1.1,fits.2.1⟩,
      parts_sound index ⟨accepted.1.1,clean.1.2,fits.2.2⟩⟩

theorem allParts_sound (es : List Term) (accepted : allAccepted es = true)
    (clean : allLexical es = true) (fits : Expr.AllFit (images es)) :
    ∀ d ∈ allParts es, d.Sound := by
  cases es with
  | nil => simp [allParts]
  | cons e rest =>
    simp only [allLexical,allAccepted,Bool.and_eq_true] at clean accepted
    rw [allParts,List.forall_mem_append]
    exact ⟨parts_sound e ⟨accepted.1,clean.1,fits.1⟩, allParts_sound rest accepted.2 clean.2 fits.2⟩

end

theorem lex_of_read (found : read text = some x) : x.Fits ∧ lex text.toList = some x.tokens := by
  obtain ⟨ts,lexed,parsed⟩ := Option.bind_eq_some_iff.mp found
  obtain ⟨fits,rfl⟩ := parse_eq_some_iff.mp parsed
  exact ⟨fits,lexed⟩

theorem isName_of_read {id : String} (found : read text = some x) (member : .name id ∈ x.tokens) :
    IsName id :=
  isName_of_lexFrom (lex_of_read found).2 member

theorem single_of_read (found : read ("-" ++ text) = some (.unary .minus x))
    (spelled : Spelled text x.tokens) : text.toList.head? ≠ some '-' := by
  intro front
  obtain ⟨cs,letters⟩ := List.head?_eq_some_iff.mp front
  have lexed := (lex_of_read found).2
  rw [String.toList_append,letters] at lexed
  have lost := (spellings_of_comment lexed).count_le '-'
  have kept := spelled.count (c := '-') (by decide)
  simp only [Expr.tokens,Sign.token,spellings,List.flatMap_cons,List.count_append] at lost
  rw [letters] at kept
  simp only [spellings] at kept
  simp [Token.spelling,Operator.spelling,← kept] at lost
  omega

theorem uncut_of_read (found : read (object ++ Compile.indexText index) = some (.index x y))
    (first : Spelled object x.tokens) (second : Spelled index y.tokens) :
    Compile.splitIndex index.toList = [index.toList] := by
  rcases Compile.splitIndex_shrunk index.toList with whole | fewer
  · exact whole
  · have lexed := (lex_of_read found).2
    have commas := (spellings_of_lex lexed).count_le ','
    have objects := first.count (c := ',') (by decide)
    have indexes := second.count (c := ',') (by decide)
    rw [String.toList_append,List.count_append,Compile.indexText_commas] at commas
    simp only [Expr.tokens,spellings,List.flatMap_append,List.count_append] at commas objects indexes
    omega

mutual

theorem lexical_of_read (e : Term) (accepted : e.accepted = true)
    (reads : ∀ d ∈ e.parts, read d.source = some d.image) : e.lexical = true := by
  have whole := reads e (self_mem_parts e)
  cases e
  all_goals simp only [parts,List.cons_append,List.forall_mem_cons,List.forall_mem_append] at reads
  case name id =>
    rw [lexical,decide_eq_true_eq]
    exact isName_of_read whole (by simp [image,Expr.tokens])
  case text value =>
    have lexed := lex_quote value []
    rw [List.append_nil] at lexed
    rw [lexical]
    by_contra other
    rw [if_neg other] at lexed
    exact absurd ((lex_of_read whole).2.symm.trans lexed) (by simp)
  case list items => exact allLexical_of_read items accepted reads.2
  case unary op operand =>
    have inner := lexical_of_read operand accepted reads.2
    have spelled := source_spelled operand accepted inner
    cases op with
    | uSub => simp [lexical,inner,single_of_read whole spelled]
    | _ => simp [lexical,inner]
  case member object field =>
    have valid : IsName field := isName_of_read whole (by simp [image,Expr.tokens])
    simp [lexical,lexical_of_read object accepted reads.2,valid]
  all_goals simp only [Term.accepted,Bool.and_eq_true] at accepted
  case compare op signed left right =>
    simp [lexical,lexical_of_read left accepted.1 reads.2.1, lexical_of_read right accepted.2 reads.2.2]
  case conditional test body orElse =>
    simp [lexical,lexical_of_read test accepted.1.1 reads.2.1.1,
      lexical_of_read body accepted.1.2 reads.2.1.2,lexical_of_read orElse accepted.2 reads.2.2]
  case binary op left right =>
    simp [lexical,lexical_of_read left accepted.1.1.2 reads.2.1, lexical_of_read right accepted.1.2 reads.2.2]
  case boolean op first more =>
    simp [lexical,lexical_of_read first accepted.1 reads.2.1, allLexical_of_read more accepted.2 reads.2.2]
  case subscript object index =>
    have first := lexical_of_read object accepted.1.2 reads.2.1
    have second := lexical_of_read index accepted.1.1 reads.2.2
    have uncut := uncut_of_read whole (source_spelled object accepted.1.2 first)
      (source_spelled index accepted.1.1 second)
    simp [lexical,first,second,uncut]

theorem allLexical_of_read (es : List Term) (accepted : allAccepted es = true)
    (reads : ∀ d ∈ allParts es, read d.source = some d.image) : allLexical es = true := by
  cases es with
  | nil => rfl
  | cons e rest =>
    rw [allParts,List.forall_mem_append] at reads
    simp only [allAccepted,Bool.and_eq_true] at accepted
    simp [allLexical,lexical_of_read e accepted.1 reads.1,allLexical_of_read rest accepted.2 reads.2]

end

/-- Every expression in it is read as it is meant exactly if the expression is sound. -/
theorem reads_iff_sound (e : Term) :
    (∀ d ∈ e.parts, d.accepted = true ∧ read d.source = some d.image) ↔ e.Sound := by
  constructor
  · intro reads
    obtain ⟨accepted,whole⟩ := reads e (self_mem_parts e)
    exact ⟨accepted,lexical_of_read e accepted fun d member => (reads d member).2, (lex_of_read whole).1⟩
  · intro sound d member
    obtain ⟨accepted,clean,fits⟩ := parts_sound e sound d member
    exact ⟨accepted,read_source accepted clean fits⟩

end Term

namespace Compile

open Term

/-- Operands stay units: the expression and all expressions in it are compiled, and read as the
operation that is meant on the readings of their operands, exactly if nothing in it is refused, its
source has the tokens that are meant, and the priorities draw every operand to its own operator. -/
theorem operands_kept_iff (config : Option Config) (e : Term) {s : State} (untagged : s.tags = [])
    (plain : s.frames.top.docstring = false) :
    (∀ d ∈ e.parts, ∃ text, Gives (inline (visit config d.node)) s text s ∧ Luau.read text = some d.image) ↔
      e.accepted = true ∧ e.lexical = true ∧ e.image.Fits := by
  have compiled (d : Term) : (∃ text, Gives (inline (visit config d.node)) s text s ∧
      Luau.read text = some d.image) ↔ d.accepted = true ∧ Luau.read d.source = some d.image := by
    simp [(term_written config d).text untagged fun _ => plain,and_assoc]
  have sound : e.Sound ↔ e.accepted = true ∧ e.lexical = true ∧ e.image.Fits :=
    ⟨fun sound => ⟨sound.accepted,sound.lexical,sound.fits⟩, fun kept => ⟨kept.1,kept.2.1,kept.2.2⟩⟩
  simp only [compiled]
  rw [reads_iff_sound,sound]

def negatedEquality : Term := .unary .not (.compare .eq rfl (.name "a") (.name "b"))

/-- The negation takes the left operand of the test for its own. -/
theorem negatedEquality_regrouped :
    Gives (inline (visit none negatedEquality.node)) (State.initial .empty) "not a == b"
        (State.initial .empty) ∧
      Luau.read "not a == b" = some (.binary .eq (.unary .not (.name "a")) (.name "b")) ∧
      ¬ ∀ d ∈ negatedEquality.parts, ∃ text,
        Gives (inline (visit none d.node)) (State.initial .empty) text (State.initial .empty) ∧
          Luau.read text = some d.image := by
  have run := (term_written none negatedEquality).text (s := State.initial .empty) rfl (fun _ => rfl)
  refine ⟨(run _ _).mpr ⟨rfl,rfl,rfl⟩,rfl,?_⟩
  intro kept
  obtain ⟨text,given,found⟩ := kept _ (self_mem_parts negatedEquality)
  obtain ⟨-,rfl,-⟩ := (run _ _).mp given
  obtain ⟨-,drawn⟩ := (lex_of_read found).1
  exact absurd (drawn 3 (by decide)) (by decide)

/-- A member of an indexed list, under a sign and added to a quoted text. -/
def labelledDepth : Term := .binary .add (.text "depth: ")
    (.unary .uSub (.member (.subscript (.name "levels") (.binary .sub (.name "n") (.name "m"))) "depth"))

theorem labelledDepth_kept :
    let s := State.initial .empty
    s.tags = [] ∧ s.frames.top.docstring = false ∧
      ((∀ d ∈ labelledDepth.parts, ∃ text, Gives (inline (visit none d.node)) s text s ∧
          Luau.read text = some d.image) ↔
        labelledDepth.accepted = true ∧ labelledDepth.lexical = true ∧ labelledDepth.image.Fits) ∧
      labelledDepth.accepted = true ∧ labelledDepth.lexical = true ∧ labelledDepth.image.Fits := by
  exact ⟨rfl,rfl,operands_kept_iff none labelledDepth rfl rfl,by decide⟩

end Compile

end LuauCompiler
