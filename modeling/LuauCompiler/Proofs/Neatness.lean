import LuauCompiler.Proofs.Expressions
import LuauCompiler.Proofs.IndexPieces
import LuauCompiler.Proofs.Spelling

/-! The texts of expressions open and close nothing: whatever is opened inside of one is closed in it
again. -/
namespace LuauCompiler.Luau

variable {c : Char} {cs : List Char} {name : String}

variable {s : Compile.Cut}

/-! ## Words, numerals and quoted texts -/

/-- A name that the emitted language does not reserve. -/
def IsIdentifier (name : String) : Prop :=
  name.toList ≠ [] ∧ name.toList.all isWordChar = true ∧ name ∉ reservedWords

instance (name : String) : Decidable (IsIdentifier name) := inferInstanceAs (Decidable (_ ∧ _ ∧ _))

theorem follow_of_free (free : word ∉ reservedWords) (opened : List Open) :
    follow opened word = some opened := by
  unfold follow
  split <;> simp_all [reservedWords]

theorem IsIdentifier.word (identifier : IsIdentifier name) : Word name :=
  ⟨identifier.1,List.all_eq_true.mp identifier.2.1,follow_of_free identifier.2.2⟩

theorem Word.neat (word : Word text) : Neat text := by
  intro p entry
  simp only [Spot.entries,Spot.start,List.mem_cons,List.not_mem_nil,or_false] at entry
  rcases entry with rfl | rfl | rfl <;> exact word.passes (by simp)

theorem isWordChar_of_isDigit (digit : c.isDigit = true) : isWordChar c = true := by
  simp [isWordChar,Char.isAlphanum,digit]

theorem word_digits (n : Nat) : Word (toString n) := by
  have digits : ∀ c ∈ (toString n).toList, c.isDigit = true := by
    intro c member
    rw [Nat.toString_eq_ofList_toDigits,String.toList_ofList] at member
    exact Nat.isDigit_of_mem_toDigits (by decide) (by decide) member
  have nonempty : (toString n).toList ≠ [] := by
    rw [Nat.toString_eq_ofList_toDigits,String.toList_ofList]
    exact Nat.toDigits_ne_nil
  refine ⟨nonempty,fun c member => isWordChar_of_isDigit (digits c member),follow_of_free ?_⟩
  -- A reserved word starts with a letter.
  intro reserved
  obtain ⟨c,member⟩ := List.exists_mem_of_ne_nil _ nonempty
  have noDigits : ∀ word ∈ reservedWords, word.toList.all (!·.isDigit) = true := by decide
  have contrary := List.all_eq_true.mp (noDigits _ reserved) c member
  simp [digits c member] at contrary

theorem neat_integer (n : Int) : Neat (toString n) := by
  cases n with
  | ofNat n => exact (word_digits n).neat
  | negSucc n =>
    have word := word_digits (n + 1)
    exact neat_render [.fixed "-",.word (toString (n + 1))] (by simpa using word) rfl fun _ => rfl

/-- Letters, digits and spaces. -/
def isSimple (c : Char) : Bool := c.isAlphanum || c == ' '

theorem isPrintable_of_isSimple (simple : isSimple c = true) : Text.isPrintable c = true := by
  have range : 0x20 ≤ c.toNat ∧ c.toNat < 0x7f := by
    delta isSimple Char.isAlphanum Char.isAlpha Char.isUpper Char.isLower Char.isDigit at simple
    simp only [Bool.or_eq_true,Bool.and_eq_true,decide_eq_true_eq,UInt32.le_iff_toNat_le,
      ge_iff_le,beq_iff_eq] at simple
    rcases simple with letter | rfl
    · change ((65 ≤ c.toNat ∧ c.toNat ≤ 90) ∨ (97 ≤ c.toNat ∧ c.toNat ≤ 122)) ∨
        (48 ≤ c.toNat ∧ c.toNat ≤ 57) at letter
      omega
    · decide
  rw [Text.isPrintable,if_pos (by omega)]
  simpa using range

theorem quoteChar_of_isSimple (simple : isSimple c = true) : Text.quoteChar Text.apostrophe c = [c] := by
  have other (d : Char) (special : isSimple d = false) : c ≠ d := by
    rintro rfl
    simp [simple] at special
  have mark : c ≠ Text.apostrophe := other _ rfl
  have escape : c ≠ '\\' := other _ rfl
  simp [Text.quoteChar,mark,escape,isPrintable_of_isSimple simple]

section

variable {text : String} (simple : ∀ c ∈ text.toList, isSimple c = true)

include simple

theorem quote_of_isSimple :
    Text.quote text = "'" ++ text ++ "'" := by
  have mark : Text.quotationMark text.toList = Text.apostrophe := by
    have none : Text.apostrophe ∉ text.toList := fun member =>
      absurd (simple _ member) (by decide)
    simp [Text.quotationMark,none]
  have same : text.toList.flatMap (Text.quoteChar Text.apostrophe) = text.toList := by
    generalize text.toList = cs at simple
    induction cs with
    | nil => rfl
    | cons c cs ih =>
      rw [List.flatMap_cons,quoteChar_of_isSimple (simple c (by simp)),
        ih fun d member => simple d (by simp [member])]
      rfl
  apply String.toList_inj.mp
  simp only [Text.quote,Text.quoteChars,mark,same]
  simp [Text.apostrophe]

theorem inert_of_isSimple : Inert text := by
  intro c member
  have holds := simple c member
  simp only [isSimple,Bool.or_eq_true] at holds
  rcases holds with letter | blank
  · simp [isInert,isWordChar,letter]
  · simp [isInert,blank]

theorem neat_quote : Neat (Text.quote text) := by
  rw [quote_of_isSimple simple]
  exact neat_render [.fixed "'",.inert text,.fixed "'"]
    (by simpa using inert_of_isSimple simple) rfl fun _ => rfl

end

/-! ## Rows of texts -/

theorem smooth_empty : Smooth "" := (Passes.nil .start).settle rfl

theorem smooth_intercalate (joins : Passes .token separator [] .start)
    (all : ∀ text ∈ texts, Smooth text) : Smooth (String.intercalate separator texts) := by
  induction texts with
  | nil => exact smooth_empty
  | cons text rest ih =>
    have first : Smooth text := all text (by simp)
    cases rest with
    | nil => simpa using first
    | cons next rest =>
      rw [String.intercalate_cons_cons]
      exact (first.append joins).append (ih fun other member => all other (by simp [member]))

theorem smooth_commaSeparated (all : ∀ text ∈ texts, Smooth text) : Smooth (Text.commaSeparated texts) :=
  smooth_intercalate (separator_passes ", " rfl fun _ => rfl) all

/-! ## Subscripts -/

/-- The rest of an index behind a comma. -/
structure Uncut (cs : List Char) : Prop where
  sound : (Point.behind ⟨.code,true,true⟩ cs).sound = true
  settled : (Point.behind ⟨.code,true,true⟩ cs).mode.settled = true

theorem Point.sound_of_behind {x : Point} (sound : (x.behind cs).sound = true) : x.sound = true := by
  induction cs generalizing x with
  | nil => exact sound
  | cons c cs ih =>
    have next := ih sound
    simp only [Point.next,Bool.and_eq_true] at next
    exact next.1.1

theorem wordsFrom_eq_passed (x : Point) (cs : List Char) :
    wordsFrom x.mode cs = passed x.mode cs ++ (x.behind cs).mode.pending := by
  simpa [wordsFrom] using wordsFrom_append x cs []

theorem ended_of_separates {m : Mode} (separates : isWordChar c = false) : m.ended c = m.pending := by
  simp [Mode.ended,separates]

theorem Uncut.bracketed (uncut : Uncut cs) :
    Point.behind ⟨.bracket 0,false,true⟩ (cs ++ [']']) = ⟨.code,false,true⟩ ∧
      passed (.bracket 0) (cs ++ [']']) = wordsFrom .code cs := by
  cases cs with
  | nil => exact ⟨rfl,rfl⟩
  | cons c rest =>
    obtain ⟨sound,settled⟩ := uncut
    have first : (Point.next ⟨.code,true,true⟩ c).sound = true := Point.sound_of_behind sound
    have opening : c ≠ '[' ∧ c ≠ '=' ∧ c ≠ ',' := by simpa [Point.next,opens,and_assoc] using first
    have step : Point.next ⟨.bracket 0,false,true⟩ c = Point.next ⟨.code,true,true⟩ c := by
      have sound_next : (Point.next ⟨.bracket 0,false,true⟩ c).sound = true := by
        simp [Point.next,opening]
      simp only [Point.next] at first sound_next ⊢
      rw [first,sound_next]
      simp [Mode.next,opening]
    have mode_step : (Mode.bracket 0).next c = Mode.code.next c := congrArg Point.mode step
    have ends : (Point.behind ⟨.code,true,true⟩ (c :: rest)).next ']' = ⟨.code,false,true⟩ := by
      have mode := Mode.next_of_settled settled (c := ']') rfl
      simp_all [Point.next,opens]
      rfl
    constructor
    · rw [List.cons_append,Point.behind_cons,step,← Point.behind_cons,← List.cons_append,
        Point.behind_append,Point.behind_cons,ends,Point.behind_nil]
    · have inside : passed (.bracket 0) (c :: rest) = passed .code (c :: rest) := by
        simp [passed,mode_step,Mode.ended,Mode.pending]
      rw [passed_append ⟨.bracket 0,false,true⟩,inside,wordsFrom_eq_passed ⟨.code,true,true⟩,
        Point.behind_cons,step,← Point.behind_cons]
      simp [passed,ended_of_separates (c := ']') rfl]

theorem Uncut.passes (uncut : Uncut cs) :
    Passes .token ("[" ++ String.ofList cs ++ "]") (wordsFrom .code cs) .token := by
  have opening : Passes .token "[" [] (.known (.bracket 0) false) := render_passes [.fixed "["] (by simp) rfl
  have inside : Passes (.known (.bracket 0) false) (String.ofList cs ++ "]") (wordsFrom .code cs)
      .start := by
    obtain ⟨last,words⟩ := uncut.bracketed
    refine ⟨fun x at_start => ?_⟩
    cases at_start
    simp [last,words,Spot.Holds,Spot.start,Spot.carried,followAll]
  rw [String.append_assoc]
  simpa [Mode.pending] using (opening.append inside).settle rfl

theorem Uncut.cut (uncut : Uncut (piece ++ ',' :: rest)) : Uncut piece ∧ Uncut rest ∧
    wordsFrom .code (piece ++ ',' :: rest) = wordsFrom .code piece ++ wordsFrom .code rest := by
  obtain ⟨sound,settled⟩ := uncut
  rw [Point.behind_append,Point.behind_cons] at sound settled
  have here := Point.sound_of_behind sound
  simp only [Point.next,Bool.and_eq_true] at here
  have piece_settled : (Point.behind ⟨.code,true,true⟩ piece).mode.settled = true := by
    simpa using here.1.2
  have restart : (Point.behind ⟨.code,true,true⟩ piece).next ',' = ⟨.code,true,true⟩ := by
    have mode := Mode.next_of_settled piece_settled (c := ',') rfl
    simp_all [Point.next]
    rfl
  rw [restart] at sound settled
  refine ⟨⟨here.1.1,piece_settled⟩,⟨sound,settled⟩,?_⟩
  have mode_restart := congrArg Point.mode restart
  rw [Point.next_mode] at mode_restart
  calc wordsFrom .code (piece ++ ',' :: rest)
      = passed .code piece ++ wordsFrom (Point.behind ⟨.code,true,true⟩ piece).mode (',' :: rest) :=
        wordsFrom_append ⟨.code,true,true⟩ piece _
    _ = passed .code piece ++ ((Point.behind ⟨.code,true,true⟩ piece).mode.pending ++
          wordsFrom .code rest) := by
        rw [wordsFrom,mode_restart,ended_of_separates rfl]
    _ = wordsFrom .code piece ++ wordsFrom .code rest := by
        rw [← List.append_assoc,← wordsFrom_eq_passed ⟨.code,true,true⟩]

theorem Uncut.pieces (uncut : Uncut cs) : Passes .token (String.join ((Compile.splitIndex cs).map fun piece =>
    "[" ++ String.ofList piece ++ "]")) (wordsFrom .code cs) .token := by
  induction cs using Compile.splitIndex_induction with
  | whole cs => simpa using uncut.passes
  | cut front rest pieces later =>
    obtain ⟨piece,behind,words⟩ := uncut.cut
    rw [List.map_cons,String.join_cons,words]
    exact piece.passes.append (later behind)

theorem Neat.indexed (neat : Neat index) : Passes .token (Compile.indexText index) [] .token := by
  obtain ⟨⟨settled,_,sound⟩,words⟩ := (neat (.known .code true) (by simp [Spot.entries])).run
    ⟨.code,true,true⟩ rfl
  refine Passes.congr (Uncut.pieces ⟨sound,settled⟩) fun opened => ?_
  rw [wordsFrom_eq_passed ⟨.code,true,true⟩]
  simpa [Spot.carried,followAll] using words opened

theorem neat_subscript (object : Neat name) (neat : Neat index) :
    Neat (name ++ Compile.indexText index) := fun p entry => (object p entry).append neat.indexed

/-! ## Operations -/

theorem neat_parenthesised (inner : Smooth text) : Neat ("(" ++ text ++ ")") :=
  neat_render [.fixed "(",.row text,.fixed ")"] (by simpa using inner) rfl fun _ => rfl

section

variable (first : Neat left) (second : Neat right)

include first second

theorem neat_infix (joins : routes .token [.fixed " ",.fixed sign,.fixed " "] = some (ws,.start))
    (neutral : ∀ opened, followAll opened ws = some opened) :
    Neat (Compile.infixText sign left right) := by
  intro p entry
  have signed := (first p entry).extend (by simp) joins
  exact (signed.append second.smooth).congr (by simpa [followAll] using neutral)

theorem neat_callText
    (named : function ∈ ["bit32.lshift","bit32.rshift","bit32.bor","bit32.band","bit32.bxor"]) :
    Neat (Compile.callText function left right) := by
  simp only [List.mem_cons,List.not_mem_nil,or_false] at named
  have holds (name : String) : ∀ piece ∈ [Piece.fixed name,.fixed "(",.phrase left,.fixed ", ",
      .phrase right,.fixed ")"], piece.Holds := by simp [first,second]
  rcases named with rfl | rfl | rfl | rfl | rfl <;>
    exact neat_render _ (holds _) rfl fun _ => rfl

theorem neat_binaryText (written : Compile.binaryText? op left right = some text) : Neat text := by
  cases op <;> cases written
  case floorDiv =>
    have quotient : Neat (Compile.infixText "/" left right) := neat_infix first second rfl fun _ => rfl
    exact neat_render [.fixed "math.floor(",.phrase (Compile.infixText "/" left right),.fixed ")"]
      (by simpa using quotient) rfl fun _ => rfl
  case lShift | rShift | bitOr | bitAnd | bitXor => exact neat_callText first second (by simp)
  all_goals exact neat_infix first second rfl fun _ => rfl

theorem neat_operation (form : Compile.OperationText left right text) : Neat text := by
  cases form with
  | leftRepeated =>
    exact neat_render [.fixed "string.rep(",.phrase left,.fixed ",",.phrase right,.fixed ")"] (by simp [*]) rfl fun _ => rfl
  | rightRepeated =>
    exact neat_render [.fixed "string.rep(",.phrase right,.fixed ",",.phrase left,.fixed ")"] (by simp [*]) rfl fun _ => rfl
  | texts =>
    exact neat_render [.phrase left,.fixed " .. ",.phrase right] (by simp [*]) rfl fun _ => rfl
  | leftText =>
    exact neat_render [.phrase left,.fixed " .. tostring(",.phrase right,.fixed ")"] (by simp [*]) rfl fun _ => rfl
  | rightText =>
    exact neat_render [.fixed "tostring(",.phrase left,.fixed ") .. ",.phrase right] (by simp [*]) rfl fun _ => rfl
  | plain op text written => exact neat_parenthesised (neat_binaryText first second written).smooth

end

theorem neat_negative (word : Word text) : Neat (Compile.unaryText .uSub text) :=
  neat_render [.fixed "-",.word text] (by simp [*]) rfl fun _ => rfl

theorem neat_unary (other : op ≠ .uSub) (neat : Neat text) : Neat (Compile.unaryText op text) := by
  cases op with
  | uSub => exact absurd rfl other
  | uAdd => exact neat
  | not =>
    exact neat_render [.fixed "not ",.phrase text] (by simp [*]) rfl fun _ => rfl
  | invert =>
    exact neat_render [.fixed "bit32.bnot(",.phrase text,.fixed ")"] (by simp [*]) rfl fun _ => rfl

theorem neat_boolean (sign : BoolOp) (all : ∀ text ∈ texts, Neat text) :
    Neat (Compile.parenthesised (String.intercalate (Compile.boolSign sign) texts)) := by
  have joins : Passes .token (Compile.boolSign sign) [] .start := by
    cases sign with
    | and => exact separator_passes " and " rfl fun _ => rfl
    | or => exact separator_passes " or " rfl fun _ => rfl
  exact neat_parenthesised (smooth_intercalate joins fun text member => (all text member).smooth)

theorem membership_passes (m : Compile.Membership) (first : Neat left) (second : Neat right) :
    ∀ p ∈ Spot.token :: Spot.entries, Passes p (m.text left right) [] .token := by
  cases m with
  | inList =>
    exact render_neutral _
      [.fixed "(table.find(",.phrase right,.fixed ", ",.phrase left,.fixed ") ~= nil)"] (by simp [*]) rfl fun _ => rfl
  | inText =>
    exact render_neutral _
      [.fixed "(string.find(",.phrase right,.fixed ", ",.phrase left,.fixed ", 1, true) ~= nil)"] (by simp [*]) rfl fun _ => rfl
  | asKey =>
    exact render_neutral _ [.fixed "(",.phrase right,.fixed "[",.phrase left,.fixed "] ~= nil)"] (by simp [*]) rfl fun _ => rfl

theorem neat_link (first : Neat left) (second : Neat right)
    (form : Compile.LinkText left right text) : Neat text := by
  cases form with
  | signed op =>
    rcases op with _ | op
    · exact neat_infix first second rfl fun _ => rfl
    · cases op <;> exact neat_infix first second rfl fun _ => rfl
  | member m negated =>
    have test := membership_passes m first second
    cases negated with
    | false =>
      intro p entry
      simpa using test p (by simp [entry])
    | true =>
      have negation : Neat "not" := neat_render [.fixed "not"] (by simp [*]) rfl fun _ => rfl
      exact fun p entry => (negation p entry).append (test .token (by simp))

theorem neat_and (first : Neat left) (second : Neat right) : Neat (left ++ " and " ++ right) :=
  neat_render [.phrase left,.fixed " and ",.phrase right] (by simp [*]) rfl fun _ => rfl

theorem neat_conditional (first : Neat left) (second : Neat right) (third : Neat text) :
    Neat (left ++ " and " ++ right ++ " or " ++ text) :=
  neat_render [.phrase left,.fixed " and ",.phrase right,.fixed " or ",.phrase text] (by simp [*]) rfl fun _ => rfl

/-! ## Other expressions -/

theorem neat_member (neat : Neat object) (word : Word name) :
    Neat ((if Compile.isLiteralText object then "(" ++ object ++ ")" else object) ++ "." ++ name) := by
  have enclosed : Neat (if Compile.isLiteralText object then "(" ++ object ++ ")" else object) := by
    split
    · exact neat_parenthesised neat.smooth
    · exact neat
  generalize (if Compile.isLiteralText object then "(" ++ object ++ ")" else object) = shown at *
  exact neat_render [.phrase shown,.fixed ".",.word name] (by simp [*]) rfl fun _ => rfl

theorem neat_bracedList (all : ∀ text ∈ texts, Smooth text) : Neat (Compile.bracedList texts) :=
  neat_render [.fixed "\x7b",.row (Text.commaSeparated texts),.fixed "\x7d"]
    (by simpa using smooth_commaSeparated all) rfl fun _ => rfl

theorem neat_tuple (all : ∀ text ∈ texts, Neat text) :
    Neat ("table.freeze(" ++ Compile.bracedList texts ++ ")") :=
  have list := neat_bracedList fun text member => (all text member).smooth
  neat_render [.fixed "table.freeze(",.phrase (Compile.bracedList texts),.fixed ")"]
    (by simpa using list) rfl fun _ => rfl

theorem neat_dict (first : ∀ text ∈ keys, Neat text) (second : ∀ text ∈ values, Neat text) : Neat ("dict " ++
      Compile.bracedList (List.zipWith (fun k v => "[" ++ k ++ "] = " ++ v) keys values)) := by
  have entries : ∀ text ∈ List.zipWith (fun k v => "[" ++ k ++ "] = " ++ v) keys values,
      Smooth text := by
    rw [← List.map_uncurry_zip_eq_zipWith]
    intro text member
    obtain ⟨⟨k,v⟩,pair,rfl⟩ := List.mem_map.mp member
    have key := first k (List.of_mem_zip pair).1
    have value := second v (List.of_mem_zip pair).2
    exact smooth_render [.fixed "[",.phrase k,.fixed "] = ",.phrase v] (by simp [*]) rfl fun _ => rfl
  have list := neat_bracedList entries
  exact neat_render [.fixed "dict ",.phrase (Compile.bracedList _)] (by simpa using list) rfl fun _ => rfl

theorem neat_lambda (words : ∀ name ∈ names, Word name) (neat : Neat text) :
    Neat ("function(" ++ Text.commaSeparated names ++ ") return " ++ text ++ " end") :=
  have row := smooth_commaSeparated fun name member => (words name member).neat.smooth
  neat_render [.fixed "function(",.row (Text.commaSeparated names),.fixed ") return ",.phrase text,
    .fixed " end"] (by simpa [neat] using row) rfl fun _ => rfl

theorem neat_call (function : Neat name) (all : ∀ text ∈ texts, Neat text) :
    Neat (name ++ "(" ++ Text.commaSeparated texts ++ ")") :=
  have row := smooth_commaSeparated fun text member => (all text member).smooth
  neat_render [.phrase name,.fixed "(",.row (Text.commaSeparated texts),.fixed ")"]
    (by simpa [function] using row) rfl fun _ => rfl

theorem neat_starred (neat : Neat text) : Neat ("unpack(" ++ text ++ ")") :=
  neat_render [.fixed "unpack(",.phrase text,.fixed ")"] (by simp [*]) rfl fun _ => rfl

end LuauCompiler.Luau
