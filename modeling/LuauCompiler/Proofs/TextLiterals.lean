import LuauCompiler.Proofs.Lexemes
import LuauCompiler.Proofs.Run

/-! Texts read back. A text outside a docstring is one quoted literal. A docstring and the text of bytes
stand between long brackets as they are. -/
namespace LuauCompiler

namespace Luau

/-! ## Escapes -/

def digitValue (c : Char) : Nat :=
  if c.isDigit then c.toNat - 48 else if c ≤ 'F' then c.toNat - 55 else c.toNat - 87

def ofDigits (base : Nat) (ds : List Char) : Nat := ds.foldl (fun n d => base * n + digitValue d) 0

/-- The escapes of one letter. Any other character stands for itself. -/
def letterEscape (c : Char) : List UInt8 :=
  match c with
  | 'a' => [7]
  | 'b' => [8]
  | 't' => [9]
  | 'n' => [10]
  | 'v' => [11]
  | 'f' => [12]
  | 'r' => [13]
  | c => String.utf8EncodeChar c

/-- Up to three digits give one byte. -/
def decimalEscape? (ds : List Char) : Option (List UInt8 × Nat) :=
  if ofDigits 10 ds ≤ 255 then some ([.ofNat (ofDigits 10 ds)],ds.length) else none

/-- Two digits give one byte. -/
def byteEscape? (ds : List Char) : Option (List UInt8 × Nat) :=
  if ds.length = 2 && ds.all isHexDigit then some ([.ofNat (ofDigits 16 ds)],3) else none

/-- Digits in braces give the character with that number. -/
def braceEscape? (cs : List Char) : Option (List UInt8 × Nat) :=
  let ds := cs.tail.takeWhile isHexDigit
  if cs.head? = some '\x7b' && !ds.isEmpty && (cs.tail.drop ds.length).head? = some '\x7d' &&
    decide (ofDigits 16 ds).isValidChar
  then some (String.utf8EncodeChar (.ofNat (ofDigits 16 ds)),ds.length + 3) else none

/-- What the characters behind a backslash stand for, and how many of them belong to the escape. -/
def escaped? : List Char → Option (List UInt8 × Nat)
  | [] => none
  | c :: rest =>
    if c = 'x' then byteEscape? (rest.take 2)
    else if c = 'u' then braceEscape? rest
    else if c = 'z' then some ([],1 + (rest.takeWhile Char.isWhitespace).length)
    else if c.isDigit then decimalEscape? (((c :: rest).take 3).takeWhile Char.isDigit)
    else if c = '\r' then some ([10],if rest.head? = some '\n' then 2 else 1)
    else some (letterEscape c,1)

/-- The bytes of a literal up to the first character that stops it, and what is there. A line end
that is not escaped is refused. -/
def segment? (stops : Char → Bool) : (left : Nat) → List Char → Option (List UInt8 × List Char)
  | _, [] => none
  | left + 1, _ :: rest => segment? stops left rest
  | 0, c :: rest =>
    if stops c then some ([],c :: rest)
    else if c = '\\' then (escaped? rest).bind fun p =>
      (segment? stops p.2 rest).map fun q => (p.1 ++ q.1,q.2)
    else if c = '\n' || c = '\r' then none
    else (segment? stops 0 rest).map fun q => (String.utf8EncodeChar c ++ q.1,q.2)

section

variable {mark c : Char} {cs rest : List Char}

theorem segment_drop (left : Nat) (cs : List Char) :
    segment? stops left cs = segment? stops 0 (cs.drop left) := by
  induction cs generalizing left with
  | nil => simp [segment?]
  | cons c rest ih =>
    cases left with
    | zero => rfl
    | succ left => exact ih left

theorem segment_escape (cs : List Char) (apart : stops '\\' = false)
    (known : escaped? (cs ++ rest) = some (bytes,cs.length)) :
    segment? stops 0 ('\\' :: (cs ++ rest)) = (segment? stops 0 rest).map fun q => (bytes ++ q.1,q.2) := by
  rw [segment?,if_neg (by simp [apart]),if_pos rfl,known,Option.bind_some,segment_drop,List.drop_left]

theorem segment_plain (apart : stops c = false) (slash : c ≠ '\\') (feed : c ≠ '\n') (back : c ≠ '\r') :
    segment? stops 0 (c :: rest) =
      (segment? stops 0 rest).map fun q => (String.utf8EncodeChar c ++ q.1,q.2) := by
  rw [segment?,if_neg (by simp [apart]),if_neg slash,if_neg (by simp [feed,back])]

/-! ## Quoted characters -/

theorem ofDigits_hex (small : n ≤ 0xff) : ofDigits 16 (Text.hex 2 n) = n :=
  (by decide +kernel : ∀ n : Fin 256, ofDigits 16 (Text.hex 2 n.val) = n.val) ⟨n,by omega⟩

theorem escaped_byte (small : n ≤ 0xff) (rest : List Char) :
    escaped? ('x' :: Text.hex 2 n ++ rest) = some ([.ofNat n],('x' :: Text.hex 2 n).length) := by
  have value := ofDigits_hex small
  obtain ⟨a,b,two⟩ := hex_two small
  have digits : [a,b].all isHexDigit = true :=
    List.all_eq_true.mpr fun d member => isHexDigit_of_mem_hex 2 n (two ▸ member)
  rw [two] at value ⊢
  simp only [escaped?,List.cons_append,List.nil_append,if_pos,List.take_succ_cons,List.take_zero,
    byteEscape?,digits,value]
  rfl

theorem segment_quoteChar (stops : Char → Bool) (isMark : IsMark mark) (slash : stops '\\' = false)
    (apart : c ≠ mark → c ≠ '\\' → Text.isPrintable c = true → stops c = false)
    (known : Text.isPrintable c = false → c.toNat < 0x80) (rest : List Char) :
    segment? stops 0 (Text.quoteChar mark c ++ rest) =
      (segment? stops 0 rest).map fun q => (String.utf8EncodeChar c ++ q.1,q.2) := by
  rcases quoteChar_forms mark c with ⟨form,other,plain,shown⟩ | ⟨form,same⟩ | ⟨letter,form,listed⟩ |
    ⟨form,hidden⟩
  · rw [form]
    apply segment_plain (apart other plain shown) plain
    · rintro rfl
      exact absurd shown (by decide)
    · rintro rfl
      exact absurd shown (by decide)
  · rw [form]
    apply segment_escape [c] slash
    rcases same with rfl | rfl
    · rcases isMark with rfl | rfl <;> rfl
    · rfl
  · rw [form]
    apply segment_escape [letter] slash
    simp only [List.mem_cons,Prod.mk.injEq,List.not_mem_nil,or_false] at listed
    rcases listed with ⟨rfl,rfl⟩ | ⟨rfl,rfl⟩ | ⟨rfl,rfl⟩ <;> rfl
  · have small := known hidden
    have code : String.utf8EncodeChar c = [.ofNat c.toNat] := by
      rw [String.utf8EncodeChar]
      exact if_pos (Nat.le_of_lt_succ small)
    rw [form,Text.numericEscape,if_pos (by omega),code]
    exact segment_escape ('x' :: Text.hex 2 c.toNat) slash (escaped_byte (by omega) rest)

theorem utf8_head (wide : 0x80 ≤ c.toNat) (small : c.toNat ≤ 0x7ff) :
    (String.utf8EncodeChar c).head? = some (.ofNat (c.toNat / 64 % 32 + 192)) := by
  rw [String.utf8EncodeChar]
  change (if c.toNat ≤ 127 then _ else if c.toNat ≤ 2047 then _ else _ : List UInt8).head? = _
  rw [if_neg (by omega),if_pos small]
  rfl

theorem utf8_head_wide (wide : 0xffff < c.toNat) :
    (String.utf8EncodeChar c).head? = some (.ofNat (c.toNat / 262144 % 8 + 240)) := by
  rw [String.utf8EncodeChar]
  change (if c.toNat ≤ 127 then _ else if c.toNat ≤ 2047 then _ else if c.toNat ≤ 65535 then _
    else _ : List UInt8).head? = _
  rw [if_neg (by omega),if_neg (by omega),if_neg (by omega)]
  rfl

/-- Any other character is refused or read as one with another first byte: behind `\u` there is no
brace, `\x` gives its number, and `\U` the letter. -/
theorem segment_hidden (slash : stops '\\' = false) (isMark : IsMark mark)
    (hidden : Text.isPrintable c = false) (wide : 0x80 ≤ c.toNat)
    (found : segment? stops 0 (Text.quoteChar mark c ++ rest) = some p) :
    p.1.head? ≠ (String.utf8EncodeChar c).head? := by
  have form : Text.quoteChar mark c = Text.numericEscape c.toNat := by
    rcases quoteChar_forms mark c with ⟨-,-,-,shown⟩ | ⟨-,same⟩ | ⟨letter,-,listed⟩ | ⟨form,-⟩
    · rw [hidden] at shown
      cases shown
    · rcases same with rfl | rfl
      · rcases isMark with rfl | rfl <;> exact absurd wide (by decide)
      · exact absurd wide (by decide)
    · simp only [List.mem_cons,Prod.mk.injEq,List.not_mem_nil,or_false] at listed
      rcases listed with ⟨rfl,-⟩ | ⟨rfl,-⟩ | ⟨rfl,-⟩ <;> exact absurd wide (by decide)
    · exact form
  rw [form,Text.numericEscape] at found
  by_cases byte : c.toNat ≤ 0xff
  · rw [if_pos byte,List.cons_append,segment_escape _ slash (escaped_byte byte rest)] at found
    obtain ⟨q,-,rfl⟩ := Option.map_eq_some_iff.mp found
    rw [utf8_head wide (by omega)]
    intro same
    have value := congrArg UInt8.toNat (Option.some.inj same)
    -- Only U+00C3 is the first byte of its own code, and it is printable.
    have own : c.toNat = 0xc3 := by
      have quotient : c.toNat / 64 = 2 ∨ c.toNat / 64 = 3 := by omega
      simp only [UInt8.toNat_ofNat'] at value
      rcases quotient with two | three <;> omega
    have letter : c = 'Ã' := Char.toNat_inj.mp own
    rw [letter] at hidden
    exact absurd hidden (by decide +kernel)
  rw [if_neg byte] at found
  by_cases short : c.toNat ≤ 0xffff
  · rw [if_pos short] at found
    have refused : escaped? ('u' :: (Text.hex 4 c.toNat ++ rest)) = none := by
      cases digits : Text.hex 4 c.toNat with
      | nil => simp [Text.hex] at digits
      | cons d ds =>
        have digit : isHexDigit d = true := isHexDigit_of_mem_hex 4 c.toNat (by simp [digits])
        have other : d ≠ '\x7b' := by
          rintro rfl
          exact absurd digit (by decide)
        simp [escaped?,braceEscape?,other]
    simp [segment?,slash,refused] at found
  · rw [if_neg short,List.cons_append,List.cons_append] at found
    have letter : segment? stops 0 ('\\' :: 'U' :: (Text.hex 8 c.toNat ++ rest)) =
        (segment? stops 0 (Text.hex 8 c.toNat ++ rest)).map fun q => ([85] ++ q.1,q.2) :=
      segment_escape ['U'] slash rfl
    rw [letter] at found
    obtain ⟨q,-,rfl⟩ := Option.map_eq_some_iff.mp found
    rw [utf8_head_wide (by omega)]
    intro same
    have value := congrArg UInt8.toNat (Option.some.inj same)
    simp at value
    omega

/-! ## Quoted texts -/

/-- The bytes that a quoted text stands for, if nothing is behind its mark. -/
def textOf? : List Char → Option (List UInt8)
  | [] => none
  | mark :: cs => if mark = Text.apostrophe || mark = Text.doubleQuote then
      (segment? (· == mark) 0 cs).bind fun p => if p.2 = [mark] then some p.1 else none
    else none

/-- What is behind the mark that opens a quoted text: it ends in that mark and does not have it
anywhere else without a backslash in front, and it is all on one line. -/
inductive QuotedRest (mark : Char) : List Char → Prop where
  | close : QuotedRest mark [mark]
  | plain {c : Char} {rest : List Char} : c ∉ [mark,'\\','\n','\r'] → QuotedRest mark rest →
    QuotedRest mark (c :: rest)
  | escape {c : Char} {rest : List Char} : c ∉ ['\n','\r'] → QuotedRest mark rest →
    QuotedRest mark ('\\' :: c :: rest)

theorem segment_quoteChars (isMark : IsMark mark) :
    segment? (· == mark) 0 (cs.flatMap (Text.quoteChar mark) ++ [mark]) =
        some (cs.flatMap String.utf8EncodeChar,[mark]) ↔
      ∀ c ∈ cs, Text.isPrintable c = false → c.toNat < 0x80 := by
  have slash : ('\\' == mark) = false := by rcases isMark with rfl | rfl <;> rfl
  induction cs with
  | nil => simp [segment?]
  | cons c cs ih =>
    rw [List.forall_mem_cons,List.flatMap_cons,List.flatMap_cons,List.append_assoc]
    by_cases known : Text.isPrintable c = false → c.toNat < 0x80
    · rw [segment_quoteChar (· == mark) isMark slash
        (fun other _ _ => beq_eq_false_iff_ne.mpr other) known,Option.map_eq_some_iff]
      constructor
      · rintro ⟨q,found,same⟩
        rw [Prod.mk.injEq,List.append_cancel_left_eq] at same
        exact ⟨known,ih.mp (by rw [found,← same.1,← same.2])⟩
      · rintro ⟨-,later⟩
        exact ⟨_,ih.mpr later,rfl⟩
    · obtain ⟨hidden,wide⟩ := Classical.not_imp.mp known
      constructor
      · intro found
        apply absurd _ (segment_hidden slash isMark hidden (by omega) found)
        have size := c.utf8Size_pos
        rw [← String.length_utf8EncodeChar] at size
        cases code : String.utf8EncodeChar c with
        | nil => simp [code] at size
        | cons => rfl
      · rintro ⟨narrow,-⟩
        exact absurd narrow known

theorem bytes_eq_flatMap (text : String) :
    text.toUTF8.data.toList = text.toList.flatMap String.utf8EncodeChar := by
  rw [String.toUTF8,← String.utf8Encode_toList]
  simp [List.utf8Encode]

/-- The literal of a text stands for its bytes exactly if only characters of ASCII are escaped. -/
theorem textOf_quote (text : String) : textOf? (Text.quote text).toList = some text.toUTF8.data.toList ↔
      ∀ c ∈ text.toList, Text.isPrintable c = false → c.toNat < 0x80 := by
  have isMark := isMark_quotationMark text.toList
  rw [← segment_quoteChars isMark,bytes_eq_flatMap,Text.quote,String.toList_ofList,Text.quoteChars]
  generalize Text.quotationMark text.toList = mark at *
  rw [List.cons_append,textOf?,if_pos (by rcases isMark with rfl | rfl <;> rfl)]
  generalize segment? (· == mark) 0 _ = found
  constructor
  · intro read
    obtain ⟨p,rfl,closed⟩ := Option.bind_eq_some_iff.mp read
    split at closed
    · rename_i last
      rw [← Option.some.inj closed,← last]
    · cases closed
  · rintro rfl
    exact if_pos rfl

theorem QuotedRest.digits (isMark : IsMark mark) (later : QuotedRest mark rest)
    (digits : ∀ d ∈ cs, isHexDigit d = true) : QuotedRest mark (cs ++ rest) := by
  induction cs with
  | nil => exact later
  | cons d ds ih =>
    rw [List.forall_mem_cons] at digits
    refine .plain (fun special => ?_) (ih digits.2)
    have plain : [mark,'\\','\n','\r'].all (!isHexDigit ·) = true := by
      rcases isMark with rfl | rfl <;> decide
    have other := List.all_eq_true.mp plain d special
    rw [digits.1] at other
    cases other

theorem QuotedRest.quoteChar (isMark : IsMark mark) (later : QuotedRest mark rest) (c : Char) :
    QuotedRest mark (Text.quoteChar mark c ++ rest) := by
  rcases quoteChar_forms mark c with ⟨form,other,slash,shown⟩ | ⟨form,same⟩ | ⟨letter,form,listed⟩ | ⟨form,-⟩
  · rw [form]
    refine .plain (fun special => ?_) later
    simp only [List.mem_cons,other,slash,List.not_mem_nil,or_false,false_or] at special
    rcases special with rfl | rfl <;> exact absurd shown (by decide)
  · rw [form]
    apply QuotedRest.escape _ later
    rcases same with rfl | rfl
    · rcases isMark with rfl | rfl <;> decide
    · decide
  · rw [form]
    apply QuotedRest.escape _ later
    simp only [List.mem_cons,Prod.mk.injEq,List.not_mem_nil,or_false] at listed
    rcases listed with ⟨-,rfl⟩ | ⟨-,rfl⟩ | ⟨-,rfl⟩ <;> decide
  · rw [form,Text.numericEscape]
    split
    · exact .escape (by decide) (later.digits isMark fun d => isHexDigit_of_mem_hex 2 _)
    split
    · exact .escape (by decide) (later.digits isMark fun d => isHexDigit_of_mem_hex 4 _)
    · exact .escape (by decide) (later.digits isMark fun d => isHexDigit_of_mem_hex 8 _)

theorem quotedRest_quoteChars (isMark : IsMark mark) (cs : List Char) :
    QuotedRest mark (cs.flatMap (Text.quoteChar mark) ++ [mark]) := by
  induction cs with
  | nil => exact .close
  | cons c cs ih =>
    rw [List.flatMap_cons,List.append_assoc]
    exact ih.quoteChar isMark c

/-! ## Long brackets -/

/-- The text up to the first closing brackets, and what is behind them. -/
def longRest? : List Char → Option (List Char × List Char)
  | [] => none
  | c :: rest => if c = ']' && rest.head? = some ']' then some ([],rest.tail)
    else (longRest? rest).map fun p => (c :: p.1,p.2)

/-- The text is a comment in long brackets that ends with its last character. -/
def IsLongComment (cs : List Char) : Prop :=
  ∃ rest body, cs = '-' :: '-' :: '[' :: '[' :: rest ∧ longRest? rest = some (body,[])

/-- A line end of two characters is read as one. -/
def normalized : List Char → List Char
  | [] => []
  | c :: rest =>
    if c = '\r' && rest.head? = some '\n' then normalized rest else c :: normalized rest

/-- The text is one string in long brackets with this value: a line end at its front is left out. -/
def IsLongString (cs value : List Char) : Prop :=
  ∃ rest body, cs = '[' :: '[' :: rest ∧ longRest? rest = some (body,[]) ∧
    value = if (normalized body).head? = some '\n' then (normalized body).tail else normalized body

theorem normalized_of_free (free : '\r' ∉ cs) : normalized cs = cs := by
  induction cs with
  | nil => rfl
  | cons c cs ih =>
    obtain ⟨other,later⟩ := not_or.mp (mt List.mem_cons.mpr free)
    rw [normalized,if_neg (by simp [Ne.symm other]),ih later]

theorem longRest_closed : longRest? (cs ++ [']',']']) = some (body,[]) ↔
    body = cs ∧ ¬ [']',']'] <:+: cs ∧ cs.getLast? ≠ some ']' := by
  induction cs generalizing body with
  | nil =>
    change some ([],[]) = some (body,[]) ↔ _
    simp only [Option.some.injEq,Prod.mk.injEq,and_true,eq_comm]
    simp
  | cons c cs ih =>
    rw [List.cons_append,longRest?]
    by_cases early : c = ']' ∧ (cs ++ [']',']']).head? = some ']'
    · obtain ⟨rfl,next⟩ := early
      rw [if_pos (by simp [next])]
      cases cs with
      | nil => simp
      | cons d cs =>
        obtain rfl : d = ']' := by simpa using next
        have inside : [']',']'] <:+: ']' :: ']' :: cs := ⟨[],cs,rfl⟩
        simp [inside]
    · rw [if_neg (by simpa using early),Option.map_eq_some_iff]
      have infixes : [']',']'] <:+: c :: cs ↔ [']',']'] <:+: cs := by
        rw [List.infix_cons_iff]
        refine or_iff_right fun front => early ?_
        obtain ⟨more,same⟩ := front
        cases same
        simp
      have lasts : (c :: cs).getLast? = some ']' ↔ cs.getLast? = some ']' := by
        cases cs with
        | nil => simpa using early
        | cons => rfl
      rw [infixes,Ne,lasts]
      constructor
      · rintro ⟨⟨front,behind⟩,found,same⟩
        cases same
        obtain ⟨rfl,free⟩ := ih.mp found
        exact ⟨rfl,free⟩
      · rintro ⟨rfl,free⟩
        exact ⟨(cs,[]),ih.mpr ⟨rfl,free⟩,rfl⟩

theorem isLongComment_iff (text : String) : IsLongComment ("--[[ " ++ text ++ " ]]").toList ↔
    ¬ [']',']'] <:+: text.toList := by
  have joined (a b c : String) : (a ++ b ++ c).toList = a.toList ++ (b.toList ++ c.toList) := by simp
  have whole : ("--[[ " ++ text ++ " ]]").toList =
      '-' :: '-' :: '[' :: '[' :: (' ' :: (text.toList ++ [' ']) ++ [']',']']) := by
    rw [joined,List.cons_append,List.append_assoc]
    rfl
  have inside : [']',']'] <:+: ' ' :: (text.toList ++ [' ']) ↔ [']',']'] <:+: text.toList := by
    have apart (front : List Char) : [']',']'] ≠ front ++ [' '] := by
      intro same
      have last := congrArg List.getLast? same
      simp at last
    rw [List.infix_cons_iff,List.infix_concat_iff,List.suffix_concat_iff]
    simp [apart]
  rw [whole,← inside]
  constructor
  · rintro ⟨rest,body,same,closed⟩
    cases same
    exact (longRest_closed.mp closed).2.1
  · intro free
    refine ⟨_,_,rfl,longRest_closed.mpr ⟨rfl,free,?_⟩⟩
    rw [← List.cons_append,List.getLast?_concat]
    decide

theorem isLongString_iff (free : '\r' ∉ text.toList) :
    IsLongString ("[[" ++ text ++ "]]").toList text.toList ↔ ¬ [']',']'] <:+: text.toList ∧
      text.toList.getLast? ≠ some ']' ∧ text.toList.head? ≠ some '\n' := by
  have joined (a b c : String) : (a ++ b ++ c).toList = a.toList ++ (b.toList ++ c.toList) := by simp
  have whole : ("[[" ++ text ++ "]]").toList = '[' :: '[' :: (text.toList ++ [']',']']) := by
    rw [joined]
    rfl
  rw [whole]
  constructor
  · rintro ⟨rest,body,same,closed,value⟩
    cases same
    obtain ⟨rfl,inside,last⟩ := longRest_closed.mp closed
    refine ⟨inside,last,fun feed => ?_⟩
    rw [normalized_of_free free,if_pos feed] at value
    cases cs : text.toList with
    | nil => simp [cs] at feed
    | cons c rest =>
      rw [cs] at value
      exact absurd (congrArg List.length value) (by simp)
  · rintro ⟨inside,last,first⟩
    refine ⟨_,_,rfl,longRest_closed.mpr ⟨rfl,inside,last⟩,?_⟩
    rw [normalized_of_free free,if_neg first]

end

end Luau

namespace Text

/-! ## Texts that quoting leaves alone -/

theorem quoteChar_length (mark c : Char) :
    quoteChar mark c = [c] ∧ c ≠ mark ∧ c ≠ '\\' ∧ isPrintable c = true ∨
      1 < (quoteChar mark c).length ∧ ¬ (c ≠ mark ∧ c ≠ '\\' ∧ isPrintable c = true) := by
  rcases Luau.quoteChar_forms mark c with own | ⟨form,same⟩ | ⟨letter,form,listed⟩ | ⟨form,hidden⟩
  · exact .inl own
  · exact .inr ⟨by simp [form],fun plain => same.elim plain.1 plain.2.1⟩
  · simp only [List.mem_cons,Prod.mk.injEq,List.not_mem_nil,or_false] at listed
    refine .inr ⟨by simp [form],fun plain => ?_⟩
    rcases listed with ⟨rfl,-⟩ | ⟨rfl,-⟩ | ⟨rfl,-⟩ <;> exact absurd plain.2.2 (by decide)
  · refine .inr ⟨?_,fun plain => by simp [hidden] at plain⟩
    rw [form,numericEscape]
    split
    · simp
    · split <;> simp

theorem length_le_quoted (mark : Char) (cs : List Char) :
    cs.length ≤ (cs.flatMap (quoteChar mark)).length := by
  induction cs with
  | nil => simp
  | cons c cs ih =>
    have one : 1 ≤ (quoteChar mark c).length := by
      rcases quoteChar_length mark c with ⟨form,-⟩ | ⟨more,-⟩
      · simp [form]
      · omega
    simp only [List.flatMap_cons,List.length_append,List.length_cons]
    omega

theorem quoted_eq_self (mark : Char) (cs : List Char) : cs.flatMap (quoteChar mark) = cs ↔
    ∀ c ∈ cs, c ≠ mark ∧ c ≠ '\\' ∧ isPrintable c = true := by
  induction cs with
  | nil => simp
  | cons c cs ih =>
    rw [List.forall_mem_cons,← ih,List.flatMap_cons]
    rcases quoteChar_length mark c with ⟨form,plain⟩ | ⟨more,special⟩
    · simp [form,plain]
    · refine iff_of_false (fun same => ?_) fun both => special both.1
      have sizes := congrArg List.length same
      have longer := length_le_quoted mark cs
      simp only [List.length_append,List.length_cons] at sizes
      omega

/-- A text between double quotes is its own literal exactly if it has an apostrophe, which makes the
double quote the mark, and nothing to escape. -/
theorem quote_eq_iff (text : String) : quote text = "\"" ++ text ++ "\"" ↔ apostrophe ∈ text.toList ∧
    ∀ c ∈ text.toList, c ≠ doubleQuote ∧ c ≠ '\\' ∧ isPrintable c = true := by
  have whole : ("\"" ++ text ++ "\"").toList = doubleQuote :: (text.toList ++ [doubleQuote]) := by
    simp [doubleQuote]
  rw [← String.toList_inj,whole,quote,String.toList_ofList,quoteChars,List.cons_append,List.cons.injEq]
  constructor
  · rintro ⟨mark,same⟩
    rw [mark,List.append_cancel_right_eq,quoted_eq_self] at same
    refine ⟨Classical.byContradiction fun absent => ?_,same⟩
    rw [quotationMark,if_neg (by simp [absent])] at mark
    exact absurd mark (by decide)
  · rintro ⟨member,plain⟩
    have free : doubleQuote ∉ text.toList := fun inside => (plain _ inside).1 rfl
    have mark : quotationMark text.toList = doubleQuote := if_pos (by simp [member,free])
    rw [mark,(quoted_eq_self _ _).mpr plain]
    simp

theorem length_quote (text : String) : text.length + 2 ≤ (quote text).length := by
  have inner := length_le_quoted (quotationMark text.toList) text.toList
  simp only [quote,quoteChars,String.length_ofList,List.length_append,List.length_cons,List.length_nil]
  rw [String.length_toList] at inner
  omega

end Text

namespace Compile

variable {s : State} {before : List Code}

/-! ## Constants -/

/-- A text outside a docstring is emitted as one quoted token on one line, and what is read back is
the text exactly if no character beyond ASCII had to be escaped. -/
theorem text_literal_read_back (config : Option Config) (text : String) (kind : Option String)
    (plain : s.frames.top.docstring = false) (out : s.output = .block before) :
    Gives (visit config (.constant (.str text) kind)) s ()
        { s with output := .block (before ++ [.line (Text.quote text)]) } ∧
      (∃ mark rest, (Text.quote text).toList = mark :: rest ∧ Luau.IsMark mark ∧ Luau.QuotedRest mark rest) ∧
      (∀ c, c.toNat < 0x80 → (Text.isPrintable c = true ↔ 0x20 ≤ c.toNat ∧ c.toNat ≤ 0x7e)) ∧
      (Luau.textOf? (Text.quote text).toList = some text.toUTF8.data.toList ↔
        ∀ c ∈ text.toList, Text.isPrintable c = false → c.toNat < 0x80) := by
  refine ⟨?_,?_,fun c small => ?_,Luau.textOf_quote text⟩
  · change Gives (textConstant text) s () _
    rw [textConstant,gives_frame_bind,plain]
    exact gives_emit.mpr ⟨before,out,rfl⟩
  · have isMark := Luau.isMark_quotationMark text.toList
    rw [Text.quote,String.toList_ofList]
    exact ⟨_,_,rfl,isMark,Luau.quotedRest_quoteChars isMark text.toList⟩
  · rw [Text.isPrintable,if_pos small,Bool.and_eq_true,decide_eq_true_iff,decide_eq_true_iff]
    omega

theorem accent_read_back : Luau.textOf? (Text.quote "\u00e9\t").toList = some "\u00e9\t".toUTF8.data.toList :=
  (text_literal_read_back none "\u00e9\t" none (s := .initial .empty) rfl rfl).2.2.2.mpr
    (List.forall_mem_cons.mpr ⟨by decide +kernel,List.forall_mem_singleton.mpr (by decide)⟩)

theorem bytesText_utf8 (text : String) : bytesText text.toUTF8.data.toList = .ok ("[[" ++ text ++ "]]") := by
  have read : String.fromUTF8? ⟨text.toUTF8.data⟩ = some text := dif_pos text.isValidUTF8
  rw [bytesText,Array.toArray_toList,read]

theorem bytesText_invalid (invalid : ∀ text : String,
    bytes ≠ text.toUTF8.data.toList) : bytesText bytes = .error .invalidUtf8 := by
  have refused : String.fromUTF8? ⟨bytes.toArray⟩ = none := by
    refine dif_neg fun valid => invalid (String.fromUTF8 _ valid) ?_
    rfl
  rw [bytesText,refused]

/-- Raw text between long brackets. A docstring is one comment exactly if it does not close the
brackets; the text of bytes is read back exactly if it neither closes them, also together with the
brackets behind it, nor starts with a line end. Bytes that encode no text are refused. -/
theorem raw_text_contained (config : Option Config) (kind : Option String) (out : s.output = .block before) :
    (∀ text, s.frames.top.docstring = true → Gives (visit config (.constant (.str text) kind)) s ()
          { s with output := .block (before ++ [.line ("--[[ " ++ text ++ " ]]")]) } ∧
        (Luau.IsLongComment ("--[[ " ++ text ++ " ]]").toList ↔ ¬ [']',']'] <:+: text.toList)) ∧
    (∀ text : String, '\r' ∉ text.toList →
      Gives (visit config (.constant (.bytes text.toUTF8.data.toList) kind)) s ()
          { s with output := .block (before ++ [.line ("[[" ++ text ++ "]]")]) } ∧
        (Luau.IsLongString ("[[" ++ text ++ "]]").toList text.toList ↔
          ¬ [']',']'] <:+: text.toList ∧ text.toList.getLast? ≠ some ']' ∧ text.toList.head? ≠ some '\n')) ∧
    ∀ bytes, (∀ text : String, bytes ≠ text.toUTF8.data.toList) →
      visit config (.constant (.bytes bytes) kind) s = (.error .invalidUtf8,s) := by
  refine ⟨fun text marked => ⟨?_,Luau.isLongComment_iff text⟩,
    fun text free => ⟨?_,Luau.isLongString_iff free⟩,fun bytes invalid => ?_⟩
  · change Gives (textConstant text) s () _
    rw [textConstant,gives_frame_bind,marked]
    exact gives_emit.mpr ⟨before,out,rfl⟩
  · change Gives (do emit (← ofExcept (bytesText text.toUTF8.data.toList))) s () _
    exact gives_ofExcept_bind.mpr ⟨_,bytesText_utf8 text,gives_emit.mpr ⟨before,out,rfl⟩⟩
  · change (do emit (← ofExcept (bytesText bytes)) : Compile Unit) s = _
    rw [bytesText_invalid invalid]
    rfl

theorem brackets_close_comment : ¬ Luau.IsLongComment ("--[[ " ++ "a[b[0]]" ++ " ]]").toList := by
  have marked := ((raw_text_contained none none (s := { State.initial .empty with
    frames := .single { Frame.outermost with docstring := true } }) rfl).1 "a[b[0]]" rfl).2
  exact fun comment => marked.mp comment ⟨['a','[','b','[','0'],[],rfl⟩

end Compile

end LuauCompiler
