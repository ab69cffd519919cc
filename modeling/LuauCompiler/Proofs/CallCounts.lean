import LuauCompiler.Proofs.CallTrees
import LuauCompiler.Proofs.Completion
import LuauCompiler.Proofs.LoopForms
import LuauCompiler.Proofs.Neatness
import LuauCompiler.Proofs.Stability

/-! How often a function is called in the code of a module. Each step is counted: the texts of
expressions by the texts they are composed of, statements by the lines they add. -/
namespace LuauCompiler

/-! ## Steps -/

namespace Compile

/-- The tags of texts, lists and constants. -/
def textTags : List String := ["str","list","Str","List","Constant"]

/-- No name is known to hold a text or a list, so operators are written as those of numbers. -/
structure Numeric (s : State) : Prop where
  tags : ∀ name tag, s.tags.lookup name = some tag → tag ∉ textTags
  owner : '(' ∉ s.frames.top.className.toList

section

variable {α : Type} {g : String} {k : Nat} {P : α → Prop}

/-- A run from such a state ends in one, writes nothing and has such a value. -/
def Supplies (P : α → Prop) (c : Compile α) : Prop := ∀ s a t, Numeric s → Gives c s a t →
    Numeric t ∧ t.frames = s.frames ∧ t.output = s.output ∧ P a

/-- A run from such a state ends in one, and the name is called so often in what is written. -/
def Counts (g : String) (k : Nat) (c : Compile Unit) : Prop :=
  ∀ s before t, Numeric s → s.output = .block before → Gives c s () t → Numeric t ∧ t.frames = s.frames ∧
      ∃ more, t.output = .block (before ++ more) ∧ codeTimes g more = k

namespace Supplies

theorem pure (holds : P a) : Supplies P (pure a) := by
  intro s x t numeric run
  obtain ⟨rfl,rfl⟩ := gives_pure.mp run
  exact ⟨numeric,rfl,rfl,holds⟩

theorem stops (none : ∀ s a t, ¬ Gives c s a t) : Supplies P c := fun s a t _ run => (none s a t run).elim

theorem bind (first : Supplies P c) (rest : ∀ a, P a → Supplies Q (f a)) : Supplies Q (c >>= f) := by
  intro s b t numeric run
  obtain ⟨a,u,ran,last⟩ := gives_bind.mp run
  obtain ⟨between,frames,output,holds⟩ := first s a u numeric ran
  obtain ⟨ends,frames',output',holds'⟩ := rest a holds u b t between last
  exact ⟨ends,frames'.trans frames,output'.trans output,holds'⟩

theorem ite [Decidable p] (yes : p → Supplies P c) (no : ¬p → Supplies P d) :
    Supplies P (if p then c else d) := by
  split
  · exact yes ‹_›
  · exact no ‹_›

theorem ask (rest : ∀ s, Numeric s → Supplies Q (f s)) : Supplies Q (get >>= f) :=
  fun s b t numeric run => rest s numeric s b t numeric run

theorem update (tags : ∀ s, (f s).tags = s.tags) (frames : ∀ s, (f s).frames = s.frames)
    (output : ∀ s, (f s).output = s.output) : Supplies (fun _ => True) (update f) := by
  intro s x t numeric run
  obtain rfl := gives_update.mp run
  exact ⟨⟨by simpa [tags] using numeric.tags,by simpa [frames] using numeric.owner⟩,frames s,output s,
    trivial⟩

theorem needs (helper : String) : Supplies (fun _ => True) (needs helper) :=
  .update (fun _ => rfl) (fun _ => rfl) fun _ => rfl

theorem introduce (name : Option String) :
    Supplies (fun keyword => keyword = "" ∨ keyword = "local ") (introduce name) := by
  intro s keyword t numeric run
  rcases gives_introduce.mp run with ⟨-,rfl,rfl⟩ | ⟨-,rfl,locals,-,rfl⟩
  · exact ⟨numeric,rfl,rfl,.inl rfl⟩
  · exact ⟨{ numeric with },rfl,rfl,.inr rfl⟩

theorem ofExcept (e : Except Failure α) : Supplies (fun a => e = .ok a) (ofExcept e) := by
  intro s a t numeric run
  obtain ⟨same,rfl⟩ := gives_ofExcept.mp run
  exact ⟨numeric,rfl,rfl,same⟩

theorem inline (word : IsWord g) (step : Counts g k c) : Supplies (callTimes g · = k) (inline c) := by
  intro s text t numeric run
  obtain ⟨u,lines,ran,read,rfl,rfl⟩ := gives_inline.mp run
  obtain ⟨ends,frames,more,output,counted⟩ := step { s with output := .block [] } [] u
    { numeric with } rfl ran
  refine ⟨{ ends with },frames,rfl,?_⟩
  rw [output,List.nil_append] at read
  rw [callTimes_intercalate word (by decide),← counted,eq_map_of_linesOf read,codeTimes, Code.lineTexts_lines]

end Supplies

namespace Counts

theorem stops (none : ∀ s t, ¬ Gives c s () t) : Counts g k c := fun s _ t _ _ run => (none s t run).elim

theorem after {c : Compile α} (first : Supplies P c) (rest : ∀ a, P a → Counts g k (f a)) :
    Counts g k (c >>= f) := by
  intro s before t numeric out run
  obtain ⟨a,u,ran,last⟩ := gives_bind.mp run
  obtain ⟨between,frames,output,holds⟩ := first s a u numeric ran
  obtain ⟨ends,frames',written⟩ := rest a holds u before t between (output.trans out) last
  exact ⟨ends,frames'.trans frames,written⟩

theorem append (first : Counts g k c) (rest : Counts g l d) : Counts g (k + l) (c >>= fun _ => d) := by
  intro s before t numeric out run
  obtain ⟨u,ran,last⟩ := gives_unit_bind.mp run
  obtain ⟨between,frames,more,output,counted⟩ := first s before u numeric out ran
  obtain ⟨ends,frames',others,output',counted'⟩ := rest u _ t between output last
  exact ⟨ends,frames'.trans frames,more ++ others,by simp [output'],by simp [counted,counted']⟩

theorem ite [Decidable p] (yes : p → Counts g k c) (no : ¬p → Counts g k d) :
    Counts g k (if p then c else d) := by
  split
  · exact yes ‹_›
  · exact no ‹_›

theorem nothing : Counts g 0 (pure ()) := by
  intro s before t numeric out run
  obtain ⟨-,rfl⟩ := gives_pure.mp run
  exact ⟨numeric,rfl,[],by simpa using out,rfl⟩

theorem emitEntry (counted : codeTimes g [entry] = k) : Counts g k (emitEntry entry) := by
  intro s before t numeric out run
  obtain ⟨old,same,rfl⟩ := gives_emitEntry.mp run
  obtain rfl := Code.block.inj (out.symm.trans same)
  exact ⟨{ numeric with },rfl,[entry],rfl,counted⟩

theorem emit (counted : callTimes g text = k) : Counts g k (emit text) := .emitEntry (by simpa using counted)

theorem ended (step : Counts g k c) : Counts g k (c >>= fun _ => Compile.emit "end") :=
  .append (l := 0) step (.emit (callTimes_plain (by decide)))

theorem frame (rest : ∀ top : Frame, '(' ∉ top.className.toList → Counts g k (f top)) :
    Counts g k (frame >>= f) :=
  fun s before t numeric out run => rest s.frames.top numeric.owner s before t numeric out run

theorem block (inside : Counts g k (each cs)) : Counts g k (block cs) := by
  intro s before t numeric out run
  obtain ⟨u,locals,old,ran,-,same,rfl⟩ := gives_block.mp run
  obtain rfl := Code.block.inj (out.symm.trans same)
  obtain ⟨ends,frames,more,output,counted⟩ := inside { s.openBlock with output := .block [] } [] u
    { numeric with } rfl ran
  exact ⟨{ ends with },frames,[.block more],by simp [output],by simpa using counted⟩

theorem spread (inside : Counts g k c) : Counts g k (spread c) := by
  intro s before t numeric out run
  obtain ⟨u,locals,old,entries,ran,read,-,same,rfl⟩ := gives_spread.mp run
  obtain rfl := Code.block.inj (out.symm.trans same)
  obtain ⟨ends,frames,more,output,counted⟩ := inside { s.openBlock with output := .block [] } [] u
    { numeric with } rfl ran
  obtain rfl : more = entries := by simpa [output,Code.entries?] using read
  exact ⟨{ ends with },frames,more,rfl,counted⟩

theorem within (owner : ∀ f, (change f).className = f.className) (inside : Counts g k c) :
    Counts g k (within change c) := by
  intro s before t numeric out run
  obtain ⟨u,frames,ran,popped,rfl⟩ := gives_within.mp run
  obtain ⟨ends,kept,written⟩ := inside { s with frames := s.frames.push change } before u
    ⟨numeric.tags,by simpa [Frames.push,owner] using numeric.owner⟩ out ran
  obtain rfl : s.frames = frames := by simpa [kept,Frames.push,Frames.pop?] using popped
  exact ⟨⟨ends.tags,numeric.owner⟩,rfl,written⟩

theorem withoutEnds_branch {P : String → Prop} (head : Supplies P (Compile.inline test))
    (middle : Counts g k (do Compile.block body; elsePart otherwise)) :
    Counts g k (withoutEnds (branch test body otherwise)) := by
  intro s before t numeric out run
  obtain ⟨text,v,w,reading,ran,shut⟩ := withoutEnds_branch_run run out
  obtain ⟨between,frames,-⟩ := head s text v numeric reading
  obtain ⟨ends,frames',more,wrote,counted⟩ := middle { v with output := .block _ } _ w
    { between with } rfl ran
  rw [shut more wrote]
  exact ⟨{ ends with },frames'.trans frames,more,rfl,counted⟩

end Counts

end

/-! ## Expressions -/

section

variable {config : Option Config} {g : String} (word : IsWord g)

variable {n : Node}

theorem tag_numeric (expr : CallTree .expression value) : value.tag ∉ textTags := by
  cases expr <;> simp [Node.tag,Node.constant?,Node.className,Constant.typeName,textTags]

theorem isText_false (expr : CallTree .expression n) (text : String) :
    Supplies (· = false) (isText n text) := by
  refine .ask fun s numeric => .pure ?_
  have untagged : s.tags.lookup text ≠ some "str" := fun tagged => numeric.tags text _ tagged (by decide)
  cases expr <;> simp [Node.isStrConstant,Constant.isStr,untagged]

theorem isListLike_false (expr : CallTree .expression n) (text : String) :
    Supplies (· = false) (isListLike n text) := by
  refine .ask fun s numeric => .pure ?_
  have untagged : s.tags.lookup text ≠ some "list" := fun tagged => numeric.tags text _ tagged (by decide)
  cases expr <;> simp [Node.isList,untagged]

include word in
theorem plainBinary_supplies (op : BinaryOp) (left right : String) :
    Supplies (callTimes g · = endings g (Node.mark (.binary op)).operatorWords +
      (callTimes g left + callTimes g right)) (plainBinary op left right) := by
  have floor : callTimes g ("math.floor" ++ "(" ++ infixText "/" left right ++ ")") =
      endings g ["math.floor"] + (callTimes g left + callTimes g right) := by
    rw [callTimes_application word _ (by decide),callTimes_operation word (by decide)]
  cases op with
  | matMult => exact .stops fun _ _ _ => gives_fail
  | floorDiv => exact .pure ((callTimes_parenthesised word).trans floor)
  | add | sub | mult | div | mod | pow =>
    refine .pure ((callTimes_parenthesised word).trans ?_)
    rw [callTimes_operation word (by decide),Node.operatorWords,endings_nil,Nat.zero_add]
    all_goals simp
  | lShift | rShift | bitOr | bitAnd | bitXor =>
    refine .pure ((callTimes_parenthesised word).trans ?_)
    exact callTimes_callText word (by decide)

include word in
theorem product_supplies (first : CallTree .expression m) (second : CallTree .expression n)
    (left right : String) :
    Supplies (callTimes g · = callTimes g left + callTimes g right) (product m n left right) := by
  refine .bind (isText_false first left) ?_
  rintro _ rfl
  refine .bind (isText_false second right) ?_
  rintro _ rfl
  simpa [Node.operatorWords] using plainBinary_supplies word .mult left right

include word in
theorem sum_supplies (first : CallTree .expression m) (second : CallTree .expression n)
    (left right : String) : Supplies (callTimes g · = callTimes g left + callTimes g right)
      (sum m n left right) := by
  refine .bind (isListLike_false first left) ?_
  rintro _ rfl
  refine .bind (isText_false first left) ?_
  rintro _ rfl
  refine .bind (isText_false second right) ?_
  rintro _ rfl
  simpa [Node.operatorWords] using plainBinary_supplies word .add left right

theorem binaryOperator_supplies (op : Node) :
    Supplies (fun b => op = .mark (.binary b)) (binaryOperator op) := by
  unfold binaryOperator
  split
  · rename_i b known
    refine .ite (fun _ => .pure ?_) fun _ => .stops fun _ _ _ => gives_fail
    revert known
    unfold Node.binaryOp?
    split <;> simp
  · exact .stops fun _ _ _ => gives_fail

theorem membership_supplies (expr : CallTree .expression n) : Supplies (· = .asKey) (membership n) := by
  cases expr with
  | @name own access plain =>
    refine .ask fun s numeric => ?_
    have fits := numeric.tags (shownName (some own))
    revert fits
    cases s.tags.lookup (shownName (some own)) with
    | none => exact fun _ => .pure rfl
    | some tag =>
      intro fits
      have other := fits tag rfl
      simp only [textTags,List.mem_cons,not_or] at other
      refine .ite (fun _ => .stops fun _ _ _ => gives_fail_bind) fun _ => .pure ?_
      unfold Membership.ofTag
      split <;> simp_all
  | _ => exact .pure rfl

include word in
theorem link_supplies (expr : CallTree .expression n) (op : Node) (left right : String) :
    Supplies (callTimes g · = endings g op.linkWords + (callTimes g left + callTimes g right))
      (link op n left right) := by
  unfold link
  split
  · rename_i isIn
    refine .bind (membership_supplies expr) ?_
    rintro _ rfl
    refine .pure ((callTimes_asKey word "" (by decide)).trans ?_)
    simp [endings_empty word,Node.linkWords,isIn]
  · rename_i notIn
    refine .bind (membership_supplies expr) ?_
    rintro _ rfl
    refine .pure ((callTimes_asKey word "not" (by decide)).trans ?_)
    simp [Node.linkWords,notIn]
  · rename_i notIn
    have plain : '(' ∉ (shownName (op.compareOp?.bind compareSign?)).toList := by
      cases op.compareOp? with
      | none => decide
      | some c => cases c <;> decide
    refine .pure ((callTimes_operation word plain).trans ?_)
    rw [Node.linkWords,if_neg notIn,endings_nil,Nat.zero_add]

/-- The code of the expression calls the name as often as its tree writes it. -/
def ExpressionCounts (config : Option Config) (g : String) (n : Node) : Prop :=
  Counts g (endings g n.written) (visit config n)

include word in
theorem chain_supplies (known : callTimes g left = endings g words)
    (exprs : ∀ n ∈ ns, CallTree .expression n) (parts : ∀ n ∈ ns, ExpressionCounts config g n) :
    Supplies (callTimes g · = endings g (Node.chainWritten words ops ns))
      (chain left ops (ns.zip (visits config ns))) := by
  induction ns generalizing left words ops with
  | nil =>
    cases ops with
    | nil => exact .pure (by simp [Node.chainWritten])
    | cons => exact .stops fun _ _ _ => gives_fail
  | cons n rest ih =>
    cases ops with
    | nil => exact .pure (by simp [Node.chainWritten])
    | cons op ops =>
      refine .bind (.inline word (parts n (by simp))) fun right read =>
        .bind (link_supplies word (exprs n (by simp)) op left right) fun first linked =>
        .ite (fun last => .pure ?_) fun more => .bind (ih read (fun m member => exprs m (by simp [member]))
          fun m member => parts m (by simp [member])) fun others chained => .pure ?_
      · simp [Node.chainWritten,last,linked,known,read]
      · simp only [Node.chainWritten,more,endings_append,callTimes_split word (by decide : Splits " and "),
          linked,known,read,chained]
        simp
        omega

include word in
theorem texts_supplies (parts : ∀ n ∈ ns, ExpressionCounts config g n) :
    Supplies (fun texts => Program.total (callTimes g) texts = endings g (Node.rowWritten ns))
      (inlineEach (visits config ns)) := by
  induction ns with
  | nil => exact .pure rfl
  | cons n rest ih =>
    refine .bind (.inline word (parts n (by simp))) fun text read =>
      .bind (ih fun m member => parts m (by simp [member])) fun texts others => .pure ?_
    rw [Program.total,read,others,Node.rowWritten,endings_append]

end

section

variable {g : String} (word : IsWord g)

theorem integer_plain (value : Int) : '(' ∉ (toString value).toList := by
  have digits (n : Nat) : '(' ∉ (toString n).toList := fun inside =>
    absurd ((Luau.word_digits n).letters _ inside) (by decide)
  cases value with
  | ofNat n => exact digits n
  | negSucc n =>
    have whole : toString (Int.negSucc n) = "-" ++ toString (n + 1) := rfl
    rw [whole,String.toList_append,List.mem_append,not_or]
    exact ⟨by decide,digits (n + 1)⟩

theorem int_counts (value : Int) : Counts g 0 (constant (.int value)) := by
  refine .after (.ofExcept _) fun text shown => .emit (callTimes_plain ?_)
  change Constant.intText value = .ok text at shown
  unfold Constant.intText at shown
  split at shown
  · cases shown
  · cases shown
    exact integer_plain value

include word

theorem binOp_counts (first : CallTree .expression left) (second : CallTree .expression right)
    (reads : ExpressionCounts config g left) (reads' : ExpressionCounts config g right) :
    ExpressionCounts config g (.binOp left op right) := by
  refine .after (binaryOperator_supplies op) ?_
  rintro b rfl
  refine .after (.inline word reads) fun x known => .after (.inline word reads') fun y known' => ?_
  have plain (c : BinaryOp) : Supplies (callTimes g · =
      endings g (Node.binOp left (.mark (.binary c)) right).written) (plainBinary c x y) := by
    simpa [Node.written,known,known'] using plainBinary_supplies word c x y
  split
  · refine .after (product_supplies word first second x y) fun text counted => .emit ?_
    simp [Node.written,Node.operatorWords,counted,known,known']
  · refine .after (sum_supplies word first second x y) fun text counted => .emit ?_
    simp [Node.written,Node.operatorWords,counted,known,known']
  · exact .after (plain b) fun text counted => .emit counted

theorem unaryOp_counts (reads : ExpressionCounts config g operand) :
    ExpressionCounts config g (.unaryOp op operand) := by
  change Counts g _ (unaryOperation op (visit config operand))
  unfold unaryOperation
  split
  · rename_i u known
    obtain rfl : op = .mark (.unary u) := by
      revert known
      unfold Node.unaryOp?
      split <;> simp
    refine .after (.inline word reads) fun text counted => .emit ?_
    rw [Node.written,endings_append,← counted]
    cases u with
    | uSub | not =>
      rw [unaryText,callTimes_behind word (by decide),Node.operatorWords,endings_nil,Nat.zero_add]
      all_goals simp
    | uAdd => simp [Node.operatorWords,unaryText]
    | invert => exact callTimes_application word "bit32.bnot" (by decide)
  · exact .stops fun _ _ => gives_fail

theorem boolOp_counts (reads : ∀ e ∈ values, ExpressionCounts config g e) :
    ExpressionCounts config g (.boolOp op values) := by
  refine .after (texts_supplies word reads) fun texts counted => ?_
  split
  · rename_i b _
    have splits : Splits (boolSign b) := by cases b <;> decide
    refine .emit ?_
    rw [callTimes_parenthesised word,callTimes_intercalate word splits,counted,Node.written]
  · exact .stops fun _ _ => gives_fail

theorem compare_counts (exprs : ∀ e ∈ comparators, CallTree .expression e)
    (reads : ExpressionCounts config g left)
    (others : ∀ e ∈ comparators, ExpressionCounts config g e) :
    ExpressionCounts config g (.compare left ops comparators) :=
  .after (.inline word reads) fun _ counted => .after (chain_supplies word counted exprs others)
    fun _ chained => .emit (by rw [chained,Node.written])

theorem ifExp_counts (first : ExpressionCounts config g test)
    (second : ExpressionCounts config g body) (third : ExpressionCounts config g orElse) :
    ExpressionCounts config g (.ifExp test body orElse) := by
  refine .after (.inline word first) fun x known => .after (.inline word second) fun y known' =>
    .after (.inline word third) fun z known'' => .emit ?_
  rw [callTimes_split word (by decide : Splits " or "),callTimes_split word (by decide : Splits " and "),
    known,known',known'',Node.written,endings_append,endings_append,Nat.add_assoc]

theorem subscript_counts (object : ExpressionCounts config g value) (inside : ExpressionCounts config g key) :
    ExpressionCounts config g (.subscript value key access) := by
  refine .after (.inline word inside) fun index known => .after (.inline word object) fun name known' =>
    .ite (fun _ => .stops fun _ _ => gives_reject_bind) fun _ => .emit ?_
  rw [callTimes_index word,known,known',Node.written,endings_append]

theorem member_counts (plain : '(' ∉ (shownName attr).toList) (object : ExpressionCounts config g value) :
    ExpressionCounts config g (.attribute value attr access) := by
  refine .after (.inline word object) fun text known => .emit ?_
  rw [callTimes_closed plain,callTimes_closed (by decide),Node.written,← known]
  split
  · exact callTimes_parenthesised word
  · rfl

omit word in
theorem name_supplies (own : String) (access : Node) :
    Supplies (· = own) (inline (visit config (.name (some own) access))) := by
  intro s text t numeric run
  obtain ⟨rfl,rfl⟩ := Gives.unique run (name_gives config s own access)
  exact ⟨numeric,rfl,rfl,rfl⟩

theorem call_counts (plain : '(' ∉ own.toList) (reads : ∀ e ∈ args, ExpressionCounts config g e) :
    ExpressionCounts config g (.call (.name (some own) access) args keywords) := by
  have last : Counts g (endings g [own] + endings g (Node.rowWritten args)) (do
      let texts ← inlineEach (visits config args)
      emit (own ++ "(" ++ Text.commaSeparated texts ++ ")")) := by
    refine .after (texts_supplies word reads) fun texts counted => .emit ?_
    rw [callTimes_application word own plain,Text.commaSeparated,callTimes_intercalate word (by decide),
      counted]
  rw [ExpressionCounts,Node.written,Node.calledName,endings_append]
  refine .after (name_supplies own access) ?_
  rintro _ rfl
  exact .ite (fun _ => .after (.needs _) fun _ _ => last) fun _ => last

end

/-! ## Statements -/

section

variable {g : String} (word : IsWord g)

theorem recordConstant_supplies (c : Constant) : Supplies (fun _ => True) (recordConstant c) := by
  refine .ask fun s _ => ?_
  split
  · exact .pure trivial
  · exact .update (fun _ => rfl) (fun _ => rfl) fun _ => rfl

theorem recordReturn_supplies (text : String) : Supplies (fun _ => True) (recordReturn text) := by
  refine .ask fun s _ => ?_
  split
  · exact .stops fun _ _ _ => gives_fail
  · exact .update (fun _ => rfl) (fun _ => rfl) fun _ => rfl

theorem checkElements_supplies (target : String) : Supplies (fun _ => True) (checkElements target) := by
  intro s x t numeric run
  obtain rfl := checkElements_run run
  exact ⟨numeric,rfl,rfl,trivial⟩

theorem tagTargets_supplies (expr : CallTree .expression value) (targets : List Node) :
    Supplies (fun _ => True) (tagTargets value targets) := by
  have tagged (name : String) : Supplies (fun _ => True) (Compile.update fun s =>
      { s with tags := insertField name value.tag s.tags }) := by
    intro s x t numeric run
    obtain rfl := gives_update.mp run
    refine ⟨⟨fun other tag known => ?_,numeric.owner⟩,rfl,rfl,trivial⟩
    rw [lookup_insertField] at known
    split at known
    · exact Option.some.inj known ▸ tag_numeric expr
    · exact numeric.tags other tag known
  induction targets with
  | nil => exact .pure trivial
  | cons target rest ih =>
    rw [tagTargets]
    split
    · exact .ite (fun _ => .bind (tagged _) fun _ _ => ih) fun _ => ih
    · exact ih

theorem exprStmt_counts (reads : ExpressionCounts config g value) :
    Counts g (endings g (Node.exprStmt value).written) (visit config (.exprStmt value)) := by
  have last : Counts g (endings g value.written + 0) (do
      within (fun f => { f with docstring := value.constant?.isSome }) (spread (visit config value))
      emitEntry .void) :=
    .append (.within (fun _ => rfl) (.spread reads)) (.emitEntry rfl)
  change Counts g _ (expressionStatement value (visit config value))
  unfold expressionStatement
  split
  · exact .after (recordConstant_supplies _) fun _ _ => last
  · exact last
include word

theorem returnStmt_counts (reads : ExpressionCounts config g value) :
    Counts g (endings g (Node.returnStmt value).written) (visit config (.returnStmt value)) := by
  have last : Counts g (endings g value.written) (do
      emit ("return " ++ (← inline (visit config value)))) :=
    .after (.inline word reads) fun _ counted => .emit (by
      rw [callTimes_behind word (by decide),counted])
  exact .ite (fun _ => .after (.inline word reads) fun _ _ => .after (recordReturn_supplies _)
    fun _ _ => last) fun _ => last

theorem callTimes_assigned (introduces : keyword = "" ∨ keyword = "local ") (plain : '(' ∉ owner.toList) :
    callTimes g (keyword ++ qualified owner target ++ " = " ++ text) =
      callTimes g target + callTimes g text := by
  have own : callTimes g (qualified owner target) = callTimes g target := by
    unfold qualified
    split
    · rfl
    · rw [callTimes_split word (by decide),callTimes_plain plain,Nat.zero_add]
  rw [callTimes_split word (by decide),← own]
  rcases introduces with rfl | rfl
  · rw [String.empty_append]
  · rw [callTimes_behind word (by decide)]

theorem assign_counts (expr : CallTree .expression value) (target : ExpressionCounts config g first)
    (reads : ExpressionCounts config g value) :
    Counts g (endings g (Node.assign (first :: others) value comment).written)
      (visit config (.assign (first :: others) value comment)) := by
  refine .after (tagTargets_supplies expr _) fun _ _ => .after (.inline word target) fun place known =>
    .after (.inline word reads) fun text known' => .after (checkElements_supplies place) fun _ _ =>
    .frame fun top plain => ?_
  have line {keyword : String} (introduces : keyword = "" ∨ keyword = "local ") :
      Counts g (endings g (Node.assign (first :: others) value comment).written)
        (emit (keyword ++ qualified top.className place ++ " = " ++ text)) := by
    refine .emit ?_
    rw [callTimes_assigned word introduces plain,known,known',Node.written,Node.firstWritten, endings_append]
  have known_name : Supplies (fun keyword => keyword = "" ∨ keyword = "local ") (pure "") := .pure (.inl rfl)
  exact .ite (fun _ => .after (.introduce _) fun _ introduces =>
      .ite (fun _ => .stops fun _ _ => gives_reject_bind) fun _ => line introduces)
    fun _ => .after known_name fun _ introduces =>
      .ite (fun _ => .stops fun _ _ => gives_reject_bind) fun _ => line introduces

theorem augAssign_counts (place : ExpressionCounts config g target)
    (reads : ExpressionCounts config g value) :
    Counts g (endings g (Node.augAssign target op value).written)
      (visit config (.augAssign target op value)) := by
  refine .after (binaryOperator_supplies op) ?_
  rintro b rfl
  refine .after (.inline word place) fun x known => .after (.inline word reads) fun y known' =>
    .after (plainBinary_supplies word b x y) fun text counted => .emit ?_
  rw [callTimes_split word (by decide),counted,known,known',Node.written,endings_append,endings_append,
    endings_append]

theorem header_counts (front back : String) (splits : Splits front) (plain : '(' ∉ back.toList)
    (reads : ExpressionCounts config g n) (rest : Counts g k d) : Counts g (endings g n.written + k)
      (do emit (front ++ (← inline (visit config n)) ++ back); d) :=
  .after (.inline word reads) fun _ counted => .append (.emit (by
    rw [callTimes_closed plain,callTimes_behind word splits,counted])) rest

end

/-! ## Bodies -/

section

variable {config : Option Config} {g : String} {body orElse : List Node}

/-- The statement writes the calls of its tree. Without its ends, a branching statement writes those
behind its test. -/
structure StatementCounts (config : Option Config) (g : String) (n : Node) : Prop where
  whole : Counts g (endings g n.written) (visit config n)
  cut : ∀ test body orElse, n = .ifStmt test body orElse → ExpressionCounts config g test ∧
    Counts g (endings g (Node.rowWritten body) + endings g (Node.otherwiseWritten orElse))
      (withoutEnds (visit config n))

theorem StatementCounts.of_whole (whole : Counts g (endings g n.written) (visit config n))
    (plain : n.isBranch = false) : StatementCounts config g n := by
  refine ⟨whole,?_⟩
  rintro test body orElse rfl
  cases plain

theorem row_counts (steps : ∀ n ∈ body, StatementCounts config g n) :
    Counts g (endings g (Node.rowWritten body)) (each (visits config body)) := by
  induction body with
  | nil => exact .nothing
  | cons n rest ih =>
    rw [Node.rowWritten,endings_append]
    exact .append (steps n (by simp)).whole (ih fun m member => steps m (by simp [member]))

variable (word : IsWord g)

include word

theorem elsePart_counts (steps : ∀ n ∈ orElse, StatementCounts config g n) :
    Counts g (endings g (Node.otherwiseWritten orElse)) (elsePart (otherwiseOf config orElse)) := by
  cases orElse with
  | nil => exact .nothing
  | cons n rest =>
    rw [otherwiseOf]
    cases tested : testOf config n with
    | none =>
      have row : Counts g (0 + endings g (Node.rowWritten (n :: rest)))
          (elsePart (.orElse (visits config (n :: rest)))) :=
        .append (.emit (callTimes_plain (by decide))) (.block (row_counts steps))
      simpa [Node.otherwiseWritten,isBranch_of_testOf tested,Node.rowWritten,visits] using row
    | some test =>
      obtain ⟨test,body,others,rfl,rfl⟩ := eq_branch_of_testOf tested
      obtain ⟨reads,cut⟩ := (steps _ (by simp)).cut test body others rfl
      have chained := header_counts word "elseif " " then" (by decide) (by decide) reads cut
      simpa [Node.otherwiseWritten,Node.isBranch,Node.written,elsePart] using chained

theorem ifStmt_counts (reads : ExpressionCounts config g test)
    (inside : ∀ n ∈ body, StatementCounts config g n)
    (others : ∀ n ∈ orElse, StatementCounts config g n) :
    StatementCounts config g (.ifStmt test body orElse) := by
  have middle : Counts g (endings g (Node.rowWritten body) + endings g (Node.otherwiseWritten orElse))
      (do block (visits config body); elsePart (otherwiseOf config orElse)) :=
    .append (.block (row_counts inside)) (elsePart_counts word others)
  refine ⟨?_,?_⟩
  · have whole := header_counts word "if " " then" (by decide) (by decide) reads (.ended middle)
    rw [Node.written,endings_append,endings_append]
    change Counts g _ (branch _ _ _)
    rw [branch_eq]
    exact whole
  · rintro _ _ _ ⟨⟩
    exact ⟨reads,.withoutEnds_branch (.inline word reads) middle⟩

theorem whileStmt_counts (reads : ExpressionCounts config g test)
    (inside : ∀ n ∈ body, StatementCounts config g n) :
    Counts g (endings g (Node.whileStmt test body orElse).written)
      (visit config (.whileStmt test body orElse)) := by
  have label : Supplies (fun _ => True) nextLoop :=
    .bind (.update (fun _ => rfl) (fun _ => rfl) fun _ => rfl) fun _ _ => .ask fun _ _ => .pure trivial
  have loop : Counts g (endings g (Node.rowWritten body)) (loopBody (visits config body)) :=
    .after label fun _ _ => .within (fun _ => rfl) (.block (row_counts inside))
  rw [Node.written,endings_append]
  exact header_counts word "while " " do" (by decide) (by decide) reads (.ended loop)

/-- Each case writes the subject in front of its own calls. -/
def CaseCounts (config : Option Config) (g : String) (n : Node) : Prop :=
  ∀ subject isFirst, ExpressionCounts config g subject →
    Counts g (endings g subject.written + endings g n.written)
      (matchCase (visit config subject) isFirst (caseOf config n))

theorem matchCase_counts {guard : Node} (inside : ∀ n ∈ body, StatementCounts config g n) :
    CaseCounts config g (.matchCase (.matchValue (.constant c kind)) guard body) := by
  intro subject isFirst reads
  refine .after (.inline word reads) fun text counted => .after (.ofExcept _) fun literal shown => ?_
  have line : callTimes g ((if isFirst then "" else "else") ++ "if " ++ text ++ " == " ++ literal ++
      " then") = endings g subject.written + endings g (openings literal) := by
    have head : Splits ((if isFirst then "" else "else") ++ "if ") := by cases isFirst <;> decide
    rw [callTimes_closed (by decide),callTimes_split word (by decide),callTimes_behind word head,counted,
      endings_openings word]
  have whole := Counts.append (.emit line) (.block (row_counts inside))
  simpa [Node.written,Node.literalWords,shown,Nat.add_assoc] using whole

omit word in
theorem matchStmt_counts (reads : ExpressionCounts config g subject)
    (inside : ∀ n ∈ cases, CaseCounts config g n) :
    Counts g (endings g (Node.matchStmt subject cases).written)
      (visit config (.matchStmt subject cases)) := by
  have each_case (isFirst : Bool) : Counts g (endings g (Node.casesWritten subject.written cases))
      (matchCases (visit config subject) isFirst (casesOf config cases)) := by
    induction cases generalizing isFirst with
    | nil => exact .nothing
    | cons n rest ih =>
      rw [Node.casesWritten,endings_append,endings_append,← Nat.add_assoc]
      exact .append (inside n (by simp) subject isFirst reads)
        (ih (fun m member => inside m (by simp [member])) false)
  exact .ended (each_case true)

/-! ## Trees and modules -/

def PartCounts (config : Option Config) (g : String) : CallPart → Node → Prop
  | .expression => ExpressionCounts config g
  | .statement => StatementCounts config g
  | .case => CaseCounts config g

theorem tree_counts (tree : CallTree part n) : PartCounts config g part n := by
  induction tree with
  | absent => exact .stops fun _ _ => gives_fail
  | name plain => exact .emit (callTimes_plain plain)
  | int => exact int_counts _
  | binOp first second left right => exact binOp_counts word first second left right
  | unaryOp _ operand => exact unaryOp_counts word operand
  | boolOp _ parts => exact boolOp_counts word parts
  | compare _ exprs left others => exact compare_counts word exprs left others
  | ifExp _ _ _ test body orElse => exact ifExp_counts word test body orElse
  | subscript _ _ object key => exact subscript_counts word object key
  | member plain _ object => exact member_counts word plain object
  | call plain _ parts => exact call_counts word plain parts
  | exprStmt _ value => exact .of_whole (exprStmt_counts value) rfl
  | returnStmt _ value => exact .of_whole (returnStmt_counts word value) rfl
  | assign _ expr target value => exact .of_whole (assign_counts word expr target value) rfl
  | augAssign _ _ target value => exact .of_whole (augAssign_counts word target value) rfl
  | ifStmt _ _ _ test body orElse => exact ifStmt_counts word test body orElse
  | whileStmt _ _ test body => exact .of_whole (whileStmt_counts word test body) rfl
  | matchStmt _ _ subject cases => exact .of_whole (matchStmt_counts subject cases) rfl
  | matchCase _ body => exact matchCase_counts word body

end

variable {config : Option Config} {g : String} {s t : State} {body ignores : List Node}

theorem module_counts (word : IsWord g) (trees : ∀ n ∈ body, CallTree .statement n) (numeric : Numeric s)
    (fresh : s.output = .block []) (run : Gives (visit config (.module body ignores)) s () t) :
    ∃ entries, t.output = .block entries ∧ codeTimes g entries = endings g (Node.rowWritten body) := by
  obtain ⟨v,blocked,run⟩ := gives_unit_bind.mp run
  obtain ⟨u,locals,before,inner,-,out,rfl⟩ := gives_block.mp blocked
  obtain rfl := Code.block.inj (fresh.symm.trans out)
  obtain ⟨-,-,more,filled,counted⟩ := row_counts (fun n member => tree_counts word (trees n member))
    { s.openBlock with output := .block [] } [] u { numeric with } rfl inner
  obtain rfl := gives_update.mp run
  exact ⟨more,filled,counted⟩

/-- In the code of a module a function is called as often as its statements write it. That is no more
often than the module calls it, if its name is no part of another called name and no operator, literal,
middle comparator, augmented target or repeated subject writes it. -/
theorem calls_written (word : IsWord g) (trees : ∀ n ∈ body, CallTree .statement n)
    (numeric : Numeric s) (fresh : s.output = .block [])
    (run : Gives (visit config (.module body ignores)) s () t) :
    ∃ entries, t.output = .block entries ∧
      Text.times (g ++ "(") (Code.layOut 0 entries) = endings g (Node.rowWritten body) ∧
      ((∀ f ∈ Node.rowCalled body, g.toList <:+: f.toList → f = g) →
        (∀ w ∈ Node.rowAgain body, ¬ g.toList <:+ w.toList) →
        Text.times (g ++ "(") (Code.layOut 0 entries) ≤ (Node.rowCalled body).count g) := by
  obtain ⟨entries,out,counted⟩ := module_counts word trees numeric fresh run
  have laidOut : Text.times (g ++ "(") (Code.layOut 0 entries) = endings g (Node.rowWritten body) :=
    (callTimes_layOut word 0 entries).trans counted
  refine ⟨entries,out,laidOut,fun alone once => ?_⟩
  have covered := row_covered fun n member => tree_covered (g := g) (trees n member)
  have none : endings g (Node.rowAgain body) = 0 := by
    simpa [endings,List.countP_eq_zero] using once
  have called : endings g (Node.rowCalled body) ≤ (Node.rowCalled body).count g := by
    refine List.countP_mono_left fun f member ends => ?_
    have found : g.toList <:+ f.toList := by simpa using ends
    simpa using alone f member found.isInfix
  omega

theorem numeric_initial (ledger : Ledger) : Numeric (.initial ledger) :=
  ⟨fun _ _ known => by simp [State.initial] at known, by simp [State.initial,Frames.single,Frame.outermost]⟩

/-- Calls in a loop, in a branch that follows another one, and next to an operator that is a call. -/
def steadyCalls : List Node :=
  [.assign [.name (some "x") .absent] (.call (.name (some "g") .absent) [.constant (.int 1) none] []) none,
    .whileStmt (.compare (.name (some "x") .absent) [.mark (.compare .lt)]
        [.call (.name (some "g") .absent) [.name (some "x") .absent] []])
      [.augAssign (.name (some "x") .absent) (.mark (.binary .floorDiv))
        (.call (.name (some "f") .absent) [.constant (.int 2) none] [])] [],
    .ifStmt (.name (some "x") .absent) []
      [.ifStmt (.call (.name (some "g") .absent) [.name (some "x") .absent] [])
        [.exprStmt (.name (some "x") .absent)] []]]

theorem steadyCalls_trees : ∀ n ∈ steadyCalls, CallTree .statement n := by
  have x : CallTree .expression (.name (some "x") .absent) := .name (by decide)
  have call {own : String} {arg : Node} (plain : '(' ∉ own.toList) (part : CallTree .expression arg) :
      CallTree .expression (.call (.name (some own) .absent) [arg] []) :=
    .call plain (List.forall_mem_singleton.mpr part)
  refine List.forall_mem_cons.mpr ⟨.assign x (call (by decide) .int),List.forall_mem_cons.mpr
    ⟨.whileStmt (.compare x ?_) ?_,List.forall_mem_singleton.mpr (.ifStmt x (by simp) ?_)⟩⟩
  · exact List.forall_mem_singleton.mpr (call (by decide) x)
  · exact List.forall_mem_singleton.mpr (.augAssign x (call (by decide) .int))
  · exact List.forall_mem_singleton.mpr (.ifStmt (call (by decide) x)
      (List.forall_mem_singleton.mpr (.exprStmt x)) (by simp))

theorem steadyCalls_runs : (visit none (.module steadyCalls []) (State.initial .empty)).1.isOk = true := by
  decide +kernel

theorem steadyCalls_written : (∀ n ∈ steadyCalls, CallTree .statement n) ∧ ∃ entries,
    (visit none (.module steadyCalls []) (State.initial .empty)).2.output = .block entries ∧
      Text.times "g(" (Code.layOut 0 entries) = 3 ∧
      Text.times "g(" (Code.layOut 0 entries) ≤ (Node.rowCalled steadyCalls).count "g" := by
  have word : IsWord "g" := ⟨by decide,List.all_eq_true.mp (by decide)⟩
  obtain ⟨entries,out,counted,bounded⟩ := calls_written word steadyCalls_trees (numeric_initial .empty)
    rfl (gives_of_isOk steadyCalls_runs)
  have times : endings "g" (Node.rowWritten steadyCalls) = 3 := by decide +kernel
  exact ⟨steadyCalls_trees,entries,out,counted.trans times, bounded (by decide +kernel) (by decide +kernel)⟩

/-- A call in the middle of a chain, in an augmented target and as the subject of two cases. -/
def repeatedCalls : List Node :=
  [.exprStmt (.compare (.name (some "a") .absent) [.mark (.compare .lt),.mark (.compare .lt)]
      [.call (.name (some "g") .absent) [] [],.name (some "b") .absent]),
    .augAssign (.subscript (.name (some "a") .absent) (.call (.name (some "g") .absent) [] []) .absent)
      (.mark (.binary .add)) (.constant (.int 1) none),
    .matchStmt (.call (.name (some "g") .absent) [] [])
      [.matchCase (.matchValue (.constant (.int 1) none)) .absent [],
        .matchCase (.matchValue (.constant (.int 2) none)) .absent []]]

/-- Each of these calls is written twice. -/
theorem call_written_twice :
    repeatedCalls.map (fun n => (visit none (.module [n] []) (State.initial .empty)).1.isOk) =
      [true,true,true] ∧
    repeatedCalls.map (fun n => (visit none (.module [n] []) (State.initial .empty)).2.output.entries?.map
      fun entries => Text.times "g(" (Code.layOut 0 entries)) = [some 2,some 2,some 2] ∧
    repeatedCalls.map (fun n => (Node.rowCalled [n]).count "g") = [1,1,1] := by
  decide +kernel

end Compile

end LuauCompiler
