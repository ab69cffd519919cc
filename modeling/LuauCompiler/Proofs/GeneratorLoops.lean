import LuauCompiler.Proofs.ComparisonChains
import LuauCompiler.Proofs.FunctionShapes
import LuauCompiler.Proofs.TemplatePieces
import Mathlib.Data.List.Infix

/-! Loops over generators. The loop takes the call of a generator apart by the parentheses in its text,
where the first closing one counts, and then fills the header like a template. -/
namespace LuauCompiler

namespace Text

/-! ## Groups in the text of a call -/

variable {cs : List Char}

theorem dropGroupsFrom_append (plain : '(' ∉ f) (cs : List Char) :
    dropGroupsFrom none (f ++ cs) = f ++ dropGroupsFrom none cs := by
  induction f with
  | nil => rfl
  | cons c f ih =>
    rw [List.mem_cons,not_or] at plain
    rw [List.cons_append,dropGroupsFrom,ih plain.2,List.cons_append]
    exact fun same => plain.1 same.symm

theorem dropGroupsFrom_group (closed : ')' ∉ args) :
    dropGroupsFrom (some held) (args ++ ')' :: rest) = dropGroupsFrom none rest := by
  induction args generalizing held with
  | nil => rfl
  | cons c args ih =>
    rw [List.mem_cons,not_or] at closed
    rw [List.cons_append,dropGroupsFrom,ih closed.2]
    exact fun same => closed.1 same.symm

theorem dropGroupsFrom_call (plain : '(' ∉ f) (closed : ')' ∉ args) :
    dropGroupsFrom none (f ++ '(' :: (args ++ ')' :: rest)) = f ++ dropGroupsFrom none rest := by
  rw [dropGroupsFrom_append plain,dropGroupsFrom,dropGroupsFrom_group closed]

theorem firstGroup_call (plain : '(' ∉ f) (closed : ')' ∉ group.toList)
    (shown : text.toList = f ++ '(' :: (group.toList ++ ')' :: rest)) :
    firstGroup? text = some group := by
  have dropped : text.toList.dropWhile (· != '(') = '(' :: (group.toList ++ ')' :: rest) := by
    rw [shown,List.dropWhile_append_of_pos]
    · rfl
    · intro c member
      exact bne_iff_ne.mpr fun same => plain (same ▸ member)
  have taken : (group.toList ++ ')' :: rest).takeWhile (· != ')') = group.toList := by
    rw [List.takeWhile_append_of_pos]
    · simp
    · intro c member
      exact bne_iff_ne.mpr fun same => closed (same ▸ member)
  simp only [firstGroup?,dropped]
  rw [if_pos (by simp),taken,String.ofList_toList]

theorem not_mem_dropGroupsFrom (held : Option (List Char)) (cs : List Char) :
    '(' ∉ dropGroupsFrom held (cs ++ [')']) := by
  induction cs generalizing held with
  | nil => cases held <;> simp [dropGroupsFrom]
  | cons c cs ih =>
    cases held with
    | none =>
      by_cases opens : c = '('
      · subst opens
        exact ih (some ['('])
      · rw [List.cons_append,dropGroupsFrom,List.mem_cons,not_or]
        · exact ⟨fun same => opens same.symm,ih none⟩
        · exact opens
    | some held =>
      by_cases closes : c = ')'
      · subst closes
        exact ih none
      · rw [List.cons_append,dropGroupsFrom]
        · exact ih _
        · exact closes

theorem mem_of_dropGroupsFrom (member : c ∈ dropGroupsFrom held cs) : c ∈ held.getD [] ∨ c ∈ cs := by
  fun_induction dropGroupsFrom held cs with
  | case1 => exact .inr member
  | case2 rest ih =>
    rcases ih member with opened | later
    · exact .inr (List.mem_cons.mpr (.inl (List.mem_singleton.mp opened)))
    · exact .inr (List.mem_cons_of_mem _ later)
  | case3 d rest other ih =>
    rcases List.mem_cons.mp member with rfl | later
    · exact .inr List.mem_cons_self
    · exact .inr (List.mem_cons_of_mem _ ((ih later).resolve_left (by simp)))
  | case4 held => exact .inl member
  | case5 held rest ih => exact .inr (List.mem_cons_of_mem _ ((ih member).resolve_left (by simp)))
  | case6 held d rest other ih =>
    rcases ih member with opened | later
    · rcases List.mem_append.mp opened with opened | last
      · exact .inl opened
      · exact .inr (List.mem_cons.mpr (.inl (List.mem_singleton.mp last)))
    · exact .inr (List.mem_cons_of_mem _ later)

theorem count_dropGroupsFrom (held : Option (List Char)) (cs : List Char) : cs.count ')' ≤
      (dropGroupsFrom held cs).count ')' + cs.count '(' + (if held.isSome then 1 else 0) := by
  fun_induction dropGroupsFrom held cs with
  | case1 | case4 => simp
  | case2 rest ih | case5 held rest ih =>
    simp at ih ⊢
    omega
  | case3 c rest other ih =>
    simp [List.count_cons] at ih ⊢
    omega
  | case6 held c rest other ih =>
    have inside : c ≠ ')' := other
    simp [List.count_cons,inside] at ih ⊢
    omega

/-- Every closing parenthesis has an opening one of its own in front of it, and all are closed. -/
def MatchedParens (cs : List Char) : Prop :=
  cs.count '(' = cs.count ')' ∧ ∀ front ∈ cs.inits, front.count ')' ≤ front.count '('

instance (cs : List Char) : Decidable (MatchedParens cs) := inferInstanceAs (Decidable (_ ∧ _))

theorem MatchedParens.closing_left (balanced : MatchedParens (front ++ ')' :: rest))
    (closed : ')' ∉ front) : ')' ∈ dropGroupsFrom none (rest ++ [')']) := by
  have opened := balanced.2 (front ++ [')']) ((List.mem_inits ..).mpr ⟨rest,by simp⟩)
  have counts := balanced.1
  have left := count_dropGroupsFrom none (rest ++ [')'])
  have outside := List.count_eq_zero.mpr closed
  rw [← List.count_pos_iff]
  simp [List.count_append] at counts left opened
  omega

end Text

namespace Compile

open Text.Template

variable {config : Option Config} {s t u : State} {before : List Code} {loop : LoopShell}
  {value : Node} {line function target args : String}

variable {body : List Node}

/-! ## The header of a loop -/

def openingStart (function : String) : String := "generatorLoop('" ++ function ++ "', " ++ function ++ ", "

def generatorOpening (function target args : String) : String :=
  openingStart function ++ args ++ (")(function(" ++ target ++ ")")

def shownArguments (args : String) : String := if args.isEmpty then "nil" else args

def openingEnd : String := ")(function(\x7btarget\x7d)"

theorem openingEnd_seals : Seals openingEnd.toList where
  name inside seen name mark rest scanned := by
    cases inside <;> cases scanned
  layout depth seen := rfl
  start := ⟨_,_,_,rfl,by decide,by decide⟩

theorem openingEnd_fills : Fills [("target",target),("iter",iter)] openingEnd.toList out ↔
      out = (")(function(" ++ target ++ ")").toList := by
  have resolved : resolve [("target",target),("iter",iter)] "target".toList = .ok (.ofString target) := rfl
  have named : FieldText [("target",target),("iter",iter)] "target\x7d)".toList target.toList [')'] :=
    ⟨⟨"target".toList,none,[]⟩,.ofString target,.ofString target,[],rfl,resolved,rfl,rfl,rfl⟩
  have front : Fills [("target",target),("iter",iter)] ")(function(".toList ")(function(".toList :=
    .plainText (by simp [openBrace,closeBrace])
  have filled : Fills [("target",target),("iter",iter)] openingEnd.toList
      (")(function(".toList ++ (target.toList ++ [')'])) :=
    front.append (.field (by decide) named (.plain (by decide) (by decide) .nil))
  have shown : (")(function(" ++ target ++ ")").toList =
      ")(function(".toList ++ (target.toList ++ [')']) := by
    simp
  rw [shown]
  constructor
  · intro fills
    exact fills.unique filled
  · rintro rfl
    exact filled

theorem openingStart_plain (plain : ∀ c ∈ function.toList, c ≠ openBrace ∧ c ≠ closeBrace) :
    ∀ c ∈ (openingStart function).toList, c ≠ openBrace ∧ c ≠ closeBrace := by
  have joined (first second third : String) (all : ∀ text ∈ [first,function,second,third],
      ∀ c ∈ text.toList, c ≠ openBrace ∧ c ≠ closeBrace) :
      ∀ c ∈ (first ++ function ++ second ++ function ++ third).toList, c ≠ openBrace ∧ c ≠ closeBrace := by
    simp only [List.forall_mem_cons] at all
    simp only [String.toList_append,List.forall_mem_append]
    exact ⟨⟨⟨⟨all.1,all.2.1⟩,all.2.2.1⟩,all.2.1⟩,all.2.2.2.1⟩
  refine joined _ _ _ (List.forall_mem_cons.mpr ⟨?_,List.forall_mem_cons.mpr ⟨plain,?_⟩⟩)
  · simp [openBrace,closeBrace]
  · simp [openBrace,closeBrace]

theorem generatorOpening_pieces (target : String) : ∃ a b c d : List Char, a.head? = some 'g' ∧
    ∀ function args, (generatorOpening function target args).toList =
      a ++ function.toList ++ b ++ function.toList ++ c ++ args.toList ++ d := by
  have joined (first second third last : String) : ∀ function args : String,
      (first ++ function ++ second ++ function ++ third ++ args ++ last).toList =
        first.toList ++ function.toList ++ second.toList ++ function.toList ++ third.toList ++
          args.toList ++ last.toList := by
    intro function args
    simp only [String.toList_append]
  exact ⟨_,_,_,_,by simp,joined "generatorLoop('" _ _ _⟩

theorem generatorHeader_iff (plain : ∀ c ∈ function.toList, c ≠ openBrace ∧ c ≠ closeBrace)
    (group : Text.firstGroup? iter = some args) :
    generatorHeader function target iter = .ok header ↔ ∃ filled,
      fill [("target",target),("iter",iter)] (shownArguments args) = .ok filled ∧
      header = generatorOpening function target filled := by
  have cut : (openingStart function ++ shownArguments args ++ openingEnd).toList =
      (openingStart function).toList ++ ((shownArguments args).toList ++ openingEnd.toList) := by
    rw [String.toList_append,String.toList_append,List.append_assoc]
  have made : generatorHeader function target iter = fill [("target",target),("iter",iter)]
      (openingStart function ++ shownArguments args ++ openingEnd) := by
    rw [generatorHeader,group]
    rfl
  have opening (filled : String) : (generatorOpening function target filled).toList =
      (openingStart function).toList ++ (filled.toList ++ (")(function(" ++ target ++ ")").toList) := by
    rw [generatorOpening,String.toList_append,String.toList_append,List.append_assoc]
  rw [made,fill_iff,cut,Fills.plain_append (openingStart_plain plain)]
  simp only [openingEnd_seals.fills,openingEnd_fills,fill_iff]
  constructor
  · rintro ⟨rest,⟨middle,back,fills,rfl,rfl⟩,whole⟩
    refine ⟨String.ofList middle,by rwa [String.toList_ofList],?_⟩
    rw [← String.toList_inj,whole,opening,String.toList_ofList]
  · rintro ⟨filled,fills,rfl⟩
    exact ⟨_,⟨filled.toList,_,fills,rfl,rfl⟩,opening filled⟩

/-! ## The whole loop -/

def loopCode (config : Option Config) (body : List Node) : Compile Code := do
  let label ← nextLoop
  within (fun f => { f with loopLabel := label }) (bodyCode config body)

theorem nextLoop_aside : Aside nextLoop where
  kept run := by rw [(gives_pure.mp run).2]
  run out run := by
    obtain ⟨rfl,rfl⟩ := gives_pure.mp run
    rfl

theorem loopCode_aside (body : List Node) : Aside (loopCode config body) :=
  .bind nextLoop_aside fun _ => .within _ (bodyCode_aside body)

theorem gives_loopBody (out : s.output = .block before) :
    Gives (loopBody (visits config body)) s () t ↔ ∃ code v, Gives (loopCode config body) s code v ∧
      t = { v with output := .block (before ++ [code]) } := by
  simp only [loopBody,loopCode,gives_bind (c := nextLoop)]
  constructor
  · rintro ⟨label,u,counted,ran⟩
    obtain ⟨code,v,coded,rfl⟩ := (gives_within_block ((nextLoop_aside.kept counted).trans out)).mp ran
    exact ⟨code,v,⟨label,u,counted,coded⟩,rfl⟩
  · rintro ⟨code,v,⟨label,u,counted,coded⟩,rfl⟩
    exact ⟨label,u,counted,
      (gives_within_block ((nextLoop_aside.kept counted).trans out)).mpr ⟨code,v,coded,rfl⟩⟩

/-- The loop over the value starts with the line and is closed like a loop over a generator. -/
def LoopsWith (config : Option Config) (s : State) (loop : LoopShell) (value : Node) (line : String) :
    Prop :=
  ∃ (before : List Code) (code : Code) (t : State), s.output = .block before ∧
    Gives (visit config (loop.node value)) s () t ∧
    t.output = .block (before ++ [.line line,code,.line "end)"])

theorem loopsWith_of_marked (out : s.output = .block before)
    (reads : Gives (inline (visit config value)) s text u)
    (marked : some (Text.dropGroups text) ∈ u.generators) :
    LoopsWith config s loop value line ↔ generatorHeader (Text.dropGroups text) loop.target text = .ok line ∧
      ∃ code w, Gives (loopCode config loop.body) u code w := by
  have start : u.output = .block before := ((inline_aside _).kept reads).trans out
  have unfolded (t : State) : Gives (visit config (loop.node value)) s () t ↔ Gives (do
      emit (← ofExcept (generatorHeader (Text.dropGroups text) loop.target text))
      loopBody (visits config loop.body)
      emit "end)") u () t := by
    rw [Gives,visit_loop reads,if_pos (by simpa using marked)]
    rfl
  constructor
  · rintro ⟨before',code,t,out',run,shown⟩
    obtain rfl := Code.block.inj (out.symm.trans out')
    obtain ⟨header,made,run⟩ := gives_ofExcept_bind.mp ((unfolded t).mp run)
    obtain ⟨_,emitted,run⟩ := gives_unit_bind.mp run
    obtain ⟨_,same,rfl⟩ := gives_emit.mp emitted
    obtain rfl := Code.block.inj (start.symm.trans same)
    obtain ⟨_,looped,run⟩ := gives_unit_bind.mp run
    obtain ⟨code',v,coded,rfl⟩ := (gives_loopBody rfl).mp looped
    obtain ⟨_,same',rfl⟩ := gives_emit.mp run
    obtain rfl := Code.block.inj same'
    have lines := Code.block.inj shown
    simp only [List.append_assoc,List.append_cancel_left_eq] at lines
    cases lines
    exact ⟨made,code,_,(loopCode_aside loop.body).back coded⟩
  · rintro ⟨made,code,w,coded⟩
    have coded := (loopCode_aside loop.body).run (.block (before ++ [.line line])) coded
    refine ⟨before,code,_,out,(unfolded _).mpr (gives_ofExcept_bind.mpr ⟨line,made,
      gives_unit_bind.mpr ⟨_,gives_emit.mpr ⟨before,start,rfl⟩,gives_unit_bind.mpr ⟨_,
      (gives_loopBody rfl).mpr ⟨code,_,coded,rfl⟩,gives_emit.mpr ⟨_,rfl,rfl⟩⟩⟩⟩),?_⟩
    simp

theorem not_loopsWith_of_unmarked (out : s.output = .block before)
    (reads : Gives (inline (visit config value)) s text u)
    (unmarked : some (Text.dropGroups text) ∉ u.generators) :
    ¬LoopsWith config s loop value (generatorOpening function loop.target args) := by
  rintro ⟨before',code,t,out',run,shown⟩
  obtain rfl := Code.block.inj (out.symm.trans out')
  obtain ⟨overText,decides⟩ : ∃ overText, Gives (iteratesText value text) u overText u := by
    simp only [iteratesText,gives_tagOf_bind]
    cases u.tags.lookup text <;> exact ⟨_,rfl⟩
  have opens : OpensLoop config s loop value overText := opens_of_unmarked out reads unmarked decides
  obtain ⟨text',_,rest,-,same,opened⟩ := opens
  obtain rfl := Code.block.inj (out.symm.trans same)
  have ran : (visit config (loop.node value) s).2 = t := congrArg Prod.snd run
  rw [ran,shown] at opened
  have lines := Code.block.inj opened
  simp only [List.append_cancel_left_eq,List.cons.injEq,Code.line.injEq] at lines
  obtain ⟨a,b,c,d,head,shown⟩ := generatorOpening_pieces loop.target
  have first : (generatorOpening function loop.target args).toList.head? = some 'g' := by
    simp only [shown,List.append_assoc,List.head?_append,head]
    rfl
  rw [lines.1,loopHeader_head] at first
  cases first

/-! ## Loops over calls -/

def shownCall (function args : String) : String := function ++ "(" ++ args ++ ")"

theorem shownCall_toList (function args : String) :
    (shownCall function args).toList = function.toList ++ '(' :: (args.toList ++ [')']) := by
  simp [shownCall]

theorem call_texts {args : List Node} (exprs : areExpressions args = true)
    (read : List.Forall₂ (Texts config s) args texts) :
    Texts config s (.call (.name (some g) access) args []) (shownCall g (Text.commaSeparated texts)) := by
  have emits {u : State} (out : u.output = .block []) (frames : u.frames = s.frames)
      (tags : u.tags = s.tags) (current : u.current = s.current) :
      ∃ t, t.output = .block [.line (shownCall g (Text.commaSeparated texts))] ∧ Gives (do
        let texts ← inlineEach (visits config args)
        emit (shownCall g (Text.commaSeparated texts))) u () t := by
    obtain ⟨helpers,generators,run⟩ := inlineEach_of_texts exprs read frames tags current
    exact ⟨_,rfl,gives_bind.mpr ⟨texts,_,run,gives_emit.mpr ⟨[],out,rfl⟩⟩⟩
  -- This name alone asks for a snippet before the arguments are compiled.
  by_cases complex : g = "complex"
  · obtain ⟨t,out,run⟩ := emits
      (u := { s with output := .block [], ledger := s.ledger.need "complex" }) rfl rfl rfl rfl
    refine texts_of_visit (gives_bind.mpr ⟨g,_,name_gives ..,?_⟩) out
    rw [if_pos complex]
    exact gives_needs_bind.mpr run
  · obtain ⟨t,out,run⟩ := emits (u := { s with output := .block [] }) rfl rfl rfl rfl
    refine texts_of_visit (gives_bind.mpr ⟨g,_,name_gives ..,?_⟩) out
    rw [if_neg complex]
    exact run

theorem shownArguments_plain (plain : ∀ c ∈ args.toList, c ≠ openBrace ∧ c ≠ closeBrace) :
    ∀ c ∈ (shownArguments args).toList, c ≠ openBrace ∧ c ≠ closeBrace := by
  unfold shownArguments
  split
  · simp [openBrace,closeBrace]
  · exact plain

theorem length_shownArguments (args : String) : args.toList.length ≤ (shownArguments args).toList.length := by
  unfold shownArguments
  split
  · rename_i empty
    simp [String.isEmpty_iff.mp empty]
  · exact Nat.le_refl _

theorem count_shownArguments (args : String) :
    (shownArguments args).toList.count '(' = args.toList.count '(' := by
  unfold shownArguments
  split
  · rename_i empty
    simp [String.isEmpty_iff.mp empty]
  · rfl

theorem fill_plain (plain : ∀ c ∈ template.toList, c ≠ openBrace ∧ c ≠ closeBrace) :
    fill values template = .ok template :=
  fill_iff.mpr (.plainText plain)

variable {g given : String}

theorem loopsWith_of_closed (plain : ∀ c ∈ g.toList, c ≠ '(' ∧ c ≠ openBrace ∧ c ≠ closeBrace)
    (closed : ')' ∉ given.toList) (out : s.output = .block before)
    (reads : Gives (inline (visit config value)) s (shownCall g given) u)
    (marked : some g ∈ u.generators) :
    LoopsWith config s loop value (generatorOpening g loop.target (shownArguments given)) ↔
      fill [("target",loop.target),("iter",shownCall g given)] (shownArguments given) =
        .ok (shownArguments given) ∧
      ∃ code w, Gives (loopCode config loop.body) u code w := by
  have opens : '(' ∉ g.toList := fun member => (plain _ member).1 rfl
  have function : Text.dropGroups (shownCall g given) = g := by
    rw [Text.dropGroups,shownCall_toList,Text.dropGroupsFrom_call opens closed,Text.dropGroupsFrom,
      List.append_nil,String.ofList_toList]
  have group : Text.firstGroup? (shownCall g given) = some given :=
    Text.firstGroup_call opens closed (shownCall_toList g given)
  rw [loopsWith_of_marked out reads (function.symm ▸ marked),function,
    generatorHeader_iff (fun c member => (plain c member).2) group]
  refine and_congr_left fun _ => ⟨?_,fun filled => ⟨_,filled,rfl⟩⟩
  rintro ⟨filled,fills,same⟩
  obtain ⟨a,b,c,d,-,shown⟩ := generatorOpening_pieces loop.target
  have chars := congrArg String.toList same
  rw [shown,shown,List.append_cancel_right_eq,List.append_cancel_left_eq,String.toList_inj] at chars
  rw [fills,chars]

theorem generatorOpening_ne_of_cut (cut : given.toList = first.toList ++ ')' :: rest)
    (left : function.toList = g.toList ++ Text.dropGroupsFrom none (rest ++ [')'])) :
    generatorOpening function target (shownArguments first) ≠
      generatorOpening g target (shownArguments given) := by
  intro same
  obtain ⟨a,b,c,d,-,shown⟩ := generatorOpening_pieces target
  have chars := congrArg String.toList same
  rw [shown,shown] at chars
  have kept : shownArguments given = given := by
    unfold shownArguments
    rw [if_neg]
    intro empty
    rw [String.isEmpty_iff.mp empty] at cut
    simp at cut
  -- The parentheses of the rest are gone from the function and from the arguments, so it has none.
  have counts := congrArg (List.count '(') chars
  have lengths := congrArg List.length chars
  have none_left := List.count_eq_zero.mpr (Text.not_mem_dropGroupsFrom none rest)
  simp only [kept,left,cut,List.count_append,List.count_cons,count_shownArguments,none_left] at counts
  have plain : '(' ∉ rest ++ [')'] := by
    rw [← List.count_eq_zero,List.count_append]
    simp at counts ⊢
    omega
  have whole : Text.dropGroupsFrom none (rest ++ [')']) = rest ++ [')'] := by
    simpa [Text.dropGroupsFrom] using Text.dropGroupsFrom_append plain []
  have longer := length_shownArguments first
  simp only [kept,left,cut,whole,List.length_append,List.length_cons,List.length_nil] at lengths
  omega

theorem shownCall_cut (opens : '(' ∉ g.toList) (closes : ')' ∈ given.toList) :
    ∃ first : String, ∃ rest, given.toList = first.toList ++ ')' :: rest ∧ ')' ∉ first.toList ∧
      Text.firstGroup? (shownCall g given) = some first ∧
      (Text.dropGroups (shownCall g given)).toList =
        g.toList ++ Text.dropGroupsFrom none (rest ++ [')']) := by
  obtain ⟨front,rest,cut,closed⟩ := List.eq_append_cons_of_mem closes
  obtain ⟨first,rfl⟩ : ∃ first : String, front = first.toList :=
    ⟨String.ofList front,String.toList_ofList.symm⟩
  have shown : (shownCall g given).toList = g.toList ++ '(' :: (first.toList ++ ')' :: (rest ++ [')'])) := by
    rw [shownCall_toList,cut,List.append_assoc,List.cons_append]
  refine ⟨first,rest,cut,closed,Text.firstGroup_call opens closed shown,?_⟩
  rw [Text.dropGroups,String.toList_ofList,shown,Text.dropGroupsFrom_call opens closed]

theorem not_loopsWith_of_braceless
    (plain : ∀ c ∈ g.toList, c ≠ '(' ∧ c ≠ openBrace ∧ c ≠ closeBrace) (closes : ')' ∈ given.toList)
    (braceless : ∀ c ∈ given.toList, c ≠ openBrace ∧ c ≠ closeBrace) (out : s.output = .block before)
    (reads : Gives (inline (visit config value)) s (shownCall g given) u) :
    ¬LoopsWith config s loop value (generatorOpening g loop.target (shownArguments given)) := by
  by_cases marked : some (Text.dropGroups (shownCall g given)) ∈ u.generators
  · obtain ⟨first,rest,cut,-,group,function⟩ := shownCall_cut (fun member => (plain _ member).1 rfl) closes
    simp only [cut,List.forall_mem_append,List.forall_mem_cons] at braceless
    have functionPlain : ∀ c ∈ (Text.dropGroups (shownCall g given)).toList,
        c ≠ openBrace ∧ c ≠ closeBrace := by
      rw [function,List.forall_mem_append]
      refine ⟨fun c member => (plain c member).2,fun c member => ?_⟩
      rcases Text.mem_of_dropGroupsFrom member with impossible | member
      · cases impossible
      · rcases List.mem_append.mp member with inside | last
        · exact braceless.2.2 c inside
        · rw [List.mem_singleton.mp last]
          decide
    rw [loopsWith_of_marked out reads marked,generatorHeader_iff functionPlain group,
      fill_plain (shownArguments_plain braceless.1)]
    rintro ⟨⟨filled,fills,same⟩,-⟩
    cases fills
    exact generatorOpening_ne_of_cut cut function same.symm
  · exact not_loopsWith_of_unmarked out reads marked

theorem not_loopsWith_of_balanced (opens : '(' ∉ g.toList) (closes : ')' ∈ given.toList)
    (balanced : Text.MatchedParens given.toList)
    (names : ∀ name, some name ∈ u.generators → ')' ∉ name.toList) (out : s.output = .block before)
    (reads : Gives (inline (visit config value)) s (shownCall g given) u) :
    ¬LoopsWith config s loop value (generatorOpening g loop.target (shownArguments given)) := by
  obtain ⟨first,rest,cut,closed,-,function⟩ := shownCall_cut opens closes
  rw [cut] at balanced
  refine not_loopsWith_of_unmarked out reads fun marked => names _ marked ?_
  rw [function]
  exact List.mem_append_right _ (balanced.closing_left closed)

/-- A loop over the call of a generator is a loop of the generator over the arguments of the call if
their texts hold no closing parenthesis and are left as they are where the header is filled, as texts
without braces are. This is exact for arguments without braces and for all in which the parentheses are
balanced. -/
theorem generator_loop_arguments (loop : LoopShell) {access : Node} {args : List Node} {texts : List String}
    (plain : ∀ c ∈ g.toList, c ≠ '(' ∧ c ≠ openBrace ∧ c ≠ closeBrace) (marked : some g ∈ s.generators)
    (out : s.output = .block before) (exprs : areExpressions args = true)
    (read : List.Forall₂ (Texts config s) args texts) :
    let value : Node := .call (.name (some g) access) args []
    let given := Text.commaSeparated texts
    let line := generatorOpening g loop.target (shownArguments given)
    let braceless := ∀ c ∈ given.toList, c ≠ openBrace ∧ c ≠ closeBrace
    let untouched := fill [("target",loop.target),("iter",shownCall g given)] (shownArguments given) =
      .ok (shownArguments given)
    (braceless → untouched) ∧ ∃ u, Gives (inline (visit config value)) s (shownCall g given) u ∧
      ((')' ∈ given.toList → braceless ∨ Text.MatchedParens given.toList ∧
          ∀ name, some name ∈ u.generators → ')' ∉ name.toList) →
        (LoopsWith config s loop value line ↔
          ')' ∉ given.toList ∧ untouched ∧ ∃ code w, Gives (loopCode config loop.body) u code w)) := by
  intro value given line braceless untouched
  have expr : value.isExpression = true := by
    simp [value,Node.isExpression,exprs,areKeywords]
  obtain ⟨helpers,generators,reads⟩ := (call_texts exprs read).again (t := s) expr rfl rfl rfl
  have still : some g ∈ (s.gained helpers generators).generators := List.mem_append_left _ marked
  refine ⟨fun plain => fill_plain (shownArguments_plain plain),_,reads,fun tame => ?_⟩
  by_cases closes : ')' ∈ given.toList
  · have missed : ¬LoopsWith config s loop value line := by
      rcases tame closes with plainArguments | ⟨balanced,names⟩
      · exact not_loopsWith_of_braceless plain closes plainArguments out reads
      · exact not_loopsWith_of_balanced (fun member => (plain _ member).1 rfl) closes balanced names out reads
    exact ⟨fun loops => absurd loops missed,fun stated => absurd closes stated.1⟩
  · rw [loopsWith_of_closed plain closes out reads still]
    exact ⟨fun loops => ⟨closes,loops⟩,fun stated => stated.2⟩

def emptyLoop : LoopShell := ⟨"x",.absent,[.pass],[],none⟩

def generatorCall (args : List Node) : Node := .call (.name (some "g") .absent) args []

/-- Names and numbers are looped over. A pair is frozen by a call, so it is cut short. -/
theorem plain_arguments_looped :
    let s : State := { State.initial .empty with generators := [some "g"] }
    let a : Node := .name (some "a") .absent
    let one : Node := .constant (.int 1) none
    let pair : Node := .tuple [a,one] .absent
    LoopsWith none s emptyLoop (generatorCall [a,one]) "generatorLoop('g', g, a, 1)(function(x)" ∧
      ¬LoopsWith none s emptyLoop (generatorCall [pair])
        "generatorLoop('g', g, table.freeze(\x7ba, 1\x7d))(function(x)" := by
  intro s a one pair
  have plain : ∀ c ∈ "g".toList, c ≠ '(' ∧ c ≠ openBrace ∧ c ≠ closeBrace := by
    simp [openBrace,closeBrace]
  have marked : some "g" ∈ s.generators := List.mem_singleton.mpr rfl
  have named : Texts none s a "a" := ⟨_,name_gives ..⟩
  have counted : Texts none s one "1" :=
    texts_of_visit (gives_of_isOk (by decide +kernel)) (by decide +kernel)
  have paired : Texts none s pair "table.freeze(\x7ba, 1\x7d)" :=
    texts_of_visit (gives_of_isOk (by decide +kernel)) (by decide +kernel)
  constructor
  · obtain ⟨untouched,u,-,loops⟩ := generator_loop_arguments emptyLoop plain marked rfl
      (by decide +kernel) (.cons named (.cons counted .nil))
    have shown : Text.commaSeparated ["a","1"] = "a, 1" := by decide +kernel
    rw [shown] at untouched loops
    have closed : ')' ∉ "a, 1".toList := by simp
    exact (loops fun closes => absurd closes closed).mpr
      ⟨closed,untouched (by simp [openBrace,closeBrace]),_,_,rfl⟩
  · obtain ⟨-,u,reads,loops⟩ := generator_loop_arguments emptyLoop plain marked rfl
      (by decide +kernel) (.cons paired .nil)
    have generators : u.generators = [some "g"] := by
      rw [← show (inline (visit none (generatorCall [pair])) s).2 = u from congrArg Prod.snd reads]
      decide +kernel
    have names : ∀ name, some name ∈ u.generators → ')' ∉ name.toList := by
      intro name member
      rw [generators] at member
      obtain rfl : name = "g" := by simpa using member
      simp
    intro looped
    have closed := ((loops fun _ => .inr ⟨by decide +kernel,names⟩).mp looped).1
    exact closed (by decide +kernel)

/-- A call among the arguments closes the group early, and the loop becomes one over the items. -/
theorem nested_call_unrecognised :
    let s : State := { State.initial .empty with generators := [some "g"] }
    let inner : Node := .call (.name (some "h") .absent) [.constant (.int 1) none] []
    (visit none (emptyLoop.node (generatorCall [inner])) s).1 = .ok () ∧
      (visit none (emptyLoop.node (generatorCall [inner])) s).2.output =
        .block [.line "for x in g(h(1)) do",.block [],.line "end"] := by
  decide +kernel

end Compile

end LuauCompiler
