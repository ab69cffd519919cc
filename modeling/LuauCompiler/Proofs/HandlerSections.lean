import LuauCompiler.Proofs.BlockBalance

/-! The handlers of a try statement. A handler that goes by the name of an error is an arm of a chain of
branches, and any other one is a block by itself. The chain is opened by the first handler only, and
closed behind the last one if it was opened. -/
namespace LuauCompiler

instance (text : String) : Decidable (Luau.Inert text) :=
  decidable_of_iff (text.toList.all Luau.isInert) List.all_eq_true

namespace Luau

/-- Words of blocks that the source reserves as well: no handler can bind an error to them. -/
def sharedWords : List String := ["if","else","for","while"]

/-- Words of blocks that the source leaves free. -/
def blockWords : List String := ["then","elseif","do","function","repeat","until","end"]

/-- No further arm fits here, and the end of a chain leaves something open. -/
def Astray (opened : List Open) : Prop := follow opened "elseif" = none ∧ follow opened "end" ≠ some []

instance (opened : List Open) : Decidable (Astray opened) := inferInstanceAs (Decidable (_ ∧ _))

theorem astray_of_blockWord : ∀ word ∈ blockWords, ∀ after ∈ follow [.branch] word, Astray after := by decide

theorem follow_of_outside (shared : word ∉ sharedWords) (free : word ∉ blockWords) (opened : List Open) :
    follow opened word = some opened := by
  unfold follow
  split <;> simp_all [sharedWords,blockWords]

/-- Only the words of loops start the head of one. -/
theorem headless_follow (headless : .head ∉ opened) (other : word ≠ "for" ∧ word ≠ "while")
    (reached : follow opened word = some after) : .head ∉ after := by
  unfold follow at reached
  split at reached <;> (try split at reached) <;> simp_all <;> cases reached <;> simp_all

theorem headless_followAll (headless : .head ∉ opened) (others : ∀ word ∈ ws, word ≠ "for" ∧ word ≠ "while")
    (reached : followAll opened ws = some after) : .head ∉ after := by
  induction ws generalizing opened with
  | nil => exact Option.some.inj reached ▸ headless
  | cons word rest ih =>
    obtain ⟨middle,here,there⟩ := Option.bind_eq_some_iff.mp reached
    obtain ⟨own,later⟩ := List.forall_mem_cons.mp others
    exact ih (headless_follow headless own here) later there

end Luau

namespace Catcher

def node (h : Catcher) : Node := .handler h.type h.name h.body

/-- The error can be looked for, and the name can be that of a variable. -/
def IsReadable (h : Catcher) : Prop := Luau.Inert h.errorName ∧ ∀ name ∈ h.name, Luau.IsIdentifier name

/-- Both names are words that the source can have as names. The emitted language may reserve them. -/
structure IsSpelled (h : Catcher) : Prop where
  error : Luau.Inert h.errorName
  letters : ∀ name ∈ h.name, name.toList ≠ [] ∧ ∀ c ∈ name.toList, Luau.isWordChar c = true
  allowed : ∀ name ∈ h.name, name ∉ Luau.sharedWords

/-- The name under which the error is bound opens and closes nothing. -/
def IsHarmless (h : Catcher) : Prop := ∀ name ∈ h.name, name ∉ Luau.blockWords

/-- The words with which the handler goes on with a chain, or opens it. -/
def headWords (h : Catcher) (position : Nat) : List String :=
  if h.isNamed then (if position = 0 then "if" else "elseif") :: "err" :: "find" :: "then" ::
    h.name.elim [] fun name => ["local",name,"err"]
  else []

end Catcher

/-- What the handlers from a position on become, given the code of each body. -/
def handlerEntries : (position : Nat) → List (Catcher × Code) → List Code
  | _, [] => []
  | i, (h,code) :: rest =>
    .line ("--> try: " ++ toString i) :: (h.head i ++ code :: handlerEntries (i + 1) rest)

/-- The words of the handlers from a position on, without those of their bodies. -/
def chainWords : (position : Nat) → List Catcher → List String
  | _, [] => []
  | i, h :: rest => h.headWords i ++ chainWords (i + 1) rest

def handlerSection (parts : List (Catcher × Code)) : List Code :=
  handlerEntries 0 parts ++ if parts.head?.any (·.1.isNamed) then [.line "end"] else []

namespace Compile

variable {config : Option Config} {s t : State} {i : Nat} {parts : List (Catcher × Code)} {p : Catcher × Code}

/-- The handlers, each with the code that its body is compiled to. -/
structure Coded (config : Option Config) (hs : List Node) (parts : List (Catcher × Code)) : Prop where
  nodes : hs = (parts.map (·.1)).map Catcher.node
  codes : ∀ p ∈ parts, ∃ u v, Gives (bodyCode config p.1.body) u p.2 v

/-- The lines of the handlers are what stands between those that begin and end the function for errors. -/
structure Handled (config : Option Config) (hs : List Node) (out : Code) (parts : List (Catcher × Code)) : Prop
    extends Coded config hs parts where
  shown : ∃ front behind, out = .block (front ++
    .line "end, function(err)" :: (handlerSection parts ++ .line "end)" :: behind))

theorem handlers_run (out : s.output = .block before)
    (run : Gives (handlers chained i (handlersOf config hs)) s () t) : ∃ parts, Coded config hs parts ∧
      t.output = .block (before ++ handlerEntries i parts ++
        if chained && !hs.isEmpty then [.line "end"] else []) := by
  induction hs generalizing s before i with
  | nil =>
    obtain ⟨-,rfl⟩ := gives_pure.mp run
    exact ⟨[],⟨rfl,nofun⟩,by simp [out,handlerEntries]⟩
  | cons n rest ih =>
    have run := emit_bind_run run out
    obtain ⟨_,u,filled,run⟩ := gives_bind.mp run
    cases n with
    | handler type name body =>
      obtain ⟨code,v,coded,rfl⟩ := handlerBody_run (h := ⟨type,name,body⟩) rfl filled
      have first {parts : List (Catcher × Code)} (others : Coded config rest parts) :
          Coded config (.handler type name body :: rest) ((⟨type,name,body⟩,code) :: parts) :=
        ⟨by rw [others.nodes]; rfl,List.forall_mem_cons.mpr ⟨⟨_,_,coded⟩,others.codes⟩⟩
      cases rest with
      | nil =>
        refine ⟨_,first (⟨rfl,nofun⟩ : Coded config [] []),?_⟩
        cases chained with
        | true =>
          obtain ⟨-,rfl⟩ := gives_pure.mp (emit_bind_run run rfl)
          simp [handlerEntries]
        | false =>
          obtain ⟨-,rfl⟩ := gives_pure.mp run
          simp [handlerEntries]
      | cons m rest =>
        obtain ⟨parts,others,wrote⟩ := ih rfl run
        exact ⟨_,first others,by simp [wrote,handlerEntries]⟩
    | _ => exact absurd filled gives_fail

theorem try_run (run : Gives (visit config (.tryStmt false body hs orElse finalBody)) s () t) :
    ∃ parts, Handled config hs t.output parts := by
  obtain ⟨u,opened,run⟩ := gives_unit_bind.mp run
  obtain ⟨before,out,rfl⟩ := gives_emit.mp opened
  obtain ⟨v,filled,run⟩ := gives_unit_bind.mp (emit_bind_run run rfl)
  obtain ⟨code,w,-,rfl⟩ := bodyCode_of_block filled rfl
  obtain ⟨x,handling,run⟩ := gives_unit_bind.mp (emit_bind_run run rfl)
  obtain ⟨parts,coded,wrote⟩ := handlers_run rfl handling
  have chained : ((handlersOf config hs).head?.any isNamed && !hs.isEmpty) =
      parts.head?.any (·.1.isNamed) := by
    rw [coded.nodes]
    cases parts with
    | nil => rfl
    | cons p rest => exact Bool.and_true _
  rw [chained] at wrote
  obtain ⟨y,last,run⟩ := gives_unit_bind.mp (emit_bind_run run wrote)
  obtain ⟨final,z,-,rfl⟩ := bodyCode_of_block last rfl
  obtain rfl := emit_run run rfl
  exact ⟨parts,coded,before ++ [.line "--> try statement start:",.line "xpcall(function()",code],
    [final,.line "--> try statement end"],by simp [handlerSection]⟩

section

open Luau

/-! ## The words of a chain -/

theorem astray_chain (astray : Astray opened) (i : Nat) (hs : List Catcher) :
    followAll opened (chainWords (i + 1) hs ++ ["end"]) ≠ some [] := by
  induction hs generalizing i with
  | nil => simpa [chainWords,followAll] using astray.2
  | cons h rest ih =>
    cases named : h.isNamed with
    | true => simp [chainWords,Catcher.headWords,named,followAll,astray.1]
    | false => simpa [chainWords,Catcher.headWords,named] using ih (i + 1)

theorem unchained_iff (i : Nat) (hs : List Catcher) :
    followAll [] (chainWords (i + 1) hs) = some [] ↔ ∀ h ∈ hs, h.isNamed = false := by
  induction hs generalizing i with
  | nil => simp [chainWords,followAll]
  | cons h rest ih =>
    cases named : h.isNamed with
    | true => simp [chainWords,Catcher.headWords,named,followAll,follow]
    | false => simpa [chainWords,Catcher.headWords,named] using ih (i + 1)

/-- The first arm leads from nothing, and each other one from the arm before it, to where its name does. -/
theorem followAll_headWords {h : Catcher} (named : h.isNamed = true) (i : Nat) :
    followAll (if i = 0 then [] else [.branch]) (h.headWords i) =
      h.name.elim (some [.branch]) (follow [.branch]) := by
  have err (opened : List Open) : follow opened "err" = some opened :=
    follow_of_outside (by decide) (by decide) opened
  have bound (name : String) : followAll [.branch] ["local",name,"err"] = follow [.branch] name := by
    have skipped : follow [.branch] "local" = some [.branch] := rfl
    simp only [followAll,skipped,err,Option.bind_some,Option.bind_fun_some]
  have arm (ws : List String) : followAll (if i = 0 then [] else [.branch])
      ((if i = 0 then "if" else "elseif") :: "err" :: "find" :: "then" :: ws) = followAll [.branch] ws := by
    split <;> rfl
  rw [Catcher.headWords,if_pos named,arm]
  cases h.name with
  | none => rfl
  | some name => exact bound name

theorem chained_iff {hs : List Catcher} (spelled : ∀ h ∈ hs, h.IsSpelled)
    (start : xs = if i = 0 then [] else [.branch]) (begins : i = 0 → ∃ h ∈ hs.head?, h.isNamed = true) :
    followAll xs (chainWords i hs ++ ["end"]) = some [] ↔ ∀ h ∈ hs, h.isNamed = true → h.IsHarmless := by
  induction hs generalizing i xs with
  | nil =>
    have later : i ≠ 0 := fun first => by simpa using begins first
    rw [start,if_neg later]
    simp [chainWords,followAll,follow]
  | cons h rest ih =>
    obtain ⟨own,others⟩ := List.forall_mem_cons.mp spelled
    have next := ih (i := i + 1) others rfl fun first => absurd first (Nat.succ_ne_zero i)
    cases named : h.isNamed with
    | false =>
      have later : i ≠ 0 := fun first => by simpa [named] using begins first
      rw [start,if_neg later]
      simpa [chainWords,Catcher.headWords,named] using next
    | true =>
      have step : followAll xs (chainWords i (h :: rest) ++ ["end"]) = (h.name.elim (some [.branch])
          (follow [.branch])).bind (followAll · (chainWords (i + 1) rest ++ ["end"])) := by
        rw [start,chainWords,List.append_assoc,followAll_append,followAll_headWords named]
      rw [step,List.forall_mem_cons,← next]
      cases bound : h.name with
      | none => simp [Catcher.IsHarmless,bound]
      | some name =>
        by_cases blocks : name ∈ blockWords
        · refine iff_of_false (fun closed => ?_) fun holds => holds.1 named name bound blocks
          obtain ⟨after,here,there⟩ := Option.bind_eq_some_iff.mp closed
          exact astray_chain (astray_of_blockWord name blocks after here) i rest there
        · rw [Option.elim_some,follow_of_outside (own.allowed name bound) blocks]
          simp [Catcher.IsHarmless,bound,blocks,named]

section

variable (fine : ∀ p ∈ parts, p.1.IsSpelled ∧ Moves [p.2] [] [])
include fine

/-- The bodies change nothing, whatever is open around them. -/
theorem entries_effect (i : Nat) : ∃ ws, Worded (handlerEntries i parts) ws ∧ ∀ opened, .head ∉ opened →
    followAll opened ws = followAll opened (chainWords i (parts.map (·.1))) := by
  induction parts generalizing i with
  | nil => exact ⟨[],.nil,fun _ _ => rfl⟩
  | cons p rest ih =>
    obtain ⟨⟨spelled,inside⟩,others⟩ := List.forall_mem_cons.mp fine
    obtain ⟨front,place,neutral⟩ : Moves _ [] [] := position_moves i
    obtain ⟨body,filled,keeps⟩ := inside
    obtain ⟨later,worded,effect⟩ := ih others (i + 1)
    have head : Worded (p.1.head i) (p.1.headWords i) := by
      unfold Catcher.head Catcher.headWords
      split
      · exact handlerHead_worded i spelled.error spelled.letters
      · exact .nil
    have ready {opened : List Open} (headless : .head ∉ opened) : Luau.Ready opened := fun first =>
      headless (List.mem_of_mem_head? first)
    have plain : ∀ word ∈ p.1.headWords i, word ≠ "for" ∧ word ≠ "while" := by
      unfold Catcher.headWords
      cases bound : p.1.name with
      | none => grind
      | some name =>
        have allowed := spelled.allowed name bound
        grind [sharedWords]
    refine ⟨_,place.append (head.append (filled.append worded)),fun opened headless => ?_⟩
    have same : followAll opened front = some opened := neutral opened (ready headless)
    simp only [List.map_cons,chainWords,followAll_append,same,Option.bind_some]
    refine Option.bind_congr fun middle reached => ?_
    have still := headless_followAll headless plain reached
    exact Option.bind_eq_bind ▸ (congrArg (Option.bind · _) (keeps middle (ready still))).trans (effect middle still)

theorem section_balanced_iff (level : Int) : Balanced (Code.layOut level (handlerSection parts)) ↔
      ((∃ p ∈ parts.head?, p.1.isNamed = true) ∨ ∀ p ∈ parts, p.1.isNamed = false) ∧
        ∀ p ∈ parts, p.1.isNamed = true → p.1.IsHarmless := by
  obtain ⟨ws,worded,effect⟩ := entries_effect fine 0
  have same : followAll [] ws = _ := effect [] (by simp)
  cases parts with
  | nil => exact iff_of_true (Moves.nil.balanced level) (by simp)
  | cons p rest =>
    cases own : p.1.isNamed with
    | true =>
      have chained : handlerSection (p :: rest) = handlerEntries 0 (p :: rest) ++ [.line "end"] := by
        simp [handlerSection,own]
      have closing : Worded [.line "end"] ["end"] := .line end_passes.runs .nil
      have spelled : ∀ h ∈ (p :: rest).map (·.1), h.IsSpelled :=
        List.forall_mem_map.mpr fun q member => (fine q member).1
      rw [Luau.Balanced,chained,(worded.append closing).layOut,followAll_append,same,← followAll_append,
        chained_iff (i := 0) spelled (if_pos rfl).symm fun _ => ⟨_,rfl,own⟩,List.forall_mem_map]
      exact (and_iff_right (.inl ⟨p,rfl,own⟩)).symm
    | false =>
      have unchained : handlerSection (p :: rest) = handlerEntries 0 (p :: rest) := by simp [handlerSection,own]
      have front : chainWords 0 ((p :: rest).map (·.1)) = chainWords 1 (rest.map (·.1)) := by
        simp [chainWords,Catcher.headWords,own]
      rw [Luau.Balanced,unchained,worded.layOut,same,front,unchained_iff,List.forall_mem_map]
      constructor
      · intro plain
        have all : ∀ q ∈ p :: rest, q.1.isNamed = false := List.forall_mem_cons.mpr ⟨own,plain⟩
        exact ⟨.inr all,fun q member named => by simp [all q member] at named⟩
      · rintro ⟨first | all,-⟩
        · simp [own] at first
        · exact (List.forall_mem_cons.mp all).2

end

/-- As long as every body closes what it opens, the lines of the handlers are well nested if and only if the
first handler goes by the name of an error or none does, and no handler that does binds the error to a word
of blocks. -/
theorem handler_section_nested_iff
    (run : Gives (visit config (.tryStmt false body hs orElse finalBody)) s () t) :
    ∃ parts, Handled config hs t.output parts ∧ ((∀ p ∈ parts, p.1.IsSpelled ∧ Moves [p.2] [] []) → ∀ level,
        (Balanced (Code.layOut level (handlerSection parts)) ↔
          ((∃ p ∈ parts.head?, p.1.isNamed = true) ∨ ∀ p ∈ parts, p.1.isNamed = false) ∧
            ∀ p ∈ parts, p.1.isNamed = true → p.1.IsHarmless)) := by
  obtain ⟨parts,handled⟩ := try_run run
  exact ⟨parts,handled,section_balanced_iff⟩

def emptyHandler (type : Node) (name : Option String) : Catcher := ⟨type,name,[.pass]⟩

def emptyTry (hs : List Catcher) : Node := .tryStmt false [.pass] (hs.map (·.node)) [] []

section

variable {hs : List Catcher}

theorem Coded.catchers (coded : Coded config (hs.map Catcher.node) parts) : parts.map (·.1) = hs := by
  refine ((List.map_inj_right fun g h same => ?_).mp coded.nodes).symm
  cases g
  cases h
  cases same
  rfl

theorem Coded.emptied (coded : Coded config (hs.map Catcher.node) parts) (member : p ∈ parts)
    (empty : ∀ h ∈ hs, h.body = [.pass]) : p.2 = .block [] := by
  obtain ⟨u,v,filled⟩ := coded.codes p member
  rw [empty p.1 (coded.catchers ▸ List.mem_map_of_mem member)] at filled
  obtain ⟨w,inner,same,-⟩ := (gives_bodyCode ..).mp filled
  cases inner
  exact same

end

/-- A handler for several errors, and behind it one that goes by the name of an error. -/
def lateArm : List Catcher :=
  [emptyHandler (.tuple [] .absent) none,emptyHandler (.name (some "E") .absent) (some "e")]

theorem lateArm_unbalanced :
    let t := (visit none (emptyTry lateArm) (.initial .empty)).2
    ∃ parts, Handled none (lateArm.map Catcher.node) t.output parts ∧
      ¬ Balanced (Code.layOut 1 (handlerSection parts)) := by
  intro t
  have run : Gives (visit none (emptyTry lateArm)) (.initial .empty) () t := gives_of_isOk (by decide +kernel)
  obtain ⟨parts,handled,nested⟩ := handler_section_nested_iff run
  refine ⟨parts,handled,fun balanced => ?_⟩
  have catchers := handled.catchers
  have spelled : ∀ h ∈ lateArm, h.IsSpelled := by
    simp only [lateArm,List.forall_mem_cons]
    refine ⟨⟨by decide,by rintro _ ⟨⟩,by rintro _ ⟨⟩⟩,⟨by decide,?_,?_⟩,List.forall_mem_nil _⟩
    · rintro _ ⟨⟩
      exact ⟨by decide,List.forall_mem_singleton.mpr (by decide)⟩
    · rintro _ ⟨⟩
      decide
  have fine : ∀ p ∈ parts, p.1.IsSpelled ∧ Moves [p.2] [] [] := fun p member => by
    refine ⟨spelled _ (catchers ▸ List.mem_map_of_mem member),?_⟩
    rw [handled.emptied member (by simp [lateArm,emptyHandler])]
    exact .block .nil
  have plain : ¬ ((∃ h ∈ lateArm.head?, h.isNamed = true) ∨ ∀ h ∈ lateArm, h.isNamed = false) := by decide
  rw [← catchers] at plain
  exact plain (by simpa using ((nested fine 1).mp balanced).1)

/-- A handler that binds its error to a word of blocks. The first handler goes by the name of an error, but
the name that it binds ends the chain. -/
theorem bound_end_unbalanced :
    let hs := [emptyHandler (.name (some "E") .absent) (some "end")]
    let t := (visit none (emptyTry hs) (.initial .empty)).2
    ∃ parts, Handled none (hs.map Catcher.node) t.output parts ∧
      (∀ p ∈ parts, Moves [p.2] [] []) ∧ (∃ p ∈ parts.head?, p.1.isNamed = true) ∧
      handlerSection parts = [.line "--> try: 0",.line "if err:find('E') then",.line "\tlocal end = err",.block [],
        .line "end"] ∧ ¬ Balanced (Code.layOut 1 (handlerSection parts)) := by
  intro hs t
  have run : Gives (visit none (emptyTry hs)) (.initial .empty) () t := gives_of_isOk (by decide +kernel)
  obtain ⟨parts,handled⟩ := try_run run
  have catchers := handled.catchers
  obtain ⟨code,rfl⟩ : ∃ code, parts = [(emptyHandler (.name (some "E") .absent) (some "end"),code)] := by
    obtain ⟨p,same,named⟩ := List.map_eq_singleton_iff.mp catchers
    exact ⟨p.2,by rw [same,← named]⟩
  obtain rfl : code = .block [] := handled.emptied List.mem_cons_self (by simp [hs,emptyHandler])
  have inside : Moves [.block []] [] [] := .block .nil
  exact ⟨_,handled,by simpa using inside,⟨_,rfl,rfl⟩,rfl,by decide +kernel⟩

end

end Compile

end LuauCompiler
