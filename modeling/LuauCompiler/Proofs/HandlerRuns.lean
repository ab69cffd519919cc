import LuauCompiler.Proofs.HandlerSections

/-! Which handler of a try statement is run. The lines of the handlers are read and followed for the text of
an error: an arm is taken if it is the first whose name occurs in the text. -/
namespace LuauCompiler

/-- What a line among handlers says. -/
inductive HandlerLine where
  | comment
  | test (isFirst : Bool) (name : String)
  | binding
  | ending

/-- The name between the quotes of a test. -/
def testName? (keyword text : String) : Option String :=
  let front := (keyword ++ " err:find('").toList
  let rest := text.toList.drop front.length
  if front <+: text.toList ∧ rest.dropWhile (· != Text.apostrophe) = "') then".toList then
    some (String.ofList (rest.takeWhile (· != Text.apostrophe)))
  else none

def handlerLine? (text : String) : Option HandlerLine :=
  if text = "end" then some .ending
  else if "--".toList <+: text.toList then some .comment
  else if "\tlocal ".toList <+: text.toList then some .binding
  else (testName? "if" text).elim ((testName? "elseif" text).map (.test false)) (some ∘ .test true)

theorem testName_test (inert : Luau.Inert name) (keyword : String) :
    testName? keyword (keyword ++ " err:find('" ++ name ++ "') then") = some name := by
  have inside : ∀ c ∈ name.toList, (c != Text.apostrophe) = true := by
    rintro c member
    refine bne_iff_ne.mpr ?_
    rintro rfl
    exact absurd (inert _ member) (by decide)
  have whole : (keyword ++ " err:find('" ++ name ++ "') then").toList =
      (keyword ++ " err:find('").toList ++ (name.toList ++ "') then".toList) := by simp
  rw [testName?]
  simp only [whole,List.drop_left,List.dropWhile_append_of_pos inside,List.takeWhile_append_of_pos inside]
  rw [if_pos ⟨List.prefix_append _ _,by decide⟩]
  simp [Text.apostrophe]

theorem handlerLine_test (inert : Luau.Inert name) (isFirst : Bool) :
    handlerLine? ((if isFirst then "if" else "elseif") ++ " err:find('" ++ name ++ "') then") =
      some (.test isFirst name) := by
  cases isFirst with
  | true =>
    rw [if_pos rfl,handlerLine?,testName_test inert]
    simp [← String.toList_inj]
  | false =>
    have other : testName? "if" ("elseif" ++ " err:find('" ++ name ++ "') then") = none :=
      if_neg fun ⟨front,_⟩ => by simp at front
    rw [if_neg Bool.false_ne_true,handlerLine?,testName_test inert,other]
    simp [← String.toList_inj]

/-- Where a chain of branches is: no test was true so far, the arm at hand is taken, or one before it. -/
inductive Chain where
  | undecided
  | taken
  | passed
  deriving DecidableEq

def Chain.test (holds : Bool) : Chain → Chain
  | .undecided => if holds then .taken else .undecided
  | .taken | .passed => .passed

/-- The positions of the bodies that are run when the error has the text. Bodies are blocks, and a chain
that is opened has to be closed. -/
def performed (error : String) : Option Chain → (position : Nat) → List Code → Option (List Nat)
  | none,_,[] => some []
  | some _,_,[] => none
  | chain,i,.block _ :: rest =>
    (performed error chain (i + 1) rest).map ((if chain.all (· = .taken) then [i] else []) ++ ·)
  | chain,i,.line text :: rest =>
    match handlerLine? text,chain with
    | some .comment,chain => performed error chain i rest
    | some (.test true name),none => performed error (some (Chain.undecided.test (Text.holds error name))) i rest
    | some (.test false name),some c => performed error (some (c.test (Text.holds error name))) i rest
    | some .binding,some c => performed error (some c) i rest
    | some .ending,some _ => performed error none i rest
    | _,_ => none
  | _,_,.void :: _ => none

namespace Catcher

/-- The handler goes by a name that occurs in the text of the error. -/
def catches (error : String) (h : Catcher) : Bool := h.isNamed && Text.holds error h.errorName

/-- The first handler that catches the error, and one without a name that stands right behind it. -/
def caught (error : String) : List Catcher → List Nat
  | [] => []
  | h :: hs =>
    if h.catches error then 0 :: (if hs.head?.any (!·.isNamed) then [1] else [])
    else (caught error hs).map (· + 1)

def ran (error : String) (hs : List Catcher) : List Nat :=
  if hs.head?.any (!·.isNamed) then [0] else caught error hs

/-- The handler is meant for every error or for this one. -/
def fits (error : String) (h : Catcher) : Bool :=
  !h.isNamed || ["Exception","BaseException","Error"].contains h.errorName || h.catches error

def meant (error : String) (hs : List Catcher) : Option Nat := hs.findIdx? (·.fits error)

theorem caught_eq_meant_iff (error : String) (hs : List Catcher) : caught error hs = (meant error hs).toList ↔
    ∀ k ∈ meant error hs, ∃ h ∈ hs[k]?, h.catches error = true ∧ (hs[k + 1]?).any (!·.isNamed) = false := by
  induction hs with
  | nil => simp [caught,meant]
  | cons h hs ih =>
    rw [caught,meant,List.findIdx?_cons]
    by_cases own : h.catches error = true
    · simp [own,fits,List.head?_eq_getElem?]
    · by_cases all : h.fits error = true
      · have apart : (caught error hs).map (· + 1) ≠ [0] := fun same => by
          have zero : 0 ∈ (caught error hs).map (· + 1) := by simp [same]
          simp at zero
        simp [own,all,apart]
      · have map : (Option.map (· + 1) (meant error hs)).toList = (meant error hs).toList.map (· + 1) := by
          cases meant error hs <;> rfl
        have shifted {as bs : List Nat} : as.map (· + 1) = bs.map (· + 1) ↔ as = bs :=
          List.map_inj_right fun _ _ => Nat.succ.inj
        rw [if_neg own,if_neg all,show hs.findIdx? _ = meant error hs from rfl,map,shifted,ih]
        simp

theorem ran_eq_meant_iff (error : String) (hs : List Catcher) : ran error hs = (meant error hs).toList ↔
    hs.head?.any (!·.isNamed) = true ∨ ∀ k ∈ meant error hs,
      ∃ h ∈ hs[k]?, h.catches error = true ∧ (hs[k + 1]?).any (!·.isNamed) = false := by
  rw [ran]
  split
  next alone =>
    cases hs with
    | nil => cases alone
    | cons h hs =>
      have own : h.isNamed = false := by simpa using alone
      simp [meant,List.findIdx?_cons,fits,own]
  next chained => rw [caught_eq_meant_iff,or_iff_right chained]

end Catcher

namespace Chain

/-- The chain in the body of a handler. -/
def next (c : Chain) (error : String) (h : Catcher) : Chain :=
  if h.isNamed then c.test (Text.holds error h.errorName) else c

/-- The handlers in a chain whose bodies are run. -/
def runs (error : String) (hs : List Catcher) : Chain → List Nat
  | .undecided => Catcher.caught error hs
  | .taken => if hs.head?.any (!·.isNamed) then [0] else []
  | .passed => []

theorem runs_cons (c : Chain) (error : String) (last : h.isNamed = true ∨ hs = []) : c.runs error (h :: hs) =
    (if c.next error h = .taken then [0] else []) ++ ((c.next error h).runs error hs).map (· + 1) := by
  cases named : h.isNamed with
  | true =>
    cases c <;> cases holds : Text.holds error h.errorName <;>
      simp [runs,next,test,Catcher.caught,Catcher.catches,named,holds]
    split <;> rfl
  | false =>
    obtain rfl := last.resolve_left (by simp [named])
    cases c <;> simp [runs,next,Catcher.caught,Catcher.catches,named]

end Chain

namespace Compile

variable {config : Option Config} {s t : State} {error : String} {i : Nat} {parts : List (Catcher × Code)}

theorem performed_head {c : Chain} {h : Catcher} (readable : h.IsReadable) (rest : List Code) :
    performed error (some c) j (h.head (i + 1) ++ rest) = performed error (some (c.next error h)) j rest ∧
    (h.isNamed = true → performed error none j (h.head 0 ++ rest) =
      performed error (some (Chain.undecided.next error h)) j rest) := by
  have first := handlerLine_test readable.1 true
  have again := handlerLine_test readable.1 false
  have binding (name : String) : handlerLine? ("\tlocal " ++ name ++ " = err") = some .binding := by
    simp [handlerLine?,← String.toList_inj]
  cases named : h.isNamed <;> cases bound : h.name <;>
    simp_all [Catcher.head,handlerHead,performed,Chain.next]

theorem performed_part {chain after : Option Chain} {p : Catcher × Code} (block : ∃ entries, p.2 = .block entries)
    (head : ∀ rest, performed error chain i (p.1.head i ++ rest) = performed error after i rest) (rest : List Code) :
    performed error chain i (handlerEntries i [p] ++ rest) =
      (performed error after (i + 1) rest).map ((if after.all (· = .taken) then [i] else []) ++ ·) := by
  obtain ⟨entries,block⟩ := block
  have position : handlerLine? ("--> try: " ++ toString i) = some .comment := by
    simp [handlerLine?,← String.toList_inj]
  have comment (code : List Code) : performed error chain i (.line ("--> try: " ++ toString i) :: code) =
      performed error chain i code := by
    cases chain <;> simp only [performed,position]
  simp only [handlerEntries,List.cons_append,List.append_assoc,List.nil_append]
  rw [comment,head,block]
  cases after <;> rw [performed]

theorem performed_arm {chain : Option Chain} {c : Chain} {p : Catcher × Code} (block : ∃ entries, p.2 = .block entries)
    (last : p.1.isNamed = true ∨ hs = []) (head : ∀ rest, performed error chain i (p.1.head i ++ rest) =
      performed error (some (c.next error p.1)) i rest)
    (later : performed error (some (c.next error p.1)) (i + 1) rest =
      some (((c.next error p.1).runs error hs).map (i + 1 + ·))) :
    performed error chain i (handlerEntries i [p] ++ rest) =
      some ((c.runs error (p.1 :: hs)).map (i + ·)) := by
  rw [performed_part block head,later,Chain.runs_cons c error last]
  by_cases taken : c.next error p.1 = .taken <;>
    simp [taken,Function.comp_def,Nat.add_assoc,Nat.add_comm 1]

theorem handlerEntries_cons (i : Nat) (p : Catcher × Code) (rest : List (Catcher × Code)) :
    handlerEntries i (p :: rest) = handlerEntries i [p] ++ handlerEntries (i + 1) rest := by
  simp [handlerEntries]

section

variable (fine : ∀ p ∈ parts, p.1.IsReadable ∧ ∃ entries, p.2 = .block entries)
  (named : ∀ p ∈ parts.dropLast, p.1.isNamed = true)
include fine named

theorem performed_chain (c : Chain) (i : Nat) :
    performed error (some c) (i + 1) (handlerEntries (i + 1) parts ++ [.line "end"]) =
      some ((c.runs error (parts.map (·.1))).map (i + 1 + ·)) := by
  induction parts generalizing c i with
  | nil => cases c <;> rfl
  | cons p rest ih =>
    obtain ⟨⟨readable,block⟩,others⟩ := List.forall_mem_cons.mp fine
    rw [handlerEntries_cons,List.append_assoc]
    cases rest with
    | nil =>
      exact performed_arm block (.inr rfl) (fun rest => (performed_head readable rest).1)
        (ih others nofun _ _)
    | cons q rest =>
      exact performed_arm block (.inl (named p (by simp))) (fun rest => (performed_head readable rest).1)
        (ih others (fun q member => named q (.tail _ member)) _ _)

theorem performed_section :
    performed error none 0 (handlerSection parts) = some (Catcher.ran error (parts.map (·.1))) := by
  cases parts with
  | nil => rfl
  | cons p rest =>
    obtain ⟨⟨readable,block⟩,others⟩ := List.forall_mem_cons.mp fine
    cases own : p.1.isNamed with
    | true =>
      have tail : ∀ q ∈ rest.dropLast, q.1.isNamed = true := fun q member => named q (by
        cases rest with
        | nil => cases member
        | cons => exact .tail _ member)
      have all := performed_arm (i := 0) (c := .undecided) block (.inl own)
        (fun rest => (performed_head (i := 0) (c := .undecided) readable rest).2 own)
        (performed_chain others tail (Chain.undecided.next error p.1) 0)
      rw [← List.append_assoc,← handlerEntries_cons] at all
      simpa [handlerSection,Catcher.ran,own,Chain.runs] using all
    | false =>
      cases rest with
      | nil =>
        have plain : p.1.head 0 = [] := by simp [Catcher.head,own]
        have all : performed error none 0 (handlerEntries 0 [p] ++ []) =
            (performed error none 1 []).map ([0] ++ ·) :=
          performed_part block (fun rest => by rw [plain,List.nil_append]) []
        simpa [handlerSection,Catcher.ran,own,performed] using all
      | cons q rest => rw [named p (by simp)] at own; cases own

end

/-- Where all handlers but perhaps the last one go by the name of an error, the first one whose name occurs
in the text of the error is run, together with one without a name that stands right behind it. A handler
without a name is run by itself only where it is the only one. So the handler that is meant to run is run
alone if and only if it is the only one and has no name, or its name occurs in the text and a handler without
a name is not behind it. -/
theorem handlers_run_by_name (run : Gives (visit config (.tryStmt false body hs orElse finalBody)) s () t) :
    ∃ parts, Handled config hs t.output parts ∧
      ((∀ p ∈ parts, p.1.IsReadable ∧ ∃ entries, p.2 = .block entries) →
        (∀ p ∈ parts.dropLast, p.1.isNamed = true) → ∀ error, let catchers := parts.map (·.1)
        performed error none 0 (handlerSection parts) = some (Catcher.ran error catchers) ∧
        (Catcher.ran error catchers = (Catcher.meant error catchers).toList ↔
          catchers.head?.any (!·.isNamed) = true ∨ ∀ k ∈ Catcher.meant error catchers,
            ∃ h ∈ catchers[k]?, h.catches error = true ∧ (catchers[k + 1]?).any (!·.isNamed) = false)) := by
  obtain ⟨parts,handled⟩ := try_run run
  exact ⟨parts,handled,fun fine named error => ⟨performed_section fine named,Catcher.ran_eq_meant_iff ..⟩⟩

/-- A handler for one error and a further one. -/
def afterValueError (type : Node) : List Catcher :=
  [emptyHandler (.name (some "ValueError") .absent) none,emptyHandler type none]

/-- The arm of the last name is taken, and the body without a name belongs to it. -/
theorem bare_handler_joins :
    let t := (visit none (emptyTry (afterValueError .absent)) (.initial .empty)).2
    ∃ parts, Handled none ((afterValueError .absent).map Catcher.node) t.output parts ∧
      performed "ValueError: no" none 0 (handlerSection parts) = some [0,1] := by
  intro t
  have run : Gives (visit none (emptyTry (afterValueError .absent))) (.initial .empty) () t :=
    gives_of_isOk (by decide +kernel)
  obtain ⟨parts,handled,performs⟩ := handlers_run_by_name run
  have catchers := handled.catchers
  have readable : ∀ h ∈ afterValueError .absent, h.IsReadable := by
    simp only [afterValueError,List.forall_mem_cons,Catcher.IsReadable]
    decide
  have named : ∀ h ∈ (afterValueError .absent).dropLast, h.isNamed = true := by decide
  have ran : Catcher.ran "ValueError: no" (afterValueError .absent) = [0,1] := by decide
  rw [← catchers] at named ran
  refine ⟨parts,handled,(performs (fun p member => ⟨?_,[],?_⟩) (fun p member => ?_) _).1.trans (congrArg some ran)⟩
  · exact readable _ (catchers ▸ List.mem_map_of_mem member)
  · exact handled.emptied member (by simp [afterValueError,emptyHandler])
  · exact named p.1 (by rw [← List.map_dropLast]; exact List.mem_map_of_mem member)

/-- An error that neither name is part of: one handler is meant for all errors, but none is run. -/
theorem general_handler_skipped :
    let hs := afterValueError (.name (some "Exception") .absent)
    let lines := handlerSection (hs.map fun h => (h,.block []))
    (visit none (emptyTry hs) (.initial .empty)).2.output = .block ([.line "--> try statement start:",
      .line "xpcall(function()",.block [],.line "end, function(err)"] ++ lines ++
      [.line "end)",.block [],.line "--> try statement end"]) ∧
    performed "attempt to index nil" none 0 lines = some [] ∧
    Catcher.meant "attempt to index nil" hs = some 1 := by
  decide +kernel

end Compile

end LuauCompiler
