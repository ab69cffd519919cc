import LuauCompiler.Proofs.Law
import LuauCompiler.Proofs.TwoRuns

/-! What earlier programs leave to later ones. A reset starts the preamble anew but keeps the
ledger, so a later program has the snippets and the exports of all programs before it. -/
namespace LuauCompiler

/-! ## Sorted texts without repetition -/
namespace Order

variable {texts : List String}

theorem insertDistinct_of_mem {text : String} (sorted : texts.Pairwise (· < ·)) (member : text ∈ texts) :
    insertDistinct text texts = texts := by
  fun_induction insertDistinct text texts with
  | case1 => simp at member
  | case2 => rfl
  | case3 first rest other less =>
    have later : text ∈ rest := by simpa [other] using member
    have greater := List.rel_of_pairwise_cons sorted later
    exact absurd (String.lt_trans less greater) (String.lt_irrefl text)
  | case4 first rest other greater ih =>
    have later : text ∈ rest := by simpa [other] using member
    rw [ih sorted.of_cons later]

theorem sorted_append (covered : past ⊆ own) : sorted.list (past ++ own) = sorted.list own := by
  induction past with
  | nil => rfl
  | cons text rest ih =>
    obtain ⟨member,others⟩ := List.cons_subset.mp covered
    have inserted : insertDistinct text (sortDistinct own) = sortDistinct own :=
      insertDistinct_of_mem (sortDistinct_sorted own) (mem_sortDistinct.mpr member)
    calc sorted.list (text :: rest ++ own)
      _ = insertDistinct text (sorted.list (rest ++ own)) := rfl
      _ = sorted.list own := (congrArg _ (ih others)).trans inserted

end Order

namespace Program

open LuauCompiler.Order

variable {texts : List String} {options : Options} {order : Order}

def total (weight : String → Nat) : List String → Nat
  | [] => 0
  | text :: rest => weight text + total weight rest

/-- The weight of the texts, each counted once. -/
def weigh (weight : String → Nat) (texts : List String) : Nat := total weight (sorted.list texts)

variable {past own : List String}

theorem total_append (first second : List String) :
    total weight (first ++ second) = total weight first + total weight second := by
  induction first with
  | nil => simp [total]
  | cons text rest ih => simp only [List.cons_append,total,ih,Nat.add_assoc]

theorem total_insert {text : String} (absent : text ∉ texts) :
    total weight (insertDistinct text texts) = weight text + total weight texts := by
  fun_induction insertDistinct text texts with
  | case1 => rfl
  | case2 => simp at absent
  | case3 => rfl
  | case4 first rest other greater ih =>
    have inner := ih fun later => absent (List.mem_cons_of_mem first later)
    simp only [total,inner]
    omega

theorem weigh_cons (text : String) (texts : List String) :
    weigh weight (text :: texts) = (if text ∈ texts then 0 else weight text) + weigh weight texts := by
  by_cases member : text ∈ texts
  · have inserted := insertDistinct_of_mem (sortDistinct_sorted texts) (mem_sortDistinct.mpr member)
    have same : sorted.list (text :: texts) = sorted.list texts := inserted
    simp [weigh,same,member]
  · simp only [member,if_false]
    exact total_insert fun inside => member (mem_sortDistinct.mp inside)

theorem weigh_le : weigh weight own ≤ weigh weight (past ++ own) := by
  induction past with
  | nil => exact Nat.le_refl _
  | cons text rest ih =>
    rw [List.cons_append,weigh_cons]
    omega

theorem subset_of_weigh_eq (positive : ∀ text ∈ past, 0 < weight text)
    (same : weigh weight (past ++ own) = weigh weight own) : past ⊆ own := by
  induction past with
  | nil => exact List.nil_subset own
  | cons text rest ih =>
    rw [List.cons_append,weigh_cons] at same
    have least : weigh weight own ≤ weigh weight (rest ++ own) := weigh_le
    have others : rest ⊆ own := ih (fun x member => positive x (by simp [member])) (by omega)
    refine List.cons_subset.mpr ⟨?_,others⟩
    by_cases member : text ∈ rest ++ own
    · rcases List.mem_append.mp member with early | late
      · exact others early
      · exact late
    · have heavy := positive text (by simp)
      simp only [member,if_false] at same
      omega

/-! ## The text of a program -/

def snippets (order : Order) (options : Options) (helpers : List String) : String :=
  if options.useRequire then ""
  else String.join ((order.list helpers ++ if options.functions then ["fn"] else []).filterMap snippet?)

def footer (order : Order) (options : Options) (exports : List String) : String :=
  if options.exportNames then exportTable (order.list exports) else ""

def text (order : Order) (options : Options) (preamble : String) (ledger : Ledger) (code : String) : String :=
  header ++ errorFunctions code ++
    (preamble ++ snippets order options ledger.helpers ++ libraryLines code ++ "\n\n--> code start\n") ++
    code ++ footer order options ledger.exports

theorem addSnippets_known (preamble : String) (known : ∀ helper ∈ helpers, (snippet? helper).isSome) :
    addSnippets preamble helpers = .ok (preamble ++ String.join (helpers.filterMap snippet?)) := by
  induction helpers generalizing preamble with
  | nil => simp [addSnippets]
  | cons helper rest ih =>
    obtain ⟨snippet,found⟩ := Option.isSome_iff_exists.mp (known helper (by simp))
    have later := ih (preamble ++ snippet) fun h member => known h (by simp [member])
    simp [addSnippets,found,later,String.append_assoc]

theorem requested_known : ∀ helper ∈ requestedHelpers, (snippet? helper).isSome := by
  decide

variable {session : Session}

theorem addSnippets_requested (options : Options) (known : session.ledger.helpers ⊆ requestedHelpers) :
    addSnippets session.preamble (if options.useRequire then [] else helpersOf options session) =
      .ok (session.preamble ++ snippets session.order options session.ledger.helpers) := by
  have every : ∀ helper ∈ helpersOf options session, (snippet? helper).isSome := by
    intro helper member
    rcases List.mem_append.mp member with asked | builtin
    · exact requested_known helper (known (session.order.mem_list.mp asked))
    · have name : helper = "fn" := by
        split at builtin <;> simp_all
      subst name
      rfl
  unfold snippets
  split
  · simp [addSnippets]
  · exact addSnippets_known session.preamble every

theorem assemble_result (options : Options) (output : Code) (console : Console)
    (known : session.ledger.helpers ⊆ requestedHelpers) :
    (assemble options output console session).result = output.entries?.elim (.error .wrongKind) fun entries =>
        .ok (text session.order options session.preamble session.ledger (Code.layOut 0 entries)) := by
  unfold assemble
  simp only [addSnippets_requested options known]
  cases output.entries? <;> rfl

theorem assemble_ledger (options : Options) (output : Code) (console : Console) (session : Session) :
    (assemble options output console session).session.ledger = session.ledger := by
  simp only [assemble]
  split
  · rfl
  · split <;> rfl

theorem assemble_order (options : Options) (output : Code) (console : Console) (session : Session) :
    (assemble options output console session).session.order = session.order := by
  simp only [assemble]
  split
  · rfl
  · split <;> rfl

theorem ofTree_order (config : Config) (options : Options) (session : Session) (root : Node) :
    (ofTree config options session root).session.order = session.order := by
  simp only [ofTree]
  split
  · rfl
  · split
    · rfl
    · exact assemble_order ..

/-! ## How long a program is -/

def snippetWeight (helper : String) : Nat := ((snippet? helper).getD "").length

def exportLine (name : String) : String := "\t\t[\"" ++ name ++ "\"] = " ++ name ++ ",\n"

theorem requested_nonempty : ∀ helper ∈ requestedHelpers, (snippet? helper).getD "" ≠ "" := by
  -- Every snippet opens with a line end, so its long text need not be evaluated.
  have opened : ∀ start rest : String, start ≠ "" → start ++ rest ≠ "" := fun _ _ some none =>
    some (String.append_eq_empty_iff.mp none).1
  simp only [requestedHelpers,List.forall_mem_cons]
  refine ⟨opened _ _ (by decide),opened _ _ (by decide),?_,opened _ _ (by decide),List.forall_mem_nil _⟩
  show Snippet.complex ≠ ""
  unfold Snippet.complex
  repeat apply opened
  decide

theorem snippetWeight_pos (requested : helper ∈ requestedHelpers) : 0 < snippetWeight helper :=
  Nat.pos_of_ne_zero fun none => requested_nonempty helper requested (String.length_eq_zero_iff.mp none)

theorem length_joined_snippets (helpers : List String) :
    (String.join (helpers.filterMap snippet?)).length = total snippetWeight helpers := by
  induction helpers with
  | nil => rfl
  | cons helper rest ih =>
    cases found : snippet? helper with
    | none =>
      simp only [List.filterMap_cons,found,total,snippetWeight,Option.getD_none,ih,String.length_empty,
        Nat.zero_add]
    | some snippet =>
      simp only [List.filterMap_cons,found,total,snippetWeight,Option.getD_some,String.join_cons,
        String.length_append,ih]

theorem length_snippets (holds : options.useRequire = false) :
    ∃ builtin, ∀ helpers, (snippets sorted options helpers).length = weigh snippetWeight helpers + builtin := by
  refine ⟨total snippetWeight (if options.functions then ["fn"] else []),fun helpers => ?_⟩
  simp only [snippets,holds,Bool.false_eq_true,if_false,length_joined_snippets,total_append,weigh]

def exportWeight (name : String) : Nat := (exportLine name).length

theorem length_joined_exports (names : List String) :
    (String.join (names.map exportLine)).length = total exportWeight names := by
  induction names with
  | nil => rfl
  | cons name rest ih =>
    simp only [List.map_cons,String.join_cons,String.length_append,total,ih,exportWeight]

theorem length_exportTable : ∃ frame, ∀ names : List String, names ≠ [] →
    (exportTable names).length = frame + total exportWeight names := by
  refine ⟨"\n\n--> exports\nif not script:IsA(\"BaseScript\") then\n\treturn \x7b\n".length +
    "\t\x7d\nend".length,fun names nonempty => ?_⟩
  have filled : names.isEmpty = false := by simpa using nonempty
  have lines : names.map (fun name => "\t\t[\"" ++ name ++ "\"] = " ++ name ++ ",\n") =
    names.map exportLine := rfl
  simp only [exportTable,filled,Bool.false_eq_true,if_false,lines,String.length_append, length_joined_exports]
  omega

theorem list_eq_nil : order.list texts = [] ↔ texts = [] := by
  simp only [List.eq_nil_iff_forall_not_mem,order.mem_list]

theorem snippets_grow (holds : options.useRequire = false) :
    (snippets sorted options own).length ≤ (snippets sorted options (past ++ own)).length := by
  obtain ⟨builtin,length⟩ := length_snippets holds
  have least : weigh snippetWeight own ≤ weigh snippetWeight (past ++ own) := weigh_le
  rw [length,length]
  omega

theorem subset_of_snippets (holds : options.useRequire = false) (known : past ⊆ requestedHelpers)
    (same : (snippets sorted options (past ++ own)).length = (snippets sorted options own).length) : past ⊆ own := by
  obtain ⟨builtin,length⟩ := length_snippets holds
  rw [length,length] at same
  have weighed : weigh snippetWeight (past ++ own) = weigh snippetWeight own := by omega
  exact subset_of_weigh_eq (fun helper member => snippetWeight_pos (known member)) weighed

theorem exportWeight_pos (name : String) : 0 < exportWeight name := by
  have comma : 0 < ",\n".length := by decide
  simp only [exportWeight,exportLine,String.length_append]
  omega

theorem length_footer (shown : options.exportNames = true) : ∃ frame, ∀ names, (footer sorted options names).length =
      (if names = [] then 0 else frame) + weigh exportWeight names := by
  obtain ⟨frame,length⟩ := length_exportTable
  refine ⟨frame,fun names => ?_⟩
  simp only [footer,shown,if_true]
  by_cases none : names = []
  · subst none
    rfl
  · rw [length _ fun empty => none (list_eq_nil.mp empty),if_neg none]
    rfl

theorem footer_gains (past own : List String) (shown : options.exportNames = true) :
    (footer sorted options own).length + weigh exportWeight (past ++ own) ≤
      (footer sorted options (past ++ own)).length + weigh exportWeight own := by
  obtain ⟨frame,length⟩ := length_footer shown
  rw [length,length]
  by_cases none : own = []
  · rw [if_pos none]
    omega
  · have some : past ++ own ≠ [] := by simp [none]
    rw [if_neg none,if_neg some]
    omega

theorem footer_grows (shown : options.exportNames = true) :
    (footer sorted options own).length ≤ (footer sorted options (past ++ own)).length := by
  have gained := footer_gains past own shown
  have least : weigh exportWeight own ≤ weigh exportWeight (past ++ own) := weigh_le
  omega

theorem subset_of_footer (shown : options.exportNames = true)
    (same : (footer sorted options (past ++ own)).length = (footer sorted options own).length) : past ⊆ own := by
  have gained := footer_gains past own shown
  have least : weigh exportWeight own ≤ weigh exportWeight (past ++ own) := weigh_le
  exact subset_of_weigh_eq (fun name _ => exportWeight_pos name) (by omega)

/-- What the past has left is in the program in any case, as far as programs of these options hold
it. -/
structure Covered (options : Options) (past own : Ledger) : Prop where
  helpers : options.useRequire = false → past.helpers ⊆ own.helpers
  exports : options.exportNames = true → past.exports ⊆ own.exports

theorem text_extend_iff (options : Options) (preamble code : String) {past own : Ledger}
    (known : past.helpers ⊆ requestedHelpers) :
    text sorted options preamble (past.extend own) code = text sorted options preamble own code ↔
      Covered options past own := by
  constructor
  · intro same
    have lengths := congrArg String.length same
    simp only [text,String.length_append,Ledger.extend] at lengths
    have snippets : (snippets sorted options own.helpers).length ≤
        (snippets sorted options (past.helpers ++ own.helpers)).length := by
      cases holds : options.useRequire with
      | false => exact snippets_grow holds
      | true => simp [Program.snippets,holds]
    have footers : (footer sorted options own.exports).length ≤
        (footer sorted options (past.exports ++ own.exports)).length := by
      cases shown : options.exportNames with
      | true => exact footer_grows shown
      | false => simp [footer,shown]
    exact ⟨fun holds => subset_of_snippets holds known (by omega),
      fun shown => subset_of_footer shown (by omega)⟩
  · intro covered
    have helpers : snippets sorted options (past.helpers ++ own.helpers) = snippets sorted options own.helpers := by
      cases holds : options.useRequire with
      | false => simp only [snippets,holds,sorted_append (covered.helpers holds)]
      | true => simp only [snippets,holds,if_true]
    have exports : footer sorted options (past.exports ++ own.exports) = footer sorted options own.exports := by
      cases shown : options.exportNames with
      | true => simp only [footer,shown,sorted_append (covered.exports shown)]
      | false => simp [footer,shown]
    simp only [text,Ledger.extend,helpers,exports]

end Program

/-! ## Programs after a reset -/

/-- Only helpers that have a snippet are asked for. -/
def helperLaw : Law where
  done a b := a.ledger.helpers ⊆ requestedHelpers → b.ledger.helpers ⊆ requestedHelpers
  failed a b := a.ledger.helpers ⊆ requestedHelpers → b.ledger.helpers ⊆ requestedHelpers
  refl _ known := known
  trans first second known := second (first known)
  stop _ known := known
  after first second known := second (first known)
  need _ _ requested known :=
    List.append_subset.mpr ⟨known,List.cons_subset.mpr ⟨requested,List.nil_subset _⟩⟩
  count _ known := known
  declare _ known := known
  publish _ known := known
  unframe ran _ known := ran known
  unblock ran _ known := ran known
  framed ran known := ran known
  blocked ran known := ran known

theorem visit_requests (config : Option Config) (n : Node) (known : s.ledger.helpers ⊆ requestedHelpers) :
    (Compile.visit config n s).2.ledger.helpers ⊆ requestedHelpers := by
  have ran := (Compile.visit_follows helperLaw config n).run s
  revert ran
  cases (Compile.visit config n s).1 <;> exact fun ran => ran known

namespace Program

theorem ofTree_requests (config : Config) (options : Options) (root : Node)
    (known : session.ledger.helpers ⊆ requestedHelpers) :
    (ofTree config options session root).session.ledger.helpers ⊆ requestedHelpers := by
  unfold ofTree
  cases listing options root with
  | error e => exact known
  | ok console =>
    have asked := visit_requests (some config) root (s := { State.initial session.ledger with console }) known
    simp only [Compile.run]
    revert asked
    cases Compile.visit (some config) root { State.initial session.ledger with console } with
    | mk outcome s =>
      cases outcome with
      | error e => exact id
      | ok => simp [assemble_ledger]

theorem assemble_result_iff (options : Options) (output : Code) (console console' : Console)
    (preamble : String) (past_known : past.helpers ⊆ requestedHelpers)
    (own_known : own.helpers ⊆ requestedHelpers) :
    (assemble options output console ⟨past.extend own,preamble,.sorted⟩).result =
        (assemble options output console' ⟨own,preamble,.sorted⟩).result ↔
      ((assemble options output console' ⟨own,preamble,.sorted⟩).result.isOk = true → Covered options past own) := by
  have known : (past.extend own).helpers ⊆ requestedHelpers := List.append_subset.mpr ⟨past_known,own_known⟩
  rw [assemble_result options output console known, assemble_result options output console' own_known]
  cases output.entries? with
  | none => simp [Except.isOk,Except.toBool]
  | some entries => simp [Except.isOk,Except.toBool,text_extend_iff _ _ _ past_known]

theorem visit_after (config : Option Config) (root : Node) (past : Ledger) (console : Console) :
    ∃ outcome s t, Compile.visit config root { State.initial past with console } = (outcome,s) ∧
      Compile.visit config root { State.initial .empty with console } = (outcome,t) ∧
      s.output = t.output ∧ s.ledger = past.extend t.ledger := by
  have beside : State.Beside past .empty { State.initial past with console }
      { State.initial .empty with console } := by
    refine ⟨⟨rfl,rfl,rfl,rfl⟩,.empty,?_,?_⟩ <;> simp [State.initial]
  obtain ⟨same,alike,added,left,right⟩ := (Compile.visit_built config root).blind.run beside
  rw [Ledger.empty_extend] at right
  exact ⟨_,_,(Compile.visit config root { State.initial .empty with console }).2,rfl,Prod.ext same.symm rfl,
    alike.output,left.trans (congrArg past.extend right.symm)⟩

theorem ofTree_result_iff (config : Config) (options : Options) (root : Node)
    (known : past.helpers ⊆ requestedHelpers) :
    (ofTree config options ⟨past,Snippet.imports,.sorted⟩ root).result = (ofTree config options .fresh root).result ↔
      ((ofTree config options .fresh root).result.isOk = true →
        Covered options past (ofTree config options .fresh root).session.ledger) := by
  unfold ofTree
  cases listing options root with
  | error e => simp [Except.isOk,Except.toBool]
  | ok console =>
    obtain ⟨outcome,s,t,first,second,output,ledger⟩ := visit_after (some config) root past console
    have own := visit_requests (some config) root (s := { State.initial .empty with console })
      (List.nil_subset _)
    rw [second] at own
    simp only [Compile.run,Session.fresh,Session.start,first,second]
    cases outcome with
    | error e => simp [Except.isOk,Except.toBool]
    | ok =>
      simp only [assemble_ledger,output,ledger]
      exact assemble_result_iff options t.output s.console t.console Snippet.imports known own

end Program

namespace Job

theorem report_requests (job : Job) (known : session.ledger.helpers ⊆ requestedHelpers) :
    (job.report session).session.ledger.helpers ⊆ requestedHelpers := by
  cases job with
  | helperFile => exact known
  | program config options parsed =>
    cases parsed with
    | tree root => exact Program.ofTree_requests config options root known
    | syntaxError text =>
      simp only [report,Program.ofParsed]
      split <;> exact known

theorem report_order (job : Job) (session : Session) : (job.report session).session.order = session.order := by
  cases job with
  | helperFile => rfl
  | program config options parsed =>
    cases parsed with
    | tree root => exact Program.ofTree_order ..
    | syntaxError text =>
      simp only [report,Program.ofParsed]
      split <;> rfl

/-- What the past has left is in the result of the job in any case. -/
def Covered (past own : Ledger) : Job → Prop
  | .program _ options _ => Program.Covered options past own
  | .helperFile _ => True

end Job

theorem Session.afterAll_order (session : Session) (requests : List Request) :
    (session.afterAll requests).order = session.order := by
  induction requests generalizing session with
  | nil => rfl
  | cons request rest ih =>
    refine (ih _).trans ?_
    cases request with
    | translate job => exact job.report_order session
    | compile | reset => rfl
    | need helper =>
      simp only [after,need]
      split <;> rfl

theorem Session.translations_request (history : List Job) {session : Session}
    (known : session.ledger.helpers ⊆ requestedHelpers) :
    (session.afterAll (history.map .translate)).ledger.helpers ⊆ requestedHelpers := by
  induction history generalizing session with
  | nil => exact known
  | cons job rest ih => exact ih (job.report_requests known)

/-- The past shows in a result unless the result is an error or has what the past has left anyway:
a reset takes back the preamble only. -/
theorem reset_result_iff (history : List Job) (job : Job) :
    let past := (Session.fresh.afterAll (history.map .translate)).resetPreamble
    let first := job.report .fresh
    (job.report past).result = first.result ↔
      (first.result.isOk = true → job.Covered past.ledger first.session.ledger) := by
  intro past first
  have known : past.ledger.helpers ⊆ requestedHelpers :=
    Session.translations_request history (List.nil_subset _)
  cases job with
  | helperFile => simp [Job.Covered,first,Job.report,Program.helperFile]
  | program config options parsed =>
    cases parsed with
    | tree root =>
      have same : past = ⟨past.ledger,Snippet.imports,.sorted⟩ :=
        congrArg (Session.mk past.ledger Snippet.imports) (Session.afterAll_order .fresh _)
      rw [same]
      exact Program.ofTree_result_iff config options root known
    | syntaxError text =>
      simp only [Job.report,Program.ofParsed,first]
      split <;> simp [Except.isOk,Except.toBool]

/-- A program that defines a class. -/
def classJob : Job := .program .defaults {} (.tree (.module [.classDef (some "A") [] [] [.pass] []] []))

def passTree : Node := .module [.pass] []

theorem classJob_needs : (Session.fresh.afterAll [.translate classJob]).ledger.helpers = ["class"] := by
  decide +kernel

theorem passTree_result : (Program.ofTree .defaults {} .fresh passTree).result.isOk = true := by
  decide +kernel

theorem passTree_needs : (Program.ofTree .defaults {} .fresh passTree).session.ledger.helpers = [] := by
  decide +kernel

theorem passTree_differs (left : past.helpers = ["class"]) :
    (Program.ofTree .defaults {} ⟨past,Snippet.imports,.sorted⟩ passTree).result ≠
      (Program.ofTree .defaults {} .fresh passTree).result := by
  intro same
  have known : past.helpers ⊆ requestedHelpers := by
    rw [left]
    decide
  have covered := (Program.ofTree_result_iff .defaults {} passTree known).mp same passTree_result
  have kept := covered.helpers rfl
  rw [left,passTree_needs] at kept
  simp at kept

theorem class_survives_reset :
    let past := (Session.fresh.afterAll [.translate classJob]).resetPreamble
    let job := Job.program .defaults {} (.tree passTree)
    (job.report past).result ≠ (job.report .fresh).result :=
  passTree_differs classJob_needs

end LuauCompiler
