import LuauCompiler.Proofs.Provision
import LuauCompiler.Proofs.TextLiterals
import Mathlib.Data.List.Infix

/-! The state of a session, request by request. Each request adds the same to the ledger whatever was
asked for before it, so the exports of a session are those of its requests. -/
namespace LuauCompiler

namespace Program

theorem ofParsed_ledger : (ofParsed config options session parsed).session.ledger =
    session.ledger.extend (ofParsed config options .fresh parsed).session.ledger := by
  cases parsed with
  | syntaxError text =>
    simp only [ofParsed]
    split <;> simp [Session.fresh,Session.start]
  | tree root =>
    simp only [ofParsed,ofTree]
    cases listing options root with
    | error e => simp [Session.fresh,Session.start]
    | ok console =>
      obtain ⟨outcome,s,t,first,second,-,ledger⟩ := visit_after (some config) root session.ledger console
      simp only [Compile.run,Session.fresh,Session.start,first,second]
      cases outcome with
      | error e => exact ledger
      | ok => simpa only [assemble_ledger] using ledger

end Program

namespace Session

theorem after_ledger (session : Session) (request : Request) :
    (session.after request).ledger = session.ledger.extend (Session.fresh.after request).ledger := by
  cases request with
  | translate job =>
    cases job with
    | program config options parsed => exact Program.ofParsed_ledger
    | helperFile => simp [after,Job.report,Program.helperFile,fresh,start]
  | compile config root start =>
    have beside : State.Beside session.ledger .empty { start with ledger := session.ledger }
        { start with ledger := .empty } := by
      refine ⟨⟨rfl,rfl,rfl,rfl⟩,.empty,?_,?_⟩ <;> simp
    obtain ⟨-,-,added,left,right⟩ := (Compile.evaluate_built config root).blind.run beside
    rw [Ledger.empty_extend] at right
    simp only [after,fresh,Session.start,left,right]
  | need helper =>
    simp only [after,need]
    split <;> simp [fresh,start,Ledger.extend,Ledger.need,Ledger.empty]
  | reset => simp [after,resetPreamble,fresh,start]

end Session

/-- The names that a request appends to the exports. -/
def Request.exported (request : Request) : List String := (Session.fresh.after request).ledger.exports

theorem Session.afterAll_exports (session : Session) (requests : List Request) :
    (session.afterAll requests).ledger.exports =
      session.ledger.exports ++ requests.flatMap Request.exported := by
  induction requests generalizing session with
  | nil => simp [afterAll]
  | cons request rest ih =>
    have first : (session.after request).ledger.exports = session.ledger.exports ++ request.exported := by
      rw [after_ledger]
      rfl
    rw [afterAll,List.foldl_cons,← afterAll,ih,first,List.flatMap_cons,List.append_assoc]

namespace Program

variable {exported : String → Prop}

/-- There is no tree, or it cannot be listed or compiled. -/
def EndsEarly (config : Config) (options : Options) (session : Session) : Parsed → Prop
  | .syntaxError _ => True
  | .tree root => (listing options root).isOk = false ∨ ∃ console, listing options root = .ok console ∧
    (Compile.visit (some config) root { State.initial session.ledger with console }).1.isOk = false

variable {options : Options}

theorem preamble_of_endsEarly (early : EndsEarly config options session parsed) :
    (ofParsed config options session parsed).result.isOk = false ∧
      (ofParsed config options session parsed).session.preamble = session.preamble := by
  cases parsed with
  | syntaxError text =>
    simp only [ofParsed]
    split <;> exact ⟨rfl,rfl⟩
  | tree root =>
    simp only [ofParsed,ofTree]
    rcases early with unlisted | ⟨console,listed,failed⟩
    · cases listed : listing options root with
      | error e => exact ⟨rfl,rfl⟩
      | ok console => simp [listed,Except.isOk,Except.toBool] at unlisted
    · simp only [listed,Compile.run]
      revert failed
      cases Compile.visit (some config) root { State.initial session.ledger with console } with
      | mk outcome s =>
        cases outcome with
        | error e => exact fun _ => ⟨rfl,rfl⟩
        | ok => simp [Except.isOk,Except.toBool]

theorem addSnippets_pieces (added : addSnippets preamble helpers = .ok result) :
    ∃ pieces, helpers.mapM snippet? = some pieces ∧ result = preamble ++ String.join pieces := by
  induction helpers generalizing preamble with
  | nil =>
    cases added
    exact ⟨[],rfl,by simp⟩
  | cons helper rest ih =>
    rw [addSnippets] at added
    cases found : snippet? helper with
    | none => simp [found] at added
    | some piece =>
      rw [found] at added
      obtain ⟨pieces,taken,rfl⟩ := ih added
      exact ⟨piece :: pieces,by simp [found,taken],by simp [String.append_assoc]⟩

/-- The preamble that a program leaves: the snippets of the helpers, each once and in the order of the
process, and the lines of the library names that occur in the code are added. -/
def NewPreamble (order : Order) (options : Options) (helpers : List String) (old code new : String) : Prop :=
  ∃ listed pieces, listed = order.list helpers ∧ listed.Nodup ∧ (∀ helper, helper ∈ listed ↔ helper ∈ helpers) ∧
    (order = .sorted → listed.Pairwise (· < ·)) ∧
    (if options.useRequire then [] else listed ++ if options.functions then ["fn"] else []).mapM
      snippet? = some pieces ∧
    new = old ++ String.join pieces ++
      String.join ((libraryNames.filter fun name => name.toList <:+: code.toList).map libraryLine) ++
      "\n\n--> code start\n"

/-- The key of an export as it is written. -/
def keyText (name : String) : List Char := Text.doubleQuote :: (name.toList ++ [Text.doubleQuote])

/-- The footer for exports of these names. A name that needs no escapes is what its key is read as. -/
def NewFooter (options : Options) (exported : String → Prop) (footer : String) : Prop :=
  ∃ keys, keys.Nodup ∧ (∀ name, name ∈ keys ↔ exported name) ∧
    (∀ name ∈ keys, (∀ c ∈ name.toList, c ∉ [Text.doubleQuote,'\\','\n','\r']) →
      Luau.textOf? (keyText name) = some name.toUTF8.data.toList) ∧
    footer = if options.exportNames = true ∧ keys ≠ [] then
      "\n\n--> exports\nif not script:IsA(\"BaseScript\") then\n\treturn \x7b\n" ++
        String.join (keys.map exportLine) ++ "\t\x7d\nend"
    else ""

theorem keyText_read (plain : ∀ c ∈ name.toList, c ∉ [Text.doubleQuote,'\\','\n','\r']) :
    Luau.textOf? (keyText name) = some name.toUTF8.data.toList := by
  have read : Luau.segment? (· == Text.doubleQuote) 0 (name.toList ++ [Text.doubleQuote]) =
      some (name.toList.flatMap String.utf8EncodeChar,[Text.doubleQuote]) := by
    generalize name.toList = cs at plain
    induction cs with
    | nil => rfl
    | cons c cs ih =>
      obtain ⟨own,others⟩ := List.forall_mem_cons.mp plain
      simp only [List.mem_cons,List.not_mem_nil,or_false,not_or] at own
      have apart : (c == Text.doubleQuote) = false := beq_eq_false_iff_ne.mpr own.1
      rw [List.cons_append,Luau.segment_plain (c := c) apart own.2.1 own.2.2.1 own.2.2.2,ih others]
      rfl
  rw [Luau.bytes_eq_flatMap,keyText,Luau.textOf?,if_pos (by decide),read,Option.bind_some,
    if_pos rfl]

theorem newFooter_of_exports (order : Order) (same : ∀ name, name ∈ exports ↔ exported name) :
    NewFooter options exported (if options.exportNames then exportTable (order.list exports) else "") := by
  refine ⟨order.list exports,order.nodup exports,fun name => order.mem_list.trans (same name),
    fun _ _ => keyText_read,?_⟩
  cases options.exportNames with
  | false => simp
  | true =>
    by_cases none : order.list exports = []
    · simp [exportTable,none]
    · simp only [exportTable,if_true,List.isEmpty_iff,none,if_false,true_and,ne_eq,not_false_eq_true]
      rfl

theorem libraryLines_eq (code : String) : libraryLines code =
    String.join ((libraryNames.filter fun name => name.toList <:+: code.toList).map libraryLine) := by
  have same : (libraryNames.filter fun name => Text.holds code name) =
      libraryNames.filter fun name => name.toList <:+: code.toList := by
    refine List.filter_congr fun name _ => ?_
    rw [Bool.eq_iff_iff,Text.holds_iff,decide_eq_true_iff,Occurs]
  rw [libraryLines,same]
  rfl

theorem assemble_parts {text : String} (same : ∀ name, name ∈ session.ledger.exports ↔ exported name)
    (done : (assemble options output console session).result = .ok text) :
    ∃ entries footer, output.entries? = some entries ∧
      NewPreamble session.order options session.ledger.helpers session.preamble (Code.layOut 0 entries)
        (assemble options output console session).session.preamble ∧
      NewFooter options exported footer ∧
      text = header ++ errorFunctions (Code.layOut 0 entries) ++
        (assemble options output console session).session.preamble ++ Code.layOut 0 entries ++ footer := by
  unfold assemble at done ⊢
  cases added : addSnippets session.preamble
      (if options.useRequire then [] else helpersOf options session) with
  | error stop => simp [added] at done
  | ok preamble =>
    obtain ⟨pieces,taken,rfl⟩ := addSnippets_pieces added
    cases held : output.entries? with
    | none => simp [added,held] at done
    | some entries =>
      simp only [added,held] at done ⊢
      refine ⟨entries,_,rfl,?_,newFooter_of_exports session.order same,(Except.ok.inj done).symm⟩
      refine ⟨_,pieces,rfl,session.order.nodup _,fun helper => session.order.mem_list,fun sorted => ?_,taken,?_⟩
      · rw [sorted]
        exact Order.sortDistinct_sorted _
      · rw [libraryLines_eq]

theorem ofParsed_parts {text : String} (same : ∀ name,
      name ∈ (ofParsed config options session parsed).session.ledger.exports ↔ exported name)
    (done : (ofParsed config options session parsed).result = .ok text) :
    ∃ root console t entries footer, parsed = .tree root ∧ Compile.Gives (Compile.visit (some config) root)
        { State.initial session.ledger with console } () t ∧ t.output.entries? = some entries ∧
      NewPreamble session.order options (ofParsed config options session parsed).session.ledger.helpers
        session.preamble (Code.layOut 0 entries)
        (ofParsed config options session parsed).session.preamble ∧
      NewFooter options exported footer ∧
      text = header ++ errorFunctions (Code.layOut 0 entries) ++
        (ofParsed config options session parsed).session.preamble ++ Code.layOut 0 entries ++ footer := by
  cases parsed with
  | syntaxError message =>
    simp only [ofParsed] at done
    split at done <;> cases done
  | tree root =>
    simp only [ofParsed,ofTree] at same done ⊢
    cases listed : listing options root with
    | error e => simp [listed] at done
    | ok console =>
      simp only [listed,Compile.run] at same done ⊢
      cases ran : Compile.visit (some config) root { State.initial session.ledger with console } with
      | mk outcome t =>
        cases outcome with
        | error e => simp [ran] at done
        | ok =>
          simp only [ran,assemble_ledger] at same done ⊢
          obtain ⟨entries,footer,held,preamble,footed,whole⟩ := assemble_parts same done
          exact ⟨root,console,t,entries,footer,rfl,ran,held,preamble,footed,whole⟩

end Program

/-- After any session, a translation adds to the ledger only. One that ends before the program is put
together leaves the preamble alone. One that succeeds adds its snippets and library names to the
preamble, and the program holds the new preamble and a table of all names that were exported so far. -/
theorem translation_step (order : Order) (history : List Request) (config : Config) (options : Options)
    (parsed : Parsed) :
    let past := (Session.start order).afterAll history
    let report := Program.ofParsed config options past parsed
    past.ledger.helpers <+: report.session.ledger.helpers ∧
    past.ledger.exports <+: report.session.ledger.exports ∧
    (Program.EndsEarly config options past parsed →
      report.result.isOk = false ∧ report.session.preamble = past.preamble) ∧
    ∀ text, report.result = .ok text → ∃ root console t entries footer, parsed = .tree root ∧
      Compile.Gives (Compile.visit (some config) root)
        { State.initial past.ledger with console } () t ∧ t.output.entries? = some entries ∧
      Program.NewPreamble order options report.session.ledger.helpers past.preamble (Code.layOut 0 entries)
        report.session.preamble ∧
      Program.NewFooter options (fun name => ∃ request ∈ history ++
        [.translate (.program config options parsed)], name ∈ request.exported) footer ∧
      text = Program.header ++ Program.errorFunctions (Code.layOut 0 entries) ++
        report.session.preamble ++ Code.layOut 0 entries ++ footer := by
  intro past report
  have ledger : report.session.ledger = past.ledger.extend _ := Program.ofParsed_ledger
  have kept : past.order = order := Session.afterAll_order _ history
  refine ⟨?_,?_,Program.preamble_of_endsEarly,fun text done => ?_⟩
  · rw [ledger]
    exact List.prefix_append _ _
  · rw [ledger]
    exact List.prefix_append _ _
  · rw [← kept]
    refine Program.ofParsed_parts (fun name => ?_) done
    have all := Session.afterAll_exports (.start order) (history ++ [.translate (.program config options parsed)])
    rw [Session.afterAll,List.foldl_append] at all
    have exports : report.session.ledger.exports = (history ++
        [Request.translate (.program config options parsed)]).flatMap Request.exported := all
    rw [exports,List.mem_flatMap]

def exporting : Parsed := .tree (.module [.global ["z"],.classDef (some "A") [] [] [.pass] []] [])

def exportingHistory : List Request := [.translate (.program .defaults {} exporting),.reset]

/-- A syntax error after the session leaves the preamble alone, and the same program again exports its
name once. -/
theorem exporting_again : (Program.ofParsed .defaults {} (Session.fresh.afterAll exportingHistory)
      (.syntaxError "bad")).session.preamble = (Session.fresh.afterAll exportingHistory).preamble ∧
    ∃ text footer start, (Program.ofParsed .defaults {} (Session.fresh.afterAll exportingHistory)
        exporting).result = .ok text ∧
      Program.NewFooter {} (· = "z") footer ∧ text = start ++ footer := by
  obtain ⟨-,-,early,-⟩ := translation_step .sorted exportingHistory .defaults {} (.syntaxError "bad")
  obtain ⟨-,-,-,step⟩ := translation_step .sorted exportingHistory .defaults {} exporting
  have done : (Program.ofParsed .defaults {} (Session.fresh.afterAll exportingHistory)
      exporting).result.isOk = true := by decide +kernel
  refine ⟨(early trivial).2,?_⟩
  cases result : (Program.ofParsed .defaults {} (Session.fresh.afterAll exportingHistory)
      exporting).result with
  | error e => simp [result,Except.isOk,Except.toBool] at done
  | ok text =>
    obtain ⟨_,_,_,_,footer,-,-,-,-,footed,whole⟩ := step text result
    have own : Request.exported (.translate (.program .defaults {} exporting)) = ["z"] := by
      decide +kernel
    have none : Request.exported .reset = [] := rfl
    exact ⟨text,footer,_,rfl,by simpa [exportingHistory,own,none] using footed,whole⟩

/-- The order of the code points the other way round. -/
def Order.reversed : Order where
  list texts := (sorted.list texts).reverse
  nodup texts := List.pairwise_reverse.mpr ((sorted.nodup texts).imp Ne.symm)
  mem_list := List.mem_reverse.trans sorted.mem_list

/-- A class and an exported dictionary. -/
def classAndTable (name : String) : Node :=
  .module [.global [name],.classDef (some "A") [] [] [.pass] [],.exprStmt (.dict [] [])] []

/-- In the other order the snippets are not sorted, and the key of a name with a mark in it is no text. -/
theorem reversed_snippets :
    let session := (Program.ofTree .defaults {} (.start .reversed) (classAndTable "a\"b")).session
    Program.addSnippets Snippet.imports (Program.helpersOf {} session) =
      .ok (Snippet.imports ++ Snippet.dict ++ Snippet.classes) ∧
    (session.ledger.exports.map fun name => (Program.exportLine name,Luau.textOf? (Program.keyText name))) =
      [("\t\t[\"a\"b\"] = a\"b,\n",none)] := by
  intro session
  have helpers : Program.helpersOf {} session = ["dict","class"] := by decide +kernel
  have exports : session.ledger.exports = ["a\"b"] := by decide +kernel
  rw [helpers,exports]
  exact ⟨by simp only [Program.addSnippets,Program.snippet?],by decide +kernel⟩

end LuauCompiler
