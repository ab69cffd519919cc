import LuauCompiler.Proofs.Phrases
import LuauCompiler.Proofs.PlainExpressions
import LuauCompiler.Proofs.Stacks

/-! Brackets and block keywords of comprehensions. A text is read as code from its start, together with
the constructs and the brackets that are open. Comprehensions of sets, dictionaries and generators close
whatever they open if their parts do; that of a list leaves a bracket open. -/
namespace LuauCompiler

namespace Luau

/-- The brackets that a further character makes certain. A square bracket may yet open a long text. -/
def Mode.brackets (m : Mode) (c : Char) : List Char :=
  let own := if c ∈ ['(',')','\x7b','\x7d',']'] then [c] else []
  match m with
  | .code | .word _ | .dash => own
  | .bracket _ => if c = '=' ∨ c = '[' then [] else '[' :: own
  | _ => []

/-- The constructs and the brackets that are open, innermost first. -/
structure Nesting where
  opened : List Open
  brackets : List Char
  deriving DecidableEq

namespace Nesting

def bracket (n : Nesting) (c : Char) : Option Nesting :=
  match c,n.brackets with
  | ')','(' :: outer | ']','[' :: outer | '\x7d','\x7b' :: outer => some ⟨n.opened,outer⟩
  | ')',_ | ']',_ | '\x7d',_ => none
  | _,_ => some ⟨n.opened,c :: n.brackets⟩

def follows (n : Nesting) (words : List String) : Option Nesting :=
  (followAll n.opened words).map (⟨·,n.brackets⟩)

/-- What is open behind one more character. -/
def next (n : Nesting) (m : Mode) (c : Char) : Option Nesting :=
  (n.follows (m.ended c)).bind ((m.brackets c).foldlM bracket ·)

end Nesting

def reads (m : Mode) (n : Nesting) : List Char → Option (Mode × Nesting)
  | [] => some (m,n)
  | c :: rest => (n.next m c).bind (reads (m.next c) · rest)

/-- What is open behind a text of whole tokens. -/
def leadsTo (text : String) (n : Nesting) : Option Nesting :=
  (reads .code n text.toList).bind fun p => if p.1.settled then p.2.follows p.1.pending else none

/-- The text closes everything that it opens, but for these brackets. -/
def Leaves (rest : List Char) (text : String) : Prop :=
  ∀ opened brackets, leadsTo text ⟨opened,brackets⟩ = some ⟨opened,rest ++ brackets⟩

/-- The text starts with a sign that ends a word. -/
def isApart (text : String) : Bool := text.toList.head?.any (!isWordChar ·)

variable {a b : String}

theorem reads_append (m : Mode) (n : Nesting) (xs ys : List Char) :
    reads m n (xs ++ ys) = (reads m n xs).bind fun p => reads p.1 p.2 ys := by
  induction xs generalizing m n with
  | nil => rfl
  | cons c xs ih => simp only [List.cons_append,reads,Option.bind_assoc,ih]

theorem reads_settled (first : leadsTo a n = some n') (apart : isApart b = true) :
    reads .code n (a.toList ++ b.toList) = reads .code n' b.toList := by
  obtain ⟨⟨m,u⟩,run,last⟩ := Option.bind_eq_some_iff.mp first
  rw [reads_append,run,Option.bind_some]
  unfold isApart at apart
  generalize b.toList = cs at apart ⊢
  cases cs with
  | nil => cases apart
  | cons c rest =>
    have sign : isWordChar c = false := by simpa using apart
    cases m with
    | code => cases last; rfl
    | word letters =>
      have ended : u.follows [String.ofList letters] = some n' := last
      have none : n'.follows [] = some n' := rfl
      simp [reads,Nesting.next,Mode.ended,Mode.next,Mode.pending,Mode.brackets,sign,ended,none]
    | _ => cases last

theorem leadsTo_opens (first : reads .code n a.toList = some (.code,n')) : leadsTo (a ++ b) n = leadsTo b n' := by
  rw [leadsTo,String.toList_append,reads_append,first]
  rfl

theorem leadsTo_append (first : leadsTo a n = some n') (apart : isApart b = true) :
    leadsTo (a ++ b) n = leadsTo b n' := by
  rw [leadsTo,String.toList_append,reads_settled first apart]
  rfl

theorem reads_append_opens (first : leadsTo a n = some n') (apart : isApart b = true)
    (second : reads .code n' b.toList = some (.code,u)) : reads .code n (a ++ b).toList = some (.code,u) := by
  rw [String.toList_append,reads_settled first apart,second]

/-- A part of a line between two pieces that are known. -/
theorem leadsTo_between (first : reads .code n a.toList = some (.code,v)) (part : Leaves [] text)
    (apart : isApart b = true) : leadsTo (a ++ text ++ b) n = leadsTo b v :=
  leadsTo_append ((leadsTo_opens first).trans (part _ _)) apart

/-! ## Lines -/

inductive LinesLead : List String → Nesting → Nesting → Prop
  | nil : LinesLead [] n n
  | cons {line : String} (first : leadsTo line n = some u) (rest : LinesLead lines u n') :
    LinesLead (line :: lines) n n'

theorem LinesLead.append (first : LinesLead xs n u) (second : LinesLead ys u n') : LinesLead (xs ++ ys) n n' := by
  induction first with
  | nil => exact second
  | cons line _ ih => exact .cons line (ih second)

theorem LinesLead.joined (lead : LinesLead lines n n') :
    leadsTo (String.intercalate " " lines) n = some n' := by
  induction lead with
  | nil => rfl
  | @cons _ _ lines _ _ first rest ih =>
    cases lines with
    | nil => cases rest; simpa using first
    | cons next lines =>
      rw [String.intercalate_cons_cons]
      exact (leadsTo_opens (reads_append_opens first rfl rfl)).trans ih

theorem opened_lead (lines : Compile.OpenedLines (Leaves []) n opened) (brackets : List Char) :
    ∃ os, os.length = n ∧ (∀ o ∈ os, Open.ends o = true) ∧
      ∀ outer, LinesLead opened ⟨outer,brackets⟩ ⟨os ++ outer,brackets⟩ := by
  induction lines with
  | none => exact ⟨[],rfl,by simp,fun _ => .nil⟩
  | @loop target iter n rest target_text iter_text _ ih =>
    obtain ⟨os,count,ends,lead⟩ := ih
    refine ⟨os ++ [.body],by simp [count],by simpa [Open.ends,or_imp,forall_and] using ends,fun outer => ?_⟩
    have head : reads .code ⟨outer,brackets⟩ ("for " ++ target ++ " in ").toList = some (.code,⟨.head :: outer,brackets⟩) :=
      reads_append_opens ((leadsTo_opens rfl).trans (target_text (.head :: outer) brackets)) rfl rfl
    rw [List.append_assoc]
    exact .cons ((leadsTo_between head iter_text rfl).trans rfl) (lead (.body :: outer))
  | @test filter n rest filter_text _ ih =>
    obtain ⟨os,count,ends,lead⟩ := ih
    refine ⟨os ++ [.branch],by simp [count],by simpa [Open.ends,or_imp,forall_and] using ends,fun outer => ?_⟩
    rw [List.append_assoc]
    exact .cons ((leadsTo_between (v := ⟨.test :: outer,brackets⟩) rfl filter_text rfl).trans rfl)
      (lead (.branch :: outer))

theorem ends_lead (ends : ∀ o ∈ os, Open.ends o = true) (outer : List Open) (brackets : List Char) :
    leadsTo (Compile.ends os.length) ⟨os ++ outer,brackets⟩ = some ⟨outer,brackets⟩ := by
  refine LinesLead.joined ?_
  induction os with
  | nil => exact .nil
  | cons o os ih =>
    have first : leadsTo "end" ⟨o :: (os ++ outer),brackets⟩ = some ⟨os ++ outer,brackets⟩ := by
      have last := ends o (by simp)
      cases o with
      | branch | otherwise | body | function => rfl
      | test | head | repetition => cases last
    exact .cons first (ih fun o member => ends o (by simp [member]))

/-- What the stored element leaves open is what the whole comprehension leaves open. -/
theorem comprehension_leaves (form : Compile.ComprehensionForm (Leaves rest) (Leaves []) lines)
    (fits : rest = [] ∨ rest = ['(']) : Leaves rest (String.intercalate " " lines) := by
  intro outer brackets
  obtain ⟨first,known,opened,n,stored,open_lines,stored_text,rfl⟩ := form
  obtain ⟨os,rfl,ends,lead⟩ := opened_lead open_lines ('(' :: brackets)
  have start : leadsTo first ⟨.function :: outer,'(' :: brackets⟩ = some ⟨.function :: outer,'(' :: brackets⟩ := by
    simp only [List.mem_cons,List.not_mem_nil,or_false] at known
    rcases known with rfl | rfl <;> rfl
  have last : leadsTo "end)()" ⟨.function :: outer,rest ++ '(' :: brackets⟩ = some ⟨outer,rest ++ brackets⟩ := by
    rcases fits with rfl | rfl <;> rfl
  have closing : LinesLead [stored,Compile.ends os.length,"return result","end)()"]
      ⟨os ++ .function :: outer,'(' :: brackets⟩ ⟨outer,rest ++ brackets⟩ :=
    .cons (stored_text _ _) (.cons (ends_lead ends _ _) (.cons rfl (.cons last .nil)))
  exact LinesLead.joined (.cons rfl (.cons start ((lead _).append closing)))

/-! ## Stored elements -/

/-- The part of a text stands between two pieces that open and close these brackets. -/
theorem Leaves.between (part : Leaves [] text) (more : List Char)
    (first : ∀ opened brackets, reads .code ⟨opened,brackets⟩ a.toList = some (.code,⟨opened,more ++ brackets⟩))
    (apart : isApart b = true)
    (last : ∀ opened brackets, leadsTo b ⟨opened,more ++ brackets⟩ = some ⟨opened,rest ++ brackets⟩) :
    Leaves rest (a ++ text ++ b) :=
  fun opened brackets => (leadsTo_between (first opened brackets) part apart).trans (last opened brackets)

theorem dict_stored (key : Leaves [] k) (plain : k.toList.head? ∉ [some '[',some '=']) (value : Leaves [] v) :
    Leaves [] ("result[" ++ k ++ "] = " ++ v) := by
  intro opened brackets
  -- the bracket counts once the next character has been read
  have enters (rest : List Char) (other : rest.head? ∉ [some '[',some '=']) (more : rest ≠ []) :
      reads .code ⟨opened,brackets⟩ ("result[".toList ++ rest) = reads .code ⟨opened,'[' :: brackets⟩ rest := by
    obtain ⟨c,rest,rfl⟩ := List.exists_cons_of_ne_nil more
    have start : reads .code ⟨opened,brackets⟩ "result[".toList = some (.bracket 0,⟨opened,brackets⟩) := rfl
    simp only [List.head?_cons,List.mem_cons,Option.some.injEq,List.not_mem_nil,or_false,not_or] at other
    rw [reads_append,start,Option.bind_some]
    simp [reads,Nesting.next,Nesting.follows,Mode.ended,Mode.pending,Mode.brackets,Mode.next,other,followAll,Nesting.bracket]
  have head : reads .code ⟨opened,brackets⟩ ("result[" ++ k ++ "] = ").toList = some (.code,⟨opened,brackets⟩) := by
    have whole (x y z : String) : (x ++ y ++ z).toList = x.toList ++ (y.toList ++ z.toList) := by simp
    have after : "] = ".toList = [']',' ','=',' '] := rfl
    have other : (k.toList ++ "] = ".toList).head? ∉ [some '[',some '='] := by
      generalize k.toList = cs at plain ⊢
      cases cs with
      | nil => decide
      | cons => exact plain
    rw [whole,enters _ other (by simp [after]),
      reads_settled (key opened ('[' :: brackets)) rfl]
    rfl
  exact (leadsTo_opens head).trans (value opened brackets)

end Luau

/-! ## Comprehensions -/

namespace Compile

open Luau (Leaves)

variable {config : Option Config} {ns : List Node}

/-- Whatever text the node is given on one line closes all that it opens. -/
def Encloses (config : Option Config) (n : Node) : Prop :=
  ∀ s text t, Gives (inline (visit config n)) s text t → Leaves [] text

/-- A clause whose parts close what they open. -/
def EnclosedClause (config : Option Config) (c : Node) : Prop :=
  ∃ target iter filters isAsync, c = .clause target iter filters isAsync ∧
    ∀ n ∈ target :: iter :: filters, Encloses config n

def FramesKept (s t : State) : Prop := t.frames = s.frames

instance : Calm FramesKept where
  refl _ := rfl
  trans first second := second.trans first
  frames same := same
  aside _ _ _ := rfl
  need _ _ := rfl

theorem tells_of_gives {P : String → Prop} (texts : ∀ s text t, Gives (inline (visit config n)) s text t → P text) :
    Tells FramesKept (fun _ => True) P (inline (visit config n)) := by
  refine ⟨fun s text t _ run => ⟨?_,?_,texts s text t run⟩⟩
  · exact (((inline_built (visit_built config n)).follows stackLaw).kept run).frames
  · obtain ⟨u,lines,_,_,_,rfl⟩ := gives_inline.mp run
    rfl

theorem enclosedClauses_tell (clauses : ∀ c ∈ ns, EnclosedClause config c) :
    ∀ c ∈ ns.map (clauseWith (visit config)), c.Tells FramesKept (fun _ => True) (Leaves []) := by
  refine List.forall_mem_map.mpr fun c member => ?_
  obtain ⟨target,iter,filters,_,rfl,parts⟩ := clauses c member
  refine ⟨?_,?_,?_⟩
  · rintro _ ⟨⟩
    exact tells_of_gives (parts target (by simp))
  · rintro _ ⟨⟩
    exact tells_of_gives (parts iter (by simp))
  · rintro _ ⟨⟩
    exact List.forall_mem_map.mpr fun filter inside => tells_of_gives (parts filter (by simp [inside]))

theorem comprehension_texts (known : first ∈ ["local result = \x7b\x7d","local result = dict \x7b\x7d"])
    (starts : Says FramesKept (fun _ => True) (fun lines => lines = [first]) start)
    (clauses : ∀ c ∈ ns, EnclosedClause config c) (fits : rest = [] ∨ rest = ['('])
    (stores : Tells FramesKept (fun _ => True) (Leaves rest) store)
    (run : Gives (inline (comprehension start (ns.map (clauseWith (visit config))) store)) s text t) :
    Leaves rest text :=
  ((comprehension_writes known starts (enclosedClauses_tell clauses) stores).inline
    fun _ form => Luau.comprehension_leaves form fits).run s text t trivial run |>.2.2

/-- If the parts of a comprehension close whatever they open, so do comprehensions of sets and
generators, and those of dictionaries unless the key makes a long bracket of the one in front of it.
In that of a list every block ends, but one bracket is left open. -/
theorem comprehension_nesting (clauses : ∀ c ∈ ns, EnclosedClause config c) :
    (∀ elt, Encloses config elt → Encloses config (.setComp elt ns) ∧ Encloses config (.generatorExp elt ns) ∧
      ∀ s text t, Gives (inline (visit config (.listComp elt ns))) s text t → Leaves ['('] text) ∧
    ∀ key value, Encloses config key → Encloses config value →
      (∀ s text t, Gives (inline (visit config key)) s text t → text.toList.head? ∉ [some '[',some '=']) →
      Encloses config (.dictComp key value ns) := by
  refine ⟨fun elt enclosed => ?_,fun key value first second plain s text t run => ?_⟩
  · have element := tells_of_gives enclosed
    refine ⟨fun s text t run => ?_,fun s text t run => ?_,fun s text t run => ?_⟩ <;> rw [visit_eq_visitWith] at run
    · exact comprehension_texts (by simp) startTable_writes clauses (.inl rfl)
        (.bind element fun _ part => .pure (part.between ['('] (fun _ _ => rfl) rfl fun _ _ => rfl)) run
    · exact comprehension_texts (by simp) startTable_writes clauses (.inl rfl)
        (.bind element fun _ part => .pure (part.between ['('] (fun _ _ => rfl) rfl fun _ _ => rfl)) run
    · exact comprehension_texts (by simp) startTable_writes clauses (.inr rfl)
        (.bind element fun _ part => .pure (part.between ['\x7b','('] (fun _ _ => rfl) rfl fun _ _ => rfl)) run
  · rw [visit_eq_visitWith] at run
    have keyed := tells_of_gives fun s text t run => And.intro (first s text t run) (plain s text t run)
    exact comprehension_texts (by simp) startDict_writes clauses (.inl rfl) (.bind keyed fun _ holds =>
      .bind (tells_of_gives second) fun _ value => .pure (Luau.dict_stored holds.1 holds.2 value)) run

theorem name_encloses {id : String} (whole : Leaves [] id) : Encloses config (.name (some id) access) := by
  rintro s text t ⟨⟩
  exact whole

/-- The elements of `y` that count as true. -/
theorem filteredSet_encloses : Encloses none (.setComp (.name (some "x") .absent)
    [.clause (.name (some "x") .absent) (.name (some "y") .absent) [.name (some "x") .absent] none]) := by
  have named (id : String) (whole : Leaves [] id) : Encloses none (.name (some id) .absent) := name_encloses whole
  have x := named "x" fun _ _ => rfl
  refine ((comprehension_nesting ?_).1 _ x).1
  simpa using ⟨_,_,_,_,rfl,by simpa using ⟨x,named "y" fun _ _ => rfl,x⟩⟩

/-- The bracket of the call that stores an element of a list is not closed. -/
theorem listComprehension_unclosed :
    let text := "(function() local result = \x7b\x7d for x in y do table.insert(result._data,\x7bx\x7d end " ++
      "return result end)()"
    (inline (visit none (.listComp (.name (some "x") .absent)
      [.clause (.name (some "x") .absent) (.name (some "y") .absent) [] none])) (.initial .empty)).1 = .ok text ∧
    Luau.leadsTo text ⟨[],[]⟩ = some ⟨[],['(']⟩ ∧ ¬Leaves [] text := by
  intro text
  have left : Luau.leadsTo text ⟨[],[]⟩ = some ⟨[],['(']⟩ := by decide +kernel
  exact ⟨congrArg Prod.fst (gives_of_toOption (by decide +kernel)),left,fun whole => absurd ((whole [] []).symm.trans left) (by decide)⟩

end Compile

end LuauCompiler
