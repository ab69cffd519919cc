import LuauCompiler.Proofs.Luau

/-! How texts are read that are put together from fixed pieces and from texts about which little is
known. What counts about a text is how the reader goes through it, from one spot to another, and what
its words do to the open constructs. -/
namespace LuauCompiler.Luau

theorem followAll_append (opened : List Open) (xs ys : List String) :
    followAll opened (xs ++ ys) = (followAll opened xs).bind (followAll · ys) := by
  induction xs generalizing opened with
  | nil => rfl
  | cons x xs ih =>
    simp only [List.cons_append,followAll,Option.bind_assoc]
    congr 1
    funext next
    exact ih next

/-! ## Reading on -/

/-- The reader is between tokens or may be at the end of a word. -/
def Mode.settled : Mode → Bool
  | .code | .word _ => true
  | _ => false

/-- What may follow a comma. A bracket or an equality sign would become part of a long bracket where
the comma gives way to a pair of brackets. -/
def opens (c : Char) : Bool := c != '[' && c != '=' && c != ','

/-- Where the reader is. -/
structure Point where
  mode : Mode
  /-- The last character was a comma. -/
  comma : Bool
  /-- All commas so far separate tokens and are followed by what may follow one. -/
  sound : Bool
  deriving DecidableEq

namespace Point

def next (x : Point) (c : Char) : Point where
  mode := x.mode.next c
  comma := c == ','
  sound := x.sound && (c != ',' || x.mode.settled) && (!x.comma || opens c)

def behind (x : Point) (cs : List Char) : Point := cs.foldl next x

@[simp] theorem next_mode (x : Point) (c : Char) : (x.next c).mode = x.mode.next c := rfl

@[simp] theorem behind_nil (x : Point) : x.behind [] = x := rfl

@[simp] theorem behind_cons (x : Point) (c : Char) (cs : List Char) :
    x.behind (c :: cs) = (x.next c).behind cs := rfl

@[simp] theorem behind_append (x : Point) (xs ys : List Char) :
    x.behind (xs ++ ys) = (x.behind xs).behind ys := List.foldl_append

end Point

/-- The words that end inside of a text. -/
def passed : Mode → List Char → List String
  | _, [] => []
  | m, c :: rest => m.ended c ++ passed (m.next c) rest

theorem passed_append (x : Point) (xs ys : List Char) :
    passed x.mode (xs ++ ys) = passed x.mode xs ++ passed (x.behind xs).mode ys := by
  induction xs generalizing x with
  | nil => rfl
  | cons c xs ih => simpa [passed] using ih (x.next c)

theorem wordsFrom_append (x : Point) (xs ys : List Char) :
    wordsFrom x.mode (xs ++ ys) = passed x.mode xs ++ wordsFrom (x.behind xs).mode ys := by
  induction xs generalizing x with
  | nil => rfl
  | cons c xs ih => simpa [passed,wordsFrom] using ih (x.next c)

/-- What is known of a point. -/
inductive Spot where
  | known (mode : Mode) (comma : Bool)
  /-- Behind some token. -/
  | token

namespace Spot

def Holds : Spot → Point → Prop
  | .known mode comma, x => x = ⟨mode,comma,true⟩
  | .token, x => x.mode.settled = true ∧ x.comma = false ∧ x.sound = true

/-- The word at the point that is not counted yet. -/
def carried : Spot → Mode → List String
  | .known .., _ => []
  | .token, m => m.pending

def start : Spot := .known .code false

/-- Where an expression may start. -/
def entries : List Spot := [start,.known .code true,.known (.bracket 0) false]

end Spot

/-- From any point at the first spot the text leads to the second, and its words have the same effect
as the given ones. -/
structure Passes (p : Spot) (text : String) (ws : List String) (q : Spot) : Prop where
  run : ∀ x, p.Holds x → q.Holds (x.behind text.toList) ∧
    ∀ opened, followAll opened (passed x.mode text.toList ++ q.carried (x.behind text.toList).mode) =
      (followAll opened (p.carried x.mode)).bind (followAll · ws)

namespace Passes

theorem nil (p : Spot) : Passes p "" [] p := by
  refine ⟨fun x at_start => ⟨at_start,fun opened => ?_⟩⟩
  simp [passed,followAll]

theorem append (first : Passes p a ws q) (second : Passes q b ws' r) : Passes p (a ++ b) (ws ++ ws') r := by
  refine ⟨fun x at_start => ?_⟩
  obtain ⟨middle,words⟩ := first.run x at_start
  obtain ⟨last,words'⟩ := second.run _ middle
  refine ⟨by simpa using last,fun opened => ?_⟩
  calc followAll opened (passed x.mode (a ++ b).toList ++ r.carried (x.behind (a ++ b).toList).mode)
      = (followAll opened (passed x.mode a.toList)).bind (followAll · (passed
          (x.behind a.toList).mode b.toList ++
          r.carried ((x.behind a.toList).behind b.toList).mode)) := by
        simp [passed_append,← followAll_append]
    _ = (followAll opened (passed x.mode a.toList ++ q.carried (x.behind a.toList).mode)).bind
          (followAll · ws') := by
        simp only [words',followAll_append,Option.bind_assoc]
    _ = (followAll opened (p.carried x.mode)).bind (followAll · (ws ++ ws')) := by
        simp only [words,followAll_append,Option.bind_assoc]

theorem congr (passes : Passes p a ws q)
    (same : ∀ opened, followAll opened ws = followAll opened ws') : Passes p a ws' q :=
  ⟨fun x at_start => ⟨(passes.run x at_start).1,fun opened => by
    rw [(passes.run x at_start).2,funext same]⟩⟩

theorem settle (passes : Passes p a ws (.known m false)) (settled : m.settled = true) :
    Passes p a (ws ++ m.pending) .token := by
  refine ⟨fun x at_start => ?_⟩
  obtain ⟨last,words⟩ := passes.run x at_start
  simp only [Spot.Holds] at last
  refine ⟨by simp [Spot.Holds,last,settled],fun opened => ?_⟩
  simp only [Spot.carried,List.append_nil] at words
  simp only [Spot.carried,last,followAll_append,words,Option.bind_assoc]

end Passes

variable {p q : Spot} {ws : List String}

/-! ## Texts about which little is known -/

/-- One word that opens and closes nothing. -/
structure Word (text : String) : Prop where
  nonempty : text.toList ≠ []
  letters : ∀ c ∈ text.toList, isWordChar c = true
  harmless : ∀ opened, follow opened text = some opened

/-- A row of whole tokens that opens and closes nothing. -/
def Smooth (text : String) : Prop := Passes .start text [] .token

/-- The same for a text that can stand wherever an expression can. -/
def Neat (text : String) : Prop := ∀ p ∈ Spot.entries, Passes p text [] .token

theorem Neat.smooth (neat : Neat text) : Smooth text := neat .start (by simp [Spot.entries])

theorem Neat.nonempty (neat : Neat text) : text ≠ "" := by
  rintro rfl
  obtain ⟨⟨settled,_⟩,_⟩ := (neat (.known (.bracket 0) false) (by simp [Spot.entries])).run _ rfl
  cases settled

/-- Characters that mean nothing inside of quotes and comments. -/
def isInert (c : Char) : Bool := isWordChar c || c == ' '

def Inert (text : String) : Prop := ∀ c ∈ text.toList, isInert c = true

/-- Inert texts mean nothing in this mode. -/
def Mode.ignores : Mode → Bool
  | .quoted mark => !isInert mark
  | .comment | .long _ => true
  | _ => false

/-! ## Pieces -/

inductive Piece where
  | fixed (text : String)
  | word (text : String)
  | phrase (text : String)
  | row (text : String)
  | inert (text : String)

namespace Piece

def text : Piece → String
  | .fixed text | .word text | .phrase text | .row text | .inert text => text

@[simp] def Holds : Piece → Prop
  | .fixed _ => True
  | .word text => Word text
  | .phrase text => Neat text
  | .row text => Smooth text
  | .inert text => Inert text

/-- A known text from a known point. -/
def fixedRoute (mode : Mode) (comma : Bool) (text : String) : Option (List String × Spot) :=
  let x := Point.behind ⟨mode,comma,true⟩ text.toList
  if x.sound then some (passed mode text.toList,.known x.mode x.comma) else none

/-- Where a piece leads and what its known words are, if it fits. -/
def route : Spot → Piece → Option (List String × Spot)
  | .known mode comma, .fixed text => fixedRoute mode comma text
  | .token, .fixed text =>
    if text.toList.head?.any (!isWordChar ·) then fixedRoute .code false text else none
  | .known mode _, .word _ =>
    if mode = .code ∨ mode = .bracket 0 ∨ mode = .dash then some ([],.token) else none
  | .known mode comma, .phrase _ =>
    if mode = .code ∨ (mode = .bracket 0 ∧ comma = false) then some ([],.token) else none
  | .known mode comma, .row _ => if mode = .code ∧ comma = false then some ([],.token) else none
  | .known mode comma, .inert _ =>
    if mode.ignores && !comma then some ([],.known mode false) else none
  | .token, _ => none

end Piece

/-! ## What the characters of each kind of piece do -/

@[simp] theorem Mode.code_next (c : Char) : Mode.code.next c = Mode.start c := rfl

@[simp] theorem Mode.code_settled : Mode.code.settled = true := rfl

@[simp] theorem Mode.word_settled (letters : List Char) : (Mode.word letters).settled = true := rfl

theorem Mode.next_of_settled {m : Mode} {c : Char} (settled : m.settled = true)
    (separates : isWordChar c = false) : m.next c = Mode.start c := by
  cases m <;> simp_all [Mode.settled,Mode.next]

theorem settled_passes (cs : List Char) (at_token : Spot.token.Holds x) (separates : isWordChar c = false) :
    x.behind (c :: cs) = Point.behind ⟨.code,false,true⟩ (c :: cs) ∧
      passed x.mode (c :: cs) = x.mode.pending ++ passed .code (c :: cs) := by
  obtain ⟨settled,comma,sound⟩ := at_token
  have next : x.mode.next c = Mode.start c := Mode.next_of_settled settled separates
  have point : x.next c = Point.next ⟨.code,false,true⟩ c := by
    simp [Point.next,next,settled,comma,sound]
  constructor
  · simp [point]
  · simp [passed,Mode.ended,separates,next,Mode.pending]

theorem word_behind {x : Point} {letters cs : List Char} (inside : x = ⟨.word letters,false,true⟩)
    (all : ∀ c ∈ cs, isWordChar c = true) :
    x.behind cs = ⟨.word (letters ++ cs),false,true⟩ ∧ passed x.mode cs = [] := by
  induction cs generalizing x letters with
  | nil => simp [inside,passed]
  | cons c cs ih =>
    have letter : isWordChar c = true := all c (by simp)
    have noComma : c ≠ ',' := by rintro rfl; exact absurd letter (by decide)
    have step : x.next c = ⟨.word (letters ++ [c]),false,true⟩ := by
      simp [Point.next,inside,Mode.next,letter,noComma]
    obtain ⟨last,none⟩ := ih step fun d member => all d (by simp [member])
    refine ⟨by simpa using last,?_⟩
    rw [step] at none
    simp [passed,Mode.ended,inside,Mode.next,letter,none]

theorem letters_pass {text : String} {comma : Bool} (nonempty : text.toList ≠ [])
    (letters : ∀ c ∈ text.toList, isWordChar c = true) (fits : mode = .code ∨ mode = .bracket 0 ∨ mode = .dash) :
    Passes (.known mode comma) text [text] .token := by
  refine ⟨fun x at_start => ?_⟩
  obtain ⟨c,cs,same⟩ := List.exists_cons_of_ne_nil nonempty
  rw [same] at letters ⊢
  have letter : isWordChar c = true := letters c (by simp)
  have other (d : Char) (sign : isWordChar d = false) : c ≠ d := by
    rintro rfl
    simp [letter] at sign
  have step : x.next c = ⟨.word [c],false,true⟩ := by
    have mode_next : mode.next c = .word [c] := by
      rcases fits with rfl | rfl | rfl <;>
        simp [Mode.next,Mode.start,letter,other '-' rfl,other '[' rfl,other '=' rfl]
    simp [Point.next,show x = _ from at_start,mode_next,opens,other ',' rfl,other '[' rfl,other '=' rfl]
  obtain ⟨last,none⟩ := word_behind step fun d (member : d ∈ cs) => letters d (by simp [member])
  refine ⟨by simp [Spot.Holds,last],fun opened => ?_⟩
  have ending : ((x.next c).behind cs).mode.pending = [text] := by
    rw [last,Mode.pending,List.singleton_append,← same,String.ofList_toList]
  have inside : passed x.mode (c :: cs) = [] := by
    rw [passed,← Point.next_mode,none]
    simp [Mode.ended,letter]
  simp [Spot.carried,inside,ending,followAll]

theorem Word.passes {text : String} (word : Word text) {comma : Bool}
    (fits : mode = .code ∨ mode = .bracket 0 ∨ mode = .dash) : Passes (.known mode comma) text [] .token :=
  (letters_pass word.nonempty word.letters fits).congr fun opened => by simp [followAll,word.harmless]

theorem inert_behind (ignores : m.ignores = true) (all : ∀ c ∈ cs, isInert c = true) :
    Point.behind ⟨m,false,true⟩ cs = ⟨m,false,true⟩ ∧ passed m cs = [] := by
  induction cs with
  | nil => simp [passed]
  | cons c cs ih =>
    have inert : isInert c = true := all c (by simp)
    have other (d : Char) (active : isInert d = false) : c ≠ d := by
      rintro rfl
      simp [inert] at active
    obtain ⟨stays,nothing⟩ : m.next c = m ∧ m.pending = [] := by
      cases m with
      | quoted mark =>
        have mark_other : c ≠ mark := by
          intro same
          rw [← same] at ignores
          exact absurd inert ((Bool.not_eq_true' _).mp ignores ▸ Bool.false_ne_true)
        exact ⟨by simp [Mode.next,mark_other,other '\\' rfl],rfl⟩
      | comment => exact ⟨by simp [Mode.next,other '\n' rfl],rfl⟩
      | long => exact ⟨by simp [Mode.next,other ']' rfl],rfl⟩
      | code | word | dash | dashes | commentBracket | bracket | closing | escaped => cases ignores
    obtain ⟨last,none⟩ := ih fun d member => all d (by simp [member])
    have step : Point.next ⟨m,false,true⟩ c = ⟨m,false,true⟩ := by
      simp [Point.next,stays,other ',' rfl]
    constructor
    · rw [Point.behind_cons,step,last]
    · simp [passed,stays,none,Mode.ended,nothing]

theorem fixed_passes (route : Piece.fixedRoute mode comma text = some (ws,q)) :
    Passes (.known mode comma) text ws q := by
  simp only [Piece.fixedRoute] at route
  split at route
  · rename_i sound
    cases route
    refine ⟨fun x at_start => ?_⟩
    cases at_start
    refine ⟨?_,fun opened => by simp [Spot.carried,followAll]⟩
    simp only [Spot.Holds]
    exact congrArg (Point.mk _ _) sound
  · cases route

theorem Piece.passes {piece : Piece} (holds : piece.Holds) (fits : piece.route p = some (ws,q)) :
    Passes p piece.text ws q := by
  cases piece with
  | fixed text =>
    cases p with
    | known mode comma => exact fixed_passes fits
    | token =>
      simp only [route] at fits
      split at fits
      · rename_i separated
        obtain ⟨c,cs,same,separates⟩ : ∃ c cs, text.toList = c :: cs ∧ isWordChar c = false := by
          cases same : text.toList with
          | nil => simp [same] at separated
          | cons c cs => exact ⟨c,cs,rfl,by simpa [same] using separated⟩
        have known := fixed_passes fits
        refine ⟨fun x at_start => ?_⟩
        obtain ⟨last,words⟩ := known.run _ rfl
        obtain ⟨point,before⟩ := settled_passes cs at_start separates
        rw [Piece.text,same] at *
        rw [point,before]
        refine ⟨last,fun opened => ?_⟩
        rw [List.append_assoc,followAll_append,Spot.carried]
        congr 1
        funext middle
        simpa [Spot.carried,followAll] using words middle
      · cases fits
  | word text =>
    cases p with
    | known mode comma =>
      simp only [route] at fits
      split at fits
      · cases fits
        exact holds.passes ‹_›
      · cases fits
    | token => cases fits
  | phrase text =>
    cases p with
    | known mode comma =>
      simp only [route] at fits
      split at fits
      · rename_i entry
        cases fits
        refine holds _ ?_
        rcases entry with rfl | ⟨rfl,rfl⟩
        · cases comma <;> simp [Spot.entries,Spot.start]
        · simp [Spot.entries]
      · cases fits
    | token => cases fits
  | row text =>
    cases p with
    | known mode comma =>
      simp only [route] at fits
      split at fits
      · rename_i entry
        obtain ⟨rfl,rfl⟩ := entry
        cases fits
        exact holds
      · cases fits
    | token => cases fits
  | inert text =>
    cases p with
    | known mode comma =>
      simp only [route] at fits
      split at fits
      · rename_i entry
        cases fits
        obtain ⟨ignores,rfl⟩ : mode.ignores = true ∧ comma = false := by simpa using entry
        obtain ⟨last,none⟩ := inert_behind ignores holds
        refine ⟨fun x at_start => ?_⟩
        cases at_start
        exact ⟨last,fun opened => by simp [Spot.carried,followAll,Piece.text,none]⟩
      · cases fits
    | token => cases fits

/-! ## Texts made of pieces -/

def render : List Piece → String
  | [] => ""
  | first :: rest => rest.foldl (fun text piece => text ++ piece.text) first.text

/-- Where the pieces lead and what their known words are, if they fit. -/
def routes : Spot → List Piece → Option (List String × Spot)
  | p, [] => some ([],p)
  | p, piece :: rest => (piece.route p).bind fun (ws,q) =>
      (routes q rest).map fun (ws',r) => (ws ++ ws',r)

theorem routes_cons (route : routes p (piece :: rest) = some (ws,r)) : ∃ first q others,
      piece.route p = some (first,q) ∧ routes q rest = some (others,r) ∧ ws = first ++ others := by
  obtain ⟨⟨first,q⟩,here,later⟩ := Option.bind_eq_some_iff.mp route
  obtain ⟨⟨others,last⟩,there,same⟩ := Option.map_eq_some_iff.mp later
  cases same
  exact ⟨first,q,others,here,there,rfl⟩

theorem Passes.extend {ps : List Piece} (passes : Passes p text ws q)
    (holds : ∀ piece ∈ ps, piece.Holds) (route : routes q ps = some (ws',r)) :
    Passes p (ps.foldl (fun text piece => text ++ piece.text) text) (ws ++ ws') r := by
  induction ps generalizing q text ws ws' with
  | nil =>
    cases route
    simpa using passes
  | cons piece rest ih =>
    obtain ⟨first,q',others,here,there,rfl⟩ := routes_cons route
    have step := passes.append (Piece.passes (holds piece (by simp)) here)
    simpa using ih step (fun other member => holds other (by simp [member])) there

theorem render_passes (ps : List Piece) (holds : ∀ piece ∈ ps, piece.Holds)
    (route : routes p ps = some (ws,q)) : Passes p (render ps) ws q := by
  cases ps with
  | nil =>
    cases route
    exact .nil p
  | cons piece rest =>
    obtain ⟨first,q',others,here,there,rfl⟩ := routes_cons route
    exact (Piece.passes (holds piece (by simp)) here).extend
      (fun other member => holds other (by simp [member])) there

/-- The known words of pieces that end with a token. -/
def settledWords (p : Spot) (ps : List Piece) : Option (List String) :=
  match routes p ps with
  | some (ws,.token) => some ws
  | some (ws,.known m false) => if m.settled then some (ws ++ m.pending) else none
  | _ => none

theorem settled_render (ps : List Piece) (holds : ∀ piece ∈ ps, piece.Holds)
    (route : settledWords p ps = some ws) : Passes p (render ps) ws .token := by
  unfold settledWords at route
  split at route
  · cases route
    exact render_passes _ holds ‹_›
  · split at route
    · cases route
      exact (render_passes _ holds ‹_›).settle ‹_›
    · cases route
  · cases route

theorem render_neutral (spots : List Spot) (ps : List Piece) (holds : ∀ piece ∈ ps, piece.Holds)
    (route : spots.map (settledWords · ps) = spots.map fun _ => some ws)
    (neutral : ∀ opened, followAll opened ws = some opened) :
    ∀ p ∈ spots, Passes p (render ps) [] .token := by
  intro p entry
  exact (settled_render ps holds (List.map_inj_left.mp route p entry)).congr neutral

theorem neat_render (ps : List Piece) (holds : ∀ piece ∈ ps, piece.Holds)
    (route : Spot.entries.map (settledWords · ps) = Spot.entries.map fun _ => some ws)
    (neutral : ∀ opened, followAll opened ws = some opened) : Neat (render ps) :=
  render_neutral Spot.entries ps holds route neutral

theorem smooth_render (ps : List Piece) (holds : ∀ piece ∈ ps, piece.Holds)
    (route : settledWords .start ps = some ws) (neutral : ∀ opened, followAll opened ws = some opened) :
    Smooth (render ps) :=
  (settled_render ps holds route).congr neutral

theorem separator_passes (text : String) (route : routes .token [.fixed text] = some (ws,.start))
    (neutral : ∀ opened, followAll opened ws = some opened) : Passes .token text [] .start :=
  (render_passes [.fixed text] (by simp) route).congr neutral

end LuauCompiler.Luau
