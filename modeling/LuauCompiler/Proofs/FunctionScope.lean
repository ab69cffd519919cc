import LuauCompiler.Proofs.Statements

/-! The variables that a name denotes in the code of a function. The locals of the code end with their
blocks. -/
namespace LuauCompiler

open Compile

/-! ## Occurrences of a name -/

/-- The occurrences of a name in some code, in their order and their blocks. -/
inductive Trace where
  | nil
  | use (rest : Trace)
  /-- The occurrence makes a variable, which is in scope up to the end of the block. -/
  | make (rest : Trace)
  | scope (inside rest : Trace)
  deriving DecidableEq, Repr

namespace Trace

variable {current next : Nat}

def append : Trace → Trace → Trace
  | .nil, t => t
  | .use rest, t => .use (rest.append t)
  | .make rest, t => .make (rest.append t)
  | .scope inside rest, t => .scope inside (rest.append t)

instance : Append Trace := ⟨append⟩

def uses : Nat → Trace
  | 0 => .nil
  | n + 1 => .use (uses n)

def resolve (current next : Nat) : Trace → List Nat × Nat
  | .nil => ([],next)
  | .use rest => (current :: (rest.resolve current next).1,(rest.resolve current next).2)
  | .make rest => (next :: (rest.resolve next (next + 1)).1,(rest.resolve next (next + 1)).2)
  | .scope inside rest =>
    let inner := inside.resolve current next
    let outer := rest.resolve current inner.2
    (inner.1 ++ outer.1,outer.2)

def Same (vs : List Nat) : Prop := ∀ v ∈ vs, ∀ w ∈ vs, v = w

/-- All occurrences denote the same variable. -/
def OneVariable (t : Trace) : Prop := Same (t.resolve 0 1).1

def mentions : Trace → Bool
  | .nil => false
  | .use _ | .make _ => true
  | .scope inside rest => inside.mentions || rest.mentions

def makes : Trace → Bool
  | .nil => false
  | .use rest => rest.makes
  | .make _ => true
  | .scope inside rest => inside.makes || rest.makes

/-- The first occurrence makes a variable, and the others are behind it in its block, or in blocks in
there, and make none. -/
def confined : Trace → Bool
  | .nil | .use _ => false
  | .make rest => !rest.makes
  | .scope inside rest =>
    if inside.mentions then inside.confined && !rest.mentions else rest.confined

theorem makes_of_silent {t : Trace} (silent : t.mentions = false) : t.makes = false := by
  induction t with
  | nil => rfl
  | use | make => cases silent
  | scope inside rest first second =>
    obtain ⟨inner,outer⟩ := Bool.or_eq_false_iff.mp silent
    exact Bool.or_eq_false_iff.mpr ⟨first inner,second outer⟩

theorem le_resolve (t : Trace) (current next : Nat) : next ≤ (t.resolve current next).2 := by
  induction t generalizing current next with
  | nil => exact Nat.le_refl next
  | use rest ih => exact ih current next
  | make rest ih => exact Nat.le_of_succ_le (ih next (next + 1))
  | scope inside rest first second => exact Nat.le_trans (first current next) (second current _)

theorem resolve_range (t : Trace) (current next : Nat) : ∀ v ∈ (t.resolve current next).1,
    v = current ∨ next ≤ v ∧ v < (t.resolve current next).2 := by
  induction t generalizing current next with
  | nil => simp [resolve]
  | use rest ih =>
    intro v member
    rcases List.mem_cons.mp member with rfl | later
    · exact .inl rfl
    · exact ih current next v later
  | make rest ih =>
    intro v member
    have bound : next + 1 ≤ (rest.resolve next (next + 1)).2 := rest.le_resolve next (next + 1)
    rcases List.mem_cons.mp member with rfl | later
    · exact .inr ⟨Nat.le_refl _,bound⟩
    · rcases ih next (next + 1) v later with rfl | ⟨low,high⟩
      · exact .inr ⟨Nat.le_refl _,bound⟩
      · exact .inr ⟨Nat.le_of_succ_le low,high⟩
  | scope inside rest first second =>
    intro v member
    have inner := inside.le_resolve current next
    have outer := rest.le_resolve current (inside.resolve current next).2
    rcases List.mem_append.mp member with early | later
    · rcases first current next v early with rfl | ⟨low,high⟩
      · exact .inl rfl
      · exact .inr ⟨low,Nat.lt_of_lt_of_le high outer⟩
    · rcases second current _ v later with rfl | ⟨low,high⟩
      · exact .inl rfl
      · exact .inr ⟨Nat.le_trans inner low,high⟩

theorem resolve_eq_nil_iff (t : Trace) (current next : Nat) :
    (t.resolve current next).1 = [] ↔ t.mentions = false := by
  induction t generalizing current next with
  | nil => simp [resolve,mentions]
  | use | make => simp [resolve,mentions]
  | scope inside rest first second => simp [resolve,mentions,first,second]

theorem resolve_current_iff (t : Trace) (fresh : current < next) :
    (∀ v ∈ (t.resolve current next).1, v = current) ↔ t.makes = false := by
  induction t generalizing current next with
  | nil => simp [resolve,makes]
  | use rest ih => simpa [resolve,makes] using ih fresh
  | make rest ih =>
    have other : next ≠ current := by omega
    simp [resolve,makes,other]
  | scope inside rest first second =>
    have later : current < (inside.resolve current next).2 :=
      Nat.lt_of_lt_of_le fresh (inside.le_resolve current next)
    simp only [resolve,makes,List.mem_append,Bool.or_eq_false_iff,← first fresh,← second later]
    constructor
    · exact fun all => ⟨fun v member => all v (.inl member),fun v member => all v (.inr member)⟩
    · rintro ⟨early,late⟩ v (member | member)
      · exact early v member
      · exact late v member

theorem same_cons_iff (v : Nat) (vs : List Nat) : Same (v :: vs) ↔ ∀ w ∈ vs, w = v := by
  constructor
  · exact fun same w member => same w (List.mem_cons_of_mem v member) v List.mem_cons_self
  · intro all u first w second
    have equal : ∀ w ∈ v :: vs, w = v := List.forall_mem_cons.mpr ⟨rfl,all⟩
    rw [equal u first,equal w second]

theorem same_append_iff (nonempty : vs ≠ []) :
    Same (vs ++ ws) ↔ ∃ u, (∀ v ∈ vs, v = u) ∧ ∀ w ∈ ws, w = u := by
  constructor
  · intro same
    obtain ⟨u,rest,rfl⟩ := List.exists_cons_of_ne_nil nonempty
    have all := (same_cons_iff u (rest ++ ws)).mp same
    exact ⟨u,by simpa using fun v member => all v (List.mem_append_left _ member),
      fun w member => all w (List.mem_append_right _ member)⟩
  · rintro ⟨u,early,late⟩ v first w second
    have equal : ∀ v ∈ vs ++ ws, v = u := List.forall_mem_append.mpr ⟨early,late⟩
    rw [equal v first,equal w second]

theorem same_scope_iff (fresh : current < next) (first : inside.mentions = true)
    (second : rest.mentions = true) :
    Same ((Trace.scope inside rest).resolve current next).1 ↔ inside.makes = false ∧ rest.makes = false := by
  have later : current < (inside.resolve current next).2 :=
    Nat.lt_of_lt_of_le fresh (inside.le_resolve current next)
  have early : (inside.resolve current next).1 ≠ [] := fun none => by
    simp [(inside.resolve_eq_nil_iff current next).mp none] at first
  have late : (rest.resolve current (inside.resolve current next).2).1 ≠ [] := fun none => by
    simp [(rest.resolve_eq_nil_iff current _).mp none] at second
  rw [resolve,same_append_iff early,← inside.resolve_current_iff fresh, ← rest.resolve_current_iff later]
  constructor
  · rintro ⟨u,all,all'⟩
    obtain ⟨v,member⟩ := List.exists_mem_of_ne_nil _ early
    obtain ⟨w,member'⟩ := List.exists_mem_of_ne_nil _ late
    have shared : u = current := by
      have low := inside.resolve_range current next v member
      have high := rest.resolve_range current _ w member'
      have equal := all v member
      have equal' := all' w member'
      omega
    exact ⟨shared ▸ all,shared ▸ all'⟩
  · exact fun ⟨all,all'⟩ => ⟨current,all,all'⟩

theorem same_resolve_iff (t : Trace) (fresh : current < next) :
    Same (t.resolve current next).1 ↔ t.makes = false ∨ t.confined = true := by
  induction t generalizing current next with
  | nil => simp [resolve,makes,Same]
  | use rest => simp [resolve,same_cons_iff,rest.resolve_current_iff fresh,makes,confined]
  | make rest =>
    simp [resolve,same_cons_iff,rest.resolve_current_iff (Nat.lt_succ_self next),makes,confined]
  | scope inside rest first second =>
    have later : current < (inside.resolve current next).2 :=
      Nat.lt_of_lt_of_le fresh (inside.le_resolve current next)
    cases silent : inside.mentions with
    | false =>
      have none : (inside.resolve current next).1 = [] := (inside.resolve_eq_nil_iff _ _).mpr silent
      simp [resolve,none,second later,makes,makes_of_silent silent,confined,silent]
    | true =>
      cases silent' : rest.mentions with
      | false =>
        have none : (rest.resolve current (inside.resolve current next).2).1 = [] :=
          (rest.resolve_eq_nil_iff _ _).mpr silent'
        simp [resolve,none,first fresh,makes,makes_of_silent silent',confined,silent,silent']
      | true =>
        rw [same_scope_iff fresh silent silent']
        simp [makes,confined,silent,silent']

theorem oneVariable_iff (t : Trace) : t.OneVariable ↔ t.makes = false ∨ t.confined = true :=
  t.same_resolve_iff Nat.zero_lt_one

@[simp] theorem nil_append (t : Trace) : Trace.nil ++ t = t := rfl

@[simp] theorem use_append (rest t : Trace) : Trace.use rest ++ t = .use (rest ++ t) := rfl

@[simp] theorem make_append (rest t : Trace) : Trace.make rest ++ t = .make (rest ++ t) := rfl

@[simp] theorem scope_append (inside rest t : Trace) :
    Trace.scope inside rest ++ t = .scope inside (rest ++ t) := rfl

@[simp] theorem append_nil (t : Trace) : t ++ Trace.nil = t := by
  induction t with
  | nil => rfl
  | use rest ih | make rest ih | scope _ rest _ ih => simp [ih]

theorem append_assoc (t u v : Trace) : t ++ u ++ v = t ++ (u ++ v) := by
  induction t with
  | nil => rfl
  | use rest ih | make rest ih | scope _ rest _ ih => simp [ih]

theorem uses_add (m n : Nat) : uses (m + n) = uses m ++ uses n := by
  induction m with
  | zero => simp [uses]
  | succ m ih => rw [Nat.succ_add,uses,ih]; rfl

end Trace

/-! ## The occurrences in a function of the source -/

def restName (rest : Node) : Option String :=
  if rest.isAbsent then none else (paramName rest).toOption.map shownName

section Source

-- The names that the text of an expression takes from outside of it. Nothing depends on which they are.
variable (reads : Node → List String) (x : String)

def assigns : Node → Bool
  | .assign [.name (some name) _] _ _ => name = x
  | _ => false

def usesIn (e : Node) : Trace := .uses ((reads e).count x)

/-- The names in the lines that give defaults to parameters. Names and defaults come last parameter
first, and the lines the other way round. -/
def defaultNames : List String → List Node → List String
  | name :: names,e :: es => defaultNames names es ++ (name :: reads e ++ [name])
  | _,_ => []

mutual

/-- The occurrences of a name in a statement, where expressions read the given names. An assignment
makes a variable unless the name is known. -/
def occurrences (known : Bool) : Node → Trace
  | .assign [.name (some name) _] value _ =>
    usesIn reads x value ++ if name = x then (if known then .use .nil else .make .nil) else .nil
  | .returnStmt value => usesIn reads x value
  | .ifStmt test body orElse =>
    usesIn reads x test ++ .scope (occurrencesAll known body) (occurrencesElse known orElse)
  | .whileStmt test body _ => usesIn reads x test ++ .scope (occurrencesAll known body) .nil
  | .forStmt _ target iter body _ _ =>
    usesIn reads x iter ++ .scope ((if x ∈ reads target then .make .nil else .nil) ++
      occurrencesAll known body) .nil
  | _ => .nil

/-- Behind an assignment to the name it is known, up to the end of the block. -/
def occurrencesAll (known : Bool) : List Node → Trace
  | [] => .nil
  | n :: ns => occurrences known n ++ occurrencesAll (known || assigns x n) ns

/-- A branching statement in an else part goes on with the branches, and hides what is behind it. -/
def occurrencesElse (known : Bool) : List Node → Trace
  | [] => .nil
  | n :: ns =>
    if n.isBranch then occurrences known n
    else .scope (occurrences known n ++ occurrencesAll (known || assigns x n) ns) .nil

end

/-- The parameters get their defaults in front of the body, and the table of the remaining arguments
is made there. -/
def functionOccurrences (known : Bool) (given : List String) (defaults : List Node) (rest : Node)
    (body : List Node) : Trace :=
  .uses ((defaultNames reads given.reverse defaults.reverse).count x) ++
    ((if restName rest = some x then .make .nil else .nil) ++ occurrencesAll reads x known body)

end Source

/-! ## The occurrences in emitted code -/

/-- An entry of emitted code with the names that stand in it. Those that are mentioned denote what is
in scope; the declared one is a new variable for the rest of the block. A block may bind names. -/
inductive Item where
  | line (text : String) (mentioned : List String) (declared : Option String)
  | block (bound : List String) (body : List Item)

namespace Item

mutual

def code : Item → Code
  | .line text _ _ => .line text
  | .block _ body => .block (codes body)

def codes : List Item → List Code
  | [] => []
  | item :: rest => item.code :: codes rest

end

mutual

def traceOf (x : String) : Item → Trace → Trace
  | .line _ mentioned declared, rest =>
    .uses (mentioned.count x) ++ if declared = some x then .make rest else rest
  | .block bound body, rest =>
    .scope ((if x ∈ bound then .make .nil else .nil) ++ trace x body) rest

def trace (x : String) : List Item → Trace
  | [] => .nil
  | item :: rest => item.traceOf x (trace x rest)

end

theorem codes_append (xs ys : List Item) : codes (xs ++ ys) = codes xs ++ codes ys := by
  induction xs with
  | nil => rfl
  | cons item xs ih => simp [codes,ih]

theorem trace_append (x : String) (xs ys : List Item) : trace x (xs ++ ys) = trace x xs ++ trace x ys := by
  induction xs with
  | nil => rfl
  | cons item xs ih =>
    cases item with
    | line text mentioned declared =>
      simp only [List.cons_append,trace,traceOf,ih,Trace.append_assoc]
      split <;> simp
    | block bound body => simp [trace,traceOf,ih]

/-- The items are those of the code, and each name has the given occurrences in them. -/
structure Traced (output : List Code) (items : List Item) (traces : String → Trace) : Prop where
  codes : codes items = output
  trace : ∀ x, trace x items = traces x

namespace Traced

variable {output more : List Code} {items others : List Item} {traces traces' : String → Trace}

theorem congr (traced : Traced output items traces) (same : ∀ x, traces x = traces' x) :
    Traced output items traces' :=
  ⟨traced.codes,fun x => (traced.trace x).trans (same x)⟩

theorem nil : Traced [] [] fun _ => .nil := ⟨rfl,fun _ => rfl⟩

theorem append (first : Traced output items traces) (second : Traced more others traces') :
    Traced (output ++ more) (items ++ others) fun x => traces x ++ traces' x :=
  ⟨by rw [codes_append,first.codes,second.codes], fun x => by rw [trace_append,first.trace,second.trace]⟩

theorem line : Traced [.line text] [.line text mentioned declared] fun x =>
      .uses (mentioned.count x) ++ if declared = some x then .make .nil else .nil :=
  ⟨rfl,fun _ => rfl⟩

theorem block {bound : List String} (inside : Traced output items traces) :
    Traced [.block output] [.block bound items] fun x =>
      .scope ((if x ∈ bound then .make .nil else .nil) ++ traces x) .nil := by
  obtain ⟨rfl,trace⟩ := inside
  exact ⟨rfl,fun x => by simp [Item.trace,traceOf,trace]⟩

end Traced

end Item

/-- The items of a row of statements, where expressions read the given names. -/
inductive Itemised (reads : Node → List String) : Row → List Node → List Item → Prop
  | nil : Itemised reads row [] []
  | cons (first : Itemised reads .statement [n] items) (others : Itemised reads .body ns rest) :
    Itemised reads .body (n :: ns) (items ++ rest)
  | declare : Itemised reads .statement [.assign [.name (some name) access] value typeComment]
      [.line ("local " ++ name ++ " = " ++ text) (reads value) (some name)]
  | assign : Itemised reads .statement [.assign [.name (some name) access] value typeComment]
      [.line (name ++ " = " ++ text) (reads value ++ [name]) none]
  | returnStmt : Itemised reads .statement [.returnStmt value] [.line ("return " ++ text) (reads value) none]
  | branch {body orElse : List Node} (inside : Itemised reads .body body items)
    (others : Itemised reads .otherwise orElse rest) :
    Itemised reads .statement [.ifStmt test body orElse]
      (.line ("if " ++ text ++ " then") (reads test) none :: .block [] items :: rest ++ [.line "end" [] none])
  | elseIf {body orElse dropped : List Node} (inside : Itemised reads .body body items)
    (others : Itemised reads .otherwise orElse rest) :
    Itemised reads .otherwise (.ifStmt test body orElse :: dropped)
      (.line ("elseif " ++ text ++ " then") (reads test) none :: .block [] items :: rest)
  | orElse (inside : Itemised reads .body (n :: ns) items) :
    Itemised reads .otherwise (n :: ns) [.line "else" [] none,.block [] items]
  | whileStmt {body orElse : List Node} (inside : Itemised reads .body body items) :
    Itemised reads .statement [.whileStmt test body orElse]
      [.line ("while " ++ text ++ " do") (reads test) none,.block [] items,.line "end" [] none]
  | forStmt {body orElse : List Node} (inside : Itemised reads .body body items) :
    Itemised reads .statement [.forStmt false target iter body orElse typeComment]
      [.line header (reads iter) none,.block (reads target) items,.line footer [] none]

/-- The items of the lines that give defaults, for names and defaults that come last parameter first. -/
inductive DefaultItems (reads : Node → List String) : List String → List Node → List Item → Prop
  | nil : DefaultItems reads names [] []
  | cons (others : DefaultItems reads names es items) : DefaultItems reads (name :: names) (e :: es)
      (items ++ [.line (defaultLine name text) (name :: reads e ++ [name]) none])

inductive RestItems : Node → List Item → Prop
  | nothing (absent : rest.isAbsent = true) : RestItems rest []
  | table (present : rest.isAbsent = false) (given : paramName rest = .ok name) :
    RestItems rest [.line ("local " ++ shownName name ++ " = \x7b...\x7d") [] (some (shownName name))]

inductive FunctionItems (reads : Node → List String) (given : List String) (defaults : List Node)
    (rest : Node) (body : List Node) : List Item → Prop
  | mk (defaulted : DefaultItems reads given.reverse defaults.reverse leads)
    (collected : RestItems rest table) (inside : Itemised reads .body body items) :
    FunctionItems reads given defaults rest body (leads ++ (table ++ items))

/-- Statements that assign to single names, branch, repeat and return. -/
inductive Flat : Node → Prop
  | assign (word : Text.isWord name = true) (expr : IsExpr value) :
    Flat (.assign [.name (some name) access] value typeComment)
  | returnStmt (expr : IsExpr value) : Flat (.returnStmt value)
  | ifStmt (expr : IsExpr test) (inside : ∀ n ∈ body, Flat n) (others : ∀ n ∈ orElse, Flat n) :
    Flat (.ifStmt test body orElse)
  | whileStmt (expr : IsExpr test) (inside : ∀ n ∈ body, Flat n) : Flat (.whileStmt test body orElse)
  | forStmt (place : IsExpr target) (expr : IsExpr iter) (inside : ∀ n ∈ body, Flat n) :
    Flat (.forStmt false target iter body orElse typeComment)

theorem Flat.stmt (flat : Flat n) : IsStmt n := by
  induction flat with
  | assign _ expr => exact .assign .name expr
  | _ => constructor <;> assumption

namespace Compile

open Item

variable {config : Option Config} {a b : Scene}

def Row.occurrences (reads : Node → List String) (x : String) (known : Bool) : Row → List Node → Trace
  | .otherwise, ns => occurrencesElse reads x known ns
  | _, ns => occurrencesAll reads x known ns

def Row.assigns (x : String) : Row → List Node → Bool
  | .otherwise, _ => false
  | _, ns => ns.any (LuauCompiler.assigns x)

/-- The items of a row have the occurrences that the row has in the source, and a name that is
assigned in its block is known behind it. -/
structure Follow (reads : Node → List String) (row : Row) (ns : List Node) (output : List Code)
    (a b : Scene) (items : List Item) : Prop where
  traced : Traced output items fun x => row.occurrences reads x (a.locals.knows (some x)) ns
  itemised : Itemised reads row ns items
  className : b.className = ""
  knows : ∀ x, b.locals.knows (some x) = (a.locals.knows (some x) || row.assigns x ns)

theorem assign_follow (reads : Node → List String) (word : Text.isWord name = true) (place : a.className = "")
    (written : LineOf config a (.assign [.name (some name) access] value typeComment) text b) :
    ∃ items, Follow reads .statement [.assign [.name (some name) access] value typeComment]
      [.line text] a b items := by
  cases written with
  | assign target_read value_read introduced =>
    rename_i target text keyword _ _
    obtain rfl := name_reads target_read
    have same := value_read.locals.trans target_read.locals
    have outside := value_read.className.trans (target_read.className.trans place)
    have unqualified : qualified a.className target = target := by rw [place]; rfl
    rw [unqualified] at introduced ⊢
    rw [IntroducesIf,if_pos word] at introduced
    obtain ⟨written,place',knows⟩ := introduces_knows introduced
    have after (x : String) : b.locals.knows (some x) = (a.locals.knows (some x) ||
        Row.assigns x .statement [.assign [.name (some target) access] value typeComment]) := by
      rw [Bool.eq_iff_iff,knows x,same,eq_comm,or_comm]
      simp [Row.assigns,LuauCompiler.assigns]
    rw [same] at written
    cases known : a.locals.knows (some target) with
    | true =>
      obtain rfl : keyword = "" := by simpa [known] using written
      refine ⟨_,Traced.line.congr fun x => ?_,.assign,place'.trans outside,after⟩
      rw [List.count_append,Trace.uses_add]
      by_cases named : target = x
      · subst named
        simp [Row.occurrences,occurrencesAll,occurrences,usesIn,known,Trace.uses]
      · simp [Row.occurrences,occurrencesAll,occurrences,usesIn,named,Trace.uses]
    | false =>
      obtain rfl : keyword = "local " := by simpa [known] using written
      refine ⟨_,Traced.line.congr fun x => ?_,.declare,place'.trans outside,after⟩
      by_cases named : target = x
      · subst named
        simp [Row.occurrences,occurrencesAll,occurrences,usesIn,known]
      · simp [Row.occurrences,occurrencesAll,occurrences,usesIn,named]

theorem emits_follow (reads : Node → List String) {output : List Code}
    (emits : Emits config row a ns output b) (flat : ∀ n ∈ ns, Flat n) (place : a.className = "") :
    ∃ items, Follow reads row ns output a b items := by
  induction emits with
  | nil | nothing | noHandlers | noCases =>
    exact ⟨[],Traced.nil.congr fun _ => rfl,.nil,place,fun _ => by simp [Row.assigns]⟩
  | cons _ _ first others =>
    obtain ⟨xs,head⟩ := first (by simpa using flat _ List.mem_cons_self) place
    obtain ⟨ys,tail⟩ := others (fun n member => flat n (by simp [member])) head.className
    refine ⟨xs ++ ys,(head.traced.append tail.traced).congr fun x => ?_,
      .cons head.itemised tail.itemised,tail.className,fun x => ?_⟩
    · rw [head.knows]
      simp [Row.occurrences,occurrencesAll,Row.assigns]
    · rw [tail.knows,head.knows]
      simp [Row.assigns,Bool.or_assoc]
  | line written =>
    cases flat _ List.mem_cons_self with
    | assign word => exact assign_follow reads word place written
    | returnStmt =>
      cases written with
      | returned first_read second_read =>
        have same := second_read.locals.trans first_read.locals
        refine ⟨_,Traced.line.congr fun x => ?_,.returnStmt,?_,fun x => ?_⟩
        · simp [Row.occurrences,occurrencesAll,occurrences,usesIn]
        · exact second_read.className.trans (first_read.className.trans place)
        · simp [same,Row.assigns,LuauCompiler.assigns]
    | ifStmt | whileStmt | forStmt => cases written
  | branch test_read _ _ inside others =>
    cases flat _ List.mem_cons_self with
    | ifStmt _ body orElse =>
      have place' := test_read.className.trans place
      obtain ⟨xs,inner⟩ := inside body place'
      obtain ⟨ys,chain⟩ := others orElse place'
      refine ⟨_,(Traced.line.append (inner.traced.block.append
        (chain.traced.append .line))).congr fun x => ?_,.branch inner.itemised chain.itemised,
        chain.className,fun x => ?_⟩
      · simp [Row.occurrences,occurrencesAll,occurrences,usesIn,test_read.locals,Trace.uses]
      · simp [chain.knows,test_read.locals,Row.assigns,LuauCompiler.assigns]
  | elseIf test_read second_read _ _ inside others =>
    cases flat _ List.mem_cons_self with
    | ifStmt _ body orElse =>
      have same := second_read.locals.trans test_read.locals
      have place' := second_read.className.trans (test_read.className.trans place)
      obtain ⟨xs,inner⟩ := inside body place'
      obtain ⟨ys,chain⟩ := others orElse place'
      refine ⟨_,(Traced.line.append (inner.traced.block.append chain.traced)).congr fun x => ?_,
        .elseIf inner.itemised chain.itemised,chain.className,fun x => ?_⟩
      · simp [Row.occurrences,occurrencesElse,occurrences,Node.isBranch,usesIn,same]
      · simp [chain.knows,same,Row.assigns]
  | orElse noTest _ inside =>
    obtain ⟨xs,inner⟩ := inside flat place
    refine ⟨_,(Traced.line.append inner.traced.block).congr fun x => ?_,.orElse inner.itemised,place,
      fun x => ?_⟩
    · simp [Row.occurrences,occurrencesElse,occurrencesAll,isBranch_of_testOf noTest,Trace.uses]
    · simp [Row.assigns]
  | whileLoop test_read _ inside =>
    cases flat _ List.mem_cons_self with
    | whileStmt _ body =>
      have place' := test_read.className.trans place
      obtain ⟨xs,inner⟩ := inside body place'
      refine ⟨_,(Traced.line.append (inner.traced.block.append .line)).congr fun x => ?_,
        .whileStmt inner.itemised,place',fun x => ?_⟩
      · simp [Row.occurrences,occurrencesAll,occurrences,usesIn,test_read.locals,Trace.uses]
      · simp [test_read.locals,Row.assigns,LuauCompiler.assigns]
  | forLoop target_read iter_read _ _ inside | generatorLoop target_read iter_read _ _ _ inside =>
    cases flat _ List.mem_cons_self with
    | forStmt _ _ body =>
      have same := iter_read.locals.trans target_read.locals
      have place' := iter_read.className.trans (target_read.className.trans place)
      obtain ⟨xs,inner⟩ := inside body place'
      refine ⟨_,(Traced.line.append (inner.traced.block.append .line)).congr fun x => ?_,
        .forStmt inner.itemised,place',fun x => ?_⟩
      · simp [Row.occurrences,occurrencesAll,occurrences,usesIn,same,Trace.uses]
      · simp [same,Row.assigns,LuauCompiler.assigns]
  | pass | global | expression | function | classOf | withItems | tried | matched | handler | case =>
    cases flat _ List.mem_cons_self

theorem defaults_follow (reads : Node → List String) (read : ReadsAll config a es values b)
    (enough : values.length ≤ names.length) :
    ∃ items, Traced ((List.zipWith defaultLine names values).reverse.map .line) items
        (fun x => .uses ((defaultNames reads names es).count x)) ∧
      DefaultItems reads names es items := by
  induction read generalizing names with
  | nil => exact ⟨[],by simpa [defaultNames,Trace.uses] using Traced.nil,.nil⟩
  | @cons e text es texts _ _ _ _ _ ih =>
    cases names with
    | nil => simp at enough
    | cons name names =>
      obtain ⟨items,traced,defaulted⟩ := ih (by simpa using enough)
      refine ⟨items ++ [.line (defaultLine name text) (name :: reads e ++ [name]) none],?_, .cons defaulted⟩
      rw [List.zipWith_cons_cons,List.reverse_cons,List.map_append]
      refine (traced.append .line).congr fun x => ?_
      have joined : (defaultNames reads (name :: names) (e :: es)).count x =
          (defaultNames reads names es).count x + (name :: reads e ++ [name]).count x :=
        List.count_append
      rw [joined,Trace.uses_add]
      simp

theorem rest_follow (given : restLine (if rest.isAbsent then none else some rest) = .ok restText) :
    ∃ items, Traced (restText.toList.map .line) items
        (fun x => if restName rest = some x then .make .nil else .nil) ∧ RestItems rest items := by
  cases absent : rest.isAbsent with
  | true =>
    simp only [absent,if_true] at given
    cases given
    exact ⟨[],by simpa [restName,absent] using Traced.nil,.nothing absent⟩
  | false =>
    simp only [absent,Bool.false_eq_true,if_false] at given
    cases named : paramName rest with
    | error e => simp [restLine,named,bind,Except.bind] at given
    | ok name =>
      obtain rfl : some ("local " ++ shownName name ++ " = \x7b...\x7d") = restText := by
        simpa [restLine,named,bind,Except.bind,pure,Except.pure] using given
      refine ⟨_,Traced.line.congr fun x => ?_,.table absent named⟩
      simp [restName,absent,named,Except.toOption,Trace.uses]

/-- The occurrences of a name in the block of a function denote one variable if and only if the source
makes no variable of that name, or its first occurrence makes one and all the others are behind it in
its block. A variable is made by an assignment to a name that is not known, by a loop for its target
and for the table of the remaining arguments. The parameters are not known. -/
theorem function_variables (reads : Node → List String) {name : Option String}
    {posOnly regular kwOnly kwDefaults : List Node} {rest kwRest returns : Node}
    {defaults body decorators : List Node} {typeComment : Option String} {s t : State}
    {before : List Code} (exprs : ∀ e ∈ defaults, IsExpr e) (markers : ∀ e ∈ decorators, IsExpr e)
    (flat : ∀ n ∈ body, Flat n) (out : s.output = .block before)
    (run : visit config (.functionDef false name
      (.params posOnly regular rest kwOnly kwDefaults kwRest defaults) body decorators returns
      typeComment) s = (.ok (),t)) :
    ∃ given header items after, regular.mapM paramName = .ok (given.map some) ∧
      t.output = .block (before ++ .line header :: .block (codes items) :: after) ∧
      FunctionItems reads given defaults rest body items ∧
      ∀ x, (trace x items).OneVariable ↔
        (functionOccurrences reads x (t.locals.knows (some x)) given defaults rest body).makes = false ∨
        (functionOccurrences reads x (t.locals.knows (some x)) given defaults rest body).confined = true := by
  have stmts : ∀ n ∈ body, IsStmt n := fun n member => (flat n member).stmt
  obtain ⟨code,added,emits⟩ := statement_emits (Sentence.functionDef exprs markers stmts) s before t out run
  generalize scene : t.scene = f at emits
  cases emits with
  | line written => cases written
  | function params rest_given decorators_read introduced inside defaults_read again enough =>
    rename_i restText markers' name keyword code values connected given _ c d e
    have known : t.locals = c.locals := by
      have last : t.scene.locals = c.locals := by rw [scene,again.locals,defaults_read.locals]; rfl
      exact last
    have short : values.length ≤ given.reverse.length := by simpa using enough
    obtain ⟨leads,leads_traced,defaulted⟩ := defaults_follow reads defaults_read short
    obtain ⟨table,table_traced,collected⟩ := rest_follow rest_given
    obtain ⟨items,follow⟩ := emits_follow reads inside flat rfl
    have traced := leads_traced.append (table_traced.append follow.traced)
    have block : codes (leads ++ (table ++ items)) = (leadLines given values restText).map .line ++ code := by
      rw [traced.codes]
      simp [leadLines]
    rw [← block,List.cons_append,List.cons_append] at added
    refine ⟨given,_,leads ++ (table ++ items),_,params,added,
      .mk defaulted collected follow.itemised,fun x => ?_⟩
    have same : ({ c.inner with className := "" } : Scene).locals.knows (some x) =
        t.locals.knows (some x) := by rw [known]; exact c.knows_inner _
    rw [Trace.oneVariable_iff,traced.trace,same]
    rfl

def soleName : Node → List String
  | .name (some id) _ => [id]
  | _ => []

def branchAssignment : List Node := [.ifStmt (.name (some "c") .absent)
      [.assign [.name (some "x") .absent] (.constant (.int 1) none) none] [],
    .returnStmt (.name (some "x") .absent)]

def branchFunction : Node := .functionDef false (some "f")
    (.params [] [.param (some "c") .absent none,.param (some "x") .absent none] .absent [] [] .absent [])
    branchAssignment [] .absent none

theorem branchAssignment_flat : ∀ n ∈ branchAssignment, Flat n := by
  refine List.forall_mem_cons.mpr ⟨.ifStmt .name ?_ (by simp),?_⟩
  · exact List.forall_mem_singleton.mpr (.assign (by decide) .constant)
  · exact List.forall_mem_singleton.mpr (.returnStmt .name)

theorem branchFunction_runs : (visit none branchFunction (State.initial .empty)).1.isOk = true := by
  decide +kernel

theorem branchFunction_variables : ∃ t header items after,
    visit none branchFunction (State.initial .empty) = (.ok (),t) ∧
    t.output = .block (.line header :: .block (codes items) :: after) ∧
    FunctionItems soleName ["c","x"] [] .absent branchAssignment items ∧
    (trace "c" items).OneVariable ∧ ¬(trace "x" items).OneVariable := by
  have declared : (visit none branchFunction (State.initial .empty)).2.locals = ⟨[[some "f"]]⟩ := by
    decide +kernel
  obtain ⟨t,run⟩ : ∃ t, visit none branchFunction (State.initial .empty) = (.ok (),t) :=
    ⟨_,gives_of_isOk branchFunction_runs⟩
  rw [run] at declared
  have unknown (x : String) (other : x ≠ "f") : t.locals.knows (some x) = false := by
    rw [show t.locals = ⟨[[some "f"]]⟩ from declared]
    simpa [SymbolStack.knows] using other
  obtain ⟨given,header,items,after,params,out,itemised,iff⟩ :=
    function_variables soleName (by simp) (by simp) branchAssignment_flat
      (rfl : (State.initial .empty).output = .block []) run
  have names : given.map some = ["c","x"].map some := Except.ok.inj params.symm
  obtain rfl : given = ["c","x"] := (List.map_inj_right fun _ _ => Option.some.inj).mp names
  refine ⟨t,header,items,after,run,out,itemised,(iff "c").mpr ?_,fun same => ?_⟩
  · rw [unknown "c" (by decide)]
    decide
  · have cases := (iff "x").mp same
    rw [unknown "x" (by decide)] at cases
    revert cases
    decide

/-- The branch makes a variable of its own for the parameter, which is not the one that is read. -/
theorem branchFunction_splits :
    let items : List Item := [.line "if c then" ["c"] none,
      .block [] [.line "local x = 1" [] (some "x")],.line "end" [] none,.line "return x" ["x"] none]
    (visit none branchFunction (State.initial .empty)).1.isOk = true ∧
    (visit none branchFunction (State.initial .empty)).2.output =
      .block [.line "local  function f(c, x)",.block (codes items),.line "end"] ∧
    FunctionItems soleName ["c","x"] [] .absent branchAssignment items ∧
    ¬(trace "x" items).OneVariable := by
  intro items
  have branch : Itemised soleName .statement (branchAssignment.take 1)
      [.line ("if " ++ "c" ++ " then") ["c"] none,
        .block [] [.line ("local " ++ "x" ++ " = " ++ "1") [] (some "x")],.line "end" [] none] :=
    .branch (.cons .declare .nil) .nil
  have last : Itemised soleName .statement (branchAssignment.drop 1)
      [.line ("return " ++ "x") ["x"] none] := .returnStmt
  have inner : Itemised soleName .body branchAssignment items := .cons branch (.cons last .nil)
  have itemised : FunctionItems soleName ["c","x"] [] .absent branchAssignment ([] ++ ([] ++ items)) :=
    .mk .nil (.nothing rfl) inner
  refine ⟨branchFunction_runs,by decide +kernel,itemised,?_⟩
  rw [Trace.oneVariable_iff]
  decide

end Compile

end LuauCompiler
