import LuauCompiler.Proofs.Scripts

/-! How the fragment of Luau runs. A function is written where it is called, or where it is handed to the
library; so it sees the variables around it, and variables are a list with the innermost first. Tables are
arrays with the positions from one on. The operations of the table library do what its documentation says;
how `sort` goes about it is left open. Numbers are integers. What is outside of the fragment has no result,
and so has what ends in an error. -/
namespace LuauCompiler.Luau.Script

inductive Value where
  | nil
  | bool (b : Bool)
  | number (n : Int)
  | table (ref : Nat)
  deriving DecidableEq

def Value.truthy : Value → Bool
  | .nil | .bool false => false
  | _ => true

structure Memory where
  vars : List (String × Value)
  tables : List (List Value)
  deriving DecidableEq

namespace Memory

/-- A name without a variable is that of nothing. -/
def value (s : Memory) (id : String) : Value := (s.vars.lookup id).getD .nil

def put (s : Memory) (ref : Nat) (xs : List Value) : Memory := { s with tables := s.tables.set ref xs }

/-- New variables with the values; those behind the last value have none. -/
def declare (s : Memory) : List String → List Value → Memory
  | [],_ => s
  | id :: ids,vs => declare { s with vars := (id,vs.head?.getD .nil) :: s.vars } ids vs.tail

theorem put_same {s : Memory} {xs : List Value} (array : s.tables[ref]? = some xs) : s.put ref xs = s := by
  obtain ⟨inside,rfl⟩ := List.getElem?_eq_some_iff.mp array
  rw [put,List.set_getElem_self]

end Memory

def assign (id : String) (v : Value) : List (String × Value) → Option (List (String × Value))
  | [] => none
  | (other,w) :: rest => if other = id then some ((id,v) :: rest) else (assign id v rest).map ((other,w) :: ·)

def item? {α : Type} (xs : List α) (k : Int) : Option α := if 1 ≤ k then xs[(k - 1).toNat]? else none

inductive Routine where
  | insert | remove | find | clear
  deriving DecidableEq

def Routine.name : Routine → String
  | .insert => "insert"
  | .remove => "remove"
  | .find => "find"
  | .clear => "clear"

def Routine.all : List Routine := [.insert,.remove,.find,.clear]

/-- An array has no gaps, so nothing is put behind its end. -/
def perform (r : Routine) (vs : List Value) (s : Memory) : Option (Value × Memory) :=
  match vs with
  | .table ref :: rest => (s.tables[ref]?).bind fun xs =>
    match r,rest with
    | .insert,[v] => if v = .nil then none else some (.nil,s.put ref (xs ++ [v]))
    | .insert,[.number k,v] =>
      if v ≠ .nil ∧ 1 ≤ k ∧ k ≤ xs.length + 1 then some (.nil,s.put ref (xs.insertIdx (k - 1).toNat v)) else none
    | .remove,[.number k] =>
      some ((item? xs k).getD .nil,s.put ref (if 1 ≤ k then xs.eraseIdx (k - 1).toNat else xs))
    | .find,[v] => some (((xs.idxOf? v).map fun i : Nat => Value.number (i + 1)).getD .nil,s)
    | .clear,[] => some (.nil,s.put ref [])
    | _,_ => none
  | _ => none

/-- The comparison is a strict weak order of the items. -/
structure IsOrder (before : Value → Value → Bool) (xs : List Value) : Prop where
  asymm : ∀ a ∈ xs, ∀ b ∈ xs, before a b = true → before b a = false
  connected : ∀ a ∈ xs, ∀ b ∈ xs, ∀ c ∈ xs, before a b = false → before b c = false → before a c = false

/-- A way to sort, as far as it is documented. -/
structure Sorting where
  sort : (Value → Value → Bool) → List Value → List Value
  perm : ∀ before xs, (sort before xs).Perm xs
  ordered : ∀ before xs, IsOrder before xs → (sort before xs).Pairwise fun a b => before b a = false

def Sorting.merge : Sorting where
  sort before xs := (xs.attach.mergeSort fun a b => !before b a).map (·.val)
  perm before xs := by
    have sorted := (List.mergeSort_perm xs.attach fun a b => !before b a).map (·.val)
    rwa [List.attach_map_subtype_val] at sorted
  ordered before xs order := by
    rw [List.pairwise_map]
    have sorted : (xs.attach.mergeSort fun a b => !before b a).Pairwise
        fun (a b : { v // v ∈ xs }) => (!before b a) = true := by
      apply List.pairwise_mergeSort
      · intro a b c ab bc
        simp only [Bool.not_eq_true'] at ab bc ⊢
        exact order.connected c c.2 b b.2 a a.2 bc ab
      · intro a b
        cases forth : before b a with
        | false => rfl
        | true => simp [order.asymm b b.2 a a.2 forth]
    exact sorted.imp fun kept => by simpa using kept

def compare : Comparison → Value → Value → Option Value
  | .equal,a,b => some (.bool (a = b))
  | .greater,.number m,.number n => some (.bool (n < m))
  | .greater,_,_ => none

abbrev Outcome := Option (Option Value × Memory)

/-- The variables are there for this block only. -/
def inScope (ids : List String) (vs : List Value) (block : Memory → Outcome) (s : Memory) : Outcome :=
  (block (s.declare ids vs)).map fun p =>
    (p.1,{ p.2 with vars := p.2.vars.drop (p.2.vars.length - s.vars.length) })

/-- The rounds of a loop from a position on. No round may change a table. -/
def rounds (round : Nat → Value → Memory → Outcome) : Nat → List Value → Memory → Outcome
  | _,[],s => some (none,s)
  | i,v :: rest,s => (round i v s).bind fun p =>
    if p.1.isSome then some p else if p.2.tables = s.tables then rounds round (i + 1) rest p.2 else none

variable (sorting : Sorting)

/-- The items in an order that the answers allow. The questions may change nothing. -/
def sorted (answer : Value → Value → Outcome) (xs : List Value) (s : Memory) : Option (List Value) :=
  if ∀ a ∈ xs, ∀ b ∈ xs, (answer a b).map (·.2) = some s then
    some (sorting.sort (fun a b => (answer a b).any fun p => (p.1.getD .nil).truthy) xs)
  else none

mutual

def eval : Exp → Memory → Option (Value × Memory)
  | .number n,s => some (.number n,s)
  | .name id,s => some (s.value id,s)
  | .index base key,s => do
    let p ← eval base s
    let q ← eval key p.2
    match p.1,q.1 with
    | .table ref,.number k => return ((item? (← q.2.tables[ref]?) k).getD .nil,q.2)
    | _,_ => none
  | .compare op left right,s => do
    let p ← eval left s
    let q ← eval right p.2
    return (← compare op p.1 q.1,q.2)
  | .call (.function params body) args,s => do
    let p ← evalEach args s
    let q ← inScope params p.1 (execute body) p.2
    return (q.1.getD .nil,q.2)
  | .call (.field (.name library) name) args,s =>
    if library = "table" ∧ s.vars.lookup "table" = none then
      if name = "sort" then
        match args with
        | [list,.function params body] => do
          let p ← eval list s
          match p.1 with
          | .table ref =>
            let ys ← sorted sorting (fun a b => inScope params [a,b] (execute body) p.2) (← p.2.tables[ref]?) p.2
            return (.nil,p.2.put ref ys)
          | _ => none
        | _ => none
      else do
        let r ← Routine.all.find? (·.name = name)
        let p ← evalEach args s
        perform r p.1 p.2
    else none
  | _,_ => none

def evalEach : List Exp → Memory → Option (List Value × Memory)
  | [],s => some ([],s)
  | e :: es,s => do
    let p ← eval e s
    let q ← evalEach es p.2
    return (p.1 :: q.1,q.2)

def execute : List Stat → Memory → Outcome
  | [],s => some (none,s)
  | .declare id value :: rest,s => do
    let p ← eval value s
    execute rest (p.2.declare [id] [p.1])
  | .each ids table body :: rest,s => do
    let p ← eval table s
    match p.1 with
    | .table ref =>
      let q ← rounds (fun i v => inScope ids [.number (i + 1),v] (execute body)) 0 (← p.2.tables[ref]?) p.2
      if q.1.isSome then some q else execute rest q.2
    | _ => none
  | .cond test body :: rest,s => do
    let p ← eval test s
    let q ← if p.1.truthy then inScope [] [] (execute body) p.2 else some (none,p.2)
    if q.1.isSome then some q else execute rest q.2
  | .give value :: _,s => do
    let p ← eval value s
    return (some p.1,p.2)
  | .increase id value :: rest,s => do
    let p ← eval value s
    match p.2.value id,p.1 with
    | .number m,.number n => do
      let vars ← assign id (.number (m + n)) p.2.vars
      execute rest { p.2 with vars }
    | _,_ => none
  | .run call :: rest,s => do
    let p ← eval call s
    execute rest p.2

end

theorem inScope_back (own : List (String × Value))
    (run : block (s.declare ids vs) = some (v,⟨own ++ s.vars,tables⟩)) :
    inScope ids vs block s = some (v,⟨s.vars,tables⟩) := by
  rw [inScope,run]
  simp

theorem sorted_unique {sorting : Sorting}
    (answers : ∀ a ∈ xs, ∀ b ∈ xs, answer a b = some (some (.bool (before a b)),s))
    (order : IsOrder before xs)
    (only : ∀ zs : List Value, zs.Perm xs → zs.Pairwise (fun a b => before b a = false) → zs = ys) :
    sorted sorting answer xs s = some ys := by
  have same (a : Value) (left : a ∈ xs) (b : Value) (right : b ∈ xs) :
      ((answer a b).any fun p => (p.1.getD .nil).truthy) = before a b := by
    rw [answers a left b right]
    cases before a b <;> rfl
  have perm := sorting.perm (fun a b => (answer a b).any fun p => (p.1.getD .nil).truthy) xs
  rw [sorted,if_pos fun a left b right => by rw [answers a left b right]; rfl]
  refine congrArg some (only _ perm (List.Pairwise.imp_of_mem ?_ (sorting.ordered _ xs ⟨?_,?_⟩)))
  · intro a b left right kept
    rwa [same b (perm.mem_iff.mp right) a (perm.mem_iff.mp left)] at kept
  · intro a left b right
    rw [same a left b right,same b right a left]
    exact order.asymm a left b right
  · intro a left b mid c right
    rw [same a left b mid,same b mid c right,same a left c right]
    exact order.connected a left b mid c right

def Performs (text : String) (s : Memory) (v : Value) (t : Memory) : Prop :=
  ∃ e, expression? text = some e ∧ eval sorting e s = some (v,t) ∧
    ∀ stat, statement? text = some stat → execute sorting [stat] s = some (none,t)

theorem Performs.unique {sorting : Sorting} (first : Performs sorting text s v t)
    (second : Performs sorting text s v' t') : v = v' ∧ t = t' := by
  obtain ⟨e,read,run,-⟩ := first
  obtain ⟨e',read',run',-⟩ := second
  cases read.symm.trans read'
  cases run.symm.trans run'
  exact ⟨rfl,rfl⟩

end LuauCompiler.Luau.Script
