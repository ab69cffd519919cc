import LuauCompiler.Proofs.Stacks
import LuauCompiler.Scope.Layers
import Mathlib.Data.List.Induction

/-! Symbol stacks and layered settings after a history of operations. What they show then is told by
the history alone: by what was done while a level or a layer was open that has not been closed since. -/
namespace LuauCompiler

/-- What an operation does to the levels of a stack. -/
inductive Bracket where
  | opens
  | closes
  | neither
  deriving DecidableEq

/-- The number of levels above a level that had `above` of them; `none` once it is closed. -/
def levelsAbove : (above : Nat) → List Bracket → Option Nat
  | above,[] => some above
  | above,.opens :: rest => levelsAbove (above + 1) rest
  | above,.neither :: rest => levelsAbove above rest
  | 0,.closes :: _ => none
  | above + 1,.closes :: rest => levelsAbove above rest

/-! ## Symbol stacks -/

namespace SymbolStack

variable {α : Type}

inductive Move (α : Type) where
  | add (name : α)
  | push
  | pop

def Move.bracket : Move α → Bracket
  | .add _ => .neither
  | .push => .opens
  | .pop => .closes

def move? (s : SymbolStack α) : Move α → Option (SymbolStack α)
  | .add name => s.add? name
  | .push => some s.push
  | .pop => s.pop?

def moveAll? (s : SymbolStack α) (moves : List (Move α)) : Option (SymbolStack α) := moves.foldlM move? s

/-- None of the moves closes a level that was open before them. -/
def KeepsLevels (moves : List (Move α)) : Prop := levelsAbove 0 (moves.map Move.bracket) ≠ none

/-- Every level that the moves open is closed by them, and no other one is. -/
def Bracketed (moves : List (Move α)) : Prop := levelsAbove 0 (moves.map Move.bracket) = some 0

/-- Moves that stay above some levels leave those alone. -/
theorem moveAll?_above (outer inner : List (List α)) (moves : List (Move α)) (top : List α)
    (stays : levelsAbove inner.length (moves.map Move.bracket) = some above) :
    ∃ top' inner', moveAll? ⟨top :: inner ++ outer⟩ moves = some ⟨top' :: inner' ++ outer⟩ ∧
      inner'.length = above := by
  induction moves generalizing top inner with
  | nil => exact ⟨top,inner,rfl,Option.some.inj stays⟩
  | cons move rest ih =>
    cases move with
    | add name => exact ih inner (top ++ [name]) stays
    | push => exact ih (top :: inner) [] stays
    | pop =>
      cases inner with
      | nil => cases stays
      | cons next inner => exact ih inner next stays

/-- A stretch from a push to the matching pop leaves the stack as it was. -/
theorem moveAll?_bracketed (s : SymbolStack α) (inside : Bracketed moves) :
    s.moveAll? (.push :: moves ++ [.pop]) = some s := by
  obtain ⟨top,inner,run,empty⟩ := moveAll?_above s.levels [] moves [] inside
  obtain rfl := List.length_eq_zero_iff.mp empty
  have whole : s.moveAll? (.push :: moves ++ [.pop]) = (moveAll? ⟨[] :: s.levels⟩ moves).bind pop? := by
    simp [moveAll?,move?,push]
  rw [whole]
  exact congrArg (Option.bind · pop?) run

theorem add_split (move : Move α) (moves : List (Move α)) (name : α) :
    (∃ before after, move :: moves = before ++ .add name :: after ∧ KeepsLevels after) ↔
      (move = .add name ∧ KeepsLevels moves) ∨ ∃ before after, moves = before ++ .add name :: after ∧ KeepsLevels after := by
  simp only [List.cons_eq_append_iff]
  grind

theorem level_cons (top : List α) (outer : List (List α)) (holds : Nat → List α → Prop) :
    (∃ depth level, (top :: outer)[depth]? = some level ∧ holds depth level) ↔
      holds 0 top ∨ ∃ depth level, outer[depth]? = some level ∧ holds (depth + 1) level := by
  rw [← Nat.or_exists_add_one]
  simp

/-- A name is in a level if it was declared while that was the innermost one, or was in the level before. -/
theorem mem_levels_iff (run : moveAll? s moves = some t) (name : α) : (∃ level ∈ t.levels, name ∈ level) ↔
    (∃ before after, moves = before ++ .add name :: after ∧ KeepsLevels after) ∨
      ∃ depth level, s.levels[depth]? = some level ∧ name ∈ level ∧ levelsAbove depth (moves.map Move.bracket) ≠ none := by
  induction moves generalizing s with
  | nil =>
    cases run
    simp only [levelsAbove,List.mem_iff_getElem?,List.map_nil,List.nil_eq,List.append_eq_nil_iff]
    grind
  | cons move moves ih =>
    obtain ⟨u,first,later⟩ : ∃ u, s.move? move = some u ∧ moveAll? u moves = some t := by
      simpa [moveAll?,Option.bind_eq_some_iff] using run
    obtain ⟨levels⟩ := s
    rw [ih later,add_split,or_assoc]
    cases move with
    | add other =>
      cases levels with
      | nil => cases first
      | cons top outer =>
        cases first
        rw [level_cons,level_cons]
        simp only [KeepsLevels,Move.bracket,levelsAbove,List.map_cons]
        grind
    | push =>
      cases first
      rw [push,level_cons]
      simp [Move.bracket,levelsAbove]
    | pop =>
      cases levels with
      | nil => cases first
      | cons top outer =>
        cases first
        rw [level_cons top]
        simp [Move.bracket,levelsAbove]

/-- A name is known exactly if it was declared while a level was innermost that no later move closed, and
a stretch from a push to its matching pop leaves the stack as it was. -/
theorem knows_iff_declared [BEq α] [LawfulBEq α] (moves : List (Move α)) (keeps : KeepsLevels moves) :
    ∃ s, moveAll? new moves = some s ∧ (∀ name, s.knows name = true ↔
        ∃ before after, moves = before ++ .add name :: after ∧ KeepsLevels after) ∧
      ∀ before inside after, moves = before ++ (.push :: inside ++ [.pop]) ++ after → Bracketed inside →
        moveAll? new (before ++ (.push :: inside ++ [.pop])) = moveAll? new before := by
  obtain ⟨above,level⟩ := Option.ne_none_iff_exists'.mp keeps
  obtain ⟨top,inner,run,-⟩ := moveAll?_above [] [] moves ([] : List α) level
  refine ⟨_,run,fun name => ?_,fun before inside after _ bracketed => ?_⟩
  · simpa [knows,new,level_cons] using mem_levels_iff run name
  · rw [moveAll?,List.foldlM_append]
    cases earlier : before.foldlM move? new with
    | none => exact earlier.symm
    | some u => exact (moveAll?_bracketed u bracketed).trans earlier.symm

/-- A name of a closed level is forgotten, one declared before the level was opened is not. -/
theorem closedLevel_names : ∃ s, moveAll? new [.add "a",.push,.add "b",.pop] = some s ∧
    (∀ name, s.knows name = true ↔
      ∃ before after, [.add "a",.push,.add "b",.pop] = before ++ .add name :: after ∧ KeepsLevels after) ∧
    ∀ before inside after, [.add "a",.push,.add "b",.pop] = before ++ (.push :: inside ++ [.pop]) ++ after →
      Bracketed inside → moveAll? new (before ++ (.push :: inside ++ [.pop])) = moveAll? new before :=
  knows_iff_declared _ (by simp [KeepsLevels,Move.bracket,levelsAbove])

end SymbolStack

/-! ## Layers of settings -/

namespace Layers

variable {α : Type} {s t u : Layers α}

inductive Action (α : Type) where
  | push (changes : List (String × Json))
  | pop
  /-- A change of the symbol stack that a setting stands for. -/
  | alter (key : String) (change : SymbolStack α → Option (SymbolStack α))

def Action.bracket : Action α → Bracket
  | .push _ => .opens
  | .pop => .closes
  | .alter .. => .neither

/-- What an action that is refused leaves is what it found. -/
def act (s : Layers α) : Action α → Layers α
  | .push changes => s.push changes
  | .pop => (s.pop.map Prod.snd).toOption.getD s
  | .alter key change => (s.modifyStack key change).toOption.getD s

def actAll (s : Layers α) (actions : List (Action α)) : Layers α := actions.foldl act s

/-- The layers without the innermost ones, as many as can be closed. -/
def under (s : Layers α) (closed : Nat) : Layers α := s.actAll (.replicate closed .pop)

/-- The value that the most recent push gave to the key, of those that mention it and are still open
once so many layers have been closed. The actions come most recent first. -/
def lastGiven (key : String) : (closed : Nat) → List (Action α) → Option Json
  | _,[] => none
  | closed,.alter .. :: earlier => lastGiven key closed earlier
  | closed,.pop :: earlier => lastGiven key (closed + 1) earlier
  | 0,.push changes :: earlier => (changes.reverse.lookup key).or (lastGiven key 0 earlier)
  | closed + 1,.push _ :: earlier => lastGiven key closed earlier

theorem lookup_update (changes : List (String × Json)) (layer : Layer) (key : String) :
    (update changes layer).lookup key = ((changes.reverse.lookup key).map .data).or (layer.lookup key) := by
  induction changes generalizing layer with
  | nil => rfl
  | cons entry rest ih =>
    refine (ih _).trans ?_
    rw [lookup_insertField,List.reverse_cons,List.lookup_append,lookup_cons_ite]
    cases rest.reverse.lookup key <;> grind

theorem layers_alter (s : Layers α) (key : String) (edit : SymbolStack α → Option (SymbolStack α)) :
    (s.act (.alter key edit)).layers = s.layers := by
  change ((s.modifyStack key edit).toOption.getD s).layers = s.layers
  unfold modifyStack
  cases s.stackAt key with
  | error e => rfl
  | ok which =>
    dsimp only
    cases edit (s.stack which) with
    | none => rfl
    | some value => cases which <;> rfl

theorem layers_pop (s : Layers α) : (s.act .pop).layers = s.layers.pop?.getD s.layers := by
  cases popped : s.layers.pop? <;> simp [act,pop,popped,Except.map,Except.toOption]

theorem layers_under (same : s.layers = t.layers) (closed : Nat) :
    (s.under closed).layers = (t.under closed).layers := by
  induction closed generalizing s t with
  | zero => exact same
  | succ closed ih => exact ih (by rw [layers_pop,layers_pop,same])

/-- What the history tells is what a layer shows, also once further layers are closed. -/
theorem lookup_under (initial : Layer) (actions : List (Action α)) (closed : Nat) (key : String) :
    (((ofLayer initial).actAll actions).under closed).last.lookup key =
      ((lastGiven key closed actions.reverse).map .data).or (initial.lookup key) := by
  induction actions using List.reverseRecOn generalizing closed with
  | nil =>
    have bottom : ((ofLayer initial : Layers α).under closed).layers = .single initial := by
      induction closed with
      | zero => rfl
      | succ closed ih => exact ih
    simp [actAll,last,bottom,Frames.single,lastGiven]
  | append_singleton actions action ih =>
    rw [actAll,List.foldl_append,List.reverse_append]
    cases action with
    | push changes =>
      cases closed with
      | zero =>
        have below : (actions.foldl act (ofLayer initial)).layers.top.lookup key = _ := ih 0
        refine (lookup_update changes _ key).trans ?_
        rw [below]
        cases given : changes.reverse.lookup key <;> simp [lastGiven,given]
      | succ closed => exact ih closed
    | pop => exact ih (closed + 1)
    | alter other edit =>
      have same := layers_under (layers_alter ((ofLayer initial).actAll actions) other edit) closed
      exact (congrArg (·.top.lookup key) same).trans (ih closed)

/-- Actions that stay above some layers leave those alone. -/
theorem actAll_above (outer inner : List Layer) (actions : List (Action α)) (s : Layers α) (top : Layer)
    (start : s.layers = ⟨top,inner ++ outer⟩)
    (stays : levelsAbove inner.length (actions.map Action.bracket) = some above) :
    ∃ top' inner', (s.actAll actions).layers = ⟨top',inner' ++ outer⟩ ∧ inner'.length = above := by
  induction actions generalizing s top inner with
  | nil => exact ⟨top,inner,start,Option.some.inj stays⟩
  | cons action rest ih =>
    cases action with
    | push changes =>
      exact ih (top :: inner) (s.push changes) (update changes top) (by simp [push,start,Frames.push]) stays
    | pop =>
      cases inner with
      | nil => cases stays
      | cons next inner => exact ih inner (s.act .pop) next (by simp [layers_pop,start,Frames.pop?]) stays
    | alter key edit =>
      exact ih inner (s.act (.alter key edit)) top ((layers_alter s key edit).trans start) stays

theorem layers_bracketed (s : Layers α) (changes : List (String × Json))
    (inside : levelsAbove 0 (actions.map Action.bracket) = some 0) :
    (s.actAll (.push changes :: actions ++ [.pop])).layers = s.layers := by
  obtain ⟨top,inner,after,empty⟩ := actAll_above (s.layers.top :: s.layers.below) [] actions (s.push changes)
    (update changes s.layers.top) rfl inside
  obtain rfl := List.length_eq_zero_iff.mp empty
  have whole : s.actAll (.push changes :: actions ++ [.pop]) = ((s.push changes).actAll actions).act .pop := by
    simp [actAll,act]
  rw [whole,layers_pop,after]
  rfl

theorem pop_cases (s : Layers α) : s.layers.depth = 1 ∧ s.pop = .error .lastFrame ∧ s.act .pop = s ∨
    1 < s.layers.depth ∧ s.pop = .ok (s.last,s.act .pop) := by
  obtain ⟨⟨top,below⟩,_,_⟩ := s
  cases below with
  | nil => exact .inl ⟨rfl,rfl,rfl⟩
  | cons next rest => exact .inr ⟨by simp [Frames.depth],rfl⟩

theorem stackAt_of_lookup (found : s.last.lookup key = some (.symbols which)) : s.stackAt key = .ok which := by
  simp [stackAt,get,found]

theorem knows_of_add [BEq α] [LawfulBEq α] (found : s.stackAt key = .ok which)
    (added : s.add key name = .ok t) (other : u.stackAt key = .ok which) (shared : u.stack = t.stack) :
    u.knows key name = .ok true := by
  simp only [add,modifyStack,found] at added
  cases value : (s.stack which).add? name with
  | none => simp [value] at added
  | some stack =>
    obtain rfl : s.setStack which stack = t := by simpa [value] using added
    have known : stack.knows name = true := (SymbolStack.knows_add value).mpr (.inl rfl)
    simp only [knows,other,shared]
    cases which <;> exact congrArg Except.ok known

/-- A setting is the value that the most recent push gave to it of those that are still open and mention
it, or else the first one. The last layer cannot be closed. A stretch from a push to its matching pop
leaves the layers as they were. Open layers that took over a symbol stack share it: what is declared
through one of them is known through all. -/
theorem settings_of_history [BEq α] [LawfulBEq α] (initial : Layer) (actions : List (Action α)) :
    let s := (ofLayer initial).actAll actions
    (∀ key, s.get key = (((lastGiven key 0 actions.reverse).map .data).or (initial.lookup key)).elim
      (.error .unknownKey) .ok) ∧
    (s.layers.depth = 1 ∧ s.pop = .error .lastFrame ∧ s.act .pop = s ∨
      1 < s.layers.depth ∧ s.pop = .ok (s.last,s.act .pop)) ∧
    (∀ changes inside, levelsAbove 0 (inside.map Action.bracket) = some 0 →
      (s.actAll (.push changes :: inside ++ [.pop])).layers = s.layers) ∧
    ∀ key which, initial.lookup key = some (.symbols which) →
      ∀ closed, lastGiven key closed actions.reverse = none → (s.under closed).stackAt key = .ok which ∧
        ∀ name t, (s.under closed).add key name = .ok t →
          ∀ fewer, lastGiven key fewer actions.reverse = none →
            ({ t with layers := (s.under fewer).layers } : Layers α).knows key name = .ok true := by
  intro s
  have shows := lookup_under initial actions
  refine ⟨fun key => ?_,s.pop_cases,fun changes inside => s.layers_bracketed changes,?_⟩
  · have top : s.last.lookup key = _ := shows 0 key
    rw [get,top]
    cases ((lastGiven key 0 actions.reverse).map Setting.data).or (initial.lookup key) <;> rfl
  · intro key which first closed untouched
    have shared (n : Nat) (kept : lastGiven key n actions.reverse = none) : (s.under n).last.lookup key =
        some (.symbols which) := by
      rw [shows,kept]
      exact first
    refine ⟨stackAt_of_lookup (shared closed untouched),fun name t added fewer kept => ?_⟩
    exact knows_of_add (stackAt_of_lookup (shared closed untouched)) added
      (stackAt_of_lookup (shared fewer kept)) rfl

/-- A value given by a push that is still open and the locals that it took over. -/
theorem classLayer_settings :
    let s : Layers String := (ofLayer defaultLayer).actAll [.push [("class_name",.str "A")],.push [],.pop]
    s.get "class_name" = .ok (.data (.str "A")) ∧ s.stackAt "locals" = .ok .locals := by
  obtain ⟨settings,-,-,shared⟩ := settings_of_history (α := String) defaultLayer
    [.push [("class_name",.str "A")],.push [],.pop]
  exact ⟨settings _,(shared "locals" .locals rfl 0 rfl).1⟩

end Layers

end LuauCompiler
