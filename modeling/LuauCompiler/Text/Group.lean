/-! A group runs from an opening parenthesis to the first closing one after it, whatever lies between. -/

namespace LuauCompiler.Text

/-- The text without its groups. The first argument holds what was read since an opening
parenthesis; it is given back when the text ends before the group does. -/
def dropGroupsFrom : Option (List Char) → List Char → List Char
  | none, [] => []
  | none, '(' :: rest => dropGroupsFrom (some ['(']) rest
  | none, c :: rest => c :: dropGroupsFrom none rest
  | some held, [] => held
  | some _, ')' :: rest => dropGroupsFrom none rest
  | some held, c :: rest => dropGroupsFrom (some (held ++ [c])) rest

def dropGroups (text : String) : String :=
  String.ofList (dropGroupsFrom none text.toList)

def firstGroup? (text : String) : Option String :=
  match text.toList.dropWhile (· != '(') with
  | [] => none
  | _ :: rest =>
    if rest.contains ')' then some (String.ofList (rest.takeWhile (· != ')'))) else none

end LuauCompiler.Text
