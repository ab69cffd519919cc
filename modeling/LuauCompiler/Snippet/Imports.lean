/-! The emitted text that finds the runtime library. -/

namespace LuauCompiler.Snippet

def imports : String :=
  "\n\n--> imports\n" ++
  "py = _G.rbxpy or require(game.ReplicatedStorage.Packages.pyruntime)\n" ++
  "if game.ReplicatedStorage:FindFirstChild(\"Packages\") and game.ReplicatedStorage.Packages:FindFirstChild(\"rcclib\") then
    rcc = _G.rcc or require(game.ReplicatedStorage.Packages.rcclib)\n" ++
  "else
    rcc = \x7b \x7d
    setmetatable(rcc, \x7b__index = function(_, index) return function()end end\x7d)\n" ++
  "end\n"

end LuauCompiler.Snippet
