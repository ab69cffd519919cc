/-! The emitted definitions behind generator functions and the loops over them. -/

namespace LuauCompiler.Snippet

def generator : String :=
  "\n\n" ++ "local __PY_GENERATORS = \x7b\x7d\n" ++
  "function yieldGenerator(name, value)
    if not __PY_GENERATORS[name] then
        error(\"[roblox-py]: Attempt to yield a generator that is not being iterated over.\")
    end
    table.insert(__PY_GENERATORS[name], value)\n" ++
  "end\n" ++
  "function generatorLoop(name, func, ...)
    local args = \x7b...\x7d
    if not __PY_GENERATORS[name] then
        __PY_GENERATORS[name] = \x7b\x7d
    end
    return function(loopFunc)
        local DONE = false
\t\tlocal currentSize = 0
\t\ttask.spawn(function()
\t\t\tfunc(unpack(args))
\t\tend)
\t\twhile  task.wait() do
\t\t\tif #__PY_GENERATORS[name] > currentSize then
\t\t\t\tfor i = currentSize + 1, #__PY_GENERATORS[name] do
\t\t\t\t\tif __PY_GENERATORS[name][i] == \"__END\" then break end
\t\t\t\t\t
\t\t\t\t\tloopFunc(__PY_GENERATORS[name][i])
\t\t\t\tend
\t\t\t\tcurrentSize = #__PY_GENERATORS[name]
\t\t\tend
\t\tend
    end\n" ++
  "end\n"

end LuauCompiler.Snippet
