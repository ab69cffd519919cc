/-! The emitted definition of `class`. -/

namespace LuauCompiler.Snippet

def classes : String :=
  "\n\n" ++ "function class(class_init, bases)
        bases = bases or \x7b\x7d

        local c = \x7b\x7d

        for _, base in ipairs(bases) do
            for k, v in pairs(base) do
                c[k] = v
            end
        end

        c._bases = bases

        c = class_init(c)

        local mt = getmetatable(c) or \x7b\x7d
        mt.__call = function(_, ...)
            local object = \x7b\x7d

            setmetatable(object, \x7b
                __index = function(tbl, idx)
                    local method = c[idx]
                    if typeof(method) == \"function\" then
                        return function(...)
                            return c[idx](object, ...)\x20
                        end
                    end

                    return method
                end,
            \x7d)

            if typeof(object.__init__) == \"function\" then
                object.__init__(...)
            end

     \t    meta = \x7b
\t  \t__add = object.__add__,
    \t\t__sub = object.__sub__,
      \t\t__div = object.__div__,
\t\t__unm = object.__unm,
\t   \x7d


            return setmetatable(object, meta)
        end

        setmetatable(c, mt)

        return c\n    end"

end LuauCompiler.Snippet
