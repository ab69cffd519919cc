/-! The emitted definition of `dict`. -/

namespace LuauCompiler.Snippet

def dict : String :=
  "\n\n" ++ "function dict(t)
        local result = \x7b\x7d

        result._is_dict = true

        result._data = \x7b\x7d
        for k, v in pairs(t) do
            result._data[k] = v
        end

        local methods = \x7b\x7d

        local key_index = nil

        methods.clear = function()
            result._data = \x7b\x7d
        end

        methods.copy = function()
            return dict(result._data)
        end

        methods.get = function(key, default)
            default = default or nil
            if result._data[key] == nil then
                return default
            end

            return result._data[key]
        end

        methods.items = function()
            return pairs(result._data)
        end

        methods.keys = function()
            return function(self, idx, _)\x20
                if idx == nil and key_index ~= nil then
                    key_index = nil
                end

                key_index, _ = next(result._data, key_index)
                return key_index
            end
        end

        methods.pop = function(key, default)
            default = default or nil
            if result._data[key] ~= nil then
                local value = result._data[key]
                result._data[key] = nil\x20
                return key, value
            end

            return key, default
        end

        methods.popitem = function()
            local key, value = next(result._data)
            if key ~= nil then
                result._data[key] = nil
            end

            return key, value
        end

        methods.setdefault = function(key, default)
            if result._data[key] == nil then
                result._data[key] = default
            end

            return result._data[key]
        end

        methods.update = function(t)
            assert(t._is_dict)

            for k, v in t.items() do
                result._data[k] = v
            end
        end

        methods.values = function()
            return function(self, idx, _)\x20
                if idx == nil and key_index ~= nil then
                    key_index = nil
                end

                local key_index, value = next(result._data, key_index)
                return value
            end
        end

        setmetatable(result, \x7b
            __index = function(self, index)
                if result._data[index] ~= nil then
                    return result._data[index]
                end
                return methods[index]
            end,
            __newindex = function(self, index, value)
                result._data[index] = value
            end,
            __call = function(self, _, idx)
                if idx == nil and key_index ~= nil then
                    key_index = nil
                end

                key_index, _ = next(result._data, key_index)

                return key_index           \x20
            end,
        \x7d)

        return result\n    end"

end LuauCompiler.Snippet
