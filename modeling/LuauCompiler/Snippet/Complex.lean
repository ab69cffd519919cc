/-! The emitted definition of complex numbers. -/

namespace LuauCompiler.Snippet

/-- The test of two operands, with a plain number made a pair. -/
def operands : String :=
  "\n\t\tif (type(n1) == \"number\" or type(n2) == \"number\") or (type(n1) == \"table\" and type(n2) == \"table\" and getmetatable(n1) == getmetatable(n2)) then
\t\t\tif type(n1) == \"number\" then
\t\t\t\tn1 = \x7bn1, 0\x7d
\t\t\tend
\t\t\tif type(n2) == \"number\" then
\t\t\t\tn2 = \x7bn2, 0\x7d
\t\t\tend\n\n"

/-- The error for operands that cannot be used. -/
def refusal (operation : String) : String :=
  "\n\t\telse
\t\t\tif type(n1) == type(n2) then
\t\t\t\terror(\"attempt to perform arithmetic (" ++ operation ++ ") on \" .. typeof(n1))
\t\t\telse
\t\t\t\terror(\"attempt to perform arithmetic (" ++ operation ++ ") on \" .. typeof(n1) .. \"and\" .. typeof(n2))
\t\t\tend
\t\tend
\tend,\n"

def complex : String :=
  "\n" ++ "local _cmplxMeta = \x7b
\t__index = function(n, index)
\t\tif index == \"real\" then
\t\t\treturn n[1]\x20
\t\telseif index == \"imag\" then
\t\t\treturn n[2]\x20
\t\telseif index == \"conjugate\" then
\t\t\treturn function() return setmetatable(\x7bn[1], -n[2]\x7d, getmetatable(n)) end
\t\tend
\tend,
\t__newindex = function(n, index, value)
\t\tif type(index) == \"number\" or type(index) == \"string\" then
\t\t\terror(index .. \" cannot be assigned to\")
\t\telse
\t\t\terror(\"invalid argument #2 (number or string expected, got \" .. typeof(index) .. \")\")
\t\tend
\tend,
\t__unm = function(n) -- Negates the number.
\t\treturn setmetatable(\x7b-n[1], -n[2]\x7d, getmetatable(n))
\tend,
\t__add = function(n1, n2) -- Adds two numbers." ++ operands ++
  "\t\t\tlocal t1, t2
\t\t\tif math.abs(n1[1]) == math.huge and math.abs(n2[1]) == math.huge and -n1[1] == n2 then
\t\t\t\tt1 = 0
\t\t\telse
\t\t\t\tt1 = n1[1] + n2[1]
\t\t\tend
\t\t\tif math.abs(n1[2]) == math.huge and math.abs(n2[2]) == math.huge and -n1[2] == n2 then
\t\t\t\tt2 = 0
\t\t\telse
\t\t\t\tt2 = n1[2] + n2[2]
\t\t\tend

\t\t\treturn setmetatable(\x7bt1, t2\x7d, getmetatable(n1) or getmetatable(n2))" ++ refusal "add" ++
  "\t__sub = function(n1, n2) -- Subtracts the first number with the second one." ++ operands ++
  "\t\t\tlocal t1, t2
\t\t\tif math.abs(n1[1]) == math.huge and math.abs(n2[1]) == math.huge and n1[1] == n2[1] then
\t\t\t\tt1 = 0
\t\t\telse
\t\t\t\tt1 = n1[1] - n2[1]
\t\t\tend
\t\t\tif math.abs(n1[2]) == math.huge and math.abs(n2[2]) == math.huge and n1[2] == n2[2] then
\t\t\t\tt2 = 0
\t\t\telse
\t\t\t\tt2 = n1[2] - n2[2]
\t\t\tend

\t\t\treturn setmetatable(\x7bt1, t2\x7d, getmetatable(n1) or getmetatable(n2))" ++ refusal "sub" ++
  "\t__mul = function(n1, n2) -- Multiply two numbers." ++ operands ++
  "\t\t\tlocal t1, t2 = n1[1] * n2[1] - n1[2] * n2[2], n1[1] * n2[2] + n2[1] * n1[2]
\t\t\tif string.find(tostring(t1), \"nan\") and not string.find(tostring(n1[1]), \"nan\") and not string.find(tostring(n1[2]), \"nan\") and not string.find(tostring(n2[1]), \"nan\") and not string.find(tostring(n2[2]), \"nan\") then
\t\t\t\tt1 = 0
\t\t\tend
\t\t\tif string.find(tostring(t2), \"nan\") and not string.find(tostring(n1[1]), \"nan\") and not string.find(tostring(n1[2]), \"nan\") and not string.find(tostring(n2[1]), \"nan\") and not string.find(tostring(n2[2]), \"nan\") then
\t\t\t\tt2 = 0
\t\t\tend

\t\t\treturn setmetatable(\x7bt1, t2\x7d, getmetatable(n1) or getmetatable(n2))" ++ refusal "mul" ++
  "\t__div = function(n1, n2) -- Divides two numbers." ++ operands ++
  "\t\t\tlocal t1, t2
\t\t\tif (n1[1] == 0 and n1[2] == 0 and n2[1] == 0 and n2[2] == 0) or ((math.abs(n1[1]) == math.huge or math.abs(n1[2]) == math.huge) and (math.abs(n2[1]) == math.huge or math.abs(n2[2]) == math.huge)) then
\t\t\t\tt1, t2 = tonumber(\"-nan(ind)\"), tonumber(\"-nan(ind)\")
\t\t\telseif math.abs(n1[1]) == math.huge or math.abs(n1[2]) == math.huge then
\t\t\t\tt1 = (setmetatable(\x7bn1[1], 0\x7d, getmetatable(n1) or getmetatable(n2)) * setmetatable(\x7bn2[1], 0\x7d, getmetatable(n1) or getmetatable(n2)) + setmetatable(\x7bn1[2], 0\x7d, getmetatable(n1) or getmetatable(n2)) * setmetatable(\x7bn2[2], 0\x7d, getmetatable(n1) or getmetatable(n2)))[1] / (n2[1] ^ 2 + n2[2] ^ 2)
\t\t\t\tt2 = (setmetatable(\x7bn1[2], 0\x7d, getmetatable(n1) or getmetatable(n2)) * setmetatable(\x7bn2[1], 0\x7d, getmetatable(n1) or getmetatable(n2)) - setmetatable(\x7bn1[1], 0\x7d, getmetatable(n1) or getmetatable(n2)) * setmetatable(\x7bn2[2], 0\x7d, getmetatable(n1) or getmetatable(n2)))[1] / (n2[1] ^ 2 + n2[2] ^ 2)
\t\t\telseif math.abs(n2[1]) == math.huge or math.abs(n2[2]) == math.huge then
\t\t\t\tt1, t2 = 0, 0
\t\t\telse
\t\t\t\tt1 = (n1[1] * n2[1] + n1[2] * n2[2]) / (n2[1] ^ 2 + n2[2] ^ 2)
\t\t\t\tt2 = (n1[2] * n2[1] - n1[1] * n2[2]) / (n2[1] ^ 2 + n2[2] ^ 2)
\t\t\tend

\t\t\tif tostring(t1) == \"nan\" and (tostring(n1[1]) ~= \"nan\" or tostring(n2[1]) ~= \"nan\") then
\t\t\t\tt1 = 0
\t\t\tend
\t\t\tif tostring(t2) == \"nan\" and (tostring(n1[2]) ~= \"nan\" or tostring(n2[2]) ~= \"nan\") then
\t\t\t\tt2 = 0
\t\t\tend

\t\t\treturn setmetatable(\x7bt1, t2\x7d, getmetatable(n1) or getmetatable(n2))" ++ refusal "div" ++
  "\t__pow = function(n1, n2)
\t\tlocal function __asin(x)
\t\t\treturn 1 / math.sin(x)
\t\tend

\t\tlocal function __acos(x)
\t\t\treturn 1 / math.cos(x)
\t\tend

\t\tlocal function __atan(x)
\t\t\treturn 1 / math.tan(x)
\t\tend
" ++ operands ++
  "\t\t\tlocal z, ex, i
\t\t\tlocal norm = math.sqrt(n1[1] ^ 2 + n1[2] ^ 2)
\t\t\tif norm ~= 0 then
\t\t\t\tz = setmetatable(\x7bmath.log(norm), math.atan2(n1[2], n1[1])\x7d, getmetatable(n1))
\t\t\t\tex = n2 * z
\t\t\t\tnorm = math.exp(ex[1])
\t\t\t\ti = ex[2]
\t\t\telse
\t\t\t\tnorm = 0
\t\t\t\ti = 0
\t\t\tend

\t\t\treturn setmetatable(\x7bnorm * math.cos(i), norm * math.sin(i)\x7d, getmetatable(n1) or getmetatable(n2))" ++ refusal "pow" ++
  "\t__eq = function(n1, n2) -- Tests for equality." ++ operands ++
  "\t\t\treturn (n1[1] == n2[1]) and (n1[2] == n2[2])
\t\telse
\t\t\treturn false
\t\tend
\tend,
\t__tostring = function(n) -- Converts CmplxNumber datatype to a string.
\t\tlocal t1, t2
\t\tif n[1] == 0 and n[2] == 0 then
\t\t\tt1 = \"0\"
\t\telseif n[1] == 0 then
\t\t\tt1 = \"\"
\t\telse
\t\t\tt1 = tostring(n[1])
\t\tend
\t\tif n[2] == 0 then
\t\t\tt2 = \"\"
\t\telseif n[2] == 1 then
\t\t\tif n[1] == 0 then
\t\t\t\tt2 = \"i\"
\t\t\telse
\t\t\t\tt2 = \"+i\"
\t\t\tend\t
\t\telseif n[2] == -1 then
\t\t\tt2 = \"-i\"
\t\telse
\t\t\tif string.find(tostring(n[2]), \"e\") or string.find(tostring(n[2]), \"inf\") or string.find(n[2], \"nan\") then
\t\t\t\tt2 = tostring(n[2]) .. \"*i\"
\t\t\telse
\t\t\t\tt2 = tostring(n[2]) .. \"i\"
\t\t\tend
\t\t\tif n[1] ~= 0 and string.sub(tostring(n[2]), 1, 1) ~= \"-\" then
\t\t\t\tt2 = \"+\" .. t2
\t\t\tend
\t\tend

\t\treturn t1 .. t2
\tend,
\t__type = function(n)
\t\treturn typeof(n)
\tend,
\x7d\n\n" ++
  "local _cmplxFactory = \x7b
\t__call = function(t, re, im)
\t\tre = type(re) == \"number\" and re or 0
\t\tim = type(im) == \"number\" and im or 0
\t\tlocal cmplx = \x7b re, im \x7d
\t\tsetmetatable(cmplx, _cmplxMeta)
\t\treturn cmplx
\tend
\x7d\n\n" ++
  "complex = setmetatable(\x7b\x7d, _cmplxFactory)\n"

end LuauCompiler.Snippet
