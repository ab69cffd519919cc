/-! Words that the emitted language reserves, and names that the emitted program finds defined. -/

namespace LuauCompiler

def reservedWords : List String := [
  "and", "break", "do", "else", "elseif", "end", "for", "function", "if", "in", "local", "not",
  "or", "repeat", "return", "then", "until", "while"]

def libraryNames : List String := [
  "complex", "class", "dict", "__name__", "range", "len", "abs", "str", "int", "sum", "max", "min",
  "reversed", "split", "round", "all", "any", "ord", "chr", "callable", "float", "super", "format",
  "hex", "id", "map", "bool", "divmod", "slice", "anext", "ascii", "dir", "getattr", "globals",
  "hasattr", "isinstance", "issubclass", "iter", "locals", "oct", "pow", "eval", "exec", "filter",
  "frozenset", "aiter", "bin", "deltaattr", "enumerate", "bytearray", "bytes", "compile", "help",
  "memoryview", "repr", "sorted", "vars"]

/-- The errors for which a function can be defined at the head of a program. -/
def errorNames : List String := [
  "ValueError", "TypeError", "AttributeError", "IndexError", "KeyError", "ZeroDivisionError",
  "AssertionError", "NotImplementedError", "RuntimeError", "NameError", "SyntaxError",
  "IndentationError", "TabError", "ImportError", "ModuleNotFoundError", "OSError",
  "FileNotFoundError", "PermissionError", "EOFError", "ConnectionError", "TimeoutError",
  "UnboundLocalError", "RecursionError", "MemoryError", "OverflowError", "FloatingPointError",
  "ArithmeticError", "ReferenceError", "SystemError", "SystemExit", "GeneratorExit",
  "KeyboardInterrupt", "StopIteration", "Exception", "BaseException", "Error"]

end LuauCompiler
