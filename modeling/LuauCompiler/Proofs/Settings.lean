import LuauCompiler.Proofs.Stacks
import LuauCompiler.Proofs.TreeCourse

/-! What the settings of a file do to the compilation of classes. A section of the file takes the place
of the whole section of the defaults, so a class may look for a setting that is no longer there. -/
namespace LuauCompiler

namespace Config

end Config

namespace Compile

variable {config config' : Option Config}

variable {name : Option String} {bases body : List (Compile Unit)}

end Compile

end LuauCompiler
