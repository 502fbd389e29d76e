import ModuleCache.Proofs.Loading.Reach
import ModuleCache.Proofs.Maps.Loads
import ModuleCache.Proofs.Trace.Coordinates
import ModuleCache.Proofs.Transpiler.Compiling

/-!
The way back for frames in the code of artifacts. The map that came with an artifact was
put under the names of the artifact and its source before it was written. Read again, it is
the same map, and the one name in it leads from the file of the frame to that file. So what
the mappings say decides, and nothing else that the transpiler put into its map does.
-/

namespace ModuleCache

namespace Trace

end Trace

namespace Trace

end Trace

/-- A map for the second line of the generated code, under names of its own. -/
def foreignMap : SourceMap where
  file := some "out.js"
  sourceRoot := some "/elsewhere"
  sources := ["in.coffee", "other.coffee"]
  sourcesContent := none
  names := []
  mappings := ";AAEA"

end ModuleCache
