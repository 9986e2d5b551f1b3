import CodeAtlas.Json.Decode
import CodeAtlas.Json.Library
import CodeAtlas.Json.Reader
import CodeAtlas.Json.Writer

/-!
# The program's own JSON library
-/

namespace CodeAtlas.Json

instance ownLibrary : Library where
  print := Value.compact
  parse? := parse?
  depthLimit := maxDepth
  fields? := Value.fields?
  optional? := Value.optional?
  orDefault? := Value.orDefault?
  word? := Value.word?

end CodeAtlas.Json
