import LangCore.Heap.Basic

/-!
# Values as text for users

Numbers are written plainly, strings by their contents. Arrays and handles to
nothing leave no text.
-/

namespace LangCore.Heap

def render (heap : Heap) : Value → String
  | .nil => "nil"
  | .bool b => if b then "true" else "false"
  | .int n => toString n.toInt
  | .float x => x.plainText
  | .object handle => ((heap.get? handle).map Object.text).getD ""

end LangCore.Heap
