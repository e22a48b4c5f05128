import KeyLight.World.Basic

/-!
# Texts of values

Every value has a text. That of an object tells its type and what it stands for, so that of a handle
fails when the handle does.
-/

namespace KeyLight.World

/-- The text of an object. -/
def objectText (w : World) : Object → Except CallError String
  | .color c => .ok c.text
  | .fade f => .ok f.text
  | .thread h => .ok ("Thread#" ++ toString h.id ++ " (" ++ w.stateName h ++ ")")
  | .suspension _ => .ok ObjectType.suspension.name
  | .board h => do .ok ("KeyDatabase(" ++ toString (← w.board h).size ++ " keys)")
  | .group h => do .ok ("KeyGroup(" ++ (← w.group h).name ++ ")")
  | .key h => do .ok ("Key(" ++ (← w.key h).name ++ ")")
  | .target h => do .ok ("RenderTarget(" ++ toString (← w.readTarget h).size ++ " keys)")

/-- The text of a value. A table or function is named by its place. -/
def text (w : World) : Value → Except CallError Bytes
  | .nil => .ok (Utf8.encode "nil")
  | .bool b => .ok (Utf8.encode (if b then "true" else "false"))
  | .int n => .ok (Utf8.encode (toString n.toInt))
  | .float x => .ok (Utf8.encode (Value.floatText x))
  | .text bytes => .ok bytes
  | .table id => .ok (Utf8.encode ("table: " ++ toString id))
  | .closure id => .ok (Utf8.encode ("function: " ++ toString id))
  | .builtin _ => .ok (Utf8.encode "function: builtin")
  | .object id =>
    match w.heap.objects[id]? with
    | some o => do .ok (Utf8.encode (← w.objectText o))
    | none => .ok (Utf8.encode "userdata")

end KeyLight.World
