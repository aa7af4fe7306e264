import RespStore.Frame.Basic

/-!
# Frames in messages

The form in which an error text quotes a frame: payloads are shown as text, without lengths.
-/

namespace RespStore.Frame

mutual

def display : Frame → String
  | simple s => "+" ++ s
  | error s => "-" ++ s
  | integer n => ":" ++ toString n.toInt
  | bulk payload => "$" ++ Utf8.lossy payload
  | null => "$-1"
  | array items => "*" ++ toString items.length ++ "\r\n" ++ displayAll items

def displayAll : List Frame → String
  | [] => ""
  | item :: items => display item ++ "\r\n" ++ displayAll items

end

end RespStore.Frame
