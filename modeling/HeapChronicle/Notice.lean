/-!
Notices: the messages that a run leaves beside its results.
-/

namespace HeapChronicle

inductive NoticeLevel where
  | debug
  | warning
  deriving DecidableEq

structure Notice where
  level : NoticeLevel
  text : List Char
  deriving DecidableEq

namespace Notice

def debug (text : List Char) : Notice := ⟨.debug, text⟩

def warning (text : List Char) : Notice := ⟨.warning, text⟩

end Notice
end HeapChronicle
