import Graft.Print.Style

/-! What can be configured: how large a text may be, how long a preview may be, and the style of new
code. -/

namespace Graft

structure Config where
  maxBytes : Nat := 1024 * 1024
  maxPreviewLines : Nat := 400
  style : Style := {}
  deriving DecidableEq

end Graft
