/-!
# Log settings

Which records are logged, and where to.
-/

namespace HostBridge

structure LogSettings where
  /-- What is let through, such as `info`. -/
  level : String
  /-- Where log files are written; nothing is written without one. -/
  directory : Option String
  deriving DecidableEq, Repr

def LogSettings.standard : LogSettings := ⟨"info", none⟩

end HostBridge
