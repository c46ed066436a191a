import ScriptDoc.Proofs.Json.Layouts
import ScriptDoc.Proofs.Options.Acceptance
import ScriptDoc.Proofs.Resolution.Faults
import ScriptDoc.Proofs.Resolution.Files
import ScriptDoc.Service

/-! The route for posted sources. What it answers is told by the posted value alone: whether it asks
for files in the right way, whether its options can be used, and whether all files have tokens. -/
namespace ScriptDoc

namespace Text

end Text

namespace Resolution

section Posted

variable {files : List (Text × Text)} (hNames : (files.map Prod.fst).Nodup)

include hNames

end Posted

end Resolution

namespace Service

/-- The value asks for the documentation of files, and has an object for options or none. -/
structure Asks (value : Json) (files : List (Text × Text)) (options : List (Text × Json)) :
    Prop where
  filled : files ≠ []
  posted : value.get? "files" = some (.obj (files.map fun file => (file.1, .str file.2)))
  chosen : value.get? "options" = some (.obj options) ∨
    value.get? "options" = none ∧ options = []

/-- The names of posted files are different. -/
theorem Asks.nodup {value : Json} {files : List (Text × Text)} {options : List (Text × Json)}
    (h : Asks value files options) (hOnce : value.NamesOnce) : (files.map Prod.fst).Nodup := by
  cases hOnce with
  | obj _ hFields =>
      have hPosted := hFields _ (Text.mem_of_lookup h.posted)
      cases hPosted with
      | obj hNames _ => simpa [Function.comp_def] using hNames
  | null | bool | num | str | arr => cases h.posted

open Resolution

end Service
end ScriptDoc
