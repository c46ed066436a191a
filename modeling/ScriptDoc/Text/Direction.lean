import ScriptDoc.Text.Basic

/-! The direction in which characters are written, by Unicode 3.2, the version that host names are
bound to. Most marks and digits have no direction of their own. -/
namespace ScriptDoc.Text

end ScriptDoc.Text
