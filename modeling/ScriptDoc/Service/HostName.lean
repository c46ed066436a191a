import ScriptDoc.Text.Direction
import ScriptDoc.Text.Basic
import ScriptDoc.Text.Lowercase
import ScriptDoc.Text.Punycode

/-! Names of hosts in ASCII. A name is made of labels with dots between them. A label with other
characters is brought into a plain form, in which some characters are left out and others refused,
and then written in ASCII behind a mark. No label may be longer than 63 characters. -/
namespace ScriptDoc.Service.HostName

end ScriptDoc.Service.HostName
