import ScriptDoc.Text.Basic

/-! Member paths: dotted names with slashes for dots, in which the step through a prototype is
left out, so that a member of a constructor's instances and a member of the constructor itself
have one path. -/
namespace ScriptDoc.MemberPath

/-- What follows a step through the prototype, if the text begins with one. The step ends at
a dot, which belongs to it, at the end, or before a line feed at the very end; the flag says
whether there was a dot. -/
def prototypeStep? (cs : Text) : Option (Bool × Text) :=
  match Text.dropStart? ".prototype" cs with
  | none => none
  | some (.char '.' :: rest) => some (true, rest)
  | some [] => some (false, [])
  | some [.char '\n'] => some (false, ['\n'])
  | some _ => none

theorem length_of_dropStart? {start cs rest : Text}
    (h : Text.dropStart? start cs = some rest) : cs.length = start.length + rest.length := by
  fun_induction Text.dropStart? start cs with
  | case1 => cases h; simp
  | case2 => cases h
  | case3 start c cs ih => simp [ih h]; omega
  | case4 => cases h

/-- A step to a prototype takes something off the name. -/
theorem prototypeStep?_length_lt {cs rest : Text} {dotted : Bool}
    (h : prototypeStep? cs = some (dotted, rest)) : rest.length < cs.length := by
  unfold prototypeStep? at h
  split at h <;> cases h
  all_goals
    next hDrop =>
      have hLength := length_of_dropStart? hDrop
      rw [hLength]
      simp +arith [Text.ofString, Text.ofChars]

/-- The path of a dotted name. -/
def ofName : Text → Text
  | [] => []
  | c :: rest =>
    match _h : prototypeStep? (c :: rest) with
    | some (true, after) => '/' :: ofName after
    | some (false, after) => ofName after
    | none => (if c = '.' then .char '/' else c) :: ofName rest
termination_by cs => cs.length
decreasing_by
  · exact prototypeStep?_length_lt _h
  · exact prototypeStep?_length_lt _h
  · simp

end ScriptDoc.MemberPath
