import ScriptDoc.Text.Basic

/-! Texts as words of ASCII letters, digits and hyphens: the characters of ASCII come first, and
behind a hyphen numbers tell which others stand where. A number is written with small digits first,
in a base that varies from digit to digit and follows the size of the numbers before. -/
namespace ScriptDoc.Text.Punycode

def base : Nat :=
  36

/-- The digit of a value below the base: a letter, or a decimal digit. -/
def digit (n : Nat) : CodePoint :=
  .ofNat (if n < 26 then 'a'.toNat + n else '0'.toNat + (n - 26))

/-- The value at which the digit at a position ends a number; the position goes up in steps of the
base. -/
def threshold (bias position : Nat) : Nat :=
  max 1 (min 26 (position - bias))

def digitsFrom (bias position n : Nat) : Text :=
  let least := threshold bias position
  if n < least then [digit n]
  else
    digit (least + (n - least) % (base - least)) ::
      digitsFrom bias (position + base) ((n - least) / (base - least))
termination_by n
decreasing_by
  have hLeast : 1 ≤ threshold bias position := Nat.le_max_left _ _
  have hLe := Nat.div_le_self (n - threshold bias position) (base - threshold bias position)
  omega

/-- Divides a number until it is small; each division counts as one step of the base. -/
def reduce (n : Nat) : Nat × Nat :=
  if n ≤ 455 then (n, 0)
  else
    let (small, steps) := reduce (n / 35)
    (small, steps + base)
termination_by n
decreasing_by omega

/-- The bias after a number, which was the first one or not, with so many characters in place. -/
def adapt (n count : Nat) (isFirst : Bool) : Nat :=
  let n := if isFirst then n / 700 else n / 2
  let (small, steps) := reduce (n + n / count)
  steps + base * small / (small + 38)

/-- What has been written: the digits, the bias, how many characters are in place, and how many
places have been passed since the last one. -/
structure Progress where
  written : Text := []
  bias : Nat := 72
  count : Nat
  passed : Nat := 0

/-- Passes a character, in the round in which those of number `n` are put in place. -/
def Progress.pass (basic n : Nat) (p : Progress) (c : CodePoint) : Progress :=
  if c.value < n then { p with passed := p.passed + 1 }
  else if c.value = n then
    { written := p.written ++ digitsFrom p.bias base p.passed
      bias := adapt p.passed (p.count + 1) (p.count == basic)
      count := p.count + 1
      passed := 0 }
  else p

end ScriptDoc.Text.Punycode
