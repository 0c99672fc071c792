/-!
# Letter case

The store folds ASCII letters only. Words that a request may write in any case (a direction, a truth value)
are compared by their capitals; the two letters outside ASCII whose capital is a single ASCII letter count too.
-/

namespace Sift.Text

/-- The small form of an ASCII capital; any other character is left alone. -/
def asciiLower (c : Char) : Char :=
  if 'A' ≤ c && c ≤ 'Z' then Char.ofNat (c.toNat + 32) else c

/-- The capital of a small ASCII letter; any other character is left alone. -/
def asciiUpper (c : Char) : Char :=
  if 'a' ≤ c && c ≤ 'z' then Char.ofNat (c.toNat - 32) else c

/-- The capital of a letter whose capital is one ASCII letter; any other character is left alone. -/
def capital (c : Char) : Char :=
  if 'a' ≤ c && c ≤ 'z' then Char.ofNat (c.toNat - 32)
  else if c.toNat = 0x17F then 'S'
  else if c.toNat = 0x131 then 'I'
  else c

end Sift.Text
