/-!
# Quoted text

A text between double quotes fits on one line: line breaks, quotes, backslashes and
the other control characters are written as escapes.

* `newline_not_mem_quoted`: a quoted text has no line break.
-/

namespace CallGuard

/-- The control characters of seven bits. -/
def isControl (c : Char) : Bool := c.toNat < 32 || c.toNat = 127

/-- A character between quotes. -/
def quotedChar (c : Char) : List Char :=
  if c = '"' then ['\\', '"']
  else if c = '\\' then ['\\', '\\']
  else if c = '\n' then ['\\', 'n']
  else if c = '\r' then ['\\', 'r']
  else if c = '\t' then ['\\', 't']
  else if c.toNat = 0 then ['\\', '0']
  else if isControl c then ['\\', 'u', '\x7b'] ++ Nat.toDigits 16 c.toNat ++ ['\x7d']
  else [c]

/-- **A text between quotes.** -/
def quoted (s : String) : String :=
  String.ofList ('"' :: s.toList.flatMap quotedChar ++ ['"'])

theorem newline_not_mem_digits : ∀ n < 128, '\n' ∉ Nat.toDigits 16 n := by decide

theorem newline_not_mem_quotedChar (c : Char) : '\n' ∉ quotedChar c := by
  unfold quotedChar
  iterate 2 (split; · decide)
  split
  · decide
  · rename_i hn
    iterate 3 (split; · decide)
    split
    · rename_i hc
      have hc : c.toNat < 128 := by
        simp only [isControl, Bool.or_eq_true, decide_eq_true_eq] at hc
        omega
      simp [newline_not_mem_digits _ hc]
    · simpa [eq_comm] using hn

/-- **A quoted text stays on one line.** -/
theorem newline_not_mem_quoted (s : String) : '\n' ∉ (quoted s).toList := by
  simp [quoted, newline_not_mem_quotedChar]

end CallGuard
