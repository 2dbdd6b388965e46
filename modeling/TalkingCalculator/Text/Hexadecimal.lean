namespace TalkingCalculator.Text

def hexValue? (c : Char) : Option Nat :=
  if c.isDigit then some (c.toNat - '0'.toNat)
  else if 'a' ≤ c ∧ c ≤ 'f' then some (c.toNat - 'a'.toNat + 10)
  else if 'A' ≤ c ∧ c ≤ 'F' then some (c.toNat - 'A'.toNat + 10)
  else none

/-- Reads a code point of exactly the given number of hexadecimal digits. -/
def readCode (width : Nat) (cs : List Char) : Option (Char × List Char) :=
  if (cs.take width).length = width then do
    let values ← (cs.take width).mapM hexValue?
    let code := values.foldl (fun n d => 16 * n + d) 0
    if code.isValidChar then some (Char.ofNat code, cs.drop width) else none
  else none

theorem length_lt_of_readCode {width : Nat} {cs rest : List Char} {c : Char}
    (h : readCode (width + 1) cs = some (c, rest)) :
    rest.length < cs.length := by
  unfold readCode at h
  split at h
  · next hw =>
    simp only [Option.bind_eq_bind, Option.bind_eq_some_iff] at h
    obtain ⟨values, _, h⟩ := h
    split at h
    · cases h
      rw [List.length_take] at hw
      rw [List.length_drop]
      omega
    · simp at h
  · simp at h

end TalkingCalculator.Text
