import ContractDrift.Text.Blank

/-!
# Counts in decimal

Lengths, precisions and scales are naturals below a power of two, written in decimal digits with an
optional plus sign; leading zeros are allowed.

* `count?` — the count a text writes, if it is within the limit.
* `render` — its digits.
-/

namespace ContractDrift.Text

/-- The greatest count of 32 bits. -/
def limit32 : Nat := 4294967295

/-- The greatest count of 64 bits. -/
def limit64 : Nat := 18446744073709551615

/-- The natural that digits of a base write; none for an empty text or another character. -/
def natural? (base : Nat) (cs : List Char) : Option Nat :=
  if cs = [] then none
  else
    cs.foldlM (fun n c =>
      let d :=
        if '0' ≤ c ∧ c ≤ '9' then c.toNat - 48
        else if 'a' ≤ c ∧ c ≤ 'z' then c.toNat - 87
        else if 'A' ≤ c ∧ c ≤ 'Z' then c.toNat - 55
        else base
      if d < base then some (base * n + d) else none) 0

/-- The count that a text writes, if it is at most `limit`. -/
def count? (limit : Nat) (cs : List Char) : Option Nat :=
  let digits := match cs with
    | '+' :: rest => rest
    | cs => cs
  (natural? 10 digits).filter (· ≤ limit)

/-- A natural in decimal digits. -/
def digits (n : Nat) : String := String.ofList (Nat.toDigits 10 n)

theorem count?_le {limit n : Nat} {cs : List Char} (h : count? limit cs = some n) : n ≤ limit := by
  simp only [count?] at h
  simpa using (Option.filter_eq_some_iff.1 h).2

end ContractDrift.Text
