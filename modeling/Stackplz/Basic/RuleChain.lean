import Mathlib.Logic.Basic
import Mathlib.Data.List.Basic

/-!
# First-match rule chains

A filter that tries rules in order and takes the verdict of the first one that matches.
Two sources decide whether a rule matches: what the rule is about (`own`), and entries
that happen to look the same (`stray`). This file says exactly when stray matches change
the verdict.
-/

set_option autoImplicit false

/-- One rule: whether it matches on its own account, whether it matches by mistake, and
the verdict it gives when it matches. -/
structure Rule (β : Type) where
  own : Bool
  stray : Bool
  verdict : β

namespace RuleChain

variable {β : Type}

/-- The verdict of the first rule that `hit` accepts, or `dflt` when there is none. -/
def firstMatch (hit : Rule β → Bool) (dflt : β) : List (Rule β) → β
  | [] => dflt
  | r :: rs => if hit r then r.verdict else firstMatch hit dflt rs

/-- Stray matches mislead the chain: the first rule that matches at all matches by mistake
only, and its verdict is not the one the remaining rules give on their own account. -/
def misled [DecidableEq β] (dflt : β) : List (Rule β) → Bool
  | [] => false
  | r :: rs =>
      if r.own then false
      else if r.stray then decide (r.verdict ≠ firstMatch Rule.own dflt rs)
      else misled dflt rs

/-- **Stray matches are harmless exactly when they do not mislead.** -/
theorem firstMatch_eq_iff [DecidableEq β] (dflt : β) (rs : List (Rule β)) :
    firstMatch (fun r => r.own || r.stray) dflt rs = firstMatch Rule.own dflt rs ↔
      misled dflt rs = false := by
  induction rs with
  | nil => simp [firstMatch, misled]
  | cons r rs ih =>
      cases hown : r.own with
      | true => simp [firstMatch, misled, hown]
      | false =>
          cases hstray : r.stray with
          | true => simp [firstMatch, misled, hown, hstray]
          | false => simpa [firstMatch, misled, hown, hstray] using ih

end RuleChain
