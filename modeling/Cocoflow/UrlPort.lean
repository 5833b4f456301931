import Mathlib.Data.List.Basic
import Mathlib.Data.List.TakeWhile
import Cocoflow.TcpConnection
import Cocoflow.HttpResponse
import Cocoflow.UrlParse
import Cocoflow.UrlPieces

/-!
The port of a URL. `url_parse` checks the range of the `int` that `atoi` returns, not the
number that the digits write: from 2^32 on the two differ.
-/

namespace Cocoflow.UrlPort

open TcpConnection HttpResponse UrlParse UrlPieces

theorem atoi_digits {digits : List Byte} (numeric : ∀ byte ∈ digits, isDigit byte = true) :
    atoi digits = Int.bmod (min (decimal digits) (2 ^ 63 - 1) : Nat) (2 ^ 32) := by
  unfold atoi
  rw [List.takeWhile_eq_self_iff.mpr numeric]

theorem atoi_exact {digits : List Byte} (numeric : ∀ byte ∈ digits, isDigit byte = true)
    (port : 1 ≤ atoi digits ∧ atoi digits ≤ 65535) (small : decimal digits < 2 ^ 32) :
    atoi digits = decimal digits := by
  have narrow : min (decimal digits) (2 ^ 63 - 1) = decimal digits := by omega
  rw [atoi_digits numeric, narrow, Int.bmod_def] at *
  omega

/-- The returned port is the number in the URL exactly when that number has 32 bits. -/
theorem port_exact_iff (pieces : Pieces) (split : pieces.Split) (parts : Parts)
    (accepted : (urlParse (pieces.text ++ [0])).run = some (.ok parts))
    (present : pieces.authority.portPart ≠ []) :
    ((1 ≤ decimal pieces.authority.portPart ∧ decimal pieces.authority.portPart ≤ 65535) ∧
      parts.port = decimal pieces.authority.portPart) ↔
    decimal pieces.authority.portPart < 2 ^ 32 := by
  have parsed : pieces.outcome = pure parts := (urlParse_split split).symm.trans accepted
  obtain ⟨⟨-, numeric, port⟩, rfl⟩ := outcome_iff.mp parsed
  have returned : pieces.parts.port = atoi pieces.authority.portPart := if_neg present
  rw [returned]
  constructor
  · rintro ⟨⟨-, bounded⟩, -⟩
    omega
  · intro small
    have exact := atoi_exact numeric (port present) small
    have range := port present
    rw [exact] at range ⊢
    exact ⟨by omega, rfl⟩

def localhost (port : String) : Pieces where
  scheme := text "http"
  authority := { host := text "localhost", port := some (text port) }

theorem localhost_split {port : String} (plain : Plain (text port)) : (localhost port).Split where
  scheme := show text "http" ≠ [] by decide
  schemeChars := List.all_eq_true.mp (show (text "http").all isProtocol = true by decide)
  user := show Plain [] by decide
  password := show Plain [] by decide
  host := show Plain (text "localhost") by decide
  port := plain
  path := show Free [question, hash] [] by decide
  query := show Free [hash] [] by decide
  fragment := show Free [] [] by decide

theorem port_exact_iff_8080 : decimal (text "8080") < 2 ^ 32 ∧
    ((1 ≤ decimal (text "8080") ∧ decimal (text "8080") ≤ 65535) ∧
      (localhost "8080").parts.port = decimal (text "8080")) := by
  have small : decimal (text "8080") < 2 ^ 32 := by decide
  have exact := port_exact_iff (localhost "8080") (localhost_split (by decide))
    (localhost "8080").parts (by decide) (by decide)
  exact ⟨small, exact.mpr small⟩

/-- 2^32 + 80 is taken for 80. -/
theorem port_wrapped : ¬∀ (pieces : Pieces) (parts : Parts), pieces.Split →
    (urlParse (pieces.text ++ [0])).run = some (.ok parts) →
    pieces.authority.portPart ≠ [] →
    (1 ≤ decimal pieces.authority.portPart ∧ decimal pieces.authority.portPart ≤ 65535) ∧
      parts.port = decimal pieces.authority.portPart := by
  intro claimed
  have accepted : (urlParse ((localhost "4294967376").text ++ [0])).run =
      some (.ok { protocol := text "http", host := text "localhost", port := 80,
                  path := text "/" }) := by decide
  have exact := claimed (localhost "4294967376") _ (localhost_split (by decide)) accepted
    (by decide)
  exact absurd exact.2 (by decide)

end Cocoflow.UrlPort
