import Mathlib.Data.List.TakeWhile
import SpotRelay.Library.JsonString
import SpotRelay.Model.BithumbMessages

/-!
# Values behind a marker

What `extract_quoted_value` takes for the value of a string: the text up to its next quote.

* **the search** is the library's (`findAfter_eq_after`), and the value depends on what it finds
  only (`extractQuotedValue_congr`).
* **three outcomes**: a value, nothing where the marker is missing, and nothing where no quote
  closes the value (`extractQuotedValue_of_found`, `extractQuotedValue_of_none`,
  `extractQuotedValue_of_open`).
-/

set_option autoImplicit false

namespace SpotRelay.Analysis

open SpotRelay.Library.MarkerSearch SpotRelay.Library.JsonString
open SpotRelay.Model

/-- The source's search is the library's. -/
theorem findAfter_eq_after (marker message : List Char) :
    findAfter marker message = after marker message := by
  induction message with
  | nil => rfl
  | cons c message ih => rw [findAfter, after, ih]

/-- A value is the text up to the next quote. -/
theorem extractQuotedValue_of_found {source marker value rest : List Char}
    (h : findAfter marker source = some (value ++ '"' :: rest)) (hvalue : '"' ∉ value) :
    extractQuotedValue source marker = some (value, '"' :: rest) := by
  have hplain : ∀ c ∈ value, decide (c ≠ '"') = true := fun c hc =>
    decide_eq_true fun heq => hvalue (heq ▸ hc)
  have htake : (value ++ '"' :: rest).takeWhile (· ≠ '"') = value := by
    rw [List.takeWhile_append_of_pos hplain, List.takeWhile_cons_of_neg (by decide),
      List.append_nil]
  have hdrop : (value ++ '"' :: rest).dropWhile (· ≠ '"') = '"' :: rest := by
    rw [List.dropWhile_append_of_pos hplain, List.dropWhile_cons_of_neg (by decide)]
  rw [extractQuotedValue, h]
  simp only [htake, hdrop]

/-- No value begins where the marker is not found. -/
theorem extractQuotedValue_of_none {source marker : List Char}
    (h : findAfter marker source = none) : extractQuotedValue source marker = none := by
  rw [extractQuotedValue, h]

/-- A value without a closing quote is none. -/
theorem extractQuotedValue_of_open {source marker value : List Char}
    (h : findAfter marker source = some value) (hvalue : '"' ∉ value) :
    extractQuotedValue source marker = none := by
  have hdrop : value.dropWhile (· ≠ '"') = [] :=
    List.dropWhile_eq_nil_iff.mpr fun c hc => decide_eq_true fun heq => hvalue (heq ▸ hc)
  rw [extractQuotedValue, h]
  simp only [hdrop]

/-- The value of a string that is found is the string itself, or breaks off behind a backslash. -/
theorem extractQuotedValue_string {source marker text rest : List Char}
    (h : findAfter marker source = some (escape text ++ '"' :: rest)) :
    ('"' ∉ text ∧ extractQuotedValue source marker = some (escape text, '"' :: rest)) ∨
      ('"' ∈ text ∧ ∃ init post, extractQuotedValue source marker = some (init ++ ['\\'], post)) := by
  by_cases hquote : '"' ∈ text
  · right
    obtain ⟨value, post, heq, hvalue⟩ := List.eq_append_cons_of_mem (quote_mem_escape.mpr hquote)
    obtain ⟨init, -, -, rfl⟩ := escape_quote heq
    rw [heq, List.append_assoc, List.cons_append] at h
    exact ⟨hquote, escape init, _, extractQuotedValue_of_found h hvalue⟩
  · left
    exact ⟨hquote, extractQuotedValue_of_found h fun hmem => hquote (quote_mem_escape.mp hmem)⟩

/-- The value depends on what the search finds only. -/
theorem extractQuotedValue_congr {source source' marker : List Char}
    (h : findAfter marker source = findAfter marker source') :
    extractQuotedValue source marker = extractQuotedValue source' marker := by
  rw [extractQuotedValue, extractQuotedValue, h]

end SpotRelay.Analysis
