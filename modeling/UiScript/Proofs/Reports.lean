import UiScript.Proofs.Places
import UiScript.Proofs.Reading.Sequence

/-!
# Diagnostics in reading order

The diagnostics of a script are one report for each of its commands and elements that have a problem, from the first
line to the last (`parse_diagnostics`). Whether there are any, and whether one of them is fatal, is what the tree says
when it is asked.
-/

namespace UiScript

open Text

/-- Every node of a script has an exact place in its text. -/
theorem Script.exact_of_mem_nodes {catalog : Catalog} {text : String} {n : Node}
    (hn : n ∈ (Script.parse catalog text).nodes) : n.place.Exact text.toList := by
  obtain ⟨hexact, -⟩ := parse_places catalog text
  obtain ⟨c, hc, hn⟩ := List.mem_flatMap.mp hn
  obtain ⟨d, hd, rfl | ⟨a, x, ha, hx, rfl⟩⟩ := c.mem_nodes.mp hn
  · exact (hexact c hc d hd).1
  · exact (hexact c hc d hd).2 a ha x hx

/-- **Diagnostics come in reading order and agree with the tree.** The diagnostics of a script stand on lines of its
text, none on a line before that of the one in front of it. There are as many as there are commands and elements with a
problem of their own, blocks included, at any depth. There are none if and only if nothing is wrong, and one of them is
fatal if and only if something fatal is wrong: for the script and its commands, and for each of its nodes. -/
theorem parse_diagnostics (catalog : Catalog) (text : String) :
    (∃ lines : List Nat, (Script.parse catalog text).diagnostics.map (·.line) = lines.map some ∧
      lines.Pairwise (· ≤ ·) ∧ ∀ l ∈ lines, 1 ≤ l ∧ l ≤ 1 + newlines text.toList) ∧
    (Script.parse catalog text).diagnostics.length = (Script.parse catalog text).nodes.countP (·.problem.isSome) ∧
    ((Script.parse catalog text).diagnostics = [] ↔ (Script.parse catalog text).isOk = true) ∧
    ((Script.parse catalog text).isOk = true ↔ ∀ c ∈ (Script.parse catalog text).commands, c.hasErrors = false) ∧
    ((∃ d ∈ (Script.parse catalog text).diagnostics, d.fatal = true) ↔ (Script.parse catalog text).hasFatal = true) ∧
    ((Script.parse catalog text).hasFatal = true ↔ ∃ c ∈ (Script.parse catalog text).commands, c.hasFatal = true) ∧
    ∀ n ∈ (Script.parse catalog text).nodes,
      (n.diagnostics = [] ↔ n.hasErrors = false) ∧ ((∃ d ∈ n.diagnostics, d.fatal = true) ↔ n.hasFatal = true) := by
  have hlines := map_line_reports (Script.parse catalog text).nodes
  rw [← Script.diagnostics_eq_flatMap] at hlines
  have hfatal : ∀ ds : Diagnostics, (∃ d ∈ ds, d.fatal = true) ↔ Diagnostics.hasFatal ds = true := fun ds =>
    List.any_eq_true.symm
  refine ⟨⟨_, hlines.trans (List.map_map ..).symm, ?_, ?_⟩, ?_, List.isEmpty_iff.symm, ?_, hfatal _, ?_, ?_⟩
  · -- lines are ordered as starts are
    refine List.pairwise_map.mpr (List.Pairwise.filter _ ?_)
    refine (Reading.parse_sequenced catalog text).imp_of_mem fun hm hn hle => ?_
    exact (Script.exact_of_mem_nodes hm).line_mono (Script.exact_of_mem_nodes hn) hle
  · intro l hl
    obtain ⟨n, hn, rfl⟩ := List.mem_map.mp hl
    exact (Script.exact_of_mem_nodes (List.filter_sublist.mem hn)).line_le
  · have hlength := congrArg List.length hlines
    rwa [List.length_map, List.length_map, ← List.countP_eq_length_filter] at hlength
  · rw [Script.isOk, List.isEmpty_iff, Script.diagnostics, List.flatMap_eq_nil_iff]
    exact forall₂_congr fun c _ => c.diagnostics_eq_nil_iff
  · rw [Script.hasFatal_eq_any, List.any_eq_true]
  · exact fun n _ => ⟨n.diagnostics_eq_nil_iff, by rw [hfatal, n.diagnostics_hasFatal]⟩

end UiScript
