/-
  File:      CallByNeed/Proofs/Parser/Strings.lean
  Subject:   String literals are read back as they were written.

  Between the quotes of a literal four scans have to agree: the one that writes the escapes, the one
  that blanks layout, the one that looks for the closing quote, also byte by byte, and the one that
  reads the escapes. Every layout character but the vertical tab is written as an escape, so the
  vertical tab alone is lost to the blanking.

  * `tabsBlanked` -- a text with its vertical tabs blanked;
  * `blankText_literal` -- blanking a literal leaves the literal of that text;
  * `string_literal_reads` -- the literal of any text, read as a program.
-/
import CallByNeed.Proofs.Bytewise.Agreement
import CallByNeed.Proofs.Parser.RoundTrip

namespace CallByNeed

/-- A text with every vertical tab replaced by a space. -/
def tabsBlanked (s : String) : String :=
  String.ofList (s.toList.map fun c => if c = '\x0b' then ' ' else c)

theorem tabsBlanked_of_not_mem {s : String} (h : '\x0b' ∉ s.toList) : tabsBlanked s = s := by
  have hkept : (s.toList.map fun c => if c = '\x0b' then ' ' else c) = s.toList.map id := by
    refine List.map_congr_left fun c hc => if_neg ?_
    rintro rfl
    exact h hc
  rw [tabsBlanked, hkept, List.map_id, String.ofList_toList]

/-- Of the layout characters only the vertical tab is written as itself. -/
theorem map_leftInString_escapeChar (c : Char) :
    (escapeChar c).map leftInString = escapeChar (if c = '\x0b' then ' ' else c) := by
  by_cases htab : c = '\x0b'
  · subst htab
    decide
  · rw [if_neg htab]
    unfold escapeChar
    repeat' split
    case isFalse.isFalse.isFalse.isFalse.isFalse.isFalse.isFalse =>
      simp_all [leftInString, isLayoutChar]
    all_goals decide

theorem map_leftInString_escape (s : String) :
    (escape s).toList.map leftInString = (escape (tabsBlanked s)).toList := by
  simp only [escape, tabsBlanked, String.toList_ofList, List.map_flatMap, List.flatMap_map,
    map_leftInString_escapeChar]

/-- **Blanking a literal leaves the literal of the text without vertical tabs.** -/
theorem blankText_literal (s : String) :
    blankText ("\"" ++ escape s ++ "\"").toList = '"' :: ((escape (tabsBlanked s)).toList ++ ['"']) := by
  have hchars : ("\"" ++ escape s ++ "\"").toList = '"' :: ((escape s).toList ++ ['"']) := by
    simp [String.toList_append]
  rw [hchars, (blankText_string (stringText_escape s)).1, map_leftInString_escape]

/-- **String literals are read back as they were written.** The escapes of a text stand for the text.
    Its literal, as a program of its own, is read as one string, the text with its vertical tabs
    blanked; so it is byte by byte, and a text without vertical tabs is read back as it is. -/
theorem string_literal_reads (name s : String) (depth : Nat) :
    unescape (escape s) = s ∧
    (parse ⟨name, "\"" ++ escape s ++ "\""⟩ [] (depth + 1) =
      .ok (.string ⟨⟨name, "\"" ++ escape s ++ "\""⟩, 0⟩ (tabsBlanked s))) ∧
    (parseBytes ⟨name, "\"" ++ escape s ++ "\""⟩ [] (depth + 1) =
      .ok (.string ⟨⟨name, "\"" ++ escape s ++ "\""⟩, 0⟩ (tabsBlanked s))) ∧
    ('\x0b' ∉ s.toList → tabsBlanked s = s) := by
  have hparse : parse ⟨name, "\"" ++ escape s ++ "\""⟩ [] (depth + 1) =
      .ok (.string ⟨⟨name, "\"" ++ escape s ++ "\""⟩, 0⟩ (tabsBlanked s)) := by
    set source : Source := ⟨name, "\"" ++ escape s ++ "\""⟩
    have hchars : blankText source.chars = '"' :: ((escape (tabsBlanked s)).toList ++ ['"']) :=
      blankText_literal s
    rw [parse_nil, Reading.whole_eq_ok, hchars]
    obtain ⟨o, hterm⟩ := string_reads (⟨source, depth + 1⟩ : Reading)
      ((⟨source, depth + 1⟩ : Reading).line depth) 0 [] (tabsBlanked s)
    exact ⟨⟨[], o⟩, (SideBySide.term hterm).line Stops.nil, rfl⟩
  refine ⟨unescape_escape s, hparse, ?_, tabsBlanked_of_not_mem⟩
  rw [parseBytes_eq, hparse]
  rfl

/-- A quote, a vertical tab, a backslash in front of a longer character, and one at the end. -/
example : parse ⟨"main", "\"" ++ escape "\"\x0b\\é\\" ++ "\""⟩ [] 1 =
    .ok (.string ⟨⟨"main", "\"\\\"\x0b\\\\é\\\\\""⟩, 0⟩ "\" \\é\\") := by
  decide +kernel

end CallByNeed
