import Mathlib
import SchemaIR.Proofs.Documentation

/-!
# Indentation is found in one line and taken from all

The indentation of a text is read off the first line that shows anything, and then goes from
every line that starts with it. Two things make this well behaved. White space is all that goes,
so a line shows as much as before, and the line that was the first to show something still is.
And that line is left with nothing in front of it, so there is no indentation to be found the
next time.

The other way round, a text whose first such line has nothing in front can be moved to the right
by any white space. The same line then gives away how far, whatever stands on the lines around
it: blank lines above it are skipped, and lines below it lose just what was put in front.
-/

namespace SchemaIR

namespace Text

/-! ## Lines -/

theorem splitLines_eq_splitOn (text : List Char) : splitLines text = text.splitOn '\n' := by
  induction text with
  | nil => rfl
  | cons c rest ih =>
      rw [List.splitOn_cons_eq_if_modifyHead, ← ih]
      by_cases h : c = '\n'
      · simp [splitLines, h]
      · obtain ⟨line, lines, hlines⟩ := List.exists_cons_of_ne_nil
          (ih ▸ List.splitOn_ne_nil '\n' rest)
        simp [splitLines, h, hlines]

theorem joinLines_eq_intercalate (lines : List (List Char)) :
    joinLines lines = ['\n'].intercalate lines := by
  fun_induction joinLines lines with
  | case1 => rfl
  | case2 line => simp
  | case3 line next lines ih => simp [ih, List.intercalate_cons_cons]

theorem splitLines_ne_nil (text : List Char) : splitLines text ≠ [] :=
  splitLines_eq_splitOn text ▸ List.splitOn_ne_nil '\n' text

theorem newline_not_mem_splitLines (text : List Char) : ∀ line ∈ splitLines text, '\n' ∉ line := by
  fun_induction splitLines text with
  | case1 => simp
  | case2 rest ih => simpa using ih
  | case3 c rest hc hnil ih => exact absurd hnil (splitLines_ne_nil rest)
  | case4 c rest hc line lines hlines ih =>
      rw [hlines, List.forall_mem_cons] at ih
      rw [List.forall_mem_cons, List.mem_cons, not_or]
      exact ⟨⟨Ne.symm hc, ih.1⟩, ih.2⟩

theorem joinLines_splitLines (text : List Char) : joinLines (splitLines text) = text := by
  rw [joinLines_eq_intercalate, splitLines_eq_splitOn, List.intercalate_splitOn]

theorem splitLines_joinLines {lines : List (List Char)} (nonempty : lines ≠ [])
    (unbroken : ∀ line ∈ lines, '\n' ∉ line) : splitLines (joinLines lines) = lines := by
  rw [joinLines_eq_intercalate, splitLines_eq_splitOn]
  exact List.splitOn_intercalate '\n' unbroken nonempty

/-! ## What a line starts with -/

theorem dropLead_nil (line : List Char) : dropLead [] line = line := rfl

theorem dropLead_append (lead line : List Char) : dropLead lead (lead ++ line) = line := by
  have hlead : lead.isPrefixOf (lead ++ line) = true :=
    List.isPrefixOf_iff_prefix.mpr (List.prefix_append lead line)
  rw [dropLead, if_pos hlead, List.drop_left]

theorem dropLead_takeWhile (line : List Char) :
    dropLead (line.takeWhile isBlank) line = line.dropWhile isBlank := by
  have happend := dropLead_append (line.takeWhile isBlank) (line.dropWhile isBlank)
  rwa [List.takeWhile_append_dropWhile] at happend

theorem dropLead_empty (lead : List Char) : dropLead lead [] = [] := by
  unfold dropLead
  split
  · exact List.drop_nil
  · rfl

theorem mem_of_mem_dropLead {c : Char} {lead line : List Char} (h : c ∈ dropLead lead line) :
    c ∈ line := by
  unfold dropLead at h
  split at h
  · exact List.mem_of_mem_drop h
  · exact h

theorem all_isBlank {line : List Char} : line.all isBlank = true ↔ visible line = [] := by
  rw [visible_eq_nil_iff, List.all_eq_true]

theorem visible_ne_nil {c : Char} (shown : isBlank c = false) (line : List Char) :
    visible (c :: line) ≠ [] := by
  rw [visible, List.filter_cons_of_pos (by rw [shown]; rfl)]
  exact List.cons_ne_nil _ _

theorem head?_dropWhile_shown (line : List Char) :
    ∀ c ∈ (line.dropWhile isBlank).head?, isBlank c = false := by
  intro c hc
  have hstop := List.head?_dropWhile_not isBlank line
  rw [Option.mem_def.mp hc] at hstop
  exact hstop

/-- A line that shows anything does so right behind the white space in front of it. -/
theorem exists_dropWhile {line : List Char} (shown : visible line ≠ []) :
    ∃ c rest, line.dropWhile isBlank = c :: rest ∧ isBlank c = false := by
  have hkept : line.dropWhile isBlank ≠ [] := by
    intro hnil
    rw [← visible_dropWhile, hnil] at shown
    exact shown rfl
  obtain ⟨c, rest, hrest⟩ := List.exists_cons_of_ne_nil hkept
  refine ⟨c, rest, hrest, head?_dropWhile_shown line c ?_⟩
  rw [hrest]
  rfl

end Text

namespace Doc

open Text

/-! ## The first line that shows anything -/

theorem indentation_cons_blank {line : List Char} (blank : visible line = [])
    (lines : List (List Char)) : indentation (line :: lines) = indentation lines := by
  rw [indentation, List.find?_cons_of_neg (by rw [all_isBlank.mpr blank]; decide)]
  rfl

theorem indentation_cons_shown {line : List Char} (shown : visible line ≠ [])
    (lines : List (List Char)) : indentation (line :: lines) = line.takeWhile isBlank := by
  have hall : line.all isBlank = false := by
    rw [Bool.eq_false_iff, ne_eq, all_isBlank]
    exact shown
  rw [indentation, List.find?_cons_of_pos (by rw [hall]; rfl)]

/-- There is a line that shows something, and the first one starts with what it shows. -/
inductive Flush : List (List Char) → Prop where
  | here {c : Char} {rest : List Char} {more : List (List Char)} (shown : isBlank c = false) :
      Flush ((c :: rest) :: more)
  | later {line : List Char} {more : List (List Char)} (blank : visible line = [])
      (flush : Flush more) : Flush (line :: more)

theorem Flush.indentation {lines : List (List Char)} (flush : Flush lines) :
    indentation lines = [] := by
  induction flush with
  | here shown =>
      rw [indentation_cons_shown (visible_ne_nil shown _),
        List.takeWhile_cons_of_neg (by simp [shown])]
  | later blank _ ih => rw [indentation_cons_blank blank, ih]

/-- Without its indentation, a text that shows anything is flush. -/
theorem flush_map_dropLead {lines : List (List Char)} (shown : ∃ line ∈ lines, visible line ≠ []) :
    Flush (lines.map (dropLead (indentation lines))) := by
  induction lines with
  | nil => simp at shown
  | cons line lines ih =>
      rw [List.map_cons]
      by_cases blank : visible line = []
      · rw [indentation_cons_blank blank]
        refine .later ?_ (ih ?_)
        · rw [visible_dropLead (visible_indentation lines), blank]
        · simpa [blank] using shown
      · obtain ⟨c, rest, hrest, hc⟩ := exists_dropWhile blank
        rw [indentation_cons_shown blank, dropLead_takeWhile, hrest]
        exact .here hc

theorem indentation_eq_nil {lines : List (List Char)} (blank : ∀ line ∈ lines, visible line = []) :
    indentation lines = [] := by
  induction lines with
  | nil => rfl
  | cons line lines ih =>
      obtain ⟨hline, hlines⟩ := List.forall_mem_cons.mp blank
      rw [indentation_cons_blank hline, ih hlines]

/-- The indentation of a text can be taken away only once. -/
theorem indentation_map_dropLead (lines : List (List Char)) :
    indentation (lines.map (dropLead (indentation lines))) = [] := by
  by_cases shown : ∃ line ∈ lines, visible line ≠ []
  · exact (flush_map_dropLead shown).indentation
  · push Not at shown
    refine indentation_eq_nil fun line hline => ?_
    obtain ⟨old, hold, rfl⟩ := List.mem_map.mp hline
    rw [visible_dropLead (visible_indentation lines), shown old hold]

/-! ## Texts without indentation -/

theorem splitLines_unindent (text : List Char) :
    splitLines (unindent text) =
      (splitLines text).map (dropLead (indentation (splitLines text))) := by
  refine splitLines_joinLines (by simpa using splitLines_ne_nil text) fun line hline => ?_
  obtain ⟨old, hold, rfl⟩ := List.mem_map.mp hline
  exact fun hnewline => newline_not_mem_splitLines text old hold (mem_of_mem_dropLead hnewline)

theorem unindent_eq_self {text : List Char} (none : indentation (splitLines text) = []) :
    unindent text = text := by
  have hlines : (splitLines text).map (dropLead []) = splitLines text :=
    List.map_id'' dropLead_nil _
  rw [unindent, none, hlines, joinLines_splitLines]

theorem unindent_unindent (text : List Char) : unindent (unindent text) = unindent text := by
  refine unindent_eq_self ?_
  rw [splitLines_unindent, indentation_map_dropLead]

theorem normalizeIndent_normalizeIndent (text : String) :
    normalizeIndent (normalizeIndent text) = normalizeIndent text := by
  rw [normalizeIndent, normalizeIndent, String.toList_ofList, unindent_unindent]

/-- A text that starts with a character that shows has no indentation. -/
theorem unindent_cons {c : Char} (shown : isBlank c = false) (rest : List Char) :
    unindent (c :: rest) = c :: rest := by
  have hnewline : c ≠ '\n' := by
    rintro rfl
    exact absurd shown (by decide)
  have hflush : Flush (splitLines (c :: rest)) := by
    obtain ⟨line, lines, hlines⟩ := List.exists_cons_of_ne_nil (splitLines_ne_nil rest)
    rw [splitLines, if_neg hnewline, hlines]
    exact .here shown
  exact unindent_eq_self hflush.indentation

/-! ## Texts that are moved to the right -/

/-- The line has `lead` put in front of it; an empty line may also be left empty. -/
def Indents (lead line moved : List Char) : Prop :=
  moved = lead ++ line ∨ line = [] ∧ moved = []

theorem Indents.dropLead {lead line moved : List Char} (h : Indents lead line moved) :
    dropLead lead moved = line := by
  rcases h with rfl | ⟨rfl, rfl⟩
  · exact dropLead_append lead line
  · exact dropLead_empty lead

theorem Indents.visible {lead line moved : List Char} (h : Indents lead line moved)
    (blank : visible lead = []) : visible moved = visible line := by
  rw [← h.dropLead, visible_dropLead blank]

theorem Indents.newline_not_mem {lead line moved : List Char} (h : Indents lead line moved)
    (hlead : '\n' ∉ lead) (hline : '\n' ∉ line) : '\n' ∉ moved := by
  rcases h with rfl | ⟨-, rfl⟩
  · rw [List.mem_append, not_or]
    exact ⟨hlead, hline⟩
  · exact List.not_mem_nil

variable {lead : List Char} {lines moved : List (List Char)}

theorem map_dropLead_moved (h : List.Forall₂ (Indents lead) lines moved) :
    moved.map (dropLead lead) = lines := by
  induction h with
  | nil => rfl
  | cons first _ ih => rw [List.map_cons, first.dropLead, ih]

theorem newline_not_mem_moved (h : List.Forall₂ (Indents lead) lines moved) (hlead : '\n' ∉ lead)
    (unbroken : ∀ line ∈ lines, '\n' ∉ line) : ∀ line ∈ moved, '\n' ∉ line := by
  induction h with
  | nil => exact List.forall_mem_nil _
  | cons first _ ih =>
      obtain ⟨hline, hlines⟩ := List.forall_mem_cons.mp unbroken
      exact List.forall_mem_cons.mpr ⟨first.newline_not_mem hlead hline, ih hlines⟩

/-- How far a flush text has been moved can be read off it. -/
theorem Flush.indentation_moved (flush : Flush lines) (blank : Text.visible lead = [])
    (h : List.Forall₂ (Indents lead) lines moved) : Doc.indentation moved = lead := by
  induction flush generalizing moved with
  | @here c rest more shown =>
      obtain ⟨first, others, hfirst, -, rfl⟩ := List.forall₂_cons_left_iff.mp h
      have hshown : Text.visible first ≠ [] := by
        rw [hfirst.visible blank]
        exact visible_ne_nil shown rest
      -- Only an empty line may have stayed where it was, and this one is not.
      have hmoved : first = lead ++ c :: rest :=
        hfirst.resolve_right fun hempty => List.cons_ne_nil c rest hempty.1
      have hlead : ∀ c ∈ lead, isBlank c = true := visible_eq_nil_iff.mp blank
      rw [indentation_cons_shown hshown, hmoved, List.takeWhile_append_of_pos hlead,
        List.takeWhile_cons_of_neg (by simp [shown]), List.append_nil]
  | later hline _ ih =>
      obtain ⟨first, others, hfirst, hothers, rfl⟩ := List.forall₂_cons_left_iff.mp h
      rw [indentation_cons_blank (by rw [hfirst.visible blank, hline]), ih hothers]

/-- A flush text that is moved to the right by white space, newlines apart, comes back as it was.
It has as many lines as it had when it was moved, and each of them has lost the same. -/
theorem normalizeIndent_moved {text lead : String} {moved : List (List Char)}
    (flush : Flush (splitLines text.toList))
    (blank : ∀ c ∈ lead.toList, isBlank c = true ∧ c ≠ '\n')
    (h : List.Forall₂ (Indents lead.toList) (splitLines text.toList) moved) :
    let indented := String.ofList (joinLines moved)
    normalizeIndent indented = text ∧
      List.Forall₂ (Indents lead.toList) (splitLines (normalizeIndent indented).toList)
        (splitLines indented.toList) := by
  intro indented
  have hlead : visible lead.toList = [] := visible_eq_nil_iff.mpr fun c hc => (blank c hc).1
  have hnewline : '\n' ∉ lead.toList := fun hmem => (blank '\n' hmem).2 rfl
  have hmoved : splitLines indented.toList = moved := by
    rw [String.toList_ofList]
    refine splitLines_joinLines ?_
      (newline_not_mem_moved h hnewline (newline_not_mem_splitLines text.toList))
    rintro rfl
    exact splitLines_ne_nil _ (List.forall₂_nil_right_iff.mp h)
  have htext : normalizeIndent indented = text := by
    rw [normalizeIndent, unindent, hmoved, flush.indentation_moved hlead h, map_dropLead_moved h,
      joinLines_splitLines, String.ofList_toList]
  refine ⟨htext, ?_⟩
  rw [htext, hmoved]
  exact h

/-- An ideographic space and a tab in front of lines that have blanks of their own. Of the three
empty lines, only the middle one is moved. -/
theorem normalizeIndent_moved_outline :
    Flush (splitLines "\n  \na\n  b\n\n \tc\n".toList) ∧
      normalizeIndent "\n\u3000\t  \n\u3000\ta\n\u3000\t  b\n\u3000\t\n\u3000\t \tc\n" =
        "\n  \na\n  b\n\n \tc\n" := by
  have flush : Flush (splitLines "\n  \na\n  b\n\n \tc\n".toList) :=
    .later rfl (.later rfl (.here rfl))
  have h : List.Forall₂ (Indents "\u3000\t".toList) (splitLines "\n  \na\n  b\n\n \tc\n".toList)
      (["", "\u3000\t  ", "\u3000\ta", "\u3000\t  b", "\u3000\t", "\u3000\t \tc", ""].map
        String.toList) :=
    .cons (.inr ⟨rfl, rfl⟩) <| .cons (.inl rfl) <| .cons (.inl rfl) <| .cons (.inl rfl) <|
      .cons (.inl rfl) <| .cons (.inl rfl) <| .cons (.inr ⟨rfl, rfl⟩) .nil
  exact ⟨flush, (normalizeIndent_moved flush (by simp [isBlank, blankRanges]) h).1⟩

end Doc

end SchemaIR
