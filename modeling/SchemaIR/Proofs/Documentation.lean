import Mathlib
import SchemaIR.Doc

/-!
# What shows in a documentation text

Normalization takes a text apart into lines, drops the indentation of each line and trims what
is left. All that goes on the way is white space. So the characters that show are the same
before and after, in the same order, and a text has documentation in it if and only if some
character of it shows.
-/

namespace SchemaIR

namespace Text

/-- The characters of a text that show. -/
def visible (text : List Char) : List Char := text.filter fun c => !isBlank c

theorem visible_append (text more : List Char) :
    visible (text ++ more) = visible text ++ visible more :=
  List.filter_append text more

theorem visible_cons_blank {c : Char} (blank : isBlank c = true) (text : List Char) :
    visible (c :: text) = visible text := by
  rw [visible, List.filter_cons_of_neg (by rw [blank]; decide)]
  rfl

theorem visible_eq_nil_iff {text : List Char} :
    visible text = [] ↔ ∀ c ∈ text, isBlank c = true := by
  simp [visible, List.filter_eq_nil_iff]

theorem visible_takeWhile (text : List Char) : visible (text.takeWhile isBlank) = [] :=
  visible_eq_nil_iff.mpr fun _ hmem => List.mem_takeWhile_imp hmem

theorem visible_dropWhile (text : List Char) :
    visible (text.dropWhile isBlank) = visible text := by
  have hsplit := visible_append (text.takeWhile isBlank) (text.dropWhile isBlank)
  rw [List.takeWhile_append_dropWhile, visible_takeWhile, List.nil_append] at hsplit
  exact hsplit.symm

theorem visible_reverse (text : List Char) : visible text.reverse = (visible text).reverse :=
  List.filter_reverse

theorem visible_trim (text : List Char) : visible (trim text) = visible text := by
  rw [trim, visible_reverse, visible_dropWhile, visible_reverse, visible_dropWhile,
    List.reverse_reverse]

theorem trim_eq_nil_iff {text : List Char} : trim text = [] ↔ visible text = [] := by
  constructor
  · intro h
    rw [← visible_trim, h]
    rfl
  · intro h
    have hdropped : text.dropWhile isBlank = [] :=
      List.dropWhile_eq_nil_iff.mpr (visible_eq_nil_iff.mp h)
    rw [trim, hdropped]
    rfl

/-! ## Lines -/

theorem visible_joinLines (lines : List (List Char)) :
    visible (joinLines lines) = lines.flatMap visible := by
  have hnewline : isBlank '\n' = true := by decide
  match lines with
  | [] => rfl
  | [line] => rw [joinLines, List.flatMap_singleton]
  | line :: next :: rest =>
      rw [joinLines, visible_append, visible_cons_blank hnewline,
        visible_joinLines (next :: rest)]
      rfl

theorem flatMap_visible_splitLines (text : List Char) :
    (splitLines text).flatMap visible = visible text := by
  have hnewline : isBlank '\n' = true := by decide
  induction text with
  | nil => rfl
  | cons c rest ih =>
      rw [splitLines]
      split
      · next hc =>
          rw [List.flatMap_cons, ih, hc, visible_cons_blank hnewline]
          rfl
      · have hcons : visible (c :: rest) = visible [c] ++ visible rest := visible_append [c] rest
        split
        · next hlines =>
            rw [hlines] at ih
            rw [hcons, ← ih]
            rfl
        · next line lines hlines =>
            rw [hlines, List.flatMap_cons] at ih
            rw [hcons, ← ih, List.flatMap_cons, ← List.append_assoc]
            exact congrArg (· ++ _) (visible_append [c] line)

theorem visible_dropLead {lead : List Char} (blank : visible lead = []) (line : List Char) :
    visible (dropLead lead line) = visible line := by
  unfold dropLead
  split
  · next hlead =>
      obtain ⟨rest, rfl⟩ := List.isPrefixOf_iff_prefix.mp hlead
      rw [List.drop_left, visible_append, blank, List.nil_append]
  · rfl

end Text

namespace Doc

open Text

theorem visible_indentation (lines : List (List Char)) : visible (indentation lines) = [] := by
  unfold indentation
  split
  · exact visible_takeWhile _
  · rfl

/-- Whatever the indentation is, no character that shows is lost with it. -/
theorem visible_unindent (text : List Char) : visible (unindent text) = visible text := by
  have hline : ∀ line ∈ splitLines text,
      visible (dropLead (indentation (splitLines text)) line) = visible line :=
    fun line _ => visible_dropLead (visible_indentation _) line
  show visible (joinLines ((splitLines text).map _)) = _
  rw [visible_joinLines, List.flatMap_map, List.flatMap_congr hline, flatMap_visible_splitLines]

/-- There is documentation in a text if some character of it is not white space. -/
theorem isSome_normalize (text : String) :
    (normalize text).isSome = text.toList.any fun c => !isBlank c := by
  have hblank : trim (unindent text.toList) = [] ↔ visible text.toList = [] := by
    rw [trim_eq_nil_iff, visible_unindent]
  unfold normalize
  split
  · next hnil =>
      have hnone := visible_eq_nil_iff.mp (hblank.mp hnil)
      symm
      simpa using hnone
  · next hcontent =>
      have hshown : ¬ ∀ c ∈ text.toList, isBlank c = true :=
        fun hnone => hcontent (hblank.mpr (visible_eq_nil_iff.mpr hnone))
      symm
      simpa using hshown

end Doc

end SchemaIR
