import Mathlib
import SchemaIR.Files.FileSystem
import SchemaIR.Proofs.Table

/-!
# What file operations change

Following a name through a file system, piece by piece, leads to the place that the pieces spell,
whatever is there. The places that the first few pieces of a name spell are those on the way to
it, and the parent of a name has no others.

That bounds what is changed. Making a directory with all its parents adds directories where there
was nothing, on the way to the name and nowhere else, and what was added before a refusal is of
the same kind. Writing a file changes what is under one key, which was not a directory, and after
a refusal nothing. The text is what is read back afterwards, since the way to the file leads
through directories only.

Changes are told by the keys of the table of entries, for which nothing has to be known about the
current directory.
-/

namespace SchemaIR

namespace FileName

/-! ## Pieces of names -/

theorem splitPieces_eq_splitOn (name : List Char) : splitPieces name = name.splitOn '/' := by
  induction name with
  | nil => rfl
  | cons c rest ih =>
      rw [List.splitOn_cons_eq_if_modifyHead, ← ih]
      by_cases h : c = '/'
      · subst h
        rfl
      · obtain ⟨piece, pieces, hpieces⟩ := List.exists_cons_of_ne_nil
          (ih ▸ List.splitOn_ne_nil '/' rest)
        simp [splitPieces, h, hpieces]

theorem slash_not_mem_splitPieces (name : List Char) :
    ∀ piece ∈ splitPieces name, '/' ∉ piece := by
  fun_induction splitPieces name with
  | case1 => simp
  | case2 rest ih => simpa using ih
  | case3 c rest hslash hnil ih => simpa using Ne.symm hslash
  | case4 c rest hslash piece pieces hpieces ih =>
      rw [hpieces, List.forall_mem_cons] at ih
      rw [List.forall_mem_cons]
      refine ⟨?_, ih.2⟩
      rw [List.mem_cons, not_or]
      exact ⟨Ne.symm hslash, ih.1⟩

theorem slash_not_mem_pieces {name piece : String} (h : piece ∈ pieces name) :
    '/' ∉ piece.toList := by
  obtain ⟨chars, hchars, rfl⟩ := List.mem_map.mp h
  rw [String.toList_ofList]
  exact slash_not_mem_splitPieces _ chars hchars

theorem pieces_ofPieces {parts : List String} (nonempty : parts ≠ [])
    (slashless : ∀ part ∈ parts, '/' ∉ part.toList) : pieces (ofPieces parts) = parts := by
  have hsplit : splitPieces (ofPieces parts).toList = parts.map String.toList := by
    rw [ofPieces, String.toList_intercalate, splitPieces_eq_splitOn]
    refine List.splitOn_intercalate '/' ?_ (by simpa using nonempty)
    simpa using slashless
  simp [pieces, hsplit]

/-- An absolute name has an empty piece in front of its first slash. -/
theorem isAbsolute_iff {name : String} :
    isAbsolute name = true ↔ ∃ rest, rest ≠ [] ∧ pieces name = "" :: rest := by
  simp only [isAbsolute, pieces, decide_eq_true_eq]
  fun_cases splitPieces name.toList with
  | case1 => simp
  | case2 rest => simp [splitPieces_eq_splitOn, List.splitOn_ne_nil]
  | case3 c rest hslash hnil => simpa using hslash
  | case4 c rest hslash piece pieces hpieces => simpa using hslash

/-! ## Parents -/

theorem trimEnd_isPrefix (parts : List String) : trimEnd parts <+: parts :=
  List.rdropWhile_prefix isSilent parts

theorem trimEnd_dropLast_isPrefix (parts : List String) :
    trimEnd (trimEnd parts).dropLast <+: parts :=
  (trimEnd_isPrefix _).trans ((List.dropLast_prefix _).trans (trimEnd_isPrefix _))

/-- What is left of a name in its parent are some of its first pieces. -/
theorem parent?_cases {name parent : String} (h : parent? name = some parent) :
    (isAbsolute name = true ∧ ∃ front, "" :: front <+: pieces name ∧
      parent = "/" ++ ofPieces front) ∨
    (isAbsolute name = false ∧ ∃ front, front <+: pieces name ∧ parent = ofPieces front) := by
  unfold parent? body at h
  cases hpieces : pieces name with
  | nil => simp [hpieces] at h
  | cons first rest =>
      simp only [hpieces] at h
      by_cases absolute : isAbsolute name = true
      · obtain ⟨_, -, hfirst⟩ := isAbsolute_iff.mp absolute
        obtain ⟨rfl, -⟩ := List.cons_eq_cons.mp (hpieces.symm.trans hfirst)
        have hfront := (List.prefix_cons_inj "").mpr (trimEnd_dropLast_isPrefix rest)
        refine .inl ⟨absolute, _, hfront, ?_⟩
        rw [if_pos absolute] at h
        split at h <;> simp_all
      rw [if_neg absolute] at h
      refine .inr ⟨Bool.eq_false_iff.mpr absolute, ?_⟩
      by_cases dot : first = "."
      · have hfront := (List.prefix_cons_inj first).mpr (trimEnd_dropLast_isPrefix rest)
        rw [if_pos dot] at h
        cases hsaid : trimEnd rest with
        | nil =>
            simp only [hsaid, Option.some.injEq] at h
            exact ⟨[], List.nil_prefix, h.symm⟩
        | cons piece more =>
            simp only [hsaid, Option.some.injEq, ← dot] at h hfront
            exact ⟨_, hfront, h.symm⟩
      · refine ⟨_, trimEnd_dropLast_isPrefix (first :: rest), ?_⟩
        rw [if_neg dot] at h
        split at h <;> simp_all

theorem pieces_slash_ofPieces {front : List String} (nonempty : front ≠ [])
    (slashless : ∀ part ∈ "" :: front, '/' ∉ part.toList) :
    pieces ("/" ++ ofPieces front) = "" :: front := by
  have hjoined : "/" ++ ofPieces front = ofPieces ("" :: front) := by
    simp [ofPieces, String.intercalate_cons_of_ne_nil nonempty]
  rw [hjoined]
  exact pieces_ofPieces (List.cons_ne_nil _ _) slashless

/-- Where nothing is left of a name, its parent says nothing. -/
theorem pieces_parent {name parent : String} (h : parent? name = some parent) :
    pieces parent <+: pieces name ∨ ∀ part ∈ pieces parent, isSilent part = true := by
  obtain ⟨-, front, hfront, rfl⟩ | ⟨-, front, hfront, rfl⟩ := parent?_cases h
  all_goals
    have hslashless := fun part hpart => slash_not_mem_pieces (hfront.mem (a := part) hpart)
    by_cases hnil : front = []
  · subst hnil
    exact .inr (by decide)
  · rw [pieces_slash_ofPieces hnil hslashless]
    exact .inl hfront
  · subst hnil
    exact .inr (by decide)
  · rw [pieces_ofPieces hnil hslashless]
    exact .inl hfront

theorem isAbsolute_parent {name parent : String} (h : parent? name = some parent) :
    isAbsolute parent = isAbsolute name := by
  obtain ⟨absolute, front, -, rfl⟩ | ⟨relative, front, hfront, rfl⟩ := parent?_cases h
  · rw [absolute]
    simp [isAbsolute]
  · rw [relative, Bool.eq_false_iff]
    intro absolute
    obtain ⟨rest, hrest, hpieces⟩ := isAbsolute_iff.mp absolute
    by_cases hnil : front = []
    · subst hnil
      obtain ⟨-, rfl⟩ := List.cons_eq_cons.mp hpieces
      exact hrest rfl
    · -- The name has the same first piece and more behind it, so it would be absolute.
      rw [pieces_ofPieces hnil fun part hpart => slash_not_mem_pieces (hfront.mem hpart)] at hpieces
      obtain ⟨more, hmore⟩ := hfront
      rw [hpieces, List.cons_append] at hmore
      have hname : isAbsolute name = true :=
        isAbsolute_iff.mpr ⟨rest ++ more, List.append_ne_nil_of_left_ne_nil hrest more, hmore.symm⟩
      rw [relative] at hname
      exact Bool.noConfusion hname

/-! ## Places on the way -/

/-- Where a piece leads from a place, whatever is there. -/
def step (place : List String) (piece : String) : List String :=
  if isSilent piece then place
  else if piece = ".." then place.dropLast
  else place ++ [piece]

theorem step_of_spoken {piece : String} (spoken : isSilent piece = false)
    (downwards : piece ≠ "..") (place : List String) : step place piece = place ++ [piece] := by
  rw [step, if_neg (Bool.eq_false_iff.mp spoken), if_neg downwards]

theorem foldl_step_of_silent {parts : List String} (h : ∀ part ∈ parts, isSilent part = true)
    (place : List String) : parts.foldl step place = place := by
  induction parts with
  | nil => rfl
  | cons part rest ih =>
      rw [List.forall_mem_cons] at h
      rw [List.foldl_cons, step, if_pos h.1]
      exact ih h.2

end FileName

namespace FileSystem

open FileName

variable {fs after : FileSystem} {name : String} {place place' : List String}

/-- The places that the first few pieces of a name spell, and the name as a whole. -/
def OnTheWay (fs : FileSystem) (name : String) (place : List String) : Prop :=
  ∃ front, front <+: pieces name ∧ place = front.foldl step (fs.start name)

/-- Whatever is on the way to the parent of a name is on the way to the name. -/
theorem OnTheWay.of_parent {parent : String} (hparent : parent? name = some parent)
    (h : fs.OnTheWay parent place) : fs.OnTheWay name place := by
  obtain ⟨front, hfront, hplace⟩ := h
  have hstart : fs.start parent = fs.start name := by
    simp only [start, isAbsolute_parent hparent]
  rw [hstart] at hplace
  rcases pieces_parent hparent with hpieces | hsilent
  · exact ⟨front, hfront.trans hpieces, hplace⟩
  · refine ⟨[], List.nil_prefix, ?_⟩
    rw [hplace]
    exact foldl_step_of_silent (fun part hpart => hsilent part (hfront.mem hpart)) _

/-! ## Following pieces -/

theorem entry?_of_ne_nil (below : place ≠ []) : fs.entry? place = fs.entries.find? (key place) := by
  rw [FileSystem.entry?, if_neg]
  simpa using below

theorem find?_put (fs : FileSystem) (place : List String) (entry : Entry) (wanted : String) :
    (fs.put place entry).entries.find? wanted =
      if wanted = key place then some entry else fs.entries.find? wanted :=
  Table.find?_insert fs.entries (key place) entry wanted

theorem entry?_put_of_directory {target : List String} (below : target ≠ [])
    (other : fs.entry? target ≠ some .directory) (h : fs.entry? place = some .directory)
    (entry : Entry) : FileSystem.entry? (fs.put target entry) place = some .directory := by
  by_cases hroot : place = []
  · rw [hroot]
    rfl
  · rw [entry?_of_ne_nil hroot] at h ⊢
    rw [entry?_of_ne_nil below] at other
    rw [find?_put, if_neg, h]
    intro hkey
    rw [hkey] at h
    exact other h

/-- The pieces lead through directories to a directory. -/
inductive Leads (fs : FileSystem) : List String → List String → List String → Prop where
  | stay {place : List String} : Leads fs place [] place
  | silent {place place' rest : List String} {piece : String} (silent : isSilent piece = true)
      (more : Leads fs place rest place') : Leads fs place (piece :: rest) place'
  | up {place place' rest : List String} (more : Leads fs place.dropLast rest place') :
      Leads fs place (".." :: rest) place'
  | down {place place' rest : List String} {piece : String} (spoken : isSilent piece = false)
      (downwards : piece ≠ "..") (short : piece.utf8ByteSize ≤ pieceLimit)
      (found : fs.entry? (place ++ [piece]) = some .directory)
      (more : Leads fs (place ++ [piece]) rest place') : Leads fs place (piece :: rest) place'

theorem leads_of_follow {parts : List String}
    (h : fs.follow place parts = .ok (place', .directory)) : fs.Leads place parts place' := by
  fun_induction follow fs place parts with
  | case1 place =>
      cases h
      exact .stay
  | case2 place piece rest silent ih => exact .silent silent (ih h)
  | case3 place rest _ ih => exact .up (ih h)
  | case6 place piece spoken downwards short rest found ih =>
      exact .down (Bool.eq_false_iff.mpr spoken) downwards (Nat.le_of_not_lt short) found (ih h)
  | case4 | case5 | case7 | case8 => cases h

namespace Leads

variable {front : List String}

/-- Names lead to the places that they spell. -/
theorem place_eq (h : fs.Leads place front place') : place' = front.foldl step place := by
  induction h with
  | stay => rfl
  | silent silent _ ih => rw [List.foldl_cons, step, if_pos silent, ih]
  | up _ ih => rw [List.foldl_cons, step, if_neg (by decide), if_pos rfl, ih]
  | down spoken downwards _ _ _ ih =>
      rw [List.foldl_cons, step_of_spoken spoken downwards, ih]

theorem follow_append (h : fs.Leads place front place') (rest : List String) :
    fs.follow place (front ++ rest) = fs.follow place' rest := by
  induction h with
  | stay => rfl
  | silent silent _ ih =>
      rw [← ih, List.cons_append]
      conv_lhs => unfold follow
      rw [if_pos silent]
  | up _ ih =>
      rw [← ih, List.cons_append]
      conv_lhs => unfold follow
      rw [if_neg (by decide), if_pos rfl]
  | down spoken downwards short found _ ih =>
      rw [← ih, List.cons_append]
      conv_lhs => unfold follow
      rw [if_neg (Bool.eq_false_iff.mp spoken), if_neg downwards, if_neg (Nat.not_lt.mpr short)]
      simp only [found]

/-- Nothing that is put where there is no directory stands in the way. -/
theorem put {target : List String} (h : fs.Leads place front place') (below : target ≠ [])
    (other : fs.entry? target ≠ some .directory) (entry : Entry) :
    (fs.put target entry).Leads place front place' := by
  induction h with
  | stay => exact .stay
  | silent silent _ ih => exact .silent silent ih
  | up _ ih => exact .up ih
  | down spoken downwards short found _ ih =>
      exact .down spoken downwards short (entry?_put_of_directory below other found entry) ih

end Leads

/-! ## New entries -/

/-- A name for something new: a directory that is there and one more piece, both spelled by the
name, and behind a slash nothing but more slashes. -/
structure Spells (fs : FileSystem) (name : String) (directory : List String) (last : String)
    (slash : Bool) : Prop where
  accepted : checkName name = .ok ()
  spoken : isSilent last = false
  downwards : last ≠ ".."
  short : last.utf8ByteSize ≤ pieceLimit
  reached : ∃ front, fs.Leads (fs.start name) front directory ∧ front ++ [last] <+: pieces name ∧
    (slash = false → front ++ [last] = pieces name)

theorem spells_of_target {target : Target} {last : String} (h : fs.target name = .ok target)
    (named : target.name = some last) : fs.Spells name target.directory last target.slash := by
  unfold FileSystem.target at h
  simp only [bind, Except.bind, pure, Except.pure, throw, throwThe, MonadExceptOf.throw] at h
  -- The name without the empty pieces at its end.
  have hbody : (List.dropWhile (fun x => decide (x = "")) (pieces name).reverse).reverse <+:
      pieces name := List.rdropWhile_prefix (fun piece => decide (piece = "")) (pieces name)
  generalize (List.dropWhile (fun x => decide (x = "")) (pieces name).reverse).reverse = body
    at h hbody
  cases hname : checkName name with
  | error fault => simp [hname] at h
  | ok accepted =>
    cases hfollow : fs.follow (fs.start name) body.dropLast with
    | error fault => simp [hname, hfollow] at h
    | ok found =>
      simp only [hname, hfollow] at h
      split_ifs at h with hdirectory hshort
      obtain rfl := Except.ok.inj h
      dsimp only at named
      obtain ⟨hlast, hplain⟩ := Option.filter_eq_some_iff.mp named
      have hfront : body.dropLast ++ [last] = body := List.dropLast_append_getLast? last hlast
      have hfound : found = (found.1, .directory) := Prod.ext rfl (not_not.mp hdirectory)
      rw [named, Option.getD_some, gt_iff_lt, not_lt] at hshort
      simp only [ne_eq, decide_not, Bool.and_eq_true, Bool.not_eq_true', decide_eq_false_iff_not]
        at hplain
      refine ⟨hname, hplain.1, hplain.2, hshort, body.dropLast, ?_, ?_, ?_⟩
      · exact leads_of_follow (hfollow.trans (congrArg Except.ok hfound))
      · rw [hfront]
        exact hbody
      · intro hslash
        rw [hfront]
        refine hbody.eq_of_length_le ?_
        simpa using hslash

theorem Spells.onTheWay {directory : List String} {last : String} {slash : Bool}
    (h : fs.Spells name directory last slash) : fs.OnTheWay name (directory ++ [last]) := by
  obtain ⟨front, hleads, hfront, -⟩ := h.reached
  refine ⟨front ++ [last], hfront, ?_⟩
  rw [List.foldl_append, ← hleads.place_eq, List.foldl_cons, List.foldl_nil,
    step_of_spoken h.spoken h.downwards]

theorem Spells.find_put {directory : List String} {last : String} {content : List UInt8}
    (h : fs.Spells name directory last false)
    (other : fs.entry? (directory ++ [last]) ≠ some .directory) :
    (fs.put (directory ++ [last]) (.file content)).find name =
      .ok (directory ++ [last], .file content) := by
  have hbelow : directory ++ [last] ≠ [] := List.append_ne_nil_of_right_ne_nil _ (by simp)
  obtain ⟨front, hleads, -, hpieces⟩ := h.reached
  have hthere := (hleads.put hbelow other (.file content)).follow_append [last]
  rw [hpieces rfl] at hthere
  have hentry : FileSystem.entry? (fs.put (directory ++ [last]) (.file content))
      (directory ++ [last]) = some (.file content) := by
    rw [entry?_of_ne_nil hbelow, find?_put, if_pos rfl]
  have hstart : (fs.put (directory ++ [last]) (.file content)).start name = fs.start name := rfl
  simp only [find, h.accepted, hstart, hthere]
  unfold follow
  rw [if_neg (Bool.eq_false_iff.mp h.spoken), if_neg h.downwards, if_neg (Nat.not_lt.mpr h.short)]
  simp only [hentry]
  rfl

theorem makeDirectory_eq_ok (h : fs.makeDirectory name = .ok after) :
    ∃ place, fs.OnTheWay name place ∧ fs.entries.find? (key place) = none ∧
      after = fs.put place .directory := by
  unfold makeDirectory at h
  cases htarget : fs.target name with
  | error fault => simp [htarget, bind, Except.bind] at h
  | ok target =>
    cases hlast : target.name with
    | none => simp [htarget, hlast, bind, Except.bind] at h
    | some last =>
      have hspells := spells_of_target htarget hlast
      have hbelow : target.directory ++ [last] ≠ [] :=
        List.append_ne_nil_of_right_ne_nil _ (List.cons_ne_nil _ _)
      simp only [htarget, hlast, bind, Except.bind, pure, Except.pure] at h
      by_cases hfree : (fs.entry? (target.directory ++ [last])).isSome = true
      · simp [hfree] at h
      · rw [if_neg hfree] at h
        refine ⟨target.directory ++ [last], hspells.onTheWay, ?_, (Except.ok.inj h).symm⟩
        rw [← entry?_of_ne_nil hbelow]
        simpa using hfree

/-- A refusal aside, one file is written where there was no directory, and found by its name. -/
theorem writeBytes_eq_ok {content : List UInt8} (h : fs.writeBytes name content = .ok after) :
    ∃ place, fs.entries.find? (key place) ≠ some .directory ∧
      after = fs.put place (.file content) ∧ after.find name = .ok (place, .file content) := by
  unfold writeBytes at h
  cases htarget : fs.target name with
  | error fault => simp [htarget, bind, Except.bind] at h
  | ok target =>
    cases hlast : target.name with
    | none => simp [htarget, hlast, bind, Except.bind] at h
    | some last =>
      have hspells := spells_of_target htarget hlast
      have hbelow : target.directory ++ [last] ≠ [] :=
        List.append_ne_nil_of_right_ne_nil _ (List.cons_ne_nil _ _)
      simp only [htarget, hlast, bind, Except.bind, pure, Except.pure] at h
      split_ifs at h with hrefused
      rw [Bool.or_eq_true, not_or, decide_eq_true_eq, Bool.not_eq_true] at hrefused
      obtain ⟨hslash, hother⟩ := hrefused
      obtain rfl := Except.ok.inj h
      rw [hslash] at hspells
      refine ⟨target.directory ++ [last], ?_, rfl, hspells.find_put hother⟩
      rw [← entry?_of_ne_nil hbelow]
      exact hother

theorem bytesText?_textBytes (text : String) : bytesText? (textBytes text) = some text := by
  rw [bytesText?, textBytes, Array.toArray_toList]
  exact dif_pos text.isValidUTF8

theorem readText_of_find {text : String}
    (h : fs.find name = .ok (place, .file (textBytes text))) : fs.readText name = .ok text := by
  simp only [readText, h, bytesText?_textBytes]

/-! ## Changes -/

/-- A directory has been added where there was nothing, on the way to a name. -/
structure Added (before after : FileSystem) (name wanted : String) : Prop where
  absent : before.entries.find? wanted = none
  present : after.entries.find? wanted = some .directory
  onTheWay : ∃ place, before.OnTheWay name place ∧ wanted = key place

/-- Nothing has changed but that directories have been added on the way to a name. -/
structure Prepared (before after : FileSystem) (name : String) : Prop where
  here : after.here = before.here
  entries : ∀ wanted, after.entries.find? wanted = before.entries.find? wanted ∨
    before.Added after name wanted

namespace Prepared

variable {before between : FileSystem}

theorem refl (fs : FileSystem) (name : String) : fs.Prepared fs name :=
  ⟨rfl, fun _ => .inl rfl⟩

theorem trans (first : before.Prepared between name) (second : between.Prepared after name) :
    before.Prepared after name := by
  refine ⟨second.here.trans first.here, fun wanted => ?_⟩
  rcases second.entries wanted with hsame | hadded
  · rcases first.entries wanted with hsame' | hadded'
    · exact .inl (hsame.trans hsame')
    · exact .inr ⟨hadded'.absent, hsame.trans hadded'.present, hadded'.onTheWay⟩
  · rcases first.entries wanted with hsame' | hadded'
    · obtain ⟨place, hplace, hkey⟩ := hadded.onTheWay
      have hstart : between.start name = before.start name := by simp only [start, first.here]
      unfold OnTheWay at hplace
      rw [hstart] at hplace
      exact .inr ⟨hsame'.symm.trans hadded.absent, hadded.present, place, hplace, hkey⟩
    · have hboth := hadded.absent.symm.trans hadded'.present
      cases hboth

theorem of_parent {parent : String} (hparent : parent? name = some parent)
    (h : before.Prepared after parent) : before.Prepared after name := by
  refine ⟨h.here, fun wanted => (h.entries wanted).imp_right fun hadded => ?_⟩
  obtain ⟨place, hplace, hkey⟩ := hadded.onTheWay
  exact ⟨hadded.absent, hadded.present, place, hplace.of_parent hparent, hkey⟩

end Prepared

theorem prepared_of_makeDirectory (h : fs.makeDirectory name = .ok after) :
    fs.Prepared after name := by
  obtain ⟨place, hplace, hfree, rfl⟩ := makeDirectory_eq_ok h
  refine ⟨rfl, fun wanted => ?_⟩
  rw [find?_put]
  by_cases hkey : wanted = key place
  · subst hkey
    exact .inr ⟨hfree, by rw [find?_put, if_pos rfl], place, hplace, rfl⟩
  · exact .inl (if_neg hkey)

theorem prepared_of_ensureDirectory (h : fs.ensureDirectory name = .ok after) :
    fs.Prepared after name := by
  unfold ensureDirectory at h
  split at h
  · rename_i hmade
    obtain rfl := Except.ok.inj h
    exact prepared_of_makeDirectory hmade
  · split_ifs at h
    obtain rfl := Except.ok.inj h
    exact .refl fs name

/-- Level by level, also if some level is refused in the end. -/
theorem prepared_createParents (levels : Nat) (name : String) (fs : FileSystem) :
    fs.Prepared (createParents levels name fs).2 name := by
  fun_induction createParents levels name fs with
  | case1 | case2 | case7 | case8 => exact .refl _ _
  | case3 _ name fs _ made hmade => exact prepared_of_ensureDirectory hmade
  | case4 _ name fs _ parent hparent _ fault made hmade ih =>
      rw [hmade] at ih
      exact ih.of_parent hparent
  | case5 _ name fs _ parent hparent _ made hmade after hafter ih =>
      rw [hmade] at ih
      exact (ih.of_parent hparent).trans (prepared_of_ensureDirectory hafter)
  | case6 _ name fs _ parent hparent _ made hmade fault hrefused ih =>
      rw [hmade] at ih
      exact ih.of_parent hparent

theorem prepared_createDirectories (name : String) (fs : FileSystem) :
    fs.Prepared (createDirectories name fs).2 name :=
  prepared_createParents _ name fs

/-- One file has the given text, under a key where there was no directory, and apart from it
nothing has changed but that directories have been added on the way to a directory. -/
structure Published (before after : FileSystem) (directory path text : String) : Prop where
  here : after.here = before.here
  content : after.readText path = .ok text
  entries : ∃ place, after.find path = .ok (place, .file (textBytes text)) ∧
    before.entries.find? (key place) ≠ some .directory ∧
    ∀ wanted ≠ key place, after.entries.find? wanted = before.entries.find? wanted ∨
      before.Added after directory wanted

theorem Prepared.published {before between : FileSystem} {directory path text : String}
    (prepared : before.Prepared between directory)
    (wrote : writeText path text between = (.ok (), after)) :
    before.Published after directory path text := by
  unfold writeText at wrote
  cases hwrote : between.writeBytes path (textBytes text) with
  | error fault => simp [hwrote] at wrote
  | ok written =>
    simp only [hwrote, Prod.mk.injEq, true_and] at wrote
    subst wrote
    obtain ⟨place, hother, hput, hfind⟩ := writeBytes_eq_ok hwrote
    refine ⟨?_, readText_of_find hfind, place, hfind, ?_, ?_⟩
    · rw [hput]
      exact prepared.here
    · rcases prepared.entries (key place) with hsame | hadded
      · rwa [← hsame]
      · rw [hadded.absent]
        exact (Option.some_ne_none _).symm
    · intro wanted hwanted
      have hkept : written.entries.find? wanted = between.entries.find? wanted := by
        rw [hput, find?_put, if_neg hwanted]
      rw [hkept]
      refine (prepared.entries wanted).imp_right fun hadded => ?_
      exact ⟨hadded.absent, hkept.trans hadded.present, hadded.onTheWay⟩

theorem writeText_error {text : String} {fault : FileFault}
    (refused : writeText name text fs = (.error fault, after)) : after = fs := by
  unfold writeText at refused
  cases hwrote : fs.writeBytes name (textBytes text) with
  | error fault =>
    simp only [hwrote, Prod.mk.injEq] at refused
    exact refused.2.symm
  | ok written => simp [hwrote] at refused

end FileSystem

end SchemaIR
