import Mathlib.Order.Basic
import SchemaIR.Lowering.Members

/-!
# Enumerations under a higher limit

An expansion looks at the limit in one place only, where it compares it with the length of
its chain, and what it drops there it reports. So an expansion that reports no such drop
goes the same way under every higher limit. Besides drops it reports circles; nothing that
it reports is among what a lowering run counts as cut.
-/

namespace SchemaIR

/-! ## Logs that grow -/

/-- Whether an event reports something that was dropped for nesting too deep and that the
counters of a run take in. A spread of an enumeration is not among them. -/
def Event.isCut : Event → Bool
  | .literalTooDeep _ | .constantTooDeep .. | .nestingTooDeep _ => true
  | _ => false

/-- Whether an event reports a spread of an enumeration that was dropped for making its
chain too long. -/
def Event.isShortened : Event → Bool
  | .enumChainTooDeep .. => true
  | _ => false

namespace Log

/-- How many cuts a log reports. -/
def cuts (log : Log) : Nat := log.countP Event.isCut

/-- No spread of an enumeration is reported as dropped. -/
def Whole (log : Log) : Prop := ∀ event ∈ log, event.isShortened = false

/-- The second log goes on from the first one and reports so many more cuts. -/
def Grows (log log' : Log) (cuts : Nat) : Prop :=
  ∃ events : Log, log' = log ++ events ∧ events.cuts = cuts

variable {log log' log'' events : Log} {event : Event} {m n : Nat}

theorem cuts_empty : Log.cuts #[] = 0 := Array.countP_empty

theorem cuts_singleton (event : Event) : Log.cuts #[event] = if event.isCut then 1 else 0 :=
  Array.countP_singleton

theorem Grows.refl (log : Log) : Grows log log 0 := ⟨#[], Array.append_empty.symm, cuts_empty⟩

theorem Grows.trans (h : Grows log log' m) (h' : Grows log' log'' n) :
    Grows log log'' (m + n) := by
  obtain ⟨events, rfl, rfl⟩ := h
  obtain ⟨more, rfl, rfl⟩ := h'
  exact ⟨events ++ more, Array.append_assoc, Array.countP_append⟩

theorem Grows.append (log : Log) (h : events.cuts = n) : Grows log (log ++ events) n :=
  ⟨events, rfl, h⟩

theorem Grows.push (log : Log) (event : Event) :
    Grows log (log.push event) (if event.isCut then 1 else 0) :=
  ⟨#[event], Array.push_eq_append, cuts_singleton event⟩

theorem Grows.quiet (log : Log) (uncut : event.isCut = false) : Grows log (log.push event) 0 := by
  have hpush := Grows.push log event
  rwa [uncut] at hpush

theorem Grows.cut (log : Log) (cut : event.isCut = true) : Grows log (log.push event) 1 := by
  have hpush := Grows.push log event
  rwa [cut] at hpush

theorem Grows.cuts_eq (h : Grows log log' n) : log'.cuts = log.cuts + n := by
  obtain ⟨events, rfl, rfl⟩ := h
  exact Array.countP_append

theorem Grows.mem (h : Grows log log' n) (hmem : event ∈ log) : event ∈ log' := by
  obtain ⟨events, rfl, _⟩ := h
  exact Array.mem_append_left _ hmem

theorem Grows.whole (h : Grows log log' n) (whole : log'.Whole) : log.Whole :=
  fun event hmem => whole event (h.mem hmem)

end Log

/-! ## Expansions -/

/-- What an expansion does under a limit, and under a higher one: it reports nothing that
counts as cut, and where it drops no spread the higher limit makes no difference. -/
structure MemberExpansion.Raised (low high : MemberExpansion) : Prop where
  grows : ∀ decl walk, Log.Grows walk.log (low decl walk).2.log 0
  same : ∀ decl walk, (low decl walk).2.log.Whole → high decl walk = low decl walk

section Spreads

variable {program : Program} {limit higher : Nat} {owner : String} {low high : MemberExpansion}

theorem spreadMembers_grows (h : low.Raised high) (spread : Reference) (walk : Walk) :
    Log.Grows walk.log (spreadMembers program limit owner low spread walk).2.log 0 := by
  unfold spreadMembers
  split
  · exact .refl _
  · split
    · exact .quiet _ rfl
    · split
      · exact .refl _
      · split
        · exact .quiet _ rfl
        · exact h.grows _ _

theorem spreadMembers_raise (h : low.Raised high) (raise : limit ≤ higher) (spread : Reference)
    (walk : Walk) (whole : (spreadMembers program limit owner low spread walk).2.log.Whole) :
    spreadMembers program higher owner high spread walk =
      spreadMembers program limit owner low spread walk := by
  unfold spreadMembers at whole ⊢
  split
  · rfl
  · next hplain =>
      rw [if_neg hplain] at whole
      split
      · rfl
      · next hfresh =>
          rw [if_neg hfresh] at whole
          cases hfound : program.enums.find? spread.name with
          | none => rfl
          | some target =>
              simp only [hfound] at whole
              by_cases full : limit ≤ walk.path.length
              · -- The drop is reported, so the log would not be whole.
                rw [if_pos full] at whole
                cases whole (.enumChainTooDeep owner limit) Array.mem_push_self
              · rw [if_neg full] at whole
                have room : ¬ higher ≤ walk.path.length := by omega
                simp only [if_neg full, if_neg room]
                exact h.same target walk whole

theorem inheritedMembers_grows (h : low.Raised high) (spreads : List Reference) (walk : Walk) :
    Log.Grows walk.log (inheritedMembers program limit owner low spreads walk).2.log 0 := by
  induction spreads generalizing walk with
  | nil => exact .refl _
  | cons spread rest ih => exact (spreadMembers_grows h spread walk).trans (ih _)

theorem inheritedMembers_raise (h : low.Raised high) (raise : limit ≤ higher)
    (spreads : List Reference) (walk : Walk)
    (whole : (inheritedMembers program limit owner low spreads walk).2.log.Whole) :
    inheritedMembers program higher owner high spreads walk =
      inheritedMembers program limit owner low spreads walk := by
  induction spreads generalizing walk with
  | nil => rfl
  | cons spread rest ih =>
      have hrest : (inheritedMembers program limit owner low rest
          (spreadMembers program limit owner low spread walk).2).2.log.Whole := whole
      have hfirst := (inheritedMembers_grows h rest _).whole hrest
      simp only [inheritedMembers, spreadMembers_raise h raise spread walk hfirst, ih _ hrest]

end Spreads

/-- The budget is the number of declarations under either limit, so the two expansions go
down it together. -/
theorem expandMembers_raised {limit higher : Nat} (program : Program) (raise : limit ≤ higher)
    (budget : Nat) :
    MemberExpansion.Raised (expandMembers program limit budget)
      (expandMembers program higher budget) := by
  induction budget with
  | zero => exact ⟨fun _ _ => .refl _, fun _ _ _ => rfl⟩
  | succ budget ih =>
      refine ⟨fun decl walk => ?_, fun decl walk whole => ?_⟩
      · exact inheritedMembers_grows ih decl.spreads (walk.enter decl.name)
      · have hinherited := inheritedMembers_raise ih raise decl.spreads
          (walk.enter decl.name) whole
        simp only [expandMembers, hinherited]

namespace Program

/-- Expanding an enumeration reports nothing that counts as cut. -/
theorem enumMembers_uncut (program : Program) (limit : Nat) (decl : EnumDecl) :
    (program.enumMembers limit decl).2.cuts = 0 := by
  have hraised := expandMembers_raised program (Nat.le_refl limit) (program.enums.size + 1)
  exact (hraised.grows decl {}).cuts_eq

/-- An expansion that drops no spread is the same under every higher limit. -/
theorem enumMembers_raise {program : Program} {limit higher : Nat} {decl : EnumDecl}
    (raise : limit ≤ higher) (whole : (program.enumMembers limit decl).2.Whole) :
    program.enumMembers higher decl = program.enumMembers limit decl := by
  have hsame := (expandMembers_raised program raise (program.enums.size + 1)).same decl {} whole
  simp only [enumMembers, hsame]

end Program

end SchemaIR
