import Mathlib
import SchemaIR.Generation
import SchemaIR.Program.Builder
import SchemaIR.Proofs.Files

/-!
# What a generation touches

A generation checks its settings, loads a program, lowers it, makes the directory for the answer
and writes the file, and any of these but the lowering may be refused. The first two leave the
disk alone. So a generation that is stopped by its settings or by its input has touched nothing,
one that is stopped later has added directories and nothing else, and one that is not stopped has
written one file besides. What the file holds comes from the program and the settings of the same
generation.

A run is a computation with failures on top of reports on top of a disk. What it comes to is found
step by step, from what the first step comes to and what the others do after it.
-/

namespace SchemaIR

open FileSystem

/-! ## Runs on a file system -/

namespace Run

variable {α β : Type} {reports reports' : Array Report} {fs after : FileSystem}

/-- What a run comes to on a file system, after some reports. -/
def on (run : Run (StateM FileSystem) α) (reports : Array Report) (fs : FileSystem) :
    (Except Failure α × Array Report) × FileSystem :=
  ((ExceptT.run run).run reports).run fs

section Bind

variable {first : Run (StateM FileSystem) α} {next : α → Run (StateM FileSystem) β}

theorem on_bind_ok {a : α} (h : first.on reports fs = ((.ok a, reports'), after)) :
    (first >>= next).on reports fs = (next a).on reports' after := by
  unfold on at h ⊢
  rw [ExceptT.run_bind, StateT.run_bind, StateT.run_bind, h]
  rfl

theorem on_bind_error {failure : Failure}
    (h : first.on reports fs = ((.error failure, reports'), after)) :
    (first >>= next).on reports fs = ((.error failure, reports'), after) := by
  unfold on at h ⊢
  rw [ExceptT.run_bind, StateT.run_bind, StateT.run_bind, h]
  rfl

end Bind

theorem on_lift (request : StateM FileSystem α) :
    on (liftM request) reports fs = ((.ok (request fs).1, reports), (request fs).2) :=
  rfl

variable {context : String} {request : StateM FileSystem (Except FileFault α)}

theorem on_ask_ok {a : α} (h : request fs = (.ok a, after)) :
    (ask context request).on reports fs = ((.ok a, reports), after) := by
  rw [ask, on_bind_ok (on_lift request), h]
  rfl

theorem on_ask_error {fault : FileFault} (h : request fs = (.error fault, after)) :
    (ask context request).on reports fs =
      ((.error ((Failure.of (.file fault)).inside context), reports), after) := by
  rw [ask, on_bind_ok (on_lift request), h]
  rfl

end Run

theorem reportLowered_on (program : Program) (limit : Nat) (lowered : Lowered)
    (reports : Array Report) (fs : FileSystem) :
    ∃ reports', Run.on (reportLowered program limit lowered) reports fs =
      ((.ok (), reports'), fs) := by
  unfold reportLowered
  rw [Run.on_bind_ok rfl, Run.on_bind_ok rfl]
  dsimp only
  split_ifs
  · exact ⟨_, rfl⟩
  · exact ⟨_, rfl⟩

/-! ## Program files -/

namespace FileSystem

variable {fs : FileSystem} {input : String}

/-- A file is read, and its text is a program in the format that its name asks for. -/
def Holds (fs : FileSystem) (input : String) (program : Program) : Prop :=
  ∃ text format, fs.readText input = .ok text ∧
    Format.ofExtension? ((FileName.extension? input).getD "") = some format ∧
    Program.ofText format text = .ok program

/-- Why there is no program in a file. -/
inductive Lacks (fs : FileSystem) (input : String) : Cause → Prop where
  | unreadable {fault : FileFault} (refused : fs.readText input = .error fault) :
      Lacks fs input (.file fault)
  | unsupported {text extension : String} (read : fs.readText input = .ok text)
      (named : (FileName.extension? input).getD "" = extension)
      (foreign : Format.ofExtension? extension = none) :
      Lacks fs input (.unsupportedFormat s!"{input} (extension {Text.quoted extension})")
  | malformed {text : String} {format : Format} {cause : Cause}
      (read : fs.readText input = .ok text)
      (named : Format.ofExtension? ((FileName.extension? input).getD "") = some format)
      (refused : Program.ofText format text = .error cause) : Lacks fs input cause

theorem load_of_readText {text : String} (read : fs.readText input = .ok text) :
    (Program.load input : StateM FileSystem _) fs = (Program.ofFile input text, fs) := by
  simp only [Program.load, Disk.readText, bind, StateT.bind, read]
  rfl

theorem load_of_refused {fault : FileFault} (refused : fs.readText input = .error fault) :
    (Program.load input : StateM FileSystem _) fs = (.error (.file fault), fs) := by
  simp only [Program.load, Disk.readText, bind, StateT.bind, refused]
  rfl

theorem Holds.load_eq {program : Program} (h : fs.Holds input program) :
    (Program.load input : StateM FileSystem _) fs = (.ok program, fs) := by
  obtain ⟨text, format, hread, hformat, hprogram⟩ := h
  rw [load_of_readText hread]
  simp only [Program.ofFile, hformat, hprogram]

theorem Lacks.load_eq {cause : Cause} (h : fs.Lacks input cause) :
    (Program.load input : StateM FileSystem _) fs = (.error cause, fs) := by
  cases h with
  | unreadable refused => exact load_of_refused refused
  | unsupported read named foreign =>
      rw [load_of_readText read]
      simp only [Program.ofFile, named, foreign]
  | malformed read named refused =>
      rw [load_of_readText read]
      simp only [Program.ofFile, named, refused]

theorem Holds.unique {program other : Program} (h : fs.Holds input program)
    (h' : fs.Holds input other) : program = other := by
  have hloads := h.load_eq.symm.trans h'.load_eq
  exact Except.ok.inj (congrArg Prod.fst hloads)

theorem Holds.not_lacks {program : Program} {cause : Cause} (h : fs.Holds input program) :
    ¬ fs.Lacks input cause := by
  intro hlacks
  have hloads := h.load_eq.symm.trans hlacks.load_eq
  cases congrArg Prod.fst hloads

theorem holds_or_lacks (fs : FileSystem) (input : String) :
    (∃ program, fs.Holds input program) ∨ ∃ cause, fs.Lacks input cause := by
  cases hread : fs.readText input with
  | error fault => exact .inr ⟨_, .unreadable hread⟩
  | ok text =>
    cases hformat : Format.ofExtension? ((FileName.extension? input).getD "") with
    | none => exact .inr ⟨_, .unsupported hread rfl hformat⟩
    | some format =>
      cases hprogram : Program.ofText format text with
      | error cause => exact .inr ⟨cause, .malformed hread hformat hprogram⟩
      | ok program => exact .inl ⟨program, text, format, hread, hformat, hprogram⟩

end FileSystem

/-! ## Outcomes -/

/-- The text that a generation writes for a program. -/
def Settings.schemaText (settings : Settings) (program : Program) : String :=
  (program.lower settings.build.maxDepth).schema.render settings.ir

section Generation

variable (input directory : String) (settings : Settings) (fs : FileSystem)

/-- What a generation comes to, by the first step that is refused. -/
inductive Generates : Except Failure String → FileSystem → Prop where
  | unusable {failure : Failure} (invalid : settings.validate = .error failure) :
      Generates (.error failure) fs
  | unloaded {cause : Cause} (valid : settings.validate = .ok ()) (lacks : fs.Lacks input cause) :
      Generates (.error ((Failure.of cause).inside s!"Failed to load program: {input}")) fs
  | unprepared {program : Program} {fault : FileFault} {after : FileSystem}
      (valid : settings.validate = .ok ()) (holds : fs.Holds input program)
      (refused : createDirectories directory fs = (.error fault, after)) :
      Generates (.error ((Failure.of (.file fault)).inside
        s!"Failed to create output directory: {directory}")) after
  | unwritten {program : Program} {fault : FileFault} {between after : FileSystem}
      (valid : settings.validate = .ok ()) (holds : fs.Holds input program)
      (made : createDirectories directory fs = (.ok (), between))
      (refused : writeText (FileName.join directory settings.ir.filename)
        (settings.schemaText program) between = (.error fault, after)) :
      Generates (.error ((Failure.of (.file fault)).inside
        s!"Failed to write IR: {FileName.join directory settings.ir.filename}")) after
  | written {program : Program} {between after : FileSystem}
      (valid : settings.validate = .ok ()) (holds : fs.Holds input program)
      (made : createDirectories directory fs = (.ok (), between))
      (wrote : writeText (FileName.join directory settings.ir.filename)
        (settings.schemaText program) between = (.ok (), after)) :
      Generates (.ok (FileName.join directory settings.ir.filename)) after

theorem generates_on : ∃ answer reports after,
    (generate input directory settings).on #[] fs = ((answer, reports), after) ∧
      Generates input directory settings fs answer after := by
  unfold generate
  cases hvalid : settings.validate with
  | error failure => exact ⟨_, _, _, rfl, .unusable hvalid⟩
  | ok valid =>
    simp only
    rw [Run.on_bind_ok rfl, Run.on_bind_ok (Run.on_lift _)]
    obtain ⟨program, holds⟩ | ⟨cause, lacks⟩ := fs.holds_or_lacks input
    · rw [holds.load_eq, Run.on_bind_ok rfl]
      obtain ⟨reports, hreports⟩ := reportLowered_on program settings.build.maxDepth
        (program.lower settings.build.maxDepth) _ fs
      rw [Run.on_bind_ok hreports]
      rcases hmade : (Disk.createDirectories directory : StateM FileSystem _) fs with
        ⟨fault | made, between⟩
      · rw [Run.on_bind_error (Run.on_ask_error hmade)]
        exact ⟨_, _, _, rfl, .unprepared hvalid holds hmade⟩
      rw [Run.on_bind_ok (Run.on_ask_ok hmade)]
      rcases hwrote : (Disk.writeText (FileName.join directory settings.ir.filename)
        (settings.schemaText program) : StateM FileSystem _) between with ⟨fault | wrote, after⟩
      · rw [Settings.schemaText] at hwrote
        rw [Run.on_bind_error (Run.on_ask_error hwrote)]
        exact ⟨_, _, _, rfl, .unwritten hvalid holds hmade hwrote⟩
      · rw [Settings.schemaText] at hwrote
        rw [Run.on_bind_ok (Run.on_ask_ok hwrote)]
        exact ⟨_, _, _, rfl, .written hvalid holds hmade hwrote⟩
    · rw [lacks.load_eq, Run.on_bind_error rfl]
      exact ⟨_, _, _, rfl, .unloaded hvalid lacks⟩

variable {input directory settings fs} {answer : Except Failure String} {after : FileSystem}

namespace Generates

theorem of_invalid {failure : Failure} (h : Generates input directory settings fs answer after)
    (invalid : settings.validate = .error failure) : answer = .error failure ∧ after = fs := by
  cases h with
  | unusable invalid' =>
      rw [invalid] at invalid'
      obtain rfl := Except.error.inj invalid'
      exact ⟨rfl, rfl⟩
  | unloaded valid | unprepared valid | unwritten valid | written valid =>
      rw [invalid] at valid
      cases valid

theorem of_lacks {cause : Cause} (h : Generates input directory settings fs answer after)
    (valid : settings.validate = .ok ()) (lacks : fs.Lacks input cause) :
    answer = .error ((Failure.of cause).inside s!"Failed to load program: {input}") ∧
      after = fs := by
  cases h with
  | unusable invalid =>
      rw [valid] at invalid
      cases invalid
  | unloaded _ lacks' =>
      have hloads := lacks.load_eq.symm.trans lacks'.load_eq
      obtain rfl := Except.error.inj (congrArg Prod.fst hloads)
      exact ⟨rfl, rfl⟩
  | unprepared _ holds | unwritten _ holds | written _ holds => exact absurd lacks holds.not_lacks

theorem published {path : String} (h : Generates input directory settings fs (.ok path) after) :
    path = FileName.join directory settings.ir.filename ∧
      ∃ program, fs.Holds input program ∧
        fs.Published after directory path (settings.schemaText program) := by
  cases h with
  | @written program between _ _ holds made wrote =>
      have hprepared := prepared_createDirectories directory fs
      rw [made] at hprepared
      exact ⟨rfl, program, holds, hprepared.published wrote⟩

theorem prepared {failure : Failure}
    (h : Generates input directory settings fs (.error failure) after) :
    fs.Prepared after directory := by
  have hprepared := prepared_createDirectories directory fs
  cases h with
  | unusable | unloaded => exact .refl fs directory
  | unprepared _ _ refused =>
      rw [refused] at hprepared
      exact hprepared
  | unwritten _ _ made refused =>
      rw [made] at hprepared
      rw [writeText_error refused]
      exact hprepared

theorem answers {program : Program} (h : Generates input directory settings fs answer after)
    (valid : settings.validate = .ok ()) (holds : fs.Holds input program)
    (made : (createDirectories directory fs).1 = .ok ())
    (wrote : (writeText (FileName.join directory settings.ir.filename)
      (settings.schemaText program) (createDirectories directory fs).2).1 = .ok ()) :
    answer = .ok (FileName.join directory settings.ir.filename) := by
  cases h with
  | unusable invalid =>
      rw [valid] at invalid
      cases invalid
  | unloaded _ lacks => exact absurd lacks holds.not_lacks
  | unprepared _ _ refused =>
      rw [refused] at made
      cases made
  | unwritten _ holds' made' refused =>
      obtain rfl := holds.unique holds'
      rw [made', refused] at wrote
      cases wrote
  | written => rfl

end Generates

end Generation

/-- Settings that are refused and input without a program stop a generation before anything is
touched, the settings first. A generation that answers with a name has written the schema of the
program there. In every case the rest is directories that were missing on the way to the output
directory. -/
theorem generate_touches_promised (input directory : String) (settings : Settings)
    (fs : FileSystem) :
    ∃ answer reports after,
      (generate input directory settings : Run (StateM FileSystem) String).perform fs =
        ((answer, reports), after) ∧
      (∀ failure, settings.validate = .error failure →
        answer = .error failure ∧ after = fs) ∧
      (∀ cause, settings.validate = .ok () → fs.Lacks input cause →
        answer = .error ((Failure.of cause).inside s!"Failed to load program: {input}") ∧
          after = fs) ∧
      (∀ path, answer = .ok path → path = FileName.join directory settings.ir.filename ∧
        ∃ program, fs.Holds input program ∧
          fs.Published after directory path (settings.schemaText program)) ∧
      (∀ failure, answer = .error failure → fs.Prepared after directory) ∧
      (∀ program, settings.validate = .ok () → fs.Holds input program →
        (createDirectories directory fs).1 = .ok () →
        (writeText (FileName.join directory settings.ir.filename) (settings.schemaText program)
          (createDirectories directory fs).2).1 = .ok () →
        answer = .ok (FileName.join directory settings.ir.filename)) := by
  obtain ⟨answer, reports, after, hrun, hgenerates⟩ := generates_on input directory settings fs
  refine ⟨answer, reports, after, hrun, ?_⟩
  refine ⟨fun _ => hgenerates.of_invalid, fun _ => hgenerates.of_lacks, ?_, ?_,
    fun _ => hgenerates.answers⟩
  · rintro path rfl
    exact hgenerates.published
  · rintro failure rfl
    exact hgenerates.prepared

/-- The text of a program with one constant. -/
def switchText : String :=
  "\x7b\"consts\":\x7b\"on\":\x7b\"name\":\"on\"," ++
    "\"value\":\x7b\"kind\":\"bool\",\"value\":true\x7d\x7d\x7d\x7d"

/-- The program of that text. -/
def switch : Program := ({} : Program).declareConst (.called "on" (.bool true))

/-- The schema of that program, in one line. -/
def switchSchema : String :=
  "\x7b\"types\":[],\"enums\":[],\"constants\":[\x7b\"name\":\"on\",\"annotations\":[]," ++
    "\"type\":\x7b\"kind\":\"primitive\",\"primitive\":\"bool\"\x7d," ++
    "\"value\":\x7b\"kind\":\"bool\",\"value\":true\x7d\x7d],\"docs\":[]\x7d"

/-- A program file, one that breaks off, and one whose name asks for no format. -/
def workshop : FileSystem :=
  { here := ["work"]
    entries := .ofList [("work", .directory),
      ("work/switch.json", .file (textBytes switchText)),
      ("work/broken.json", .file (textBytes "[")),
      ("work/notes.txt", .file (textBytes switchText))] }

theorem generate_touches_promised_workshop :
    let settings : Settings := { ir := { minify := true } }
    (∃ reports after,
      (generate "switch.json" "./out/deep" settings :
        Run (StateM FileSystem) String).perform workshop =
        ((.ok "./out/deep/ir.json", reports), after) ∧
      workshop.Published after "./out/deep" "./out/deep/ir.json" switchSchema) ∧
    (∃ reports,
      (generate "broken.json" "out" settings : Run (StateM FileSystem) String).perform workshop =
        ((.error ⟨["Failed to load program: broken.json"], .json⟩, reports), workshop)) ∧
    (∃ reports,
      (generate "notes.txt" "out" settings : Run (StateM FileSystem) String).perform workshop =
        ((.error ⟨["Failed to load program: notes.txt"],
          .unsupportedFormat "notes.txt (extension \"txt\")"⟩, reports), workshop)) ∧
    ∃ reports,
      (generate "broken.json" "out" { build := { maxDepth := 0 } } :
        Run (StateM FileSystem) String).perform workshop =
        ((.error ⟨["Invalid [build] section"], .invalidConfig "max_depth must be at least 1"⟩,
          reports), workshop) := by
  intro settings
  have hswitch : workshop.find "switch.json" =
      .ok (["work", "switch.json"], .file (textBytes switchText)) := by decide +kernel
  have hbroken : workshop.find "broken.json" =
      .ok (["work", "broken.json"], .file (textBytes "[")) := by decide +kernel
  have hnotes : workshop.find "notes.txt" =
      .ok (["work", "notes.txt"], .file (textBytes switchText)) := by decide +kernel
  refine ⟨?_, ?_, ?_, ?_⟩
  · obtain ⟨answer, reports, after, hrun, -, -, hwritten, -, hanswers⟩ :=
      generate_touches_promised "switch.json" "./out/deep" settings workshop
    have hholds : workshop.Holds "switch.json" switch :=
      ⟨switchText, .json, readText_of_find hswitch, by decide, by cbv⟩
    have htext : settings.schemaText switch = switchSchema := by
      dsimp only [settings]
      cbv
    have hpath : FileName.join "./out/deep" "ir.json" = "./out/deep/ir.json" := by
      decide +kernel
    obtain rfl := hanswers switch rfl hholds (by decide +kernel) (by
      rw [htext]
      decide +kernel)
    obtain ⟨-, program, hprogram, hpublished⟩ := hwritten _ rfl
    obtain rfl := hholds.unique hprogram
    rw [htext] at hpublished
    rw [hpath] at hpublished hrun
    exact ⟨reports, after, hrun, hpublished⟩
  · obtain ⟨answer, reports, after, hrun, -, hlacks, -⟩ :=
      generate_touches_promised "broken.json" "out" settings workshop
    have hrefused : Program.ofText .json "[" = .error .json := by cbv
    obtain ⟨rfl, rfl⟩ :=
      hlacks .json rfl (.malformed (readText_of_find hbroken) (by decide) hrefused)
    refine ⟨reports, hrun.trans ?_⟩
    refine congrArg (fun failure => ((Except.error failure, reports), workshop)) ?_
    decide +kernel
  · obtain ⟨answer, reports, after, hrun, -, hlacks, -⟩ :=
      generate_touches_promised "notes.txt" "out" settings workshop
    obtain ⟨rfl, rfl⟩ := hlacks _ rfl (.unsupported (readText_of_find hnotes)
      (by decide : _ = "txt") (by decide))
    refine ⟨reports, hrun.trans ?_⟩
    refine congrArg (fun failure => ((Except.error failure, reports), workshop)) ?_
    decide +kernel
  · obtain ⟨answer, reports, after, hrun, hinvalid, -⟩ :=
      generate_touches_promised "broken.json" "out" { build := { maxDepth := 0 } } workshop
    obtain ⟨rfl, rfl⟩ := hinvalid _ rfl
    exact ⟨reports, hrun⟩

end SchemaIR
