import ValidatorGen.Proofs.Command.Arguments
import ValidatorGen.Proofs.Command.Run
import ValidatorGen.Proofs.Generate
import ValidatorGen.Proofs.Package.Name
import ValidatorGen.Proofs.Text.Visible

/-! The commands and `generate`, which they do not call. Main statement: `gen` makes of the text of a
file what `generate` makes of it or reports why that fails, and `check` tells whether `gen` would make
anything. -/
namespace ValidatorGen

/-- What the report of an error shows of it. -/
def GenerateError.texts : GenerateError → List String
  | .parse e => [e.pathText, e.message]
  | .invalidName name => [name]

namespace CommandError

theorem report_parse (e : ParseError) : (generate (.parse e)).report
    = "Error: " ++ ("ParseError \x7b path: " ++ (Text.visible e.pathText
      ++ (", msg: " ++ (Text.visible e.message ++ (" \x7d" ++ "\n"))))) := by
  unfold report describe
  dsimp only
  iterate 5 rw [String.append_assoc]

theorem report_invalidName (name : String) : (generate (.invalidName name)).report
    = "Error: " ++ ("InvalidName(" ++ (Text.visible name ++ (")" ++ "\n"))) := by
  unfold report describe
  dsimp only
  iterate 3 rw [String.append_assoc]

theorem report_parse_ne (e : ParseError) (name : String) :
    (generate (.parse e)).report ≠ (generate (.invalidName name)).report := by
  rw [report_parse, report_invalidName]
  intro h
  have hfirst := congrArg (·.toList.head?) ((String.append_right_inj _).1 h)
  simp at hfirst

/-- The line on standard error tells which error it is. -/
theorem texts_eq_of_report {e e' : GenerateError}
    (h : (generate e).report = (generate e').report) : e.texts = e'.texts := by
  cases e <;> cases e'
  case parse.parse e e' =>
    rw [report_parse, report_parse, String.append_right_inj, String.append_right_inj] at h
    obtain ⟨hpath, hrest⟩ := Text.visible_append_inj h
    rw [String.append_right_inj] at hrest
    simp only [GenerateError.texts, hpath, (Text.visible_append_inj hrest).1]
  case parse.invalidName e name => exact absurd h (report_parse_ne e name)
  case invalidName.parse name e => exact absurd h.symm (report_parse_ne e name)
  case invalidName.invalidName name name' =>
    rw [report_invalidName, report_invalidName, String.append_right_inj, String.append_right_inj]
      at h
    simp only [GenerateError.texts, (Text.visible_append_inj h).1]

end CommandError

namespace Command

theorem codeOf_eq (text : String) (o : Options) :
    codeOf text o = (generate text o).value.mapError CommandError.generate := by
  unfold codeOf generate
  simp only [Traced.value_bind]
  cases (compileText text).value with
  | error e => rfl
  | ok result =>
    obtain ⟨node, e⟩ := result
    dsimp only
    cases o.wrap e.render <;> rfl

theorem codeOf_eq_ok_iff {text code : String} {o : Options} :
    codeOf text o = .ok code ↔ (generate text o).value = .ok code := by
  rw [codeOf_eq, mapError_eq_ok_iff]

theorem codeOf_eq_error_iff {text : String} {o : Options} {e : CommandError} :
    codeOf text o = .error e ↔ ∃ e', (generate text o).value = .error e' ∧ .generate e' = e := by
  rw [codeOf_eq, mapError_eq_error_iff]

/-- A run ends with this error, and the line on standard error says so. -/
structure Reports (outcome : Outcome) (e : GenerateError) : Prop where
  ends : outcome = .finished (.error (.generate e)) ""
  line : outcome.stderr = "Error: " ++ (CommandError.generate e).describe ++ "\n"
  tells : ∀ e', outcome.stderr = (CommandError.generate e').report → e'.texts = e.texts

theorem reports_finished (e : GenerateError) :
    Reports (.finished (.error (.generate e)) "") e where
  ends := rfl
  line := rfl
  tells _ h := (CommandError.texts_eq_of_report h).symm

/-- A run of `gen` does what `generate` says, with a file to write or without one. -/
structure GenAgrees (disk : Disk) (d : Directory) (text : String) (output : Option String)
    (o : Options) (result : Outcome × Directory) : Prop where
  succeeds_iff : result.1.exitCode = 0
    ↔ ∃ code, (generate text o).value = .ok code ∧ ∀ path ∈ output, d.Writable disk path code
  prints : ∀ code, (generate text o).value = .ok code → output = none →
    result.1.stdout = code ++ "\n"
  writes : ∀ code path, (generate text o).value = .ok code → output = some path →
    d.Writable disk path code → d.write disk path code = (.ok (), result.2)
      ∧ ∀ name, d.target? disk path = some name → result.2.lookup name = some code.toUTF8
  reports : ∀ e, (generate text o).value = .error e → Reports result.1 e

/-- A run of `check` tells of a run of `gen` that has no name to bind and no file to write. -/
structure CheckAgrees (input text : String) (check gen : Outcome) : Prop where
  succeeds_iff : check.exitCode = 0 ↔ gen.exitCode = 0
  reports : ∀ e, Node.parse text = .error e → Reports check (.parse e) ∧ Reports gen (.parse e)
  kind : ∀ node e, (compileText text).value = .ok (node, e) →
    check = .finished (.ok ()) (input ++ ": " ++ node.kind.name ++ " schema\n")

section

variable {disk : Disk} {d : Directory} {text : String} {o : Options}

theorem gen_refused {e : GenerateError} {output : Option String}
    (h : (generate text o).value = .error e) :
    GenAgrees disk d text output o (.finished (.error (.generate e)) "", d) where
  succeeds_iff := by simp [Outcome.exitCode, h]
  prints code hcode := by simp [h] at hcode
  writes code path hcode := by simp [h] at hcode
  reports e' he' := by
    rw [← Except.error.inj (h.symm.trans he')]
    exact reports_finished e

theorem gen_printed {code : String} (h : (generate text o).value = .ok code) :
    GenAgrees disk d text none o (.finished (.ok ()) (code ++ "\n"), d) where
  succeeds_iff := by simp [Outcome.exitCode, h]
  prints code' hcode' _ := by rw [Except.ok.inj (hcode'.symm.trans h)]; rfl
  writes code path _ hpath := nomatch hpath
  reports e he := by simp [h] at he

theorem gen_unwritten {code path : String} {e : FileError}
    (h : (generate text o).value = .ok code) (hwrite : (d.write disk path code).1 = .error e) :
    GenAgrees disk d text (some path) o
      (.finished (.error (.file e)) "", (d.write disk path code).2) := by
  have hnot : ¬d.Writable disk path code := by
    intro hwritable
    rw [Directory.write_of_writable hwritable] at hwrite
    cases hwrite
  exact {
    succeeds_iff := by simp [Outcome.exitCode, h, hnot]
    prints := fun code _ hnone => nomatch hnone
    writes := fun code' path' hcode' hpath hwritable => by
      obtain rfl := Except.ok.inj (hcode'.symm.trans h)
      obtain rfl := Option.some.inj hpath
      exact absurd hwritable hnot
    reports := fun e he => by simp [h] at he }

theorem gen_written {code path message : String} (h : (generate text o).value = .ok code)
    (hwrite : (d.write disk path code).1 = .ok ()) :
    GenAgrees disk d text (some path) o
      (.finished (.ok ()) message, (d.write disk path code).2) where
  succeeds_iff := by simp [Outcome.exitCode, h, Directory.writable_of_write hwrite]
  prints code _ hnone := nomatch hnone
  writes code' path' hcode' hpath hwritable := by
    obtain rfl := Except.ok.inj (hcode'.symm.trans h)
    obtain rfl := Option.some.inj hpath
    exact ⟨Prod.ext hwrite rfl, fun name hname => Directory.lookup_written hwritable hname⟩
  reports e he := by simp [h] at he

end

section

variable {disk : Disk} {d : Directory} {input text : String}

theorem genAgrees_runIn {args : List String} {output : Option String} {o : Options}
    (hread : d.read disk input = .ok text.toUTF8)
    (hargs : ofArguments args = .ok (.gen input output o)) :
    GenAgrees disk d text output o (runIn disk d args) := by
  have htext : d.readText disk input = .ok text := Directory.readText_of_read hread
  have hends : Ends disk d _ (runIn disk d args) := ends_runIn hargs
  generalize runIn disk d args = result at hends
  cases hends with
  | unread h => cases htext.symm.trans h
  | refused htext' hcode =>
    cases htext.symm.trans htext'
    obtain ⟨e, he, rfl⟩ := codeOf_eq_error_iff.1 hcode
    exact gen_refused he
  | printed htext' hcode =>
    cases htext.symm.trans htext'
    exact gen_printed (codeOf_eq_ok_iff.1 hcode)
  | unwritten htext' hcode hwrite =>
    cases htext.symm.trans htext'
    exact gen_unwritten (codeOf_eq_ok_iff.1 hcode) hwrite
  | written htext' hcode hwrite =>
    cases htext.symm.trans htext'
    exact gen_written (codeOf_eq_ok_iff.1 hcode) hwrite

theorem runIn_check {args : List String} (hread : d.read disk input = .ok text.toUTF8)
    (hargs : ofArguments args = .ok (.check input)) :
    (runIn disk d args).1 = match Node.parse text with
      | .error e => .finished (.error (.generate (.parse e))) ""
      | .ok node => .finished (.ok ()) (input ++ ": " ++ node.kind.name ++ " schema\n") := by
  have htext : d.readText disk input = .ok text := Directory.readText_of_read hread
  have hends : Ends disk d _ (runIn disk d args) := ends_runIn hargs
  generalize runIn disk d args = result at hends
  cases hends with
  | unread h => cases htext.symm.trans h
  | rejected htext' hparse =>
    cases htext.symm.trans htext'
    rw [hparse]
  | reported htext' hparse =>
    cases htext.symm.trans htext'
    rw [hparse]

theorem checkAgrees_runIn {check gen : List String} {p : Packaging}
    (hread : d.read disk input = .ok text.toUTF8)
    (hcheck : ofArguments check = .ok (.check input))
    (hgen : ofArguments gen = .ok (.gen input none ⟨p, none⟩)) :
    CheckAgrees input text (runIn disk d check).1 (runIn disk d gen).1 := by
  have hrun := runIn_check hread hcheck
  have hagrees := genAgrees_runIn hread hgen
  cases hparse : Node.parse text with
  | error e =>
    have hfails := hagrees.reports _ (value_generate_of_parse_error hparse _)
    rw [hparse] at hrun
    exact {
      succeeds_iff := by rw [hrun, hfails.ends]
      reports := fun e' he' => by
        cases hparse.symm.trans he'
        exact ⟨hrun ▸ reports_finished (.parse e), hfails⟩
      kind := fun node e' he' => by simp [value_compileText, hparse, Except.map] at he' }
  | ok node =>
    have hexit : (runIn disk d gen).1.exitCode = 0 :=
      hagrees.succeeds_iff.2 ⟨_, value_generate_of_parse hparse _, by simp⟩
    rw [hparse] at hrun
    exact {
      succeeds_iff := iff_of_true (by rw [hrun]; rfl) hexit
      reports := fun e he => nomatch hparse.symm.trans he
      kind := fun node' e he => by
        obtain ⟨hparse', -⟩ := value_compileText_eq_ok_iff.1 he
        cases hparse.symm.trans hparse'
        exact hrun }

end

/-- The commands agree with `generate` on every text, with any packaging, name and file to write. The
first complaint is that of the text, and then that the name cannot be bound. -/
theorem agrees_with_generate {disk : Disk} {d : Directory} {input text : String}
    (hread : d.read disk input = .ok text.toUTF8) :
    (∀ output o args, ofArguments args = .ok (.gen input output o) →
        GenAgrees disk d text output o (runIn disk d args))
      ∧ (∀ e, Node.parse text = .error e → ∀ o, (generate text o).value = .error (.parse e))
      ∧ (∀ node, Node.parse text = .ok node → ∀ o e, (generate text o).value = .error e
        ↔ ∃ name, o.name = some name ∧ e = .invalidName name
          ∧ (name.toList ∉ namePattern.matches' ∨ name ∈ reservedWords))
      ∧ (∀ p check gen, ofArguments check = .ok (.check input) →
        ofArguments gen = .ok (.gen input none ⟨p, none⟩) →
        CheckAgrees input text (runIn disk d check).1 (runIn disk d gen).1)
      ∧ (∃ args, ofArguments args = .ok (.check input))
      ∧ ∀ output o, output ≠ some "" → ∃ args, ofArguments args = .ok (.gen input output o) := by
  have hnamed : input ≠ "" := by
    rintro rfl
    cases (Directory.read_empty disk d).symm.trans hread
  refine ⟨fun output o args hargs => genAgrees_runIn hread hargs,
    fun e he o => value_generate_of_parse_error he o, fun node hnode o e => ?_,
    fun p check gen hcheck hgen => checkAgrees_runIn hread hcheck hgen,
    ⟨_, ofArguments_arguments (c := .check input) hnamed⟩,
    fun output o houtput => ⟨_, ofArguments_arguments (c := .gen input output o) ⟨hnamed, houtput⟩⟩⟩
  rw [value_generate_of_parse hnode, Options.wrap_eq_error_iff]
  simp only [isBindable_iff, not_and_or, not_not]

/-- Code for a module goes to a new file, and a reserved name is refused with a line that says so. -/
theorem agrees_with_generate_module : ∃ (disk : Disk) (d : Directory) (text code : String)
    (args refused : List String),
    disk = { above := ["home"], room := some 1000 }
    ∧ d = [("a.json", text.toUTF8)] ∧ d.read disk "a.json" = .ok text.toUTF8
    ∧ args = ["gen", "-i", "a.json", "-o", "a.ts", "--module=esm", "-nuser"]
    ∧ ofArguments args = .ok (.gen "a.json" (some "a.ts") ⟨.esm, some "user"⟩)
    ∧ (generate text ⟨.esm, some "user"⟩).value = .ok code
    ∧ (runIn disk d args).1.exitCode = 0
    ∧ (runIn disk d args).2.lookup "a.ts" = some code.toUTF8
    ∧ refused = ["gen", "-i", "a.json", "-nyield"]
    ∧ ofArguments refused = .ok (.gen "a.json" none ⟨.plain, some "yield"⟩)
    ∧ (generate text ⟨.plain, some "yield"⟩).value = .error (.invalidName "yield")
    ∧ (runIn disk d refused).1.exitCode = 1
    ∧ (runIn disk d refused).1.stderr = "Error: InvalidName(\"yield\")\n" := by
  let disk : Disk := { above := ["home"], room := some 1000 }
  let text := "\x7b\"type\": \"null\"\x7d"
  let d : Directory := [("a.json", text.toUTF8)]
  let args := ["gen", "-i", "a.json", "-o", "a.ts", "--module=esm", "-nuser"]
  let refused := ["gen", "-i", "a.json", "-nyield"]
  let code := Options.esmHeader ++ "export const user = z.null()"
  have hread : d.read disk "a.json" = .ok text.toUTF8 := toOption_eq_some_iff.1 (by decide +kernel)
  have hargs : ofArguments args = .ok (.gen "a.json" (some "a.ts") ⟨.esm, some "user"⟩) :=
    toOption_eq_some_iff.1 (by decide +kernel)
  have hrefused : ofArguments refused = .ok (.gen "a.json" none ⟨.plain, some "yield"⟩) :=
    toOption_eq_some_iff.1 (by decide +kernel)
  have hcode : (generate text ⟨.esm, some "user"⟩).value = .ok code :=
    toOption_eq_some_iff.1 (by decide +kernel)
  obtain ⟨node, e, hcompile, -⟩ := value_generate_eq_ok_iff.1 hcode
  have hparse : Node.parse text = .ok node := (value_compileText_eq_ok_iff.1 hcompile).1
  have htarget : d.target? disk "a.ts" = some "a.ts" := by decide +kernel
  have hopened : d.create disk "a.ts" = .ok (some "a.ts") :=
    toOption_eq_some_iff.1 (by decide +kernel)
  have hwritable : d.Writable disk "a.ts" code := ⟨⟨_, hopened⟩, by decide +kernel⟩
  obtain ⟨hgen, -, hname, -⟩ := agrees_with_generate hread
  have hrun := hgen _ _ _ hargs
  have hinvalid : (generate text ⟨.plain, some "yield"⟩).value = .error (.invalidName "yield") :=
    (hname node hparse _ _).2 ⟨"yield", rfl, rfl, .inr (by decide)⟩
  have hreports := (hgen _ _ _ hrefused).reports _ hinvalid
  have hline : "Error: " ++ (CommandError.generate (.invalidName "yield")).describe ++ "\n"
      = "Error: InvalidName(\"yield\")\n" := by decide +kernel
  exact ⟨disk, d, text, code, args, refused, rfl, rfl, hread, rfl, hargs, hcode,
    hrun.succeeds_iff.2 ⟨code, hcode, by simpa using hwritable⟩,
    (hrun.writes code "a.ts" hcode rfl hwritable).2 "a.ts" htarget,
    rfl, hrefused, hinvalid, by rw [hreports.ends]; rfl, hreports.line.trans hline⟩

end Command
end ValidatorGen
