import ValidatorGen.Command.Run
import ValidatorGen.Proofs.Command.Files
import ValidatorGen.Proofs.Reading.Result

/-! What a command prints and leaves behind. Main statement: nothing at all if it fails while the disk
has room, and otherwise all files as they were but the one that it was told to write. -/
namespace ValidatorGen

def Directory.readText (disk : Disk) (d : Directory) (path : String) : Except CommandError String :=
  match d.read disk path with
  | .error e => .error (.file e)
  | .ok bytes =>
    match String.fromUTF8? bytes with
    | some text => .ok text
    | none => .error (.file .notText)

theorem Directory.readText_of_read {disk : Disk} {d : Directory} {path text : String}
    (h : d.read disk path = .ok text.toUTF8) : d.readText disk path = .ok text := by
  have htext : String.fromUTF8? text.toUTF8 = some text := dif_pos text.isValidUTF8
  simp only [readText, h, htext]

namespace Command

def input : Command → String
  | .gen input _ _ => input
  | .check input => input

def output? : Command → Option String
  | .gen _ output _ => output
  | .check _ => none

def target? (disk : Disk) (d : Directory) (c : Command) : Option String :=
  c.output?.bind (d.target? disk)

/-- A command line in a directory: the outcome, and the files afterwards. -/
def runIn (disk : Disk) (d : Directory) (args : List String) : Outcome × Directory :=
  ((runArguments (Directory.host disk) args).run d).run

/-- The ways in which a command ends, with the files that it leaves behind. -/
inductive Ends (disk : Disk) (d : Directory) : Command → Outcome × Directory → Prop
  | unread {c : Command} {e : CommandError} (h : d.readText disk c.input = .error e) :
    Ends disk d c (.finished (.error e) "", d)
  | refused {input text : String} {output : Option String} {o : Options} {e : CommandError}
    (htext : d.readText disk input = .ok text) (hcode : codeOf text o = .error e) :
    Ends disk d (.gen input output o) (.finished (.error e) "", d)
  | printed {input text code : String} {o : Options} (htext : d.readText disk input = .ok text)
    (hcode : codeOf text o = .ok code) :
    Ends disk d (.gen input none o) (.finished (.ok ()) (code ++ "\n"), d)
  | unwritten {input path text code : String} {o : Options} {e : FileError}
    (htext : d.readText disk input = .ok text) (hcode : codeOf text o = .ok code)
    (hwrite : (d.write disk path code).1 = .error e) :
    Ends disk d (.gen input (some path) o)
      (.finished (.error (.file e)) "", (d.write disk path code).2)
  | written {input path text code : String} {o : Options}
    (htext : d.readText disk input = .ok text) (hcode : codeOf text o = .ok code)
    (hwrite : (d.write disk path code).1 = .ok ()) :
    Ends disk d (.gen input (some path) o)
      (.finished (.ok ()) ("Generated zod code written to " ++ path ++ "\n"),
        (d.write disk path code).2)
  | rejected {input text : String} {e : ParseError} (htext : d.readText disk input = .ok text)
    (hparse : Node.parse text = .error e) :
    Ends disk d (.check input) (.finished (.error (.generate (.parse e))) "", d)
  | reported {input text : String} {node : Node} (htext : d.readText disk input = .ok text)
    (hparse : Node.parse text = .ok node) :
    Ends disk d (.check input)
      (.finished (.ok ()) (input ++ ": " ++ node.kind.name ++ " schema\n"), d)

section

variable (disk : Disk) (d : Directory)

def recorded (run : StateT String (StateM Directory) (Except CommandError Unit)) :
    Outcome × Directory :=
  let ((result, stdout), after) := ((run.run "").run d).run
  (.finished result stdout, after)

theorem run_readText (path printed : String) :
    ((readText (Directory.host disk).recorded path).run printed).run d
      = pure ((d.readText disk path, printed), d) := by
  have hread : (((Directory.host disk).recorded.read path).run printed).run d
      = pure ((d.read disk path, printed), d) := rfl
  unfold readText Directory.readText
  rw [StateT.run_bind, StateT.run_bind, hread, pure_bind]
  cases d.read disk path with
  | error e => rfl
  | ok bytes =>
    dsimp only
    cases String.fromUTF8? bytes <;> rfl

theorem run_write (path content printed : String) :
    (((Directory.host disk).recorded.write path content).run printed).run d
      = pure (((d.write disk path content).1, printed), (d.write disk path content).2) := rfl

theorem ends_gen (input : String) (output : Option String) (o : Options) :
    Ends disk d (.gen input output o)
      (recorded d (runGen (Directory.host disk).recorded input output o)) := by
  unfold recorded runGen
  rw [StateT.run_bind, StateT.run_bind, run_readText, pure_bind]
  cases htext : d.readText disk input with
  | error e => exact .unread htext
  | ok text =>
    dsimp only
    cases hcode : codeOf text o with
    | error e => exact .refused htext hcode
    | ok code =>
      cases output with
      | none => exact .printed htext hcode
      | some path =>
        dsimp only
        rw [StateT.run_bind, StateT.run_bind, run_write, pure_bind]
        cases hwrite : (d.write disk path code).1 with
        | error e => exact .unwritten htext hcode hwrite
        | ok _ => exact .written htext hcode hwrite

theorem ends_check (input : String) :
    Ends disk d (.check input) (recorded d (runCheck (Directory.host disk).recorded input)) := by
  unfold recorded runCheck
  rw [StateT.run_bind, StateT.run_bind, run_readText, pure_bind]
  cases htext : d.readText disk input with
  | error e => exact .unread htext
  | ok text =>
    dsimp only
    cases hparse : Node.parse text with
    | error e => exact .rejected htext hparse
    | ok node => exact .reported htext hparse

end

theorem ends_runIn {disk : Disk} {d : Directory} {args : List String} {c : Command}
    (h : ofArguments args = .ok c) : Ends disk d c (runIn disk d args) := by
  unfold runIn runArguments
  rw [h]
  cases c with
  | gen input output o => exact ends_gen disk d input output o
  | check input => exact ends_check disk d input

/-- A file with the beginning of its code, because the room ended there. -/
def CutShort (disk : Disk) (d after : Directory) (c : Command) : Prop :=
  ∃ name code, target? disk d c = some name ∧ ¬disk.holds (String.toUTF8 code)
    ∧ after = Entries.put name (disk.fill code.toUTF8) d

/-- A command that fails prints nothing, and leaves all files as they are unless the room ended in
the middle of the code. All files but the one to write stay in any case. -/
theorem effect_runIn (disk : Disk) (d : Directory) {args : List String} {c : Command}
    (h : ofArguments args = .ok c) :
    ((runIn disk d args).1.exitCode ≠ 0 → (runIn disk d args).1.stdout = ""
        ∧ ((runIn disk d args).2 = d ∨ CutShort disk d (runIn disk d args).2 c))
      ∧ ∀ name, target? disk d c ≠ some name →
        (runIn disk d args).2.lookup name = d.lookup name := by
  have hends : Ends disk d c (runIn disk d args) := ends_runIn h
  generalize runIn disk d args = result at hends
  cases hends with
  | unread | refused | rejected => exact ⟨fun _ => ⟨rfl, .inl rfl⟩, fun _ _ => rfl⟩
  | printed | reported => exact ⟨fun hexit => absurd rfl hexit, fun _ _ => rfl⟩
  | written =>
    exact ⟨fun hexit => absurd rfl hexit, fun name hname => Directory.lookup_write hname⟩
  | @unwritten _ _ _ code _ _ _ _ hwrite =>
    refine ⟨fun _ => ⟨rfl, ?_⟩, fun name hname => Directory.lookup_write hname⟩
    refine (Directory.write_error (by simp [hwrite])).imp_right ?_
    rintro ⟨hholds, name, hname, hafter⟩
    exact ⟨name, code, hname, hholds, hafter⟩

example : (runIn { room := some 3 } [("a", "\x7b\x7d".toUTF8)] ["gen", "-ia", "-ob"]).2
    = [("a", "\x7b\x7d".toUTF8), ("b", "z.a".toUTF8)] := by decide +kernel

/-- While a disk has room for every text, a command that fails prints nothing and leaves all files as
they are, also the one that it was to write. One that succeeds leaves all files as they are but that
one. -/
theorem changes_only_target {above : List String} {d : Directory} {args : List String} {c : Command}
    (h : ofArguments args = .ok c) :
    ((runIn { above } d args).1.exitCode ≠ 0 →
        (runIn { above } d args).1.stdout = "" ∧ (runIn { above } d args).2 = d)
      ∧ ((runIn { above } d args).1.exitCode = 0 → ∀ name, target? { above } d c ≠ some name →
        (runIn { above } d args).2.lookup name = d.lookup name) := by
  obtain ⟨hfails, hothers⟩ := effect_runIn { above } d h
  refine ⟨fun hexit => ?_, fun _ => hothers⟩
  obtain ⟨hstdout, hsame | ⟨name, code, -, hholds, -⟩⟩ := hfails hexit
  · exact ⟨hstdout, hsame⟩
  · exact absurd (Disk.holds_of_unlimited rfl _) hholds

/-- A file that holds no schema is not replaced by code, even if it is the one to write. A schema may
be replaced by its code, and then the other files stay. -/
theorem changes_only_target_same_file : ∃ disk d fails succeeds c c',
    disk = { above := ["tmp", "work"] }
    ∧ d = [("a.json", "\x7b".toUTF8), ("b.json", "\x7b\x7d".toUTF8)]
    ∧ fails = ["gen", "-i", "a.json", "--output=/tmp/./work/a.json"] ∧ ofArguments fails = .ok c
    ∧ target? disk d c = some "a.json" ∧ (runIn disk d fails).1.exitCode ≠ 0
    ∧ ((runIn disk d fails).1.stdout = "" ∧ (runIn disk d fails).2 = d)
    ∧ succeeds = ["gen", "--input", "b.json", "-o=../work/b.json"] ∧ ofArguments succeeds = .ok c'
    ∧ target? disk d c' = some "b.json" ∧ (runIn disk d succeeds).1.exitCode = 0
    ∧ (runIn disk d succeeds).2.lookup "a.json" = d.lookup "a.json" := by
  let above := ["tmp", "work"]
  let d : Directory := [("a.json", "\x7b".toUTF8), ("b.json", "\x7b\x7d".toUTF8)]
  let fails := ["gen", "-i", "a.json", "--output=/tmp/./work/a.json"]
  let succeeds := ["gen", "--input", "b.json", "-o=../work/b.json"]
  let c : Command := .gen "a.json" (some "/tmp/./work/a.json") {}
  let c' : Command := .gen "b.json" (some "../work/b.json") {}
  have hc : ofArguments fails = .ok c := toOption_eq_some_iff.1 (by decide +kernel)
  have hc' : ofArguments succeeds = .ok c' := toOption_eq_some_iff.1 (by decide +kernel)
  have htarget : target? { above } d c = some "a.json" := by decide +kernel
  have htarget' : target? { above } d c' = some "b.json" := by decide +kernel
  have hexit : (runIn { above } d fails).1.exitCode ≠ 0 := by decide +kernel
  have hexit' : (runIn { above } d succeeds).1.exitCode = 0 := by decide +kernel
  have hother : target? { above } d c' ≠ some "a.json" := by rw [htarget']; decide
  exact ⟨{ above }, d, fails, succeeds, c, c', rfl, rfl, rfl, hc, htarget, hexit,
    (changes_only_target hc).1 hexit, rfl, hc', htarget', hexit',
    (changes_only_target hc').2 hexit' "a.json" hother⟩

end Command
end ValidatorGen
