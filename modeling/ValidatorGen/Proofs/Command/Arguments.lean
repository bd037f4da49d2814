import Mathlib.Data.List.Basic
import ValidatorGen.Command.Arguments

/-! Command lines that ask for a given command. Main statement: every command on files that have a
name can be asked for, with any packaging and any name to bind. -/
namespace ValidatorGen

def Packaging.argument : Packaging → String
  | .plain => "none"
  | .esm => "esm"
  | .cjs => "cjs"

theorem Packaging.ofArgument?_argument (p : Packaging) : ofArgument? p.argument = some p := by
  cases p <;> decide

/-- The argument that gives a setting its value, whatever the value looks like. -/
def Setting.argument (k : Setting) (value : String) : String := "--" ++ k.longName ++ "=" ++ value

theorem Argument.ofText_argument {allowed : List Setting} {k : Setting} (value : String)
    (h : allowed.find? (·.longName == k.longName) = some k) :
    ofText allowed (k.argument value) = .setting k (some value) := by
  have hall : k.longName.toList.all (· ≠ '=') := by cases k <;> decide
  have hname := List.all_eq_true.1 hall
  have htake : (k.longName.toList ++ '=' :: value.toList).takeWhile (· ≠ '=')
      = k.longName.toList := by
    rw [List.takeWhile_append_of_pos hname]
    simp
  have hdrop : (k.longName.toList ++ '=' :: value.toList).dropWhile (· ≠ '=')
      = '=' :: value.toList := by
    rw [List.dropWhile_append_of_pos hname]
    simp
  have hlong : ofLong allowed (k.longName.toList ++ '=' :: value.toList)
      = .setting k (some value) := by
    simp only [ofLong, htake, hdrop, String.ofList_toList, h, List.tail?_cons, Option.map_some]
  have htext : (k.argument value).toList
      = '-' :: '-' :: (k.longName.toList ++ '=' :: value.toList) := by simp [Setting.argument]
  obtain ⟨c, rest, hcons⟩ :=
    List.exists_cons_of_ne_nil (by simp : k.longName.toList ++ '=' :: value.toList ≠ [])
  rw [hcons] at htext hlong
  simpa only [ofText, htext] using hlong

namespace Settings

def put (s : Settings) (k : Setting) (value : Option String) : Settings :=
  fun other => if other = k then value else s other

theorem read_argument {allowed : List Setting} {k : Setting} (value : Option String)
    {rest : List String} {s : Settings} (hknown : allowed.find? (·.longName == k.longName) = some k)
    (hfresh : s k = none) (haccepts : ∀ text ∈ value, accepts k text) :
    read allowed (value.toList.map k.argument ++ rest) s = read allowed rest (s.put k value) := by
  cases value with
  | none =>
    have hsame : s.put k none = s := by
      funext other
      by_cases h : other = k
      · simp [put, h, hfresh]
      · simp [put, h]
    rw [hsame]
    rfl
  | some text =>
    have hassign : s.assign k text = .ok (s.put k (some text)) := by
      simp [assign, hfresh, haccepts text rfl]
      rfl
    change read allowed (k.argument text :: rest) s = _
    rw [read, Argument.ofText_argument text hknown]
    simp [hassign, bind, Except.bind]

end Settings

namespace Command

def arguments : Command → List String
  | .gen input output o =>
    "gen" :: ([input].map Setting.input.argument ++ (output.toList.map Setting.output.argument
      ++ ([o.packaging.argument].map Setting.packaging.argument
        ++ (o.name.toList.map Setting.name.argument ++ []))))
  | .check input => "check" :: ([input].map Setting.input.argument ++ [])

/-- No file has an empty name. -/
def FilesNamed : Command → Prop
  | .gen input output _ => input ≠ "" ∧ output ≠ some ""
  | .check input => input ≠ ""

theorem accepts_file {k : Setting} (hk : k = .input ∨ k = .output) {value : Option String}
    (h : value ≠ some "") : ∀ text ∈ value, Settings.accepts k text := by
  rintro text rfl
  rcases hk with rfl | rfl <;> simpa [Settings.accepts] using h

/-- Every command on files with names can be asked for. -/
theorem ofArguments_arguments {c : Command} (h : c.FilesNamed) :
    ofArguments c.arguments = .ok c := by
  cases c with
  | check input =>
    have hinput := accepts_file (.inl rfl) (fun heq => h (Option.some.inj heq))
    have hread : Settings.read [.input] ([input].map Setting.input.argument ++ []) .empty
        = .ok (Settings.empty.put .input (some input)) :=
      Settings.read_argument (some input) rfl rfl hinput
    simp only [ofArguments, arguments, readCheck, hread]
    rfl
  | gen input output o =>
    have hinput := accepts_file (.inl rfl) (fun heq => h.1 (Option.some.inj heq))
    have hpackaging : ∀ text ∈ some o.packaging.argument, Settings.accepts .packaging text := by
      simp [Settings.accepts, Packaging.ofArgument?_argument]
    let s₁ := Settings.empty.put .input (some input)
    let s₂ := s₁.put .output output
    let s₃ := s₂.put .packaging (some o.packaging.argument)
    let ofName := o.name.toList.map Setting.name.argument ++ []
    let ofPackaging := [o.packaging.argument].map Setting.packaging.argument ++ ofName
    let ofOutput := output.toList.map Setting.output.argument ++ ofPackaging
    let ofInput := [input].map Setting.input.argument ++ ofOutput
    have hread : Settings.read [.input, .output, .packaging, .name] ofInput .empty
        = .ok (s₃.put .name o.name) := calc
      _ = Settings.read _ ofOutput s₁ := Settings.read_argument (some input) rfl rfl hinput
      _ = Settings.read _ ofPackaging s₂ :=
        Settings.read_argument output rfl rfl (accepts_file (.inr rfl) h.2)
      _ = Settings.read _ ofName s₃ :=
        Settings.read_argument (some o.packaging.argument) rfl rfl hpackaging
      _ = Settings.read _ [] (s₃.put .name o.name) :=
        Settings.read_argument o.name rfl rfl fun _ _ => rfl
    let packaging := (Packaging.ofArgument? o.packaging.argument).getD .plain
    have hgen : readGen ofInput = .ok (.gen input output ⟨packaging, o.name⟩) := by
      simp only [readGen, hread]
      rfl
    have hpackaging' : packaging = o.packaging := by
      simp only [packaging, Packaging.ofArgument?_argument, Option.getD_some]
    rw [hpackaging'] at hgen
    exact hgen

end Command
end ValidatorGen
