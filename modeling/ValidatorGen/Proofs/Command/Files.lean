import ValidatorGen.Command.Files
import ValidatorGen.Entries

/-! Files before and after a write. Main statement: a file that can be opened gets the text, or as
much of it as there is room for, and all other files stay. -/
namespace ValidatorGen

theorem Disk.fill_of_holds {disk : Disk} {content : ByteArray} (h : disk.holds content) :
    disk.fill content = content := by
  cases hroom : disk.room with
  | none => simp [fill, hroom]
  | some room =>
    have hsize : content.size ≤ room := by simpa [holds, hroom] using h
    have hall := ByteArray.extract_zero_max_size (a := content) (i := room)
    rw [Nat.max_eq_left hsize] at hall
    simpa [fill, hroom] using hall

theorem Disk.holds_of_unlimited {disk : Disk} (h : disk.room = none) (content : ByteArray) :
    disk.holds content := by
  simp [holds, h]

namespace Directory

/-- The file in the directory that a path leads to. -/
def target? (disk : Disk) (d : Directory) (path : String) : Option String :=
  match d.resolve disk path with
  | .entry true name => some name
  | _ => none

/-- The path can be opened, and there is room for the text. -/
def Writable (disk : Disk) (d : Directory) (path content : String) : Prop :=
  (∃ target?, d.create disk path = .ok target?) ∧ disk.holds content.toUTF8

theorem read_empty (disk : Disk) (d : Directory) : d.read disk "" = .error .notFound := by
  simp [read, resolve]

section

variable {disk : Disk} {d after : Directory} {path content name : String}

theorem eq_target?_of_create {opened : Option String} (h : d.create disk path = .ok opened) :
    opened = d.target? disk path := by
  unfold create at h
  unfold target?
  cases hplace : d.resolve disk path with
  | directory => simp [hplace] at h
  | nowhere e => simp [hplace] at h
  | entry inside name =>
    simp only [hplace] at h
    split at h
    · cases h
    · split at h
      · cases h
      · cases inside <;> exact (Except.ok.inj h).symm

theorem write_of_create_error {e : FileError} (h : d.create disk path = .error e) :
    d.write disk path content = (.error e, d) := by
  simp [write, h]

theorem write_of_create {opened : Option String} (h : d.create disk path = .ok opened) :
    d.write disk path content
      = (if disk.holds content.toUTF8 then .ok () else .error .noRoom,
        (d.target? disk path).elim d (Entries.put · (disk.fill content.toUTF8) d)) := by
  simp only [write, h, eq_target?_of_create h]

theorem write_of_writable (h : d.Writable disk path content) :
    d.write disk path content
      = (.ok (), (d.target? disk path).elim d (Entries.put · content.toUTF8 d)) := by
  obtain ⟨⟨opened, hopened⟩, hholds⟩ := h
  rw [write_of_create hopened, if_pos hholds, Disk.fill_of_holds hholds]

theorem writable_of_write (h : (d.write disk path content).1 = .ok ()) :
    d.Writable disk path content := by
  cases hcreate : d.create disk path with
  | error e =>
    rw [write_of_create_error hcreate] at h
    cases h
  | ok opened =>
    rw [write_of_create hcreate] at h
    split at h
    · next hholds => exact ⟨⟨opened, hcreate⟩, hholds⟩
    · cases h

theorem lookup_written (h : d.Writable disk path content)
    (hname : d.target? disk path = some name) :
    (d.write disk path content).2.lookup name = some content.toUTF8 := by
  rw [write_of_writable h, hname, Option.elim_some, Entries.lookup_put, if_pos rfl]

/-- However a write ends, it only changes the file that the path leads to. -/
theorem lookup_write (hname : d.target? disk path ≠ some name) :
    (d.write disk path content).2.lookup name = d.lookup name := by
  cases hcreate : d.create disk path with
  | error e => rw [write_of_create_error hcreate]
  | ok opened =>
    rw [write_of_create hcreate]
    cases htarget : d.target? disk path with
    | none => rfl
    | some other =>
      have hne : name ≠ other := by
        rintro rfl
        exact hname htarget
      rw [Option.elim_some, Entries.lookup_put, if_neg hne]

/-- A write that fails leaves the files as they are, unless it could open the file and the room ended
before the text did. -/
theorem write_error (h : (d.write disk path content).1 ≠ .ok ()) :
    (d.write disk path content).2 = d
      ∨ ¬disk.holds content.toUTF8 ∧ ∃ name, d.target? disk path = some name
        ∧ (d.write disk path content).2 = Entries.put name (disk.fill content.toUTF8) d := by
  cases hcreate : d.create disk path with
  | error e => exact .inl (by rw [write_of_create_error hcreate])
  | ok opened =>
    have hholds : ¬disk.holds content.toUTF8 := fun hholds =>
      h (by rw [write_of_create hcreate, if_pos hholds])
    rw [write_of_create hcreate]
    cases htarget : d.target? disk path with
    | none => exact .inl rfl
    | some name => exact .inr ⟨hholds, name, rfl, rfl⟩

end

end Directory
end ValidatorGen
