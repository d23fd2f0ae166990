import Handheld.CommandLine.Directory

/-!
# A file that has been made can be read

A path is followed twice, when a file is made and when it is read again, and the directory is another
one by then.  But of the names of a path only the last can be a file; the others have to be folders,
and the directory holds none but those that one dot and two dots stand for.  So the path leads to the
same place (`Directory.folderOf_of_eq_ok`), and what has been put there can be read
(`Directory.read_put_of_create`).
-/

set_option autoImplicit false

namespace Handheld
namespace Directory

variable {d d' : Directory} {f g : Folder} {l : Location} {name text : String}

theorem get?_put_self (d : Directory) (l : Location) (bytes : ByteArray) :
    (d.put l bytes).get? l = some bytes := by
  rw [get?, put, List.lookup_cons_self]

/-- Which names lead to folders does not depend on what the directory holds. -/
theorem look_of_folder (h : d.look f name = .ok (.folder g)) (e : Directory) :
    e.look f name = .ok (.folder g) := by
  rw [look] at h ⊢
  grind

/-- Where there can be a file, there is one if the directory holds it. -/
theorem look_of_leaf (h : d.look f name = .ok (.file l) ∨ d.look f name = .ok (.vacant l))
    {e : Directory} (hin : (e.get? l).isSome = true) : e.look f name = .ok (.file l) := by
  rw [look] at h ⊢
  grind

theorem enter_eq_ok : d.enter f name = .ok g ↔ d.look f name = .ok (.folder g) := by
  rw [enter]
  cases h : d.look f name with
  | error reason => simp [bind, Except.bind]
  | ok place => cases place <;> simp [bind, Except.bind, Place.folder?]

/-- Nor does it matter for the folders on a path. -/
theorem folderOf_of_eq_ok {p : Path} (h : d.folderOf p = .ok f) (e : Directory) :
    e.folderOf p = .ok f := by
  rw [folderOf] at h ⊢
  generalize startOf p = start at h ⊢
  generalize p.names.dropLast = names at h ⊢
  induction names generalizing start with
  | nil => exact h
  | cons name names ih =>
    rw [List.foldlM_cons] at h ⊢
    cases hn : d.enter start name with
    | error reason =>
      rw [hn] at h
      cases h
    | ok next =>
      rw [hn] at h
      rw [enter_eq_ok.2 (look_of_folder (enter_eq_ok.1 hn) e)]
      exact ih next h

theorem find_eq {p : Path} (h : d.folderOf p = .ok f) :
    d.find p =
      match p.names.getLast? with
      | some name => d.look f name
      | none => .ok (.folder f) := by
  rw [Directory.find, h]
  rfl

/-- What a path is along which a file can be made: its last name stands for a file, in the folder to
which the others lead. -/
theorem create_eq_ok (h : d.create text = .ok (l, d')) :
    ∃ p f name, Path.parse text = .ok p ∧ p.slashAtEnd = false ∧ d.folderOf p = .ok f ∧
      p.names.getLast? = some name ∧
      (d.look f name = .ok (.file l) ∨ d.look f name = .ok (.vacant l)) := by
  simp only [create, bind, Except.bind, pure, Except.pure] at h
  split at h
  · cases h
  rename_i p hparse
  split at h
  · cases h
  rename_i f hfolder
  split at h
  · cases h
  rename_i hslash
  rw [find_eq hfolder] at h
  cases hname : p.names.getLast? with
  | none =>
    rw [hname] at h
    cases h
  | some name =>
    rw [hname] at h
    refine ⟨p, f, name, hparse, Bool.eq_false_iff.2 hslash, hfolder, hname, ?_⟩
    dsimp only at h
    rcases hlook : d.look f name with reason | place
    · rw [hlook] at h
      cases h
    · rw [hlook] at h
      cases place with
      | folder g => cases h
      | file l' =>
        cases h
        exact Or.inl rfl
      | vacant l' =>
        cases h
        exact Or.inr rfl

/-- **A file that has been made can be read**, with what has been put into it. -/
theorem read_put_of_create (h : d.create text = .ok (l, d')) (bytes : ByteArray) :
    (d'.put l bytes).read text = .ok bytes := by
  obtain ⟨p, f, name, hparse, hslash, hfolder, hname, hlook⟩ := create_eq_ok h
  have hget := d'.get?_put_self l bytes
  have hplace : (d'.put l bytes).find p = .ok (.file l) := by
    rw [find_eq (folderOf_of_eq_ok hfolder _), hname]
    exact look_of_leaf hlook (by rw [hget]; rfl)
  simp [read, hparse, hplace, hslash, hget, bind, Except.bind, pure, Except.pure]

end Directory
end Handheld
