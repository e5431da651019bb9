-- What a change of one file leaves as it was. Other places keep what stands there. A path that
-- leads to a place leads to it still: on its way it meets folders only, and the file was none.
import BlockCode.Command.Files
import Mathlib.Tactic.SplitIfs

namespace BlockCode.Files

variable {files : Files} {place target : List String} {entry : Entry} {path content : String}

/-! ## Places -/

theorem lookup_put_ne (h : target ≠ place) (entries : List (List String × Entry)) :
    (put place entry entries).lookup target = entries.lookup target := by
  have hother : (target == place) = false := beq_false_of_ne h
  induction entries with
  | nil => rw [put, List.lookup_cons, hother]
  | cons first rest ih =>
    obtain ⟨p, e⟩ := first
    rw [put]
    split
    · rename_i hp
      obtain rfl := beq_iff_eq.mp hp
      rw [List.lookup_cons, List.lookup_cons, hother]
    · rw [List.lookup_cons, List.lookup_cons, ih]

/-- The files with this entry at a place. -/
def set (files : Files) (place : List String) (entry : Entry) : Files :=
  { files with entries := put place entry files.entries }

@[simp] theorem here_set : (files.set place entry).here = files.here := rfl

theorem ne_nil_of_at? (h : files.at? place ≠ some .folder) : place ≠ [] := by
  rintro rfl
  exact h rfl

theorem at?_set_self (h : place ≠ []) : (files.set place entry).at? place = some entry := by
  unfold at? set
  rw [if_neg (by simpa using h)]
  exact lookup_put place entry files.entries

theorem at?_set_ne (h : target ≠ place) :
    (files.set place entry).at? target = files.at? target := by
  unfold at? set
  rw [lookup_put_ne h]

/-! ## Paths -/

/-- Every place before the last one on the way is that of a folder. -/
theorem follow_set (hfile : files.at? place ≠ some .folder) {names : List String}
    {start : List String} (h : files.follow start names = .ok target) :
    (files.set place entry).follow start names = .ok target := by
  induction names generalizing start with
  | nil => exact h
  | cons name rest ih =>
    rw [follow] at h
    rcases hstart : files.at? start with _ | _ | _ | _
    · rw [hstart] at h
      cases h
    · have hne : start ≠ place := by
        rintro rfl
        exact hfile hstart
      rw [hstart] at h
      rw [follow, at?_set_ne hne, hstart]
      simp only at h ⊢
      split_ifs at h ⊢ with hstays hup hlong
      · exact ih h
      · exact ih h
      · exact ih h
    · rw [hstart] at h
      cases h
    · rw [hstart] at h
      cases h

theorem place_set (hfile : files.at? place ≠ some .folder) (h : files.place path = .ok target) :
    (files.set place entry).place path = .ok target := by
  unfold Files.place at h ⊢
  simp only [here_set] at h ⊢
  split_ifs at h ⊢ with hnull hlong hroot
  · exact follow_set hfile h
  · exact follow_set hfile h

theorem place_below_root (files : Files) {path name : String} (hroot : path.startsWith "/" = true)
    (hnull : path.toList.contains '\x00' = false) (hlength : path.utf8ByteSize ≤ longestPath)
    (hnames : (Text.splitAt '/' path.toList).map String.ofList = ["", name])
    (hname : name ∉ ["", ".", ".."]) (hshort : name.utf8ByteSize ≤ longestName) :
    files.place path = .ok [name] := by
  obtain ⟨hempty, hpoint, hup⟩ : name ≠ "" ∧ name ≠ "." ∧ name ≠ ".." := by simpa using hname
  unfold Files.place
  simp only [hroot, hnull, hnames, Nat.not_lt.mpr hlength, if_true, if_false, Bool.false_eq_true]
  show files.follow [] [name] = _
  simp [follow, at?, hempty, hpoint, hup, Nat.not_lt.mpr hshort]

/-! ## Reading and writing -/

theorem read_ok_iff (h : files.place path = .ok place) :
    files.read path = .ok content ↔ files.at? place = some (.text content) := by
  unfold read
  simp only [h]
  rcases files.at? place with _ | _ | text | _ <;> simp

theorem read_set_ne (hfile : files.at? place ≠ some .folder) (h : files.place path = .ok target)
    (hne : target ≠ place) : (files.set place entry).read path = files.read path := by
  unfold read
  rw [place_set hfile h, h]
  simp only [at?_set_ne hne]

theorem write_ok (h : files.place path = .ok place) (hfile : files.at? place ≠ some .folder) :
    files.write path content = .ok (files.set place (.text content)) := by
  unfold write
  simp only [h]
  rcases hentry : files.at? place with _ | _ | text | _
  · rfl
  · exact absurd hentry hfile
  · rfl
  · rfl

end BlockCode.Files
