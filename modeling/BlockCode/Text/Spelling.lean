-- How texts are spelled. JSON names the characters beyond the first 65536 by two halves,
-- and a half may stand without the other. Such a half is no character, yet a text may
-- hold it; only when the text is to be written into a file does it come to light.
namespace BlockCode

/-- What a text is spelled with. The halves are counted from the first one on. -/
inductive Sign where
  | char (c : Char)
  | half (n : Fin 2048)
deriving DecidableEq, Repr

abbrev Spelling := List Sign

namespace Sign

def isHalf : Sign → Bool
  | char _ => false
  | half _ => true

/-- The code point. -/
def point : Sign → Nat
  | char c => c.toNat
  | half n => 0xD800 + n

/-- The character itself, or the mark in the place of a half. -/
def shown (mark : Char) : Sign → Char
  | char c => c
  | half _ => mark

end Sign

namespace Spelling

/-- The spelling of a text that holds no halves. -/
def ofText (s : String) : Spelling := s.toList.map .char

instance : Coe String Spelling := ⟨ofText⟩

/-- The text, with the mark in the place of each half. -/
def shown (mark : Char) (signs : Spelling) : String := String.ofList (signs.map (·.shown mark))

/-- The first text comes before the second in the order of code points. -/
def before (s t : Spelling) : Bool := decide (s.map (·.point) < t.map (·.point))

theorem ofText_inj {s t : String} : ofText s = ofText t ↔ s = t := by
  unfold ofText
  rw [List.map_inj_right (fun _ _ h => Sign.char.inj h), String.toList_inj]

@[simp] theorem shown_ofText (mark : Char) (s : String) : shown mark (ofText s) = s := by
  have hsame : Sign.shown mark ∘ Sign.char = id := rfl
  rw [shown, ofText, List.map_map, hsame, List.map_id, String.ofList_toList]

/-- A text without the mark is spelled with characters alone. -/
theorem eq_ofText_of_shown {mark : Char} {signs : Spelling} {s : String} (h : signs.shown mark = s)
    (hmark : mark ∉ s.toList) : signs = ofText s := by
  subst h
  unfold ofText shown at *
  rw [String.toList_ofList] at *
  induction signs with
  | nil => rfl
  | cons sign rest ih =>
    obtain ⟨hfirst, hrest⟩ : mark ≠ sign.shown mark ∧ mark ∉ rest.map (·.shown mark) := by
      simpa using hmark
    cases sign with
    | char c => exact congrArg (.char c :: ·) (ih hrest)
    | half n => exact absurd rfl hfirst

end Spelling

/-- A text with halves in it. When it is shown, a mark stands in the place of each. -/
structure Torn where
  signs : Spelling
  torn : signs.any Sign.isHalf = true
  mark : Char := '\ufffd'
deriving Repr

namespace Torn

def text (t : Torn) : String := t.signs.shown t.mark

end Torn
end BlockCode
