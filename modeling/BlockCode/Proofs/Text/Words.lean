-- The words of a program: identifiers, numbers and quoted texts. None of them has a newline in
-- it, none begins like a comment, and none ends in white space.
import BlockCode.Number.Shortest
import BlockCode.Proofs.Names.Fresh
import BlockCode.Proofs.Text.Remarked
import BlockCode.Text.Quoted

namespace BlockCode

open BlockCode.Text (Firm Inline Solid isBlank)

/-! ## Words without white space -/

namespace Text

/-- No word character is white space. -/
theorem visible_of_isWord {c : Char} (h : isWord c = true) : isBlank c = false := by
  have hapart : ∀ word ∈ words, ∀ blank ∈ blanks, word.2 < blank.1 ∨ blank.2 < word.1 := by
    decide +kernel
  rw [Bool.eq_false_iff]
  intro hblank
  obtain ⟨word, hword, hlow, hhigh⟩ := (Ranges.has_iff words c).mp h
  obtain ⟨blank, hin, hlow', hhigh'⟩ := (Ranges.has_iff blanks c).mp hblank
  rcases hapart word hword blank hin with hbefore | hbehind
  · omega
  · omega

/-- A word that begins no comment is a line of its own. -/
theorem Solid.inline {word : String} (h : Solid word) (hhash : word.toList.head? ≠ some '#') :
    Inline word := by
  refine ⟨fun hmem => absurd (h.visible _ hmem) (by decide), ?_, h.firm⟩
  obtain ⟨c, cs, hword⟩ := List.exists_cons_of_ne_nil h.ne_nil
  have hvisible := h.visible c (by simp [hword])
  have hgap : isGap c = false := Bool.eq_false_iff.mpr fun hgap => by
    rw [isBlank_of_isGap hgap] at hvisible
    cases hvisible
  rw [hword] at hhash ⊢
  simpa [hgap] using hhash

end Text

/-! ## Identifiers -/

theorem Shaped.solid {identifier : String} (h : Shaped identifier) : Solid identifier where
  ne_nil := h.ne_empty
  visible := fun c hc => Text.visible_of_isWord (h.word c hc)

theorem Shaped.inline {identifier : String} (h : Shaped identifier) : Inline identifier := by
  refine h.solid.inline fun hhash => ?_
  have hword := h.word '#' (List.mem_of_mem_head? hhash)
  rw [isWord_ascii (by decide)] at hword
  revert hword
  decide

/-! ## Numbers -/

namespace Text

/-- A character that a number is written with. -/
def isNumeral (c : Char) : Bool := c.isDigit || ['.', 'e', '+', '-'].contains c

theorem isNumeral_of_isDigit {c : Char} (h : c.isDigit = true) : isNumeral c = true := by
  simp [isNumeral, h]

theorem visible_of_isNumeral {c : Char} (h : isNumeral c = true) : isBlank c = false := by
  simp only [isNumeral, Bool.or_eq_true, List.contains_iff_mem, List.mem_cons, List.not_mem_nil,
    or_false] at h
  rcases h with hdigit | rfl | rfl | rfl | rfl
  · exact visible_of_isWord (isWord_of_ascii_digit hdigit)
  all_goals decide

/-- Characters of numbers, at least one. -/
theorem inline_numerals {word : String} (hne : word.toList ≠ [])
    (h : ∀ c ∈ word.toList, isNumeral c = true) : Inline word := by
  refine Solid.inline ⟨hne, fun c hc => visible_of_isNumeral (h c hc)⟩ fun hhash => ?_
  exact absurd (h '#' (List.mem_of_mem_head? hhash)) (by decide)

theorem isNumeral_toDigits (n : Nat) : ∀ c ∈ Nat.toDigits 10 n, isNumeral c = true :=
  fun _ hc => isNumeral_of_isDigit (Nat.isDigit_of_mem_toDigits (by decide) (by decide) hc)

theorem inline_int (i : Int) : Inline (toString i) := by
  have hnat : ∀ n : Nat, Inline (toString n) := by
    intro n
    rw [Nat.toString_eq_ofList_toDigits]
    refine inline_numerals ?_ ?_
    · rw [String.toList_ofList]
      exact Nat.toDigits_ne_nil
    · rw [String.toList_ofList]
      exact isNumeral_toDigits n
  cases i with
  | ofNat n => exact hnat n
  | negSucc n =>
    have hminus : Inline "-" := by decide
    exact hminus.append (hnat (n + 1))

end Text

namespace Number.Binary64

open BlockCode.Text (isNumeral)

theorem isNumeral_zeros (n : Nat) : ∀ c ∈ List.replicate n '0', isNumeral c = true := by
  intro c hc
  rw [List.eq_of_mem_replicate hc]
  decide

theorem isNumeral_exponentText (p : Int) : ∀ c ∈ exponentText p, isNumeral c = true := by
  unfold exponentText
  refine List.forall_mem_cons.mpr ⟨by split <;> decide, ?_⟩
  exact List.forall_mem_append.mpr ⟨isNumeral_zeros _, Text.isNumeral_toDigits _⟩

/-- Digits are laid out with nothing but what numbers are written with. -/
theorem isNumeral_layout {digits : List Char} (h : ∀ c ∈ digits, isNumeral c = true) (point : Int) :
    ∀ c ∈ layout digits point, isNumeral c = true := by
  have htake : ∀ n, ∀ c ∈ digits.take n, isNumeral c = true :=
    fun n c hc => h c (List.mem_of_mem_take hc)
  have hdrop : ∀ n, ∀ c ∈ digits.drop n, isNumeral c = true :=
    fun n c hc => h c (List.mem_of_mem_drop hc)
  unfold layout
  split
  · refine List.forall_mem_append.mpr ⟨List.forall_mem_append.mpr ⟨htake 1, ?_⟩, ?_⟩
    · split
      · exact List.forall_mem_nil _
      · exact List.forall_mem_cons.mpr ⟨by decide, hdrop 1⟩
    · exact List.forall_mem_cons.mpr ⟨by decide, isNumeral_exponentText _⟩
  · split
    · refine List.forall_mem_cons.mpr ⟨by decide, List.forall_mem_cons.mpr ⟨by decide, ?_⟩⟩
      exact List.forall_mem_append.mpr ⟨isNumeral_zeros _, h⟩
    · refine List.forall_mem_append.mpr ⟨List.forall_mem_append.mpr ⟨htake _, isNumeral_zeros _⟩, ?_⟩
      refine List.forall_mem_cons.mpr ⟨by decide, ?_⟩
      split
      · exact List.forall_mem_singleton.mpr (by decide)
      · exact hdrop _

theorem inline_layout {digits : List Char} (h : ∀ c ∈ digits, isNumeral c = true) (point : Int) :
    Inline (String.ofList (layout digits point)) := by
  refine Text.inline_numerals ?_ ?_
  · rw [String.toList_ofList]
    unfold layout
    split
    · simp
    · split <;> simp
  · rw [String.toList_ofList]
    exact isNumeral_layout h point

theorem inline_text (x : Binary64) : Inline x.text := by
  have hsigned : ∀ {negative : Bool} {word : String}, Inline word →
      Inline ((if negative then "-" else "") ++ word) := by
    intro negative word hword
    split
    · exact (by decide : Inline "-").append hword
    · rwa [String.empty_append]
  cases x with
  | nan => decide
  | infinite negative => cases negative <;> decide
  | finite negative m e =>
    unfold text
    simp only
    split
    · exact hsigned (by decide)
    · refine hsigned (inline_layout (fun c hc => ?_) _)
      unfold dropZeros at hc
      rw [List.mem_reverse] at hc
      exact Text.isNumeral_toDigits _ c (List.mem_reverse.mp ((List.dropWhile_sublist _).subset hc))

end Number.Binary64

/-! ## Quoted texts -/

namespace Text

theorem hexDigit_ne_newline (n : Nat) : hexDigit n ≠ '\n' := by
  have hall : "0123456789abcdef".toList.all (· != '\n') = true := by decide
  unfold hexDigit
  rcases hdigit : ("0123456789abcdef".toList)[n]? with _ | c
  · decide
  · exact bne_iff_ne.mp (List.all_eq_true.mp hall c (List.mem_of_getElem? hdigit))

theorem newline_hexDigits (width n : Nat) : '\n' ∉ hexDigits width n := by
  induction width generalizing n with
  | zero => exact List.not_mem_nil
  | succ width ih =>
    rw [hexDigits, List.mem_append, List.mem_singleton]
    exact fun hmem => hmem.elim (ih _) fun heq => hexDigit_ne_newline _ heq.symm

theorem newline_numbered (c : Char) : '\n' ∉ numbered c := by
  unfold numbered
  split
  · simp [newline_hexDigits]
  · split <;> simp [newline_hexDigits]

theorem newline_quotedChar {quote : Char} (hquote : quote ≠ '\n') (c : Char) :
    '\n' ∉ quotedChar quote c := by
  unfold quotedChar
  split
  · rename_i hescaped
    have hc : c ≠ '\n' := by
      rintro rfl
      simp [hquote.symm] at hescaped
    simp [hc.symm]
  · split
    · decide
    · rename_i hc
      split
      · decide
      · split
        · decide
        · split
          · simp [Ne.symm hc]
          · exact newline_numbered c

theorem quoteFor_ne_newline (cs : List Char) : quoteFor cs ≠ '\n' := by
  unfold quoteFor
  split <;> decide

/-- What stands between quotes is one line, if it holds no newline. -/
theorem inline_between {cs body : List Char} (h : '\n' ∉ body) :
    Inline (String.ofList (quoteFor cs :: (body ++ [quoteFor cs]))) := by
  have hquote : Inline (String.singleton (quoteFor cs)) := by
    unfold quoteFor
    split <;> decide
  have hwhole : String.ofList (quoteFor cs :: (body ++ [quoteFor cs])) =
      String.singleton (quoteFor cs) ++ String.ofList body ++ String.singleton (quoteFor cs) := by
    rw [← String.toList_inj]
    simp
  rw [hwhole]
  exact hquote.around (by rwa [String.toList_ofList]) hquote

theorem inline_quoted (text : String) : Inline (quoted text) := by
  refine inline_between fun hmem => ?_
  obtain ⟨c, -, hc⟩ := List.mem_flatMap.mp hmem
  exact newline_quotedChar (quoteFor_ne_newline _) c hc

theorem inline_quotedSpelling (signs : Spelling) : Inline (quotedSpelling signs) := by
  refine inline_between fun hmem => ?_
  obtain ⟨sign, -, hsign⟩ := List.mem_flatMap.mp hmem
  cases sign with
  | char c => exact newline_quotedChar (quoteFor_ne_newline _) c hsign
  | half n => simp [quotedSign, newline_hexDigits] at hsign

end Text

end BlockCode
