-- How a Python program reads a text that is written in it, and that it reads a quoted text as the
-- text that was quoted. A literal is on one line between two quotes of one kind; a backslash gives
-- what is behind it a meaning of its own.
import Mathlib.Algebra.Group.Nat.Defs
import BlockCode.Json.Scanner
import BlockCode.Proofs.Text.Words

namespace BlockCode.Python

open BlockCode.Text (hexDigit hexDigits numbered quoted quotedChar quotedChars quoteFor isPrintable)

/-! ## Reading a literal -/

/-- The quotes and the letters that stand for one character behind a backslash. -/
def escapedLetters : List (Char × Char) :=
  [('\\', '\\'), ('\'', '\''), ('"', '"'), ('a', '\x07'), ('b', '\x08'), ('f', '\x0c'),
    ('n', '\n'), ('r', '\r'), ('t', '\t'), ('v', '\x0b')]

/-- The character of a number. A half of a pair is no character. -/
def character? (n : Nat) : Option Char := if n.isValidChar then some (Char.ofNat n) else none

/-- The number that hexadecimal digits stand for. -/
def hexNumber? (digits : List Char) : Option Nat :=
  digits.foldlM (fun n c => (Json.hexValue? c).map (n * 16 + ·)) 0

/-- A character by its number, in so many hexadecimal digits behind a letter. -/
def coded? (width : Nat) (cs : List Char) : Option (List Char × Nat) :=
  if cs.length < width then none
  else do
    let c ← character? (← hexNumber? (cs.take width))
    return ([c], width + 1)

def isOctal (c : Char) : Bool := '0' ≤ c && c ≤ '7'

/-- What stands behind a backslash: the characters that it gives, and how many it takes. A newline
gives none, and in front of a letter without a meaning the backslash is one itself. Names of
characters are not read. -/
def escape? : List Char → Option (List Char × Nat)
  | [] => none
  | c :: rest =>
    if c = '\n' then some ([], 1)
    else if c = 'x' then coded? 2 rest
    else if c = 'u' then coded? 4 rest
    else if c = 'U' then coded? 8 rest
    else if c = 'N' then none
    else match escapedLetters.lookup c with
    | some d => some ([d], 1)
    | none =>
      let digits := ((c :: rest).take 3).takeWhile isOctal
      if digits.isEmpty then some (['\\', c], 1)
      else (character? (Nat.ofDigitChars 8 digits 0)).map fun d => ([d], digits.length)

/-- The characters up to the quote that ends the literal, with nothing behind it. -/
def between? (quote : Char) : List Char → Option (List Char)
  | [] => none
  | c :: rest =>
    if c = '\\' then
      match escape? rest with
      | some (cs, taken) => (between? quote (rest.drop taken)).map (cs ++ ·)
      | none => none
    else if c = quote then if rest.isEmpty then some [] else none
    else if c = '\n' || c = '\r' then none
    else (between? quote rest).map (c :: ·)
termination_by cs => cs.length

/-- The text that a literal stands for. -/
def literal? (text : String) : Option String :=
  match text.toList with
  | [] => none
  | quote :: rest =>
    if quote = '\'' || quote = '"' then (between? quote rest).map String.ofList else none

/-! ## Numbers of characters -/

theorem hexValue?_hexDigit {n : Nat} (h : n < 16) : Json.hexValue? (hexDigit n) = some n := by
  have hall : ∀ k : Fin 16, Json.hexValue? (hexDigit k) = some k.val := by decide
  exact hall ⟨n, h⟩

theorem hexNumber?_hexDigits (width n : Nat) :
    hexNumber? (hexDigits width n) = some (n % 16 ^ width) := by
  induction width generalizing n with
  | zero => simp [hexDigits, hexNumber?, Nat.mod_one]
  | succ width ih =>
    have hdigit := hexValue?_hexDigit (Nat.mod_lt n (show 0 < 16 by decide))
    have hfront := ih (n / 16)
    unfold hexNumber? at hfront ⊢
    rw [hexDigits, List.foldlM_append, hfront]
    have hsum : n / 16 % 16 ^ width * 16 + n % 16 = n % 16 ^ (width + 1) := by
      rw [Nat.pow_succ', Nat.mod_mul]
      omega
    simp [hdigit, hsum]

theorem length_hexDigits (width n : Nat) : (hexDigits width n).length = width := by
  induction width generalizing n with
  | zero => rfl
  | succ width ih => rw [hexDigits, List.length_append, ih, List.length_singleton]

theorem coded?_hexDigits {width : Nat} {c : Char} (h : c.toNat < 16 ^ width) (rest : List Char) :
    coded? width (hexDigits width c.toNat ++ rest) = some ([c], width + 1) := by
  have hlength := length_hexDigits width c.toNat
  have htake : (hexDigits width c.toNat ++ rest).take width = hexDigits width c.toNat :=
    List.take_left' hlength
  have hchar : character? c.toNat = some c := by
    have hvalid : c.toNat.isValidChar := c.valid
    rw [character?, if_pos hvalid, Char.ofNat_toNat]
  unfold coded?
  rw [if_neg (by simp [hlength]), htake, hexNumber?_hexDigits, Nat.mod_eq_of_lt h]
  simp [hchar]

/-! ## A quoted text is read as it was -/

theorem between?_escape {quote given : Char} {cs rest : List Char}
    (h : escape? (cs ++ rest) = some ([given], cs.length)) :
    between? quote ('\\' :: cs ++ rest) = (between? quote rest).map (given :: ·) := by
  rw [List.cons_append, between?, if_pos rfl, h]
  simp only
  rw [List.drop_left]
  rfl

theorem between?_numbered {quote : Char} (c : Char) (rest : List Char) :
    between? quote (numbered c ++ rest) = (between? quote rest).map (c :: ·) := by
  have hcoded : ∀ {letter : Char} {width : Nat}, c.toNat < 16 ^ width →
      (∀ cs, escape? (letter :: cs) = coded? width cs) →
      between? quote ('\\' :: (letter :: hexDigits width c.toNat) ++ rest) =
        (between? quote rest).map (c :: ·) := by
    intro letter width hfits hletter
    refine between?_escape ?_
    rw [List.cons_append, hletter, coded?_hexDigits hfits, List.length_cons, length_hexDigits]
  have hvalid : c.toNat < 0x110000 := by
    have h := c.valid
    simp only [UInt32.isValidChar, Nat.isValidChar] at h
    simp only [Char.toNat]
    omega
  unfold numbered
  split
  · exact hcoded (by omega) fun _ => rfl
  · split
    · exact hcoded (by omega) fun _ => rfl
    · exact hcoded (by omega) fun _ => rfl

theorem between?_quotedChar {quote : Char} (hquote : quote = '\'' ∨ quote = '"') (c : Char)
    (rest : List Char) :
    between? quote (quotedChar quote c ++ rest) = (between? quote rest).map (c :: ·) := by
  have hletter : ∀ {letter given : Char}, (∀ cs, escape? (letter :: cs) = some ([given], 1)) →
      between? quote (['\\', letter] ++ rest) = (between? quote rest).map (given :: ·) :=
    fun h => between?_escape (h rest)
  unfold quotedChar
  split
  · rename_i hescaped
    rw [Bool.or_eq_true, decide_eq_true_eq, decide_eq_true_eq] at hescaped
    rcases hescaped with rfl | rfl
    · rcases hquote with rfl | rfl <;> exact hletter fun _ => rfl
    · exact hletter fun _ => rfl
  · rename_i hplain
    simp only [Bool.or_eq_true, decide_eq_true_eq, not_or] at hplain
    split
    · rename_i hnewline
      rw [hnewline]
      exact hletter fun _ => rfl
    · rename_i hnewline
      split
      · rename_i hreturn
        rw [hreturn]
        exact hletter fun _ => rfl
      · rename_i hreturn
        split
        · rename_i htab
          rw [htab]
          exact hletter fun _ => rfl
        · split
          · rw [List.singleton_append, between?, if_neg hplain.2, if_neg hplain.1,
              if_neg (by simp [hnewline, hreturn])]
          · exact between?_numbered c rest

theorem quoteFor_cases (cs : List Char) : quoteFor cs = '\'' ∨ quoteFor cs = '"' := by
  unfold quoteFor
  split
  · exact Or.inr rfl
  · exact Or.inl rfl

theorem between?_quotedChars {quote : Char} (hquote : quote = '\'' ∨ quote = '"')
    (cs : List Char) : between? quote (cs.flatMap (quotedChar quote) ++ [quote]) = some cs := by
  induction cs with
  | nil =>
    have hplain : quote ≠ '\\' := by rcases hquote with rfl | rfl <;> decide
    rw [List.flatMap_nil, List.nil_append, between?, if_neg hplain, if_pos rfl]
    rfl
  | cons c rest ih =>
    rw [List.flatMap_cons, List.append_assoc, between?_quotedChar hquote, ih]
    rfl

/-- A quoted text stands for the text. -/
theorem literal?_quoted (text : String) : literal? (quoted text) = some text := by
  have hquote := quoteFor_cases text.toList
  unfold literal? quoted
  rw [String.toList_ofList, quotedChars]
  simp only
  rw [if_pos (by simpa using hquote), between?_quotedChars hquote, Option.map_some,
    String.ofList_toList]

example : literal? "\"it's \\x41\\n\"" = some "it's A\n" := by cbv

/-! ## Nothing breaks a quoted text -/

theorem printable_hexDigits (width n : Nat) : ∀ d ∈ hexDigits width n, isPrintable d = true := by
  have hall : "0123456789abcdef".toList.all isPrintable = true := by decide +kernel
  induction width generalizing n with
  | zero => exact List.forall_mem_nil _
  | succ width ih =>
    rw [hexDigits]
    refine List.forall_mem_append.mpr ⟨ih _, List.forall_mem_singleton.mpr ?_⟩
    unfold hexDigit
    rcases hdigit : ("0123456789abcdef".toList)[n % 16]? with _ | d
    · decide +kernel
    · exact List.all_eq_true.mp hall d (List.mem_of_getElem? hdigit)

theorem printable_numbered (c : Char) : ∀ d ∈ numbered c, isPrintable d = true := by
  have hletters : ∀ d ∈ ['\\', 'x', 'u', 'U'], isPrintable d = true :=
    List.all_eq_true.mp (by decide +kernel)
  have hcoded : ∀ letter ∈ ['\\', 'x', 'u', 'U'], ∀ width,
      ∀ d ∈ '\\' :: letter :: hexDigits width c.toNat, isPrintable d = true :=
    fun letter hletter width => List.forall_mem_cons.mpr ⟨hletters _ List.mem_cons_self,
      List.forall_mem_cons.mpr ⟨hletters letter hletter, printable_hexDigits width _⟩⟩
  unfold numbered
  split
  · exact hcoded 'x' (by decide) 2
  · split
    · exact hcoded 'u' (by decide) 4
    · exact hcoded 'U' (by decide) 8

theorem printable_quotedChar {quote : Char} (hquote : quote = '\'' ∨ quote = '"') (c : Char) :
    ∀ d ∈ quotedChar quote c, isPrintable d = true := by
  have hplain : ∀ d ∈ ['\\', '\'', '"', 'n', 'r', 't'], isPrintable d = true :=
    List.all_eq_true.mp (by decide +kernel)
  have hpair : ∀ letter ∈ ['\\', '\'', '"', 'n', 'r', 't'],
      ∀ d ∈ ['\\', letter], isPrintable d = true :=
    fun letter hletter => List.forall_mem_cons.mpr ⟨hplain _ List.mem_cons_self,
      List.forall_mem_singleton.mpr (hplain letter hletter)⟩
  unfold quotedChar
  split
  · rename_i hescaped
    rw [Bool.or_eq_true, decide_eq_true_eq, decide_eq_true_eq] at hescaped
    rcases hescaped with rfl | rfl
    · rcases hquote with rfl | rfl <;> exact hpair _ (by decide)
    · exact hpair _ (by decide)
  · split
    · exact hpair _ (by decide)
    · split
      · exact hpair _ (by decide)
      · split
        · exact hpair _ (by decide)
        · split
          · exact List.forall_mem_singleton.mpr ‹_›
          · exact printable_numbered c

theorem printable_quoted (text : String) : ∀ d ∈ (quoted text).toList, isPrintable d = true := by
  have hquote := quoteFor_cases text.toList
  have hseen : isPrintable (quoteFor text.toList) = true := by
    rcases hquote with h | h <;> rw [h] <;> decide +kernel
  rw [quoted, String.toList_ofList, quotedChars]
  refine List.forall_mem_cons.mpr ⟨hseen, List.forall_mem_append.mpr
    ⟨fun d hd => ?_, List.forall_mem_singleton.mpr hseen⟩⟩
  obtain ⟨c, -, hc⟩ := List.mem_flatMap.mp hd
  exact printable_quotedChar hquote c d hc

/-- The text has no character in it that ends a line. -/
def Unbroken (text : String) : Prop := '\n' ∉ text.toList ∧ '\r' ∉ text.toList

theorem unbroken_quoted (text : String) : Unbroken (quoted text) := by
  have hnot : ∀ {d}, isPrintable d = false → d ∉ (quoted text).toList := by
    intro d hd hmem
    rw [printable_quoted text d hmem] at hd
    cases hd
  exact ⟨hnot (by decide +kernel), hnot (by decide +kernel)⟩

end BlockCode.Python
