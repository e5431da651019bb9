-- Identifiers that are legal in a program of this language's kind. They begin with a letter or
-- an underscore and go on with word characters. A digit in front is always hidden, and
-- every other number is kept, so what an identifier begins with can be seen from its name.
import BlockCode.Proofs.Names.Fresh

namespace BlockCode

namespace Text

/-! ## Numbers among the word characters -/

/-- Word characters that stand for numbers and are no letters: decimal digits, letters
for numbers and other numbers, by the tables of Unicode 14. -/
def numerals : Ranges :=
  [(48, 57), (178, 179), (185, 185), (188, 190), (1632, 1641), (1776, 1785), (1984, 1993),
   (2406, 2415), (2534, 2543), (2548, 2553), (2662, 2671), (2790, 2799), (2918, 2927),
   (2930, 2935), (3046, 3058), (3174, 3183), (3192, 3198), (3302, 3311), (3416, 3422),
   (3430, 3448), (3558, 3567), (3664, 3673), (3792, 3801), (3872, 3891), (4160, 4169),
   (4240, 4249), (4969, 4988), (5870, 5872), (6112, 6121), (6128, 6137), (6160, 6169),
   (6470, 6479), (6608, 6618), (6784, 6793), (6800, 6809), (6992, 7001), (7088, 7097),
   (7232, 7241), (7248, 7257), (8304, 8304), (8308, 8313), (8320, 8329), (8528, 8578),
   (8581, 8585), (9312, 9371), (9450, 9471), (10102, 10131), (11517, 11517), (12295, 12295),
   (12321, 12329), (12344, 12346), (12690, 12693), (12832, 12841), (12872, 12879), (12881, 12895),
   (12928, 12937), (12977, 12991), (42528, 42537), (42726, 42735), (43056, 43061), (43216, 43225),
   (43264, 43273), (43472, 43481), (43504, 43513), (43600, 43609), (44016, 44025), (65296, 65305),
   (65799, 65843), (65856, 65912), (65930, 65931), (66273, 66299), (66336, 66339), (66369, 66369),
   (66378, 66378), (66513, 66517), (66720, 66729), (67672, 67679), (67705, 67711), (67751, 67759),
   (67835, 67839), (67862, 67867), (68028, 68029), (68032, 68047), (68050, 68095), (68160, 68168),
   (68221, 68222), (68253, 68255), (68331, 68335), (68440, 68447), (68472, 68479), (68521, 68527),
   (68858, 68863), (68912, 68921), (69216, 69246), (69405, 69414), (69457, 69460), (69573, 69579),
   (69714, 69743), (69872, 69881), (69942, 69951), (70096, 70105), (70113, 70132), (70384, 70393),
   (70736, 70745), (70864, 70873), (71248, 71257), (71360, 71369), (71472, 71483), (71904, 71922),
   (72016, 72025), (72784, 72812), (73040, 73049), (73120, 73129), (73664, 73684), (74752, 74862),
   (92768, 92777), (92864, 92873), (93008, 93017), (93019, 93025), (93824, 93846),
   (119520, 119539), (119648, 119672), (120782, 120831), (123200, 123209), (123632, 123641),
   (125127, 125135), (125264, 125273), (126065, 126123), (126125, 126127), (126129, 126132),
   (126209, 126253), (126255, 126269), (127232, 127244), (130032, 130041)]

def isNumeric (c : Char) : Bool := numerals.has c

/-- A number that is no digit, such as a fraction or a Roman numeral. -/
def isNumberSign (c : Char) : Bool := isNumeric c && !isDigit c

/-! ## Tables in order -/

/-- Each range of the first table lies in one of the second. Both tables are in order. -/
def Ranges.within : Ranges → Ranges → Bool
  | [], _ => true
  | inner :: rest, table =>
    match table.dropWhile fun outer => outer.2.blt inner.1 with
    | [] => false
    | outer :: later => outer.1.ble inner.1 && inner.2.ble outer.2 && Ranges.within rest (outer :: later)

theorem Ranges.has_of_within {table all : Ranges} (h : table.within all = true) {c : Char}
    (hc : table.has c = true) : all.has c = true := by
  rw [Ranges.has_iff] at hc ⊢
  obtain ⟨range, hmem, hlow, hhigh⟩ := hc
  induction table generalizing all with
  | nil => cases hmem
  | cons inner rest ih =>
    unfold Ranges.within at h
    have hsuffix := List.dropWhile_suffix (fun outer : Nat × Nat => outer.2.blt inner.1) (l := all)
    rcases hdrop : all.dropWhile fun outer => outer.2.blt inner.1 with _ | ⟨outer, later⟩
    · rw [hdrop] at h
      cases h
    · rw [hdrop] at h hsuffix
      simp only [Bool.and_eq_true, Nat.ble_eq] at h
      rcases List.mem_cons.mp hmem with rfl | hmem
      · exact ⟨outer, hsuffix.subset List.mem_cons_self, by omega, by omega⟩
      · obtain ⟨found, hfound, hin⟩ := ih h.2 hmem
        exact ⟨found, hsuffix.subset hfound, hin⟩

/-- No member of the table is from `low` to `high`, by the first range that may reach there. -/
def Ranges.leaves (table : Ranges) (low high : Nat) : Bool :=
  match table.dropWhile fun range => range.2.blt low with
  | [] => true
  | range :: _ => high.blt range.1

theorem Ranges.not_has_of_leaves {table : Ranges} (hsorted : table.Pairwise fun r t => r.1 ≤ t.1)
    {low high : Nat} (h : table.leaves low high = true) {c : Char} (hlow : low ≤ c.toNat)
    (hhigh : c.toNat ≤ high) : table.has c = false := by
  rw [Bool.eq_false_iff, Ne, Ranges.has_iff]
  rintro ⟨range, hmem, hfrom, hto⟩
  induction table with
  | nil => cases hmem
  | cons first rest ih =>
    unfold Ranges.leaves at h ih
    by_cases hbefore : first.2.blt low = true
    · simp only [List.dropWhile_cons, hbefore, if_true] at h
      rw [Nat.blt_eq] at hbefore
      rcases List.mem_cons.mp hmem with rfl | hmem
      · omega
      · exact ih (List.pairwise_cons.mp hsorted).2 h hmem
    · simp only [List.dropWhile_cons, hbefore, if_false, Bool.false_eq_true, Nat.blt_eq] at h
      rcases List.mem_cons.mp hmem with rfl | hmem
      · omega
      · have := (List.pairwise_cons.mp hsorted).1 range hmem
        omega

theorem isWord_of_isNumeric {c : Char} (h : isNumeric c = true) : isWord c = true :=
  Ranges.has_of_within (by decide +kernel : numerals.within words = true) h

theorem numerals_sorted : numerals.Pairwise fun r t => r.1 ≤ t.1 := by
  refine List.isChain_iff_pairwise.mp ?_
  decide +kernel

/-! ## Numbers in lower case -/

/-- The Roman numerals are the only numbers that are capitals, and their small letters
are the only ones that are small. -/
theorem capitals_apart : capitals.all (fun (first, last, step, shift) =>
    (first == 8544 && last == 8559 && step == 1 && shift == 16) ||
    numerals.leaves first last &&
      numerals.leaves (first + shift).toNat (last + shift).toNat) = true := by
  decide +kernel

theorem isNumeric_of_leaves {low high : Nat} (h : numerals.leaves low high = true) {c : Char}
    (hlow : low ≤ c.toNat) (hhigh : c.toNat ≤ high) : isNumeric c = false :=
  Ranges.not_has_of_leaves numerals_sorted h hlow hhigh

theorem roman_small : ∀ n < 16,
    isNumberSign (Char.ofNat (8544 + n)) = true ∧
      isNumberSign (Char.ofNat (8544 + n + 16)) = true := by
  decide +kernel

theorem isNumberSign_lowerChar (c : Char) : isNumberSign (lowerChar c) = isNumberSign c := by
  unfold lowerChar
  simp only
  split
  · rename_i first last step shift hrow
    have hmem := List.mem_of_find?_eq_some hrow
    have hfits := List.find?_some hrow
    have hapart := List.all_eq_true.mp capitals_apart _ hmem
    simp only [Bool.and_eq_true, Bool.or_eq_true, decide_eq_true_eq, beq_iff_eq] at hfits hapart
    obtain ⟨⟨hlow, hhigh⟩, -⟩ := hfits
    rcases hapart with ⟨⟨⟨rfl, rfl⟩, -⟩, rfl⟩ | ⟨hcapital, hsmall⟩
    · obtain ⟨hthis, hlower⟩ := roman_small (c.toNat - 8544) (by omega)
      rw [show 8544 + (c.toNat - 8544) = c.toNat by omega] at hthis hlower
      rw [show ((c.toNat : Int) + 16).toNat = c.toNat + 16 by omega, hlower]
      rw [Char.ofNat_toNat] at hthis
      exact hthis.symm
    · have hc := isNumeric_of_leaves hcapital hlow hhigh
      have hl : isNumeric (Char.ofNat ((c.toNat : Int) + shift).toNat) = false := by
        -- What is no code point at all becomes the first of all characters.
        by_cases hvalid : (((c.toNat : Int) + shift).toNat).isValidChar
        · have hcode : (Char.ofNat ((c.toNat : Int) + shift).toNat).toNat =
              ((c.toNat : Int) + shift).toNat := by
            rw [Char.ofNat, dif_pos hvalid]
            rfl
          exact isNumeric_of_leaves hsmall (by omega) (by omega)
        · have hnull : Char.ofNat ((c.toNat : Int) + shift).toNat = Char.ofNat 0 := by
            rw [Char.ofNat, dif_neg hvalid]
            rfl
          rw [hnull]
          decide +kernel
      unfold isNumberSign
      rw [hc, hl]
      simp
  · rfl

end Text

open Text

/-! ## What a name begins with -/

/-- The name begins with a number that is no digit. -/
def beginsWithNumber (name : String) : Bool := name.toList.head?.any isNumberSign

theorem beginsWithNumber_cons (c : Char) (cs : List Char) :
    beginsWithNumber (String.ofList (c :: cs)) = isNumberSign c := by
  simp [beginsWithNumber]

theorem beginsWithNumber_shown_half (n : Fin 2048) (signs : Spelling) :
    beginsWithNumber (Spelling.shown '_' (.half n :: signs)) = false := by
  unfold Spelling.shown
  rw [List.map_cons, beginsWithNumber_cons]
  show isNumberSign '_' = false
  decide +kernel

/-- What a character becomes in lower case begins with a number when it is one. -/
theorem isNumberSign_lowerAt (before : List Char) (c : Char) (after : List Char) :
    ∃ d ds, lowerAt before c after = d :: ds ∧ isNumberSign d = isNumberSign c := by
  unfold lowerAt
  split
  · rename_i hsigma
    rw [hsigma]
    split <;> exact ⟨_, _, rfl, by decide +kernel⟩
  · split
    · rename_i hdotted
      rw [hdotted]
      exact ⟨_, _, rfl, by decide +kernel⟩
    · exact ⟨_, _, rfl, isNumberSign_lowerChar c⟩

theorem beginsWithNumber_lower (signs : Spelling) :
    beginsWithNumber ((lowerSpelling signs).shown '_') = beginsWithNumber (signs.shown '_') := by
  unfold lowerSpelling
  rcases signs with _ | ⟨c | n, rest⟩
  · rfl
  · obtain ⟨d, ds, hlower, hsame⟩ := isNumberSign_lowerAt [] c (rest.map (·.shown '\ufffd'))
    unfold lowerSigns Spelling.shown
    rw [hlower, List.map_cons, List.cons_append, List.map_cons, List.map_cons,
      beginsWithNumber_cons, beginsWithNumber_cons]
    exact hsame
  · unfold lowerSigns
    rw [beginsWithNumber_shown_half, beginsWithNumber_shown_half]

theorem beginsWithNumber_of_same {m n : Spelling} (h : lowerSpelling m = lowerSpelling n) :
    beginsWithNumber (m.shown '_') = beginsWithNumber (n.shown '_') := by
  rw [← beginsWithNumber_lower m, h, beginsWithNumber_lower]

/-- A name and its identifier begin alike: only digits are hidden, and what is no word
character is no number. -/
theorem beginsWithNumber_plainIdentifier (name : String) :
    beginsWithNumber (plainIdentifier name) = beginsWithNumber name := by
  unfold plainIdentifier
  split
  · rename_i hempty
    rw [beq_iff_eq.mp hempty]
    decide +kernel
  · rcases hname : name.toList with _ | ⟨c, cs⟩
    · simp [beginsWithNumber, hname]
    · have hhead : beginsWithNumber name = isNumberSign c := by simp [beginsWithNumber, hname]
      simp only [List.map_cons, List.head?_cons, Option.any_some, hhead]
      by_cases hword : isWord c = true
      · by_cases hdigit : isDigit c = true
        · simp only [hword, hdigit, if_true]
          rw [show "my_".toList = ['m', 'y', '_'] from rfl, List.cons_append, beginsWithNumber_cons]
          simp [isNumberSign, hdigit, show isNumeric 'm' = false by decide +kernel]
        · simp only [hword, hdigit, if_true, Bool.false_eq_true, if_false, beginsWithNumber_cons]
      · have hnone : isNumberSign c = false := by
          simp [isNumberSign, mt isWord_of_isNumeric hword]
        have hunder : isDigit '_' = false ∧ isNumberSign '_' = false := by decide +kernel
        simp only [hword, hunder, if_false, Bool.false_eq_true, beginsWithNumber_cons, hnone]

theorem beginsWithNumber_candidate {base : String} (h : base.toList ≠ []) (k : Nat) :
    beginsWithNumber (candidate base k) = beginsWithNumber base := by
  unfold candidate
  split
  · rfl
  · obtain ⟨c, cs, hcs⟩ := List.exists_cons_of_ne_nil h
    simp [beginsWithNumber, String.toList_append, hcs]

/-! ## Legal identifiers -/

def isLetter (c : Char) : Bool := isWord c && c != '_' && !isNumeric c

/-- The words that are part of the grammar of programs. -/
def keywords : List String :=
  ["False", "None", "True", "and", "as", "assert", "async", "await", "break", "class", "continue",
    "def", "del", "elif", "else", "except", "finally", "for", "from", "global", "if", "import",
    "in", "is", "lambda", "nonlocal", "not", "or", "pass", "raise", "return", "try", "while",
    "with", "yield"]

structure Legal (identifier : String) : Prop where
  first : identifier.toList.head?.any (fun c => c == '_' || isLetter c) = true
  word : ∀ c ∈ identifier.toList, isWord c = true
  no_keyword : identifier ∉ keywords

/-- Of what an identifier is made of, only a number in front can be wrong. -/
theorem Shaped.legal_iff {identifier : String} (h : Shaped identifier) :
    Legal identifier ↔ beginsWithNumber identifier = false ∧ identifier ∉ keywords := by
  obtain ⟨c, cs, hcs⟩ := List.exists_cons_of_ne_nil h.ne_empty
  have hword : isWord c = true := h.word c (by simp [hcs])
  have hdigit : isDigit c = false := h.no_digit c (by simp [hcs])
  have hfirst : identifier.toList.head?.any (fun c => c == '_' || isLetter c) =
      !beginsWithNumber identifier := by
    simp only [beginsWithNumber, hcs, List.head?_cons, Option.any_some, isLetter, isNumberSign,
      hword, hdigit, Bool.true_and, Bool.not_false, Bool.and_true]
    by_cases hunder : c = '_'
    · subst hunder
      decide +kernel
    · simp [bne, beq_false_of_ne hunder]
  constructor
  · rintro ⟨hf, -, hk⟩
    rw [hfirst] at hf
    exact ⟨by simpa using hf, hk⟩
  · rintro ⟨hf, hk⟩
    exact ⟨by rw [hfirst, hf]; rfl, h.word, hk⟩

/-! ## Words that no other name becomes -/

/-- What a name becomes shows the name, when nothing in it was put in place of anything. -/
theorem eq_of_plainIdentifier {name word : String} (hfirst : word.toList.head? ≠ some 'm')
    (hunder : '_' ∉ word.toList) (hnone : word ≠ "unnamed") (h : plainIdentifier name = word) :
    name = word := by
  unfold plainIdentifier at h
  split at h
  · exact absurd h.symm hnone
  · simp only at h
    split at h
    · rw [← h] at hfirst
      simp at hfirst
    · have hlist := congrArg String.toList h
      rw [String.toList_ofList] at hlist
      have hsame : name.toList.map (fun c => if isWord c then c else '_') = name.toList := by
        refine (List.map_congr_left fun c hc => ?_).trans (List.map_id _)
        split
        · rfl
        · rename_i hword
          refine absurd ?_ hunder
          rw [← hlist]
          exact List.mem_map.mpr ⟨c, hc, by rw [if_neg hword]⟩
      rw [hsame] at hlist
      exact String.toList_inj.mp hlist

/-- No number is put behind a base to make a word that ends in no digit. -/
theorem eq_of_candidate {base word : String} {k : Nat}
    (hlast : ∀ c ∈ word.toList.getLast?, c.isDigit = false) (h : candidate base k = word) :
    base = word := by
  unfold candidate at h
  split at h
  · exact h
  · have hne := Nat.toDigits_ne_nil (n := k + 1) (b := 10)
    have hmem := List.getLast_mem hne
    have hdigit := Nat.isDigit_of_mem_toDigits (by decide) (by decide) hmem
    rw [hlast ((Nat.toDigits 10 (k + 1)).getLast hne)] at hdigit
    · cases hdigit
    · rw [← h, String.toList_append, Nat.toString_eq_ofList_toDigits, String.toList_ofList,
        List.getLast?_append_of_ne_nil _ hne, List.getLast?_eq_getLast_of_ne_nil hne]
      rfl

end BlockCode
