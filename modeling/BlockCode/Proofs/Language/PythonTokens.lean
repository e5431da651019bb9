-- The tokens of a Python expression. A text is cut into lexemes: word characters stay
-- together, and so do the two characters of a double sign. A lexeme is a word, a number
-- or a sign; blanks only keep lexemes apart.
import BlockCode.Language.Python
import BlockCode.Proofs.Names.Fresh

namespace BlockCode.Python

open Text

/-! ## Operators and tokens -/

inductive Arithmetic where
  | add | minus | multiply | divide | power
deriving DecidableEq, Repr

inductive Comparison where
  | eq | neq | lt | lte | gt | gte
deriving DecidableEq, Repr

/-- The operator as it is written. -/
def Arithmetic.sign : Arithmetic → String
  | add => "+"
  | minus => "-"
  | multiply => "*"
  | divide => "/"
  | power => "**"

def Comparison.sign : Comparison → String
  | eq => "=="
  | neq => "!="
  | lt => "<"
  | lte => "<="
  | gt => ">"
  | gte => ">="

inductive Token where
  | name (text : String)
  | number (n : Nat)
  | truth (b : Bool)
  | not
  | sign (op : Arithmetic)
  | compare (op : Comparison)
  | opening
  | closing
deriving DecidableEq, Repr

/-- The lexemes that have a meaning of their own. All other words are names. -/
def Token.fixed : List (String × Token) :=
  [("(", opening), (")", closing), ("not", not), ("True", truth true), ("False", truth false)] ++
    [Arithmetic.add, .minus, .multiply, .divide, .power].map (fun op => (op.sign, sign op)) ++
    [Comparison.eq, .neq, .lt, .lte, .gt, .gte].map fun op => (op.sign, compare op)

/-- The token of a lexeme. A word that begins with a digit must be a number. -/
def Token.ofLexeme? (cs : List Char) : Option Token :=
  if cs.head?.any isDigit then
    if cs.all Char.isDigit then some (number (Nat.ofDigitChars 10 cs 0)) else none
  else match fixed.lookup (String.ofList cs) with
  | some t => some t
  | none => if cs.all isWord then some (name (String.ofList cs)) else none

/-! ## Lexemes -/

/-- Characters that stay together. -/
def joined (c d : Char) : Bool :=
  (isWord c && isWord d) || ["**", "==", "!=", "<=", ">="].contains (String.ofList [c, d])

/-- Lexemes with one character before them, which may stay with the first. -/
def attach (c : Char) : List (List Char) → List (List Char)
  | (d :: cs) :: more => if joined c d then (c :: d :: cs) :: more else [c] :: (d :: cs) :: more
  | more => [c] :: more

def lexemes : List Char → List (List Char)
  | [] => []
  | c :: rest => attach c (lexemes rest)

/-- The tokens of a text, or nothing if one of its lexemes is no token. -/
def tokens (text : String) : Option (List Token) :=
  ((lexemes text.toList).filter (· != [' '])).mapM Token.ofLexeme?

/-- A character that stays with no other. -/
def Separate (c : Char) : Prop := ∀ d, joined c d = false ∧ joined d c = false

theorem separate_of {c : Char} (hascii : c.toNat < 128) (hword : asciiWords.has c = false)
    (hsign : ∀ s ∈ ["**", "==", "!=", "<=", ">="], c ∉ s.toList) : Separate c := by
  have hnone : ∀ l : List Char, c ∈ l →
      ["**", "==", "!=", "<=", ">="].contains (String.ofList l) = false := by
    intro l hl
    rw [Bool.eq_false_iff]
    intro hmem
    have := hsign _ (List.contains_iff_mem.mp hmem)
    rw [String.toList_ofList] at this
    exact this hl
  intro d
  unfold joined
  rw [isWord_ascii hascii, hword, hnone [c, d] (by simp), hnone [d, c] (by simp)]
  simp

theorem separate_blank : Separate ' ' := separate_of (by decide) (by decide) (by decide)

theorem separate_opening : Separate '(' := separate_of (by decide) (by decide) (by decide)

theorem separate_closing : Separate ')' := separate_of (by decide) (by decide) (by decide)

theorem separate_minus : Separate '-' := separate_of (by decide) (by decide) (by decide)

theorem attach_separate {c : Char} (hc : Separate c) (more : List (List Char)) :
    attach c more = [c] :: more := by
  rcases more with _ | ⟨_ | ⟨d, cs⟩, more⟩
  · rfl
  · rfl
  · rw [attach, (hc d).1]
    rfl

theorem attach_append {c : Char} (hc : Separate c) (x : Char) (before after : List (List Char)) :
    attach x (before ++ [c] :: after) = attach x before ++ [c] :: after := by
  rcases before with _ | ⟨_ | ⟨d, cs⟩, more⟩
  · rw [List.nil_append, attach, (hc x).2]
    rfl
  · rfl
  · rw [List.cons_append, attach, attach]
    split
    · rfl
    · rfl

theorem lexemes_around {c : Char} (hc : Separate c) (before after : List Char) :
    lexemes (before ++ c :: after) = lexemes before ++ [c] :: lexemes after := by
  induction before with
  | nil => exact attach_separate hc _
  | cons x before ih => rw [List.cons_append, lexemes, lexemes, ih, attach_append hc]

theorem lexemes_word {c : Char} {cs : List Char} (h : ∀ d ∈ c :: cs, isWord d = true) :
    lexemes (c :: cs) = [c :: cs] := by
  induction cs generalizing c with
  | nil => rfl
  | cons d cs ih =>
    have hjoin : joined c d = true := by
      unfold joined
      rw [h c List.mem_cons_self, h d (List.mem_cons_of_mem _ List.mem_cons_self)]
      rfl
    rw [lexemes, ih fun e he => h e (List.mem_cons_of_mem _ he), attach, hjoin]
    rfl

/-! ## Tokens -/

theorem tokens_around {before middle after : String} {c : Char} {ts us vs : List Token}
    (hc : Separate c) (hmiddle : middle.toList = [c]) (hbefore : tokens before = some ts)
    (hsign : tokens middle = some us) (hafter : tokens after = some vs) :
    tokens (before ++ middle ++ after) = some (ts ++ us ++ vs) := by
  have hlexemes : lexemes (before ++ middle ++ after).toList =
      lexemes before.toList ++ lexemes middle.toList ++ lexemes after.toList := by
    rw [String.toList_append, String.toList_append, hmiddle, List.append_assoc,
      List.singleton_append, lexemes_around hc, List.append_assoc]
    rfl
  unfold tokens at *
  rw [hlexemes, List.filter_append, List.filter_append, List.mapM_append, List.mapM_append,
    hbefore, hsign, hafter]
  rfl

theorem tokens_empty : tokens "" = some [] := by decide +kernel

theorem tokens_spaced {before after : String} {ts us : List Token}
    (hbefore : tokens before = some ts) (hafter : tokens after = some us) :
    tokens (before ++ " " ++ after) = some (ts ++ us) := by
  have hblank : tokens " " = some [] := by decide +kernel
  have h := tokens_around separate_blank (by decide) hbefore hblank hafter
  rwa [List.append_nil] at h

theorem tokens_call {function argument : String} {ts us : List Token}
    (hfunction : tokens function = some ts) (hargument : tokens argument = some us) :
    tokens (function ++ "(" ++ argument ++ ")") = some (ts ++ .opening :: us ++ [.closing]) := by
  have hopening : tokens "(" = some [.opening] := by decide +kernel
  have hclosing : tokens ")" = some [.closing] := by decide +kernel
  have hopen := tokens_around separate_opening (by decide) hfunction hopening hargument
  have hclose := tokens_around separate_closing (by decide) hopen hclosing tokens_empty
  rwa [String.append_empty, List.append_nil, List.append_assoc ts, List.singleton_append] at hclose

theorem tokens_minus {text : String} {ts : List Token} (h : tokens text = some ts) :
    tokens ("-" ++ text) = some (.sign .minus :: ts) := by
  have hminus : tokens "-" = some [.sign .minus] := by decide +kernel
  have h := tokens_around separate_minus (by decide) tokens_empty hminus h
  rwa [String.empty_append] at h

theorem tokens_arithmetic (op : Arithmetic) : tokens op.sign = some [.sign op] := by
  cases op <;> decide +kernel

theorem tokens_comparison (op : Comparison) : tokens op.sign = some [.compare op] := by
  cases op <;> decide +kernel

theorem tokens_word {text : String} (hne : text.toList ≠ [])
    (hword : ∀ c ∈ text.toList, isWord c = true) {t : Token}
    (ht : Token.ofLexeme? text.toList = some t) : tokens text = some [t] := by
  obtain ⟨c, cs, hcs⟩ := List.exists_cons_of_ne_nil hne
  have hblank : isWord ' ' = false := by
    rw [isWord_ascii (by decide)]
    decide
  have hkept : text.toList ≠ [' '] := by
    intro h
    rw [h] at hword
    rw [hword ' ' List.mem_cons_self] at hblank
    cases hblank
  unfold tokens
  rw [hcs] at hword
  rw [show lexemes text.toList = [text.toList] by rw [hcs]; exact lexemes_word hword,
    List.filter_cons_of_pos (by simpa using hkept), List.filter_nil, List.mapM_cons, ht]
  rfl

theorem tokens_name {identifier : String} (hshaped : Shaped identifier)
    (hfree : identifier ∉ reservedWords) : tokens identifier = some [.name identifier] := by
  refine tokens_word hshaped.ne_empty hshaped.word ?_
  have hfirst : identifier.toList.head?.any isDigit = false := by
    obtain ⟨c, cs, hcs⟩ := List.exists_cons_of_ne_nil hshaped.ne_empty
    rw [hcs]
    exact hshaped.no_digit c (by rw [hcs]; rfl)
  have hfixed : ∀ e ∈ Token.fixed, e.1.toList.any (fun c => c.toNat < 128 && !asciiWords.has c) ∨
      e.1 ∈ reservedWords := by
    decide +kernel
  have hlookup : Token.fixed.lookup (String.ofList identifier.toList) = none := by
    rw [String.ofList_toList, List.lookup_eq_none_iff]
    intro e he
    rw [bne_iff_ne]
    rintro rfl
    rcases hfixed e he with hsign | hreserved
    · obtain ⟨c, hc, hsign⟩ := List.any_eq_true.mp hsign
      rw [Bool.and_eq_true, decide_eq_true_iff] at hsign
      rw [← isWord_ascii hsign.1, hshaped.word c hc] at hsign
      cases hsign.2
    · exact hfree hreserved
  unfold Token.ofLexeme?
  rw [hfirst, hlookup, List.all_eq_true.mpr hshaped.word, String.ofList_toList]
  rfl

end BlockCode.Python
