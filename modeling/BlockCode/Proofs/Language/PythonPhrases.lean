-- Texts that can be read as phrases. A text of some order of precedence is read at the
-- level of this order; in brackets, as the language puts them, it is read at the level
-- that its place asks for.
import BlockCode.Proofs.Generation.Running
import BlockCode.Proofs.Language.PythonGrammar

namespace BlockCode.Python

/-! ## Orders and levels -/

/-- The level of all phrases that may stand where the order is this one. -/
def levelOf (order : Int) : Level :=
  if order < exponentiation then .primary
  else if order < unarySign then .power
  else if order < multiplicative then .factor
  else if order < additive then .term
  else if order < relational then .sum
  else if order < logicalNot then .comparison
  else .inversion

theorem levelOf_succ (order : Int) :
    levelOf (order + 1) = levelOf order ∨ levelOf (order + 1) = (levelOf order).looser := by
  unfold levelOf exponentiation unarySign multiplicative additive relational logicalNot
  grind [Level.looser]

theorem Reads.weaken {i o : Int} (hio : i ≤ o) {ts : List Token} {e : Expression}
    (h : Reads (levelOf i) ts e) : Reads (levelOf o) ts e := by
  obtain ⟨steps, rfl⟩ : ∃ steps : Nat, o = i + steps := ⟨(o - i).toNat, by omega⟩
  clear hio
  induction steps with
  | zero => rwa [Int.natCast_zero, Int.add_zero]
  | succ steps ih =>
    rw [Int.natCast_add, ← Int.add_assoc]
    rcases levelOf_succ (i + steps) with hsame | hlooser
    · rw [show levelOf (i + steps + (1 : Nat)) = levelOf (i + steps) from hsame]
      exact ih
    · rw [show levelOf (i + steps + (1 : Nat)) = (levelOf (i + steps)).looser from hlooser]
      exact .up ih

/-- The text is a phrase of the level, and it means the expression. -/
def Phrase (level : Level) (text : String) (e : Expression) : Prop :=
  ∃ ts, tokens text = some ts ∧ Reads level ts e

namespace Phrase

variable {text left right : String} {e l r : Expression}

theorem weaken {i o : Int} (hio : i ≤ o) (h : Phrase (levelOf i) text e) :
    Phrase (levelOf o) text e := by
  obtain ⟨ts, htokens, hreads⟩ := h
  exact ⟨ts, htokens, hreads.weaken hio⟩

theorem ne_empty {level : Level} (h : Phrase level text e) : text ≠ "" := by
  rintro rfl
  obtain ⟨ts, htokens, hreads⟩ := h
  obtain ⟨t, more, rfl, -, -⟩ := hreads.head
  rw [tokens_empty] at htokens
  cases htokens

theorem name {identifier : String} (hshaped : Shaped identifier)
    (hfree : identifier ∉ reservedWords) : Phrase .primary identifier (.name identifier) :=
  ⟨_, tokens_name hshaped hfree, .name identifier⟩

theorem negative (h : Phrase .factor text e) : Phrase .factor ("-" ++ text) (.negative e) := by
  obtain ⟨ts, htokens, hreads⟩ := h
  exact ⟨_, tokens_minus htokens, .negative hreads⟩

theorem truth (b : Bool) : Phrase .primary (if b then "True" else "False") (.truth b) := by
  cases b with
  | true => exact ⟨[.truth true], by decide +kernel, .truth true⟩
  | false => exact ⟨[.truth false], by decide +kernel, .truth false⟩

theorem bracket (h : Phrase .inversion text e) : Phrase .primary ("(" ++ text ++ ")") e := by
  obtain ⟨ts, htokens, hreads⟩ := h
  have htokens := tokens_call tokens_empty htokens
  rw [String.empty_append] at htokens
  exact ⟨_, htokens, .bracket hreads⟩

theorem call {function : String} {f : Expression} (hfunction : Phrase .primary function f)
    (h : Phrase .inversion text e) : Phrase .primary (function ++ "(" ++ text ++ ")") (.call f e) := by
  obtain ⟨ts, hts, hf⟩ := hfunction
  obtain ⟨us, hus, he⟩ := h
  exact ⟨_, tokens_call hts hus, .call hf he⟩

theorem tokens_infix {sign : String} {t : Token} {ts us : List Token} (hsign : tokens sign = some [t])
    (hleft : tokens left = some ts) (hright : tokens right = some us) :
    tokens (left ++ (" " ++ sign ++ " ") ++ right) = some (ts ++ t :: us) := by
  have h := tokens_spaced (tokens_spaced hleft hsign) hright
  rw [List.append_assoc, List.singleton_append] at h
  rw [← h]
  simp only [String.append_assoc]

theorem power (hleft : Phrase .primary left l) (hright : Phrase .factor right r) :
    Phrase .power (left ++ (" " ++ Arithmetic.power.sign ++ " ") ++ right)
      (.arithmetic .power l r) := by
  obtain ⟨ts, hts, hl⟩ := hleft
  obtain ⟨us, hus, hr⟩ := hright
  exact ⟨_, tokens_infix (tokens_arithmetic .power) hts hus, .power hl hr⟩

theorem arithmetic {op : Arithmetic} (hop : op ≠ .power) (hleft : Phrase op.level left l)
    (hright : Phrase op.level.tighter right r) :
    Phrase op.level (left ++ (" " ++ op.sign ++ " ") ++ right) (.arithmetic op l r) := by
  obtain ⟨ts, hts, hl⟩ := hleft
  obtain ⟨us, hus, hr⟩ := hright
  exact ⟨_, tokens_infix (tokens_arithmetic op) hts hus, .arithmetic hop rfl hl hr⟩

theorem compare (op : Comparison) (hleft : Phrase .sum left l) (hright : Phrase .sum right r) :
    Phrase .comparison (left ++ (" " ++ op.sign ++ " ") ++ right) (.compare op l r) := by
  obtain ⟨ts, hts, hl⟩ := hleft
  obtain ⟨us, hus, hr⟩ := hright
  exact ⟨_, tokens_infix (tokens_comparison op) hts hus, .up (.compare hl hr)⟩

theorem negation (h : Phrase .inversion text e) : Phrase .inversion ("not " ++ text) (.negation e) := by
  obtain ⟨ts, htokens, hreads⟩ := h
  have hnot : tokens "not" = some [.not] := by decide +kernel
  have hword : "not " = "not" ++ " " := by decide
  rw [hword]
  exact ⟨_, tokens_spaced hnot htokens, .negation hreads⟩

/-! ## Brackets -/

/-- An expression in a place of order `outer`, with the brackets that the language puts,
is read at the level of the place, and even at the level below if the orders differ. -/
theorem bracketed (config : Config) {outer inner : Int} (h : Phrase (levelOf inner) text e)
    (hinner : 0 ≤ inner ∧ inner ≤ logicalNot) (houter : 0 < outer) :
    Phrase (levelOf outer)
        ((Language.python config).bracketed text (.int outer) (.int inner)) e ∧
      (inner ≠ outer → Phrase (levelOf (outer - 1))
        ((Language.python config).bracketed text (.int outer) (.int inner)) e) := by
  unfold logicalNot at hinner
  rw [Language.bracketed_int rfl rfl]
  split
  · have hinversion : Phrase (levelOf logicalNot) text e := h.weaken hinner.2
    have hprimary : Phrase (levelOf 0) ("(" ++ text ++ ")") e := bracket hinversion
    exact ⟨hprimary.weaken (by omega), fun _ => hprimary.weaken (by omega)⟩
  · rename_i hnone
    have hle : inner ≤ outer := by
      by_contra hlt
      exact hnone ⟨h.ne_empty, by omega, by omega, by omega⟩
    exact ⟨h.weaken hle, fun hne => h.weaken (by omega)⟩

end Phrase
end BlockCode.Python
