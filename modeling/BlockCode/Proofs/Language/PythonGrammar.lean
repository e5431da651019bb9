-- The grammar of Python expressions, as far as the operators of blocks go. The grammar
-- is not ambiguous: a reader who always takes as much as belongs together takes every
-- phrase of the grammar, and he can take it in one way only.
import BlockCode.Proofs.Language.PythonTokens

namespace BlockCode.Python

/-! ## Expressions -/

inductive Expression where
  | name (text : String)
  | number (n : Nat)
  | truth (b : Bool)
  | call (function argument : Expression)
  | negative (e : Expression)
  | arithmetic (op : Arithmetic) (left right : Expression)
  | compare (op : Comparison) (left right : Expression)
  /-- A comparison that goes on with one more sign and operand, as `a < b < c` does. -/
  | chained (op : Comparison) (front right : Expression)
  | negation (e : Expression)
deriving DecidableEq, Repr

/-- The kinds of phrases, from those that bind tightest on. -/
inductive Level where
  | primary | power | factor | term | sum | chain | comparison | inversion
deriving DecidableEq, Repr

namespace Level

/-- Every phrase is one of this level too. -/
def looser : Level → Level
  | primary => power
  | power => factor
  | factor => term
  | term => sum
  | sum => comparison
  | chain => comparison
  | comparison => inversion
  | inversion => inversion

/-- The level of the right operands. -/
def tighter : Level → Level
  | sum => term
  | _ => factor

end Level

def Arithmetic.level : Arithmetic → Level
  | add => .sum
  | minus => .sum
  | multiply => .term
  | divide => .term
  | power => .power

/-- The tokens are a phrase of the level, and it means the expression. The power binds
tighter than the sign before it, and its right operand may be a power again or have a
sign; the other operators take their operands from the left on. -/
inductive Reads : Level → List Token → Expression → Prop
  | name (text : String) : Reads .primary [.name text] (.name text)
  | number (n : Nat) : Reads .primary [.number n] (.number n)
  | truth (b : Bool) : Reads .primary [.truth b] (.truth b)
  | bracket {ts e} : Reads .inversion ts e → Reads .primary (.opening :: ts ++ [.closing]) e
  | call {ts us f a} : Reads .primary ts f → Reads .inversion us a →
    Reads .primary (ts ++ .opening :: us ++ [.closing]) (.call f a)
  | power {ts us l r} : Reads .primary ts l → Reads .factor us r →
    Reads .power (ts ++ .sign .power :: us) (.arithmetic .power l r)
  | negative {ts e} : Reads .factor ts e → Reads .factor (.sign .minus :: ts) (.negative e)
  | arithmetic {op level ts us l r} : op ≠ .power → op.level = level → Reads level ts l →
    Reads level.tighter us r → Reads level (ts ++ .sign op :: us) (.arithmetic op l r)
  | compare {op ts us l r} : Reads .sum ts l → Reads .sum us r →
    Reads .chain (ts ++ .compare op :: us) (.compare op l r)
  | chained {op ts us l r} : Reads .chain ts l → Reads .sum us r →
    Reads .chain (ts ++ .compare op :: us) (.chained op l r)
  | negation {ts e} : Reads .inversion ts e → Reads .inversion (.not :: ts) (.negation e)
  | up {level ts e} : Reads level ts e → Reads level.looser ts e

/-! ## A reader -/

/-- What the reader is about to take: a phrase, or what belongs to a phrase behind the
part of it that he has. -/
inductive Goal where
  | whole (level : Level)
  | behind (level : Level) (left : Expression)

def Level.rank : Level → Nat
  | primary => 0
  | power => 1
  | factor => 2
  | term => 3
  | sum => 4
  | chain => 5
  | comparison => 5
  | inversion => 6

/-- Where the token belongs to the phrase before it. -/
def Token.rank : Token → Option Nat
  | opening => some 0
  | sign op => some op.level.rank
  | compare _ => some 5
  | _ => none

/-- The next token does not belong to a phrase of the level. -/
def Ends (level : Level) (ts : List Token) : Prop := ∀ t ∈ ts.head?, t.rank ≠ some level.rank

/-- The next token belongs to phrases of this rank at least, if to any. -/
def Clear (n : Nat) (ts : List Token) : Prop := ∀ t ∈ ts.head?, ∀ k ∈ t.rank, n ≤ k

/-- The reader takes an expression and leaves the rest of the tokens. -/
inductive Takes : Goal → List Token → Expression → List Token → Prop
  | name {text ts e rest} : Takes (.behind .primary (.name text)) ts e rest →
    Takes (.whole .primary) (.name text :: ts) e rest
  | number {n ts e rest} : Takes (.behind .primary (.number n)) ts e rest →
    Takes (.whole .primary) (.number n :: ts) e rest
  | truth {b ts e rest} : Takes (.behind .primary (.truth b)) ts e rest →
    Takes (.whole .primary) (.truth b :: ts) e rest
  | bracket {ts us inner e rest} : Takes (.whole .inversion) ts inner (.closing :: us) →
    Takes (.behind .primary inner) us e rest → Takes (.whole .primary) (.opening :: ts) e rest
  | call {ts us f a e rest} : Takes (.whole .inversion) ts a (.closing :: us) →
    Takes (.behind .primary (.call f a)) us e rest →
    Takes (.behind .primary f) (.opening :: ts) e rest
  | power {ts us l r rest} : Takes (.whole .primary) ts l (.sign .power :: us) →
    Takes (.whole .factor) us r rest → Takes (.whole .power) ts (.arithmetic .power l r) rest
  | base {ts e rest} : Takes (.whole .primary) ts e rest → Ends .power rest →
    Takes (.whole .power) ts e rest
  | negative {ts e rest} : Takes (.whole .factor) ts e rest →
    Takes (.whole .factor) (.sign .minus :: ts) (.negative e) rest
  | unsigned {ts e rest} : Takes (.whole .power) ts e rest → ts.head? ≠ some (.sign .minus) →
    Takes (.whole .factor) ts e rest
  | product {ts us l e rest} : Takes (.whole .factor) ts l us →
    Takes (.behind .term l) us e rest → Takes (.whole .term) ts e rest
  | total {ts us l e rest} : Takes (.whole .term) ts l us →
    Takes (.behind .sum l) us e rest → Takes (.whole .sum) ts e rest
  | arithmetic {op level ts us l r e rest} : op ≠ .power → op.level = level →
    Takes (.whole level.tighter) ts r us → Takes (.behind level (.arithmetic op l r)) us e rest →
    Takes (.behind level l) (.sign op :: ts) e rest
  | compare {op ts us vs l r e rest} : Takes (.whole .sum) ts l (.compare op :: us) →
    Takes (.whole .sum) us r vs → Takes (.behind .chain (.compare op l r)) vs e rest →
    Takes (.whole .comparison) ts e rest
  | single {ts e rest} : Takes (.whole .sum) ts e rest → Ends .comparison rest →
    Takes (.whole .comparison) ts e rest
  | chained {op ts us l r e rest} : Takes (.whole .sum) ts r us →
    Takes (.behind .chain (.chained op l r)) us e rest →
    Takes (.behind .chain l) (.compare op :: ts) e rest
  | negation {ts e rest} : Takes (.whole .inversion) ts e rest →
    Takes (.whole .inversion) (.not :: ts) (.negation e) rest
  | plain {ts e rest} : Takes (.whole .comparison) ts e rest → ts.head? ≠ some .not →
    Takes (.whole .inversion) ts e rest
  | done {level e rest} : Ends level rest → Takes (.behind level e) rest e rest

theorem not_ends {level : Level} {t : Token} {ts : List Token} (h : t.rank = some level.rank) :
    ¬ Ends level (t :: ts) := fun hends => hends t rfl h

theorem Takes.determined {g : Goal} {ts : List Token} {e e' : Expression} {rest rest' : List Token}
    (h : Takes g ts e rest) (h' : Takes g ts e' rest') : e = e' ∧ rest = rest' := by
  induction h generalizing e' rest' with
  | name _ ih =>
    cases h' with
    | name h => exact ih h
  | number _ ih =>
    cases h' with
    | number h => exact ih h
  | truth _ ih =>
    cases h' with
    | truth h => exact ih h
  | bracket _ _ ih ihRest =>
    cases h' with
    | bracket h hrest =>
      obtain ⟨rfl, htokens⟩ := ih h
      cases htokens
      exact ihRest hrest
  | call _ _ ih ihRest =>
    cases h' with
    | call h hrest =>
      obtain ⟨rfl, htokens⟩ := ih h
      cases htokens
      exact ihRest hrest
    | done hends => exact absurd hends (not_ends rfl)
  | power _ _ ihLeft ihRight =>
    cases h' with
    | power hleft hright =>
      obtain ⟨rfl, htokens⟩ := ihLeft hleft
      cases htokens
      obtain ⟨rfl, rfl⟩ := ihRight hright
      exact ⟨rfl, rfl⟩
    | base h hends =>
      obtain ⟨-, rfl⟩ := ihLeft h
      exact absurd hends (not_ends rfl)
  | base _ hends ih =>
    cases h' with
    | power hleft hright =>
      obtain ⟨-, rfl⟩ := ih hleft
      exact absurd hends (not_ends rfl)
    | base h _ => exact ih h
  | negative _ ih =>
    cases h' with
    | negative h =>
      obtain ⟨rfl, rfl⟩ := ih h
      exact ⟨rfl, rfl⟩
    | unsigned h hfirst => exact absurd rfl hfirst
  | unsigned _ hfirst ih =>
    cases h' with
    | negative h => exact absurd rfl hfirst
    | unsigned h _ => exact ih h
  | product _ _ ih ihRest =>
    cases h' with
    | product h hrest =>
      obtain ⟨rfl, rfl⟩ := ih h
      exact ihRest hrest
  | total _ _ ih ihRest =>
    cases h' with
    | total h hrest =>
      obtain ⟨rfl, rfl⟩ := ih h
      exact ihRest hrest
  | arithmetic hop hlevel _ _ ih ihRest =>
    cases h' with
    | arithmetic _ _ h hrest =>
      obtain ⟨rfl, rfl⟩ := ih h
      exact ihRest hrest
    | done hends => exact absurd hends (not_ends (by rw [Token.rank, hlevel]))
  | compare _ _ _ ihLeft ihRight ihRest =>
    cases h' with
    | compare hleft hright hrest =>
      obtain ⟨rfl, htokens⟩ := ihLeft hleft
      cases htokens
      obtain ⟨rfl, rfl⟩ := ihRight hright
      exact ihRest hrest
    | single h hends =>
      obtain ⟨-, rfl⟩ := ihLeft h
      exact absurd hends (not_ends rfl)
  | single _ hends ih =>
    cases h' with
    | compare hleft hright hrest =>
      obtain ⟨-, rfl⟩ := ih hleft
      exact absurd hends (not_ends rfl)
    | single h _ => exact ih h
  | chained _ _ ih ihRest =>
    cases h' with
    | chained h hrest =>
      obtain ⟨rfl, rfl⟩ := ih h
      exact ihRest hrest
    | done hends => exact absurd hends (not_ends rfl)
  | negation _ ih =>
    cases h' with
    | negation h =>
      obtain ⟨rfl, rfl⟩ := ih h
      exact ⟨rfl, rfl⟩
    | plain h hfirst => exact absurd rfl hfirst
  | plain _ hfirst ih =>
    cases h' with
    | negation h => exact absurd rfl hfirst
    | plain h _ => exact ih h
  | done hends =>
    cases h' with
    | call h hrest => exact absurd hends (not_ends rfl)
    | arithmetic _ hlevel h hrest => exact absurd hends (not_ends (by rw [Token.rank, hlevel]))
    | chained h hrest => exact absurd hends (not_ends rfl)
    | done _ => exact ⟨rfl, rfl⟩

/-! ## Every phrase is taken -/

theorem Clear.mono {m n : Nat} {ts : List Token} (h : Clear n ts) (hmn : m ≤ n) : Clear m ts :=
  fun t ht k hk => Nat.le_trans hmn (h t ht k hk)

theorem Clear.ends {level : Level} {ts : List Token} (h : Clear (level.rank + 1) ts) :
    Ends level ts := by
  intro t ht hrank
  exact Nat.not_succ_le_self _ (h t ht _ hrank)

theorem clear_cons {n k : Nat} {t : Token} (ht : t.rank = some k) (hn : n ≤ k) (ts : List Token) :
    Clear n (t :: ts) := by
  intro u hu j hj
  cases hu
  rw [ht] at hj
  cases hj
  exact hn

theorem clear_closing (n : Nat) (ts : List Token) : Clear n (.closing :: ts) := by
  intro u hu j hj
  cases hu
  cases hj

/-- The phrase is taken when nothing behind it belongs to it. -/
def Whole (level : Level) (ts : List Token) (e : Expression) : Prop :=
  ∀ rest, Clear (level.rank + 1) rest → Takes (.whole level) (ts ++ rest) e rest

/-- The phrase is taken, and the reader goes on with what is behind it. -/
def Leads (behind whole : Level) (ts : List Token) (e : Expression) : Prop :=
  ∀ rest e' rest', Clear behind.rank rest → Takes (.behind behind e) rest e' rest' →
    Takes (.whole whole) (ts ++ rest) e' rest'

/-- What is said of a phrase: the reader takes it. A phrase that may be the left operand
of one of its own level may be gone on with. -/
def Taken : Level → List Token → Expression → Prop
  | .primary => Leads .primary .primary
  | .term => Leads .term .term
  | .sum => Leads .sum .sum
  | .chain => Leads .chain .comparison
  | level => Whole level

theorem Leads.whole {behind whole : Level} {ts : List Token} {e : Expression}
    (h : Leads behind whole ts e) (hrank : whole.rank = behind.rank) : Whole whole ts e := by
  intro rest hclear
  rw [hrank] at hclear
  exact h rest e rest (hclear.mono (Nat.le_succ _)) (.done hclear.ends)

theorem Taken.whole (level : Level) {ts : List Token} {e : Expression} (h : Taken level ts e)
    (hlevel : level ≠ .chain) : Whole level ts e := by
  cases level with
  | chain => exact absurd rfl hlevel
  | primary => exact Leads.whole h rfl
  | term => exact Leads.whole h rfl
  | sum => exact Leads.whole h rfl
  | power => exact h
  | factor => exact h
  | comparison => exact h
  | inversion => exact h

/-- A phrase begins with no sign if it binds tighter than one, and with no negation unless
it is one. -/
theorem Reads.head {level : Level} {ts : List Token} {e : Expression} (h : Reads level ts e) :
    ∃ t more, ts = t :: more ∧ (level.rank ≤ 1 → t ≠ .sign .minus) ∧
      (level.rank ≤ 5 → t ≠ .not) := by
  induction h with
  | name text => exact ⟨_, _, rfl, fun _ => nofun, fun _ => nofun⟩
  | number n => exact ⟨_, _, rfl, fun _ => nofun, fun _ => nofun⟩
  | truth b => exact ⟨_, _, rfl, fun _ => nofun, fun _ => nofun⟩
  | bracket _ _ => exact ⟨_, _, rfl, fun _ => nofun, fun _ => nofun⟩
  | call _ _ ih _ =>
    obtain ⟨t, more, rfl, hminus, hnot⟩ := ih
    exact ⟨t, _, rfl, hminus, hnot⟩
  | power _ _ ih _ =>
    obtain ⟨t, more, rfl, hminus, hnot⟩ := ih
    exact ⟨t, _, rfl, fun _ => hminus (Nat.zero_le _), fun _ => hnot (Nat.zero_le _)⟩
  | negative _ _ => exact ⟨_, _, rfl, fun h => absurd h (by decide), fun _ => nofun⟩
  | arithmetic _ _ _ _ ih _ =>
    obtain ⟨t, more, rfl, hminus, hnot⟩ := ih
    exact ⟨t, _, rfl, hminus, hnot⟩
  | compare _ _ ih _ =>
    obtain ⟨t, more, rfl, -, hnot⟩ := ih
    exact ⟨t, _, rfl, fun h => absurd h (by decide), fun _ => hnot (by decide)⟩
  | chained _ _ ih _ =>
    obtain ⟨t, more, rfl, hminus, hnot⟩ := ih
    exact ⟨t, _, rfl, hminus, hnot⟩
  | negation _ _ => exact ⟨_, _, rfl, fun h => absurd h (by decide), fun h => absurd h (by decide)⟩
  | @up level ts e _ ih =>
    obtain ⟨t, more, rfl, hminus, hnot⟩ := ih
    refine ⟨t, more, rfl, fun h => hminus ?_, fun h => hnot ?_⟩
    · cases level <;> simp_all [Level.looser, Level.rank]
    · cases level <;> simp_all [Level.looser, Level.rank]

theorem taken_up {level : Level} {ts : List Token} {e : Expression} (hreads : Reads level ts e)
    (h : Taken level ts e) : Taken level.looser ts e := by
  obtain ⟨t, more, rfl, hminus, hnot⟩ := hreads.head
  have hwhole := Taken.whole level h
  cases level with
  | primary =>
    intro rest hclear
    exact .base (hwhole nofun rest (hclear.mono (by decide))) hclear.ends
  | power =>
    intro rest hclear
    refine .unsigned (hwhole nofun rest (hclear.mono (by decide))) ?_
    intro heq
    exact hminus (by decide) (Option.some.inj heq)
  | factor =>
    intro rest e' rest' hclear hbehind
    exact .product (hwhole nofun rest hclear) hbehind
  | term =>
    intro rest e' rest' hclear hbehind
    exact .total (hwhole nofun rest hclear) hbehind
  | sum =>
    intro rest hclear
    exact .single (hwhole nofun rest (hclear.mono (by decide))) hclear.ends
  | chain => exact Leads.whole h rfl
  | comparison =>
    intro rest hclear
    refine .plain (hwhole nofun rest (hclear.mono (by decide))) ?_
    intro heq
    exact hnot (by decide) (Option.some.inj heq)
  | inversion => exact h

/-- No token belongs to a phrase for having a sign before it. -/
theorem Clear.past_power {ts : List Token} (h : Clear 2 ts) : Clear 3 ts := by
  intro t ht k hk
  have hle := h t ht k hk
  have hne : k ≠ 2 := by
    rintro rfl
    cases t with
    | sign op => cases op <;> cases hk
    | _ => cases hk
  omega

theorem taken_arithmetic {op : Arithmetic} {level : Level} {ts us : List Token} {l r : Expression}
    (hop : op ≠ .power) (hlevel : op.level = level) (hleft : Taken level ts l)
    (hright : Taken level.tighter us r) :
    Taken level (ts ++ .sign op :: us) (.arithmetic op l r) := by
  have hrank : ∀ more, Clear level.rank (.sign op :: more) :=
    clear_cons (by rw [Token.rank, hlevel]) (Nat.le_refl _)
  have hstep : ∀ rest e' rest', Clear level.rank rest →
      Takes (.whole level.tighter) (us ++ rest) r rest →
      Takes (.behind level (.arithmetic op l r)) rest e' rest' →
      Takes (.behind level l) (.sign op :: (us ++ rest)) e' rest' :=
    fun _ _ _ _ h hbehind => .arithmetic hop hlevel h hbehind
  cases op with
  | power => exact absurd rfl hop
  | add | minus =>
    cases hlevel
    intro rest e' rest' hclear hbehind
    rw [List.append_assoc]
    refine hleft _ e' rest' (hrank _) (hstep rest e' rest' hclear ?_ hbehind)
    exact Taken.whole .term hright nofun rest hclear
  | multiply | divide =>
    cases hlevel
    intro rest e' rest' hclear hbehind
    rw [List.append_assoc]
    refine hleft _ e' rest' (hrank _) (hstep rest e' rest' hclear ?_ hbehind)
    exact Taken.whole .factor hright nofun rest hclear

/-- The reader takes every phrase of the grammar. -/
theorem Reads.taken {level : Level} {ts : List Token} {e : Expression} (h : Reads level ts e) :
    Taken level ts e := by
  induction h with
  | name text => exact fun _ _ _ _ hbehind => .name hbehind
  | number n => exact fun _ _ _ _ hbehind => .number hbehind
  | truth b => exact fun _ _ _ _ hbehind => .truth hbehind
  | bracket _ ih =>
    intro rest e' rest' _ hbehind
    have hinner := ih.whole .inversion nofun _ (clear_closing _ rest)
    rw [List.append_assoc]
    exact .bracket hinner hbehind
  | call _ _ ihFunction ihArgument =>
    intro rest e' rest' _ hbehind
    have hargument := ihArgument.whole .inversion nofun _ (clear_closing _ rest)
    rw [List.append_assoc, List.append_assoc]
    exact ihFunction _ e' rest' (clear_cons rfl (Nat.zero_le _) _) (.call hargument hbehind)
  | power _ _ ihLeft ihRight =>
    intro rest hclear
    have hright := ihRight.whole .factor nofun rest hclear.past_power
    rw [List.append_assoc]
    exact .power (ihLeft.whole .primary nofun _ (clear_cons rfl (by decide) _)) hright
  | negative _ ih =>
    intro rest hclear
    exact .negative (ih.whole .factor nofun rest hclear)
  | arithmetic hop hlevel _ _ ihLeft ihRight => exact taken_arithmetic hop hlevel ihLeft ihRight
  | compare _ _ ihLeft ihRight =>
    intro rest e' rest' hclear hbehind
    have hright := ihRight.whole .sum nofun rest hclear
    rw [List.append_assoc]
    exact .compare (ihLeft.whole .sum nofun _ (clear_cons rfl (by decide) _)) hright hbehind
  | chained _ _ ihLeft ihRight =>
    intro rest e' rest' hclear hbehind
    have hright := ihRight.whole .sum nofun rest hclear
    rw [List.append_assoc]
    exact ihLeft _ e' rest' (clear_cons rfl (by decide) _) (.chained hright hbehind)
  | negation _ ih =>
    intro rest hclear
    exact .negation (ih.whole .inversion nofun rest hclear)
  | up hreads ih => exact taken_up hreads ih

/-- The grammar is not ambiguous. -/
theorem Reads.unique {ts : List Token} {e e' : Expression} (h : Reads .inversion ts e)
    (h' : Reads .inversion ts e') : e = e' := by
  have hend : Clear 7 [] := fun t ht => absurd ht nofun
  have htaken := h.taken.whole .inversion nofun [] hend
  exact (htaken.determined (h'.taken.whole .inversion nofun [] hend)).1

end BlockCode.Python
