-- Orders of precedence, whatever values stand for them. What comes of an expression in an
-- input depends on the order of the place and on the order of the expression alone. Each of
-- them is refused when it is no real number, as far as the refusal can be put into words, and
-- stands in the way when it is a whole number beyond all floating-point numbers. Other orders
-- are compared as exact numbers.
import BlockCode.Generation.Pass
import BlockCode.Proofs.Number.Exact
import BlockCode.Proofs.Number.Overflow
import BlockCode.Proofs.Generation.Keeps

namespace BlockCode

open Number

/-! ## Real numbers and vast ones -/

/-- Whole numbers are real numbers, and so are floating-point numbers but NaN. -/
def Value.IsReal : Value → Prop
  | .int _ => True
  | .float x => x ≠ .nan
  | _ => False

/-- A whole number that no finite floating-point number is near. -/
def Value.IsVast : Value → Prop
  | .int i => Binary64.beyond ≤ i.natAbs
  | _ => False

theorem Value.IsReal.real? {v : Value} (h : v.IsReal) : ∃ x, v.real? = some x := by
  cases v with
  | int i => exact ⟨_, rfl⟩
  | float x =>
    cases x with
    | nan => exact absurd rfl h
    | _ => exact ⟨_, rfl⟩
  | _ => exact h.elim

theorem Value.IsVast.isReal {v : Value} (h : v.IsVast) : v.IsReal := by
  cases v <;> trivial

namespace Language

theorem isOrder_vast {v : Value} (h : v.IsVast) : isOrder v = .error .tooLarge := by
  cases v with
  | int i => exact if_pos ((Binary64.ofRatio_infinite_iff _ _).2 h)
  | _ => exact h.elim

theorem isOrder_real {v : Value} (h : v.IsReal) (hvast : ¬ v.IsVast) : isOrder v = .ok true := by
  cases v with
  | int i => exact if_neg fun hinf => hvast ((Binary64.ofRatio_infinite_iff _ _).1 hinf)
  | float x =>
    cases x with
    | nan => exact absurd rfl h
    | _ => rfl
  | _ => exact h.elim

theorem isOrder_unreal {v : Value} (h : ¬ v.IsReal) : isOrder v = .ok false := by
  cases v with
  | int i => exact absurd trivial h
  | float x =>
    cases x with
    | nan => rfl
    | _ => exact absurd (by simp [Value.IsReal]) h
  | _ => rfl

/-! ## Brackets -/

/-- The order is a number that the language gives to expressions which nothing can tear
apart, or to places which take any expression. -/
def IsSentinel (L : Language) (order : Value) : Prop :=
  L.atomicOrder.real? = order.real? ∨ L.noneOrder.real? = order.real?

/-- An expression that binds more weakly than its place wants, where neither order is a
sentinel. -/
def BindsWeakly (L : Language) (outer inner : Value) : Prop :=
  (∃ x y, outer.real? = some x ∧ inner.real? = some y ∧ x < y) ∧
    ¬ L.IsSentinel outer ∧ ¬ L.IsSentinel inner

theorem isFree_iff (L : Language) {order : Value} (h : order.IsReal) :
    L.isFree order = true ↔ L.IsSentinel order := by
  obtain ⟨x, hx⟩ := h.real?
  rw [isFree, Bool.or_eq_true, Value.same_number_iff hx, Value.same_number_iff hx, IsSentinel, hx]

theorem needsBrackets_iff (L : Language) {outer inner : Value} (houter : outer.IsReal)
    (hinner : inner.IsReal) : L.needsBrackets outer inner = true ↔ L.BindsWeakly outer inner := by
  obtain ⟨x, hx⟩ := houter.real?
  obtain ⟨y, hy⟩ := hinner.real?
  have hless : (∃ a b, outer.real? = some a ∧ inner.real? = some b ∧ a < b) ↔ x < y := by
    constructor
    · rintro ⟨a, b, ha, hb, hab⟩
      rw [hx, Option.some.injEq] at ha
      rw [hy, Option.some.injEq] at hb
      rwa [ha, hb]
    · intro h
      exact ⟨x, y, hx, hy, h⟩
  rw [BindsWeakly, hless, ← isFree_iff L houter, ← isFree_iff L hinner, ← Value.before?_iff hx hy]
  simp [needsBrackets, and_assoc]

/-! ## The expression in an input -/

/-- The expression of a block is plugged into the input of a name: it leaves `after` behind. -/
def Supplied (plugs : List Plug) (input : Value) (s : Session) (target : Block) (text : String)
    (inner : Value) (after : Session) : Prop :=
  ∃ plug, Plug.find plugs input = .ok (some plug) ∧ plug.target.head? = some target ∧
    plug.code s = (.ok (.expression text inner), after)

/-- An error about an order can be put into words: none of what it tells of the block and of the
order holds a whole number of too many digits. -/
def Tellable (b : Block) (order : Value) : Prop :=
  b.type.fits = true ∧ order.fits = true ∧ b.id.fits = true

/-- An error about an order, and nothing else has happened. -/
def RefusesOrder (outcome : Except Fault String × Session) (s : Session) : Prop :=
  ∃ e : GenerationError, e.kind = .invalidOrder ∧ outcome = (.error (.generation e), s)

variable {L : Language} {b target : Block} {plugs : List Plug} {input order outer inner : Value}
  {s after : Session} {text : String}

/-- What is said about an order: it is accepted, or an error about it is raised. -/
def judged (e : GenerationError) (order : Value) : Except Fault Unit := do
  if !(← isOrder order) then throw e.fault

/-- What is said about the order of a place. -/
def judgedOuter (b : Block) (outer : Value) : Except Fault Unit :=
  judged (.invalidOuterOrder b outer) outer

/-- What is said about the order of the expression that a block gives. -/
def judgedInner (target : Block) (inner : Value) : Except Fault Unit :=
  judged (.invalidInnerOrder target inner) inner

/-- The error is about the order of a block, and tells the type of the block and the order. -/
structure TellsOrder (e : GenerationError) (b : Block) (order : Value) : Prop where
  kind : e.kind = .invalidOrder
  told : e.told = [b.type, order]
  block : e.block = some b

theorem tellsOrder_outer (b : Block) (outer : Value) :
    TellsOrder (.invalidOuterOrder b outer) b outer := ⟨rfl, rfl, rfl⟩

theorem tellsOrder_inner (target : Block) (inner : Value) :
    TellsOrder (.invalidInnerOrder target inner) target inner := ⟨rfl, rfl, rfl⟩

section Judged

variable {e : GenerationError} (htells : TellsOrder e b order)
include htells

theorem TellsOrder.fits_iff :
    (e.told ++ (e.block.map (·.id)).toList).all (·.fits) = true ↔ Tellable b order := by
  simp [htells.told, htells.block, Tellable]

theorem judged_cases :
    (order.IsReal ∧ ¬ order.IsVast ∧ judged e order = .ok ()) ∨
    (order.IsVast ∧ judged e order = .error .tooLarge) ∨
    (¬ order.IsReal ∧ Tellable b order ∧ judged e order = .error (.generation e)) ∨
    (¬ order.IsReal ∧ ¬ Tellable b order ∧ judged e order = .error .wrongForm) := by
  unfold judged
  by_cases hvast : order.IsVast
  · rw [isOrder_vast hvast]
    exact Or.inr (Or.inl ⟨hvast, rfl⟩)
  · by_cases hreal : order.IsReal
    · rw [isOrder_real hreal hvast]
      exact Or.inl ⟨hreal, hvast, rfl⟩
    · rw [isOrder_unreal hreal]
      by_cases htell : Tellable b order
      · have hfault : e.fault = .generation e := if_pos (htells.fits_iff.mpr htell)
        exact Or.inr (Or.inr (Or.inl ⟨hreal, htell, congrArg Except.error hfault⟩))
      · have hfault : e.fault = .wrongForm := if_neg (mt htells.fits_iff.mp htell)
        exact Or.inr (Or.inr (Or.inr ⟨hreal, htell, congrArg Except.error hfault⟩))

theorem refused_iff : (∃ e' : GenerationError, e'.kind = .invalidOrder ∧
    judged e order = .error (.generation e')) ↔ ¬ order.IsReal ∧ Tellable b order := by
  rcases judged_cases htells with
    ⟨hreal, -, h⟩ | ⟨hvast, h⟩ | ⟨hreal, htell, h⟩ | ⟨-, htell, h⟩ <;> rw [h]
  · exact ⟨nofun, fun hnot => absurd hreal hnot.1⟩
  · exact ⟨nofun, fun hnot => absurd hvast.isReal hnot.1⟩
  · exact ⟨fun _ => ⟨hreal, htell⟩, fun _ => ⟨e, htells.kind, rfl⟩⟩
  · exact ⟨nofun, fun hnot => absurd hnot.2 htell⟩

theorem speechless_iff :
    judged e order = .error .wrongForm ↔ ¬ order.IsReal ∧ ¬ Tellable b order := by
  rcases judged_cases htells with
    ⟨hreal, -, h⟩ | ⟨hvast, h⟩ | ⟨-, htell, h⟩ | ⟨hreal, htell, h⟩ <;> rw [h]
  · exact ⟨nofun, fun hnot => absurd hreal hnot.1⟩
  · exact ⟨nofun, fun hnot => absurd hvast.isReal hnot.1⟩
  · exact ⟨nofun, fun hnot => absurd htell hnot.2⟩
  · exact ⟨fun _ => ⟨hreal, htell⟩, fun _ => rfl⟩

theorem stumbles_iff : judged e order = .error .tooLarge ↔ order.IsVast := by
  rcases judged_cases htells with
    ⟨-, hvast, h⟩ | ⟨hvast, h⟩ | ⟨hreal, -, h⟩ | ⟨hreal, -, h⟩ <;> rw [h]
  · exact ⟨nofun, fun h => absurd h hvast⟩
  · exact ⟨fun _ => hvast, fun _ => rfl⟩
  · exact ⟨nofun, fun hvast => absurd hvast.isReal hreal⟩
  · exact ⟨nofun, fun hvast => absurd hvast.isReal hreal⟩

end Judged

/-- An order about which something is said is the end of it, and no code is asked for. -/
theorem plugged_judged {fault : Fault} (h : judgedOuter b outer = .error fault)
    (plugs : List Plug) : L.plugged b plugs input outer s = (.error fault, s) := by
  unfold judgedOuter judged at h
  unfold plugged
  rcases hout : isOrder outer with found | _ | _
  · rw [hout] at h
    cases h
    rfl
  · rw [hout] at h
    cases h
    rfl
  · rw [hout] at h
    cases h

theorem plugged_supplied (h : outer.IsReal) (hvast : ¬ outer.IsVast)
    (hin : Supplied plugs input s target text inner after) :
    L.plugged b plugs input outer s =
      ((judgedInner target inner).map fun _ => L.bracketed text outer inner, after) := by
  obtain ⟨plug, hfind, htarget, hcode⟩ := hin
  unfold plugged judgedInner judged
  rw [isOrder_real h hvast, hfind]
  simp only [Effect.bind_apply, Effect.lift_apply, Bool.not_true, Bool.false_eq_true, if_false,
    htarget, hcode]
  rcases isOrder inner with _ | _ | _ <;> rfl

/-- Where no expression is plugged in, the order of the place makes no difference. -/
theorem plugged_unsupplied {other : Value} (houter : outer.IsReal ∧ ¬ outer.IsVast)
    (hother : other.IsReal ∧ ¬ other.IsVast)
    (hnone : ∀ target text inner after, ¬ Supplied plugs input s target text inner after) :
    L.plugged b plugs input outer s = L.plugged b plugs input other s := by
  unfold plugged
  rw [isOrder_real houter.1 houter.2, isOrder_real hother.1 hother.2]
  simp only [Effect.bind_apply, Effect.lift_apply, Bool.not_true, Bool.false_eq_true, if_false]
  rcases hfind : Plug.find plugs input with fault | _ | plug
  · rfl
  · rfl
  · simp only
    rcases htarget : plug.target.head? with _ | target
    · rfl
    · simp only [Effect.bind_apply]
      rcases hcode : plug.code s with ⟨fault | ⟨text⟩ | ⟨text, inner⟩, after⟩
      · rfl
      · rfl
      · exact absurd ⟨plug, hfind, htarget, hcode⟩ (hnone target text inner after)

/-- With nothing plugged in, an order that is a real number and not vast is no reason for an
error. The name may still be none that can be looked up. -/
theorem plugged_nothing (h : outer.IsReal) (hvast : ¬ outer.IsVast) :
    L.plugged b [] input outer s = (if input.isKey then .ok "" else .error .wrongKind, s) := by
  unfold plugged
  rw [isOrder_real h hvast]
  simp only [Effect.bind_apply, Effect.lift_apply, Bool.not_true, Bool.false_eq_true, if_false,
    Plug.find, Value.asKey]
  by_cases hkey : input.isKey = true
  · rw [if_pos hkey, if_pos hkey]
    rfl
  · rw [if_neg hkey, if_neg hkey]
    rfl

/-! ## The judgement of orders -/

/-- What is said about the order of a place is what comes of it with nothing plugged in. -/
theorem plugged_nothing_iff {fault : Fault} (hfault : fault ≠ .wrongKind) :
    L.plugged b [] input outer s = (.error fault, s) ↔ judgedOuter b outer = .error fault := by
  refine ⟨fun h => ?_, fun h => plugged_judged h []⟩
  rcases hsaid : judgedOuter b outer with found | _
  · rw [plugged_judged hsaid] at h
    cases h
    rfl
  · rcases judged_cases (tellsOrder_outer b outer) with
      ⟨hreal, hvast, -⟩ | ⟨-, hbad⟩ | ⟨-, -, hbad⟩ | ⟨-, -, hbad⟩
    · rw [plugged_nothing hreal hvast] at h
      split at h
      · cases h
      · cases h
        exact absurd rfl hfault
    all_goals
      rw [judgedOuter, hbad] at hsaid
      cases hsaid

/-- The order of a place is refused, and no code is asked for, whatever is plugged in. -/
theorem refuses_place_iff :
    (∀ plugs, RefusesOrder (L.plugged b plugs input outer s) s) ↔
      ¬ outer.IsReal ∧ Tellable b outer := by
  rw [← refused_iff (tellsOrder_outer b outer)]
  constructor
  · intro h
    obtain ⟨e, hkind, hout⟩ := h []
    have hfault : Fault.generation e ≠ .wrongKind := nofun
    exact ⟨e, hkind, (plugged_nothing_iff hfault).mp hout⟩
  · rintro ⟨e, hkind, hsaid⟩ plugs
    exact ⟨e, hkind, plugged_judged hsaid plugs⟩

theorem fails_at_place_iff (fault : Fault) (hfault : fault ≠ .wrongKind) :
    (∀ plugs, L.plugged b plugs input outer s = (.error fault, s)) ↔
      judgedOuter b outer = .error fault :=
  ⟨fun h => (plugged_nothing_iff hfault).mp (h []), plugged_judged⟩

theorem fails_at_expression_iff {fault : Fault} (h : outer.IsReal) (hvast : ¬ outer.IsVast)
    (hin : Supplied plugs input s target text inner after) :
    L.plugged b plugs input outer s = (.error fault, after) ↔
      judgedInner target inner = .error fault := by
  rw [plugged_supplied h hvast hin]
  rcases judgedInner target inner with found | _
  · simp [Except.map]
  · constructor <;> nofun

theorem refuses_expression_iff (h : outer.IsReal) (hvast : ¬ outer.IsVast)
    (hin : Supplied plugs input s target text inner after) :
    RefusesOrder (L.plugged b plugs input outer s) after ↔
      ¬ inner.IsReal ∧ Tellable target inner := by
  rw [← refused_iff (tellsOrder_inner target inner)]
  exact exists_congr fun e => and_congr_right' (fails_at_expression_iff h hvast hin)

/-- An expression whose order is accepted gets one pair of brackets if it binds more weakly
than its place wants, and else stands as it is. -/
theorem plugged_bracketed (h : outer.IsReal) (hvast : ¬ outer.IsVast)
    (hin : Supplied plugs input s target text inner after) (hreal : inner.IsReal)
    (hinner : ¬ inner.IsVast) :
    ∃ written, L.plugged b plugs input outer s = (.ok written, after) ∧
      (text ≠ "" ∧ L.BindsWeakly outer inner → written = "(" ++ text ++ ")") ∧
      (¬ (text ≠ "" ∧ L.BindsWeakly outer inner) → written = text) := by
  have hout : L.plugged b plugs input outer s = (.ok (L.bracketed text outer inner), after) := by
    rw [plugged_supplied h hvast hin, judgedInner, judged, isOrder_real hreal hinner]
    rfl
  refine ⟨L.bracketed text outer inner, hout, ?_, ?_⟩
  · rintro ⟨htext, hweak⟩
    rw [bracketed, (L.needsBrackets_iff h hreal).2 hweak]
    simp [htext]
  · intro hnot
    rw [← L.needsBrackets_iff h hreal] at hnot
    rw [bracketed, if_neg]
    simpa using hnot

/-- What comes of the expression in an input, by its order and the order of its place. The
place is judged before anything that is plugged in is asked for. An order that is no real
number is refused, unless the refusal cannot be put into words; one that is a whole number beyond
all floating-point numbers cannot be examined. Any other two orders decide about brackets, and
where no expression is plugged in the order of the place makes no difference. -/
theorem orders_judged_iff (L : Language) (b : Block) (input outer : Value) (s : Session) :
    ((∀ plugs, RefusesOrder (L.plugged b plugs input outer s) s) ↔
      ¬ outer.IsReal ∧ Tellable b outer) ∧
    ((∀ plugs, L.plugged b plugs input outer s = (.error .wrongForm, s)) ↔
      ¬ outer.IsReal ∧ ¬ Tellable b outer) ∧
    ((∀ plugs, L.plugged b plugs input outer s = (.error .tooLarge, s)) ↔ outer.IsVast) ∧
    (outer.IsReal → ¬ outer.IsVast → ∀ plugs,
      (∀ target text inner after, Supplied plugs input s target text inner after →
        (RefusesOrder (L.plugged b plugs input outer s) after ↔
          ¬ inner.IsReal ∧ Tellable target inner) ∧
        (L.plugged b plugs input outer s = (.error .wrongForm, after) ↔
          ¬ inner.IsReal ∧ ¬ Tellable target inner) ∧
        (L.plugged b plugs input outer s = (.error .tooLarge, after) ↔ inner.IsVast) ∧
        (inner.IsReal → ¬ inner.IsVast →
          ∃ written, L.plugged b plugs input outer s = (.ok written, after) ∧
            (text ≠ "" ∧ L.BindsWeakly outer inner → written = "(" ++ text ++ ")") ∧
            (¬ (text ≠ "" ∧ L.BindsWeakly outer inner) → written = text))) ∧
      ((∀ target text inner after, ¬ Supplied plugs input s target text inner after) →
        ∀ other : Value, other.IsReal → ¬ other.IsVast →
          L.plugged b plugs input outer s = L.plugged b plugs input other s)) := by
  have houterTells := tellsOrder_outer b outer
  refine ⟨refuses_place_iff, ?_, ?_, fun houter hvast plugs => ⟨?_, ?_⟩⟩
  · exact (fails_at_place_iff .wrongForm nofun).trans (speechless_iff houterTells)
  · exact (fails_at_place_iff .tooLarge nofun).trans (stumbles_iff houterTells)
  · intro target text inner after hin
    have hinnerTells := tellsOrder_inner target inner
    exact ⟨refuses_expression_iff houter hvast hin,
      (fails_at_expression_iff houter hvast hin).trans (speechless_iff hinnerTells),
      (fails_at_expression_iff houter hvast hin).trans (stumbles_iff hinnerTells),
      plugged_bracketed houter hvast hin⟩
  · intro hnone other hother hvast'
    exact plugged_unsupplied ⟨houter, hvast⟩ ⟨hother, hvast'⟩ hnone

/-! ## A sum in an input -/

/-- A language whose only expressions are sums. Its atomic order is the truth value that
counts as 0. -/
def sums (order : Value) : Language where
  name := .str "Sums"
  rules := [(.str "sum", fun _ _ => .done (.ok (.expression "a + b" order)))]
  atomicOrder := .bool false

def sumBlock : Block := { handle := 1, type := .str "sum", id := .str "b2", output := .bool true }

/-- A sum is plugged into the input of another block. -/
def sumPlugged : Workspace where
  nodes :=
    [{ block := { type := .str "place", id := .str "b1" },
       slots := [{ name := .str "X", kind := .value, target := some 1 }] },
     { block := sumBlock, parent := some 0 }]
  members := [0, 1]

/-- What is left behind when the sum was handed to its rule. -/
def sumHandled : Session := { pass := { handled := 1 } }

theorem sum_supplied (order : Value) : Supplied ((sums order).plugsAt sumPlugged 0) (.str "X") {}
    sumBlock "a + b" order sumHandled :=
  ⟨_, rfl, rfl, rfl⟩

theorem not_isVast_small {i : Int} (h : i.natAbs < 100) : ¬ (Value.int i).IsVast := by
  intro hvast
  have hbound : 100 ≤ Binary64.beyond := by decide +kernel
  have : Binary64.beyond ≤ i.natAbs := hvast
  omega

/-- A place of order two and a half wants brackets around a sum of order 3. -/
theorem sum_bracketed :
    (Value.float (.finite false 5 (-1))).IsReal ∧ ¬ (Value.float (.finite false 5 (-1))).IsVast ∧
    (Value.int 3).IsReal ∧ ¬ (Value.int 3).IsVast ∧
    (sums (.int 3)).BindsWeakly (.float (.finite false 5 (-1))) (.int 3) ∧
    Supplied ((sums (.int 3)).plugsAt sumPlugged 0) (.str "X") {} sumBlock "a + b" (.int 3)
      sumHandled ∧
    (sums (.int 3)).plugged {} ((sums (.int 3)).plugsAt sumPlugged 0) (.str "X")
      (.float (.finite false 5 (-1))) {} = (.ok "(a + b)", sumHandled) := by
  have houter : (Value.float (.finite false 5 (-1))).IsReal := by simp [Value.IsReal]
  have hsmall : ¬ (Value.int 3).IsVast := not_isVast_small (by decide)
  have hinner : (Value.int 3).IsReal := trivial
  have hweak : (sums (.int 3)).BindsWeakly (.float (.finite false 5 (-1))) (.int 3) :=
    ((sums (.int 3)).needsBrackets_iff houter hinner).1 (by decide +kernel)
  obtain ⟨written, hout, hbrackets, -⟩ :=
    (((orders_judged_iff (sums (.int 3)) {} (.str "X") (.float (.finite false 5 (-1))) {}).2.2.2
      houter (fun h => h) ((sums (.int 3)).plugsAt sumPlugged 0)).1
        sumBlock "a + b" (.int 3) sumHandled (sum_supplied _)).2.2.2 trivial hsmall
  rw [hbrackets ⟨by decide, hweak⟩] at hout
  exact ⟨houter, fun h => h, trivial, hsmall, hweak, sum_supplied _, hout⟩

/-- A whole number of 401 digits is a real number. Asking for an expression in a place of this
order stumbles, and so does asking for an expression of this order. -/
theorem vast_orders_stumble :
    (Value.int (10 ^ 400)).IsReal ∧
    (sums (.int 3)).valueAt sumPlugged 0 (.str "X") (.int (10 ^ 400)) {} =
      (.error .tooLarge, {}) ∧
    (sums (.int (10 ^ 400))).valueAt sumPlugged 0 (.str "X") (.int 3) {} =
      (.error .tooLarge, sumHandled) := by
  have hvast : (Value.int (10 ^ 400)).IsVast := by
    show Binary64.beyond ≤ _
    decide +kernel
  have houter : (Value.int 3).IsReal := trivial
  exact ⟨trivial, plugged_judged ((stumbles_iff (tellsOrder_outer _ _)).mpr hvast) _,
    (fails_at_expression_iff houter (not_isVast_small (by decide)) (sum_supplied _)).mpr
      ((stumbles_iff (tellsOrder_inner _ _)).mpr hvast)⟩

end Language
end BlockCode
